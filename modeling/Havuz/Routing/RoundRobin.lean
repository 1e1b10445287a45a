import Mathlib.Data.List.Rotate
import Havuz.Lib.Interleave
import Havuz.Routing.Router

/-!
# Weighted round robin

Reference: `Router::pick_replica` of `havuz-pg/src/routing.rs`.

Any number of sessions pick at the same time. A pick asks the replicas one after the other and then takes
one value of the shared cursor. In between other sessions pick, and reports and the health monitor change
what a replica will answer. `picks` is kept for the proofs alone: who was eligible and what was picked, in
the order in which the cursor was taken.

A cursor value picks the replica at that place of `shares`, the list that has every eligible replica as often
as its weight says, so a window of the cursor as long as that list is a rotation of it.
-/

namespace Havuz.RoundRobin

open Lib

/-! ## The shares of a list of weights -/

/-- Every eligible replica as often as its weight says. -/
def shares (eligible : List (ℕ × ℕ)) : List ℕ := eligible.flatMap fun e => List.replicate e.2 e.1

theorem shares_cons (e : ℕ × ℕ) (rest : List (ℕ × ℕ)) : shares (e :: rest) = List.replicate e.2 e.1 ++ shares rest :=
  List.flatMap_cons

theorem length_shares (eligible : List (ℕ × ℕ)) : (shares eligible).length = (eligible.map Prod.snd).sum := by
  induction eligible with
  | nil => rfl
  | cons e rest ih => rw [shares_cons, List.length_append, List.length_replicate, ih, List.map_cons, List.sum_cons]

theorem pickAt_eq {eligible : List (ℕ × ℕ)} {accumulated position : ℕ} (h : accumulated ≤ position) :
    pickAt position accumulated eligible = (shares eligible)[position - accumulated]? := by
  induction eligible generalizing accumulated with
  | nil => rfl
  | cons e rest ih =>
      obtain ⟨i, w⟩ := e
      rw [pickAt, shares_cons]
      by_cases hin : position < accumulated + w
      · rw [if_pos hin, List.getElem?_append_left (by rw [List.length_replicate]; omega),
          List.getElem?_replicate_of_lt (by omega)]
      · rw [if_neg hin, ih (by omega), List.getElem?_append_right (by rw [List.length_replicate]; omega),
          List.length_replicate, Nat.sub_sub]

theorem count_shares_of_notMem {eligible : List (ℕ × ℕ)} {i : ℕ} (h : i ∉ eligible.map Prod.fst) :
    (shares eligible).count i = 0 := by
  refine List.count_eq_zero_of_not_mem fun hi => h ?_
  obtain ⟨e, he, hmem⟩ := List.mem_flatMap.mp hi
  rw [List.eq_of_mem_replicate hmem]
  exact List.mem_map_of_mem he

theorem count_shares_of_mem {eligible : List (ℕ × ℕ)} {i w : ℕ} (hnodup : (eligible.map Prod.fst).Nodup)
    (h : (i, w) ∈ eligible) : (shares eligible).count i = w := by
  induction eligible with
  | nil => cases h
  | cons e rest ih =>
      rw [List.map_cons, List.nodup_cons] at hnodup
      rw [shares_cons, List.count_append, List.count_replicate]
      obtain rfl | hrest := List.mem_cons.mp h
      · rw [count_shares_of_notMem hnodup.1]
        simp
      · -- another replica has another index
        have hne : e.1 ≠ i := fun heq => hnodup.1 (heq ▸ List.mem_map_of_mem hrest)
        rw [ih hnodup.2 hrest]
        simp [hne]

/-- What as many consecutive cursor values pick as there are shares. -/
theorem window_eq_rotate (eligible : List (ℕ × ℕ)) (cursor : ℕ) :
    ((List.range (eligible.map Prod.snd).sum).map fun k =>
      pickAt ((cursor + k) % (eligible.map Prod.snd).sum) 0 eligible) = ((shares eligible).rotate cursor).map some := by
  rw [← length_shares]
  refine List.ext_getElem? fun k => ?_
  rw [List.getElem?_map, List.getElem?_map]
  by_cases hk : k < (shares eligible).length
  · have hpick : (cursor + k) % (shares eligible).length < (shares eligible).length := Nat.mod_lt _ (by omega)
    rw [List.getElem?_range hk, List.getElem?_rotate hk, Nat.add_comm k cursor, Option.map_some,
      pickAt_eq (Nat.zero_le _), Nat.sub_zero, List.getElem?_eq_getElem hpick]
    rfl
  · rw [List.getElem?_eq_none (by rw [List.length_range]; omega),
      List.getElem?_eq_none (by rw [List.length_rotate]; omega)]
    rfl

/-! ## Sessions that pick -/

/-- Where a session is in `pick_replica`. -/
inductive Stage where
  | idle
  /-- The first `k` replicas were asked, and those in the list said yes. -/
  | asking (k : ℕ) (eligible : List (ℕ × ℕ))
deriving DecidableEq, Repr

/-- A pick that was made. -/
structure Pick where
  /-- The eligible replicas, with their weights. -/
  eligible : List (ℕ × ℕ)
  chosen : Option ℕ
deriving DecidableEq, Repr

/-- What the sessions share. -/
structure Shared where
  router : Router
  picks : List Pick := []
deriving DecidableEq

inductive Turn where
  | enter
  /-- `is_eligible` of the next replica. -/
  | ask (now : ℕ)
  /-- All were asked: take the cursor and choose. -/
  | choose
  /-- A report or the health monitor leaves a replica like this. -/
  | world (i : ℕ) (lag : Option ℕ) (breaker : Breaker)
deriving DecidableEq

/-- What a cursor value chooses, and the cursor after that. -/
def choice (cursor : ℕ) (eligible : List (ℕ × ℕ)) : Option ℕ × ℕ :=
  if eligible.isEmpty then (none, cursor)
  else (pickAt (cursor % (eligible.map Prod.snd).sum) 0 eligible, (cursor + 1) % 2 ^ 64)

/-- One turn of a session. -/
def act (m : Turn) (s : Shared) (p : Stage) : Option (Shared × Stage) :=
  match m, p with
  | .enter, .idle => some (s, .asking 0 [])
  | .ask now, .asking k eligible =>
      match s.router.replicas[k]? with
      | none => none
      | some r =>
          let (yes, r') := r.isEligible s.router.config now
          some ({ s with router := { s.router with replicas := s.router.replicas.set k r' } },
            .asking (k + 1) (if yes then eligible ++ [(k, r.weight)] else eligible))
  | .choose, .asking k eligible =>
      if k < s.router.replicas.length then none
      else
        let (chosen, cursor) := choice s.router.cursor eligible
        some (⟨{ s.router with cursor }, s.picks ++ [⟨eligible, chosen⟩]⟩, .idle)
  | .world i lag breaker, p =>
      some ({ s with
        router := { s.router with replicas := s.router.replicas.modify i fun r => { r with lag, breaker } } }, p)
  | _, _ => none

def step : Procs Shared Stage → ℕ × Turn → Procs Shared Stage := Procs.step act

/-- A router and `n` sessions. -/
def start (r : Router) (n : ℕ) : Procs Shared Stage := ⟨⟨r, []⟩, List.replicate n .idle⟩

/-! ### A session on its own -/

/-- Asking what is left of the replicas. -/
theorem run_ask (r : Router) (now : ℕ) (picks : List Pick) (done rest : List Replica) (eligible : List (ℕ × ℕ))
    (h : r.replicas = done ++ rest) :
    run step ⟨⟨r, picks⟩, [.asking done.length eligible]⟩ (List.replicate rest.length (0, .ask now)) =
      ⟨⟨{ r with replicas := done ++ rest.map fun x => (x.isEligible r.config now).2 }, picks⟩,
        [.asking (done.length + rest.length) (eligible ++
          (((rest.map (Replica.isEligible r.config now)).zipIdx done.length).filter fun a => a.1.1).map
            fun a => (a.2, a.1.2.weight))]⟩ := by
  induction rest generalizing r done eligible with
  | nil =>
      obtain ⟨cfg, replicas, cursor⟩ := r
      subst h
      simp
  | cons x rest ih =>
      have hget : r.replicas[done.length]? = some x := by simp [h]
      have hset : r.replicas.set done.length (x.isEligible r.config now).2 =
          (done ++ [(x.isEligible r.config now).2]) ++ rest := by simp [h]
      rw [List.length_cons, List.replicate_succ, run_cons]
      have hstep : step ⟨⟨r, picks⟩, [.asking done.length eligible]⟩ (0, .ask now) =
          ⟨⟨{ r with replicas := (done ++ [(x.isEligible r.config now).2]) ++ rest }, picks⟩,
            [.asking (done ++ [(x.isEligible r.config now).2]).length
              (if (x.isEligible r.config now).1 then eligible ++ [(done.length, x.weight)] else eligible)]⟩ := by
        simp [step, Procs.step, act, hget, hset]
      rw [hstep, ih _ _ _ rfl]
      cases hyes : (x.isEligible r.config now).1 <;> simp [hyes, Nat.add_assoc, Nat.add_comm 1]

/-- A pick that no other session interrupts is `pick_replica`. -/
theorem pick_alone (r : Router) (now : ℕ) (picks : List Pick) :
    run step ⟨⟨r, picks⟩, [.idle]⟩
        ((0, .enter) :: List.replicate r.replicas.length (0, .ask now) ++ [(0, .choose)]) =
      ⟨⟨(r.pickReplica now).2, picks ++ [⟨r.eligible now, (r.pickReplica now).1⟩]⟩, [.idle]⟩ := by
  have hasked := run_ask r now picks [] r.replicas [] rfl
  rw [List.length_nil, List.nil_append, List.nil_append, Nat.zero_add] at hasked
  have henter : step ⟨⟨r, picks⟩, [.idle]⟩ (0, .enter) = ⟨⟨r, picks⟩, [.asking 0 []]⟩ := rfl
  rw [List.cons_append, run_cons, run_append, henter, hasked, run_cons, run_nil]
  have heligible : r.eligible now =
      (((r.replicas.map (Replica.isEligible r.config now)).zipIdx 0).filter fun a => a.1.1).map
        fun a => (a.2, a.1.2.weight) := rfl
  rw [← heligible]
  simp only [step, Procs.step, act, List.getElem?_cons_zero, List.length_map, lt_irrefl, if_false, choice,
    Router.pickReplica, Router.asked, List.map_map]
  split <;> rfl

/-! ## What a run does -/

/-- All replicas with their weights. -/
def entries (weights : List ℕ) : List (ℕ × ℕ) := weights.zipIdx.map Prod.swap

theorem nodup_entries (weights : List ℕ) : ((entries weights).map Prod.fst).Nodup := by
  have hindex : (entries weights).map Prod.fst = List.range weights.length := by
    rw [entries, List.map_map, List.range_eq_range', ← List.zipIdx_map_snd 0 weights]
    rfl
  rw [hindex]
  exact List.nodup_range

theorem getElem?_entries (weights : List ℕ) (k : ℕ) : (entries weights)[k]? = weights[k]?.map fun w => (k, w) := by
  simp [entries, List.getElem?_zipIdx, Function.comp_def]

theorem mem_entries {weights : List ℕ} {i w : ℕ} : (i, w) ∈ entries weights ↔ weights[i]? = some w := by
  simp [entries, List.mem_zipIdx_iff_getElem?]

/-- The replicas keep their weights, and what a session found eligible is in order. -/
structure Listed (weights : List ℕ) (w : Procs Shared Stage) : Prop where
  same : w.shared.router.replicas.map Replica.weight = weights
  asking : ∀ p ∈ w.procs, ∀ k e, p = .asking k e → e.Sublist ((entries weights).take k)
  picks : ∀ p ∈ w.shared.picks, p.eligible.Sublist (entries weights)

theorem listed_start (r : Router) (n : ℕ) : Listed (r.replicas.map Replica.weight) (start r n) where
  same := rfl
  asking := by
    rintro p hp k e rfl
    cases List.eq_of_mem_replicate hp
  picks := nofun

/-- What a turn of a session does. -/
inductive Turned (s : Shared) (p : Stage) : Shared → Stage → Prop
  | enter (hp : p = .idle) : Turned s p s (.asking 0 [])
  | ask {k : ℕ} {e : List (ℕ × ℕ)} {r r' : Replica} (yes : Bool) (hp : p = .asking k e)
      (hr : s.router.replicas[k]? = some r) (hw : r'.weight = r.weight) :
      Turned s p { s with router := { s.router with replicas := s.router.replicas.set k r' } }
        (.asking (k + 1) (if yes then e ++ [(k, r.weight)] else e))
  | choose {k : ℕ} {e : List (ℕ × ℕ)} (hp : p = .asking k e) :
      Turned s p
        ⟨{ s.router with cursor := (choice s.router.cursor e).2 },
          s.picks ++ [⟨e, (choice s.router.cursor e).1⟩]⟩ .idle
  | world (i : ℕ) (lag : Option ℕ) (breaker : Breaker) :
      Turned s p { s with
        router := { s.router with replicas := s.router.replicas.modify i fun r => { r with lag, breaker } } } p

theorem turned_of_act {m : Turn} {s s' : Shared} {p p' : Stage} (h : act m s p = some (s', p')) :
    Turned s p s' p' := by
  unfold act at h
  split at h
  · cases h
    exact .enter rfl
  · split at h
    case h_1 => cases h
    case h_2 r hr =>
      cases h
      exact .ask _ rfl hr (Replica.isEligible_weight _ _ _)
  · split at h
    · cases h
    · cases h
      exact .choose rfl
  · cases h
    exact .world _ _ _
  · cases h

theorem listed_step {weights : List ℕ} (w : Procs Shared Stage) (l : ℕ × Turn) (h : Listed weights w) :
    Listed weights (step w l) := by
  obtain hsame | ⟨p, s, p', hp, hact, hstep⟩ := w.step_cases act l
  · rwa [step, hsame]
  rw [step, hstep]
  have hmem : p ∈ w.procs := List.mem_of_getElem? hp
  have hothers : ∀ p'' : Stage, (∀ k e, p'' = .asking k e → e.Sublist ((entries weights).take k)) →
      ∀ q ∈ w.procs.set l.1 p'', ∀ k e, q = .asking k e → e.Sublist ((entries weights).take k) := by
    intro p'' hnew q hq
    obtain rfl | hq := mem_of_mem_set hq
    · exact hnew
    · exact h.asking q hq
  cases turned_of_act hact with
  | enter => exact ⟨h.same, hothers (.asking 0 []) fun k e heq => by cases heq; exact List.nil_sublist _, h.picks⟩
  | @ask k e r r' yes hpe hr hw =>
      refine ⟨?_, hothers (.asking (k + 1) _) fun k' e' heq => ?_, h.picks⟩
      · rw [List.map_set, hw, ← h.same]
        refine List.ext_getElem? fun j => ?_
        by_cases hj : k = j
        · subst hj
          rw [List.getElem?_map, hr]
          exact getElem?_set_self_of _ (by rw [List.getElem?_map, hr]; rfl)
        · rw [List.getElem?_set_ne hj]
      · cases heq
        have hold := h.asking p hmem k e hpe
        have hentry : (entries weights)[k]? = some (k, r.weight) := by
          rw [getElem?_entries, ← h.same, List.getElem?_map, hr]
          rfl
        rw [List.take_add_one, hentry]
        cases yes
        · exact hold.trans (List.sublist_append_left _ _)
        · exact hold.append (List.Sublist.refl _)
  | @choose k e hpe =>
      refine ⟨h.same, hothers .idle nofun, fun q hq => ?_⟩
      obtain hq | hq := List.mem_append.mp hq
      · exact h.picks q hq
      · cases List.mem_singleton.mp hq
        exact (h.asking p hmem k e hpe).trans (List.take_sublist _ _)
  | world i lag breaker =>
      refine ⟨?_, hothers p (h.asking p hmem), h.picks⟩
      rw [← h.same]
      refine List.ext_getElem? fun j => ?_
      simp only [List.getElem?_map, List.getElem?_modify]
      cases w.shared.router.replicas[j]? <;> by_cases hj : i = j <;> simp [hj]

/-- The picks that lists of eligible replicas come to, one after the other. -/
def outcomes : ℕ → List (List (ℕ × ℕ)) → List Pick
  | _, [] => []
  | cursor, e :: es => ⟨e, (choice cursor e).1⟩ :: outcomes (choice cursor e).2 es

/-- However the sessions take turns, the cursor gives each pick the next value. -/
theorem run_picks (w : Procs Shared Stage) (ls : List (ℕ × Turn)) :
    ∃ es, (run step w ls).shared.picks = w.shared.picks ++ outcomes w.shared.router.cursor es := by
  induction ls generalizing w with
  | nil => exact ⟨[], (List.append_nil _).symm⟩
  | cons l ls ih =>
      rw [run_cons]
      obtain ⟨es, hes⟩ := ih (step w l)
      obtain hsame | ⟨p, s, p', hp, hact, hstep⟩ := w.step_cases act l
      · rw [step, hsame] at hes
        exact ⟨es, by rw [step, hsame, hes]⟩
      · rw [hes, step, hstep]
        cases turned_of_act hact with
        | enter => exact ⟨es, rfl⟩
        | ask => exact ⟨es, rfl⟩
        | @choose k e => exact ⟨e :: es, by rw [outcomes, List.append_assoc]; rfl⟩
        | world => exact ⟨es, rfl⟩

/-- The same replicas again and again, while the cursor does not wrap. -/
theorem outcomes_replicate {e : List (ℕ × ℕ)} (he : e ≠ []) {cursor n : ℕ} (h : cursor + n < 2 ^ 64) :
    outcomes cursor (List.replicate n e) =
      (List.range n).map fun k => ⟨e, pickAt ((cursor + k) % (e.map Prod.snd).sum) 0 e⟩ := by
  induction n generalizing cursor with
  | zero => rfl
  | succ n ih =>
      have hchoice : choice cursor e = (pickAt (cursor % (e.map Prod.snd).sum) 0 e, cursor + 1) := by
        rw [choice, if_neg (by simpa using he), Nat.mod_eq_of_lt (show cursor + 1 < 2 ^ 64 by omega)]
      rw [List.replicate_succ, outcomes, hchoice, ih (by omega), List.range_succ_eq_map, List.map_cons, List.map_map]
      refine congrArg _ (List.map_congr_left fun k _ => ?_)
      show _ = Pick.mk e (pickAt ((cursor + (k + 1)) % _) 0 e)
      rw [Nat.add_assoc, Nat.add_comm 1 k]

theorem map_eligible_outcomes (cursor : ℕ) (es : List (List (ℕ × ℕ))) : (outcomes cursor es).map Pick.eligible = es := by
  induction es generalizing cursor with
  | nil => rfl
  | cons e es ih => rw [outcomes, List.map_cons, ih]

/-- A pick fails only where nobody is eligible, whatever the cursor. -/
theorem choice_eq_none_iff {weights : List ℕ} (hpos : ∀ w ∈ weights, 0 < w) {e : List (ℕ × ℕ)}
    (he : e.Sublist (entries weights)) (cursor : ℕ) : (choice cursor e).1 = none ↔ e = [] := by
  constructor
  · intro h
    by_contra hne
    obtain ⟨⟨i, w⟩, rest, rfl⟩ := List.exists_cons_of_ne_nil hne
    have hw : 0 < w := hpos w (List.mem_of_getElem? (mem_entries.mp (he.subset List.mem_cons_self)))
    have hsum : 0 < (((i, w) :: rest).map Prod.snd).sum := by
      rw [List.map_cons, List.sum_cons]
      omega
    rw [choice, if_neg (by simp), pickAt_eq (Nat.zero_le _), List.getElem?_eq_none_iff, length_shares] at h
    have hlt := Nat.mod_lt cursor hsum
    omega
  · rintro rfl
    rfl

/-- The eligible replicas of a router, with their weights. -/
def eligibleOf (r : Router) (yes : ℕ → Bool) : List (ℕ × ℕ) :=
  (entries (r.replicas.map Replica.weight)).filter fun a => yes a.1

/-- **Weighted round robin is exact.** Any number of sessions pick from a router with any replicas and any
cursor. A pick returns nothing exactly where nobody is eligible; and as many consecutive picks as the weights of
the eligible replicas sum up to, all with the same eligible ones and without the cursor wrapping, choose each
replica as often as its weight says if it is eligible and never if it is not. -/
theorem picks_exactly (r : Router) (n : ℕ) (before window : List (ℕ × Turn)) :
    (∀ p ∈ (run step (start r n) before).shared.picks, p.chosen = none ↔ p.eligible = []) ∧
      ∀ yes : ℕ → Bool, eligibleOf r yes ≠ [] →
        let w := run step (start r n) before
        let picks := (run step w window).shared.picks.drop w.shared.picks.length
        let total := ((eligibleOf r yes).map Prod.snd).sum
        (∀ p ∈ picks, p.eligible = eligibleOf r yes) → picks.length = total →
        w.shared.router.cursor + total < 2 ^ 64 →
        ∀ i rep, r.replicas[i]? = some rep →
          picks.countP (fun p => p.chosen = some i) = if yes i then rep.weight else 0 := by
  have hlisted : ∀ ls, Listed (r.replicas.map Replica.weight) (run step (start r n) ls) := fun ls =>
    run_invariant listed_step (listed_start r n) ls
  constructor
  · -- every pick of the run is the choice some cursor value makes
    intro p hp
    obtain ⟨es, hes⟩ := run_picks (start r n) before
    have hsub := (hlisted before).picks p hp
    have hpos : ∀ w ∈ r.replicas.map Replica.weight, 0 < w := by
      intro w hw
      obtain ⟨rep, -, rfl⟩ := List.mem_map.mp hw
      exact rep.weight_pos
    have hchoice : ∀ (cursor : ℕ) (es : List (List (ℕ × ℕ))), p ∈ outcomes cursor es →
        ∃ c, p.chosen = (choice c p.eligible).1 := by
      intro cursor es
      induction es generalizing cursor with
      | nil => exact nofun
      | cons e es ih =>
          intro hp
          obtain rfl | hp := List.mem_cons.mp hp
          · exact ⟨cursor, rfl⟩
          · exact ih _ hp
    rw [hes] at hp
    obtain ⟨c, hc⟩ := hchoice _ es hp
    rw [hc]
    exact choice_eq_none_iff hpos hsub c
  · intro yes he w picks total hsame hlength hwrap i rep hrep
    obtain ⟨es, hes⟩ := run_picks w window
    have hpicks : picks = outcomes w.shared.router.cursor es := by
      show List.drop _ _ = _
      rw [hes, List.drop_left]
    have hlist : es = List.replicate total (eligibleOf r yes) := by
      rw [← map_eligible_outcomes w.shared.router.cursor es, ← hpicks, ← hlength, List.eq_replicate_iff]
      refine ⟨List.length_map _, fun e' he' => ?_⟩
      obtain ⟨p, hp, rfl⟩ := List.mem_map.mp he'
      exact hsame p hp
    have hchosen : picks.map Pick.chosen = ((shares (eligibleOf r yes)).rotate w.shared.router.cursor).map some := by
      rw [hpicks, hlist, outcomes_replicate he hwrap, List.map_map, ← window_eq_rotate]
      rfl
    have hcount : picks.countP (fun p => p.chosen = some i) = (shares (eligibleOf r yes)).count i := by
      have hmap : picks.countP (fun p => p.chosen = some i) = (picks.map Pick.chosen).count (some i) := by
        rw [List.count, List.countP_map]
        refine List.countP_congr fun p _ => ?_
        simp
      rw [hmap, hchosen, List.count_map_of_injective _ _ (Option.some_injective _), (List.rotate_perm _ _).count_eq]
    have hentry : (i, rep.weight) ∈ entries (r.replicas.map Replica.weight) :=
      mem_entries.mpr (by rw [List.getElem?_map, hrep]; rfl)
    have hnodup : ((eligibleOf r yes).map Prod.fst).Nodup :=
      (List.filter_sublist.map Prod.fst).nodup (nodup_entries _)
    rw [hcount]
    cases hyes : yes i with
    | true => exact count_shares_of_mem hnodup (List.mem_filter.mpr ⟨hentry, hyes⟩)
    | false =>
        refine count_shares_of_notMem fun hi => ?_
        obtain ⟨a, ha, rfl⟩ := List.mem_map.mp hi
        rw [(List.mem_filter.mp ha).2] at hyes
        cases hyes

def twoReplicas : Router := ⟨{}, [⟨1, by decide, none, {}⟩, ⟨2, by decide, none, {}⟩], 5⟩

/-- Three picks of two sessions, two of them at the same time. -/
def overlapping : List (ℕ × Turn) :=
  [(0, .enter), (0, .ask 0), (1, .enter), (1, .ask 0), (1, .ask 0), (0, .ask 0), (1, .choose), (0, .choose),
    (1, .enter), (1, .ask 0), (1, .ask 0), (1, .choose)]

theorem picks_exactly_overlapping :
    (run step (start twoReplicas 2) overlapping).shared.picks.countP (fun p => p.chosen = some 1) = 2 :=
  (picks_exactly twoReplicas 2 [] overlapping).2 (fun _ => true) (by decide) (by decide) (by decide) (by decide) 1
    ⟨2, by decide, none, {}⟩ rfl

end Havuz.RoundRobin
