import Havuz.Lib.Interleave
import Havuz.Routing.Router

/-!
# The probe slot is given back

Reference: `havuz-pg/src/txn.rs`, where it chooses a target and where it reports what became of it.

Any number of sessions share a router. A session with no backend asks for a target when a message
comes, and what becomes of the exchange is reported to the breaker of the replica, or not: a session
whose parameters are refused, whose client goes away or whose flush fails reports nothing. An exchange
remembers, for the proofs alone, whether choosing its target took the probe slot of that replica.
-/

namespace Havuz.Routing

open Lib Sql

/-! ## Sessions around a router -/

/-- The slot of a half-open breaker is taken. -/
def taken (r : Router) (i : ℕ) : Bool :=
  match r.replicas[i]? with
  | some rep => rep.breaker.state == .halfOpen && rep.breaker.probeInFlight
  | none => false

/-- What a session does when the replica it used is lost. -/
inductive Recovery where
  /-- The exchange goes on with the primary: nobody was reached, or nothing was delivered yet. -/
  | primary
  /-- The next message chooses again: a write failed. -/
  | again
  | gone
deriving DecidableEq, Repr

/-- What becomes of an exchange. -/
inductive Outcome where
  /-- Answered. Is the session idle, and is it pinned? -/
  | success (idle pinned : Bool)
  | failure (recovery : Recovery)
  /-- The parameters of the session were refused. -/
  | refused
  /-- A flush failed, or a statement could not be closed or replayed. -/
  | broken
  /-- The client is gone, or was sent away. -/
  | disconnect
deriving DecidableEq, Repr

/-- Whether the relay calls `record_result`. -/
def Outcome.reports : Outcome → Bool
  | .success _ _ => true
  | .failure _ => true
  | _ => false

structure Exchange where
  route : Route
  probe : Bool := false
deriving DecidableEq, Repr

/-- A session, as far as it has to do with the router. -/
structure Client where
  routing : SessionRouting := {}
  /-- The target of the backend it keeps between exchanges. -/
  held : Option Route := none
  exchange : Option Exchange := none
  gone : Bool := false
deriving DecidableEq, Repr

inductive Event where
  /-- The first message of an exchange. -/
  | message (intent : RouteIntent) (now : ℕ)
  | outcome (o : Outcome) (now : ℕ)
  /-- The health monitor looks at a replica. -/
  | health (i : ℕ) (reading : Option (Option ℕ)) (now : ℕ)
deriving DecidableEq

/-- What a session does after its exchange has come to an end. -/
def Client.after (c : Client) (route : Route) : Outcome → Client
  | .success idle pinned =>
      { c with
        routing := if idle then c.routing.endTransaction else c.routing.beginTransaction route
        held := if idle && !pinned then none else some route
        exchange := none }
  | .failure recovery =>
      match route, recovery with
      | .replica _, .primary =>
          { c with held := none, exchange := some ⟨.primary .noReplicaAvailable, false⟩ }
      | .replica _, .again => { c with held := none, exchange := none }
      | _, _ => { c with held := none, exchange := none, gone := true }
  | _ => { c with held := none, exchange := none, gone := true }

/-- One event of a session. -/
def act (ev : Event) (r : Router) (c : Client) : Option (Router × Client) :=
  match ev with
  | .health i reading now => some (r.applyProbe i reading now, c)
  | .message intent now =>
      if c.gone ∨ c.exchange.isSome then none
      else
        match c.held with
        | some route => some (r, { c with exchange := some ⟨route, false⟩ })
        | none =>
            let d := r.decide intent c.routing now
            let probe :=
              match d.1 with
              | .primary _ => false
              | .replica i => taken d.2.2 i && !taken r i
            some (d.2.2, { c with routing := d.2.1, exchange := some ⟨d.1, probe⟩ })
  | .outcome o now =>
      match c.exchange with
      | none => none
      | some e =>
          let r :=
            match o with
            | .success _ _ => r.recordResult e.route true now
            | .failure _ => r.recordResult e.route false now
            | _ => r
          some (r, c.after e.route o)

/-- A router whose replicas have just been configured, and `n` sessions. -/
def new (config : RoutingConfig) (weights : List ℕ) (n : ℕ) : Procs Router Client :=
  ⟨{ config, replicas := weights.map fun w => { weight := max w 1, weight_pos := by omega } },
    List.replicate n {}⟩

/-- One turn of the system. -/
def step : Procs Router Client → ℕ × Event → Procs Router Client := Procs.step act

/-! ## The condition -/

/-- The router looks for a replica. -/
def looks (r : Router) (intent : RouteIntent) (s : SessionRouting) (now : ℕ) : Prop :=
  s.transactionRoute = none ∧ r.config.readWriteSplit = true ∧ r.replicas ≠ [] ∧ intent ≠ .write ∧
    s.isSticky now r.config.stickyAfterWrite = false

/-- The replica takes its slot when it is asked whether it is eligible. -/
def recovering (r : Router) (now i : ℕ) : Bool :=
  match r.replicas[i]? with
  | some rep =>
      !taken r i &&
        ((rep.isEligible r.config now).2.breaker.state == .halfOpen &&
          (rep.isEligible r.config now).2.breaker.probeInFlight)
  | none => false

theorem lt_of_recovering {r : Router} {now i : ℕ} (h : recovering r now i = true) :
    i < r.replicas.length := by
  by_contra hge
  simp [recovering, List.getElem?_eq_none (Nat.le_of_not_lt hge)] at h

/-- The turn of the round-robin is with this replica. -/
def aimsAt (r : Router) (now i : ℕ) : Prop :=
  pickAt (r.cursor % ((r.eligible now).map Prod.snd).sum) 0 (r.eligible now) = some i

instance (r : Router) (now i : ℕ) : Decidable (aimsAt r now i) := inferInstanceAs (Decidable (_ = _))

/-- The condition under which a slot is given back: when the router looks for a replica, every one that
takes its slot is the one whose turn it is; and an exchange that took the slot of its replica is
answered or fails there. -/
structure Answered (w : Procs Router Client) (l : ℕ × Event) : Prop where
  chooses : ∀ c intent now, w.procs[l.1]? = some c → l.2 = .message intent now →
    looks w.shared intent c.routing now → ∀ i, recovering w.shared now i = true → aimsAt w.shared now i
  answers : ∀ c e o now, w.procs[l.1]? = some c → l.2 = .outcome o now → c.exchange = some e →
    e.probe = true → o.reports = true

theorem Answered.health (w : Procs Router Client) (k i : ℕ) (reading : Option (Option ℕ)) (now : ℕ) :
    Answered w (k, .health i reading now) :=
  ⟨fun _ _ _ _ hev => (by cases hev), fun _ _ _ _ _ hev => (by cases hev)⟩

/-! ## What sets and clears a slot -/

theorem taken_modify {r : Router} {i j : ℕ} {f : Replica → Replica}
    (hf : ∀ rep, (f rep).breaker.probeInFlight = false)
    (h : taken { r with replicas := r.replicas.modify i f } j = true) : j ≠ i ∧ taken r j = true := by
  unfold taken at h ⊢
  rw [List.getElem?_modify] at h
  by_cases hij : i = j
  · cases hrep : r.replicas[j]? with
    | none => simp [hrep] at h
    | some rep => simp [hrep, hij, hf] at h
  · have hne : j ≠ i := fun h => hij h.symm
    cases hrep : r.replicas[j]? with
    | none => simp [hrep] at h
    | some rep => exact ⟨hne, by simpa [hrep, hij] using h⟩

theorem record_clears (cfg : RoutingConfig) (now : ℕ) (success : Bool) (rep : Replica) :
    (rep.record cfg now success).breaker.probeInFlight = false := by
  cases success <;> simp [Replica.record]

/-- A report clears the slot of the replica it is about, and sets none. -/
theorem taken_recordResult {r : Router} {route : Route} {success : Bool} {now i : ℕ}
    (h : taken (r.recordResult route success now) i = true) : route ≠ .replica i ∧ taken r i = true := by
  cases route with
  | primary reason => exact ⟨nofun, h⟩
  | replica k =>
      obtain ⟨hne, htaken⟩ := taken_modify (record_clears _ _ _) h
      exact ⟨fun heq => hne (by cases heq; rfl), htaken⟩

theorem taken_applyProbe {r : Router} {k : ℕ} {reading : Option (Option ℕ)} {now i : ℕ}
    (h : taken (r.applyProbe k reading now) i = true) : taken r i = true := by
  refine (taken_modify (fun rep => ?_) h).2
  cases reading with
  | none => exact record_clears _ _ _ _
  | some lag => exact record_clears _ _ _ _

theorem decide_of_looks {r : Router} {intent : RouteIntent} {s : SessionRouting} {now : ℕ}
    (h : looks r intent s now) :
    r.decide intent s now =
      match r.pickReplica now with
      | (some i, r) => (.replica i, s, r)
      | (none, r) => (.primary .noReplicaAvailable, s, r) := by
  obtain ⟨hroute, hsplit, hsome, hread, hfresh⟩ := h
  unfold Router.decide
  rw [hroute]
  cases hpick : r.pickReplica now with
  | mk picked r' =>
      cases picked with
      | none => simp [hsplit, hsome, hread, hfresh]
      | some i => simp [hsplit, hsome, hread, hfresh]

theorem decide_of_not_looks {r : Router} {intent : RouteIntent} {s : SessionRouting} {now : ℕ}
    (h : ¬ looks r intent s now) : (r.decide intent s now).2.2 = r := by
  unfold Router.decide
  cases hroute : s.transactionRoute with
  | some route => cases route <;> rfl
  | none =>
      by_cases hoff : (!r.config.readWriteSplit) = true ∨ r.replicas = []
      · simp only [if_pos hoff]
      by_cases hwrite : intent = .write
      · simp only [if_neg hoff, if_pos hwrite]
      cases hrecent : s.isSticky now r.config.stickyAfterWrite with
      | true => simp only [if_neg hoff, if_neg hwrite, if_true]
      | false =>
          -- None of the reasons not to look applies.
          rw [not_or] at hoff
          exact absurd ⟨hroute, by simpa using hoff.1, hoff.2, hwrite, hrecent⟩ h

theorem pickReplica_replicas (r : Router) (now : ℕ) :
    (r.pickReplica now).2.replicas = (r.asked now).map Prod.snd := by
  unfold Router.pickReplica
  dsimp only
  split <;> rfl

/-- All that a decision does to the slots: every one it sets is the one of a recovering replica, and it
sets none unless the router looks for a replica. -/
theorem taken_decide {r : Router} {intent : RouteIntent} {s : SessionRouting} {now i : ℕ}
    (h : taken (r.decide intent s now).2.2 i = true) :
    taken r i = true ∨ (looks r intent s now ∧ recovering r now i = true) := by
  by_cases hlooks : looks r intent s now
  · cases hbefore : taken r i with
    | true => exact .inl rfl
    | false =>
        refine .inr ⟨hlooks, ?_⟩
        have hreplicas : (r.decide intent s now).2.2.replicas = (r.asked now).map Prod.snd := by
          rw [decide_of_looks hlooks, ← pickReplica_replicas]
          obtain ⟨picked, r'⟩ := r.pickReplica now
          cases picked <;> rfl
        unfold taken at h
        rw [hreplicas, Router.asked, List.map_map, List.getElem?_map] at h
        unfold recovering
        cases hrep : r.replicas[i]? with
        | none => simp [hrep] at h
        | some rep => simpa [hrep, hbefore] using h
  · rw [decide_of_not_looks hlooks] at h
    exact .inl h

/-- When the router looks, the target is the replica whose turn it is. -/
theorem decide_aimed {r : Router} {intent : RouteIntent} {s : SessionRouting} {now i : ℕ}
    (hlooks : looks r intent s now) (haim : aimsAt r now i) :
    (r.decide intent s now).1 = .replica i := by
  have hsome : (r.eligible now).isEmpty = false := by
    cases helig : r.eligible now with
    | nil =>
        rw [aimsAt, helig] at haim
        cases haim
    | cons => rfl
  have hpick : (r.pickReplica now).1 = some i := by
    unfold Router.pickReplica
    simp only [hsome, Bool.false_eq_true, if_false]
    exact haim
  rw [decide_of_looks hlooks]
  revert hpick
  obtain ⟨picked, r'⟩ := r.pickReplica now
  rintro rfl
  rfl

/-! ## Runs -/

/-- Session `j` runs an exchange that took the slot of replica `i`. -/
def Owns (w : Procs Router Client) (i j : ℕ) : Prop :=
  ∃ c, w.procs[j]? = some c ∧ c.exchange = some ⟨.replica i, true⟩

/-- Every slot that is taken is the slot of an exchange. -/
def Owned (w : Procs Router Client) : Prop := ∀ i, taken w.shared i = true → ∃ j, Owns w i j

theorem Owns.frame {w : Procs Router Client} {i j k : ℕ} {r : Router} {c : Client} (h : Owns w i j)
    (hne : j ≠ k) : Owns ⟨r, w.procs.set k c⟩ i j := by
  obtain ⟨c', hc', he⟩ := h
  exact ⟨c', by rw [List.getElem?_set_ne (Ne.symm hne)]; exact hc', he⟩

theorem Owned.step {w : Procs Router Client} {l : ℕ × Event} (h : Owned w) (ok : Answered w l) :
    Owned (step w l) := by
  obtain hsame | ⟨c, r', c', hc, hact, hstep⟩ := w.step_cases act l
  · rw [Routing.step, hsame]
    exact h
  rw [Routing.step, hstep]
  intro i htaken
  have hset : (w.procs.set l.1 c')[l.1]? = some c' := getElem?_set_self_of c' hc
  unfold act at hact
  split at hact
  case h_1 k reading now hev =>
    cases hact
    obtain ⟨j, hj⟩ := h i (taken_applyProbe htaken)
    refine ⟨j, ?_⟩
    by_cases hne : j = l.1
    · obtain ⟨c'', hc'', he⟩ := hj
      rw [hne, hc] at hc''
      cases hc''
      exact ⟨c, hne ▸ hset, he⟩
    · exact hj.frame hne
  case h_2 intent now hev =>
    split at hact
    case isTrue => cases hact
    case isFalse hidle =>
      rw [not_or] at hidle
      have hnone : c.exchange = none := by simpa using hidle.2
      -- The session that moves has no exchange, so it owns no slot.
      have hother : ∀ j, Owns w i j → j ≠ l.1 := by
        rintro j ⟨c'', hc'', he⟩ rfl
        rw [hc] at hc''
        cases hc''
        rw [hnone] at he
        cases he
      split at hact
      case h_1 =>
        cases hact
        obtain ⟨j, hj⟩ := h i htaken
        exact ⟨j, hj.frame (hother j hj)⟩
      case h_2 =>
        cases hact
        obtain hbefore | ⟨hlooks, hrec⟩ := taken_decide htaken
        · obtain ⟨j, hj⟩ := h i hbefore
          exact ⟨j, hj.frame (hother j hj)⟩
        · have haim := ok.chooses c intent now hc hev hlooks i hrec
          have hroute := decide_aimed hlooks haim
          have hfree : taken w.shared i = false := by
            unfold recovering at hrec
            split at hrec
            · simp_all
            · cases hrec
          have htaken' : taken (w.shared.decide intent c.routing now).2.2 i = true := htaken
          refine ⟨l.1, _, hset, ?_⟩
          simp [hroute, htaken', hfree]
  case h_3 o now hev =>
    split at hact
    case h_1 => cases hact
    case h_2 e he =>
      cases hact
      -- The exchange that owns the slot is still there: its end would have cleared it.
      have hbefore : taken w.shared i = true ∧ (o.reports = true → e.route ≠ .replica i) := by
        cases o with
        | success idle pinned =>
            obtain ⟨hne, hbefore⟩ := taken_recordResult htaken
            exact ⟨hbefore, fun _ => hne⟩
        | failure recovery =>
            obtain ⟨hne, hbefore⟩ := taken_recordResult htaken
            exact ⟨hbefore, fun _ => hne⟩
        | _ => exact ⟨htaken, nofun⟩
      obtain ⟨j, hj⟩ := h i hbefore.1
      refine ⟨j, hj.frame ?_⟩
      rintro rfl
      obtain ⟨c'', hc'', he'⟩ := hj
      rw [hc] at hc''
      cases hc''
      rw [he] at he'
      cases he'
      exact hbefore.2 (ok.answers c _ o now hc hev he rfl) rfl

theorem Owned.new (config : RoutingConfig) (weights : List ℕ) (n : ℕ) :
    Owned (Routing.new config weights n) := by
  intro i htaken
  exfalso
  unfold taken Routing.new at htaken
  simp only [List.getElem?_map] at htaken
  cases hw : weights[i]? <;> simp [hw] at htaken

/-- How the exchange session `j` is running comes to its end, if it does. -/
def ending (j : ℕ) : List (ℕ × Event) → Option Outcome
  | [] => none
  | (k, .outcome o _) :: ls => if k = j then some o else ending j ls
  | (_, .message _ _) :: ls => ending j ls
  | (_, .health _ _ _) :: ls => ending j ls

/-- An exchange that took a slot reports in the end. -/
theorem Owns.reports {w : Procs Router Client} {ls : List (ℕ × Event)} {i j : ℕ} {o : Outcome}
    (h : Owns w i j) (hrun : Along step Answered w ls) (hend : ending j ls = some o) :
    o.reports = true := by
  induction ls generalizing w with
  | nil => cases hend
  | cons l ls ih =>
      obtain ⟨ok, hrest⟩ := hrun
      obtain ⟨c, hc, he⟩ := h
      obtain ⟨k, ev⟩ := l
      by_cases hk : k = j
      · subst hk
        cases ev with
        | outcome o' now =>
            simp only [ending, if_true] at hend
            cases hend
            exact ok.answers c _ o now hc rfl he rfl
        | message intent now =>
            -- While an exchange is running no new one is begun.
            have hsame : step w (k, .message intent now) = w := by
              simp [step, Procs.step, hc, act, he]
            exact ih ⟨c, by rw [hsame]; exact hc, he⟩ hrest hend
        | health k' reading now =>
            refine ih ⟨c, ?_, he⟩ hrest hend
            simp only [step, Procs.step, hc, act]
            exact getElem?_set_self_of c hc
      · have hsame : (step w (k, ev)).procs[j]? = some c := by
          rw [step, Procs.step_other act w (k, ev) (Ne.symm hk)]
          exact hc
        refine ih ⟨c, hsame, he⟩ hrest ?_
        cases ev with
        | outcome o' now => simpa only [ending, if_neg hk] using hend
        | message intent now => exact hend
        | health k' reading now => exact hend

/-- Three failed health probes trip the breaker of a replica. -/
def threeFailed (i : ℕ) : List (ℕ × Event) := List.replicate 3 (0, .health i none 0)

end Havuz.Routing
