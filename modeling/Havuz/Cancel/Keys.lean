import Havuz.Cancel.Model

/-!
# A key points at its own session's backend

`retarget_cancel` is called after every change to the held backend, and the change comes first: a
session that gives its backend back still names it with its key until the next action. `Prompt` says
that no backend is given back while the key names it.
-/

namespace Havuz.Cancel

open Lib

variable {T : Type}

/-! ## The condition -/

/-- The key of the session was pointed at its checkout. -/
def Pc.points : Pc → Bool
  | .ready => true
  | .forwarding => true
  | .replaying => true
  | .leaving => true
  | _ => false

/-- The move drops the checkout. -/
def Move.drops : Move → Bool
  | .release => true
  | .lose => true
  | .leave _ => true
  | _ => false

/-- The condition under which a key never points at somebody else's backend: a checkout the key was
pointed at is not dropped, unless its server gave no key to cancel it by. A session that ends turns its
key away first. -/
def Prompt (target : ℕ → Option T) (w : Procs (Shared T) Session) (l : ℕ × Move) : Prop :=
  ∀ s ∈ w.procs[l.1]?, s.pc.points = true → l.2.drops = true → s.checkout.bind target = none

instance [DecidableEq T] (target : ℕ → Option T) (w : Procs (Shared T) Session) (l : ℕ × Move) :
    Decidable (Prompt target w l) :=
  inferInstanceAs (Decidable (∀ s ∈ w.procs[l.1]?, _))

/-! ## One action -/

/-- What the registry says about a session whose key is in step with it. -/
def Session.entry (target : ℕ → Option T) (s : Session) : Option (Option T) :=
  if s.pc = .gone then none else some (if s.pc.points then s.checkout.bind target else none)

/-- A broken checkout was dropped, and no other one is taken yet. -/
def Pc.vacant : Pc → Bool
  | .lost => true
  | .recovering => true
  | _ => false

/-- All that an action can do. -/
inductive Action (target : ℕ → Option T) (m : Move) (sh : Shared T) (s : Session) :
    Shared T → Session → Prop
  | acquires (i : Option ℕ) (pc : Pc) {sh' : Shared T} {s' : Session} (hnow : s.pc ≠ .gone)
      (hpc : pc.points = false) (hgone : pc ≠ .gone) (hvacant : pc.vacant = false)
      (h : acquire i pc sh s = some (sh', s')) :
      Action target m sh s sh' s'
  | scopes (hpc : s.pc = .greeting) :
      Action target m sh s { sh with registry := sh.registry.scope.2 }
        { s with key := some sh.registry.scope.1, pc := .greeted }
  | drops (discard : Bool) (pc : Pc) (hnow : s.pc ≠ .gone) (hgone : pc ≠ .gone)
      (hdrops : s.pc.points = true → m.drops = true) :
      Action target m sh s (drop discard pc sh s).1 (drop discard pc sh s).2
  | retargets (pc : Pc) (held : Option ℕ) (hnow : s.pc ≠ .gone) (hgone : pc ≠ .gone)
      (hheld : held = if pc.points then s.checkout else none) (hvacant : pc.vacant = true → s.pc = .lost) :
      Action target m sh s (retargetCancel target pc sh s held).1 (retargetCancel target pc sh s held).2
  | passes (pc : Pc) (hgone : pc ≠ .gone) (hvacant : pc.vacant = false)
      (hentry : (s.pc.vacant = true → s.checkout = none) →
        Session.entry target { s with pc } = s.entry target) :
      Action target m sh s sh { s with pc }
  | ends (hkey : s.key = none) : Action target m sh s sh { s with pc := .gone }
  | unregisters (key : ℕ) (hkey : s.key = some key) :
      Action target m sh s { sh with registry := sh.registry.unregister key } { s with pc := .gone }

theorem Action.of_retarget {target : ℕ → Option T} {m : Move} {sh sh' : Shared T} {s s' : Session}
    {pc : Pc} {held : Option ℕ} (h : some (retargetCancel target pc sh s held) = some (sh', s'))
    (hnow : s.pc ≠ .gone) (hgone : pc ≠ .gone) (hheld : held = if pc.points then s.checkout else none)
    (hvacant : pc.vacant = true → s.pc = .lost) : Action target m sh s sh' s' := by
  have haction : Action target m sh s (retargetCancel target pc sh s held).1
      (retargetCancel target pc sh s held).2 := .retargets pc held hnow hgone hheld hvacant
  rw [Option.some.inj h] at haction
  exact haction

theorem act_action {target : ℕ → Option T} {m : Move} {sh sh' : Shared T} {s s' : Session}
    (h : act target m sh s = some (sh', s')) : Action target m sh s sh' s' := by
  unfold act at h
  split at h
  case h_1 hpc => exact .acquires _ .greeting (by simp [hpc]) rfl nofun rfl h
  case h_2 hpc =>
    cases h
    exact .scopes hpc
  case h_3 hpc =>
    cases h
    exact .drops _ _ (by simp [hpc]) nofun (fun hpoints => (by simp [hpc, Pc.points] at hpoints))
  case h_4 hpc =>
    cases h
    exact .drops _ _ (by simp [hpc]) nofun fun _ => rfl
  case h_5 hpc => exact .acquires _ .acquired (by simp [hpc]) rfl nofun rfl h
  case h_6 hpc =>
    split at h
    case isTrue =>
      cases h
      exact .passes .forwarding nofun rfl fun _ => by simp [Session.entry, hpc, Pc.points]
    case isFalse => cases h
  case h_7 hpc =>
    cases h
    exact .passes .leaving nofun rfl fun _ => by simp [Session.entry, hpc, Pc.points]
  case h_8 hpc =>
    split at h
    case isTrue => cases h
    case isFalse hnone =>
      cases h
      refine .passes .returned nofun rfl fun _ => ?_
      simp_all [Session.entry, Pc.points]
  case h_9 hpc =>
    cases h
    exact .passes .installed nofun rfl fun _ => by simp [Session.entry, hpc, Pc.points]
  case h_12 hpc =>
    cases h
    exact .passes .ready nofun rfl fun _ => by simp [Session.entry, hpc, Pc.points]
  case h_19 hpc =>
    cases h
    refine .passes .ready nofun rfl fun hvacant => ?_
    have hnone := hvacant (by rw [hpc]; rfl)
    simp [Session.entry, hpc, Pc.points, hnone]
  case h_20 hpc =>
    cases h
    exact .passes .returned nofun rfl fun _ => by simp [Session.entry, hpc, Pc.points]
  case h_21 hpc => exact .acquires _ .reacquired (by simp [hpc]) rfl nofun rfl h
  case h_28 hpc =>
    split at h
    case h_1 hkey =>
      cases h
      exact .ends hkey
    case h_2 key hkey =>
      cases h
      exact .unregisters key hkey
  case h_29 => cases h
  case h_11 hpc =>
    exact .of_retarget h (by simp [hpc]) nofun rfl nofun
  case h_13 hpc =>
    exact .of_retarget h (by simp [hpc]) nofun rfl nofun
  case h_17 hpc =>
    exact .of_retarget h (by simp [hpc]) nofun rfl nofun
  case h_18 hpc =>
    exact .of_retarget h (by simp [hpc]) nofun rfl (fun _ => hpc)
  case h_22 hpc =>
    exact .of_retarget h (by simp [hpc]) nofun rfl nofun
  case h_23 hpc =>
    exact .of_retarget h (by simp [hpc]) nofun rfl nofun
  case h_26 hpc =>
    exact .of_retarget h (by simp [hpc]) nofun rfl nofun
  all_goals
    rename_i hpc
    cases h
    exact .drops _ _ (by simp [hpc]) nofun fun _ => rfl

/-! ## A connection has one owner -/

/-- Whether the session has connection `b` checked out. -/
def Session.holds (b : ℕ) (s : Session) : ℕ := if s.checkout = some b then 1 else 0

/-- How often a connection is on a shelf or checked out. -/
def copies (w : Procs (Shared T) Session) (b : ℕ) : ℕ :=
  w.shared.idle.count b + total (Session.holds b) w.procs

/-- Every connection is in one place at most, and one that was not opened yet in none. -/
structure Exclusive (w : Procs (Shared T) Session) : Prop where
  once : ∀ b, copies w b ≤ 1
  fresh : ∀ b, w.shared.opened ≤ b → copies w b = 0

theorem acquire_cases {i : Option ℕ} {pc : Pc} {sh sh' : Shared T} {s s' : Session}
    (h : acquire i pc sh s = some (sh', s')) :
    s.checkout = none ∧ ∃ b, s' = { s with checkout := some b, pc } ∧ sh'.registry = sh.registry ∧
      ((b = sh.opened ∧ sh'.idle = sh.idle ∧ sh'.opened = sh.opened + 1) ∨
        (sh.idle.Perm (b :: sh'.idle) ∧ sh'.opened = sh.opened)) := by
  unfold acquire at h
  split at h
  case h_1 => cases h
  case h_2 hnone =>
    refine ⟨hnone, ?_⟩
    cases i with
    | none =>
        cases h
        exact ⟨_, rfl, rfl, .inl ⟨rfl, rfl, rfl⟩⟩
    | some i =>
        cases hget : sh.idle[i]? with
        | none =>
            simp only [take, hget] at h
            cases h
        | some b =>
            simp only [take, hget] at h
            cases h
            obtain ⟨hlt, heq⟩ := List.getElem?_eq_some_iff.mp hget
            refine ⟨b, rfl, rfl, .inr ⟨?_, rfl⟩⟩
            rw [← heq]
            exact (List.getElem_cons_eraseIdx_perm hlt).symm

/-- An action makes no copy of a connection: it moves one between the shelf and the session, or the
session gets one that is new. -/
theorem Action.custody {target : ℕ → Option T} {m : Move} {sh sh' : Shared T} {s s' : Session}
    (h : Action target m sh s sh' s') :
    sh.opened ≤ sh'.opened ∧ ∀ b, sh'.idle.count b + s'.holds b ≤ sh.idle.count b + s.holds b ∨
      (b = sh.opened ∧ sh.opened < sh'.opened ∧
        sh'.idle.count b + s'.holds b ≤ sh.idle.count b + s.holds b + 1) := by
  cases h with
  | acquires i pc _ _ _ _ h =>
      obtain ⟨hnone, b, rfl, -, ⟨rfl, hidle, hopened⟩ | ⟨hperm, hopened⟩⟩ := acquire_cases h
      · refine ⟨by omega, fun b => ?_⟩
        rw [hidle]
        by_cases hb : b = sh.opened
        · exact .inr ⟨hb, by omega, by simp [Session.holds, hnone, hb]⟩
        · exact .inl (by simp [Session.holds, hnone, Ne.symm hb])
      · refine ⟨by omega, fun b' => .inl ?_⟩
        rw [hperm.count_eq, List.count_cons]
        simp only [Session.holds, hnone, Option.some.injEq, beq_iff_eq]
        split <;> simp
  | scopes _ => exact ⟨le_rfl, fun _ => .inl le_rfl⟩
  | drops discard pc _ _ _ =>
      cases hco : s.checkout with
      | none => exact ⟨by simp [drop, give, hco], fun b => .inl (by simp [drop, give, hco, Session.holds])⟩
      | some b =>
          cases discard with
          | true =>
              exact ⟨by simp [drop, give, hco], fun b => .inl (by simp [drop, give, hco, Session.holds])⟩
          | false =>
              refine ⟨by simp [drop, give, hco], fun b' => .inl ?_⟩
              simp [drop, give, hco, Session.holds, List.count_append, List.count_singleton]
  | retargets pc held _ _ _ _ =>
      unfold retargetCancel
      split <;> exact ⟨le_rfl, fun _ => .inl le_rfl⟩
  | passes pc _ _ _ => exact ⟨le_rfl, fun _ => .inl le_rfl⟩
  | ends _ => exact ⟨le_rfl, fun _ => .inl le_rfl⟩
  | unregisters key _ => exact ⟨le_rfl, fun _ => .inl le_rfl⟩

theorem Exclusive.step {target : ℕ → Option T} {w : Procs (Shared T) Session} {l : ℕ × Move}
    (h : Exclusive w) : Exclusive (step target w l) := by
  obtain hsame | ⟨s, sh', s', hs, hact, hstep⟩ := w.step_cases (act target) l
  · rw [Cancel.step, hsame]
    exact h
  rw [Cancel.step, hstep]
  obtain ⟨hopened, hcount⟩ := (act_action hact).custody
  have hcopies (b : ℕ) : copies ⟨sh', w.procs.set l.1 s'⟩ b + (w.shared.idle.count b + s.holds b) =
      copies w b + (sh'.idle.count b + s'.holds b) := by
    have hsum := total_set (Session.holds b) s' hs
    unfold copies
    dsimp only
    omega
  refine ⟨fun b => ?_, fun b hb => ?_⟩
  · have hmoved := hcopies b
    obtain hle | ⟨rfl, -, hle⟩ := hcount b
    · have honce := h.once b
      omega
    · have hnone := h.fresh _ le_rfl
      omega
  · have hmoved := hcopies b
    have hnone := h.fresh b (hopened.trans hb)
    obtain hle | ⟨rfl, hlt, -⟩ := hcount b
    · omega
    · have hlt' : sh'.opened ≤ w.shared.opened := hb
      omega

theorem Exclusive.new (T : Type) (n : ℕ) : Exclusive (Cancel.new T n) := by
  have hnone (b : ℕ) : copies (Cancel.new T n) b = 0 := by
    simp [copies, Cancel.new, total_replicate, Session.holds]
  exact ⟨fun b => by rw [hnone]; omega, fun b _ => hnone b⟩

/-- Two sessions never have the same connection checked out. -/
theorem Exclusive.ne {w : Procs (Shared T) Session} (h : Exclusive w) {i j b : ℕ} {s s' : Session}
    (hne : j ≠ i) (hi : w.procs[i]? = some s) (hj : w.procs[j]? = some s') (hs : s.checkout = some b) :
    s'.checkout ≠ some b := by
  intro hs'
  -- Take the connection away from one of the two: the other one still counts.
  have hsum := total_set (Session.holds b) { s with checkout := none } hi
  have hmem : s' ∈ w.procs.set i { s with checkout := none } := by
    apply List.mem_of_getElem? (i := j)
    rw [List.getElem?_set_ne (Ne.symm hne)]
    exact hj
  have hone := le_total (Session.holds b) hmem
  have honce := h.once b
  simp only [copies, Session.holds, hs, hs', if_true] at hsum hone honce
  simp at hsum
  omega

/-! ## A key is in step with its session -/

/-- What an action has to do with keys. -/
structure KeyEffect (target : ℕ → Option T) (sh : Shared T) (s : Session) (sh' : Shared T)
    (s' : Session) : Prop where
  entry : ∀ key, s'.key = some key → sh'.registry.entries key = s'.entry target
  others : ∀ key, s.key ≠ some key → key < sh.registry.nextId →
    sh'.registry.entries key = sh.registry.entries key
  nextId : sh.registry.nextId ≤ sh'.registry.nextId
  issued : ∀ key, s'.key = some key →
    s.key = some key ∨ (key = sh.registry.nextId ∧ key < sh'.registry.nextId)
  vacant : s'.pc.vacant = true → s'.checkout = none

theorem entry_of_points_false {target : ℕ → Option T} {s : Session} (hgone : s.pc ≠ .gone)
    (h : (if s.pc.points then s.checkout.bind target else none) = none) :
    s.entry target = some none := by
  rw [Session.entry, if_neg hgone, h]

theorem retarget_entries {r : CancelRegistry T} {key : ℕ} {held : Option T} {e : Option T}
    (h : r.entries key = some e) :
    (r.retarget key held).entries = Function.update r.entries key (some held) := by
  simp only [CancelRegistry.retarget, h]

theorem Action.keys {target : ℕ → Option T} {m : Move} {sh sh' : Shared T} {s s' : Session}
    (h : Action target m sh s sh' s') (hvacant : s.pc.vacant = true → s.checkout = none)
    (hentry : ∀ key, s.key = some key → sh.registry.entries key = s.entry target)
    (hprompt : s.pc.points = true → m.drops = true → s.checkout.bind target = none) :
    KeyEffect target sh s sh' s' := by
  cases h with
  | acquires i pc hnow hpc hgone hvac h =>
      obtain ⟨hnone, b, rfl, hreg, -⟩ := acquire_cases h
      refine ⟨fun key hkey => ?_, fun _ _ _ => by rw [hreg], by rw [hreg], fun _ hkey => .inl hkey,
        fun hnow => by simp [hvac] at hnow⟩
      rw [hreg, hentry key hkey, entry_of_points_false hnow (by simp [hnone]),
        entry_of_points_false hgone (by simp [hpc])]
  | scopes hpc =>
      refine ⟨fun key hkey => ?_, fun key _ hlt => ?_, Nat.le_succ _, fun key hkey => ?_, nofun⟩
      · cases hkey
        exact Function.update_self _ _ _
      · exact Function.update_of_ne (Nat.ne_of_lt hlt) _ _
      · cases hkey
        exact .inr ⟨rfl, Nat.lt_succ_self _⟩
  | drops discard pc hnow hgone hdrops =>
      have hreg : (drop discard pc sh s).1.registry = sh.registry := by
        unfold drop give
        repeat' split
        all_goals rfl
      refine ⟨fun key hkey => ?_, fun _ _ _ => by rw [hreg], by rw [hreg], fun _ hkey => .inl hkey,
        fun _ => rfl⟩
      -- The key pointed at nothing before, or the condition says so.
      have hbefore : (if s.pc.points then s.checkout.bind target else none) = none := by
        split
        case isTrue hpoints => exact hprompt hpoints (hdrops hpoints)
        case isFalse => rfl
      rw [hreg, hentry key hkey, entry_of_points_false hnow hbefore,
        entry_of_points_false hgone (by split <;> rfl)]
  | retargets pc held hnow hgone hheld hvac =>
      have hafter : Session.entry target { s with pc } = some (held.bind target) := by
        rw [Session.entry, if_neg hgone, hheld]
        split <;> rfl
      unfold retargetCancel
      split
      case h_1 hkey =>
        refine ⟨fun key hsome => ?_, fun _ _ _ => rfl, le_rfl, fun _ hsome => .inl hsome, fun hnow => ?_⟩
        · rw [show s.key = some key from hsome] at hkey
          cases hkey
        · exact hvacant (by rw [hvac hnow]; rfl)
      case h_2 key hkey =>
        have hpresent := hentry key hkey
        rw [Session.entry, if_neg hnow] at hpresent
        refine ⟨fun key' hsome => ?_, fun key' hne _ => ?_, ?_, fun _ hsome => .inl hsome, fun hnow => ?_⟩
        · rw [show s.key = some key' from hsome] at hkey
          cases hkey
          rw [hafter]
          dsimp only
          rw [retarget_entries hpresent, Function.update_self]
        · dsimp only
          rw [retarget_entries hpresent]
          exact Function.update_of_ne (fun heq => hne (by rw [heq]; exact hkey)) _ _
        · show _ ≤ (sh.registry.retarget key (held.bind target)).nextId
          unfold CancelRegistry.retarget
          split <;> exact le_rfl
        · exact hvacant (by rw [hvac hnow]; rfl)
  | passes pc hgone hvac hsame =>
      refine ⟨fun key hkey => ?_, fun _ _ _ => rfl, le_rfl, fun _ hkey => .inl hkey, fun hnow => ?_⟩
      · rw [hsame hvacant]
        exact hentry key hkey
      · simp [hvac] at hnow
  | ends hkey =>
      refine ⟨fun key hsome => ?_, fun _ _ _ => rfl, le_rfl, fun _ hsome => .inl hsome, nofun⟩
      rw [show s.key = some key from hsome] at hkey
      cases hkey
  | unregisters key hkey =>
      refine ⟨fun key' hsome => ?_, fun key' hne _ => ?_, le_rfl, fun _ hsome => .inl hsome, nofun⟩
      · rw [show s.key = some key' from hsome] at hkey
        cases hkey
        exact Function.update_self _ _ _
      · exact Function.update_of_ne (fun heq => hne (by rw [heq]; exact hkey)) _ _

/-- What holds in every state of a prompt run. -/
structure InStep (target : ℕ → Option T) (w : Procs (Shared T) Session) : Prop where
  entry : ∀ (i : ℕ) (s : Session), w.procs[i]? = some s → ∀ key, s.key = some key →
    w.shared.registry.entries key = s.entry target
  issued : ∀ (i : ℕ) (s : Session), w.procs[i]? = some s → ∀ key, s.key = some key →
    key < w.shared.registry.nextId
  distinct : ∀ (i j : ℕ) (s s' : Session) (key : ℕ), i ≠ j → w.procs[i]? = some s →
    w.procs[j]? = some s' → s.key = some key → s'.key ≠ some key
  vacant : ∀ (i : ℕ) (s : Session), w.procs[i]? = some s → s.pc.vacant = true → s.checkout = none

theorem InStep.step {target : ℕ → Option T} {w : Procs (Shared T) Session} {l : ℕ × Move}
    (h : InStep target w) (ok : Prompt target w l) : InStep target (step target w l) := by
  obtain hsame | ⟨s, sh', s', hs, hact, hstep⟩ := w.step_cases (act target) l
  · rw [Cancel.step, hsame]
    exact h
  rw [Cancel.step, hstep]
  have heffect := (act_action hact).keys (h.vacant l.1 s hs) (h.entry l.1 s hs) (ok s hs)
  -- The key of another session is not the one of this session, before the action and after it.
  have hother : ∀ j t key, j ≠ l.1 → w.procs[j]? = some t → t.key = some key → s'.key ≠ some key := by
    intro j t key hne ht hkey hkey'
    obtain hold | ⟨rfl, -⟩ := heffect.issued key hkey'
    · exact h.distinct l.1 j s t key (Ne.symm hne) hs ht hold hkey
    · exact absurd (h.issued j t ht _ hkey) (lt_irrefl _)
  refine ⟨fun j t ht key hkey => ?_, fun j t ht key hkey => ?_, fun i j t t' key hne ht ht' hkey => ?_,
    fun j t ht hnow => ?_⟩
  · obtain ⟨rfl, rfl⟩ | ⟨hne, ht⟩ := getElem?_set_cases ht
    · exact heffect.entry key hkey
    · show sh'.registry.entries key = _
      rw [heffect.others key (fun hkey' => h.distinct j l.1 t s key hne ht hs hkey hkey')
        (h.issued j t ht key hkey)]
      exact h.entry j t ht key hkey
  · obtain ⟨rfl, rfl⟩ | ⟨hne, ht⟩ := getElem?_set_cases ht
    · obtain hold | ⟨-, hlt⟩ := heffect.issued key hkey
      · exact lt_of_lt_of_le (h.issued l.1 s hs key hold) heffect.nextId
      · exact hlt
    · exact lt_of_lt_of_le (h.issued j t ht key hkey) heffect.nextId
  · obtain ⟨hi, rfl⟩ | ⟨hi, hold⟩ := getElem?_set_cases ht
    · obtain ⟨hj, -⟩ | ⟨hj, hold'⟩ := getElem?_set_cases ht'
      · exact absurd (hi.trans hj.symm) hne
      · exact fun hkey' => hother j t' key hj hold' hkey' hkey
    · obtain ⟨-, rfl⟩ | ⟨-, hold'⟩ := getElem?_set_cases ht'
      · exact hother i t key hi hold hkey
      · exact h.distinct i j t t' key hne hold hold' hkey
  · obtain ⟨rfl, rfl⟩ | ⟨hne, ht⟩ := getElem?_set_cases ht
    · exact heffect.vacant hnow
    · exact h.vacant j t ht hnow

theorem InStep.new (target : ℕ → Option T) (n : ℕ) : InStep target (Cancel.new T n) := by
  have hfresh : ∀ (i : ℕ) (s : Session), (Cancel.new T n).procs[i]? = some s → s = {} :=
    fun i s hs => List.eq_of_mem_replicate (List.mem_of_getElem? hs)
  refine ⟨fun i s hs key hkey => ?_, fun i s hs key hkey => ?_, fun i j s s' key _ hs _ hkey => ?_,
    fun i s hs hnow => ?_⟩
  all_goals
    cases hfresh i s hs
    first | cases hkey | cases hnow

/-- A session with a backend in a transaction, whose key points at it. -/
def inTransaction : List (ℕ × Move) :=
  [(0, .acquire none), (0, .go), (0, .go), (0, .acquire (some 0)), (0, .go), (0, .go)]

end Havuz.Cancel
