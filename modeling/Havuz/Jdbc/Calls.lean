import Mathlib
import Havuz.Lib.Run
import Havuz.Text

/-!
# Calls of the agent and the reader of its answers

Reference: `Agent::call`, `spawn_reader` and `dispatch` of `havuz-jdbc/src/agent.rs`.

A call looks whether the agent is alive, takes an id, leaves its sender in the map of those that wait, writes its line
and waits. The reader hands every line to the sender registered for its id; when stdout closes it says the agent is dead
and empties the map. Each of these is a step of its own, in any order.

Where the sender of a call is, is the invariant (`Registered`): in the map, in the reader's hand, or used. A call that
has looked and not yet registered when the map is emptied leaves its sender where nobody takes it out again.
-/

namespace Havuz.Jdbc.Calls

open Lib

/-! ## The state -/

/-- What a caller gets. `ρ` is what `outcome` makes of a document. -/
inductive Result (ρ : Type) where
  | answered (r : ρ)
  | gone (reason : Text)
  | transport
  | timeout
deriving DecidableEq, Repr

/-- Where a call is. -/
inductive Phase (ρ : Type) where
  /-- The agent was alive. -/
  | checked
  /-- It has an id. -/
  | numbered
  /-- Its sender is registered, the line is not written. -/
  | inserted
  | waiting
  /-- The write failed, the sender is still registered. -/
  | failed
  /-- So it is when the wait was too long. -/
  | timedOut
  | returned (r : Result ρ)
  /-- The caller is gone. -/
  | cancelled
deriving DecidableEq, Repr

structure Call (ρ : Type) where
  phase : Phase ρ
  /-- Its id, from the moment it has one. -/
  id : Option Nat := none
  /-- How many lines had been dispatched when it was registered. -/
  mark : Nat := 0
  /-- What its channel holds. -/
  inbox : Option (Result ρ) := none
deriving DecidableEq, Repr

/-- Where the reader is. -/
inductive Reader (ρ : Type) where
  | reading
  /-- The sender of a call is out of the map. -/
  | sending (k : Nat) (r : ρ)
  /-- Stdout closed, or reading it failed. -/
  | stopped
  /-- The agent is marked dead. -/
  | marked (reason : Text)
  /-- The map is empty; these senders are left. -/
  | failing (reason : Text) (ks : List Nat)
deriving DecidableEq, Repr

structure State (ρ : Type) where
  nextId : Nat := 1
  /-- Which call waits for an id. -/
  pending : List (Nat × Nat) := []
  dead : Option Text := none
  calls : List (Call ρ) := []
  reader : Reader ρ := .reading
  /-- The answers that were dispatched. -/
  log : List (Nat × ρ) := []
deriving DecidableEq, Repr

/-- What can happen. `k` is a call, by the order in which they started. -/
inductive Event (ρ : Type) where
  | start
  | number (k : Nat)
  | insert (k : Nat)
  /-- The line is written, or the write fails. The JVM may accept input after it closed its output. -/
  | write (k : Nat) (ok : Bool)
  /-- The call takes its sender out again. -/
  | withdraw (k : Nat)
  | receive (k : Nat)
  | expire (k : Nat)
  | cancel (k : Nat)
  /-- A line, with its id and its outcome if it has one. -/
  | line (answer : Option (Nat × ρ))
  | deliver
  | stop
  | mark (reason : Text)
  | drain
  /-- One of the senders that are left, in the order in which the map gives them. -/
  | fail (k : Nat)
deriving DecidableEq, Repr

variable {ρ : Type}

/-! ## The steps -/

namespace State

def change (s : State ρ) (k : Nat) (f : Call ρ → Call ρ) : State ρ := { s with calls := s.calls.modify k f }

/-- `pending.remove`. -/
def remove (s : State ρ) (id : Nat) : State ρ := { s with pending := s.pending.filter fun e => e.1 ≠ id }

/-- `pending.insert`. A sender that was registered for the id is dropped, which its call sees. -/
def register (s : State ρ) (k id : Nat) : State ρ :=
  let dropped := s.pending.filter fun e => e.1 = id
  let s := dropped.foldl (fun s e => s.change e.2 fun c => { c with inbox := c.inbox.or (some (.gone [])) }) (s.remove id)
  { s with pending := (id, k) :: s.pending }

/-- A step, if it is the turn of who makes it. -/
def step (s : State ρ) : Event ρ → State ρ
  | .start =>
      match s.dead with
      | some reason => { s with calls := s.calls ++ [{ phase := .returned (.gone reason) }] }
      | none => { s with calls := s.calls ++ [{ phase := .checked }] }
  | .number k =>
      match s.calls[k]? with
      | some { phase := .checked, .. } =>
          { s.change k fun c => { c with phase := .numbered, id := some s.nextId } with
            nextId := (s.nextId + 1) % 2 ^ 64 }
      | _ => s
  | .insert k =>
      match s.calls[k]? with
      | some { phase := .numbered, id := some id, .. } =>
          (s.register k id).change k fun c => { c with phase := .inserted, mark := s.log.length }
      | _ => s
  | .write k ok =>
      match s.calls[k]? with
      | some { phase := .inserted, .. } => s.change k fun c => { c with phase := if ok then .waiting else .failed }
      | _ => s
  | .withdraw k =>
      match s.calls[k]? with
      | some { phase := .failed, id := some id, .. } =>
          (s.remove id).change k fun c => { c with phase := .returned .transport }
      | some { phase := .timedOut, id := some id, .. } =>
          (s.remove id).change k fun c => { c with phase := .returned .timeout }
      | _ => s
  | .receive k =>
      match s.calls[k]? with
      | some { phase := .waiting, inbox := some r, .. } => s.change k fun c => { c with phase := .returned r }
      | _ => s
  | .expire k =>
      match s.calls[k]? with
      | some { phase := .waiting, inbox := none, .. } => s.change k fun c => { c with phase := .timedOut }
      | _ => s
  | .cancel k =>
      match s.calls[k]? with
      | some { phase := .inserted, .. } => s.change k fun c => { c with phase := .cancelled }
      | some { phase := .waiting, .. } => s.change k fun c => { c with phase := .cancelled }
      | _ => s
  | .line answer =>
      match s.reader, answer with
      | .reading, some (id, r) =>
          let s := { s with log := s.log ++ [(id, r)] }
          match s.pending.find? fun e => e.1 = id with
          | some (_, k) => { s.remove id with reader := .sending k r }
          | none => s
      | _, _ => s
  | .deliver =>
      match s.reader with
      | .sending k r => { s.change k fun c => { c with inbox := c.inbox.or (some (.answered r)) } with reader := .reading }
      | _ => s
  | .stop =>
      match s.reader with
      | .reading => { s with reader := .stopped }
      | _ => s
  | .mark reason =>
      match s.reader with
      | .stopped => { s with dead := some reason, reader := .marked reason }
      | _ => s
  | .drain =>
      match s.reader with
      | .marked reason => { s with pending := [], reader := .failing reason (s.pending.map Prod.snd) }
      | _ => s
  | .fail k =>
      match s.reader with
      | .failing reason ks =>
          if k ∈ ks then
            { s.change k fun c => { c with inbox := c.inbox.or (some (.gone reason)) } with
              reader := .failing reason (ks.erase k) }
          else s
      | _ => s

end State

/-! ## What the callers may rely on -/

/-- The call is between its look and its registration. -/
def Phase.approaches : Phase ρ → Bool
  | .checked | .numbered => true
  | _ => false

/-- The call still wants its answer. -/
def Phase.listens : Phase ρ → Bool
  | .inserted | .waiting => true
  | _ => false

/-- The reader has emptied the map. -/
def Reader.drained : Reader ρ → Bool
  | .failing _ _ => true
  | _ => false

/-- The first answer with its id since the call was registered. -/
def Call.firstAnswer (c : Call ρ) (log : List (Nat × ρ)) : Option ρ :=
  ((log.drop c.mark).find? fun a => some a.1 = c.id).map Prod.snd

/-- The map is emptied while no call is on its way to it, and an id is not used again (there are `2 ^ 64`). -/
def Orderly (s : State ρ) : Event ρ → Prop
  | .drain => ∀ c ∈ s.calls, c.phase.approaches = false
  | .number _ => ∀ c ∈ s.calls, c.id ≠ some s.nextId
  | _ => True

/-- Where the sender of every call is. -/
structure Registered (s : State ρ) : Prop where
  id_inj : ∀ {k k' : Nat} {c c' : Call ρ} {i : Nat}, s.calls[k]? = some c → s.calls[k']? = some c' → c.id = some i → c'.id = some i → k = k'
  /-- A call that is on its way has nothing yet. -/
  approaching : ∀ {k : Nat} {c : Call ρ}, s.calls[k]? = some c → c.phase.approaches = true → c.inbox = none
  unnumbered : ∀ {k : Nat} {c : Call ρ}, s.calls[k]? = some c → c.phase = .checked → c.id = none
  pending : ∀ {i k}, (i, k) ∈ s.pending → ∃ c, s.calls[k]? = some c ∧ c.id = some i ∧ c.phase.approaches = false ∧
    c.inbox = none ∧ c.firstAnswer s.log = none
  sending : ∀ {k r}, s.reader = .sending k r → ∃ c, s.calls[k]? = some c ∧ c.phase.approaches = false ∧
    c.inbox = none ∧ c.firstAnswer s.log = some r
  failing : ∀ {reason ks k}, s.reader = .failing reason ks → k ∈ ks → ∃ c, s.calls[k]? = some c ∧
    c.phase.approaches = false ∧ c.inbox = none ∧ c.firstAnswer s.log = none
  /-- What a channel holds is the first answer, or that there will be none. -/
  inbox : ∀ {k : Nat} {c : Call ρ} {x : Result ρ}, s.calls[k]? = some c → c.inbox = some x →
    (∃ r, x = .answered r ∧ c.firstAnswer s.log = some r) ∨
      ((∃ reason, x = .gone reason) ∧ s.reader.drained = true ∧ c.firstAnswer s.log = none)
  returned : ∀ {k : Nat} {c : Call ρ} {r : ρ}, s.calls[k]? = some c → c.phase = .returned (.answered r) → c.firstAnswer s.log = some r
  /-- A call that still listens has its sender somewhere. -/
  listening : ∀ {k : Nat} {c : Call ρ}, s.calls[k]? = some c → c.phase.listens = true → c.inbox = none →
    (∃ i, c.id = some i ∧ (i, k) ∈ s.pending) ∨ (∃ r, s.reader = .sending k r) ∨
      ∃ reason ks, s.reader = .failing reason ks ∧ k ∈ ks
  dead : s.dead = none → s.reader.drained = false ∧ ∀ reason, s.reader ≠ .marked reason
  drained : s.reader.drained = true → s.pending = [] ∧ ∀ {k : Nat} {c : Call ρ}, s.calls[k]? = some c → c.phase.approaches = false
  mark_le : ∀ {k : Nat} {c : Call ρ}, s.calls[k]? = some c → c.mark ≤ s.log.length
  pending_nodup : (s.pending.map Prod.snd).Nodup
  failing_nodup : ∀ {reason ks}, s.reader = .failing reason ks → ks.Nodup

theorem registered_start : Registered ({} : State ρ) := by
  constructor <;> simp [Reader.drained]

theorem getElem?_change (s : State ρ) (k j : Nat) (f : Call ρ → Call ρ) :
    (s.change k f).calls[j]? = if k = j then s.calls[j]?.map f else s.calls[j]? := by
  rw [State.change, List.getElem?_modify]
  split_ifs <;> simp_all

/-- A call behind a change: the changed one, or one that was there before. -/
theorem change_back {s : State ρ} {k j : Nat} {f : Call ρ → Call ρ} {c c' : Call ρ} (hk : s.calls[k]? = some c)
    (h : (s.change k f).calls[j]? = some c') : (j = k ∧ c' = f c) ∨ (j ≠ k ∧ s.calls[j]? = some c') := by
  rw [getElem?_change] at h
  split_ifs at h with hj
  · subst hj
    rw [hk] at h
    exact .inl ⟨rfl, (Option.some.inj h).symm⟩
  · exact .inr ⟨Ne.symm hj, h⟩

/-- What is true of a call stays true of it when another one, or nothing of importance, changes. -/
theorem change_keeps {s : State ρ} {k j : Nat} {f : Call ρ → Call ρ} {P : Call ρ → Prop} {c : Call ρ}
    (h : s.calls[j]? = some c) (hc : P c) (hf : k = j → P c → P (f c)) : ∃ c', (s.change k f).calls[j]? = some c' ∧ P c' := by
  rw [getElem?_change]
  split_ifs with hk
  · exact ⟨f c, by rw [h]; rfl, hf hk hc⟩
  · exact ⟨c, h, hc⟩

variable {s : State ρ}

/-- A call that goes on, with its id and its channel as they are. -/
theorem Registered.rephase (h : Registered s) {k : Nat} {c : Call ρ} (hk : s.calls[k]? = some c) {p : Phase ρ}
    (hc : c.phase.approaches = false) (hp : p.approaches = false) (hlistens : p.listens = true → c.phase.listens = true)
    (hreturned : ∀ r, p = .returned (.answered r) → c.firstAnswer s.log = some r) :
    Registered (s.change k fun c => { c with phase := p }) := by
  -- a call as it is now has the id and the channel of one that was there
  have hback : ∀ {j : Nat} {c' : Call ρ}, (s.change k fun c => { c with phase := p }).calls[j]? = some c' →
      ∃ c₀, s.calls[j]? = some c₀ ∧ c'.id = c₀.id ∧ c'.inbox = c₀.inbox ∧ c'.mark = c₀.mark ∧
        (c' = c₀ ∨ (j = k ∧ c₀ = c ∧ c'.phase = p)) := by
    intro j c' hj
    obtain ⟨rfl, rfl⟩ | ⟨-, hj⟩ := change_back hk hj
    · exact ⟨c, hk, rfl, rfl, rfl, .inr ⟨rfl, rfl, rfl⟩⟩
    · exact ⟨c', hj, rfl, rfl, rfl, .inl rfl⟩
  have hfirst : ∀ {c' c₀ : Call ρ} (log : List (Nat × ρ)), c'.id = c₀.id → c'.mark = c₀.mark →
      c'.firstAnswer log = c₀.firstAnswer log := by
    intro c' c₀ log hid hmark
    rw [Call.firstAnswer, Call.firstAnswer, hid, hmark]
  refine
    { id_inj := fun hj hj' hi hi' => ?_
      approaching := fun hj ha => ?_
      unnumbered := fun hj ha => ?_
      pending := fun hmem => ?_
      sending := fun hreader => ?_
      failing := fun hreader hmem => ?_
      inbox := fun hj hx => ?_
      returned := fun hj hr => ?_
      listening := fun hj hl hin => ?_
      dead := h.dead
      drained := fun hd => ⟨(h.drained hd).1, fun hj => ?_⟩
      mark_le := fun hj => ?_
      pending_nodup := h.pending_nodup
      failing_nodup := h.failing_nodup }
  · obtain ⟨c₀, hj, hid, -⟩ := hback hj
    obtain ⟨c₁, hj', hid', -⟩ := hback hj'
    exact h.id_inj hj hj' (hid ▸ hi) (hid' ▸ hi')
  · obtain ⟨c₀, hj, -, hin, -, rfl | ⟨-, -, hphase⟩⟩ := hback hj
    · exact h.approaching hj ha
    · rw [hphase, hp] at ha
      cases ha
  · obtain ⟨c₀, hj, -, -, -, rfl | ⟨-, -, hphase⟩⟩ := hback hj
    · exact h.unnumbered hj ha
    · rw [← hphase, ha] at hp
      cases hp
  · obtain ⟨c₀, hj, hrest⟩ := h.pending hmem
    exact change_keeps (P := fun c => _ ∧ c.phase.approaches = false ∧ _ ∧ Call.firstAnswer c s.log = none) hj hrest
      fun _ hrest => ⟨hrest.1, hp, hrest.2.2.1, hrest.2.2.2⟩
  · obtain ⟨c₀, hj, hrest⟩ := h.sending hreader
    exact change_keeps (P := fun c => c.phase.approaches = false ∧ _ ∧ Call.firstAnswer c s.log = some _) hj hrest
      fun _ hrest => ⟨hp, hrest.2⟩
  · obtain ⟨c₀, hj, hrest⟩ := h.failing hreader hmem
    exact change_keeps (P := fun c => c.phase.approaches = false ∧ _ ∧ Call.firstAnswer c s.log = none) hj hrest
      fun _ hrest => ⟨hp, hrest.2⟩
  · obtain ⟨c₀, hj, hid, hin, hmark, -⟩ := hback hj
    have hinbox := h.inbox hj (hin ▸ hx)
    rwa [← hfirst s.log hid hmark] at hinbox
  · obtain ⟨c₀, hj, hid, -, hmark, rfl | ⟨-, rfl, hphase⟩⟩ := hback hj
    · exact h.returned hj hr
    · show Call.firstAnswer _ s.log = _
      rw [hfirst s.log hid hmark]
      exact hreturned _ (hphase.symm.trans hr)
  · obtain ⟨c₀, hj, hid, hin', -, rfl | ⟨-, rfl, hphase⟩⟩ := hback hj
    · exact h.listening hj hl hin
    · rw [hid]
      exact h.listening hj (hlistens (hphase ▸ hl)) (hin' ▸ hin)
  · obtain ⟨c₀, hj, -, -, -, rfl | ⟨-, -, hphase⟩⟩ := hback hj
    · exact (h.drained hd).2 hj
    · rw [hphase]
      exact hp
  · obtain ⟨c₀, hj, -, -, hmark, -⟩ := hback hj
    rw [hmark]
    exact h.mark_le hj

/-- A sender that nobody waits for is taken out. -/
theorem Registered.remove (h : Registered s) {k : Nat} {c : Call ρ} {id : Nat} (hk : s.calls[k]? = some c)
    (hid : c.id = some id) (hc : c.phase.listens = false) : Registered (s.remove id) :=
  { h with
    pending := fun hmem => h.pending (List.mem_of_mem_filter hmem)
    listening := fun hj hl hin => by
      obtain ⟨i, hi, hmem⟩ | hreader := h.listening hj hl hin
      · refine .inl ⟨i, hi, List.mem_filter.mpr ⟨hmem, decide_eq_true fun heq => ?_⟩⟩
        -- it would be the call that does not listen
        obtain rfl := h.id_inj hj hk (heq ▸ hi) hid
        obtain rfl := Option.some.inj (hk.symm.trans hj)
        rw [hc] at hl
        cases hl
      · exact .inr hreader
    drained := fun hd => ⟨by rw [State.remove, (h.drained hd).1]; rfl, (h.drained hd).2⟩
    pending_nodup := h.pending_nodup.sublist (List.filter_sublist.map Prod.snd) }

/-- A change of what is on its way leaves the others. -/
theorem change_other {k j : Nat} {c c' : Call ρ} (hk : s.calls[k]? = some c) (hc : c.phase.approaches = true)
    (hj : s.calls[j]? = some c') (hc' : c'.phase.approaches = false) (f : Call ρ → Call ρ) :
    (s.change k f).calls[j]? = some c' := by
  rw [getElem?_change, if_neg, hj]
  rintro rfl
  obtain rfl := Option.some.inj (hk.symm.trans hj)
  rw [hc] at hc'
  cases hc'

/-- A call starts. -/
theorem Registered.started (h : Registered s) {p : Phase ρ} (hp : p.listens = false) (hr : ∀ r, p ≠ .returned (.answered r))
    (hdrained : p.approaches = true → s.reader.drained = false) : Registered { s with calls := s.calls ++ [{ phase := p }] } := by
  have hback : ∀ {j : Nat} {c : Call ρ}, (s.calls ++ [{ phase := p }])[j]? = some c →
      s.calls[j]? = some c ∨ c = { phase := p } := by
    intro j c hj
    rw [List.getElem?_append] at hj
    split_ifs at hj with hlt
    · exact .inl hj
    · rw [List.getElem?_singleton] at hj
      split_ifs at hj
      exact .inr (Option.some.inj hj).symm
  have hkeep : ∀ {j : Nat} {c : Call ρ}, s.calls[j]? = some c → (s.calls ++ [{ phase := p }])[j]? = some c := by
    intro j c hj
    rw [List.getElem?_append_left (List.getElem?_eq_some_iff.mp hj).1, hj]
  exact
    { id_inj := fun hj hj' hi hi' => by
        obtain hj | rfl := hback hj
        · obtain hj' | rfl := hback hj'
          · exact h.id_inj hj hj' hi hi'
          · cases hi'
        · cases hi
      approaching := fun hj ha => by
        obtain hj | rfl := hback hj
        · exact h.approaching hj ha
        · rfl
      unnumbered := fun hj ha => by
        obtain hj | rfl := hback hj
        · exact h.unnumbered hj ha
        · rfl
      pending := fun hmem => by
        obtain ⟨c, hj, hrest⟩ := h.pending hmem
        exact ⟨c, hkeep hj, hrest⟩
      sending := fun hreader => by
        obtain ⟨c, hj, hrest⟩ := h.sending hreader
        exact ⟨c, hkeep hj, hrest⟩
      failing := fun hreader hmem => by
        obtain ⟨c, hj, hrest⟩ := h.failing hreader hmem
        exact ⟨c, hkeep hj, hrest⟩
      inbox := fun hj hx => by
        obtain hj | rfl := hback hj
        · exact h.inbox hj hx
        · cases hx
      returned := fun hj hret => by
        obtain hj | rfl := hback hj
        · exact h.returned hj hret
        · exact absurd hret (hr _)
      listening := fun hj hl hin => by
        obtain hj | rfl := hback hj
        · exact h.listening hj hl hin
        · rw [hp] at hl
          cases hl
      dead := h.dead
      drained := fun hd => ⟨(h.drained hd).1, fun hj => by
        obtain hj | rfl := hback hj
        · exact (h.drained hd).2 hj
        · cases ha : p.approaches with
          | false => rfl
          | true =>
              have hquiet := hdrained ha
              rw [hd] at hquiet
              cases hquiet⟩
      mark_le := fun hj => by
        obtain hj | rfl := hback hj
        · exact h.mark_le hj
        · exact Nat.zero_le _
      pending_nodup := h.pending_nodup
      failing_nodup := h.failing_nodup }

/-- A call gets its id. -/
theorem Registered.number (h : Registered s) {k : Nat} {c : Call ρ} (hk : s.calls[k]? = some c) (hc : c.phase = .checked)
    {n : Nat} (hfresh : ∀ c ∈ s.calls, c.id ≠ some s.nextId) :
    Registered { s.change k fun c => { c with phase := .numbered, id := some s.nextId } with nextId := n } := by
  have happroaches : c.phase.approaches = true := by rw [hc]; rfl
  exact
    { id_inj := fun hj hj' hi hi' => by
        obtain ⟨rfl, rfl⟩ | ⟨-, hj⟩ := change_back hk hj
        · obtain rfl := Option.some.inj hi
          obtain ⟨rfl, -⟩ | ⟨-, hj'⟩ := change_back hk hj'
          · rfl
          · exact absurd hi' (hfresh _ (List.mem_of_getElem? hj'))
        · have hold := hfresh _ (List.mem_of_getElem? hj)
          obtain ⟨rfl, rfl⟩ | ⟨-, hj'⟩ := change_back hk hj'
          · obtain rfl := Option.some.inj hi'
            exact absurd hi hold
          · exact h.id_inj hj hj' hi hi'
      approaching := fun hj ha => by
        obtain ⟨rfl, rfl⟩ | ⟨-, hj⟩ := change_back hk hj
        · have hnone : c.inbox = none := h.approaching hk happroaches
          exact hnone
        · exact h.approaching hj ha
      unnumbered := fun hj ha => by
        obtain ⟨rfl, rfl⟩ | ⟨-, hj⟩ := change_back hk hj
        · cases ha
        · exact h.unnumbered hj ha
      pending := fun hmem => by
        obtain ⟨c', hj, hi, ha, hrest⟩ := h.pending hmem
        exact ⟨c', change_other hk happroaches hj ha _, hi, ha, hrest⟩
      sending := fun hreader => by
        obtain ⟨c', hj, ha, hrest⟩ := h.sending hreader
        exact ⟨c', change_other hk happroaches hj ha _, ha, hrest⟩
      failing := fun hreader hmem => by
        obtain ⟨c', hj, ha, hrest⟩ := h.failing hreader hmem
        exact ⟨c', change_other hk happroaches hj ha _, ha, hrest⟩
      inbox := fun hj hx => by
        obtain ⟨rfl, rfl⟩ | ⟨-, hj⟩ := change_back hk hj
        · have hnone : c.inbox = none := h.approaching hk happroaches
          rw [hnone] at hx
          cases hx
        · exact h.inbox hj hx
      returned := fun hj hret => by
        obtain ⟨rfl, rfl⟩ | ⟨-, hj⟩ := change_back hk hj
        · cases hret
        · exact h.returned hj hret
      listening := fun hj hl hin => by
        obtain ⟨rfl, rfl⟩ | ⟨-, hj⟩ := change_back hk hj
        · cases hl
        · exact h.listening hj hl hin
      dead := h.dead
      drained := fun hd => by
        have hquiet := (h.drained hd).2 hk
        rw [happroaches] at hquiet
        cases hquiet
      mark_le := fun hj => by
        obtain ⟨rfl, rfl⟩ | ⟨-, hj⟩ := change_back hk hj
        · have hle : c.mark ≤ s.log.length := h.mark_le hk
          exact hle
        · exact h.mark_le hj
      pending_nodup := h.pending_nodup
      failing_nodup := h.failing_nodup }

/-- No sender is registered for the id of a call that is on its way. -/
theorem Registered.unregistered (h : Registered s) {k : Nat} {c : Call ρ} {id : Nat} (hk : s.calls[k]? = some c)
    (hc : c.phase.approaches = true) (hid : c.id = some id) : ∀ e ∈ s.pending, e.1 ≠ id := by
  rintro ⟨i, j⟩ hmem rfl
  obtain ⟨c', hj, hi, ha, -⟩ := h.pending hmem
  obtain rfl := h.id_inj hk hj hid hi
  obtain rfl := Option.some.inj (hk.symm.trans hj)
  rw [hc] at ha
  cases ha

theorem register_eq {k id : Nat} (h : ∀ e ∈ s.pending, e.1 ≠ id) :
    s.register k id = { s with pending := (id, k) :: s.pending } := by
  have hnone : (s.pending.filter fun e => e.1 = id) = [] :=
    List.filter_eq_nil_iff.mpr fun e he => by simpa using h e he
  have hall : (s.pending.filter fun e => e.1 ≠ id) = s.pending :=
    List.filter_eq_self.mpr fun e he => decide_eq_true (h e he)
  rw [State.register, hnone, List.foldl_nil, State.remove, hall]

/-- A call leaves its sender in the map. -/
theorem Registered.insert (h : Registered s) {k : Nat} {c : Call ρ} {id : Nat} (hk : s.calls[k]? = some c)
    (hc : c.phase = .numbered) (hid : c.id = some id) :
    Registered ((s.register k id).change k fun c => { c with phase := .inserted, mark := s.log.length }) := by
  have happroaches : c.phase.approaches = true := by rw [hc]; rfl
  have hnone : c.inbox = none := h.approaching hk happroaches
  have hfirst : ({ c with phase := .inserted, mark := s.log.length } : Call ρ).firstAnswer s.log = none := by
    rw [Call.firstAnswer, List.drop_length]
    rfl
  rw [register_eq (h.unregistered hk happroaches hid)]
  have hself : (s.change k fun c => { c with phase := .inserted, mark := s.log.length }).calls[k]? =
      some { c with phase := .inserted, mark := s.log.length } := by
    rw [getElem?_change, if_pos rfl, hk]
    rfl
  exact
    { id_inj := fun hj hj' hi hi' => by
        obtain ⟨rfl, rfl⟩ | ⟨-, hj⟩ := change_back hk hj
        · obtain ⟨rfl, -⟩ | ⟨-, hj'⟩ := change_back hk hj'
          · rfl
          · exact h.id_inj (c := c) hk hj' hi hi'
        · have hback := h.id_inj hj hk hi
          obtain ⟨rfl, rfl⟩ | ⟨-, hj'⟩ := change_back hk hj'
          · exact hback hi'
          · exact h.id_inj hj hj' hi hi'
      approaching := fun hj ha => by
        obtain ⟨rfl, rfl⟩ | ⟨-, hj⟩ := change_back hk hj
        · exact hnone
        · exact h.approaching hj ha
      unnumbered := fun hj ha => by
        obtain ⟨rfl, rfl⟩ | ⟨-, hj⟩ := change_back hk hj
        · cases ha
        · exact h.unnumbered hj ha
      pending := fun hmem => by
        obtain heq | hmem := List.mem_cons.mp hmem
        · cases heq
          exact ⟨_, hself, hid, rfl, hnone, hfirst⟩
        · obtain ⟨c', hj, hi, ha, hrest⟩ := h.pending hmem
          exact ⟨c', change_other hk happroaches hj ha _, hi, ha, hrest⟩
      sending := fun hreader => by
        obtain ⟨c', hj, ha, hrest⟩ := h.sending hreader
        exact ⟨c', change_other hk happroaches hj ha _, ha, hrest⟩
      failing := fun hreader hmem => by
        obtain ⟨c', hj, ha, hrest⟩ := h.failing hreader hmem
        exact ⟨c', change_other hk happroaches hj ha _, ha, hrest⟩
      inbox := fun hj hx => by
        obtain ⟨rfl, rfl⟩ | ⟨-, hj⟩ := change_back hk hj
        · exact absurd (hnone.symm.trans hx) nofun
        · exact h.inbox hj hx
      returned := fun hj hret => by
        obtain ⟨rfl, rfl⟩ | ⟨-, hj⟩ := change_back hk hj
        · cases hret
        · exact h.returned hj hret
      listening := fun hj hl hin => by
        obtain ⟨rfl, rfl⟩ | ⟨-, hj⟩ := change_back hk hj
        · exact .inl ⟨id, hid, List.mem_cons_self⟩
        · obtain ⟨i, hi, hmem⟩ | hreader := h.listening hj hl hin
          · exact .inl ⟨i, hi, List.mem_cons_of_mem _ hmem⟩
          · exact .inr hreader
      dead := h.dead
      drained := fun hd => by
        have hquiet := (h.drained hd).2 hk
        rw [happroaches] at hquiet
        cases hquiet
      mark_le := fun hj => by
        obtain ⟨rfl, rfl⟩ | ⟨-, hj⟩ := change_back hk hj
        · exact Nat.le_refl _
        · exact h.mark_le hj
      pending_nodup := by
        refine List.nodup_cons.mpr ⟨fun hin => ?_, h.pending_nodup⟩
        obtain ⟨⟨i, j⟩, hmem, heq⟩ := List.mem_map.mp hin
        obtain rfl : j = k := heq
        obtain ⟨c', hj, -, ha, -⟩ := h.pending hmem
        obtain rfl := Option.some.inj (hk.symm.trans hj)
        rw [happroaches] at ha
        cases ha
      failing_nodup := h.failing_nodup }

/-! ## The reader -/

/-- One more answer is the first one only where there was none. -/
theorem firstAnswer_append (c : Call ρ) {log : List (Nat × ρ)} (hmark : c.mark ≤ log.length) (a : Nat × ρ) :
    c.firstAnswer (log ++ [a]) = (c.firstAnswer log).or (if some a.1 = c.id then some a.2 else none) := by
  rw [Call.firstAnswer, Call.firstAnswer, List.drop_append_of_le_length hmark, List.find?_append, Option.map_or]
  congr 1
  rw [List.find?_singleton]
  by_cases ha : some a.1 = c.id
  · rw [if_pos ha, if_pos (decide_eq_true ha)]
    rfl
  · rw [if_neg ha, if_neg (by simpa using ha)]
    rfl

/-- An answer is dispatched that nobody waits for. -/
theorem Registered.log (h : Registered s) (hreader : s.reader.drained = false) {a : Nat × ρ} (hnot : ∀ k r, s.reader ≠ .sending k r)
    (hnone : ∀ e ∈ s.pending, e.1 ≠ a.1) : Registered { s with log := s.log ++ [a] } :=
  { h with
    pending := fun {i k} hmem => by
      obtain ⟨c, hj, hi, ha, hin, hfirst⟩ := h.pending hmem
      refine ⟨c, hj, hi, ha, hin, ?_⟩
      rw [firstAnswer_append c (h.mark_le hj), hfirst, hi, if_neg fun heq => hnone _ hmem (Option.some.inj heq).symm]
      rfl
    sending := fun hsending => absurd hsending (hnot _ _)
    failing := fun hfailing => by
      rw [hfailing] at hreader
      cases hreader
    inbox := fun hj hx => by
      obtain ⟨r, hr, hfirst⟩ | ⟨-, hd, -⟩ := h.inbox hj hx
      · refine .inl ⟨r, hr, ?_⟩
        rw [firstAnswer_append _ (h.mark_le hj), hfirst]
        rfl
      · rw [hreader] at hd
        cases hd
    returned := fun hj hret => by
      rw [firstAnswer_append _ (h.mark_le hj), h.returned hj hret]
      rfl
    mark_le := fun hj => by
      rw [List.length_append]
      exact Nat.le_add_right_of_le (h.mark_le hj) }

/-- The reader takes the sender of an answer out of the map. -/
theorem Registered.take (h : Registered s) (hreader : s.reader = .reading) {id k : Nat} {r : ρ} (hmem : (id, k) ∈ s.pending) :
    Registered { ({ s with log := s.log ++ [(id, r)] } : State ρ).remove id with reader := .sending k r } := by
  obtain ⟨c, hk, hid, ha, hin, hfirst⟩ := h.pending hmem
  have hnew : c.firstAnswer (s.log ++ [(id, r)]) = some r := by
    rw [firstAnswer_append c (h.mark_le hk), hfirst, hid, if_pos rfl]
    rfl
  exact
    { h with
      pending := fun {i j} hmem' => by
        obtain ⟨hmem', hne⟩ := List.mem_filter.mp hmem'
        obtain ⟨c', hj, hi, ha', hin', hfirst'⟩ := h.pending hmem'
        refine ⟨c', hj, hi, ha', hin', ?_⟩
        show c'.firstAnswer (s.log ++ [(id, r)]) = none
        rw [firstAnswer_append c' (h.mark_le hj), hfirst', hi, if_neg fun heq => ?_]
        · rfl
        · exact (of_decide_eq_true hne) (Option.some.inj heq).symm
      sending := fun hsending => by
        cases hsending
        exact ⟨c, hk, ha, hin, hnew⟩
      failing := nofun
      failing_nodup := nofun
      inbox := fun hj hx => by
        obtain ⟨r', hr, hfirst'⟩ | ⟨-, hd, -⟩ := h.inbox hj hx
        · refine .inl ⟨r', hr, ?_⟩
          show Call.firstAnswer _ (s.log ++ [(id, r)]) = _
          rw [firstAnswer_append _ (h.mark_le hj), hfirst']
          rfl
        · rw [hreader] at hd
          cases hd
      returned := fun hj hret => by
        show Call.firstAnswer _ (s.log ++ [(id, r)]) = _
        rw [firstAnswer_append _ (h.mark_le hj), h.returned hj hret]
        rfl
      listening := fun {j c'} hj hl hin' => by
        obtain ⟨i, hi, hmem'⟩ | ⟨r', hr'⟩ | ⟨reason, ks, hfail, -⟩ := h.listening hj hl hin'
        · by_cases hne : i = id
          · -- the sender that is taken
            obtain rfl := h.id_inj hj hk (hne ▸ hi) hid
            exact .inr (.inl ⟨r, rfl⟩)
          · exact .inl ⟨i, hi, List.mem_filter.mpr ⟨hmem', decide_eq_true hne⟩⟩
        · rw [hreader] at hr'
          cases hr'
        · rw [hreader] at hfail
          cases hfail
      dead := fun _ => ⟨rfl, nofun⟩
      drained := nofun
      mark_le := fun hj => by
        show _ ≤ (s.log ++ [(id, r)]).length
        rw [List.length_append]
        exact Nat.le_add_right_of_le (h.mark_le hj)
      pending_nodup := h.pending_nodup.sublist (List.filter_sublist.map Prod.snd) }

/-- A sender that is in the reader's hand is used. -/
theorem Registered.tell (h : Registered s) {k : Nat} {c : Call ρ} (hk : s.calls[k]? = some c) (ha : c.phase.approaches = false)
    (hin : c.inbox = none) {x : Result ρ} {reader : Reader ρ}
    (hx : (∃ r, x = .answered r ∧ c.firstAnswer s.log = some r) ∨
      ((∃ reason, x = .gone reason) ∧ reader.drained = true ∧ c.firstAnswer s.log = none))
    (hpending : ∀ i, (i, k) ∉ s.pending) (hdrained : reader.drained = s.reader.drained)
    (hdead : s.dead = none → ∀ reason, reader ≠ .marked reason) (hsending : ∀ j r, reader ≠ .sending j r)
    (hfailing : ∀ {reason ks}, reader = .failing reason ks →
      ks.Nodup ∧ k ∉ ks ∧ ∃ all, s.reader = .failing reason all ∧ ∀ j ∈ ks, j ∈ all)
    (hlistening : ∀ {j}, j ≠ k → ((∃ r, s.reader = .sending j r) ∨ ∃ reason ks, s.reader = .failing reason ks ∧ j ∈ ks) →
      ∃ reason ks, reader = .failing reason ks ∧ j ∈ ks) :
    Registered { s.change k fun c => { c with inbox := c.inbox.or (some x) } with reader } := by
  have hother : ∀ {j : Nat} {c' : Call ρ}, s.calls[j]? = some c' → j ≠ k →
      (s.change k fun c => { c with inbox := c.inbox.or (some x) }).calls[j]? = some c' := by
    intro j c' hj hne
    rw [getElem?_change, if_neg (Ne.symm hne), hj]
  exact
    { id_inj := fun hj hj' hi hi' => by
        obtain ⟨rfl, rfl⟩ | ⟨-, hj⟩ := change_back hk hj
        · obtain ⟨rfl, -⟩ | ⟨-, hj'⟩ := change_back hk hj'
          · rfl
          · exact h.id_inj (c := c) hk hj' hi hi'
        · have hback := h.id_inj hj hk hi
          obtain ⟨rfl, rfl⟩ | ⟨-, hj'⟩ := change_back hk hj'
          · exact hback hi'
          · exact h.id_inj hj hj' hi hi'
      approaching := fun hj ha' => by
        obtain ⟨rfl, rfl⟩ | ⟨-, hj⟩ := change_back hk hj
        · exact absurd (ha.symm.trans ha') Bool.false_ne_true
        · exact h.approaching hj ha'
      unnumbered := fun hj hphase => by
        obtain ⟨rfl, rfl⟩ | ⟨-, hj⟩ := change_back hk hj
        · exact h.unnumbered (c := c) hk hphase
        · exact h.unnumbered hj hphase
      pending := fun {i j} hmem => by
        obtain ⟨c', hj, hrest⟩ := h.pending hmem
        have hne : j ≠ k := by
          rintro rfl
          exact hpending i hmem
        exact ⟨c', hother hj hne, hrest⟩
      sending := fun hreader => absurd hreader (hsending _ _)
      failing := fun {reason ks j} hreader hmem => by
        obtain ⟨-, hk', all, hall, hsub⟩ := hfailing hreader
        obtain ⟨c', hj, hrest⟩ := h.failing hall (hsub j hmem)
        have hne : j ≠ k := by
          rintro rfl
          exact hk' hmem
        exact ⟨c', hother hj hne, hrest⟩
      inbox := fun hj hy => by
        obtain ⟨rfl, rfl⟩ | ⟨-, hj⟩ := change_back hk hj
        · rw [hin, Option.none_or] at hy
          obtain rfl := Option.some.inj hy
          exact hx
        · have hbefore := h.inbox hj hy
          rwa [← hdrained] at hbefore
      returned := fun hj hret => by
        obtain ⟨rfl, rfl⟩ | ⟨-, hj⟩ := change_back hk hj
        · exact h.returned (c := c) hk hret
        · exact h.returned hj hret
      listening := fun hj hl hin' => by
        obtain ⟨rfl, rfl⟩ | ⟨hne, hj⟩ := change_back hk hj
        · rw [hin] at hin'
          cases hin'
        · obtain hmem | hreader := h.listening hj hl hin'
          · exact .inl hmem
          · exact .inr (.inr (hlistening hne hreader))
      dead := fun hnone => ⟨hdrained.trans (h.dead hnone).1, hdead hnone⟩
      drained := fun hd => by
        obtain ⟨hnil, hquiet⟩ := h.drained (hdrained.symm.trans hd)
        refine ⟨hnil, fun hj => ?_⟩
        obtain ⟨rfl, rfl⟩ | ⟨-, hj⟩ := change_back hk hj
        · exact ha
        · exact hquiet hj
      mark_le := fun hj => by
        obtain ⟨rfl, rfl⟩ | ⟨-, hj⟩ := change_back hk hj
        · exact h.mark_le (c := c) hk
        · exact h.mark_le hj
      pending_nodup := h.pending_nodup
      failing_nodup := fun hreader => (hfailing hreader).1 }

/-- The reader hands an answer over. -/
theorem Registered.deliver (h : Registered s) {k : Nat} {r : ρ} (hreader : s.reader = .sending k r) :
    Registered { s.change k fun c => { c with inbox := c.inbox.or (some (.answered r)) } with reader := .reading } := by
  obtain ⟨c, hk, ha, hin, hfirst⟩ := h.sending hreader
  refine h.tell hk ha hin (.inl ⟨r, rfl, hfirst⟩) (fun i hmem => ?_) ?_ (fun _ => nofun) nofun nofun fun hne hother => ?_
  · -- a sender in the map has no answer yet
    obtain ⟨c', hj, -, -, -, hnone⟩ := h.pending hmem
    obtain rfl := Option.some.inj (hk.symm.trans hj)
    cases hfirst.symm.trans hnone
  · rw [hreader]
    rfl
  · obtain ⟨r', hr'⟩ | ⟨reason, ks, hks, -⟩ := hother
    · cases hreader.symm.trans hr'
      exact absurd rfl hne
    · cases hreader.symm.trans hks

/-- The end of the output, or the mark on the agent: no sender moves. -/
theorem Registered.halt (h : Registered s) {reader : Reader ρ} {dead : Option Text} (hbefore : ∀ k r, s.reader ≠ .sending k r)
    (hdrained : s.reader.drained = false) (hafter : reader.drained = false) (hsending : ∀ k r, reader ≠ .sending k r)
    (hdead : dead = none → ∀ reason, reader ≠ .marked reason) : Registered { s with dead, reader } := by
  have hnot : ∀ reason ks, s.reader ≠ .failing reason ks := by
    intro reason ks heq
    rw [heq] at hdrained
    cases hdrained
  have hnot' : ∀ reason ks, reader ≠ .failing reason ks := by
    rintro reason ks rfl
    cases hafter
  exact
    { h with
      sending := fun hreader => absurd hreader (hsending _ _)
      failing := fun hreader => absurd hreader (hnot' _ _)
      failing_nodup := fun hreader => absurd hreader (hnot' _ _)
      inbox := fun hj hx => by
        obtain hanswer | ⟨-, hd, -⟩ := h.inbox hj hx
        · exact .inl hanswer
        · cases hd.symm.trans hdrained
      listening := fun hj hl hin => by
        obtain hmem | ⟨r, hr⟩ | ⟨reason, ks, hks, -⟩ := h.listening hj hl hin
        · exact .inl hmem
        · exact absurd hr (hbefore _ _)
        · exact absurd hks (hnot _ _)
      dead := fun hnone => ⟨hafter, hdead hnone⟩
      drained := fun hd => by cases hd.symm.trans hafter }

/-- The map is emptied while no call is on its way to it. -/
theorem Registered.drain (h : Registered s) {reason : Text} (hreader : s.reader = .marked reason)
    (hquiet : ∀ c ∈ s.calls, c.phase.approaches = false) :
    Registered { s with pending := [], reader := .failing reason (s.pending.map Prod.snd) } :=
  { h with
    pending := nofun
    pending_nodup := List.nodup_nil
    sending := nofun
    failing := fun {reason' ks k} heq hk => by
      cases heq
      obtain ⟨⟨i, j⟩, hmem, heq⟩ := List.mem_map.mp hk
      obtain rfl : j = k := heq
      obtain ⟨c, hj, -, hrest⟩ := h.pending hmem
      exact ⟨c, hj, hrest⟩
    failing_nodup := fun heq => by
      cases heq
      exact h.pending_nodup
    inbox := fun hj hx => by
      obtain hanswer | ⟨-, hd, -⟩ := h.inbox hj hx
      · exact .inl hanswer
      · rw [hreader] at hd
        cases hd
    listening := fun {k c} hj hl hin => by
      refine .inr (.inr ⟨reason, _, rfl, ?_⟩)
      obtain ⟨i, -, hmem⟩ | ⟨r, hr⟩ | ⟨reason', ks, hks, -⟩ := h.listening hj hl hin
      · exact List.mem_map.mpr ⟨(i, k), hmem, rfl⟩
      · cases hreader.symm.trans hr
      · cases hreader.symm.trans hks
    -- whoever says the agent is dead says so first
    dead := fun hnone => absurd hreader ((h.dead hnone).2 reason)
    drained := fun _ => ⟨rfl, fun hj => hquiet _ (List.mem_of_getElem? hj)⟩ }

/-- One of the senders that are left learns that the agent is gone. -/
theorem Registered.fail (h : Registered s) {reason : Text} {ks : List Nat} (hreader : s.reader = .failing reason ks) {k : Nat}
    (hmem : k ∈ ks) :
    Registered { s.change k fun c => { c with inbox := c.inbox.or (some (.gone reason)) } with
      reader := .failing reason (ks.erase k) } := by
  obtain ⟨c, hk, ha, hin, hfirst⟩ := h.failing hreader hmem
  have hnodup : ks.Nodup := h.failing_nodup hreader
  have hnil : s.pending = [] := (h.drained (by rw [hreader]; rfl)).1
  refine h.tell hk ha hin (.inr ⟨⟨reason, rfl⟩, rfl, hfirst⟩) (fun i => ?_) ?_ (fun _ => nofun) nofun ?_ fun hne hother => ?_
  · rw [hnil]
    exact List.not_mem_nil
  · rw [hreader]
    rfl
  · intro reason' ks' heq
    cases heq
    exact ⟨hnodup.erase k, hnodup.not_mem_erase, ks, hreader, fun j => List.mem_of_mem_erase⟩
  · obtain ⟨r', hr'⟩ | ⟨reason', ks', hks, hj⟩ := hother
    · cases hreader.symm.trans hr'
    · cases hreader.symm.trans hks
      exact ⟨reason, _, rfl, (List.mem_erase_of_ne hne).mpr hj⟩

/-! ## Every step -/

theorem registered_step {e : Event ρ} (h : Registered s) (ho : Orderly s e) : Registered (s.step e) := by
  cases e with
  | start =>
      rw [State.step]
      split
      next reason hdead => exact h.started rfl nofun nofun
      next hdead => exact h.started rfl nofun fun _ => (h.dead hdead).1
  | number k =>
      rw [State.step]
      split
      next hk => exact h.number hk rfl ho
      next => exact h
  | insert k =>
      rw [State.step]
      split
      next hk => exact h.insert hk rfl rfl
      next => exact h
  | write k ok =>
      rw [State.step]
      split
      next hk => cases ok <;> exact h.rephase hk rfl rfl (by simp [Phase.listens]) nofun
      next => exact h
  | withdraw k =>
      rw [State.step]
      split
      next hk => exact (h.remove hk rfl rfl).rephase hk rfl rfl nofun nofun
      next hk => exact (h.remove hk rfl rfl).rephase hk rfl rfl nofun nofun
      next => exact h
  | receive k =>
      rw [State.step]
      split
      next r hk =>
        refine h.rephase hk rfl rfl nofun fun r' hr => ?_
        cases hr
        -- what the channel holds is the first answer
        obtain ⟨r'', hr, hfirst⟩ | ⟨⟨reason, hgone⟩, -⟩ := h.inbox hk rfl
        · cases hr
          exact hfirst
        · cases hgone
      next => exact h
  | expire k =>
      rw [State.step]
      split
      next hk => exact h.rephase hk rfl rfl nofun nofun
      next => exact h
  | cancel k =>
      rw [State.step]
      split
      next hk => exact h.rephase hk rfl rfl nofun nofun
      next hk => exact h.rephase hk rfl rfl nofun nofun
      next => exact h
  | line answer =>
      unfold State.step
      dsimp only
      split
      next id r hreader =>
        split
        next i k hfind =>
          obtain rfl : i = id := by simpa using List.find?_some hfind
          exact h.take hreader (List.mem_of_find?_eq_some hfind)
        next hfind =>
          refine h.log (by rw [hreader]; rfl) (fun k r' => by rw [hreader]; nofun) fun e he => ?_
          simpa using List.find?_eq_none.mp hfind e he
      next => exact h
  | deliver =>
      rw [State.step]
      split
      next hreader => exact h.deliver hreader
      next => exact h
  | stop =>
      rw [State.step]
      split
      next hreader =>
        exact h.halt (fun _ _ => by rw [hreader]; nofun) (by rw [hreader]; rfl) rfl nofun fun _ => nofun
      next => exact h
  | mark reason =>
      rw [State.step]
      split
      next hreader => exact h.halt (fun _ _ => by rw [hreader]; nofun) (by rw [hreader]; rfl) rfl nofun nofun
      next => exact h
  | drain =>
      rw [State.step]
      split
      next hreader => exact h.drain hreader ho
      next => exact h
  | fail k =>
      rw [State.step]
      split
      next hreader =>
        split_ifs with hmem
        · exact h.fail hreader hmem
        · exact h
      next => exact h

theorem registered_run {events : List (Event ρ)} (h : Along State.step Orderly {} events) :
    Registered (run State.step ({} : State ρ) events) :=
  h.invariant (fun _ _ => registered_step) registered_start

/-! ## What the callers get -/

structure Served (s : State ρ) : Prop where
  distinct : ∀ {k k' : Nat} {c c' : Call ρ} {i : Nat}, s.calls[k]? = some c → s.calls[k']? = some c' → c.id = some i →
    c'.id = some i → k = k'
  /-- The answer a call gets is the first one with its id. -/
  own : ∀ {k : Nat} {c : Call ρ} {r : ρ}, s.calls[k]? = some c →
    c.inbox = some (.answered r) ∨ c.phase = .returned (.answered r) → c.firstAnswer s.log = some r
  /-- A call that still listens gets it, at once or from the reader's hand. -/
  reached : ∀ {k : Nat} {c : Call ρ} {r : ρ}, s.calls[k]? = some c → c.phase.listens = true → c.firstAnswer s.log = some r →
    c.inbox = some (.answered r) ∨ s.reader = .sending k r
  /-- Nothing is registered in a map that was emptied. -/
  closed : s.reader.drained = true → s.pending = []
  /-- When the reader is done, nobody waits for it. -/
  told : ∀ {k : Nat} {c : Call ρ} {reason : Text}, s.reader = .failing reason [] → s.calls[k]? = some c →
    c.phase.listens = true → c.inbox ≠ none

theorem Registered.served (h : Registered s) : Served s := by
  refine
    { distinct := h.id_inj
      own := fun hk hr => ?_
      reached := fun {k c r} hk hl hfirst => ?_
      closed := fun hd => (h.drained hd).1
      told := fun hreader hk hl hnone => ?_ }
  · obtain hin | hret := hr
    · obtain ⟨r', heq, hfirst⟩ | ⟨⟨reason, heq⟩, -⟩ := h.inbox hk hin
      · cases heq
        exact hfirst
      · cases heq
    · exact h.returned hk hret
  · cases hin : c.inbox with
    | some x =>
        obtain ⟨r', rfl, hfirst'⟩ | ⟨-, -, hnone⟩ := h.inbox hk hin
        · cases hfirst.symm.trans hfirst'
          exact .inl rfl
        · cases hfirst.symm.trans hnone
    | none =>
        -- its sender is somewhere, and only the one in the reader's hand has an answer
        obtain ⟨i, -, hmem⟩ | ⟨r', hreader⟩ | ⟨reason, ks, hreader, hmem⟩ := h.listening hk hl hin
        · obtain ⟨c', hk', -, -, -, hnone⟩ := h.pending hmem
          cases hk.symm.trans hk'
          cases hfirst.symm.trans hnone
        · obtain ⟨c', hk', -, -, hfirst'⟩ := h.sending hreader
          cases hk.symm.trans hk'
          cases hfirst.symm.trans hfirst'
          exact .inr hreader
        · obtain ⟨c', hk', -, -, hnone⟩ := h.failing hreader hmem
          cases hk.symm.trans hk'
          cases hfirst.symm.trans hnone
  · obtain ⟨i, -, hmem⟩ | ⟨r, hsending⟩ | ⟨reason', ks, hfailing, hmem⟩ := h.listening hk hl hnone
    · rw [(h.drained (by rw [hreader]; rfl)).1] at hmem
      cases hmem
    · cases hreader.symm.trans hsending
    · cases hreader.symm.trans hfailing
      cases hmem

/-- **Calls are answered.** In a run in which the map is never emptied over a call on its way to it, every call gets the
first answer with its id or learns that the agent is gone. -/
theorem served_run {events : List (Event ρ)} (h : Along State.step Orderly {} events) :
    Served (run State.step ({} : State ρ) events) :=
  (registered_run h).served

/-- Two calls with their answers in the other order, and a third that learns that the agent is gone. -/
theorem served_run_crossed :
    Served (run State.step ({} : State Nat) [.start, .start, .start, .number 0, .number 1, .number 2, .insert 0, .insert 1,
      .insert 2, .write 1 true, .write 0 true, .write 2 true, .line (some (2, 22)), .deliver, .line (some (9, 99)),
      .line (some (1, 11)), .deliver, .receive 0, .receive 1, .stop, .mark [], .drain, .fail 2, .receive 2]) :=
  served_run (by simp [Along, Orderly, State.step, State.change, State.register, State.remove, Phase.approaches])

/-- A call registers in the map after it was emptied. -/
theorem not_served_run : ¬ ∀ events : List (Event Nat), Served (run State.step ({} : State Nat) events) := by
  intro h
  have hnil := (h [.start, .stop, .mark [], .drain, .number 0, .insert 0]).closed rfl
  cases hnil

end Havuz.Jdbc.Calls
