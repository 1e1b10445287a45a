import Mathlib.Data.List.Basic

/-!
# Commands that keep their state when they fail

`EStateM ε σ` is the monad of a program that changes a state and may stop with an error, and whatever it did
before stays done. `Triple P m Q E` says what holds when `m` returns and what holds when it stops, and there
is one rule for each way of putting commands together.
-/

namespace Havuz.Lib

variable {ε σ α β : Type}

/-! ## What single commands do -/

theorem bind_apply (m : EStateM ε σ α) (f : α → EStateM ε σ β) (s : σ) :
    (m >>= f) s = match m s with
      | .ok a s' => f a s'
      | .error e s' => .error e s' := rfl

theorem pure_apply (a : α) (s : σ) : (pure a : EStateM ε σ α) s = .ok a s := rfl

theorem get_apply (s : σ) : (get : EStateM ε σ σ) s = .ok s s := rfl

theorem set_apply (s s' : σ) : (set s' : EStateM ε σ PUnit) s = .ok ⟨⟩ s' := rfl

theorem modify_apply (f : σ → σ) (s : σ) : (modify f : EStateM ε σ PUnit) s = .ok ⟨⟩ (f s) := rfl

/-! ## Triples -/

/-- From a state with `P`, the command returns with `Q` or stops with `E`. -/
def Triple (P : σ → Prop) (m : EStateM ε σ α) (Q : α → σ → Prop) (E : σ → Prop) : Prop :=
  ∀ s, P s → match m s with
    | .ok a s' => Q a s'
    | .error _ s' => E s'

namespace Triple

variable {P P' : σ → Prop} {m : EStateM ε σ α} {Q Q' : α → σ → Prop} {E E' : σ → Prop}

theorem ok (h : Triple P m Q E) {s s' : σ} {a : α} (hs : P s) (hm : m s = .ok a s') : Q a s' := by
  have hresult := h s hs
  rwa [hm] at hresult

theorem error (h : Triple P m Q E) {s s' : σ} {e : ε} (hs : P s) (hm : m s = .error e s') : E s' := by
  have hresult := h s hs
  rwa [hm] at hresult

/-- A command that cannot stop returns. -/
theorem returns {s : σ} (h : Triple (fun s' => s' = s) m Q fun _ => False) : ∃ a s', m s = .ok a s' ∧ Q a s' := by
  cases hm : m s with
  | ok a s' => exact ⟨a, s', rfl, h.ok rfl hm⟩
  | error e s' => exact (h.error rfl hm).elim

theorem pure {a : α} (h : ∀ s, P s → Q a s) : Triple P (Pure.pure a : EStateM ε σ α) Q E := h

theorem bind {f : α → EStateM ε σ β} {R : β → σ → Prop} (hm : Triple P m Q E) (hf : ∀ a, Triple (Q a) (f a) R E) :
    Triple P (m >>= f) R E := by
  intro s hs
  have hfirst := hm s hs
  rw [bind_apply]
  cases h : m s with
  | ok a s' =>
      rw [h] at hfirst
      exact hf a s' hfirst
  | error e s' =>
      rw [h] at hfirst
      exact hfirst

theorem conseq (h : Triple P m Q E) (hP : ∀ s, P' s → P s) (hQ : ∀ a s, Q a s → Q' a s) (hE : ∀ s, E s → E' s) :
    Triple P' m Q' E' := by
  intro s hs
  have hold := h s (hP s hs)
  cases hm : m s with
  | ok a s' =>
      rw [hm] at hold
      exact hQ a s' hold
  | error e s' =>
      rw [hm] at hold
      exact hE s' hold

theorem pre (h : Triple P m Q E) (hP : ∀ s, P' s → P s) : Triple P' m Q E :=
  h.conseq hP (fun _ _ hQ => hQ) fun _ hE => hE

theorem post (h : Triple P m Q E) (hQ : ∀ a s, Q a s → Q' a s) : Triple P m Q' E :=
  h.conseq (fun _ hP => hP) hQ fun _ hE => hE

theorem and (h : Triple P m Q E) (h' : Triple P m Q' E') :
    Triple P m (fun a s => Q a s ∧ Q' a s) (fun s => E s ∧ E' s) := by
  intro s hs
  have hboth := And.intro (h s hs) (h' s hs)
  cases hm : m s with
  | ok a s' =>
      rw [hm] at hboth
      exact hboth
  | error e s' =>
      rw [hm] at hboth
      exact hboth

/-- From a single state the triple is a fact about one result. -/
theorem at_state {s : σ} (h : match m s with
      | .ok a s' => Q a s'
      | .error _ s' => E s') : Triple (fun s' => s' = s) m Q E := by
  rintro _ rfl
  exact h

/-- A command is known when what it does from every single state is. -/
theorem of_state (h : ∀ s, P s → Triple (fun s' => s' = s) m Q E) : Triple P m Q E :=
  fun s hs => h s hs s rfl

theorem get {Q : σ → σ → Prop} (h : ∀ s, P s → Q s s) : Triple P (MonadState.get : EStateM ε σ σ) Q E := h

/-- A command that starts by looking at the state. -/
theorem get_bind {f : σ → EStateM ε σ α} (h : ∀ s, P s → Triple (fun s' => s' = s) (f s) Q E) :
    Triple P (do f (← MonadState.get)) Q E :=
  fun s hs => h s hs s rfl

theorem modified {f : σ → σ} {Q : Unit → σ → Prop} (h : ∀ s, P s → Q () (f s)) :
    Triple P (modify f : EStateM ε σ Unit) Q E := h

theorem modify_pure {f : σ → σ} {a : α} (h : ∀ s, P s → Q a (f s)) :
    Triple P (do modify f; Pure.pure a : EStateM ε σ α) Q E := h

theorem put {s' : σ} {Q : Unit → σ → Prop} (h : ∀ s, P s → Q () s') :
    Triple P (set s' : EStateM ε σ Unit) Q E := h

theorem modify_bind {f : σ → σ} {c : EStateM ε σ α} {s : σ} (h : Triple (fun s' => s' = f s) c Q E) :
    Triple (fun s' => s' = s) (do modify f; c) Q E := by
  rintro _ rfl
  exact h _ rfl

theorem put_bind {c : EStateM ε σ α} {s' : σ} (h : Triple (fun s => s = s') c Q E) :
    Triple P (do set s'; c) Q E :=
  fun _ _ => h _ rfl

theorem throw {e : ε} (h : ∀ s, P s → E s) : Triple P (MonadExcept.throw e : EStateM ε σ α) Q E := h

theorem ite {c : Prop} [Decidable c] {m' : EStateM ε σ α} (hm : c → Triple P m Q E) (hm' : ¬ c → Triple P m' Q E) :
    Triple P (if c then m else m') Q E := by
  split
  case isTrue hc => exact hm hc
  case isFalse hc => exact hm' hc

end Triple

end Havuz.Lib
