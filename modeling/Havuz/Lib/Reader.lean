import Havuz.Lib.Triple
import Mathlib.Data.List.TakeWhile

/-!
# Readers of a text

A reader takes symbols off the front of what is left of a text, or stops with an error. Three things are said of one:
what the texts are that it takes (`Consumes`), that it does the same when more text follows (`Stable`, and `Firm` when
this holds even where it has read to the end), and that an error is out of the question as long as little is left
(`Avoids`). There is a rule for each of them for each way of putting readers together.

A reader that counts its steps does the same with more of them, so `Stable` and `Firm` compare two readers.
-/

namespace Havuz.Lib

/-- What is left of a text, and how much of it was read. -/
structure Cursor (σ : Type) where
  rest : List σ
  pos : ℕ
deriving DecidableEq, Repr

abbrev Reader (ε σ α : Type) := EStateM ε (Cursor σ) α

variable {ε σ α β : Type}

namespace Cursor

/-- The same place in a longer text. -/
def extend (c : Cursor σ) (more : List σ) : Cursor σ := { c with rest := c.rest ++ more }

@[simp] theorem extend_rest (c : Cursor σ) (more : List σ) : (c.extend more).rest = c.rest ++ more := rfl

@[simp] theorem extend_pos (c : Cursor σ) (more : List σ) : (c.extend more).pos = c.pos := rfl

/-- From `c` to `c'` the text was read. -/
def Took (c c' : Cursor σ) (text : List σ) : Prop := c.rest = text ++ c'.rest ∧ c'.pos = c.pos + text.length

theorem Took.refl (c : Cursor σ) : c.Took c [] := ⟨rfl, rfl⟩

theorem took_front (text rest : List σ) (pos : ℕ) : (Cursor.mk (text ++ rest) pos).Took ⟨rest, pos + text.length⟩ text :=
  ⟨rfl, rfl⟩

theorem Took.trans {c c' c'' : Cursor σ} {text text' : List σ} (h : c.Took c' text) (h' : c'.Took c'' text') :
    c.Took c'' (text ++ text') := by
  refine ⟨by rw [h.1, h'.1, List.append_assoc], ?_⟩
  rw [h'.2, h.2, List.length_append]
  omega

theorem Took.length {c c' : Cursor σ} {text : List σ} (h : c.Took c' text) :
    c.rest.length = text.length + c'.rest.length := by
  rw [h.1, List.length_append]

end Cursor

namespace Reader

/-! ## Single steps -/

/-- Pass over the symbols with `p`. -/
def skip (p : σ → Bool) : Reader ε σ Unit :=
  modify fun c => ⟨c.rest.dropWhile p, c.pos + (c.rest.takeWhile p).length⟩

/-- The next symbol; the error if there is none. -/
def next (e : ε) : Reader ε σ σ := fun c =>
  match c.rest with
  | [] => .error e c
  | a :: rest => .ok a ⟨rest, c.pos + 1⟩

@[simp] theorem next_cons (e : ε) (a : σ) (rest : List σ) (pos : ℕ) :
    next e ⟨a :: rest, pos⟩ = .ok a ⟨rest, pos + 1⟩ := rfl

theorem next_ok {e : ε} {c c' : Cursor σ} {a : σ} (h : next e c = .ok a c') : c = ⟨a :: c'.rest, c.pos⟩ ∧ c'.pos = c.pos + 1 := by
  match c, h with
  | ⟨_ :: _, _⟩, h =>
    cases h
    exact ⟨rfl, rfl⟩

/-- What is passed over ends where a symbol without `p` stands. -/
theorem skip_run {p : σ → Bool} {text rest : List σ} (htext : ∀ a ∈ text, p a = true) (hrest : ∀ a ∈ rest.head?, p a = false)
    (pos : ℕ) : skip p ⟨text ++ rest, pos⟩ = (.ok () ⟨rest, pos + text.length⟩ : EStateM.Result ε (Cursor σ) Unit) := by
  have hstop : rest.takeWhile p = [] ∧ rest.dropWhile p = rest := by
    match rest, hrest with
    | [], _ => exact ⟨rfl, rfl⟩
    | a :: rest, hrest =>
        have ha : p a = false := hrest a rfl
        exact ⟨by rw [List.takeWhile_cons, ha]; rfl, by rw [List.dropWhile_cons, ha]; rfl⟩
  show EStateM.Result.ok () (Cursor.mk _ _) = _
  rw [List.takeWhile_append_of_pos htext, List.dropWhile_append_of_pos htext, hstop.1, hstop.2, List.append_nil]

/-! ## What is read -/

/-- Whatever the reader takes is a text with `T`. -/
def Consumes (T : List σ → Prop) (m : Reader ε σ α) : Prop :=
  ∀ c a c', m c = .ok a c' → ∃ text, T text ∧ c.Took c' text

variable {T T' T'' : List σ → Prop} {m m' : Reader ε σ α} {f f' : α → Reader ε σ β}

theorem Consumes.mono (h : Consumes T m) (hT : ∀ text, T text → T' text) : Consumes T' m := by
  intro c a c' hm
  obtain ⟨text, htext, htook⟩ := h c a c' hm
  exact ⟨text, hT text htext, htook⟩

theorem bind_ok {c : Cursor σ} {b : β} {c' : Cursor σ} :
    (m >>= f) c = .ok b c' ↔ ∃ a c₁, m c = .ok a c₁ ∧ f a c₁ = .ok b c' := by
  rw [bind_apply]
  cases m c with
  | ok a c₁ => simp
  | error e c₁ => simp

theorem Consumes.bind (hm : Consumes T m) (hf : ∀ a, Consumes T' (f a)) (hT : ∀ t t', T t → T' t' → T'' (t ++ t')) :
    Consumes T'' (m >>= f) := by
  intro c b c' h
  obtain ⟨a, c₁, hfirst, hsecond⟩ := bind_ok.mp h
  obtain ⟨t, ht, htook⟩ := hm c a c₁ hfirst
  obtain ⟨t', ht', htook'⟩ := hf a c₁ b c' hsecond
  exact ⟨t ++ t', hT t t' ht ht', htook.trans htook'⟩

theorem Consumes.pure (hT : T []) (a : α) : Consumes T (pure a : Reader ε σ α) := by
  intro c a c' h
  cases h
  exact ⟨[], hT, .refl c⟩

theorem Consumes.throw (e : ε) : Consumes T (throw e : Reader ε σ α) := by
  intro c a c' h
  cases h

theorem consumes_next (e : ε) : Consumes (fun t : List σ => ∃ a, t = [a]) (next e) := by
  intro c a c' h
  obtain ⟨hc, hpos⟩ := next_ok h
  exact ⟨[a], ⟨a, rfl⟩, by rw [hc]; rfl, hpos⟩

/-- What is read behind a symbol. -/
theorem Consumes.next_bind {e : ε} {f : σ → Reader ε σ β} (hf : ∀ a, Consumes (fun t => T (a :: t)) (f a)) :
    Consumes T (next e >>= f) := by
  intro c b c' h
  obtain ⟨a, c₁, hfirst, hsecond⟩ := bind_ok.mp h
  obtain ⟨hc, hpos⟩ := next_ok hfirst
  obtain ⟨t, ht, htook⟩ := hf a c₁ b c' hsecond
  refine ⟨a :: t, ht, ?_, ?_⟩
  · rw [hc, List.cons_append, ← htook.1]
  · rw [htook.2, hpos, List.length_cons]
    omega

theorem consumes_skip (p : σ → Bool) : Consumes (fun t => ∀ a ∈ t, p a = true) (skip p : Reader ε σ Unit) := by
  intro c a c' h
  cases h
  exact ⟨c.rest.takeWhile p, fun a ha => List.mem_takeWhile_imp ha, (List.takeWhile_append_dropWhile).symm, rfl⟩

/-! ## More text -/

/-- Where something is left, the second reader does with more text what the first one did. -/
def Stable (m m' : Reader ε σ α) : Prop :=
  ∀ c a c' more, m c = .ok a c' → c'.rest ≠ [] → m' (c.extend more) = .ok a (c'.extend more)

/-- The second reader does with more text what the first one did. -/
def Firm (m m' : Reader ε σ α) : Prop :=
  ∀ c a c' more, m c = .ok a c' → m' (c.extend more) = .ok a (c'.extend more)

theorem Firm.stable (h : Firm m m') : Stable m m' := fun c a c' more hm _ => h c a c' more hm

theorem Firm.bind (hm : Firm m m') (hf : ∀ a, Firm (f a) (f' a)) : Firm (m >>= f) (m' >>= f') := by
  intro c b c' more h
  obtain ⟨a, c₁, hfirst, hsecond⟩ := bind_ok.mp h
  exact bind_ok.mpr ⟨a, c₁.extend more, hm c a c₁ more hfirst, hf a c₁ b c' more hsecond⟩

/-- What the second part leaves was left by the first. -/
theorem Stable.bind (hm : Stable m m') (hf : ∀ a, Stable (f a) (f' a)) (hT : ∀ a, Consumes T (f a)) :
    Stable (m >>= f) (m' >>= f') := by
  intro c b c' more h hrest
  obtain ⟨a, c₁, hfirst, hsecond⟩ := bind_ok.mp h
  obtain ⟨text, -, htook⟩ := hT a c₁ b c' hsecond
  have hleft : c₁.rest ≠ [] := by
    rw [htook.1]
    exact fun hnil => hrest (List.append_eq_nil_iff.mp hnil).2
  exact bind_ok.mpr ⟨a, c₁.extend more, hm c a c₁ more hfirst hleft, hf a c₁ b c' more hsecond hrest⟩

/-- Before a part that takes something, there is something. -/
theorem Stable.bind_firm (hm : Stable m m') (hf : ∀ a, Firm (f a) (f' a)) (hT : ∀ a, Consumes (· ≠ []) (f a)) :
    Firm (m >>= f) (m' >>= f') := by
  intro c b c' more h
  obtain ⟨a, c₁, hfirst, hsecond⟩ := bind_ok.mp h
  obtain ⟨text, htext, htook⟩ := hT a c₁ b c' hsecond
  have hleft : c₁.rest ≠ [] := by
    rw [htook.1]
    exact fun hnil => htext (List.append_eq_nil_iff.mp hnil).1
  exact bind_ok.mpr ⟨a, c₁.extend more, hm c a c₁ more hfirst hleft, hf a c₁ b c' more hsecond⟩

theorem Firm.pure (a : α) : Firm (pure a : Reader ε σ α) (pure a) := by
  intro c a c' more h
  cases h
  rfl

theorem Firm.throw (e : ε) : Firm (throw e : Reader ε σ α) m' := by
  intro c a c' more h
  cases h

theorem firm_next (e : ε) : Firm (next e : Reader ε σ σ) (next e) := by
  intro c a c' more h
  match c, h with
  | ⟨_ :: _, _⟩, h =>
    cases h
    rfl

theorem stable_skip (p : σ → Bool) : Stable (skip p : Reader ε σ Unit) (skip p) := by
  intro c a c' more h hrest
  cases h
  have hshort : ¬ (c.rest.takeWhile p).length = c.rest.length := by
    intro hlength
    have hall : ∀ a ∈ c.rest, p a = true :=
      List.takeWhile_eq_self_iff.mp ((List.takeWhile_prefix p).eq_of_length hlength)
    exact hrest (List.dropWhile_eq_nil_iff.mpr hall)
  show EStateM.Result.ok () (Cursor.mk _ _) = .ok () (Cursor.mk _ _)
  rw [Cursor.extend_rest, Cursor.extend_pos, List.takeWhile_append, if_neg hshort, List.dropWhile_append,
    if_neg (by simpa using hrest)]

/-! ## Errors -/

/-- With fewer than `n` symbols left, the reader does not stop with `e`. -/
def Avoids (e : ε) (n : ℕ) (m : Reader ε σ α) : Prop := ∀ c c', c.rest.length < n → m c ≠ .error e c'

variable {e : ε} {n : ℕ}

theorem bind_error {c c' : Cursor σ} :
    (m >>= f) c = .error e c' ↔ m c = .error e c' ∨ ∃ a c₁, m c = .ok a c₁ ∧ f a c₁ = .error e c' := by
  rw [bind_apply]
  cases m c with
  | ok a c₁ => simp
  | error e c₁ => simp

theorem Avoids.bind (hm : Avoids e n m) (hT : Consumes T m) (hf : ∀ a, Avoids e n (f a)) : Avoids e n (m >>= f) := by
  intro c c' hlength h
  obtain hfirst | ⟨a, c₁, hfirst, hsecond⟩ := bind_error.mp h
  · exact hm c c' hlength hfirst
  · obtain ⟨text, -, htook⟩ := hT c a c₁ hfirst
    have hleft := htook.length
    exact hf a c₁ c' (by omega) hsecond

/-- Behind a part that takes something, less is left. -/
theorem Avoids.bind_less (hm : Avoids e (n + 1) m) (hT : Consumes (· ≠ []) m) (hf : ∀ a, Avoids e n (f a)) :
    Avoids e (n + 1) (m >>= f) := by
  intro c c' hlength h
  obtain hfirst | ⟨a, c₁, hfirst, hsecond⟩ := bind_error.mp h
  · exact hm c c' hlength hfirst
  · obtain ⟨text, htext, htook⟩ := hT c a c₁ hfirst
    have hleft := htook.length
    have htaken : 0 < text.length := List.length_pos_iff.mpr htext
    exact hf a c₁ c' (by omega) hsecond

theorem Avoids.pure (a : α) : Avoids e n (pure a : Reader ε σ α) := by
  intro c c' _ h
  cases h

theorem Avoids.throw {e' : ε} (hne : e' ≠ e) : Avoids e n (throw e' : Reader ε σ α) := by
  intro c c' _ h
  cases h
  exact hne rfl

theorem avoids_next {e' : ε} (hne : e' ≠ e) : Avoids e n (next e' : Reader ε σ σ) := by
  intro c c' _ h
  match c, h with
  | ⟨[], _⟩, h =>
    cases h
    exact hne rfl

theorem avoids_skip (p : σ → Bool) : Avoids e n (skip p : Reader ε σ Unit) := by
  intro c c' _ h
  cases h

end Reader

end Havuz.Lib
