import Mathlib.Data.List.Basic

/-!
# Runs of a step function, scanners and bounded reads

Three small pieces that name no particular program:

* `run` drives a total step function through a list of labels; `Along` says that every step of the
  run meets a condition on the state before it, and `Along.invariant` is the induction rule that
  every safety result of the development goes through.
* `Scanner` is a Mealy machine over a list. Its output splits over `++` (`Scanner.emit_append`), which
  is what makes a lexer compositional.
* `readUntil` reads a queue up to the first element a stop function recognises, and reports what was
  read and what is left.
-/

namespace Havuz.Lib

/-! ## Runs -/

section Run

variable {S L : Type*}

/-- The state a list of labels drives `step` to. -/
def run (step : S → L → S) (s : S) (ls : List L) : S :=
  ls.foldl step s

/-- Every step of the run from `s` along `ls` meets `ok` in the state it starts from. -/
def Along (step : S → L → S) (ok : S → L → Prop) : S → List L → Prop
  | _, [] => True
  | s, l :: ls => ok s l ∧ Along step ok (step s l) ls

@[simp] theorem run_nil (step : S → L → S) (s : S) : run step s [] = s := rfl

@[simp] theorem run_cons (step : S → L → S) (s : S) (l : L) (ls : List L) :
    run step s (l :: ls) = run step (step s l) ls := rfl

theorem run_append (step : S → L → S) (s : S) (ls ls' : List L) :
    run step s (ls ++ ls') = run step (run step s ls) ls' :=
  List.foldl_append

theorem Along.append {step : S → L → S} {ok : S → L → Prop} {s : S} {ls ls' : List L} :
    Along step ok s (ls ++ ls') ↔ Along step ok s ls ∧ Along step ok (run step s ls) ls' := by
  induction ls generalizing s with
  | nil => simp [Along]
  | cons l ls ih =>
      rw [List.cons_append, Along, Along, ih, run_cons, and_assoc]

/-- Whether a given run meets a condition can be computed. -/
instance Along.decidable (step : S → L → S) (ok : S → L → Prop) [∀ s l, Decidable (ok s l)] :
    ∀ s ls, Decidable (Along step ok s ls)
  | _, [] => .isTrue trivial
  | s, l :: ls =>
      have := Along.decidable step ok (step s l) ls
      inferInstanceAs (Decidable (_ ∧ _))

/-- A condition on labels alone. -/
theorem Along.of_forall {step : S → L → S} {ok : S → L → Prop} {s : S} {ls : List L}
    (h : ∀ l ∈ ls, ∀ s, ok s l) : Along step ok s ls := by
  induction ls generalizing s with
  | nil => trivial
  | cons l ls ih =>
      exact ⟨h l List.mem_cons_self s, ih fun l' hl' => h l' (List.mem_cons_of_mem l hl')⟩

theorem Along.and {step : S → L → S} {ok ok' : S → L → Prop} {s : S} {ls : List L} (h : Along step ok s ls)
    (h' : Along step ok' s ls) : Along step (fun s l => ok s l ∧ ok' s l) s ls := by
  induction ls generalizing s with
  | nil => trivial
  | cons l ls ih => exact ⟨⟨h.1, h'.1⟩, ih h.2 h'.2⟩

/-- The steps of a run are made with its labels. -/
theorem Along.with_labels {step : S → L → S} {ok : S → L → Prop} {s : S} {ls : List L} (h : Along step ok s ls) :
    Along step (fun s l => ok s l ∧ l ∈ ls) s ls := by
  suffices hsub : ∀ all : List L, ls ⊆ all → Along step (fun s l => ok s l ∧ l ∈ all) s ls from
    hsub ls (List.Subset.refl ls)
  intro all hall
  induction ls generalizing s with
  | nil => trivial
  | cons l ls ih =>
      obtain ⟨hl, hrest⟩ := h
      obtain ⟨hmem, hsub⟩ := List.cons_subset.mp hall
      exact ⟨⟨hl, hmem⟩, ih hrest hsub⟩

/-- **The invariant rule.** What holds at the start and survives every step that meets `ok` holds at
the end of every run whose steps all meet `ok`. -/
theorem Along.invariant {step : S → L → S} {ok : S → L → Prop} {I : S → Prop}
    (hstep : ∀ s l, I s → ok s l → I (step s l)) {s : S} {ls : List L}
    (h : Along step ok s ls) (hs : I s) : I (run step s ls) := by
  induction ls generalizing s with
  | nil => exact hs
  | cons l ls ih =>
      obtain ⟨hl, hls⟩ := h
      exact ih hls (hstep s l hs hl)

/-- The same where no condition is put on the steps. -/
theorem run_invariant {step : S → L → S} {I : S → Prop} (hstep : ∀ s l, I s → I (step s l)) {s : S}
    (hs : I s) (ls : List L) : I (run step s ls) := by
  induction ls generalizing s with
  | nil => exact hs
  | cons l ls ih => exact ih (hstep s l hs)

/-- The same for a relation between the labels so far and the state they led to. -/
theorem run_history {step : S → L → S} {I : List L → S → Prop}
    (hstep : ∀ ls s l, I ls s → I (ls ++ [l]) (step s l)) {s : S} {before : List L} (hs : I before s)
    (ls : List L) : I (before ++ ls) (run step s ls) := by
  induction ls generalizing s before with
  | nil => rwa [List.append_nil]
  | cons l ls ih =>
      have hnext := ih (hstep before s l hs)
      rwa [List.append_assoc] at hnext

/-- Both together: a relation to the labels so far, and a condition on the steps. -/
theorem Along.history {step : S → L → S} {ok : S → L → Prop} {I : List L → S → Prop}
    (hstep : ∀ ls s l, I ls s → ok s l → I (ls ++ [l]) (step s l)) {s : S} {before ls : List L}
    (h : Along step ok s ls) (hs : I before s) : I (before ++ ls) (run step s ls) := by
  induction ls generalizing s before with
  | nil => rwa [List.append_nil]
  | cons l ls ih =>
      obtain ⟨hl, hls⟩ := h
      have hnext := ih hls (hstep before s l hs hl)
      rwa [List.append_assoc] at hnext

/-- The last of what `f` finds in the steps of a run. -/
def lastOf {B : Type*} (step : S → L → S) (f : S → L → Option B) : S → List L → Option B
  | _, [] => none
  | s, l :: ls => (lastOf step f (step s l) ls).or (f s l)

theorem lastOf_snoc {B : Type*} (step : S → L → S) (f : S → L → Option B) (s : S) (ls : List L) (l : L) :
    lastOf step f s (ls ++ [l]) = (f (run step s ls) l).or (lastOf step f s ls) := by
  induction ls generalizing s with
  | nil => cases h : f s l <;> simp [lastOf, h]
  | cons l' ls ih => rw [List.cons_append, lastOf, ih, run_cons, lastOf, Option.or_assoc]

/-- Two ways a run can go: as long as every step meets `ok` it stays good, and a step that does not
spoils it for good. -/
theorem Along.good_or_bad {step : S → L → S} {valid ok : S → L → Prop} {G B : S → Prop}
    (hgood : ∀ s l, valid s l → G s → (ok s l ∧ G (step s l)) ∨ (¬ ok s l ∧ B (step s l)))
    (hbad : ∀ s l, valid s l → B s → B (step s l)) {s : S} {ls : List L}
    (h : Along step valid s ls) (hs : G s) :
    (Along step ok s ls ∧ G (run step s ls)) ∨ (¬ Along step ok s ls ∧ B (run step s ls)) := by
  induction ls generalizing s with
  | nil => exact .inl ⟨trivial, hs⟩
  | cons l ls ih =>
      obtain ⟨hl, hls⟩ := h
      obtain ⟨hok, hnext⟩ | ⟨hok, hnext⟩ := hgood s l hl hs
      · obtain ⟨hrest, hend⟩ | ⟨hrest, hend⟩ := ih hls hnext
        · exact .inl ⟨⟨hok, hrest⟩, hend⟩
        · exact .inr ⟨fun h => hrest h.2, hend⟩
      · exact .inr ⟨fun h => hok h.1, hls.invariant (fun s l hB hv => hbad s l hv hB) hnext⟩

end Run

/-! ## Scanners -/

/-- A Mealy machine that reads a list and writes another one. `finish` flushes what the last state
was still holding back. -/
structure Scanner (S A B : Type*) where
  start : S
  step : S → A → S × List B
  finish : S → List B

namespace Scanner

variable {S A B : Type*} (M : Scanner S A B)

/-- The state after reading `l` from `s`. -/
def state (s : S) (l : List A) : S :=
  l.foldl (fun s a => (M.step s a).1) s

/-- What is written while reading `l` from `s`. -/
def emit : S → List A → List B
  | _, [] => []
  | s, a :: l => (M.step s a).2 ++ emit (M.step s a).1 l

/-- A whole scan: read everything, then flush. -/
def scan (l : List A) : List B :=
  M.emit M.start l ++ M.finish (M.state M.start l)

@[simp] theorem state_nil (s : S) : M.state s [] = s := rfl

@[simp] theorem state_cons (s : S) (a : A) (l : List A) :
    M.state s (a :: l) = M.state (M.step s a).1 l := rfl

@[simp] theorem emit_nil (s : S) : M.emit s [] = [] := rfl

@[simp] theorem emit_cons (s : S) (a : A) (l : List A) :
    M.emit s (a :: l) = (M.step s a).2 ++ M.emit (M.step s a).1 l := rfl

theorem state_append (s : S) (l₁ l₂ : List A) :
    M.state s (l₁ ++ l₂) = M.state (M.state s l₁) l₂ :=
  List.foldl_append

theorem emit_append (s : S) (l₁ l₂ : List A) :
    M.emit s (l₁ ++ l₂) = M.emit s l₁ ++ M.emit (M.state s l₁) l₂ := by
  induction l₁ generalizing s with
  | nil => rfl
  | cons a l₁ ih => simp [ih]

end Scanner

/-! ## Bounded reads -/

section ReadUntil

variable {α β : Type*}

/-- Read a queue up to and including the first element `stop` recognises: the answer of `stop`, if
any, what was read, and what is left. -/
def readUntil (stop : α → Option β) : List α → Option β × List α × List α
  | [] => (none, [], [])
  | a :: l =>
      match stop a with
      | some b => (some b, [a], l)
      | none => ((readUntil stop l).1, a :: (readUntil stop l).2.1, (readUntil stop l).2.2)

/-- Nothing is lost: what was read followed by what is left is the queue. -/
theorem readUntil_append (stop : α → Option β) (l : List α) :
    (readUntil stop l).2.1 ++ (readUntil stop l).2.2 = l := by
  induction l with
  | nil => rfl
  | cons a l ih =>
      rw [readUntil]
      cases h : stop a with
      | some b => rfl
      | none => simp [ih]

/-- A read that finds no stop has read the whole queue. -/
theorem readUntil_none {stop : α → Option β} {l : List α} (h : (readUntil stop l).1 = none) :
    (readUntil stop l).2.2 = [] := by
  induction l with
  | nil => rfl
  | cons a l ih =>
      rw [readUntil] at h ⊢
      cases hs : stop a with
      | some b => simp [hs] at h
      | none =>
          simp only [hs] at h ⊢
          exact ih h

/-- A read that succeeds ends in the element that stopped it, and met no stop before. -/
theorem readUntil_some {stop : α → Option β} {l : List α} {b : β}
    (h : (readUntil stop l).1 = some b) :
    ∃ front a, (readUntil stop l).2.1 = front ++ [a] ∧ stop a = some b ∧
      ∀ x ∈ front, stop x = none := by
  induction l with
  | nil => simp [readUntil] at h
  | cons a l ih =>
      rw [readUntil] at h ⊢
      cases hs : stop a with
      | some b' =>
          simp only [hs] at h ⊢
          exact ⟨[], a, rfl, by rw [hs, h], by simp⟩
      | none =>
          simp only [hs] at h ⊢
          obtain ⟨front, a', hread, hstop, hfront⟩ := ih h
          refine ⟨a :: front, a', by rw [hread]; rfl, hstop, ?_⟩
          intro x hx
          rcases List.mem_cons.mp hx with rfl | hx
          · exact hs
          · exact hfront x hx

/-- A queue with no stop in front of its last element, which is one, is read to the end. -/
theorem readUntil_last {stop : α → Option β} {front : List α} {a : α} {b : β}
    (hfront : ∀ x ∈ front, stop x = none) (ha : stop a = some b) :
    readUntil stop (front ++ [a]) = (some b, front ++ [a], []) := by
  induction front with
  | nil => simp [readUntil, ha]
  | cons x front ih =>
      have hx : stop x = none := hfront x (by simp)
      have ih := ih (fun y hy => hfront y (by simp [hy]))
      simp [readUntil, hx, ih]

end ReadUntil

end Havuz.Lib
