import Havuz.Sql.Noise
import Havuz.Sql.Pieces

/-!
# What the markers are looked for in

`strip_literals` walks over one statement at a time. The walk over a statement is the part of the walk over the whole
text that belongs to it, so what is left of it is what its tokens show: their text, and one blank for a literal or a
comment.
-/

namespace Havuz.Sql

open Postgres (Token lex statements raws core IsTail)

/-! ## A piece of the walk -/

/-- A semicolon that is code ends what the walk is holding back, as the end of the text does. -/
theorem scanStep_semicolon (s : ScanState) :
    scanStep s ';' = (.base, scanFinish s ++ [(.code, ';')]) ∨ ∃ s', scanStep s ';' = (s', [(.inside, ';')]) ∧ scanFinish s = [] := by
  cases s with
  | base | dash | slash => exact .inl rfl
  | dollar acc => exact .inl rfl
  | quoteEscape q => exact .inr ⟨_, rfl, rfl⟩
  | line | block | blockSlash | blockStar => exact .inr ⟨_, rfl, rfl⟩
  | quote q =>
      refine .inr ?_
      simp only [scanStep]
      split
      · exact ⟨_, rfl, rfl⟩
      split
      · exact ⟨_, rfl, rfl⟩
      · exact ⟨_, rfl, rfl⟩
  | quoteEnd q =>
      simp only [scanStep]
      split
      · exact .inr ⟨_, rfl, rfl⟩
      · exact .inl rfl
  | body tag seen =>
      refine .inr ?_
      simp only [scanStep]
      split
      · exact ⟨_, rfl, rfl⟩
      · exact ⟨_, rfl, rfl⟩

/-- The walk over what stands in front of such a semicolon is the walk so far. -/
theorem scanFrom_piece {s : ScanState} {u v : Text} {l l' : Labelled}
    (h : scanFrom s (u ++ ';' :: v) = l ++ (.code, ';') :: l') (hl : l.map Prod.snd = held s ++ u) : scanFrom s u = l := by
  induction u generalizing s l with
  | nil =>
      have hlength : l.length = (scanFinish s).length := by
        have := congrArg List.length hl
        rwa [List.append_nil, held, List.length_map, List.length_map] at this
      rw [List.nil_append, scanFrom_cons] at h
      obtain hstep | ⟨s', hstep, hheld⟩ := scanStep_semicolon s
      · rw [hstep, List.append_assoc] at h
        rw [scanFrom_nil, (List.append_inj h hlength.symm).1]
      · -- inside of a literal the semicolon would not be code
        rw [hheld, List.length_nil, List.length_eq_zero_iff] at hlength
        rw [hlength, hstep] at h
        cases h
  | cons c u ih =>
      have hread := scanStep_text s c
      have hlength : (scanStep s c).2.length ≤ l.length := by
        have hl' := congrArg List.length hl
        have hread' := congrArg List.length hread
        simp only [List.length_map, List.length_append, List.length_cons, List.length_nil] at hl' hread'
        omega
      rw [List.cons_append, scanFrom_cons] at h
      obtain ⟨l₁, rfl⟩ : ∃ l₁, l = (scanStep s c).2 ++ l₁ := by
        have hpre : (scanStep s c).2 <+: l ++ (.code, ';') :: l' := ⟨_, h⟩
        obtain ⟨l₁, hl₁⟩ := List.prefix_of_prefix_length_le hpre (List.prefix_append l _) hlength
        exact ⟨l₁, hl₁.symm⟩
      rw [List.append_assoc, List.append_cancel_left_eq] at h
      have hrest : l₁.map Prod.snd = held (scanStep s c).1 ++ u := by
        rw [List.map_append, List.append_cons, ← hread, List.append_assoc] at hl
        exact List.append_cancel_left hl
      rw [scanFrom_cons, ih h hrest]

/-! ## The labels of a statement -/

theorem labels_text (ts : List Token) : (labels ts).map Prod.snd = raws ts := by
  have hbehind : ∀ (t : Token) (l : Labelled), (behind t l).map Prod.snd = l.map Prod.snd := by
    intro t l
    unfold behind
    split
    · unfold endLine
      split <;> rfl
    · rfl
  induction ts with
  | nil => rfl
  | cons t ts ih => rw [labels, List.map_append, tokenLabels_text, hbehind, ih, Postgres.raws_cons]

theorem endLine_of_ne {label : Label} {c : Char} (hc : c ≠ '\r') (l : Labelled) :
    endLine ((label, c) :: l) = (label, c) :: l := by
  rw [endLine]
  rintro label' l' heq
  exact hc (Prod.mk.inj (List.cons.inj heq).1).2

theorem labels_append {ts ts' : List Token} (h : endLine (labels ts') = labels ts') : labels (ts ++ ts') = labels ts ++ labels ts' := by
  induction ts with
  | nil => rfl
  | cons t ts ih =>
      have hbehind : behind t (labels ts ++ labels ts') = behind t (labels ts) ++ labels ts' := by
        unfold behind
        split
        · match hts : labels ts with
          | [] => exact h
          | (label, c) :: l =>
              by_cases hc : c = '\r'
              · subst hc
                rfl
              · rw [List.cons_append, endLine_of_ne hc, endLine_of_ne hc, List.cons_append]
        · rfl
      rw [List.cons_append, labels, labels, ih, hbehind, List.append_assoc]

theorem labels_tail {ts tail : List Token} (htail : IsTail tail) :
    labels (ts ++ tail) = labels ts ++ labels tail := by
  refine labels_append ?_
  obtain rfl | ⟨t, rest, rfl, hsemi⟩ := htail
  · rfl
  · rw [eq_semicolon hsemi]
    rfl

/-- **The walk over a statement gives its tokens their labels.** -/
theorem scan_statement {standard : Bool} {ts tail : List Token} (hlex : lex standard (raws (ts ++ tail)) = ts ++ tail)
    (halike : allAlike standard (ts ++ tail) = true) (htail : IsTail tail) : walk.scan (raws ts) = labels ts := by
  have hscan : walk.scan (raws (ts ++ tail)) = labels ts ++ labels tail := by
    rw [scan_alike (by rwa [hlex]), hlex, labels_tail htail]
  obtain rfl | ⟨t, rest, rfl, hsemi⟩ := htail
  · rwa [List.append_nil, labels, List.append_nil] at hscan
  · have hraws : raws (ts ++ t :: rest) = raws ts ++ ';' :: raws rest := by
      rw [eq_semicolon hsemi, Postgres.raws_append, Postgres.raws_cons]
      rfl
    have hlabels : labels (t :: rest) = (.code, ';') :: labels rest := by
      rw [eq_semicolon hsemi]
      rfl
    rw [hraws, hlabels, walk_scan] at hscan
    exact scanFrom_piece hscan (labels_text ts)

/-! ## What is shown -/

/-- The text of some tokens with a blank for each literal and each comment. -/
def shown (ts : List Token) : Text := (labels ts).flatMap keepCode

/-- What is left of a statement behind its leading separators is what its tokens show. -/
theorem strip_shown {standard : Bool} {sql : Text} {st : List Token} (halike : allAlike standard (lex standard sql) = true)
    (hst : st ∈ statements standard sql) : stripLiterals (raws (core st)) = shown (core st) := by
  obtain ⟨pre, tail, heq, hlex, htail⟩ := Postgres.mem_statements hst
  rw [heq] at halike
  have hsplit : st = st.takeWhile Token.isSeparator ++ core st := List.takeWhile_append_dropWhile.symm
  rw [hsplit, List.append_assoc] at hlex halike
  rw [stripLiterals, scan_statement (Postgres.lex_suffix hlex) (allAlike_suffix (allAlike_suffix halike)) htail]
  rfl

end Havuz.Sql
