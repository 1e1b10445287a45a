import Mathlib.Data.List.TakeWhile
import Havuz.Postgres.Lexer
import Havuz.Sql.Scan

/-!
# The walk, one literal at a time

`scanFrom` is the walk from a state on. A literal or a comment is labelled as one piece, and the walk goes on behind
it outside of everything: this is the loop of `split_statements` and of `strip_literals`, read off the scanner.
-/

namespace Havuz.Sql

/-- Everything in it is inside of a literal or a comment. -/
def inside (t : Text) : Labelled := t.map (Label.inside, ·)

/-- Everything in it is code. -/
def code (t : Text) : Labelled := t.map (Label.code, ·)

@[simp] theorem inside_nil : inside [] = [] := rfl

@[simp] theorem inside_cons (c : Char) (t : Text) : inside (c :: t) = (.inside, c) :: inside t := rfl

@[simp] theorem inside_append (t t' : Text) : inside (t ++ t') = inside t ++ inside t' := List.map_append

@[simp] theorem code_nil : code [] = [] := rfl

@[simp] theorem code_cons (c : Char) (t : Text) : code (c :: t) = (.code, c) :: code t := rfl

@[simp] theorem code_append (t t' : Text) : code (t ++ t') = code t ++ code t' := List.map_append

/-- What the walk makes of a text from a state on. -/
def scanFrom (s : ScanState) (t : Text) : Labelled := walk.emit s t ++ walk.finish (walk.state s t)

theorem walk_scan (t : Text) : walk.scan t = scanFrom .base t := rfl

theorem scanFrom_nil (s : ScanState) : scanFrom s [] = scanFinish s := rfl

theorem scanFrom_cons (s : ScanState) (c : Char) (t : Text) :
    scanFrom s (c :: t) = (scanStep s c).2 ++ scanFrom (scanStep s c).1 t := by
  simp only [scanFrom, Lib.Scanner.emit_cons, Lib.Scanner.state_cons, walk, List.append_assoc]

/-- Two states that do the same with the next character go on in the same way. -/
theorem scanFrom_congr {s s' : ScanState} {c : Char} (h : scanStep s c = scanStep s' c) (t : Text) :
    scanFrom s (c :: t) = scanFrom s' (c :: t) := by
  rw [scanFrom_cons, scanFrom_cons, h]

/-- What is held back is code when nothing comes of it. -/
theorem scanFrom_held {s : ScanState} {held : Text} {c : Char} (h : scanStep s c = scanAfter held c) (t : Text) :
    scanFrom s (c :: t) = code held ++ scanFrom .base (c :: t) := by
  rw [scanFrom_cons, scanFrom_cons, h, scanAfter, List.append_assoc]
  rfl

/-! ## Code -/

/-- A character that nothing starts with. -/
def isPlain (c : Char) : Bool := c ≠ '\'' && c ≠ '"' && c ≠ '$' && c ≠ '-' && c ≠ '/'

theorem scanFrom_plain {c : Char} (h : isPlain c = true) (t : Text) :
    scanFrom .base (c :: t) = (.code, c) :: scanFrom .base t := by
  simp only [isPlain, Bool.and_eq_true, decide_eq_true_eq] at h
  obtain ⟨⟨⟨⟨hquote, hdouble⟩, hdollar⟩, hdash⟩, hslash⟩ := h
  rw [scanFrom_cons, scanStep, scanBase, if_neg (by simp [hquote, hdouble]), if_neg hdollar, if_neg hdash, if_neg hslash]
  rfl

theorem scanFrom_plains {t : Text} (h : ∀ c ∈ t, isPlain c = true) (rest : Text) :
    scanFrom .base (t ++ rest) = code t ++ scanFrom .base rest := by
  induction t with
  | nil => rfl
  | cons c t ih =>
      obtain ⟨hc, ht⟩ := List.forall_mem_cons.mp h
      rw [List.cons_append, scanFrom_plain hc, ih ht]
      rfl

/-- A dash alone. -/
theorem scanFrom_dash {t : Text} (h : t.head? ≠ some '-') :
    scanFrom .base ('-' :: t) = (.code, '-') :: scanFrom .base t := by
  have hfirst : scanFrom .base ('-' :: t) = scanFrom .dash t := scanFrom_cons ..
  match t with
  | [] => rfl
  | c :: t =>
      have hne : c ≠ '-' := fun heq => h (by rw [heq]; rfl)
      have hstep : scanStep .dash c = scanAfter ['-'] c := by simp only [scanStep, if_neg hne]
      rw [hfirst, scanFrom_held hstep]
      rfl

/-- A slash alone. -/
theorem scanFrom_slash {t : Text} (h : t.head? ≠ some '*') :
    scanFrom .base ('/' :: t) = (.code, '/') :: scanFrom .base t := by
  have hfirst : scanFrom .base ('/' :: t) = scanFrom .slash t := scanFrom_cons ..
  match t with
  | [] => rfl
  | c :: t =>
      have hne : c ≠ '*' := fun heq => h (by rw [heq]; rfl)
      have hstep : scanStep .slash c = scanAfter ['/'] c := by simp only [scanStep, if_neg hne]
      rw [hfirst, scanFrom_held hstep]
      rfl

/-! ## Comments -/

theorem scanFrom_line (t : Text) :
    scanFrom .line t = inside (t.takeWhile (· ≠ '\n')) ++ scanFrom .base (t.dropWhile (· ≠ '\n')) := by
  induction t with
  | nil => rfl
  | cons c t ih =>
      by_cases hc : c = '\n'
      · subst hc
        rfl
      · have hstep : scanStep .line c = (.line, [(.inside, c)]) := by simp only [scanStep, if_neg hc]
        rw [scanFrom_cons, hstep, List.takeWhile_cons_of_pos (by simpa using hc),
          List.dropWhile_cons_of_pos (by simpa using hc), ih]
        rfl

theorem scanFrom_comment (t : Text) :
    scanFrom .base ('-' :: '-' :: t) =
      (.opener, '-') :: (.inside, '-') :: (inside (t.takeWhile (· ≠ '\n')) ++ scanFrom .base (t.dropWhile (· ≠ '\n'))) := by
  rw [scanFrom_cons, scanFrom_cons, ← scanFrom_line]
  rfl

theorem scanFrom_block_open (n : ℕ) (t : Text) :
    scanFrom (.block n) ('/' :: '*' :: t) = (.inside, '/') :: (.inside, '*') :: scanFrom (.block (n + 1)) t := by
  rw [scanFrom_cons, scanFrom_cons]
  rfl

theorem scanFrom_block_close (n : ℕ) (t : Text) :
    scanFrom (.block (n + 1)) ('*' :: '/' :: t) =
      (.inside, '*') :: (.inside, '/') :: scanFrom (if n = 0 then .base else .block n) t := by
  rw [scanFrom_cons, scanFrom_cons]
  match n with
  | 0 => rfl
  | n + 1 => rfl

theorem scanFrom_block_other {c d : Char} (hopen : ¬ (c = '/' ∧ d = '*')) (hclose : ¬ (c = '*' ∧ d = '/')) (n : ℕ)
    (t : Text) : scanFrom (.block n) (c :: d :: t) = (.inside, c) :: scanFrom (.block n) (d :: t) := by
  rw [scanFrom_cons]
  -- what is remembered of `c` does not matter to `d`
  by_cases hslash : c = '/'
  · have hd : d ≠ '*' := fun hd => hopen ⟨hslash, hd⟩
    have hstep : scanStep (.block n) c = (.blockSlash n, [(.inside, c)]) := by simp only [scanStep, if_pos hslash]
    have hnext : scanStep (.blockSlash n) d = scanStep (.block n) d := by simp only [scanStep, if_neg hd]
    rw [hstep, scanFrom_congr hnext]
    rfl
  · by_cases hstar : c = '*'
    · have hd : d ≠ '/' := fun hd => hclose ⟨hstar, hd⟩
      have hstep : scanStep (.block n) c = (.blockStar n, [(.inside, c)]) := by
        simp only [scanStep, if_neg hslash, if_pos hstar]
      have hnext : scanStep (.blockStar n) d = scanStep (.block n) d := by simp only [scanStep, if_neg hd]
      rw [hstep, scanFrom_congr hnext]
      rfl
    · have hstep : scanStep (.block n) c = (.block n, [(.inside, c)]) := by
        simp only [scanStep, if_neg hslash, if_neg hstar]
      rw [hstep]
      rfl

theorem scanFrom_inBlock (n : ℕ) (t : Text) (hn : n ≠ 0) :
    scanFrom (.block n) t = inside (Postgres.block n t).1 ++ scanFrom .base (Postgres.block n t).2 := by
  fun_induction Postgres.block n t with
  | case1 t => exact absurd rfl hn
  | case2 n => rfl
  | case3 n c =>
      simp only [scanFrom_cons, scanStep]
      repeat' split
      all_goals rfl
  | case4 n c d t hopen ih =>
      obtain ⟨rfl, rfl⟩ := hopen
      rw [scanFrom_block_open, ih (by omega)]
      rfl
  | case5 n c d t hopen hclose ih =>
      obtain ⟨rfl, rfl⟩ := hclose
      rw [scanFrom_block_close]
      by_cases hzero : n = 0
      · subst hzero
        simp [Postgres.block]
      · rw [if_neg hzero, ih hzero]
        rfl
  | case6 n c d t hopen hclose ih =>
      rw [scanFrom_block_other hopen hclose, ih hn]
      rfl

theorem scanFrom_block (t : Text) :
    scanFrom .base ('/' :: '*' :: t) =
      (.opener, '/') :: (.inside, '*') :: (inside (Postgres.block 1 t).1 ++ scanFrom .base (Postgres.block 1 t).2) := by
  rw [scanFrom_cons, scanFrom_cons, ← scanFrom_inBlock 1 t Nat.one_ne_zero]
  rfl

/-! ## Quotes -/

/-- What the walk takes for a literal, behind its opening quote: a backslash is an escape in all of them. -/
def literal (q : Char) : Text → Text × Text
  | [] => ([], [])
  | [c] => ([c], [])
  | c :: d :: t =>
      if c = '\\' then (c :: d :: (literal q t).1, (literal q t).2)
      else if c = q then
        if d = q then (c :: d :: (literal q t).1, (literal q t).2) else ([c], d :: t)
      else (c :: (literal q (d :: t)).1, (literal q (d :: t)).2)

theorem scanFrom_inQuote (q : Char) (t : Text) :
    scanFrom (.quote q) t = inside (literal q t).1 ++ scanFrom .base (literal q t).2 := by
  fun_induction literal q t with
  | case1 => rfl
  | case2 c =>
      simp only [scanFrom_cons, scanStep]
      repeat' split
      all_goals rfl
  | case3 d t ih =>
      rw [scanFrom_cons, scanFrom_cons]
      simp only [scanStep, if_true]
      rw [ih]
      rfl
  | case4 t hslash ih =>
      rw [scanFrom_cons, scanFrom_cons]
      simp only [scanStep, if_neg hslash, if_true]
      rw [ih]
      rfl
  | case5 d t hd hslash =>
      have hstep : scanStep (.quoteEnd q) d = scanStep .base d := by simp only [scanStep, if_neg hd]
      rw [scanFrom_cons]
      simp only [scanStep, if_neg hslash, if_true]
      rw [scanFrom_congr hstep]
      rfl
  | case6 c d t hslash hc ih =>
      rw [scanFrom_cons]
      simp only [scanStep, if_neg hslash, if_neg hc]
      rw [ih]
      rfl

theorem scanFrom_quote {q : Char} (hq : q = '\'' ∨ q = '"') (t : Text) :
    scanFrom .base (q :: t) = (.opener, q) :: (inside (literal q t).1 ++ scanFrom .base (literal q t).2) := by
  rw [scanFrom_cons, ← scanFrom_inQuote]
  simp only [scanStep, scanBase, if_pos hq]
  rfl

/-! ## Dollars -/

/-- What `dollar_tag_len` takes for a character of a tag. -/
def isTagChar (c : Char) : Bool := isAsciiAlphanumeric c || c == '_'

theorem isPlain_of_isTagChar {c : Char} (h : isTagChar c = true) : isPlain c = true := by
  simp only [isPlain, Bool.and_eq_true, decide_eq_true_eq]
  refine ⟨⟨⟨⟨?_, ?_⟩, ?_⟩, ?_⟩, ?_⟩
  all_goals
    rintro rfl
    exact absurd h (by decide)

theorem scanFrom_run {run : Text} (h : ∀ c ∈ run, isTagChar c = true) (acc t : Text) :
    scanFrom (.dollar acc) (run ++ t) = scanFrom (.dollar (run.reverse ++ acc)) t := by
  induction run generalizing acc with
  | nil => rfl
  | cons c run ih =>
      obtain ⟨hc, hrun⟩ := List.forall_mem_cons.mp h
      have hstep : scanStep (.dollar acc) c = (.dollar (c :: acc), []) := by
        simp only [scanStep]
        rw [if_pos (by simpa [isTagChar] using hc)]
      rw [List.cons_append, scanFrom_cons, hstep, ih hrun]
      simp

/-- A dollar that no tag starts with. -/
theorem scanFrom_dollar {t : Text} (h : (t.dropWhile isTagChar).head? ≠ some '$') :
    scanFrom .base ('$' :: t) = (.code, '$') :: scanFrom .base t := by
  have hrun : ∀ c ∈ t.takeWhile isTagChar, isTagChar c = true := fun c hc => List.mem_takeWhile_imp hc
  have hplain : ∀ c ∈ t.takeWhile isTagChar, isPlain c = true := fun c hc => isPlain_of_isTagChar (hrun c hc)
  have hsplit : t = t.takeWhile isTagChar ++ t.dropWhile isTagChar := List.takeWhile_append_dropWhile.symm
  have hfirst : scanFrom .base ('$' :: t) = scanFrom (.dollar []) t := scanFrom_cons ..
  rw [hfirst, hsplit, scanFrom_run hrun, scanFrom_plains hplain, List.append_nil]
  -- the run ends with the text, or with a character that is neither of a tag nor a dollar
  match hrest : t.dropWhile isTagChar with
  | [] => simp [scanFrom_nil, scanFinish, code]
  | c :: rest =>
      have hne : c ≠ '$' := fun heq => h (by rw [hrest, heq]; rfl)
      have hend : ¬ (isAsciiAlphanumeric c ∨ c = '_') := by
        have hnot := List.head_dropWhile_not isTagChar (l := t) (by rw [hrest]; simp)
        simpa [hrest, isTagChar] using hnot
      have hstep : scanStep (.dollar (t.takeWhile isTagChar).reverse) c = scanAfter ('$' :: t.takeWhile isTagChar) c := by
        simp only [scanStep, if_neg hend, if_neg hne, List.reverse_reverse]
      rw [scanFrom_held hstep]
      rfl

/-- The walk inside `$tag$`: the tag and what was read since, in the order of the text. -/
theorem scanFrom_body_cons {tag seen : Text} {c : Char} (h : ¬ tag <:+ seen ++ [c]) (t : Text) :
    scanFrom (.body tag.reverse seen.reverse) (c :: t) =
      (.inside, c) :: scanFrom (.body tag.reverse (seen ++ [c]).reverse) t := by
  have hpre : ¬ tag.reverse.isPrefixOf (c :: seen.reverse) = true := by
    rw [List.isPrefixOf_iff_prefix, ← List.reverse_suffix]
    simpa using h
  have hstep : scanStep (.body tag.reverse seen.reverse) c = (.body tag.reverse (c :: seen.reverse), [(.inside, c)]) := by
    simp only [scanStep, if_neg hpre]
  rw [scanFrom_cons, hstep, List.reverse_append]
  rfl

theorem scanFrom_body_end {tag seen : Text} {c : Char} (h : tag <:+ seen ++ [c]) (t : Text) :
    scanFrom (.body tag.reverse seen.reverse) (c :: t) = (.inside, c) :: scanFrom .base t := by
  have hpre : tag.reverse.isPrefixOf (c :: seen.reverse) = true := by
    rw [List.isPrefixOf_iff_prefix, ← List.reverse_suffix]
    simpa using h
  have hstep : scanStep (.body tag.reverse seen.reverse) c = (.base, [(.inside, c)]) := by
    simp only [scanStep, if_pos hpre]
  rw [scanFrom_cons, hstep]
  rfl

/-- No tag that starts in `seen` is completed by `t`. -/
def Unstarted (tag seen t : Text) : Prop := ∀ b, b ≠ [] → b <:+ seen → ¬ tag <+: b ++ t

theorem Unstarted.step {tag seen t : Text} {c : Char} (h : Unstarted tag seen (c :: t)) (hhere : ¬ tag <+: c :: t) :
    Unstarted tag (seen ++ [c]) t := by
  intro b hb hsuffix hpre
  obtain hnil | ⟨b', rfl, hb'⟩ := List.suffix_concat_iff.mp hsuffix
  · exact hb hnil
  · rw [List.append_assoc, List.singleton_append] at hpre
    by_cases hnil : b' = []
    · subst hnil
      exact hhere hpre
    · exact h b' hnil hb' hpre

/-- A tag that ends too early started in `seen`. -/
theorem Unstarted.not_ended {tag seen x t : Text} (h : Unstarted tag seen (x ++ t)) (hlen : x.length < tag.length) :
    ¬ tag <:+ seen ++ x := by
  intro hsuffix
  obtain ⟨b, rfl⟩ := List.suffix_of_suffix_length_le (List.suffix_append seen x) hsuffix hlen.le
  have hb : b <:+ seen := List.suffix_append_self_iff.mp hsuffix
  have hne : b ≠ [] := by
    rintro rfl
    exact absurd hlen (by simp)
  exact h b hne hb ⟨t, List.append_assoc b x t⟩

/-- The rest `y` of a tag, of which `x` was read. -/
theorem scanFrom_tag {tag seen t : Text} (h : Unstarted tag seen (tag ++ t)) (x y : Text) (hxy : tag = x ++ y)
    (hy : y ≠ []) : scanFrom (.body tag.reverse (seen ++ x).reverse) (y ++ t) = inside y ++ scanFrom .base t := by
  induction y generalizing x with
  | nil => exact absurd rfl hy
  | cons c y ih =>
      have hxc : tag = (x ++ [c]) ++ y := by rw [hxy, List.append_assoc, List.singleton_append]
      match y with
      | [] =>
          have hend : tag <:+ (seen ++ x) ++ [c] := by
            rw [hxy, List.append_assoc]
            exact List.suffix_append seen (x ++ [c])
          rw [List.singleton_append, scanFrom_body_end hend]
          rfl
      | d :: y =>
          have hgo : ¬ tag <:+ (seen ++ x) ++ [c] := by
            rw [List.append_assoc]
            refine Unstarted.not_ended (t := d :: y ++ t) (by rwa [← List.append_assoc, ← hxc]) ?_
            have hlength := congrArg List.length hxc
            simp only [List.length_append, List.length_cons] at hlength ⊢
            omega
          rw [List.cons_append, scanFrom_body_cons hgo, List.append_assoc, ih (x ++ [c]) hxc (by simp)]
          rfl

theorem scanFrom_inBody {tag : Text} (htag : 1 < tag.length) (seen t : Text) (h : Unstarted tag seen t) :
    scanFrom (.body tag.reverse seen.reverse) t =
      inside (Postgres.throughTag tag t).1 ++ scanFrom .base (Postgres.throughTag tag t).2 := by
  induction t generalizing seen with
  | nil => rfl
  | cons c t ih =>
      unfold Postgres.throughTag
      by_cases hpre : tag <+: c :: t
      · obtain ⟨rest, hrest⟩ := hpre
        have htagne : tag ≠ [] := List.ne_nil_of_length_pos (by omega)
        have hread : scanFrom (.body tag.reverse (seen ++ []).reverse) (tag ++ rest) = inside tag ++ scanFrom .base rest :=
          scanFrom_tag (hrest ▸ h) [] tag rfl htagne
        rw [List.append_nil] at hread
        rw [if_pos (List.isPrefixOf_iff_prefix.mpr ⟨rest, hrest⟩), ← hrest, List.drop_left, hread]
      · have hgo : ¬ tag <:+ seen ++ [c] := Unstarted.not_ended (t := t) h htag
        rw [if_neg (fun hp => hpre (List.isPrefixOf_iff_prefix.mp hp)), scanFrom_body_cons hgo,
          ih (seen ++ [c]) (h.step hpre)]
        rfl

/-- A dollar quote. -/
theorem scanFrom_tagged {name : Text} (hname : ∀ c ∈ name, isTagChar c = true) (body : Text) :
    scanFrom .base ('$' :: (name ++ '$' :: body)) =
      (.opener, '$') :: (inside (name ++ ['$']) ++
        (inside (Postgres.throughTag ('$' :: (name ++ ['$'])) body).1 ++
          scanFrom .base (Postgres.throughTag ('$' :: (name ++ ['$'])) body).2)) := by
  have hfirst : scanFrom .base ('$' :: (name ++ '$' :: body)) = scanFrom (.dollar []) (name ++ '$' :: body) :=
    scanFrom_cons ..
  have hstep : scanStep (.dollar name.reverse) '$' =
      (.body ('$' :: (name ++ ['$'])).reverse [], (.opener, '$') :: inside (name ++ ['$'])) := by
    simp [scanStep, inside, isAsciiAlphanumeric, isAsciiAlphabetic, isAsciiDigit]
  rw [hfirst, scanFrom_run hname, List.append_nil, scanFrom_cons, hstep,
    ← scanFrom_inBody (by simp) [] body (fun b hb hsuffix => absurd (List.suffix_nil.mp hsuffix) hb)]
  rfl

end Havuz.Sql
