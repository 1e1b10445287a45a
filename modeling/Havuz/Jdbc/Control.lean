import Havuz.Jdbc.Session
import Havuz.Postgres.Statement

/-!
# When a text is transaction control

Reference: `TransactionControl::of` of `havuz-jdbc/src/session.rs`.

A text that is taken for transaction control is performed and never sent, so it has to be that and nothing else. The
code looks at two words, cut at white space and semicolons. `control` is what the grammar of PostgreSQL says of the
tokens; `of_eq_control_iff` is where the two agree.
-/

namespace Havuz.Jdbc.TransactionControl

open Postgres (Token Reads lex raws significant)

/-! ## What the grammar says -/

/-- A token as the grammar sees it: a keyword, a comma, or something no clause of these has. -/
def spelling (t : Token) : Text :=
  if t.kind = .word then t.keyword else if t.kind = .symbol ∧ t.raw = [','] then [','] else []

/-- The transaction modes. -/
def modeItems : List (List Text) :=
  [["ISOLATION".toList, "LEVEL".toList, "SERIALIZABLE".toList],
    ["ISOLATION".toList, "LEVEL".toList, "REPEATABLE".toList, "READ".toList],
    ["ISOLATION".toList, "LEVEL".toList, "READ".toList, "COMMITTED".toList],
    ["ISOLATION".toList, "LEVEL".toList, "READ".toList, "UNCOMMITTED".toList],
    ["READ".toList, "ONLY".toList], ["READ".toList, "WRITE".toList],
    ["DEFERRABLE".toList], ["NOT".toList, "DEFERRABLE".toList]]

/-- Some modes, with or without commas between them. Each round takes one. -/
def modes : Nat → List Text → Bool
  | 0, ws => ws.isEmpty
  | fuel + 1, ws =>
      ws.isEmpty || modeItems.any fun item =>
        item.isPrefixOf ws &&
          match ws.drop item.length with
          | [] => true
          | w :: rest => if w = [','] then !rest.isEmpty && modes fuel rest else modes fuel (w :: rest)

/-- `WORK` and `TRANSACTION` say nothing. -/
def behindNoise : List Text → List Text
  | [] => []
  | w :: ws => if w = "WORK".toList ∨ w = "TRANSACTION".toList then ws else w :: ws

/-- What ends a transaction and starts no other. -/
def ends (ws : List Text) : Bool :=
  (behindNoise ws).isEmpty || behindNoise ws = ["AND".toList, "NO".toList, "CHAIN".toList]

/-- A whole statement: its keyword and the clauses behind it. -/
def clause (keyword : Text) (ws : List Text) : Option TransactionControl :=
  if keyword = "BEGIN".toList then if modes ws.length (behindNoise ws) then some .begin else none
  else if keyword = "START".toList then
    if ws.head? = some "TRANSACTION".toList ∧ modes ws.length ws.tail then some .begin else none
  else if keyword = "COMMIT".toList ∨ keyword = "END".toList then if ends ws then some .commit else none
  else if keyword = "ROLLBACK".toList ∨ keyword = "ABORT".toList then if ends ws then some .rollback else none
  else none

/-- The text is one statement, with nothing but semicolons and separators around it, and performing the control is its
whole effect. -/
def control (standard : Bool) (sql : Text) : Option TransactionControl :=
  match (significant (lex standard sql)).dropWhile Token.isSemicolon with
  | [] => none
  | t :: rest =>
      if (rest.dropWhile (! ·.isSemicolon)).all Token.isSemicolon then
        clause (spelling t) ((rest.takeWhile (! ·.isSemicolon)).map spelling)
      else none

example : control true "/* a */ start transaction read only; -- done".toList = some .begin := by decide

/-! ## What the code sees -/

/-- What cuts words: white space, or a semicolon. -/
def skipped (t : Token) : Bool := t.kind = .space || t.isSemicolon

/-- The word ends there. -/
def apart (ts : List Token) : Bool := ts.head?.all skipped

/-- Comments and commas keep away from the words that are looked at: none stands in front of the keyword, none touches
it, and, behind the keywords that are not enough, the same of the next word. `END` sees no `AND`. -/
def seen (ts : List Token) : Bool :=
  match ts.dropWhile skipped with
  | [] => false
  | t :: rest =>
      t.kind = .word && apart rest &&
        (["COMMIT".toList, "ROLLBACK".toList, "ABORT".toList].contains t.keyword ||
          match rest.dropWhile skipped with
          | [] => true
          | u :: rest => u.kind = .word && apart rest && !(t.keyword = "END".toList && u.keyword = "AND".toList))

/-- The words a text starts with are those of a transaction control, whatever follows them. -/
def headed : List Text → Bool
  | [] => false
  | first :: rest =>
      if first = "BEGIN".toList then rest.head?.all characteristics.contains
      else if first = "START".toList then rest.head? = some "TRANSACTION".toList
      else if first = "COMMIT".toList then true
      else if first = "END".toList then rest.head?.all fun word => word = "WORK".toList ∨ word = "TRANSACTION".toList
      else first = "ROLLBACK".toList ∨ first = "ABORT".toList

theorem isSome_ite {α : Type} {p : Prop} [Decidable p] {a : α} : (if p then some a else none).isSome = decide p := by
  split_ifs with h
  · exact (decide_eq_true h).symm
  · exact (decide_eq_false h).symm

theorem isSome_of (sql : Text) : (of sql).isSome = headed (words sql) := by
  unfold of headed
  cases words sql with
  | nil => rfl
  | cons first rest =>
      dsimp only
      split
      · rw [isSome_ite, Bool.decide_eq_true]
      · split
        · exact isSome_ite
        · split
          · rfl
          · split
            · rw [isSome_ite, Bool.decide_eq_true]
            · exact isSome_ite

/-! ## Words -/

/-- What ends a word. -/
def cuts (c : Char) : Bool := isWhitespace c || c == ';'

/-- The words of a text that may start with white space. -/
def wordsOf (t : Text) : List Text := ((t.splitOnP cuts).filter fun word => !word.isEmpty).map Text.toAsciiUppercase

theorem wordsOf_cut {c : Char} (hc : cuts c = true) (t : Text) : wordsOf (c :: t) = wordsOf t := by
  rw [wordsOf, List.splitOnP_cons_eq_if_modifyHead, if_pos hc]
  rfl

theorem wordsOf_nil : wordsOf [] = [] := rfl

theorem words_eq (sql : Text) : words sql = wordsOf sql := by
  induction sql with
  | nil => rfl
  | cons c t ih =>
      by_cases hc : isWhitespace c = true
      · rw [wordsOf_cut (by rw [cuts, hc]; rfl), ← ih, words, words, Text.trimStart_of_isWhitespace hc]
      · rw [words, Text.trimStart_of_not (Bool.eq_false_iff.mpr hc)]
        rfl

/-- A word goes on to what cuts it. -/
theorem wordsOf_word {w : Text} (hne : w ≠ []) (hw : ∀ c ∈ w, cuts c = false) (t : Text) :
    wordsOf (w ++ t) =
      Text.toAsciiUppercase (w ++ t.takeWhile (! cuts ·)) :: wordsOf (t.dropWhile (! cuts ·)) := by
  have hwhole : ∀ c ∈ w ++ t.takeWhile (! cuts ·), cuts c = false := by
    intro c hc
    rcases List.mem_append.mp hc with hc | hc
    · exact hw c hc
    · simpa using List.mem_takeWhile_imp hc
  have hsplit : w ++ t = (w ++ t.takeWhile (! cuts ·)) ++ t.dropWhile (! cuts ·) := by
    rw [List.append_assoc, List.takeWhile_append_dropWhile]
  rw [hsplit]
  generalize hword : w ++ t.takeWhile (! cuts ·) = word at hwhole
  have hnonempty : (!word.isEmpty) = true := by
    rw [← hword]
    cases w with
    | nil => exact absurd rfl hne
    | cons c w => rfl
  match hrest : t.dropWhile (! cuts ·) with
  | [] =>
      rw [List.append_nil, wordsOf, List.splitOnP_eq_singleton hwhole, List.filter_cons_of_pos (p := fun word : Text => !word.isEmpty) hnonempty]
      rfl
  | c :: rest =>
      have hcut : cuts c = true := by
        have hhead := List.head?_dropWhile_not (! cuts ·) t
        rw [hrest] at hhead
        simpa using hhead
      rw [wordsOf_cut hcut, wordsOf, List.splitOnP_append_cons_of_forall_mem hwhole c hcut,
        List.filter_cons_of_pos (p := fun word : Text => !word.isEmpty) hnonempty]
      rfl

/-! ## Words and tokens -/

variable {standard : Bool} {sql : Text}

/-- A word with a character that no keyword has. -/
def Marked (w : Text) : Prop := ∃ c ∈ w, ¬ ('A' ≤ c ∧ c ≤ 'Z')

theorem ne_of_marked {w k : Text} (hw : Marked w) (hk : ∀ c ∈ k, 'A' ≤ c ∧ c ≤ 'Z') : w ≠ k := by
  rintro rfl
  obtain ⟨c, hc, hletter⟩ := hw
  exact hletter (hk c hc)

/-- What is no letter is none in capitals either. -/
theorem marked_upper {c : Char} (hc : Postgres.isIdentCont c = false) {w : Text} (h : c ∈ w) : Marked (Text.toAsciiUppercase w) := by
  refine ⟨c.toUpper, List.mem_map_of_mem h, fun hletter => ?_⟩
  have halpha := Text.isAsciiAlphabetic_of_toUpper hletter
  simp [Postgres.isIdentCont, Postgres.isTagCont, Postgres.isIdentStart, halpha] at hc

/-- What is skipped cuts words. -/
theorem wordsOf_skip {ts : List Token} (hspaced : ∀ t ∈ ts, t.Spaced) (hts : ∀ t ∈ ts, skipped t = true) (t : Text) :
    wordsOf (raws ts ++ t) = wordsOf t := by
  induction ts with
  | nil => rfl
  | cons u ts ih =>
      rw [Postgres.raws_cons, List.append_assoc]
      have hrest := ih (fun v hv => hspaced v (List.mem_cons_of_mem u hv)) fun v hv => hts v (List.mem_cons_of_mem u hv)
      have hu := hts u List.mem_cons_self
      rw [skipped, Bool.or_eq_true, decide_eq_true_eq] at hu
      obtain hspace | hsemi := hu
      · obtain ⟨c, hraw, hc⟩ := hspaced u List.mem_cons_self hspace
        rw [hraw]
        exact (wordsOf_cut (by rw [cuts, Postgres.isWhitespace_of_isSpace hc]; rfl) _).trans hrest
      · rw [Token.isSemicolon, Bool.and_eq_true, decide_eq_true_eq, decide_eq_true_eq] at hsemi
        rw [hsemi.2]
        exact (wordsOf_cut (by decide) _).trans hrest

/-- The words of some tokens: none, those of a word that ends there, or one that no keyword is. -/
inductive Words (ts : List Token) : List Text → Prop
  | none (h : ts.dropWhile skipped = []) : Words ts []
  | word {u rest} (h : ts.dropWhile skipped = u :: rest) (hu : u.kind = .word) (hapart : apart rest = true) :
      Words ts (Text.toAsciiUppercase u.raw :: wordsOf (raws rest))
  | marked {u rest w ws} (h : ts.dropWhile skipped = u :: rest) (hu : u.kind = .word → apart rest = false) (hw : Marked w) :
      Words ts (w :: ws)

/-- The first character of a token that is not skipped cuts no word, unless it goes on with the word in front. -/
theorem not_cuts {u : Token} (hu : skipped u = false) (hstarts : u.Starts) {c : Char} (hc : c ∈ u.raw.head?)
    (hcont : Postgres.isIdentCont c = false) : cuts c = false := by
  rw [skipped, Bool.or_eq_false_iff, decide_eq_false_iff_not] at hu
  rw [cuts, Bool.or_eq_false_iff]
  refine ⟨Bool.eq_false_iff.mpr fun hwhite => ?_, beq_eq_false_iff_ne.mpr ?_⟩
  · have hspace : Postgres.isSpace c = false := Bool.eq_false_iff.mpr fun h => hu.1 (hstarts.space c hc h)
    rw [Postgres.isIdentCont_of_isIdentStart (Postgres.isIdentStart_of_isWhitespace hwhite hspace)] at hcont
    cases hcont
  · rintro rfl
    rw [hstarts.semicolon hc] at hu
    exact absurd hu.2 Bool.noConfusion

/-- A word that is read as a keyword has nothing that cuts it. -/
theorem uncut_of_keyword {u : Token} {k : Text} (h : Text.toAsciiUppercase u.raw = k) (hk : ∀ c ∈ k, 'A' ≤ c ∧ c ≤ 'Z') :
    ∀ c ∈ u.raw, cuts c = false := by
  intro c hc
  have hletter := Text.isAsciiAlphabetic_of_toUpper (hk c.toUpper (by rw [← h]; exact List.mem_map_of_mem hc))
  rw [cuts, Bool.or_eq_false_iff]
  refine ⟨Bool.eq_false_iff.mpr fun hwhite => ?_, beq_eq_false_iff_ne.mpr ?_⟩
  · simp only [isAsciiAlphabetic, Bool.or_eq_true, Bool.and_eq_true, decide_eq_true_eq] at hletter
    have hnat : 65 ≤ c.toNat ∧ c.toNat ≤ 122 := by
      rcases hletter with ⟨hlow, hhigh⟩ | ⟨hlow, hhigh⟩
      · exact ⟨Nat.le_trans (by decide) (show 97 ≤ c.toNat from hlow), hhigh⟩
      · exact ⟨hlow, Nat.le_trans (show c.toNat ≤ 90 from hhigh) (by decide)⟩
    rw [isWhitespace_of_letter (by omega)] at hwhite
    cases hwhite
  · rintro rfl
    revert hletter
    decide

/-- The text of a token that is skipped starts with what cuts words. -/
theorem cuts_of_skipped {u : Token} (hu : skipped u = true) (hspaced : u.Spaced) : ∀ c ∈ u.raw.head?, cuts c = true := by
  intro c hc
  rw [skipped, Bool.or_eq_true, decide_eq_true_eq] at hu
  obtain hspace | hsemi := hu
  · obtain ⟨d, hraw, hd⟩ := hspaced hspace
    rw [hraw] at hc
    obtain rfl : d = c := Option.some.inj hc
    rw [cuts, Postgres.isWhitespace_of_isSpace hd]
    rfl
  · rw [Token.isSemicolon, Bool.and_eq_true, decide_eq_true_eq, decide_eq_true_eq] at hsemi
    rw [hsemi.2] at hc
    obtain rfl : ';' = c := Option.some.inj hc
    decide

theorem takeWhile_nil_of_head {t : Text} (h : ∀ c ∈ t.head?, cuts c = true) :
    t.takeWhile (! cuts ·) = [] ∧ t.dropWhile (! cuts ·) = t := by
  match t with
  | [] => exact ⟨rfl, rfl⟩
  | c :: t =>
      have hc : ¬ (! cuts c) = true := by rw [h c rfl]; exact Bool.false_ne_true
      exact ⟨List.takeWhile_cons_of_neg hc, List.dropWhile_cons_of_neg hc⟩

/-- The words of some tokens of a text, if the first that is not skipped is a comment or a keyword. -/
theorem words_behind {pre ts : List Token} (hlex : lex standard sql = pre ++ ts)
    (hfirst : ∀ u rest, ts.dropWhile skipped = u :: rest →
      u.kind = .comment ∨ u.kind = .word ∧ ∀ c ∈ Text.toAsciiUppercase u.raw, 'A' ≤ c ∧ c ≤ 'Z') :
    Words ts (wordsOf (raws ts)) := by
  have hmem : ∀ t ∈ ts, t ∈ lex standard sql := fun t ht => by rw [hlex]; exact List.mem_append_right pre ht
  have hsplit := List.takeWhile_append_dropWhile (p := skipped) (l := ts)
  have hskip : wordsOf (raws ts) = wordsOf (raws (ts.dropWhile skipped)) := by
    conv_lhs => rw [← hsplit]
    rw [Postgres.raws_append]
    refine wordsOf_skip (fun t ht => ?_) (fun t ht => List.mem_takeWhile_imp ht) _
    exact Postgres.spaced_of_mem_lex t (hmem t ((List.takeWhile_prefix _).mem ht))
  rw [hskip]
  match hdrop : ts.dropWhile skipped with
  | [] => exact .none hdrop
  | u :: rest =>
      have hu : skipped u = false := by
        have hhead := List.head?_dropWhile_not skipped ts
        rw [hdrop] at hhead
        simpa using hhead
      have hsuffix : u :: rest <:+ ts := hdrop ▸ List.dropWhile_suffix skipped
      have hstarts := Postgres.starts_of_mem_lex u (hmem u (hsuffix.mem List.mem_cons_self))
      rw [Postgres.raws_cons]
      obtain hcomment | ⟨hword, hletters⟩ := hfirst u rest hdrop
      · -- a comment is no word of the grammar
        match hraw : u.raw with
        | [] => exact absurd hraw hstarts.head
        | c :: raw =>
            have hhead : c ∈ u.raw.head? := by rw [hraw]; rfl
            have hmark : Postgres.isIdentCont c = false := by
              have hdash := hstarts.comment hcomment
              rw [hraw] at hdash
              obtain hdash | hdash := hdash <;> obtain rfl := Option.some.inj hdash <;> decide
            rw [List.cons_append, ← List.singleton_append,
              wordsOf_word (List.cons_ne_nil c []) (by simpa using not_cuts hu hstarts hhead hmark)]
            exact .marked hdrop (fun hword => by rw [hcomment] at hword; cases hword)
              (marked_upper hmark (List.mem_append_left _ List.mem_cons_self))
      · rw [wordsOf_word hstarts.head (uncut_of_keyword rfl hletters)]
        by_cases hapart : apart rest = true
        · have hcut : ∀ c ∈ (raws rest).head?, cuts c = true := by
            match rest with
            | [] => exact nofun
            | v :: rest =>
                have hv : v ∈ lex standard sql := hmem v (hsuffix.mem (List.mem_cons_of_mem u List.mem_cons_self))
                intro c hc
                rw [Postgres.raws_cons, List.head?_append_of_ne_nil _ (Postgres.starts_of_mem_lex v hv).head] at hc
                exact cuts_of_skipped hapart (Postgres.spaced_of_mem_lex v hv) c hc
          obtain ⟨htake, hrest⟩ := takeWhile_nil_of_head hcut
          rw [htake, hrest, List.append_nil]
          exact .word hdrop hword hapart
        · match rest with
          | [] => exact absurd rfl hapart
          | v :: rest =>
              have hv : v ∈ lex standard sql := hmem v (hsuffix.mem (List.mem_cons_of_mem u List.mem_cons_self))
              obtain ⟨front, hfront⟩ := hsuffix
              rw [← hfront, ← List.append_assoc] at hlex
              have hends := Postgres.word_ends hlex hword
              have hvstarts := Postgres.starts_of_mem_lex v hv
              match hraw : v.raw with
              | [] => exact absurd hraw hvstarts.head
              | c :: raw =>
                  have hhead : c ∈ v.raw.head? := by rw [hraw]; rfl
                  have hcut := not_cuts (Bool.eq_false_iff.mpr hapart) hvstarts hhead (hends c hhead)
                  refine .marked hdrop (fun _ => Bool.eq_false_iff.mpr hapart) (marked_upper (hends c hhead) ?_)
                  refine List.mem_append_right _ ?_
                  rw [Postgres.raws_cons, hraw, List.cons_append, List.takeWhile_cons_of_pos (by rw [hcut]; rfl)]
                  exact List.mem_cons_self

/-! ## Clauses -/

theorem modes_head {n : ℕ} {w : Text} {ws : List Text} (h : modes n (w :: ws) = true) : w ∈ characteristics := by
  cases n with
  | zero => cases h
  | succ n =>
      rw [modes, List.isEmpty_cons, Bool.false_or] at h
      obtain ⟨item, hitem, hmatch⟩ := List.any_eq_true.mp h
      obtain ⟨hstarts, -⟩ := Bool.and_eq_true_iff.mp hmatch
      obtain ⟨rest, hrest⟩ := List.isPrefixOf_iff_prefix.mp hstarts
      have hhead : item.head? = some w := by
        have hne : item ≠ [] := by
          rintro rfl
          revert hitem
          decide
        rw [← List.head?_append_of_ne_nil _ hne, hrest]
        rfl
      have hall : ∀ i ∈ modeItems, ∀ w, i.head? = some w → w ∈ characteristics := by decide
      exact hall item hitem w hhead

/-- The word behind the keyword. -/
theorem behindNoise_head {w : Text} {ws : List Text} (h : w ≠ "WORK".toList ∧ w ≠ "TRANSACTION".toList) :
    behindNoise (w :: ws) = w :: ws := by
  rw [behindNoise, if_neg (not_or.mpr h)]

theorem ends_head {w : Text} {ws : List Text} (h : ends (w :: ws) = true) :
    w ∈ ["WORK".toList, "TRANSACTION".toList, "AND".toList] := by
  by_cases hnoise : w = "WORK".toList ∨ w = "TRANSACTION".toList
  · obtain rfl | rfl := hnoise <;> decide
  · rw [ends, behindNoise_head (not_or.mp hnoise), List.isEmpty_cons, Bool.false_or, decide_eq_true_eq] at h
    rw [(List.cons.inj h).1]
    decide

/-- What a clause makes of its keyword and of the word behind it. -/
theorem clause_cases {k : Text} {ws : List Text} {c : TransactionControl} (h : clause k ws = some c) :
    (k = "BEGIN".toList ∧ c = .begin ∧ ∀ w ∈ ws.head?, w ∈ characteristics) ∨
      (k = "START".toList ∧ c = .begin ∧ ws.head? = some "TRANSACTION".toList) ∨
      ((k = "COMMIT".toList ∨ k = "END".toList) ∧ c = .commit ∧
        ∀ w ∈ ws.head?, w ∈ ["WORK".toList, "TRANSACTION".toList, "AND".toList]) ∨
      ((k = "ROLLBACK".toList ∨ k = "ABORT".toList) ∧ c = .rollback ∧
        ∀ w ∈ ws.head?, w ∈ ["WORK".toList, "TRANSACTION".toList, "AND".toList]) := by
  have hends : ends ws = true → ∀ w ∈ ws.head?, w ∈ ["WORK".toList, "TRANSACTION".toList, "AND".toList] := by
    intro hends w hw
    match ws with
    | w' :: ws =>
        obtain rfl := Option.some.inj hw
        exact ends_head hends
  unfold clause at h
  split_ifs at h with hbegin hmodes hstart hmodes hcommit hmodes hrollback hmodes
  · cases h
    refine .inl ⟨hbegin, rfl, fun w hw => ?_⟩
    match ws with
    | w' :: ws =>
        obtain rfl := Option.some.inj hw
        by_cases hnoise : w' = "WORK".toList ∨ w' = "TRANSACTION".toList
        · obtain rfl | rfl := hnoise <;> decide
        · rw [behindNoise_head (not_or.mp hnoise)] at hmodes
          exact modes_head hmodes
  · cases h
    exact .inr (.inl ⟨hstart, rfl, hmodes.1⟩)
  · cases h
    exact .inr (.inr (.inl ⟨hcommit, rfl, hends hmodes⟩))
  · cases h
    exact .inr (.inr (.inr ⟨hrollback, rfl, hends hmodes⟩))

theorem keyword_of_spelling {t : Token} {k : Text} (h : spelling t = k) (hk : k ≠ [] ∧ k ≠ [',']) :
    t.kind = .word ∧ Text.toAsciiUppercase t.raw = k := by
  unfold spelling at h
  split_ifs at h with hword hcomma
  · exact ⟨hword, Postgres.upper_of_keyword h hk.1⟩
  · exact absurd h.symm hk.2
  · exact absurd h.symm hk.1

/-! ## Tokens of a control -/

/-- Of what is skipped only semicolons are significant. -/
theorem significant_skipped (ts : List Token) (h : ∀ t ∈ ts, skipped t = true) :
    ∀ t ∈ significant ts, t.isSemicolon = true := by
  intro t ht
  obtain ⟨hmem, hsep⟩ := List.mem_filter.mp ht
  have hskip := h t hmem
  rw [skipped, Bool.or_eq_true, decide_eq_true_eq] at hskip
  refine hskip.resolve_left fun hspace => ?_
  rw [Token.isSeparator, hspace] at hsep
  cases hsep

theorem significant_split (ts : List Token) :
    significant ts = significant (ts.takeWhile skipped) ++ significant (ts.dropWhile skipped) := by
  rw [significant, significant, significant, ← List.filter_append, List.takeWhile_append_dropWhile]

/-- A token that is neither skipped nor a comment counts, and is no semicolon. -/
theorem significant_cons {u : Token} (hu : skipped u = false) (hcomment : u.kind ≠ .comment) (rest : List Token) :
    significant (u :: rest) = u :: significant rest ∧ u.isSemicolon = false := by
  rw [skipped, Bool.or_eq_false_iff, decide_eq_false_iff_not] at hu
  refine ⟨List.filter_cons_of_pos ?_, hu.2⟩
  simp [Token.isSeparator, hu.1, hcomment]

theorem not_skipped_of_dropWhile {ts rest : List Token} {u : Token} (h : ts.dropWhile skipped = u :: rest) :
    skipped u = false := by
  have hhead := List.head?_dropWhile_not skipped ts
  rw [h] at hhead
  simpa using hhead

/-- The first token of a control, and the clause it is with what stands behind it. -/
theorem control_tokens {c : TransactionControl} (h : control standard sql = some c) :
    ∃ u rest, (lex standard sql).dropWhile skipped = u :: rest ∧ (u.kind ≠ .comment →
      ((significant rest).dropWhile (! ·.isSemicolon)).all Token.isSemicolon = true ∧
        clause (spelling u) (((significant rest).takeWhile (! ·.isSemicolon)).map spelling) = some c) := by
  have hsemis := significant_skipped ((lex standard sql).takeWhile skipped) fun t ht => List.mem_takeWhile_imp ht
  rw [control, significant_split, List.dropWhile_append_of_pos hsemis] at h
  match hdrop : (lex standard sql).dropWhile skipped with
  | [] =>
      rw [hdrop] at h
      cases h
  | u :: rest =>
      refine ⟨u, rest, rfl, fun hcomment => ?_⟩
      obtain ⟨hcons, hsemi⟩ := significant_cons (not_skipped_of_dropWhile hdrop) hcomment rest
      rw [hdrop, hcons, List.dropWhile_cons_of_neg (by rw [hsemi]; exact Bool.false_ne_true)] at h
      dsimp only at h
      split_ifs at h with htail
      exact ⟨htail, h⟩

/-- What stands behind the keyword: nothing but semicolons and separators, or the clause goes on there. -/
theorem body_tokens {rest : List Token}
    (htail : ((significant rest).dropWhile (! ·.isSemicolon)).all Token.isSemicolon = true) {u : Token}
    {rest' : List Token} (hdrop : rest.dropWhile skipped = u :: rest') (hcomment : u.kind ≠ .comment) :
    (((significant rest).takeWhile (! ·.isSemicolon)).map spelling).head? = some (spelling u) := by
  have hsemis := significant_skipped (rest.takeWhile skipped) fun t ht => List.mem_takeWhile_imp ht
  obtain ⟨hcons, hsemi⟩ := significant_cons (not_skipped_of_dropWhile hdrop) hcomment rest'
  rw [significant_split, hdrop, hcons] at htail ⊢
  match hfront : significant (rest.takeWhile skipped) with
  | [] =>
      rw [List.nil_append, List.takeWhile_cons_of_pos (by rw [hsemi]; rfl)]
      rfl
  | v :: front =>
      -- a semicolon in between would be the end of the statement
      rw [hfront] at htail hsemis
      have hv := hsemis v List.mem_cons_self
      rw [List.cons_append, List.dropWhile_cons_of_neg (by rw [hv]; decide)] at htail
      have hu := List.all_eq_true.mp htail u (List.mem_cons_of_mem v (List.mem_append_right front List.mem_cons_self))
      rw [hsemi] at hu
      cases hu

theorem body_nil {rest : List Token} (hdrop : rest.dropWhile skipped = []) :
    ((significant rest).takeWhile (! ·.isSemicolon)).map spelling = [] := by
  have hall : ∀ t ∈ rest, skipped t = true := List.dropWhile_eq_nil_iff.mp hdrop
  have hsemis := significant_skipped rest hall
  match hsig : significant rest with
  | [] => rfl
  | v :: more =>
      rw [hsig] at hsemis
      rw [List.takeWhile_cons_of_neg (by rw [hsemis v List.mem_cons_self]; decide)]
      rfl

/-! ## Where the two agree -/

/-- The keywords a clause starts with, and the ones that may follow. -/
def clauseWords : List Text :=
  ["BEGIN".toList, "START".toList, "COMMIT".toList, "END".toList, "ROLLBACK".toList, "ABORT".toList, "AND".toList] ++
    characteristics

theorem letters_of_clauseWords : ∀ k ∈ clauseWords, k ≠ [] ∧ k ≠ [','] ∧ ∀ c ∈ k, 'A' ≤ c ∧ c ≤ 'Z' := by
  have hall : ∀ k ∈ clauseWords, k ≠ [','] ∧ Text.Letters k := by decide
  exact fun k hk => ⟨(hall k hk).2.1, (hall k hk).1, (hall k hk).2.2⟩

theorem word_of_clauseWords {u : Token} (h : spelling u ∈ clauseWords) :
    u.kind = .word ∧ Text.toAsciiUppercase u.raw = spelling u ∧ u.keyword = spelling u ∧
      ∀ c ∈ Text.toAsciiUppercase u.raw, 'A' ≤ c ∧ c ≤ 'Z' := by
  obtain ⟨hne, hcomma, hletters⟩ := letters_of_clauseWords _ h
  obtain ⟨hkind, hupper⟩ := keyword_of_spelling rfl ⟨hne, hcomma⟩
  exact ⟨hkind, hupper, by rw [Token.keyword, if_pos hkind, hupper], by rwa [hupper]⟩

/-- A first word that no keyword is. -/
theorem of_marked {w : Text} {ws : List Text} (hwords : words sql = w :: ws) (hw : Marked w) : of sql = none := by
  have hheaded : headed (w :: ws) = false := by
    have hne : ∀ k ∈ clauseWords, w ≠ k := fun k hk => ne_of_marked hw (letters_of_clauseWords k hk).2.2
    rw [headed, if_neg (hne _ (by decide)), if_neg (hne _ (by decide)), if_neg (hne _ (by decide)),
      if_neg (hne _ (by decide))]
    exact decide_eq_false (not_or.mpr ⟨hne _ (by decide), hne _ (by decide)⟩)
  have hnone := isSome_of sql
  rw [hwords, hheaded] at hnone
  exact Option.not_isSome_iff_eq_none.mp (by rw [hnone]; exact Bool.false_ne_true)

/-- What is seen of the word behind a keyword that is not enough. -/
def seenBehind (keyword : Text) (rest : List Token) : Bool :=
  match rest.dropWhile skipped with
  | [] => true
  | u :: rest => u.kind = .word && apart rest && !(keyword = "END".toList && u.keyword = "AND".toList)

theorem seen_eq {ts rest : List Token} {u : Token} (hdrop : ts.dropWhile skipped = u :: rest) :
    seen ts = (u.kind = .word && apart rest &&
      (["COMMIT".toList, "ROLLBACK".toList, "ABORT".toList].contains u.keyword || seenBehind u.keyword rest)) := by
  rw [seen, hdrop]
  rfl

/-- The word behind the keyword, if it is a clause word, and whether it is seen. -/
theorem second_cases {pre rest : List Token} (hlex : lex standard sql = pre ++ rest)
    (htail : ((significant rest).dropWhile (! ·.isSemicolon)).all Token.isSemicolon = true)
    (hbody : ∀ w ∈ (((significant rest).takeWhile (! ·.isSemicolon)).map spelling).head?, w ∈ clauseWords)
    (keyword : Text) :
    ((((significant rest).takeWhile (! ·.isSemicolon)).map spelling).head? = none ∧ (wordsOf (raws rest)).head? = none ∧
        seenBehind keyword rest = true) ∨
      (∃ w, (((significant rest).takeWhile (! ·.isSemicolon)).map spelling).head? = some w ∧
        (wordsOf (raws rest)).head? = some w ∧
        seenBehind keyword rest = !(keyword = "END".toList && w = "AND".toList)) ∨
      ∃ w, (wordsOf (raws rest)).head? = some w ∧ Marked w ∧ seenBehind keyword rest = false := by
  have hwords := words_behind hlex fun u rest' hdrop => by
    by_cases hcomment : u.kind = .comment
    · exact .inl hcomment
    · have hword := word_of_clauseWords (hbody _ (body_tokens htail hdrop hcomment))
      exact .inr ⟨hword.1, hword.2.2.2⟩
  generalize hlist : wordsOf (raws rest) = ws at hwords
  cases hwords with
  | none hdrop => exact .inl ⟨by rw [body_nil hdrop]; rfl, rfl, by rw [seenBehind, hdrop]⟩
  | @word u rest' hdrop hu hapart =>
      have hcomment : u.kind ≠ .comment := by rw [hu]; nofun
      have hhead := body_tokens htail hdrop hcomment
      obtain ⟨-, hupper, hkeyword, -⟩ := word_of_clauseWords (hbody _ hhead)
      refine .inr (.inl ⟨spelling u, hhead, congrArg some hupper, ?_⟩)
      rw [seenBehind, hdrop]
      dsimp only
      rw [decide_eq_true hu, hapart, hkeyword]
      rfl
  | @marked u rest' w ws hdrop hu hw =>
      refine .inr (.inr ⟨w, rfl, hw, ?_⟩)
      rw [seenBehind, hdrop]
      dsimp only
      by_cases hkind : u.kind = .word
      · rw [hu hkind, Bool.and_false, Bool.false_and]
      · rw [decide_eq_false hkind, Bool.false_and, Bool.false_and]

/-- What the code makes of the first word. -/
theorem of_words {first : Text} {rest : List Text} (h : words sql = first :: rest) :
    of sql =
      if first = "BEGIN".toList then if rest.head?.all characteristics.contains then some .begin else none
      else if first = "START".toList then if rest.head? = some "TRANSACTION".toList then some .begin else none
      else if first = "COMMIT".toList then some .commit
      else if first = "END".toList then
        if rest.head?.all fun word => word = "WORK".toList ∨ word = "TRANSACTION".toList then some .commit else none
      else if first = "ROLLBACK".toList ∨ first = "ABORT".toList then some .rollback
      else none := by
  unfold of
  rw [h]

/-- Of a control the code sees what it looks at, or nothing. -/
theorem of_of_control {c : TransactionControl} (h : control standard sql = some c) :
    of sql = if seen (lex standard sql) then some c else none := by
  obtain ⟨u, rest, hdrop, hclause⟩ := control_tokens h
  have hseen := seen_eq hdrop
  have hsplit := List.takeWhile_append_dropWhile (p := skipped) (l := lex standard sql)
  rw [hdrop, ← List.singleton_append, ← List.append_assoc] at hsplit
  have hstart : u.kind = .comment ∨ u.kind = .word ∧ ∀ c ∈ Text.toAsciiUppercase u.raw, 'A' ≤ c ∧ c ≤ 'Z' := by
    by_cases hcomment : u.kind = .comment
    · exact .inl hcomment
    · obtain ⟨-, hcl⟩ := hclause hcomment
      have hmem : spelling u ∈ clauseWords := by
        obtain ⟨hk, -⟩ | ⟨hk, -⟩ | ⟨hk | hk, -⟩ | ⟨hk | hk, -⟩ := clause_cases hcl <;> rw [hk] <;> decide
      have hword := word_of_clauseWords hmem
      exact .inr ⟨hword.1, hword.2.2.2⟩
  have hwords := words_behind (show lex standard sql = [] ++ lex standard sql from rfl) fun u' rest' hdrop' => by
    rw [hdrop] at hdrop'
    obtain ⟨rfl, -⟩ := List.cons.inj hdrop'
    exact hstart
  rw [Postgres.lex_raw, ← words_eq] at hwords
  generalize hlist : words sql = ws at hwords
  cases hwords with
  | none hnil =>
      rw [hdrop] at hnil
      cases hnil
  | @marked u' rest' w ws hdrop' hu hw =>
      rw [hdrop] at hdrop'
      obtain ⟨rfl, rfl⟩ := List.cons.inj hdrop'
      have hunseen : seen (lex standard sql) = false := by
        rw [hseen]
        by_cases hkind : u.kind = .word
        · rw [hu hkind, Bool.and_false, Bool.false_and]
        · rw [decide_eq_false hkind, Bool.false_and, Bool.false_and]
      rw [of_marked hlist hw, hunseen]
      rfl
  | @word u' rest' hdrop' hu hapart =>
      rw [hdrop] at hdrop'
      obtain ⟨rfl, rfl⟩ := List.cons.inj hdrop'
      have hcomment : u.kind ≠ .comment := by rw [hu]; nofun
      obtain ⟨htail, hcl⟩ := hclause hcomment
      have hcases := clause_cases hcl
      have hkmem : spelling u ∈ clauseWords := by
        obtain ⟨hk, -⟩ | ⟨hk, -⟩ | ⟨hk | hk, -⟩ | ⟨hk | hk, -⟩ := hcases <;> rw [hk] <;> decide
      obtain ⟨-, hupper, hkeyword, -⟩ := word_of_clauseWords hkmem
      rw [hupper] at hlist
      rw [decide_eq_true hu, hapart, hkeyword, Bool.true_and, Bool.true_and] at hseen
      generalize hbody : (((significant rest).takeWhile (! ·.isSemicolon)).map spelling).head? = body at hcases
      have hclauseWords : ∀ w ∈ body, w ∈ clauseWords := by
        have hends : ∀ w ∈ ["WORK".toList, "TRANSACTION".toList, "AND".toList], w ∈ clauseWords := by decide
        obtain ⟨-, -, hw⟩ | ⟨-, -, hw⟩ | ⟨-, -, hw⟩ | ⟨-, -, hw⟩ := hcases
        · exact fun w hmem => List.mem_append_right _ (hw w hmem)
        · intro w hmem
          rw [hw] at hmem
          obtain rfl := Option.some.inj hmem
          decide
        · exact fun w hmem => hends w (hw w hmem)
        · exact fun w hmem => hends w (hw w hmem)
      have hsecond := second_cases hsplit.symm htail (by rw [hbody]; exact hclauseWords) (spelling u)
      rw [hbody] at hsecond
      rw [of_words hlist, hseen]
      obtain ⟨hbody, hsecond, hbehind⟩ | ⟨w, hbody, hsecond, hbehind⟩ | ⟨w, hsecond, hmarked, hbehind⟩ := hsecond
      · -- nothing follows the keyword
        rw [hsecond, hbehind, Bool.or_true, if_pos rfl]
        obtain ⟨hk, rfl, -⟩ | ⟨-, -, hw⟩ | ⟨hk | hk, rfl, -⟩ | ⟨hk | hk, rfl, -⟩ := hcases
        · rw [hk]; rfl
        · rw [hbody] at hw; cases hw
        · rw [hk]; rfl
        · rw [hk]; rfl
        · rw [hk]; rfl
        · rw [hk]; rfl
      · -- a clause word follows it
        rw [hsecond, hbehind]
        obtain ⟨hk, rfl, hw⟩ | ⟨hk, rfl, hw⟩ | ⟨hk | hk, rfl, hw⟩ | ⟨hk | hk, rfl, hw⟩ := hcases
        · have hin : (some w).all characteristics.contains = true :=
            List.contains_iff_mem.mpr (hw w hbody)
          rw [hk, if_pos rfl, hin]
          rfl
        · rw [hbody] at hw
          obtain rfl := Option.some.inj hw
          rw [hk]
          rfl
        · rw [hk]; rfl
        · have hall := hw w hbody
          rw [hk]
          simp only [List.mem_cons, List.not_mem_nil, or_false] at hall
          obtain rfl | rfl | rfl := hall <;> rfl
        · rw [hk]; rfl
        · rw [hk]; rfl
      · -- no clause word: only the keywords that are enough are seen
        have hne : ∀ k ∈ clauseWords, w ≠ k := fun k hk => ne_of_marked hmarked (letters_of_clauseWords k hk).2.2
        rw [hsecond, hbehind, Bool.or_false]
        obtain ⟨hk, rfl, -⟩ | ⟨hk, rfl, -⟩ | ⟨hk | hk, rfl, -⟩ | ⟨hk | hk, rfl, -⟩ := hcases
        · have hout : (some w).all characteristics.contains = false :=
            Bool.eq_false_iff.mpr fun hin => hne w (List.mem_append_right _ (List.contains_iff_mem.mp hin)) rfl
          rw [hk, if_pos rfl, hout]
          rfl
        · have hout : ¬ some w = some "TRANSACTION".toList := fun h => hne _ (by decide) (Option.some.inj h)
          rw [hk, if_neg (by decide), if_pos rfl, if_neg hout]
          rfl
        · rw [hk]; rfl
        · have hout : (some w).all (fun word => word = "WORK".toList ∨ word = "TRANSACTION".toList) = false :=
            decide_eq_false (not_or.mpr ⟨hne _ (by decide), hne _ (by decide)⟩)
          rw [hk, if_neg (by decide), if_neg (by decide), if_neg (by decide), if_pos rfl, hout]
          rfl
        · rw [hk]; rfl
        · rw [hk]; rfl

/-- **Where the code finds transaction control.** It performs a text exactly when the text is transaction control, if and
only if of a control the words it looks at are seen, and no other text starts with the words of one. -/
theorem of_eq_control_iff (standard : Bool) (sql : Text) :
    (∀ c, of sql = some c ↔ control standard sql = some c) ↔
      ((control standard sql).isSome = true → seen (lex standard sql) = true) ∧
        (control standard sql = none → headed (words sql) = false) := by
  rw [← isSome_of]
  cases hcontrol : control standard sql with
  | none =>
      refine ⟨fun h => ⟨nofun, fun _ => ?_⟩, fun ⟨_, h⟩ c => ⟨fun hc => ?_, nofun⟩⟩
      · cases hof : of sql with
        | none => rfl
        | some c => exact nomatch (h c).mp hof
      · have hnone := h rfl
        rw [hc] at hnone
        cases hnone
  | some c =>
      rw [of_of_control hcontrol]
      refine ⟨fun h => ⟨fun _ => ?_, nofun⟩, fun ⟨h, _⟩ c' => by rw [h rfl]; rfl⟩
      have hsome := (h c).mpr rfl
      split_ifs at hsome with hseen
      exact hseen

/-- The rest of a text is dropped: a savepoint, or a statement behind the start. -/
theorem not_of_eq_control : ¬ ∀ (sql : Text) (c : TransactionControl), of sql = some c ↔ control true sql = some c := by
  intro h
  have hcontrol := (h "ROLLBACK TO SAVEPOINT a".toList .rollback).mp (by decide)
  revert hcontrol
  decide

end Havuz.Jdbc.TransactionControl
