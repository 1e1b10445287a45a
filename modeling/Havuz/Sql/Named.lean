import Mathlib
import Havuz.Postgres.Settings
import Havuz.Sql.Tokens

/-!
# The parameter a statement names

Reference: `classify_set`, `classify_set_body`, `classify_reset_body` and `take_word` of `havuz-pg/src/params.rs`.

`classify_set` goes by words: what white space, `=` or a comma ends. PostgreSQL goes by tokens, so a comment or a quote
directly behind a keyword, white space in front of a dot and white space beyond ASCII are read differently. `Legible`
says where the first words are the first tokens; there, what is tracked or reset is what the statement changes
(`named_of_legible`), and everything the words do not show is pinned.
-/

namespace Havuz.Sql

open Postgres (Token lex core raws significant blanks AtEnd Single Change Changes SetRest Special VarName isDefault
  opensValue isValue)

variable {standard : Bool}

/-! ## What may be answered -/

/-- The answer pins, or it says what the statement changes. -/
def Names : Change → SetAction → Prop
  | _, .pin _ => True
  | .set name _, .track n _ => n = name
  | .set name toDefault, .reset n => n = name ∧ toDefault = true
  | .reset name, .reset n => n = name
  | .resetAll, .resetAll => True
  | _, _ => False

/-! ## Where words are tokens -/

/-- `strip_leading_noise` ends each separator in front of the statement where PostgreSQL does. -/
def noiseRead (standard : Bool) : List Token → Bool
  | [] => true
  | t :: ts => !t.isSeparator || (endsOnce t && readAlike standard t (raws ts) && noiseRead standard ts)

/-- What ends a word for the classifier: white space, `=` or the end of the statement. -/
def endsHere : List Token → Bool
  | [] => true
  | t :: ts => t.kind = .space || t.isSymbol '=' || (t.isSemicolon && ts.all (·.kind = .space))

/-- The keyword that is read first, where one is: only white space stands in front of it, and it ends there. -/
def loneKeyword (ts : List Token) : Text :=
  match ts.dropWhile (·.kind = .space) with
  | [] => []
  | t :: rest => if endsHere rest then t.keyword else []

/-- What stands behind the first token. -/
def behindFirst (ts : List Token) : List Token := (ts.dropWhile (·.kind = .space)).tail

/-- Words that stand for something else than the parameter of their name. -/
def specialWords : List Text := ["LOCAL".toList, "TRANSACTION".toList, "NAMES".toList, "SCHEMA".toList]

/-- White space ends what could be a whole name, and a dot goes on with it. -/
def breaksName (ts : List Token) : Bool :=
  let behind := ts.dropWhile (·.kind = .space)
  let first := raws (behind.takeWhile (·.kind ≠ .space))
  isParameterName first && Text.toAsciiUppercase first ≠ "TIME".toList &&
    (significant (behind.dropWhile (·.kind ≠ .space))).head?.any (·.isSymbol '.')

/-- The first word of the name is taken for something else, or for all of it. -/
def mistaken : List Token → Bool
  | [] => false
  | k :: behind =>
      if k.keyword = "SET".toList then
        loneKeyword behind ∈ specialWords ||
          (loneKeyword behind = "SESSION".toList && loneKeyword (behindFirst behind) ∈ specialWords)
      else loneKeyword behind = "SESSION".toList || breaksName behind

/-- PostgreSQL and the classifier agree on comments in front of the statement and on what is white space. -/
structure Readable (standard : Bool) (s : Text) (name : List Token) : Prop where
  noise : noiseRead standard (lex standard s) = true
  /-- No white space beyond ASCII in the name. -/
  unbroken : ∀ t ∈ name, t.kind = .word → Text.Unbroken t.raw
  /-- Such white space cuts neither `DEFAULT` nor `TO` out of another word. -/
  values : ∀ t ∈ lex standard s, t.kind = .word →
    Text.Unbroken t.raw ∨ ∀ w ∈ Text.splitWhitespace t.raw, Text.toAsciiUppercase w ∉ valueWords

/-- The words up to the value are the tokens PostgreSQL reads. -/
structure Legible (standard : Bool) (s : Text) (name : List Token) : Prop extends Readable standard s name where
  /-- White space directly behind `SET` or `RESET`. -/
  spaced : (core (lex standard s)).tail.head?.all (·.kind = .space) = true
  found : name ≠ [] → mistaken (core (lex standard s)) = false

/-! ## What the grammar allows -/

theorem keyword_of_symbol {u : Token} {c : Char} (h : u.isSymbol c = true) : u.keyword = [] := by
  rw [Token.isSymbol, Bool.and_eq_true, decide_eq_true_eq] at h
  rw [Token.keyword, if_neg (by rw [h.1]; exact fun hkind => by cases hkind)]

theorem symbol_unique {u : Token} {c d : Char} (h : u.isSymbol c = true) (h' : u.isSymbol d = true) : c = d := by
  rw [Token.isSymbol, Bool.and_eq_true, decide_eq_true_eq, decide_eq_true_eq] at h h'
  exact (List.cons.inj (h.2.symm.trans h'.2)).1

theorem whole_of_symbol {u : Token} {c : Char} (h : u.isSymbol c = true) (ts : List Token) : Whole (u :: ts) := by
  rw [Token.isSymbol, Bool.and_eq_true, decide_eq_true_eq] at h
  intro v hv hkind
  obtain rfl : u = v := Option.some.inj hv
  rw [h.1] at hkind
  cases hkind

theorem unbroken_of_letters {k : Text} (hk : Text.Letters k) : Text.Unbroken k := by
  intro c hc
  obtain ⟨hlow, hhigh⟩ := hk.2 c hc
  have hlow : 65 ≤ c.toNat := hlow
  have hhigh : c.toNat ≤ 90 := hhigh
  exact isWhitespace_of_letter (by omega)

theorem whole_of_keyword {u : Token} {k : Text} (h : u.keyword = k) (hk : Text.Letters k) (ts : List Token) :
    Whole (u :: ts) := by
  intro v hv _
  obtain rfl : u = v := Option.some.inj hv
  exact Postgres.unbroken_of_keyword h hk.1 (unbroken_of_letters hk)

/-- What may stand behind a part of a name. -/
def Goes (ts : List Token) : Prop :=
  ∃ o rest, ts = o :: rest ∧
    (o.isSymbol '.' = true ∨ (o.isSymbol '=' = true ∨ o.keyword = "TO".toList) ∧ isValue rest = true)

theorem Goes.whole {ts : List Token} (h : Goes ts) : Whole ts := by
  obtain ⟨o, rest, rfl, hdot | ⟨heq | hto, -⟩⟩ := h
  · exact whole_of_symbol hdot rest
  · exact whole_of_symbol heq rest
  · exact whole_of_keyword hto (by decide) rest

theorem colId_word {w n : Text} (h : (⟨.word, w⟩ : Token).colId = some n) :
    n = Text.toAsciiLowercase w ∧ Text.toAsciiUppercase w ∉ Postgres.reserved := by
  unfold Token.colId at h
  split at h
  case isTrue => cases h
  case isFalse hreserved =>
    have hlower : Text.toAsciiLowercase (Text.toAsciiLowercase w) = n := Option.some.inj h
    rw [Text.toAsciiLowercase_lowercase] at hlower
    exact ⟨hlower.symm, hreserved⟩

theorem colId_symbol {u : Token} {c : Char} {n : Text} (hu : u.isSymbol c = true) : u.colId ≠ some n := by
  rw [Token.isSymbol, Bool.and_eq_true, decide_eq_true_eq] at hu
  unfold Token.colId Token.name
  rw [hu.1]
  split_ifs <;> exact fun h => by cases h

/-- A statement gives the name, which goes on or is assigned to, or none. -/
theorem next_of_setRest {u : Token} {body name : List Token} {c : Change} (h : SetRest (u :: body) name c) :
    (∃ name', name = u :: name') ∧ Goes body ∧ (∃ n, u.colId = some n) ∨ name = [] ∧ Special (u :: body) c := by
  generalize hb : u :: body = b at h
  cases h with
  | special h =>
      subst hb
      exact .inr ⟨rfl, h⟩
  | generic hname hop hvalue hdefault =>
      left
      cases hname with
      | colId ht =>
          obtain ⟨rfl, rfl⟩ := List.cons.inj hb
          exact ⟨⟨[], rfl⟩, ⟨_, _, rfl, .inr ⟨hop, hvalue⟩⟩, _, ht⟩
      | dot ht hd hts =>
          obtain ⟨rfl, rfl⟩ := List.cons.inj hb
          exact ⟨⟨_, rfl⟩, ⟨_, _, rfl, .inl hd⟩, _, ht⟩

theorem whole_of_special {body : List Token} {c : Change} (h : Special body c) : Whole body := by
  cases h with
  | timeZone ht | names ht | schema ht | role ht => exact whole_of_keyword ht (by decide) _
  | xmlOption hx => exact whole_of_keyword hx (by decide) _
  | authorization hs | characteristics hs => exact whole_of_keyword hs (by decide) _

theorem whole_of_setRest {body name : List Token} {c : Change} (h : SetRest body name c)
    (hname : ∀ u ∈ name, u.kind = .word → Text.Unbroken u.raw) : Whole body := by
  match body with
  | [] => exact fun u hu => by cases hu
  | u :: body =>
      obtain ⟨⟨name', rfl⟩, -, -⟩ | ⟨-, h⟩ := next_of_setRest h
      · intro v hv
        obtain rfl : u = v := Option.some.inj hv
        exact hname u List.mem_cons_self
      · exact whole_of_special h

/-- What is assigned to is what the statement names. -/
theorem assigned {t tail w rest value : Text} {body fin name : List Token} {c : Change}
    (h : Shows standard t tail body fin) (hrest : SetRest body name c)
    (hname : ∀ u ∈ name, u.kind = .word → Text.Unbroken u.raw) (hw : takeWord t = (w, rest))
    (hparam : isParameterName w = true)
    (hword : ∀ k ∈ ["NAMES".toList, "SCHEMA".toList, "ROLE".toList, "SESSION".toList], Text.toAsciiUppercase w ≠ k)
    (hv : setValue rest = some value) :
    ∃ toDefault body' v, c = .set (Text.toAsciiLowercase w) toDefault ∧ Shows standard v tail body' fin ∧
      value = Text.trim v ∧ ∀ u ∈ body', u.keyword = "DEFAULT".toList → toDefault = true := by
  have hwhole := whole_of_setRest hrest hname
  have hkey : ∀ k, (⟨.word, w⟩ : Token).keyword = k → Text.toAsciiUppercase w = k := fun k hk => hk
  obtain hident | ⟨a, b, rfl, ha, hb⟩ := isParameterName_cases hparam
  · obtain ⟨body', rfl, hshows, -, -⟩ := h.word hwhole hw hident
    generalize hbody : (⟨.word, w⟩ : Token) :: body' = whole at hrest
    cases hrest with
    | generic hvar hop hvalue hdefault =>
        cases hvar with
        | colId ht =>
            obtain ⟨rfl, rfl⟩ := List.cons.inj hbody
            have hgoes : Goes (_ :: _) := ⟨_, _, rfl, .inr ⟨hop, hvalue⟩⟩
            obtain ⟨op, body'', v, heq, -, hshows, rfl⟩ := hshows.assigns hgoes.whole hv
            obtain ⟨rfl, rfl⟩ := List.cons.inj heq
            exact ⟨_, _, v, by rw [(colId_word ht).1], hshows, rfl, hdefault⟩
        | dot ht hd hts =>
            obtain ⟨rfl, rfl⟩ := List.cons.inj hbody
            obtain ⟨op, body'', v, heq, hop', -⟩ := hshows.assigns (whole_of_symbol hd _) hv
            obtain ⟨rfl, -⟩ := List.cons.inj heq
            rcases hop' with hop' | hop'
            · exact absurd (symbol_unique hd hop') (by decide)
            · rw [keyword_of_symbol hd] at hop'
              cases hop'
    | special hspecial =>
        have second : ∀ {z : Token} {k : Text} {more : List Token}, body' = z :: more → z.keyword = k → Text.Letters k →
            k ≠ "TO".toList → False := by
          rintro z k more rfl hz hk hne
          obtain ⟨op, body'', v, heq, hop', -⟩ := hshows.assigns (whole_of_keyword hz hk more) hv
          obtain ⟨rfl, -⟩ := List.cons.inj heq
          rcases hop' with hop' | hop'
          · rw [keyword_of_symbol hop'] at hz
            exact hk.1 hz.symm
          · exact hne (hz.symm.trans hop')
        cases hspecial with
        | timeZone ht hz =>
            obtain ⟨rfl, rfl⟩ := List.cons.inj hbody
            exact (second rfl hz (by decide) (by decide)).elim
        | xmlOption hx ho =>
            obtain ⟨rfl, rfl⟩ := List.cons.inj hbody
            exact (second rfl ho (by decide) (by decide)).elim
        | names ht | schema ht | role ht =>
            obtain ⟨rfl, rfl⟩ := List.cons.inj hbody
            exact absurd (hkey _ ht) (hword _ (by decide))
        | authorization hs | characteristics hs =>
            obtain ⟨rfl, rfl⟩ := List.cons.inj hbody
            exact absurd (hkey _ hs) (hword _ (by decide))
  · obtain ⟨third, body', rfl, hkind, hthird⟩ := h.dotted hwhole hw ha hb
    generalize hbody : (⟨.word, a⟩ : Token) :: ⟨.symbol, ['.']⟩ :: third :: body' = whole at hrest
    have hnone : ∀ k : Text, k ≠ [] → (⟨.symbol, ['.']⟩ : Token).keyword ≠ k := fun k hk heq => hk heq.symm
    cases hrest with
    | generic hvar hop hvalue hdefault =>
        cases hvar with
        | colId ht =>
            obtain ⟨rfl, heq⟩ := List.cons.inj hbody
            obtain ⟨rfl, -⟩ := List.cons.inj heq
            rcases hop with hop | hop
            · exact absurd hop (by decide)
            · exact absurd hop (hnone _ (by decide))
        | dot ht hd hts =>
            obtain ⟨rfl, hbehind⟩ := List.cons.inj hbody
            obtain ⟨rfl, hthird'⟩ := List.cons.inj hbehind
            cases hts with
            | colId ht' =>
                obtain ⟨rfl, rfl⟩ := List.cons.inj hthird'
                obtain ⟨rfl, hshows, -, -⟩ := hthird (hname _ (by simp) hkind)
                have hgoes : Goes (_ :: _) := ⟨_, _, rfl, .inr ⟨hop, hvalue⟩⟩
                obtain ⟨op, body'', v, heq, -, hshows, rfl⟩ := hshows.assigns hgoes.whole hv
                obtain ⟨rfl, rfl⟩ := List.cons.inj heq
                refine ⟨_, _, v, ?_, hshows, rfl, hdefault⟩
                rw [(colId_word ht).1, (colId_word ht').1]
                simp [Text.toAsciiLowercase]
            | dot ht' hd' hts' =>
                obtain ⟨rfl, rfl⟩ := List.cons.inj hthird'
                obtain ⟨rfl, hshows, -, -⟩ := hthird (hname _ (by simp) hkind)
                obtain ⟨op, body'', v, heq, hop', -⟩ := hshows.assigns (whole_of_symbol hd' _) hv
                obtain ⟨rfl, -⟩ := List.cons.inj heq
                rcases hop' with hop' | hop'
                · exact absurd (symbol_unique hd' hop') (by decide)
                · rw [keyword_of_symbol hd'] at hop'
                  cases hop'
    | special hspecial =>
        cases hspecial with
        | timeZone _ hk | xmlOption _ hk | authorization _ hk | characteristics _ hk =>
            obtain ⟨-, heq⟩ := List.cons.inj hbody
            obtain ⟨rfl, -⟩ := List.cons.inj heq
            exact absurd hk (hnone _ (by decide))
        | names _ hvalue =>
            obtain ⟨-, rfl⟩ := List.cons.inj hbody
            rcases hvalue with hvalue | hvalue
            · cases hvalue
            · cases hvalue
        | schema _ hvalue | role _ hvalue =>
            obtain ⟨-, rfl⟩ := List.cons.inj hbody
            cases hvalue

/-! ## What ends a word -/

/-- The token is not what can be cut off the end of a text, nor a comma. -/
def Apart (u : Token) : Prop := (∃ c ∈ u.raw, isWhitespace c = false ∧ c ≠ ';') ∧ u.isSymbol ',' = false

theorem isSpace_of_stop {c : Char} (h : isWhitespace c = true) (hcont : Postgres.isIdentCont c = false) :
    Postgres.isSpace c = true := by
  by_contra hnot
  have hstart := Postgres.isIdentStart_of_isWhitespace h (Bool.eq_false_iff.mpr hnot)
  rw [Postgres.isIdentCont_of_isIdentStart hstart] at hcont
  cases hcont

/-- The tokens of the end are made of its characters. -/
theorem chars_of_end {tail : Text} (htail : IsEnd tail) {u : Token} (hu : u ∈ lex standard tail) :
    ∀ c ∈ u.raw, isWhitespace c = true ∨ c = ';' := by
  intro c hc
  have hwithin := Postgres.raw_infix_raws hu
  rw [Postgres.lex_raw] at hwithin
  exact htail c (hwithin.subset hc)

/-- Comments are none of it. -/
theorem space_of_end {tail : Text} (htail : IsEnd tail) {u : Token} (hu : u ∈ lex standard tail)
    (hsep : u.isSeparator = true) : u.kind = .space := by
  rw [Token.isSeparator, Bool.or_eq_true, decide_eq_true_eq, decide_eq_true_eq] at hsep
  refine hsep.resolve_right fun hcomment => ?_
  rcases (Postgres.starts_of_mem_lex u hu).comment hcomment with hhead | hhead
  all_goals
    rcases chars_of_end htail hu _ (List.mem_of_mem_head? hhead) with h | h <;> exact absurd h (by decide)

namespace Shows

variable {t tail w rest : Text} {body fin : List Token}

/-- A solid token stands in the text itself. -/
theorem ne_nil_of_solid {u : Token} (h : Shows standard [] tail (u :: body) fin) : ¬ Apart u := by
  rintro ⟨⟨c, hc, hwhite, hsemi⟩, -⟩
  have hmem : u ∈ significant (lex standard tail) := by
    have htokens := h.tokens
    rw [List.nil_append] at htokens
    rw [htokens]
    exact List.mem_cons_self
  rcases chars_of_end h.ended (List.mem_of_mem_filter hmem) c hc with h | h
  · rw [h] at hwhite
    cases hwhite
  · exact hsemi h

/-- Behind a word: white space or `=`, where a solid token follows. -/
theorem behind_word {u : Token} (h : Shows standard rest tail (u :: body) fin) (hu : Apart u)
    (hrest : ∀ c ∈ rest.head?, endsWord c = true) (hstop : ∀ c ∈ (rest ++ tail).head?, Postgres.isIdentCont c = false) :
    ∃ v more, lex standard (rest ++ tail) = v :: more ∧ (v.kind = .space ∨ v.isSymbol '=' = true ∧ v = u) := by
  match rest with
  | [] => exact absurd hu h.ne_nil_of_solid
  | c :: rest =>
      have hc := hrest c rfl
      have hcont := hstop c rfl
      have htokens := h.tokens
      rw [List.cons_append, Postgres.lex_cons] at htokens ⊢
      refine ⟨_, _, rfl, ?_⟩
      simp only [endsWord, Bool.or_eq_true, beq_iff_eq] at hc
      rcases hc with (hblank | rfl) | rfl
      · left
        rw [Postgres.next_space (isSpace_of_stop hblank hcont)]
      · right
        rw [← Postgres.lex_cons, Postgres.lex_equals, Postgres.significant_cons rfl] at htokens
        obtain ⟨rfl, -⟩ := List.cons.inj htokens
        exact ⟨rfl, rfl⟩
      · rw [← Postgres.lex_cons, Postgres.lex_comma, Postgres.significant_cons rfl] at htokens
        obtain ⟨rfl, -⟩ := List.cons.inj htokens
        exact absurd hu.2 (by decide)

/-- A keyword that a solid token follows, or nothing, ends where the classifier ends a word. -/
theorem endsHere_of_word (h : Shows standard rest tail body fin) (hsolid : ∀ u ∈ body.head?, Apart u)
    (hrest : ∀ c ∈ rest.head?, endsWord c = true) (hstop : ∀ c ∈ (rest ++ tail).head?, Postgres.isIdentCont c = false) :
    endsHere (lex standard (rest ++ tail)) = true := by
  match body with
  | u :: body =>
      obtain ⟨v, more, hlex, hspace | ⟨heq, -⟩⟩ := h.behind_word (hsolid u rfl) hrest hstop
      · simp [hlex, endsHere, hspace]
      · simp [hlex, endsHere, heq]
  | [] =>
      have htokens := h.tokens
      rw [List.nil_append] at htokens
      match rest with
      | [] =>
          rw [List.nil_append] at htokens ⊢
          match hlex : lex standard tail with
          | [] => rfl
          | u :: us =>
              have hmem : ∀ v ∈ u :: us, v ∈ lex standard tail := fun v hv => by rw [hlex]; exact hv
              rw [hlex] at htokens
              by_cases hsep : u.isSeparator = true
              · have hspace := space_of_end h.ended (hmem u List.mem_cons_self) hsep
                simp [endsHere, hspace]
              · -- the semicolon, and blanks behind it
                rw [Postgres.significant_cons (Bool.eq_false_iff.mpr hsep)] at htokens
                obtain hnil | ⟨semi, hlast, his⟩ := h.last
                · rw [hnil] at htokens
                  cases htokens
                · rw [hlast] at htokens
                  obtain ⟨rfl, hus⟩ := List.cons.inj htokens
                  have hspaces : us.all (·.kind = .space) = true := by
                    refine List.all_eq_true.mpr fun v hv => decide_eq_true ?_
                    have hvsep : v.isSeparator = true := by simpa using List.filter_eq_nil_iff.mp hus v hv
                    exact space_of_end h.ended (hmem v (List.mem_cons_of_mem _ hv)) hvsep
                  simp [endsHere, his, hspaces]
      | c :: rest =>
          have hc := hrest c rfl
          have hcont := hstop c rfl
          have hnot : ∀ u ts, u.isSemicolon = false → significant (lex standard (c :: rest ++ tail)) = u :: ts → False := by
            intro u ts hu heq
            rw [htokens] at heq
            obtain hnil | ⟨semi, hlast, his⟩ := h.last
            · rw [hnil] at heq
              cases heq
            · rw [hlast] at heq
              obtain ⟨rfl, -⟩ := List.cons.inj heq
              rw [his] at hu
              cases hu
          simp only [endsWord, Bool.or_eq_true, beq_iff_eq] at hc
          rcases hc with (hblank | rfl) | rfl
          · rw [List.cons_append, Postgres.lex_cons, Postgres.next_space (isSpace_of_stop hblank hcont)]
            rfl
          · rw [List.cons_append, Postgres.lex_equals, Postgres.significant_cons rfl] at hnot
            exact (hnot _ _ rfl rfl).elim
          · rw [List.cons_append, Postgres.lex_comma, Postgres.significant_cons rfl] at hnot
            exact (hnot _ _ rfl rfl).elim

end Shows

/-! ## Keywords -/

theorem dropWhile_blanks (sp : Text) {u : Token} (hu : u.kind ≠ .space) (ts : List Token) :
    (blanks sp ++ u :: ts).dropWhile (·.kind = .space) = u :: ts := by
  rw [List.dropWhile_append_of_pos fun v hv => decide_eq_true (Postgres.blanks_kind v hv)]
  exact List.dropWhile_cons_of_neg (by simpa using hu)

theorem loneKeyword_blanks (sp : Text) {u : Token} (hu : u.kind ≠ .space) {ts : List Token} (hends : endsHere ts = true) :
    loneKeyword (blanks sp ++ u :: ts) = u.keyword := by
  rw [loneKeyword, dropWhile_blanks sp hu]
  exact if_pos hends

theorem apart_of_symbol {u : Token} {c : Char} (h : u.isSymbol c = true) (hc : isWhitespace c = false ∧ c ≠ ';' ∧ c ≠ ',') :
    Apart u := by
  have hraw : u.raw = [c] := by
    rw [Token.isSymbol, Bool.and_eq_true, decide_eq_true_eq, decide_eq_true_eq] at h
    exact h.2
  refine ⟨⟨c, by rw [hraw]; exact List.mem_cons_self, hc.1, hc.2.1⟩, Bool.eq_false_iff.mpr fun hcomma => ?_⟩
  exact hc.2.2 (symbol_unique h hcomma)

theorem apart_of_keyword {u : Token} {k : Text} (h : u.keyword = k) (hk : Text.Letters k) : Apart u := by
  have hupper := Postgres.upper_of_keyword h hk.1
  have hletters : ∀ c ∈ u.raw, isAsciiAlphabetic c = true := fun c hc =>
    Text.isAsciiAlphabetic_of_toUpper (hk.2 _ (by rw [← hupper]; exact List.mem_map_of_mem hc))
  refine ⟨?_, Bool.eq_false_iff.mpr fun hcomma => hk.1 ?_⟩
  · match hraw : u.raw with
    | [] => exact absurd hraw (Postgres.raw_ne_of_keyword h hk.1)
    | c :: raw =>
        have hc := hletters c (by rw [hraw]; exact List.mem_cons_self)
        have hends := endsWord_of_letter hc
        simp only [endsWord, Bool.or_eq_false_iff] at hends
        refine ⟨c, List.mem_cons_self, hends.1.1, ?_⟩
        rintro rfl
        exact absurd hc (by decide)
  · rw [← h, keyword_of_symbol hcomma]

theorem Goes.apart {ts : List Token} (h : Goes ts) : ∀ u ∈ ts.head?, Apart u := by
  obtain ⟨o, rest, rfl, h⟩ := h
  intro u hu
  obtain rfl : o = u := Option.some.inj hu
  rcases h with hdot | ⟨heq | hto, -⟩
  · exact apart_of_symbol hdot (by decide)
  · exact apart_of_symbol heq (by decide)
  · exact apart_of_keyword hto (by decide)

/-- What is no identifier is no keyword. -/
theorem not_keyword {w k : Text} (h : isIdentifier w = false) (hk : Text.Letters k) : Text.toAsciiUppercase w ≠ k := by
  intro hupper
  rw [isIdentifier_of_upper hupper hk] at h
  cases h

/-- The words `SET` may be followed by that are not taken for a name. -/
def setWords : List Text :=
  ["LOCAL".toList, "TRANSACTION".toList, "ROLE".toList, "CONSTRAINTS".toList, "SESSION".toList, "TIME".toList,
    "NAMES".toList, "SCHEMA".toList, "XML".toList]

theorem classifySetBody_plain {t w rest : Text} (hw : takeWord t = (w, rest))
    (hne : ∀ k ∈ setWords, Text.toAsciiUppercase w ≠ k) (fuel : ℕ) (statement : Text) :
    classifySetBody (fuel + 1) statement t = classifySetParameter statement w rest := by
  rw [classifySetBody, hw]
  dsimp only
  rw [if_neg (not_or.mpr ⟨hne _ (by decide), hne _ (by decide)⟩), if_neg (hne _ (by decide)), if_neg (hne _ (by decide)),
    if_neg (hne _ (by decide)), if_neg (fun h => hne _ (by decide) h.1), if_neg (hne _ (by decide)),
    if_neg (hne _ (by decide)), if_neg (fun h => hne _ (by decide) h.1)]

/-- Words that are neither keywords nor names pin. -/
theorem pinned_of_odd {t w rest : Text} (hw : takeWord t = (w, rest)) (hident : isIdentifier w = false)
    (hparam : isParameterName w = false) (fuel : ℕ) (statement : Text) :
    classifySetBody fuel statement t = .pin .sessionParameter := by
  have hletters : ∀ k ∈ setWords, Text.Letters k := by decide
  cases fuel with
  | zero => rfl
  | succ fuel =>
      rw [classifySetBody_plain hw fun k hk => not_keyword hident (hletters k hk), classifySetParameter, hparam]
      rfl

namespace Shows

variable {t tail w rest : Text} {body fin : List Token}

/-- A word with a dot in it shows two tokens. -/
theorem odd_of_next {u : Token} (h : Shows standard t tail (u :: body) fin) (hwhole : Whole (u :: body))
    (hw : takeWord t = (w, rest)) (hident : isIdentifier w = false) (hdot : ∀ o ∈ body.head?, o.isSymbol '.' = false) :
    isParameterName w = false := by
  refine Bool.eq_false_iff.mpr fun hparam => ?_
  obtain hyes | ⟨a, b, rfl, ha, hb⟩ := isParameterName_cases hparam
  · rw [hyes] at hident
    cases hident
  · obtain ⟨third, body', heq, -⟩ := h.dotted hwhole hw ha hb
    obtain ⟨-, rfl⟩ := List.cons.inj heq
    exact absurd (hdot _ rfl) (by decide)

/-- Behind a keyword that is no name. -/
theorem pinned_of_keyword {u : Token} {k : Text} (h : Shows standard t tail (u :: body) fin) (hu : u.keyword = k)
    (hk : Text.Letters k) (hdot : ∀ o ∈ body.head?, o.isSymbol '.' = false)
    (hnot : Text.toAsciiUppercase (takeWord t).1 ≠ k) (fuel : ℕ) (statement : Text) :
    classifySetBody fuel statement t = .pin .sessionParameter := by
  have hwhole := whole_of_keyword hu hk body
  cases hident : isIdentifier (takeWord t).1 with
  | false => exact pinned_of_odd rfl hident (h.odd_of_next hwhole rfl hident hdot) fuel statement
  | true =>
      obtain ⟨body', heq, -⟩ := h.word hwhole rfl hident
      obtain ⟨rfl, -⟩ := List.cons.inj heq
      exact absurd hu hnot

/-- Behind a name that is a keyword. -/
theorem pinned_of_goes (h : Shows standard t tail body fin) (hgoes : Goes body) (fuel : ℕ) (statement : Text) :
    classifySetBody fuel statement t = .pin .sessionParameter := by
  have hwhole := hgoes.whole
  obtain ⟨o, more, rfl, hnext⟩ := hgoes
  cases hident : isIdentifier (takeWord t).1 with
  | false =>
      cases hparam : isParameterName (takeWord t).1 with
      | false => exact pinned_of_odd rfl hident hparam fuel statement
      | true =>
          exfalso
          obtain hyes | ⟨a, b, hab, ha, hb⟩ := isParameterName_cases hparam
          · rw [hyes] at hident
            cases hident
          · obtain ⟨third, body', heq, -⟩ := @dotted standard t tail (takeWord t).2 _ fin a b h hwhole (by rw [← hab]) ha hb
            obtain ⟨rfl, rfl⟩ := List.cons.inj heq
            rcases hnext with hdot | ⟨-, hvalue⟩
            · cases hdot
            · rw [isValue, List.all_cons] at hvalue
              simp [Token.isSymbol] at hvalue
  | true =>
      obtain ⟨body', heq, hshows, -, -⟩ := @word standard t tail _ (takeWord t).2 _ fin h hwhole rfl hident
      obtain ⟨rfl, rfl⟩ := List.cons.inj heq
      rcases hnext with hdot | ⟨heq | hto, hvalue⟩
      · cases hdot
      · cases heq
      · -- the word is `TO`, and nothing of the value assigns
        have hupper : Text.toAsciiUppercase (takeWord t).1 = "TO".toList := hto
        have hnone : setValue (takeWord t).2 = none := by
          refine hshows.no_assignment fun u hu => ?_
          rw [isValue, Bool.and_eq_true, List.all_eq_true] at hvalue
          have hfree := hvalue.2 u hu
          simp only [Bool.and_eq_true, Bool.not_eq_true', decide_eq_true_eq, ne_eq] at hfree
          exact ⟨hfree.1.2, hfree.2⟩
        cases fuel with
        | zero => rfl
        | succ fuel =>
            have hplain : ∀ k ∈ setWords, Text.toAsciiUppercase (takeWord t).1 ≠ k := by
              rw [hupper]
              decide
            rw [@classifySetBody_plain t _ (takeWord t).2 rfl hplain, classifySetParameter, hnone]
            split_ifs <;> rfl

end Shows

/-! ## `SET` -/

theorem names_pin (c : Change) (reason : PinReason) : Names c (.pin reason) := by
  cases c <;> trivial

/-- What is assigned by its name. -/
theorem names_setParameter {t tail w rest statement : Text} {body fin name : List Token} {c : Change}
    (h : Shows standard t tail body fin) (hrest : SetRest body name c)
    (hname : ∀ u ∈ name, u.kind = .word → Text.Unbroken u.raw) (hw : takeWord t = (w, rest))
    (hword : ∀ k ∈ ["NAMES".toList, "SCHEMA".toList, "ROLE".toList, "SESSION".toList], Text.toAsciiUppercase w ≠ k) :
    Names c (classifySetParameter statement w rest) := by
  rw [classifySetParameter]
  cases hparam : isParameterName w with
  | false => exact names_pin c _
  | true =>
      cases hv : setValue rest with
      | none => exact names_pin c _
      | some value =>
          obtain ⟨toDefault, body', v, rfl, hshows, rfl, hdefault⟩ := assigned h hrest hname hw hparam hword hv
          simp only [Bool.not_true, Bool.false_eq_true, if_false]
          split_ifs with hempty hplaceholder hreset
          · trivial
          · trivial
          · obtain ⟨u, hu, hkeyword⟩ := @Shows.keyword standard v tail (takeWord v).1 (takeWord v).2 _ fin hshows rfl
              (by rw [default_first hreset]; decide)
            exact ⟨rfl, hdefault u hu (hkeyword.trans (default_first hreset))⟩
          · exact Text.toAsciiLowercase_lowercase _

/-- The second word of a statement that gives the name is not one that makes the first one special. -/
theorem second_of_goes {t tail : Text} {body fin : List Token} (h : Shows standard t tail body fin) (hgoes : Goes body)
    {k : Text} (hk : Text.Letters k) (hne : k ≠ "TO".toList) : Text.toAsciiUppercase (takeWord t).1 ≠ k := by
  intro hupper
  obtain ⟨body', rfl, -⟩ := @Shows.word standard t tail _ (takeWord t).2 body fin h hgoes.whole rfl
    (isIdentifier_of_upper hupper hk)
  obtain ⟨o, more, heq, hdot | ⟨hop | hto, -⟩⟩ := hgoes
  · obtain ⟨rfl, -⟩ := List.cons.inj heq
    cases hdot
  · obtain ⟨rfl, -⟩ := List.cons.inj heq
    cases hop
  · obtain ⟨rfl, -⟩ := List.cons.inj heq
    exact hne (hupper.symm.trans hto)

/-- The keywords that begin what gives no name. -/
def specialFirst : List Text :=
  ["TIME".toList, "NAMES".toList, "SCHEMA".toList, "XML".toList, "ROLE".toList, "SESSION".toList]

theorem first_of_special {u : Token} {ts : List Token} {c : Change} (h : Special (u :: ts) c) :
    u.keyword ∈ specialFirst := by
  cases h with
  | timeZone hk | names hk | schema hk | xmlOption hk | role hk | authorization hk | characteristics hk =>
      rw [hk]
      decide

/-- What they change. -/
def spelledNames : List (Text × Text) :=
  [("TIME".toList, "timezone".toList), ("NAMES".toList, "client_encoding".toList),
    ("SCHEMA".toList, "search_path".toList), ("XML".toList, "xmloption".toList)]

theorem spelledNames_unique : ∀ p ∈ spelledNames, ∀ q ∈ spelledNames, p.1 = q.1 → p.2 = q.2 := by decide

theorem spelledNames_lower : ∀ p ∈ spelledNames, Text.toAsciiLowercase p.2 = p.2 := by decide

theorem names_special {u : Token} {ts : List Token} {c : Change} {k n statement : Text} (h : Special (u :: ts) c)
    (hk : u.keyword = k) (hn : (k, n) ∈ spelledNames) : Names c (track statement n) := by
  have hfound : ∀ k' n', u.keyword = k' → (k', n') ∈ spelledNames → Text.toAsciiLowercase n = n' := by
    intro k' n' hk' hmem
    rw [spelledNames_lower (k, n) hn]
    exact spelledNames_unique (k, n) hn (k', n') hmem (hk.symm.trans hk')
  have hnot : ∀ k', u.keyword = k' → (∀ p ∈ spelledNames, p.1 ≠ k') → False := fun k' hk' hne =>
    hne (k, n) hn (hk.symm.trans hk')
  cases h with
  | timeZone hk' => exact hfound _ _ hk' (by decide : (_, "timezone".toList) ∈ spelledNames)
  | names hk' => exact hfound _ _ hk' (by decide : (_, "client_encoding".toList) ∈ spelledNames)
  | schema hk' => exact hfound _ _ hk' (by decide : (_, "search_path".toList) ∈ spelledNames)
  | xmlOption hk' => exact hfound _ _ hk' (by decide : (_, "xmloption".toList) ∈ spelledNames)
  | role hk' | authorization hk' | characteristics hk' => exact (hnot _ hk' (by decide)).elim

/-- `SESSION` is followed by one of two keywords, and no name goes on there. -/
theorem second_of_special {u : Token} {ts : List Token} {c : Change} (h : Special (u :: ts) c)
    (hk : u.keyword = "SESSION".toList) :
    ∃ v more, ts = v :: more ∧ (v.keyword = "AUTHORIZATION".toList ∨ v.keyword = "CHARACTERISTICS".toList) ∧
      ∀ o ∈ more.head?, o.isSymbol '.' = false := by
  have hnot : ∀ k', u.keyword = k' → k' ≠ "SESSION".toList → False := fun k' hk' hne => hne (hk'.symm.trans hk)
  cases h with
  | @authorization s a value _ ha hvalue =>
      refine ⟨a, value, rfl, .inl ha, fun o ho => ?_⟩
      obtain ⟨more, rfl⟩ := List.head?_eq_some_iff.mp ho
      simp only [opensValue, Bool.and_eq_true, Bool.not_eq_true'] at hvalue
      exact hvalue.1.1
  | characteristics _ hc ha _ =>
      refine ⟨_, _, rfl, .inr hc, fun o ho => ?_⟩
      obtain rfl := Option.some.inj ho
      refine Bool.eq_false_iff.mpr fun hdot => ?_
      rw [keyword_of_symbol hdot] at ha
      cases ha
  | timeZone hk' | names hk' | schema hk' | xmlOption hk' | role hk' => exact (hnot _ hk' (by decide)).elim

/-- **What stands behind `SET` and `SET SESSION` is named or pinned**, unless its first word is taken for something
else. -/
theorem names_setBody {t tail statement : Text} {body fin name : List Token} {c : Change}
    (h : Shows standard t tail body fin) (hrest : SetRest body name c)
    (hname : ∀ u ∈ name, u.kind = .word → Text.Unbroken u.raw)
    (hfound : name ≠ [] → loneKeyword (lex standard (t ++ tail)) ∉ specialWords) (fuel : ℕ) :
    Names c (classifySetBody fuel statement t) := by
  cases fuel with
  | zero => exact names_pin c _
  | succ fuel =>
  obtain ⟨w, rest, hw⟩ : ∃ w rest, takeWord t = (w, rest) := ⟨_, _, rfl⟩
  obtain ⟨sp, -, -, -, hends⟩ := takeWord_spec hw
  have hwhole := whole_of_setRest hrest hname
  -- a keyword is the first token: of a name, which then goes on, or of a statement that gives none
  have hkeyword : ∀ k, Text.toAsciiUppercase w = k → Text.Letters k →
      ∃ body', Shows standard rest tail body' fin ∧
        (Goes body' ∧ k ∉ specialWords ∨ Special (⟨.word, w⟩ :: body') c) := by
    rintro k rfl hk
    obtain ⟨body', rfl, hshows, ⟨sp', hlex⟩, hstop⟩ := h.word hwhole hw (isIdentifier_of_upper rfl hk)
    refine ⟨body', hshows, ?_⟩
    obtain ⟨⟨name', rfl⟩, hgoes, -⟩ | ⟨-, hspecial⟩ := next_of_setRest hrest
    · left
      refine ⟨hgoes, ?_⟩
      have hlone := hfound (List.cons_ne_nil _ _)
      rwa [hlex, loneKeyword_blanks sp' (fun hkind => by cases hkind)
        (hshows.endsHere_of_word hgoes.apart hends hstop)] at hlone
    · exact .inr hspecial
  rw [classifySetBody, hw]
  dsimp only
  split_ifs with hlocal hrole hconstraints hsession hauth hchar htime hnames hschema hxml
  · -- the name begins with a word that would be taken for the scope
    exfalso
    have hscope : ∀ k ∈ ["LOCAL".toList, "TRANSACTION".toList], Text.toAsciiUppercase w = k → False := by
      intro k hk hupper
      have hletters : ∀ k ∈ ["LOCAL".toList, "TRANSACTION".toList],
          Text.Letters k ∧ k ∈ specialWords ∧ k ∉ specialFirst := by
        decide
      obtain ⟨hl, hmem, hnot⟩ := hletters k hk
      obtain ⟨body', -, ⟨-, hfree⟩ | hspecial⟩ := hkeyword k hupper hl
      · exact hfree hmem
      · exact hnot (hupper ▸ first_of_special hspecial)
    rcases hlocal with hupper | hupper
    · exact hscope _ (by decide) hupper
    · exact hscope _ (by decide) hupper
  · exact names_pin c _
  · exact names_pin c _
  · exact names_pin c _
  · exact names_pin c _
  · obtain ⟨body', hshows, ⟨hgoes, -⟩ | hspecial⟩ := hkeyword _ hsession (by decide)
    · rw [hshows.pinned_of_goes hgoes]
      exact names_pin c _
    · obtain ⟨v, more, rfl, hv | hv, hdot⟩ := second_of_special hspecial hsession
      · rw [hshows.pinned_of_keyword hv (by decide) hdot hauth]
        exact names_pin c _
      · rw [hshows.pinned_of_keyword hv (by decide) hdot hchar]
        exact names_pin c _
  · obtain ⟨body', hshows, ⟨hgoes, -⟩ | hspecial⟩ := hkeyword _ htime.1 (by decide)
    · exact absurd (upper_of_eqIgnoreAsciiCase htime.2) (second_of_goes hshows hgoes (by decide) (by decide))
    · exact names_special hspecial htime.1 (by decide)
  · obtain ⟨body', -, ⟨-, hfree⟩ | hspecial⟩ := hkeyword _ hnames (by decide)
    · exact absurd (by decide) hfree
    · exact names_special hspecial hnames (by decide)
  · obtain ⟨body', -, ⟨-, hfree⟩ | hspecial⟩ := hkeyword _ hschema (by decide)
    · exact absurd (by decide) hfree
    · exact names_special hspecial hschema (by decide)
  · obtain ⟨body', hshows, ⟨hgoes, -⟩ | hspecial⟩ := hkeyword _ hxml.1 (by decide)
    · exact absurd (upper_of_eqIgnoreAsciiCase hxml.2) (second_of_goes hshows hgoes (by decide) (by decide))
    · exact names_special hspecial hxml.1 (by decide)
  · refine names_setParameter h hrest hname hw ?_
    intro k hk
    simp only [List.mem_cons, List.not_mem_nil, or_false] at hk
    rcases hk with rfl | rfl | rfl | rfl
    · exact hnames
    · exact hschema
    · exact hrole
    · exact hsession

theorem quote_of_mem_lex {t : Text} : ∀ u ∈ lex standard t, u.kind = .quotedWord → u.raw.head? = some '"' := by
  refine Postgres.lex_forall standard (fun c t => ?_) t
  have hreads := Postgres.next_reads standard c t
  generalize Postgres.next standard c t = r at hreads
  cases hreads with
  | quotedWord => exact fun _ => rfl
  | _ => exact fun h => by cases h

theorem kind_of_keyword {u : Token} {k : Text} (h : u.keyword = k) (hk : k ≠ []) : u.kind = .word := by
  unfold Token.keyword at h
  split at h
  · assumption
  · exact absurd h.symm hk

theorem kind_of_colId {u : Token} {n : Text} (h : u.colId = some n) : u.kind = .word ∨ u.kind = .quotedWord := by
  unfold Token.colId Token.name at h
  split_ifs at h
  match hkind : u.kind with
  | .word => exact .inl rfl
  | .quotedWord => exact .inr rfl
  | .space | .comment | .string | .escapeString | .dollarString | .number | .param | .symbol =>
      rw [hkind] at h
      cases h

/-- The first token of a name is apart. -/
theorem apart_of_colId {t : Text} {u : Token} {n : Text} (hu : u ∈ lex standard t) (hn : u.colId = some n)
    (hword : u.kind = .word → Text.Unbroken u.raw) : Apart u := by
  have hkind := kind_of_colId hn
  have hstarts := Postgres.starts_of_mem_lex u hu
  refine ⟨?_, ?_⟩
  · match hraw : u.raw with
    | [] => exact absurd hraw hstarts.head
    | c :: raw =>
        have hhead : u.raw.head? = some c := by rw [hraw]; rfl
        refine ⟨c, List.mem_cons_self, ?_, ?_⟩
        · rcases hkind with hkind | hkind
          · exact hword hkind c (List.mem_of_mem_head? hhead)
          · have hquote := quote_of_mem_lex u hu hkind
            rw [hhead] at hquote
            cases hquote
            decide
        · rintro rfl
          have hsemi := hstarts.semicolon hhead
          rw [Token.isSemicolon, Bool.and_eq_true, decide_eq_true_eq] at hsemi
          rcases hkind with hkind | hkind <;> rw [hsemi.1] at hkind <;> cases hkind
  · rw [Token.isSymbol]
    rcases hkind with hkind | hkind <;> rw [hkind] <;> rfl

theorem not_dot_of_setRest {body name : List Token} {c : Change} (h : SetRest body name c) :
    ∀ o ∈ body.head?, o.isSymbol '.' = false := by
  intro o ho
  obtain ⟨ts, rfl⟩ := List.head?_eq_some_iff.mp ho
  refine Bool.eq_false_iff.mpr fun hdot => ?_
  obtain ⟨-, -, n, hn⟩ | ⟨-, hspecial⟩ := next_of_setRest h
  · exact colId_symbol hdot hn
  · have hfirst := first_of_special hspecial
    rw [keyword_of_symbol hdot] at hfirst
    exact absurd hfirst (by decide)

/-- `SESSION` in front is passed over. -/
theorem names_setSession {t tail statement : Text} {s : Token} {body fin name : List Token} {c : Change}
    (h : Shows standard t tail (s :: body) fin) (hs : s.keyword = "SESSION".toList) (hrest : SetRest body name c)
    (hname : ∀ u ∈ name, u.kind = .word → Text.Unbroken u.raw)
    (hfound : name ≠ [] → loneKeyword (lex standard (t ++ tail)) = "SESSION".toList →
      loneKeyword (behindFirst (lex standard (t ++ tail))) ∉ specialWords) (fuel : ℕ) :
    Names c (classifySetBody fuel statement t) := by
  obtain ⟨w, rest, hw⟩ : ∃ w rest, takeWord t = (w, rest) := ⟨_, _, rfl⟩
  obtain ⟨sp, -, -, -, hends⟩ := takeWord_spec hw
  have hwhole := whole_of_keyword hs (by decide) body
  cases hident : isIdentifier w with
  | false =>
      rw [pinned_of_odd hw hident (h.odd_of_next hwhole hw hident (not_dot_of_setRest hrest))]
      exact names_pin c _
  | true =>
      obtain ⟨body', heq, hshows, ⟨sp', hlex⟩, hstop⟩ := h.word hwhole hw hident
      obtain ⟨rfl, rfl⟩ := List.cons.inj heq
      have hupper : Text.toAsciiUppercase w = "SESSION".toList := hs
      cases fuel with
      | zero => exact names_pin c _
      | succ fuel =>
          rw [classifySetBody, hw]
          dsimp only
          rw [hupper, if_neg (by decide), if_neg (by decide), if_neg (by decide), if_pos rfl]
          split_ifs
          · exact names_pin c _
          · exact names_pin c _
          · refine names_setBody hshows hrest hname (fun hne => ?_) fuel
            have hapart : ∀ u ∈ body.head?, Apart u := by
              intro u hu
              obtain ⟨ts, rfl⟩ := List.head?_eq_some_iff.mp hu
              obtain ⟨⟨name', rfl⟩, -, n, hn⟩ | ⟨rfl, -⟩ := next_of_setRest hrest
              · have hmem : u ∈ significant (lex standard (rest ++ tail)) := by
                  rw [hshows.tokens]
                  exact List.mem_cons_self
                exact apart_of_colId (List.mem_of_mem_filter hmem) hn (hname u List.mem_cons_self)
              · exact absurd rfl hne
            have hkind : (⟨.word, w⟩ : Token).kind ≠ .space := fun h => by cases h
            have hlone := loneKeyword_blanks sp' hkind (hshows.endsHere_of_word hapart hends hstop)
            have hsecond := hfound hne (by rw [hlex, hlone]; exact hupper)
            rwa [hlex, behindFirst, dropWhile_blanks sp' hkind, List.tail_cons] at hsecond

/-! ## `RESET` -/

theorem isParameterName_of_isIdentifier {w : Text} (h : isIdentifier w = true) : isParameterName w = true := by
  have hdot : ∀ c ∈ w, (c == '.') = false := by
    intro c hc
    refine beq_eq_false_iff_ne.mpr ?_
    rintro rfl
    exact absurd (isIdentCont_of_mem h '.' hc) (by decide)
  have hsplit : w.splitOn '.' = [w] := List.splitOnP_eq_singleton hdot
  rw [isParameterName, hsplit]
  exact h

/-- White space behind what could be the whole name, and a dot behind it. -/
theorem breaksName_blanks (sp : Text) {run more : List Token} {v : Token} (hrun : ∀ u ∈ run, u.kind ≠ .space)
    (hne : run ≠ []) (hv : v.kind = .space) (hparam : isParameterName (raws run) = true)
    (htime : Text.toAsciiUppercase (raws run) ≠ "TIME".toList)
    (hdot : (significant (v :: more)).head?.any (·.isSymbol '.') = true) :
    breaksName (blanks sp ++ (run ++ v :: more)) = true := by
  have hbehind : (blanks sp ++ (run ++ v :: more)).dropWhile (·.kind = .space) = run ++ v :: more := by
    match run with
    | [] => exact absurd rfl hne
    | u :: run => exact dropWhile_blanks sp (hrun u List.mem_cons_self) (run ++ v :: more)
  have hpos : ∀ u ∈ run, decide (u.kind ≠ .space) = true := fun u hu => decide_eq_true (hrun u hu)
  have hneg : ¬ (fun u : Token => decide (u.kind ≠ .space)) v = true := by simp [hv]
  have htake : (run ++ v :: more).takeWhile (·.kind ≠ .space) = run := by
    rw [List.takeWhile_append_of_pos hpos, List.takeWhile_cons_of_neg (p := fun u : Token => decide (u.kind ≠ .space)) hneg,
      List.append_nil]
  have hdrop : (run ++ v :: more).dropWhile (·.kind ≠ .space) = v :: more := by
    rw [List.dropWhile_append_of_pos hpos, List.dropWhile_cons_of_neg (p := fun u : Token => decide (u.kind ≠ .space)) hneg]
  rw [breaksName, hbehind, htake, hdrop, hparam, hdot, Bool.true_and, Bool.and_true]
  exact decide_eq_true htime

/-- The first word is the whole name, where nothing breaks it. -/
theorem name_of_reset {t tail w rest : Text} {body fin : List Token} {n : Text} (h : Shows standard t tail body fin)
    (hvar : VarName body n) (hname : ∀ u ∈ body, u.kind = .word → Text.Unbroken u.raw) (hw : takeWord t = (w, rest))
    (hparam : isParameterName w = true) (htime : Text.toAsciiUppercase w ≠ "TIME".toList)
    (hbreaks : breaksName (lex standard (t ++ tail)) = false) : n = Text.toAsciiLowercase w := by
  have hwhole : Whole body := by
    intro u hu
    exact hname u (List.mem_of_mem_head? hu)
  obtain ⟨sp, -, -, -, hends⟩ := takeWord_spec hw
  -- a dot behind the word would have white space in front
  have hdotted : ∀ {run : List Token} {d : Token} {ts : List Token}, Shows standard rest tail (d :: ts) fin →
      d.isSymbol '.' = true → (∀ c ∈ (rest ++ tail).head?, Postgres.isIdentCont c = false) →
      (∃ sp', lex standard (t ++ tail) = blanks sp' ++ (run ++ lex standard (rest ++ tail))) → raws run = w →
      (∀ u ∈ run, u.kind ≠ .space) → run ≠ [] → False := by
    intro run d ts hshows hd hstop ⟨sp', hlex⟩ hraws hrun hne
    obtain ⟨v, more, hmore, hspace | ⟨heq, rfl⟩⟩ := hshows.behind_word (apart_of_symbol hd (by decide)) hends hstop
    · have htokens := hshows.tokens
      rw [hmore] at htokens
      have hdot : (significant (v :: more)).head?.any (·.isSymbol '.') = true := by
        rw [htokens]
        exact hd
      have hbroken := breaksName_blanks sp' hrun hne hspace (by rw [hraws]; exact hparam) (by rw [hraws]; exact htime) hdot
      rw [← hmore, ← hlex, hbreaks] at hbroken
      cases hbroken
    · exact absurd (symbol_unique hd heq) (by decide)
  obtain hident | ⟨a, b, rfl, ha, hb⟩ := isParameterName_cases hparam
  · obtain ⟨body', rfl, hshows, ⟨sp', hlex⟩, hstop⟩ := h.word hwhole hw hident
    cases hvar with
    | colId ht => exact (colId_word ht).1
    | dot ht hd hts =>
        refine (@hdotted [⟨.word, w⟩] _ _ hshows hd hstop ⟨sp', hlex⟩ ?_ ?_ (List.cons_ne_nil _ _)).elim
        · simp [raws]
        · simp
  · obtain ⟨third, body', rfl, hkind, hthird⟩ := h.dotted hwhole hw ha hb
    obtain ⟨rfl, hshows, ⟨sp', hlex⟩, hstop⟩ := hthird (hname _ (by simp) hkind)
    cases hvar with
    | dot ht hd hts =>
        cases hts with
        | colId ht' =>
            rw [(colId_word ht).1, (colId_word ht').1]
            simp [Text.toAsciiLowercase]
        | dot ht' hd' hts' =>
            refine (@hdotted [⟨.word, a⟩, ⟨.symbol, ['.']⟩, ⟨.word, b⟩] _ _ hshows hd' hstop ⟨sp', hlex⟩ ?_ ?_
              (List.cons_ne_nil _ _)).elim
            · simp [raws]
            · simp

/-- What stands behind `RESET`. -/
theorem cases_of_reset {k : Token} {body name : List Token} {c : Change} (h : Changes (k :: body) name c)
    (hk : k.keyword = "RESET".toList) :
    (∃ n, name = body ∧ VarName body n ∧ c = .reset n) ∨
      (∃ a, body = [a] ∧ a.keyword = "ALL".toList ∧ c = .resetAll) ∨
      (∃ t z, body = [t, z] ∧ t.keyword = "TIME".toList ∧ z.keyword = "ZONE".toList ∧ c = .reset "timezone".toList) ∨
      ∃ s a, body = [s, a] ∧ s.keyword = "SESSION".toList ∧ a.keyword = "AUTHORIZATION".toList ∧
        c = .reset "session_authorization".toList := by
  cases h with
  | set hset | setSession hset =>
      rw [hset] at hk
      exact absurd hk (by decide)
  | reset _ h => exact .inl ⟨_, rfl, h, rfl⟩
  | resetAll _ ha => exact .inr (.inl ⟨_, rfl, ha, rfl⟩)
  | resetTimeZone _ ht hz => exact .inr (.inr (.inl ⟨_, _, rfl, ht, hz, rfl⟩))
  | resetSession _ hs ha => exact .inr (.inr (.inr ⟨_, _, rfl, hs, ha, rfl⟩))

theorem colId_of_varName {u : Token} {ts : List Token} {n : Text} (h : VarName (u :: ts) n) : ∃ m, u.colId = some m := by
  cases h with
  | colId h => exact ⟨_, h⟩
  | dot h => exact ⟨_, h⟩

/-- **What stands behind `RESET` is named or pinned**, where its first word is the whole name. -/
theorem names_reset {t tail : Text} {k : Token} {body fin name : List Token} {c : Change}
    (h : Shows standard t tail body fin) (hk : k.keyword = "RESET".toList) (hc : Changes (k :: body) name c)
    (hname : ∀ u ∈ name, u.kind = .word → Text.Unbroken u.raw)
    (hfound : name ≠ [] → loneKeyword (lex standard (t ++ tail)) ≠ "SESSION".toList ∧
      breaksName (lex standard (t ++ tail)) = false) : Names c (classifyResetBody t) := by
  obtain ⟨w, rest, hw⟩ : ∃ w rest, takeWord t = (w, rest) := ⟨_, _, rfl⟩
  obtain ⟨sp, -, -, -, hends⟩ := takeWord_spec hw
  have hcases := cases_of_reset hc hk
  have hwhole : Whole body := by
    obtain ⟨n, rfl, -⟩ | ⟨a, rfl, ha, -⟩ | ⟨t, z, rfl, ht, -⟩ | ⟨s, a, rfl, hs, -⟩ := hcases
    · exact fun u hu => hname u (List.mem_of_mem_head? hu)
    · exact whole_of_keyword ha (by decide) _
    · exact whole_of_keyword ht (by decide) _
    · exact whole_of_keyword hs (by decide) _
  have hne : ∀ {n : Text}, VarName body n → body ≠ [] := by
    rintro n hvar rfl
    cases hvar
  -- a keyword is the first token
  have hkeyword : ∀ k, Text.toAsciiUppercase w = k → Text.Letters k →
      ∃ body', body = ⟨.word, w⟩ :: body' ∧ Shows standard rest tail body' fin := by
    rintro k rfl hk
    obtain ⟨body', rfl, hshows, -⟩ := h.word hwhole hw (isIdentifier_of_upper rfl hk)
    exact ⟨body', rfl, hshows⟩
  -- a name is the first word
  have hwhole_name : ∀ n, name = body → VarName body n → c = .reset n → isParameterName w = true →
      Text.toAsciiUppercase w ≠ "TIME".toList → Names c (.reset (Text.toAsciiLowercase w)) := by
    rintro n rfl hvar rfl hparam htime
    exact (name_of_reset h hvar hname hw hparam htime (hfound (hne hvar)).2).symm
  rw [classifyResetBody, hw]
  dsimp only
  split_ifs with hall hrole hsession htime hzone hparam
  · obtain ⟨body', rfl, -⟩ := hkeyword _ hall (by decide)
    obtain ⟨n, rfl, hvar, rfl⟩ | ⟨a, -, -, rfl⟩ | ⟨t, z, heq, ht, -⟩ | ⟨s, a, heq, hs, -⟩ := hcases
    · obtain ⟨m, hm⟩ := colId_of_varName hvar
      exact absurd (hall ▸ (by decide : "ALL".toList ∈ Postgres.reserved)) (colId_word hm).2
    · trivial
    · obtain ⟨rfl, -⟩ := List.cons.inj heq
      exact absurd (hall.symm.trans ht) (by decide)
    · obtain ⟨rfl, -⟩ := List.cons.inj heq
      exact absurd (hall.symm.trans hs) (by decide)
  · have hlower : Text.toAsciiLowercase w = "role".toList := by
      rw [← Text.toAsciiLowercase_uppercase, hrole]
      decide
    obtain ⟨body', hbody, -⟩ := hkeyword _ hrole (by decide)
    obtain ⟨n, hn, hvar, hc⟩ | ⟨a, heq, ha, -⟩ | ⟨t, z, heq, ht, -⟩ | ⟨s, a, heq, hs, -⟩ := hcases
    · have hident := isIdentifier_of_upper hrole (by decide)
      have hnames := hwhole_name n hn hvar hc (isParameterName_of_isIdentifier hident) (by rw [hrole]; decide)
      rwa [hlower] at hnames
    · obtain ⟨rfl, -⟩ := List.cons.inj (hbody.symm.trans heq)
      exact absurd (hrole.symm.trans ha) (by decide)
    · obtain ⟨rfl, -⟩ := List.cons.inj (hbody.symm.trans heq)
      exact absurd (hrole.symm.trans ht) (by decide)
    · obtain ⟨rfl, -⟩ := List.cons.inj (hbody.symm.trans heq)
      exact absurd (hrole.symm.trans hs) (by decide)
  · obtain ⟨body', rfl, hshows, ⟨sp', hlex⟩, hstop⟩ :=
      h.word hwhole hw (isIdentifier_of_upper hsession (by decide))
    obtain ⟨n, rfl, hvar, rfl⟩ | ⟨a, heq, ha, -⟩ | ⟨t, z, heq, ht, -⟩ | ⟨s, a, -, -, -, rfl⟩ := hcases
    · -- the word would be the keyword of another statement
      have hapart : ∀ u ∈ body'.head?, Apart u := by
        intro u hu
        cases hvar with
        | colId => cases hu
        | dot ht hd hts =>
            obtain rfl := Option.some.inj hu
            exact apart_of_symbol hd (by decide)
      refine absurd ?_ (hfound (List.cons_ne_nil _ _)).1
      rw [hlex, loneKeyword_blanks sp' (fun h => by cases h) (hshows.endsHere_of_word hapart hends hstop)]
      exact hsession
    · obtain ⟨rfl, -⟩ := List.cons.inj heq
      exact absurd (hsession.symm.trans ha) (by decide)
    · obtain ⟨rfl, -⟩ := List.cons.inj heq
      exact absurd (hsession.symm.trans ht) (by decide)
    · rfl
  · obtain ⟨body', rfl, hshows⟩ := hkeyword _ htime (by decide)
    have hupper := upper_of_eqIgnoreAsciiCase hzone
    have hsecond : Whole body' → ∃ more, body' = ⟨.word, (takeWord rest).1⟩ :: more := by
      intro hwhole'
      obtain ⟨more, heq, -⟩ := @Shows.word standard rest tail _ (takeWord rest).2 body' fin hshows hwhole' rfl
        (isIdentifier_of_upper hupper (by decide))
      exact ⟨more, heq⟩
    obtain ⟨n, rfl, hvar, rfl⟩ | ⟨a, heq, ha, -⟩ | ⟨t, z, -, -, -, rfl⟩ | ⟨s, a, heq, hs, -⟩ := hcases
    · exfalso
      cases hvar with
      | colId ht =>
          obtain ⟨more, heq⟩ := hsecond fun u hu => by cases hu
          cases heq
      | dot ht hd hts =>
          obtain ⟨more, heq⟩ := hsecond (whole_of_symbol hd _)
          obtain ⟨rfl, -⟩ := List.cons.inj heq
          cases hd
    · obtain ⟨rfl, -⟩ := List.cons.inj heq
      exact absurd (htime.symm.trans ha) (by decide)
    · rfl
    · obtain ⟨rfl, -⟩ := List.cons.inj heq
      exact absurd (htime.symm.trans hs) (by decide)
  · exact names_pin c _
  · -- statements that give no name have two tokens at most
    have hfirst : ∀ u more, body = u :: more → more.length ≤ 1 → u.keyword = Text.toAsciiUppercase w := by
      rintro u more rfl hlength
      obtain hident | ⟨a, b, rfl, ha, hb⟩ := isParameterName_cases hparam
      · obtain ⟨body', heq, -⟩ := h.word hwhole hw hident
        obtain ⟨rfl, -⟩ := List.cons.inj heq
        rfl
      · obtain ⟨third, body', heq, -⟩ := h.dotted hwhole hw ha hb
        obtain ⟨-, rfl⟩ := List.cons.inj heq
        simp at hlength
    obtain ⟨n, hn, hvar, hc⟩ | ⟨a, heq, ha, -⟩ | ⟨t, z, heq, ht, -⟩ | ⟨s, a, heq, hs, -⟩ := hcases
    · exact hwhole_name n hn hvar hc hparam htime
    · exact absurd ((hfirst _ _ heq (by simp)).symm.trans ha) hall
    · exact absurd ((hfirst _ _ heq (by simp)).symm.trans ht) htime
    · exact absurd ((hfirst _ _ heq (by simp)).symm.trans hs) hsession
  · exact names_pin c _

/-! ## The statement -/

theorem strip_noise {s : Text} (hnoise : noiseRead standard (lex standard s) = true)
    (hfirst : ∀ c ∈ (raws (core (lex standard s))).head?, isWhitespace c = false) :
    stripLeadingNoise s = raws (core (lex standard s)) := by
  induction s using Postgres.lex_induction standard with
  | nil => rfl
  | cons c t ih =>
      have hreads := Postgres.next_reads standard c t
      have hraws := hreads.append
      rw [Postgres.lex_cons] at hnoise hfirst ⊢
      by_cases hsep : (Postgres.next standard c t).1.isSeparator = true
      · have hcore : core ((Postgres.next standard c t).1 :: lex standard (Postgres.next standard c t).2) =
            core (lex standard (Postgres.next standard c t).2) := List.dropWhile_cons_of_pos hsep
        rw [noiseRead, hsep, Postgres.lex_raw] at hnoise
        simp only [Bool.not_true, Bool.false_or, Bool.and_eq_true] at hnoise
        rw [hcore] at hfirst ⊢
        rw [← ih hnoise.2 hfirst, ← hraws]
        exact strip_separator (v := []) hreads (List.append_nil _) hsep hnoise.1.2 hnoise.1.1
      · have hcore : core ((Postgres.next standard c t).1 :: lex standard (Postgres.next standard c t).2) =
            (Postgres.next standard c t).1 :: lex standard (Postgres.next standard c t).2 := List.dropWhile_cons_of_neg hsep
        obtain ⟨hdash, hslash⟩ := not_comment hreads (Bool.eq_false_iff.mpr hsep)
        rw [hcore, Postgres.raws_cons, Postgres.lex_raw, hraws] at hfirst ⊢
        exact strip_text (hfirst c rfl) hdash hslash

theorem core_of_significant {ts more : List Token} {k : Token} (h : significant ts = k :: more) :
    ∃ behind, core ts = k :: behind ∧ significant behind = more := by
  induction ts with
  | nil => cases h
  | cons t ts ih =>
      by_cases hsep : t.isSeparator = true
      · rw [Postgres.significant_cons_of_separator hsep] at h
        obtain ⟨behind, hcore, hmore⟩ := ih h
        exact ⟨behind, (List.dropWhile_cons_of_pos hsep).trans hcore, hmore⟩
      · rw [Postgres.significant_cons (Bool.eq_false_iff.mpr hsep)] at h
        obtain ⟨rfl, hmore⟩ := List.cons.inj h
        exact ⟨ts, List.dropWhile_cons_of_neg hsep, hmore⟩

theorem split_of_core {ts behind : List Token} {k : Token} (h : core ts = k :: behind) :
    ts = ts.takeWhile Token.isSeparator ++ k :: behind := by
  rw [← h]
  exact List.takeWhile_append_dropWhile.symm

/-- The letters of a keyword end no word, and nothing cuts them off. -/
theorem letters_of_keyword {k : Token} {K : Text} (hk : k.keyword = K) (hletters : Text.Letters K) :
    (∀ c ∈ k.raw, endsWord c = false) ∧ ∀ c ∈ k.raw.getLast?, isWhitespace c = false ∧ c ≠ ';' := by
  have hupper := Postgres.upper_of_keyword hk hletters.1
  have halpha : ∀ c ∈ k.raw, isAsciiAlphabetic c = true := fun c hc =>
    Text.isAsciiAlphabetic_of_toUpper (hletters.2 _ (by rw [← hupper]; exact List.mem_map_of_mem hc))
  have hends : ∀ c ∈ k.raw, endsWord c = false := fun c hc => endsWord_of_letter (halpha c hc)
  refine ⟨hends, fun c hc => ⟨?_, ?_⟩⟩
  · have hnot := hends c (List.mem_of_getLast? hc)
    simp only [endsWord, Bool.or_eq_false_iff] at hnot
    exact hnot.1.1
  · rintro rfl
    exact absurd (halpha _ (List.mem_of_getLast? hc)) (by decide)

theorem strip_keyword {s K : Text} {k : Token} {behind : List Token} (hcore : core (lex standard s) = k :: behind)
    (hk : k.keyword = K) (hletters : Text.Letters K) (hnoise : noiseRead standard (lex standard s) = true) :
    stripLeadingNoise s = k.raw ++ raws behind := by
  have hfirst : ∀ c ∈ (raws (core (lex standard s))).head?, isWhitespace c = false := by
    intro c hc
    rw [hcore, Postgres.raws_cons, List.head?_append_of_ne_nil _ (Postgres.raw_ne_of_keyword hk hletters.1)] at hc
    have hends := (letters_of_keyword hk hletters).1 c (List.mem_of_mem_head? hc)
    simp only [endsWord, Bool.or_eq_false_iff] at hends
    exact hends.1.1
  rw [strip_noise hnoise hfirst, hcore, Postgres.raws_cons]

/-- The classified text begins with the keyword. -/
theorem normalize_keyword {s K : Text} {k : Token} {behind : List Token} (hcore : core (lex standard s) = k :: behind)
    (hk : k.keyword = K) (hletters : Text.Letters K) (hnoise : noiseRead standard (lex standard s) = true) :
    ∃ R tail, normalizeStatement s = k.raw ++ R ∧ raws behind = R ++ tail ∧ IsEnd tail := by
  obtain ⟨tail, hsplit, htail⟩ := normalizeStatement_end s
  rw [strip_keyword hcore hk hletters hnoise] at hsplit
  obtain ⟨R, hR, hraws⟩ := kept_of_solid hsplit htail (letters_of_keyword hk hletters).2
  exact ⟨R, tail, hR, hraws, htail⟩

/-- The keyword of a legible statement is its first word, and what is left shows the rest of it. -/
theorem shows_of_legible {s K : Text} {k : Token} {body name : List Token} (hs : Single standard s (k :: body))
    (hk : k.keyword = K) (hletters : Text.Letters K) (h : Readable standard s name)
    (hspaced : (core (lex standard s)).tail.head?.all (·.kind = .space) = true) :
    ∃ R tail fin behind, core (lex standard s) = k :: behind ∧ takeWord (normalizeStatement s) = (k.raw, R) ∧
      lex standard (R ++ tail) = behind ∧ Shows standard R tail body fin := by
  obtain ⟨⟨fin, hsig, hfin⟩, -⟩ := hs
  obtain ⟨behind, hcore, hbehind⟩ := core_of_significant hsig
  obtain ⟨R, tail, hR, hraws, htail⟩ := normalize_keyword hcore hk hletters h.noise
  have hlead := split_of_core hcore
  have hlex : lex standard (R ++ tail) = behind := by
    rw [← hraws]
    exact Postgres.lex_behind hlead
  have hhead : ∀ c ∈ R.head?, endsWord c = true := by
    intro c hc
    obtain ⟨R', rfl⟩ := List.head?_eq_some_iff.mp hc
    rw [hcore, List.tail_cons, ← hlex, List.cons_append, Postgres.lex_cons] at hspaced
    have hkind : (Postgres.next standard c (R' ++ tail)).1.kind = .space := by simpa using hspaced
    obtain ⟨d, hraw, hd⟩ := (Postgres.next_reads standard c (R' ++ tail)).spaced hkind
    have hc' := (Postgres.next_reads standard c (R' ++ tail)).head
    rw [hraw] at hc'
    obtain rfl : d = c := Option.some.inj hc'
    rw [endsWord, Postgres.isWhitespace_of_isSpace hd]
    rfl
  refine ⟨R, tail, fin, behind, hcore, ?_, hlex, ⟨htail, hfin, by rw [hlex, hbehind]; rfl, fun u hu => h.values u ?_⟩⟩
  · rw [hR]
    have hnil : ∀ c ∈ ([] : Text), isWhitespace c = true := fun c hc => absurd hc List.not_mem_nil
    exact takeWord_word hnil (Postgres.raw_ne_of_keyword hk hletters.1) (letters_of_keyword hk hletters).1 hhead
  · rw [hlead]
    exact List.mem_append_right _ (List.mem_cons_of_mem k (hlex ▸ hu))

theorem classifySet_of_word {s w rest K : Text} (hw : takeWord (normalizeStatement s) = (w, rest))
    (hupper : Text.toAsciiUppercase w = K) (hK : K ≠ []) :
    classifySet s =
      if K = "SET".toList then classifySetBody (rest.length + 1) (normalizeStatement s) rest
      else if K = "RESET".toList then classifyResetBody rest else .none := by
  have hempty : ¬ (normalizeStatement s).isEmpty = true := by
    intro hempty
    rw [List.isEmpty_iff.mp hempty] at hw
    obtain ⟨rfl, -⟩ := Prod.mk.inj hw
    exact hK hupper.symm
  rw [classifySet]
  dsimp only
  rw [if_neg hempty, hw, hupper]

/-- **`classify_set` names the parameter the statement changes**, or pins, where the words it goes by are the tokens of
the statement: PostgreSQL agrees on what stands in front of the keyword, white space stands behind it, no white space
beyond ASCII is in the name, and the first word is neither taken for something else nor for a name that goes on. -/
theorem named_of_legible (standard : Bool) {s : Text} {statement name : List Token} {c : Change}
    (hs : Single standard s statement) (hc : Changes statement name c) (h : Legible standard s name) :
    Names c (classifySet s) := by
  match statement with
  | [] => cases hc
  | k :: body =>
      have hkeyword : k.keyword = "SET".toList ∨ k.keyword = "RESET".toList := by
        cases hc with
        | set hk | setSession hk => exact .inl hk
        | reset hk | resetAll hk | resetTimeZone hk | resetSession hk => exact .inr hk
      rcases hkeyword with hk | hk
      · obtain ⟨R, tail, fin, behind, hcore, hword, hlex, hshows⟩ := shows_of_legible hs hk (by decide) h.toReadable h.spaced
        rw [classifySet_of_word hword (Postgres.upper_of_keyword hk (by decide)) (by decide), if_pos rfl]
        have hfound : name ≠ [] → loneKeyword (lex standard (R ++ tail)) ∉ specialWords ∧
            (loneKeyword (lex standard (R ++ tail)) = "SESSION".toList →
              loneKeyword (behindFirst (lex standard (R ++ tail))) ∉ specialWords) := by
          intro hne
          have hfound := h.found hne
          rw [hcore, mistaken, if_pos hk, Bool.or_eq_false_iff, Bool.and_eq_false_iff, decide_eq_false_iff_not,
            decide_eq_false_iff_not, decide_eq_false_iff_not] at hfound
          rw [hlex]
          exact ⟨hfound.1, fun hsession => hfound.2.resolve_left fun hnot => hnot hsession⟩
        generalize hstatement : k :: body = statement at hc
        cases hc with
        | set _ hrest =>
            obtain ⟨-, rfl⟩ := List.cons.inj hstatement
            exact names_setBody hshows hrest h.unbroken (fun hne => (hfound hne).1) _
        | setSession _ hsession hrest =>
            obtain ⟨-, rfl⟩ := List.cons.inj hstatement
            exact names_setSession hshows hsession hrest h.unbroken (fun hne => (hfound hne).2) _
        | reset hk' | resetAll hk' | resetTimeZone hk' | resetSession hk' =>
            obtain ⟨rfl, -⟩ := List.cons.inj hstatement
            exact absurd (hk.symm.trans hk') (by decide)
      · obtain ⟨R, tail, fin, behind, hcore, hword, hlex, hshows⟩ := shows_of_legible hs hk (by decide) h.toReadable h.spaced
        rw [classifySet_of_word hword (Postgres.upper_of_keyword hk (by decide)) (by decide), if_neg (by decide), if_pos rfl]
        refine names_reset hshows hk hc h.unbroken fun hne => ?_
        have hfound := h.found hne
        rw [hcore, mistaken, if_neg (by rw [hk]; decide), Bool.or_eq_false_iff, decide_eq_false_iff_not] at hfound
        rw [hlex]
        exact hfound

end Havuz.Sql
