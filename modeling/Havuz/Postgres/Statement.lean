import Havuz.Postgres.Lexer
import Havuz.Words

/-!
# Statements as tokens

What the grammar of PostgreSQL goes by: keywords, in any case, and names, with white space and comments between them.
-/

namespace Havuz.Postgres

/-- White space or a comment. -/
def Token.isSeparator (t : Token) : Bool := t.kind = .space || t.kind = .comment

/-- The keyword an unquoted word can be. Nothing else is one. -/
def Token.keyword (t : Token) : Text := if t.kind = .word then Text.toAsciiUppercase t.raw else []

/-- A quoted name without what escapes its quotes. -/
def unquote : Text → Text
  | '"' :: '"' :: t => '"' :: unquote t
  | c :: t => c :: unquote t
  | [] => []

/-- The name a word stands for: in lower case, unless it is quoted. -/
def Token.name (t : Token) : Option Text :=
  match t.kind with
  | .word => some (Text.toAsciiLowercase t.raw)
  | .quotedWord => some (unquote t.raw.tail.dropLast)
  | _ => none

/-- The tokens that are not separators. -/
def significant (tokens : List Token) : List Token := tokens.filter fun t => !t.isSeparator

/-- What is left behind the leading separators. -/
def core (tokens : List Token) : List Token := tokens.dropWhile Token.isSeparator

/-- The statement starts with these keywords, each of them in front of white space, with nothing else between them, or
at the end. -/
def spelled : List Text → List Token → Bool
  | [], _ => true
  | _ :: _, [] => false
  | k :: ks, t :: ts =>
      t.keyword = k && ts.head?.all (·.kind = .space) && spelled ks (ts.dropWhile (·.kind = .space))

/-- The token is this one character. -/
def Token.isSymbol (t : Token) (c : Char) : Bool := t.kind = .symbol && t.raw = [c]

/-- What may stand behind the last token of a statement. -/
def AtEnd (fin : List Token) : Prop := fin = [] ∨ ∃ semi, fin = [semi] ∧ semi.isSemicolon = true

/-- The text is one statement, with or without a semicolon at its end: these are its tokens. -/
def Single (standard : Bool) (t : Text) (statement : List Token) : Prop :=
  (∃ fin, significant (lex standard t) = statement ++ fin ∧ AtEnd fin) ∧ ∀ tok ∈ statement, tok.isSemicolon = false

/-! ## What is read -/

variable {standard : Bool}

/-- A space is one character. -/
def Token.Spaced (t : Token) : Prop := t.kind = .space → ∃ c, t.raw = [c] ∧ isSpace c = true

theorem Reads.spaced {c : Char} {t : Text} {r : Token × Text} (h : Reads standard c t r) : r.1.Spaced := by
  intro hkind
  cases h with
  | space hc => exact ⟨c, rfl, hc⟩
  | _ => cases hkind

theorem spaced_of_mem_lex {t : Text} : ∀ tok ∈ lex standard t, tok.Spaced :=
  lex_forall standard (fun c t => (next_reads standard c t).spaced) t

/-- What stands behind a piece: nothing, or the semicolon it was cut at. -/
def IsTail (tail : List Token) : Prop := tail = [] ∨ ∃ t rest, tail = t :: rest ∧ t.isSemicolon = true

/-- The tokens of a statement stand together in the text. -/
theorem mem_cut {cur tokens st : List Token} (h : st ∈ cut cur tokens) :
    ∃ pre tail, cur.reverse ++ tokens = pre ++ (st ++ tail) ∧ IsTail tail := by
  induction tokens generalizing cur with
  | nil =>
      rw [cut] at h
      split at h
      case isTrue => cases h
      case isFalse =>
        rw [List.mem_singleton] at h
        exact ⟨[], [], by rw [h]; rfl, .inl rfl⟩
  | cons t tokens ih =>
      rw [cut] at h
      split at h
      case isTrue hsemi =>
        obtain h | h := List.mem_cons.mp h
        · exact ⟨[], t :: tokens, by rw [h]; rfl, .inr ⟨t, tokens, rfl, hsemi⟩⟩
        · obtain ⟨pre, tail, heq, htail⟩ := ih h
          rw [List.reverse_nil, List.nil_append] at heq
          exact ⟨cur.reverse ++ t :: pre, tail, by rw [heq]; simp, htail⟩
      case isFalse =>
        obtain ⟨pre, tail, heq, htail⟩ := ih h
        exact ⟨pre, tail, by rw [← heq]; simp, htail⟩

/-- The tokens from one on are the tokens of the text from there on. -/
theorem lex_suffix {t : Text} {pre rest : List Token} (h : lex standard t = pre ++ rest) : lex standard (raws rest) = rest := by
  induction t using lex_induction standard generalizing pre with
  | nil =>
      obtain ⟨-, rfl⟩ := List.append_eq_nil_iff.mp h.symm
      rfl
  | cons c t ih =>
      match pre with
      | [] =>
          rw [List.nil_append] at h
          rw [← h, lex_raw]
      | tok :: pre =>
          rw [lex_cons, List.cons_append] at h
          exact ih (List.cons.inj h).2

/-- The tokens behind one are the tokens of the text behind it. -/
theorem lex_behind {t : Text} {pre rest : List Token} {k : Token} (h : lex standard t = pre ++ k :: rest) :
    lex standard (raws rest) = rest := by
  rw [← List.singleton_append, ← List.append_assoc] at h
  exact lex_suffix h

theorem mem_statements {sql : Text} {st : List Token} (h : st ∈ statements standard sql) :
    ∃ pre tail, lex standard sql = pre ++ (st ++ tail) ∧ lex standard (raws (st ++ tail)) = st ++ tail ∧ IsTail tail := by
  obtain ⟨pre, tail, heq, htail⟩ := mem_cut h
  rw [List.reverse_nil, List.nil_append] at heq
  exact ⟨pre, tail, heq, lex_suffix heq, htail⟩

theorem spaced_of_mem_statements {sql : Text} {st : List Token} (h : st ∈ statements standard sql) :
    ∀ tok ∈ st, tok.Spaced := by
  obtain ⟨pre, tail, heq, -⟩ := mem_statements h
  intro tok htok
  refine spaced_of_mem_lex tok (?_ : tok ∈ lex standard sql)
  rw [heq]
  exact List.mem_append_right pre (List.mem_append_left tail htok)

/-- What the first character says of a token. -/
structure Token.Starts (t : Token) : Prop where
  head : t.raw ≠ []
  space : ∀ c ∈ t.raw.head?, isSpace c = true → t.kind = .space
  semicolon : t.raw.head? = some ';' → t.isSemicolon = true
  comment : t.kind = .comment → t.raw.head? = some '-' ∨ t.raw.head? = some '/'

theorem Reads.head {c : Char} {t : Text} {r : Token × Text} (h : Reads standard c t r) : r.1.raw.head? = some c := by
  cases h <;> rfl

theorem next_semicolon (t : Text) : next standard ';' t = (⟨.symbol, [';']⟩, t) := by
  simp [next, isSpace, isIdentStart, isAsciiAlphabetic, isAsciiDigit]

theorem next_starts (c : Char) (t : Text) : (next standard c t).1.Starts := by
  have hreads := next_reads standard c t
  have hhead := hreads.head
  refine ⟨hreads.raw_ne, fun d hd hspace => ?_, fun hsemi => ?_, fun hkind => ?_⟩
  · obtain rfl : c = d := Option.some.inj (hhead.symm.trans hd)
    rw [next, if_pos hspace]
  · obtain rfl : c = ';' := Option.some.inj (hhead.symm.trans hsemi)
    rw [next_semicolon]
    rfl
  · rw [hhead]
    generalize next standard c t = r at hreads hkind
    cases hreads with
    | line => exact .inl rfl
    | comment => exact .inr rfl
    | _ => cases hkind

theorem starts_of_mem_lex {t : Text} : ∀ tok ∈ lex standard t, tok.Starts := lex_forall standard next_starts t

/-- A word ends in front of what cannot go on with it. -/
theorem word_ends {t : Text} {pre rest : List Token} {u v : Token} (h : lex standard t = pre ++ u :: v :: rest)
    (hu : u.kind = .word) : ∀ c ∈ v.raw.head?, isIdentCont c = false := by
  have hlex := lex_suffix h
  match hraws : raws (u :: v :: rest) with
  | [] =>
      rw [hraws] at hlex
      cases hlex
  | c :: t =>
      rw [hraws, lex_cons] at hlex
      obtain ⟨hfirst, hrest⟩ := List.cons.inj hlex
      have hreads := next_reads standard c t
      have hleft : ∀ d ∈ (next standard c t).2.head?, isIdentCont d = false := by
        generalize next standard c t = r at hfirst hreads
        subst hfirst
        cases hreads with
        | word => exact fun d hd => by simpa [Option.mem_def.mp hd] using List.head?_dropWhile_not isIdentCont t
        | _ => cases hu
      match hnext : (next standard c t).2 with
      | [] =>
          rw [hnext] at hrest
          cases hrest
      | d :: t' =>
          rw [hnext, lex_cons] at hrest
          obtain ⟨rfl, -⟩ := List.cons.inj hrest
          rw [(next_reads standard d t').head]
          rwa [hnext] at hleft

/-! ## Keywords in front of white space -/

theorem raws_cons (t : Token) (ts : List Token) : raws (t :: ts) = t.raw ++ raws ts := List.flatMap_cons

theorem raws_append (ts ts' : List Token) : raws (ts ++ ts') = raws ts ++ raws ts' := List.flatMap_append

theorem isWhitespace_of_isSpace {c : Char} (h : isSpace c = true) : isWhitespace c = true := by
  simp only [isSpace, Bool.or_eq_true, beq_iff_eq] at h
  rcases h with ((((rfl | rfl) | rfl) | rfl) | rfl) | rfl
  all_goals decide

theorem isIdentCont_of_isIdentStart {c : Char} (h : isIdentStart c = true) : isIdentCont c = true := by
  rw [isIdentCont, isTagCont, h]
  rfl

/-- White space that is not PostgreSQL's starts a word. -/
theorem isIdentStart_of_isWhitespace {c : Char} (h : isWhitespace c = true) (hspace : isSpace c = false) :
    isIdentStart c = true := by
  by_cases hc : 0x80 ≤ c.toNat
  · simp [isIdentStart, hc]
  · -- the rest is the white space of PostgreSQL
    exfalso
    have hof : c = Char.ofNat c.toNat := (Char.ofNat_toNat c).symm
    simp only [isWhitespace, Bool.or_eq_true, Bool.and_eq_true, decide_eq_true_eq, beq_iff_eq] at h
    have hcases : c.toNat = 9 ∨ c.toNat = 10 ∨ c.toNat = 11 ∨ c.toNat = 12 ∨ c.toNat = 13 ∨ c.toNat = 32 := by omega
    rcases hcases with hn | hn | hn | hn | hn | hn <;> rw [hn] at hof <;> subst hof <;> exact absurd hspace (by decide)

theorem splitWhitespace_dropSpaces {ts : List Token} (h : ∀ t ∈ ts, t.Spaced) :
    Text.splitWhitespace (raws (ts.dropWhile (·.kind = .space))) = Text.splitWhitespace (raws ts) := by
  induction ts with
  | nil => rfl
  | cons t ts ih =>
      obtain ⟨ht, hts⟩ := List.forall_mem_cons.mp h
      by_cases hkind : t.kind = .space
      · obtain ⟨c, hraw, hc⟩ := ht hkind
        rw [List.dropWhile_cons_of_pos (by simpa using hkind), ih hts, raws_cons, hraw, List.singleton_append,
          Text.splitWhitespace_of_isWhitespace (isWhitespace_of_isSpace hc)]
      · rw [List.dropWhile_cons_of_neg (by simpa using hkind)]

theorem upper_of_keyword {t : Token} {k : Text} (h : t.keyword = k) (hne : k ≠ []) : Text.toAsciiUppercase t.raw = k := by
  unfold Token.keyword at h
  split at h
  · exact h
  · exact absurd h.symm hne

theorem unbroken_of_keyword {t : Token} {k : Text} (h : t.keyword = k) (hne : k ≠ []) (hk : Text.Unbroken k) :
    Text.Unbroken t.raw := by
  intro c hc
  rw [← isWhitespace_toUpper]
  exact hk _ (upper_of_keyword h hne ▸ List.mem_map_of_mem hc)

theorem raw_ne_of_keyword {t : Token} {k : Text} (h : t.keyword = k) (hne : k ≠ []) : t.raw ≠ [] := by
  intro hnil
  have hupper := upper_of_keyword h hne
  rw [hnil] at hupper
  exact hne hupper.symm

/-- The text starts with a letter of the keyword. -/
theorem head_of_spelled {k : Text} {ks : List Text} {ts : List Token} (hne : k ≠ []) (hk : Text.Unbroken k)
    (h : spelled (k :: ks) ts = true) : ∀ c ∈ (raws ts).head?, isWhitespace c = false := by
  match ts with
  | [] => cases h
  | t :: ts =>
      simp only [spelled, Bool.and_eq_true, decide_eq_true_eq] at h
      have hkey := h.1.1
      intro c hc
      rw [raws_cons, List.head?_append_of_ne_nil _ (raw_ne_of_keyword hkey hne)] at hc
      exact unbroken_of_keyword hkey hne hk c (List.mem_of_mem_head? hc)

/-- The words of a text that starts with such keywords. -/
theorem words_of_spelled {ks : List Text} {ts : List Token} (hts : ∀ t ∈ ts, t.Spaced)
    (hks : ∀ k ∈ ks, k ≠ [] ∧ Text.Unbroken k) (h : spelled ks ts = true) :
    ks <+: (Text.splitWhitespace (raws ts)).map Text.toAsciiUppercase := by
  induction ks generalizing ts with
  | nil => exact List.nil_prefix
  | cons k ks ih =>
      match ts with
      | [] => cases h
      | t :: ts =>
          obtain ⟨⟨hne, hk⟩, hks⟩ := List.forall_mem_cons.mp hks
          obtain ⟨-, hrest⟩ := List.forall_mem_cons.mp hts
          simp only [spelled, Bool.and_eq_true, decide_eq_true_eq] at h
          obtain ⟨⟨hkey, hspace⟩, hspelled⟩ := h
          have hupper := upper_of_keyword hkey hne
          have hword := unbroken_of_keyword hkey hne hk
          have hrawne := raw_ne_of_keyword hkey hne
          have hends : Text.Ends (raws ts) := by
            match ts with
            | [] => exact fun c hc => by cases hc
            | s :: ts =>
                obtain ⟨c, hraw, hc⟩ := hrest s List.mem_cons_self (by simpa using hspace)
                rw [raws_cons, hraw]
                exact fun d hd => by cases hd; exact isWhitespace_of_isSpace hc
          have hdrop : ∀ u ∈ ts.dropWhile (·.kind = .space), u.Spaced :=
            fun u hu => hrest u ((List.dropWhile_suffix _).subset hu)
          rw [raws_cons, Text.splitWhitespace_word hword hrawne hends, List.map_cons, hupper]
          have := ih hdrop hks hspelled
          rw [splitWhitespace_dropSpaces hrest] at this
          exact List.cons_prefix_cons.mpr ⟨rfl, this⟩

/-! ## Names -/

theorem mem_core {tok : Token} {ts : List Token} (h : tok ∈ ts) (hsep : tok.isSeparator = false) : tok ∈ core ts := by
  have hsplit : ts = ts.takeWhile Token.isSeparator ++ core ts := List.takeWhile_append_dropWhile.symm
  rw [hsplit, List.mem_append] at h
  refine h.resolve_left fun hlead => ?_
  have hlead' : tok.isSeparator = true := List.mem_takeWhile_imp hlead
  rw [hsep] at hlead'
  cases hlead'

theorem raw_infix_raws {tok : Token} {ts : List Token} (h : tok ∈ ts) : tok.raw <:+: raws ts := by
  obtain ⟨before, after, rfl⟩ := List.append_of_mem h
  exact ⟨raws before, raws after, by rw [raws_append, raws_cons, List.append_assoc]⟩

/-- Without quotes in it, a name is written as it is. -/
theorem unquote_eq {t name : Text} (hname : '"' ∉ name) (h : unquote t = name) : t = name := by
  fun_induction unquote t generalizing name with
  | case1 t ih =>
      subst h
      exact absurd List.mem_cons_self hname
  | case2 c t hpair ih =>
      subst h
      rw [List.mem_cons, not_or] at hname
      exact congrArg (c :: ·) (ih hname.2 rfl)
  | case3 => exact h

/-- The name a token stands for is found in its text. -/
theorem name_infix {tok : Token} {name : Text} (h : tok.name = some name) (hquote : '"' ∉ name)
    (hlower : Text.toAsciiLowercase name = name) : name <:+: Text.toAsciiLowercase tok.raw := by
  unfold Token.name at h
  split at h
  case h_1 =>
    cases h
    exact List.infix_rfl
  case h_2 =>
    have hname := unquote_eq hquote (Option.some.inj h)
    have hraw : tok.raw.tail.dropLast <:+: tok.raw :=
      (List.dropLast_prefix _).isInfix.trans (List.tail_suffix _).isInfix
    rw [hname] at hraw
    have hmap := hraw.map Char.toLower
    rwa [← Text.toAsciiLowercase, ← Text.toAsciiLowercase, hlower] at hmap
  case h_3 => cases h

end Havuz.Postgres
