import Mathlib
import Havuz.Sql.Named

/-!
# Where a statement is misread

The other direction of `named_of_legible`. With no white space behind the keyword the statement is not seen at all
(`none_of_unspaced`); with a first word that is taken for something else, or for all of the name, what is tracked or reset
is another parameter, or none is. So where PostgreSQL and the classifier agree on comments and white space, a statement
is named exactly if it is legible (`named_iff`).
-/

namespace Havuz.Sql

open Postgres (Token lex core raws significant blanks AtEnd Single Change Changes SetRest Special VarName isDefault
  opensValue isValue)

variable {standard : Bool}

/-! ## What the grammar says of the first tokens -/

/-- What is set begins with a word. -/
theorem head_of_setRest {body name : List Token} {c : Change} (h : SetRest body name c) :
    ∃ u ts, body = u :: ts ∧ (u.kind = .word ∨ u.kind = .quotedWord) := by
  match body with
  | [] =>
      exfalso
      generalize hnil : ([] : List Token) = body at h
      cases h with
      | generic hname =>
          have hlength := congrArg List.length hnil
          simp at hlength
      | special hspecial => cases hspecial <;> cases hnil
  | u :: ts =>
      refine ⟨u, ts, rfl, ?_⟩
      obtain ⟨-, -, n, hn⟩ | ⟨-, hspecial⟩ := next_of_setRest h
      · exact kind_of_colId hn
      · refine .inl (kind_of_keyword rfl fun hnil => ?_)
        have hfirst := first_of_special hspecial
        rw [hnil] at hfirst
        exact absurd hfirst (by decide)

/-- Behind the keyword of a statement stands a word. -/
theorem second_of_changes {k : Token} {body name : List Token} {c : Change} (h : Changes (k :: body) name c) :
    ∃ u ts, body = u :: ts ∧ (u.kind = .word ∨ u.kind = .quotedWord) := by
  cases h with
  | set _ hrest => exact head_of_setRest hrest
  | setSession _ hs => exact ⟨_, _, rfl, .inl (kind_of_keyword hs (by decide))⟩
  | reset _ hvar =>
      cases hvar with
      | colId hn => exact ⟨_, _, rfl, kind_of_colId hn⟩
      | dot hn => exact ⟨_, _, rfl, kind_of_colId hn⟩
  | resetAll _ hk | resetTimeZone _ hk | resetSession _ hk => exact ⟨_, _, rfl, .inl (kind_of_keyword hk (by decide))⟩

/-- The name that is set begins with its first part. -/
theorem set_of_named {u : Token} {body name : List Token} {c : Change} (h : SetRest (u :: body) name c) (hne : name ≠ []) :
    ∃ n m toDefault, u.colId = some m ∧ c = .set n toDefault ∧ (n = m ∨ ∃ more, n = m ++ '.' :: more) := by
  generalize hb : u :: body = b at h
  cases h with
  | special h => exact absurd rfl hne
  | generic hvar =>
      cases hvar with
      | colId hn =>
          obtain ⟨rfl, -⟩ := List.cons.inj hb
          exact ⟨_, _, _, hn, rfl, .inl rfl⟩
      | dot hn =>
          obtain ⟨rfl, -⟩ := List.cons.inj hb
          exact ⟨_, _, _, hn, rfl, .inr ⟨_, rfl⟩⟩

/-! ## Nothing behind the keyword ends it -/

theorem start_of_mem_lex {t : Text} :
    ∀ u ∈ lex standard t, u.kind = .word → ∀ c ∈ u.raw.head?, Postgres.isIdentStart c = true := by
  refine Postgres.lex_forall standard (fun c t => ?_) t
  have hreads := Postgres.next_reads standard c t
  generalize Postgres.next standard c t = r at hreads
  cases hreads with
  | word hc =>
      intro _ d hd
      obtain rfl : c = d := Option.some.inj hd
      exact hc
  | _ => exact fun h => by cases h

/-- What stands directly behind a keyword and is not white space begins a comment or a quoted name. -/
theorem head_of_unspaced {s : Text} {pre behind more : List Token} {k u v : Token}
    (hlex : lex standard s = pre ++ k :: v :: behind) (hk : k.kind = .word) (hv : v.kind ≠ .space)
    (hsig : significant (v :: behind) = u :: more) (hu : u.kind = .word ∨ u.kind = .quotedWord) :
    ∃ c raw, v.raw = c :: raw ∧ (c = '-' ∨ c = '/' ∨ c = '"') := by
  have hmem : v ∈ lex standard s := by
    rw [hlex]
    exact List.mem_append_right _ (List.mem_cons_of_mem _ List.mem_cons_self)
  have hstarts := Postgres.starts_of_mem_lex v hmem
  obtain ⟨c, raw, hraw⟩ := List.exists_cons_of_ne_nil hstarts.head
  have hhead : v.raw.head? = some c := by rw [hraw]; rfl
  refine ⟨c, raw, hraw, ?_⟩
  by_cases hsep : v.isSeparator = true
  · rw [Token.isSeparator, Bool.or_eq_true, decide_eq_true_eq, decide_eq_true_eq] at hsep
    rcases hstarts.comment (hsep.resolve_left hv) with h | h <;> rw [hhead] at h <;> cases h
    · exact .inl rfl
    · exact .inr (.inl rfl)
  · rw [Postgres.significant_cons (Bool.eq_false_iff.mpr hsep)] at hsig
    obtain ⟨rfl, -⟩ := List.cons.inj hsig
    rcases hu with hu | hu
    · -- a word would have gone on
      exfalso
      have hcont := Postgres.word_ends hlex hk c hhead
      rw [Postgres.isIdentCont_of_isIdentStart (start_of_mem_lex v hmem hu c hhead)] at hcont
      cases hcont
    · have hquote := quote_of_mem_lex v hmem hu
      rw [hhead] at hquote
      cases hquote
      exact .inr (.inr rfl)

/-- **Without white space behind its keyword a statement is not seen.** -/
theorem none_of_unspaced {s : Text} {k : Token} {body name : List Token} {c : Change} {K : Text}
    (hs : Single standard s (k :: body)) (hc : Changes (k :: body) name c) (hk : k.keyword = K)
    (hK : K = "SET".toList ∨ K = "RESET".toList) (hnoise : noiseRead standard (lex standard s) = true)
    (hspaced : (core (lex standard s)).tail.head?.all (·.kind = .space) = false) : classifySet s = .none := by
  have hletters : Text.Letters K := by
    rcases hK with rfl | rfl <;> decide
  obtain ⟨⟨fin, hsig, -⟩, -⟩ := hs
  obtain ⟨behind, hcore, hbehind⟩ := core_of_significant hsig
  obtain ⟨u, ts, rfl, hu⟩ := second_of_changes hc
  have hlead := split_of_core hcore
  rw [hcore, List.tail_cons] at hspaced
  match behind, hspaced with
  | v :: behind, hspaced =>
      have hv : v.kind ≠ .space := by simpa using hspaced
      obtain ⟨d, raw, hraw, hd⟩ := head_of_unspaced hlead (kind_of_keyword hk hletters.1) hv hbehind hu
      obtain ⟨R, tail, hR, hraws, htail⟩ := normalize_keyword hcore hk hletters hnoise
      have hplain : endsWord d = false ∧ isWhitespace d = false ∧ d ≠ ';' ∧ isAsciiAlphabetic d = false := by
        rcases hd with rfl | rfl | rfl <;> decide
      -- so the first word goes on
      obtain ⟨more, rfl⟩ : ∃ more, R = d :: more := by
        rw [Postgres.raws_cons, hraw] at hraws
        match R with
        | [] =>
            exfalso
            rcases htail d (by rw [← List.nil_append tail, ← hraws]; exact List.mem_cons_self) with h | h
            · rw [hplain.2.1] at h
              cases h
            · exact hplain.2.2.1 h
        | e :: more =>
            obtain ⟨rfl, -⟩ := List.cons.inj hraws
            exact ⟨more, rfl⟩
      have hnil : ∀ c ∈ ([] : Text), isWhitespace c = true := fun c hc => absurd hc List.not_mem_nil
      have hword := takeWord_append hnil (Postgres.raw_ne_of_keyword hk hletters.1) (letters_of_keyword hk hletters).1
        (d :: more)
      rw [List.nil_append, ← hR, List.takeWhile_cons_of_pos (by simp [hplain.1])] at hword
      have hmem : d ∈ k.raw ++ d :: more.takeWhile (! endsWord ·) := List.mem_append_right _ List.mem_cons_self
      have hnot : ∀ K' : Text, Text.Letters K' →
          Text.toAsciiUppercase (k.raw ++ d :: more.takeWhile (! endsWord ·)) ≠ K' := by
        rintro K' hK' rfl
        have hletter := Text.isAsciiAlphabetic_of_toUpper (hK'.2 _ (List.mem_map_of_mem hmem))
        rw [hplain.2.2.2] at hletter
        cases hletter
      rw [classifySet_of_word hword rfl, if_neg (hnot _ (by decide)), if_neg (hnot _ (by decide))]
      intro hempty
      have := congrArg List.length hempty
      simp [Text.toAsciiUppercase] at this

/-! ## The first word -/

theorem lone_split {ts : List Token} {K : Text} (h : loneKeyword ts = K) (hK : K ≠ []) :
    ∃ sps u more, ts = sps ++ u :: more ∧ (∀ t ∈ sps, t.kind = .space) ∧ u.keyword = K ∧ endsHere more = true ∧
      behindFirst ts = more := by
  have hsplit := List.takeWhile_append_dropWhile (p := fun t : Token => decide (t.kind = .space)) (l := ts)
  unfold loneKeyword at h
  split at h
  case h_1 => exact absurd h.symm hK
  case h_2 u more hdrop =>
    split_ifs at h with hends
    · refine ⟨_, u, more, by rw [← hdrop]; exact hsplit.symm, fun t ht => ?_, h, hends, by rw [behindFirst, hdrop]; rfl⟩
      simpa using List.mem_takeWhile_imp ht
    · exact absurd h.symm hK

theorem significant_spaces {sps : List Token} (h : ∀ t ∈ sps, t.kind = .space) (ts : List Token) :
    significant (sps ++ ts) = significant ts := by
  have hsep : ∀ t ∈ sps, ¬ (!t.isSeparator) = true := fun t ht => by simp [Token.isSeparator, h t ht]
  rw [significant, List.filter_append, List.filter_eq_nil_iff.mpr hsep]
  rfl

theorem raws_spaces {sps : List Token} (h : ∀ t ∈ sps, t.kind = .space ∧ t.Spaced) :
    ∀ c ∈ raws sps, isWhitespace c = true := by
  intro c hc
  obtain ⟨t, ht, hc⟩ := List.mem_flatMap.mp hc
  obtain ⟨d, hraw, hd⟩ := (h t ht).2 (h t ht).1
  rw [hraw, List.mem_singleton] at hc
  rw [hc]
  exact Postgres.isWhitespace_of_isSpace hd

/-- A run of tokens that ends in a letter and that a word ends behind, with white space in front, is the first word. -/
theorem takeWord_of_tokens {t tail : Text} {sps run more : List Token}
    (hlex : lex standard (t ++ tail) = sps ++ (run ++ more)) (hsps : ∀ u ∈ sps, u.kind = .space) (htail : IsEnd tail) (hne : raws run ≠ [])
    (hrun : ∀ c ∈ raws run, endsWord c = false ∧ c ≠ ';')
    (hmore : ∀ v ∈ more.head?, v.kind = .space ∨ v.isSymbol '=' = true) :
    ∃ rest, takeWord t = (raws run, rest) := by
  have hspaced : ∀ u ∈ lex standard (t ++ tail), u.Spaced := fun u hu => Postgres.spaced_of_mem_lex u hu
  rw [hlex] at hspaced
  have hblank := raws_spaces fun u hu => ⟨hsps u hu, hspaced u (List.mem_append_left _ hu)⟩
  have hraws := Postgres.lex_raw standard (t ++ tail)
  rw [hlex, Postgres.raws_append, Postgres.raws_append, ← List.append_assoc] at hraws
  have hlast : ∀ c ∈ (raws sps ++ raws run).getLast?, isWhitespace c = false ∧ c ≠ ';' := by
    intro c hc
    rw [List.getLast?_append_of_ne_nil _ hne] at hc
    obtain ⟨hends, hsemi⟩ := hrun c (List.mem_of_getLast? hc)
    simp only [endsWord, Bool.or_eq_false_iff] at hends
    exact ⟨hends.1.1, hsemi⟩
  obtain ⟨rest, rfl, hrest⟩ := kept_of_solid hraws htail hlast
  refine ⟨rest, ?_⟩
  rw [List.append_assoc]
  refine takeWord_word hblank hne (fun c hc => (hrun c hc).1) fun c hc => ?_
  obtain ⟨rest, rfl⟩ := List.head?_eq_some_iff.mp hc
  cases more with
  | nil => cases hrest
  | cons v more =>
      rw [Postgres.raws_cons] at hrest
      have hv : v.Spaced := hspaced v (by simp)
      rcases hmore v rfl with hspace | heq
      · obtain ⟨d, hraw, hd⟩ := hv hspace
        rw [hraw] at hrest
        obtain ⟨rfl, -⟩ := List.cons.inj hrest
        rw [endsWord, Postgres.isWhitespace_of_isSpace hd]
        rfl
      · rw [Token.isSymbol, Bool.and_eq_true, decide_eq_true_eq, decide_eq_true_eq] at heq
        rw [heq.2] at hrest
        obtain ⟨rfl, -⟩ := List.cons.inj hrest
        decide

theorem letters_raw {u : Token} {K : Text} (hu : u.keyword = K) (hK : Text.Letters K) :
    ∀ c ∈ raws [u], endsWord c = false ∧ c ≠ ';' := by
  intro c hc
  have hraw : raws [u] = u.raw := by simp [raws]
  rw [hraw] at hc
  refine ⟨(letters_of_keyword hu hK).1 c hc, ?_⟩
  have hupper := Postgres.upper_of_keyword hu hK.1
  have hletter := Text.isAsciiAlphabetic_of_toUpper (hK.2 _ (by rw [← hupper]; exact List.mem_map_of_mem hc))
  rintro rfl
  exact absurd hletter (by decide)

/-- The keyword that stands alone is the first word. -/
theorem takeWord_of_lone {t tail K : Text} (htail : IsEnd tail) (h : loneKeyword (lex standard (t ++ tail)) = K)
    (hK : Text.Letters K) (hsemi : ∀ v ∈ (behindFirst (lex standard (t ++ tail))).head?, v.isSemicolon = false) :
    ∃ w rest, takeWord t = (w, rest) ∧ Text.toAsciiUppercase w = K := by
  obtain ⟨sps, u, more, hlex, hsps, hu, hends, hbehind⟩ := lone_split h hK.1
  have hraw : raws [u] = u.raw := by simp [raws]
  rw [hbehind] at hsemi
  obtain ⟨rest, hw⟩ := @takeWord_of_tokens standard t tail sps [u] more hlex hsps htail
    (by rw [hraw]; exact Postgres.raw_ne_of_keyword hu hK.1) (letters_raw hu hK) (fun v hv => by
      obtain ⟨more, rfl⟩ := List.head?_eq_some_iff.mp hv
      simp only [endsHere, Bool.or_eq_true, Bool.and_eq_true, decide_eq_true_eq] at hends
      rcases hends with (hspace | heq) | ⟨his, -⟩
      · exact .inl hspace
      · exact .inr heq
      · rw [hsemi v rfl] at his
        cases his)
  rw [hraw] at hw
  exact ⟨u.raw, rest, hw, Postgres.upper_of_keyword hu hK.1⟩

/-! ## `SET` -/

theorem not_semicolon_of_goes {o : Token} {ts : List Token} (h : Goes (o :: ts)) : o.isSemicolon = false := by
  obtain ⟨o', ts', heq, hnext⟩ := h
  obtain ⟨rfl, rfl⟩ := List.cons.inj heq
  refine Bool.eq_false_iff.mpr fun hsemi => ?_
  have hsymbol : o.isSymbol ';' = true := hsemi
  rcases hnext with hdot | ⟨hop | hto, -⟩
  · exact absurd (symbol_unique hsymbol hdot) (by decide)
  · exact absurd (symbol_unique hsymbol hop) (by decide)
  · rw [keyword_of_symbol hsymbol] at hto
    cases hto

/-- The first token behind the lone keyword is the next one of the statement, or white space. -/
theorem behind_lone {t tail K : Text} {u : Token} {body fin : List Token} (h : Shows standard t tail (u :: body) fin)
    (hlone : loneKeyword (lex standard (t ++ tail)) = K) (hK : Text.Letters K) :
    u.keyword = K ∧ significant (behindFirst (lex standard (t ++ tail))) = body ++ fin := by
  obtain ⟨sps, v, more, hlex, hsps, hv, -, hbehind⟩ := lone_split hlone hK.1
  have htokens := h.tokens
  have hsep : v.isSeparator = false := by simp [Token.isSeparator, kind_of_keyword hv hK.1]
  rw [hlex, significant_spaces hsps, Postgres.significant_cons hsep] at htokens
  obtain ⟨rfl, hmore⟩ := List.cons.inj htokens
  exact ⟨hv, by rw [hbehind]; exact hmore⟩

theorem head_of_significant {ts more : List Token} {o : Token} (h : significant ts = o :: more)
    (ho : o.isSemicolon = false) : ∀ v ∈ ts.head?, v.isSemicolon = false := by
  intro v hv
  obtain ⟨ts, rfl⟩ := List.head?_eq_some_iff.mp hv
  by_cases hsep : v.isSeparator = true
  · refine Bool.eq_false_iff.mpr fun hsemi => ?_
    rw [Token.isSemicolon, Bool.and_eq_true, decide_eq_true_eq] at hsemi
    simp [Token.isSeparator, hsemi.1] at hsep
  · rw [Postgres.significant_cons (Bool.eq_false_iff.mpr hsep)] at h
    obtain ⟨rfl, -⟩ := List.cons.inj h
    exact ho

/-- A name that does not begin with the part is another one. -/
theorem ne_of_first {a b n : Text} (h : n = a ∨ ∃ more, n = a ++ '.' :: more) (hne : b ≠ a)
    (hdot : (a ++ ['.']).isPrefixOf b = false) : b ≠ n := by
  rintro rfl
  obtain rfl | ⟨more, rfl⟩ := h
  · exact hne rfl
  · have hpre : a ++ ['.'] <+: a ++ '.' :: more := ⟨more, by simp⟩
    rw [List.isPrefixOf_iff_prefix.mpr hpre] at hdot
    cases hdot

/-- The first part of the name, which is a keyword that stands alone. -/
theorem lower_of_colId {u : Token} {m K : Text} (hm : u.colId = some m) (hu : u.keyword = K) (hK : K ≠ []) :
    m = Text.toAsciiLowercase K := by
  have hkind := kind_of_keyword hu hK
  obtain ⟨kind, raw⟩ := u
  obtain rfl : kind = .word := hkind
  rw [(colId_word hm).1, ← Text.toAsciiLowercase_uppercase]
  exact congrArg Text.toAsciiLowercase hu

/-- A name that begins with a special word is not what is tracked. -/
theorem not_names_special {t tail statement : Text} {body fin name : List Token} {c : Change}
    (h : Shows standard t tail body fin) (hrest : SetRest body name c) (hne : name ≠ [])
    (hlone : loneKeyword (lex standard (t ++ tail)) ∈ specialWords) (fuel : ℕ) :
    ¬ Names c (classifySetBody (fuel + 1) statement t) := by
  have hletters : ∀ k ∈ specialWords, Text.Letters k := by decide
  have hK := hletters _ hlone
  obtain ⟨u, body, rfl, -⟩ := head_of_setRest hrest
  obtain ⟨hu, hbehind⟩ := behind_lone h rfl hK
  obtain ⟨n, m, toDefault, hm, rfl, hn⟩ := set_of_named hrest hne
  obtain ⟨-, ⟨o, ts, rfl, hnext⟩, -⟩ | ⟨rfl, -⟩ := next_of_setRest hrest
  · have hsemi := head_of_significant hbehind (not_semicolon_of_goes ⟨o, ts, rfl, hnext⟩)
    obtain ⟨w, rest, hw, hupper⟩ := takeWord_of_lone h.ended rfl hK hsemi
    obtain rfl := lower_of_colId hm hu hK.1
    rw [classifySetBody, hw]
    dsimp only
    rw [hupper]
    generalize loneKeyword (lex standard (t ++ tail)) = K at hlone hn
    simp only [specialWords, List.mem_cons, List.not_mem_nil, or_false] at hlone
    rcases hlone with rfl | rfl | rfl | rfl
    · rw [if_pos (.inl rfl)]
      exact id
    · rw [if_pos (.inr rfl)]
      exact id
    · rw [if_neg (by decide), if_neg (by decide), if_neg (by decide), if_neg (by decide),
        if_neg (fun h => absurd h.1 (by decide)), if_pos rfl]
      exact ne_of_first hn (by decide) (by decide)
    · rw [if_neg (by decide), if_neg (by decide), if_neg (by decide), if_neg (by decide),
        if_neg (fun h => absurd h.1 (by decide)), if_neg (by decide), if_pos rfl]
      exact ne_of_first hn (by decide) (by decide)
  · exact absurd rfl hne

/-- The same behind `SESSION`. -/
theorem not_names_session {t tail statement : Text} {s : Token} {body fin name : List Token} {c : Change}
    (h : Shows standard t tail (s :: body) fin) (hs : s.keyword = "SESSION".toList) (hrest : SetRest body name c)
    (hne : name ≠ []) (hlone : loneKeyword (lex standard (t ++ tail)) = "SESSION".toList)
    (hsecond : loneKeyword (behindFirst (lex standard (t ++ tail))) ∈ specialWords) (fuel : ℕ) :
    ¬ Names c (classifySetBody (fuel + 2) statement t) := by
  have hletters : ∀ k ∈ specialWords, Text.Letters k ∧ k ≠ "AUTHORIZATION".toList ∧ k ≠ "CHARACTERISTICS".toList := by
    decide
  obtain ⟨hK, hauth, hchar⟩ := hletters _ hsecond
  obtain ⟨u, body, rfl, hu⟩ := head_of_setRest hrest
  have hbehind := (behind_lone h hlone (by decide)).2
  have hsemi := head_of_significant hbehind (by rcases hu with hu | hu <;> simp [Token.isSemicolon, hu])
  obtain ⟨w, rest, hw, hupper⟩ := takeWord_of_lone h.ended hlone (by decide) hsemi
  obtain ⟨body', heq, hshows, ⟨sp, hlex⟩, -⟩ := h.word (whole_of_keyword hs (by decide) _) hw
    (isIdentifier_of_upper hupper (by decide))
  obtain ⟨rfl, rfl⟩ := List.cons.inj heq
  have hmore : behindFirst (lex standard (t ++ tail)) = lex standard (rest ++ tail) := by
    rw [hlex, behindFirst, dropWhile_blanks sp (fun h => by cases h)]
    rfl
  rw [hmore] at hsecond hK hauth hchar
  -- the second word is no keyword that is asked for
  obtain ⟨-, hbehind'⟩ := behind_lone hshows rfl hK
  obtain ⟨w', rest', hw', hupper'⟩ : ∃ w' rest', takeWord rest = (w', rest') ∧
      Text.toAsciiUppercase w' = loneKeyword (lex standard (rest ++ tail)) := by
    obtain ⟨-, ⟨o, ts, rfl, hnext⟩, -⟩ | ⟨rfl, -⟩ := next_of_setRest hrest
    · exact takeWord_of_lone hshows.ended rfl hK (head_of_significant hbehind' (not_semicolon_of_goes ⟨o, ts, rfl, hnext⟩))
    · exact absurd rfl hne
  rw [classifySetBody, hw]
  dsimp only
  rw [hupper, if_neg (by decide), if_neg (by decide), if_neg (by decide), if_pos rfl, hw', hupper', if_neg hauth,
    if_neg hchar]
  exact not_names_special hshows hrest hne hsecond fuel

/-- Behind a name stands no special word. -/
theorem not_special_of_name {t tail : Text} {body fin name : List Token} {c : Change}
    (h : Shows standard t tail body fin) (hrest : SetRest body name c) (hne : name ≠ [])
    (hlone : loneKeyword (lex standard (t ++ tail)) = "SESSION".toList)
    (hsecond : loneKeyword (behindFirst (lex standard (t ++ tail))) ∈ specialWords) : False := by
  have hletters : ∀ K ∈ specialWords, Text.Letters K ∧ K ≠ "TO".toList := by decide
  obtain ⟨hK, hto⟩ := hletters _ hsecond
  obtain ⟨u, body, rfl, -⟩ := head_of_setRest hrest
  obtain ⟨-, hbehind⟩ := behind_lone h hlone (by decide)
  obtain ⟨sps, v, more, hsplit, hsps, hv, -, -⟩ := lone_split rfl hK.1
  have hsep : v.isSeparator = false := by simp [Token.isSeparator, kind_of_keyword hv hK.1]
  rw [hsplit, significant_spaces hsps, Postgres.significant_cons hsep] at hbehind
  obtain ⟨-, ⟨o, ts, rfl, hdot | ⟨hop | hop, -⟩⟩, -⟩ | ⟨rfl, -⟩ := next_of_setRest hrest
  · obtain ⟨rfl, -⟩ := List.cons.inj hbehind
    rw [keyword_of_symbol hdot] at hv
    exact hK.1 hv.symm
  · obtain ⟨rfl, -⟩ := List.cons.inj hbehind
    rw [keyword_of_symbol hop] at hv
    exact hK.1 hv.symm
  · obtain ⟨rfl, -⟩ := List.cons.inj hbehind
    exact hto (hv.symm.trans hop)
  · exact hne rfl

/-! ## `RESET` -/

/-- The first part of a name. -/
theorem first_of_varName {u : Token} {ts : List Token} {n : Text} (h : VarName (u :: ts) n) :
    ∃ m, u.colId = some m ∧ (n = m ∨ ∃ more, n = m ++ '.' :: more) := by
  cases h with
  | colId hn => exact ⟨_, hn, .inl rfl⟩
  | dot hn => exact ⟨_, hn, .inr ⟨_, rfl⟩⟩

theorem solid_of_parameterName {w : Text} (h : isParameterName w = true) : ∀ c ∈ w, endsWord c = false ∧ c ≠ ';' := by
  have hident : ∀ {v : Text}, isIdentifier v = true → ∀ c ∈ v, endsWord c = false ∧ c ≠ ';' := by
    intro v hv c hc
    refine ⟨endsWord_of_mem hv c hc, ?_⟩
    rintro rfl
    exact absurd (isIdentCont_of_mem hv _ hc) (by decide)
  obtain hw | ⟨a, b, rfl, ha, hb⟩ := isParameterName_cases h
  · exact hident hw
  · intro c hc
    rcases List.mem_append.mp hc with hc | hc
    · exact hident ha c hc
    · rcases List.mem_cons.mp hc with rfl | hc
      · decide
      · exact hident hb c hc

/-- The tokens in front of white space are the word, and the rest of the statement stands behind them. -/
theorem run_of_raws {sp : Text} {run rest : List Token} (hrun : ∀ u ∈ run, u.kind ≠ .space) (hne : run ≠ [])
    (hrest : ∀ u ∈ rest, u.raw ≠ [])
    (hraws : raws (((blanks sp ++ (run ++ rest)).dropWhile (·.kind = .space)).takeWhile (·.kind ≠ .space)) = raws run) :
    ((blanks sp ++ (run ++ rest)).dropWhile (·.kind = .space)).dropWhile (·.kind ≠ .space) = rest := by
  have hbehind : (blanks sp ++ (run ++ rest)).dropWhile (·.kind = .space) = run ++ rest := by
    match run with
    | [] => exact absurd rfl hne
    | u :: run => exact dropWhile_blanks sp (hrun u List.mem_cons_self) (run ++ rest)
  have hpos : ∀ u ∈ run, decide (u.kind ≠ .space) = true := fun u hu => decide_eq_true (hrun u hu)
  rw [hbehind, List.takeWhile_append_of_pos hpos, Postgres.raws_append] at hraws
  rw [hbehind, List.dropWhile_append_of_pos hpos]
  have hnil := List.append_right_eq_self.mp hraws
  cases rest with
  | nil => rfl
  | cons u rest =>
      refine List.dropWhile_cons_of_neg fun hu => ?_
      rw [List.takeWhile_cons_of_pos (p := fun u : Token => decide (u.kind ≠ .space)) hu, Postgres.raws_cons] at hnil
      exact hrest u List.mem_cons_self (List.append_eq_nil_iff.mp hnil).1

/-- White space in front of a dot ends the first word, and the name goes on behind it. -/
theorem name_of_broken {t tail : Text} {body fin : List Token} {n : Text} (h : Shows standard t tail body fin)
    (hvar : VarName body n) (hname : ∀ u ∈ body, u.kind = .word → Text.Unbroken u.raw)
    (hbreaks : breaksName (lex standard (t ++ tail)) = true) :
    ∃ w rest m, takeWord t = (w, rest) ∧ isParameterName w = true ∧ n = Text.toAsciiLowercase w ++ '.' :: m ∧
      Text.toAsciiUppercase w ≠ "ALL".toList ∧ Text.toAsciiUppercase w ≠ "TIME".toList := by
  have hraw : ∀ u ∈ lex standard (t ++ tail), u.raw ≠ [] := fun u hu => (Postgres.starts_of_mem_lex u hu).head
  have hwhole : Whole body := fun u hu => hname u (List.mem_of_mem_head? hu)
  rw [breaksName, Bool.and_eq_true, Bool.and_eq_true, decide_eq_true_eq] at hbreaks
  obtain ⟨⟨hparam, htime⟩, hdot⟩ := hbreaks
  have hlex : lex standard (t ++ tail) = (lex standard (t ++ tail)).takeWhile (·.kind = .space) ++
      (((lex standard (t ++ tail)).dropWhile (·.kind = .space)).takeWhile (·.kind ≠ .space) ++
        ((lex standard (t ++ tail)).dropWhile (·.kind = .space)).dropWhile (·.kind ≠ .space)) := by
    rw [List.takeWhile_append_dropWhile, List.takeWhile_append_dropWhile]
  have hne : raws (((lex standard (t ++ tail)).dropWhile (·.kind = .space)).takeWhile (·.kind ≠ .space)) ≠ [] := by
    intro hnil
    rw [hnil] at hparam
    cases hparam
  obtain ⟨rest, hw⟩ := takeWord_of_tokens hlex (fun u hu => by simpa using List.mem_takeWhile_imp hu) h.ended hne
    (solid_of_parameterName hparam) (fun v hv => by
      have hstop := List.head?_dropWhile_not (fun u : Token => decide (u.kind ≠ .space))
        ((lex standard (t ++ tail)).dropWhile (·.kind = .space))
      rw [hv] at hstop
      exact .inl (by simpa using hstop))
  -- a dot behind the word, in front of which no other token stands
  have hnext : ∀ {sp : Text} {run body' : List Token},
      lex standard (t ++ tail) = blanks sp ++ (run ++ lex standard (rest ++ tail)) →
      (∀ u ∈ run, u.kind ≠ .space) → run ≠ [] →
      raws (((lex standard (t ++ tail)).dropWhile (·.kind = .space)).takeWhile (·.kind ≠ .space)) = raws run →
      Shows standard rest tail body' fin → ∃ d ts, body' = d :: ts ∧ d.isSymbol '.' = true := by
    intro sp run body' hlex' hrun hrunne hraws hshows
    have hrest : ∀ u ∈ lex standard (rest ++ tail), u.raw ≠ [] := fun u hu =>
      hraw u (by rw [hlex']; exact List.mem_append_right _ (List.mem_append_right _ hu))
    rw [hlex'] at hraws hdot
    rw [run_of_raws hrun hrunne hrest hraws, hshows.tokens] at hdot
    cases body' with
    | cons d ts => exact ⟨d, ts, rfl, hdot⟩
    | nil =>
        obtain hnil | ⟨semi, hlast, hsemi⟩ := hshows.last
        · rw [hnil] at hdot
          cases hdot
        · rw [hlast] at hdot
          exact absurd (symbol_unique hsemi hdot) (by decide)
  generalize hword : raws (((lex standard (t ++ tail)).dropWhile (·.kind = .space)).takeWhile (·.kind ≠ .space)) = w
    at hparam htime hw hnext
  obtain hident | ⟨a, b, rfl, ha, hb⟩ := isParameterName_cases hparam
  · obtain ⟨body', rfl, hshows, ⟨sp, hlex'⟩, -⟩ := h.word hwhole hw hident
    obtain ⟨d, ts, rfl, hd⟩ := @hnext sp [⟨.word, w⟩] _ hlex' (by simp) (by simp) (by simp [raws]) hshows
    cases hvar with
    | dot hn hd hts =>
        obtain ⟨rfl, hreserved⟩ := colId_word hn
        refine ⟨w, rest, _, hw, hparam, rfl, fun hall => hreserved ?_, htime⟩
        rw [hall]
        decide
  · obtain ⟨third, body', rfl, hkind, hthird⟩ := h.dotted hwhole hw ha hb
    obtain ⟨rfl, hshows, ⟨sp, hlex'⟩, -⟩ := hthird (hname _ (by simp) hkind)
    obtain ⟨d, ts, rfl, hd⟩ := @hnext sp [⟨.word, a⟩, ⟨.symbol, ['.']⟩, ⟨.word, b⟩] _ hlex' (by simp)
      (by simp) (by simp [raws]) hshows
    cases hvar with
    | dot hn hd hts =>
        cases hts with
        | @dot _ _ _ _ m hn' hd' hts' =>
            obtain ⟨rfl, -⟩ := colId_word hn
            obtain ⟨rfl, -⟩ := colId_word hn'
            refine ⟨_, rest, m, hw, hparam, by simp [Text.toAsciiLowercase], fun hall => ?_, htime⟩
            have hmem : '.' ∈ "ALL".toList := by
              rw [← hall]
              exact List.mem_map.mpr ⟨'.', by simp, by decide⟩
            exact absurd hmem (by decide)

/-- A name that white space breaks is not the one that is reset. -/
theorem not_names_broken {t tail : Text} {body fin : List Token} {n : Text} (h : Shows standard t tail body fin)
    (hvar : VarName body n) (hname : ∀ u ∈ body, u.kind = .word → Text.Unbroken u.raw)
    (hbreaks : breaksName (lex standard (t ++ tail)) = true) : ¬ Names (.reset n) (classifyResetBody t) := by
  obtain ⟨w, rest, m, hw, hparam, rfl, hall, htime⟩ := name_of_broken h hvar hname hbreaks
  have hlonger : ∀ a : Text, a ≠ a ++ '.' :: m := by
    intro a heq
    have hlength := congrArg List.length heq
    rw [List.length_append, List.length_cons] at hlength
    omega
  rw [classifyResetBody, hw]
  dsimp only
  rw [if_neg hall]
  split_ifs with hrole hsession
  · have hlower : Text.toAsciiLowercase w = "role".toList := by
      rw [← Text.toAsciiLowercase_uppercase, hrole]
      decide
    rw [hlower]
    exact hlonger _
  · have hlower : Text.toAsciiLowercase w = "session".toList := by
      rw [← Text.toAsciiLowercase_uppercase, hsession]
      decide
    rw [hlower]
    exact ne_of_first (.inr ⟨m, rfl⟩) (by decide) (by decide)
  · exact hlonger _

/-! ## The last semicolon -/

theorem trimEnd_append {t sp : Text} (hsp : ∀ c ∈ sp, isWhitespace c = true)
    (hlast : ∀ c ∈ t.getLast?, isWhitespace c = false) : Text.trimEnd (t ++ sp) = t := by
  have hrev : ∀ c ∈ sp.reverse, isWhitespace c = true := fun c hc => hsp c (List.mem_reverse.mp hc)
  have hstop : t.reverse.dropWhile isWhitespace = t.reverse := by
    match hrest : t.reverse with
    | [] => rfl
    | c :: rest =>
        have hc : c ∈ t.getLast? := by
          rw [← List.head?_reverse, hrest]
          rfl
        exact List.dropWhile_cons_of_neg (by rw [hlast c hc]; exact Bool.false_ne_true)
  rw [Text.trimEnd, List.reverse_append, List.dropWhile_append_of_pos hrev, hstop, List.reverse_reverse]

/-- The semicolon at the end is cut off. -/
theorem normalize_semicolon {s t sp : Text} (h : stripLeadingNoise s = t ++ ';' :: sp)
    (hsp : ∀ c ∈ sp, isWhitespace c = true) (hlast : ∀ c ∈ t.getLast?, isWhitespace c = false) :
    normalizeStatement s = t := by
  have hfirst : Text.trimEnd (stripLeadingNoise s) = t ++ [';'] := by
    rw [h, ← List.singleton_append, ← List.append_assoc]
    refine trimEnd_append hsp fun c hc => ?_
    rw [List.getLast?_append_of_ne_nil _ (List.cons_ne_nil _ _)] at hc
    obtain rfl : ';' = c := Option.some.inj hc
    decide
  have hsemi : Text.stripSuffixChar ';' (t ++ [';']) = t := by
    rw [Text.stripSuffixChar, List.reverse_append]
    exact (if_pos rfl).trans (List.reverse_reverse t)
  have hnil : ∀ c ∈ ([] : Text), isWhitespace c = true := fun c hc => absurd hc List.not_mem_nil
  rw [normalizeStatement, hfirst, hsemi]
  have hend := trimEnd_append hnil hlast
  rwa [List.append_nil] at hend

/-- `SESSION` that stands alone is the first word behind `RESET`. -/
theorem takeWord_of_session {s R tail : Text} {k : Token} {behind : List Token}
    (hcore : core (lex standard s) = k :: behind) (hk : k.keyword = "RESET".toList)
    (hnoise : noiseRead standard (lex standard s) = true) (hspaced : behind.head?.all (·.kind = .space) = true)
    (hw : takeWord (normalizeStatement s) = (k.raw, R)) (hlex : lex standard (R ++ tail) = behind) (htail : IsEnd tail)
    (hlone : loneKeyword behind = "SESSION".toList) :
    ∃ w rest, takeWord R = (w, rest) ∧ Text.toAsciiUppercase w = "SESSION".toList := by
  have hK : Text.Letters "RESET".toList := by decide
  have hK' : Text.Letters "SESSION".toList := by decide
  by_cases hsemi : ∀ v ∈ (behindFirst behind).head?, v.isSemicolon = false
  · rw [← hlex] at hlone hsemi
    exact takeWord_of_lone htail hlone hK' hsemi
  · -- the end of the statement, which is cut off
    obtain ⟨sps, u, more, rfl, hsps, hu, hends, hbehind⟩ := lone_split hlone hK'.1
    rw [hbehind] at hsemi
    cases more with
    | nil => exact absurd (fun v hv => by cases hv) hsemi
    | cons v more =>
    have his : v.isSemicolon = true := by
      by_contra hnot
      refine hsemi fun x hx => ?_
      obtain rfl : v = x := Option.some.inj hx
      exact Bool.eq_false_iff.mpr hnot
    have hraw : v.raw = [';'] := by
      rw [Token.isSemicolon, Bool.and_eq_true, decide_eq_true_eq, decide_eq_true_eq] at his
      exact his.2
    have hkind : v.kind = .symbol := by
      rw [Token.isSemicolon, Bool.and_eq_true, decide_eq_true_eq, decide_eq_true_eq] at his
      exact his.1
    have hspaces : ∀ x ∈ more, x.kind = .space := by
      simp only [endsHere, Token.isSymbol, hkind, hraw, his, Bool.or_eq_true, Bool.and_eq_true] at hends
      rcases hends with (h | h) | ⟨-, h⟩
      · cases of_decide_eq_true h
      · exact absurd h.2 (by decide)
      · exact fun x hx => of_decide_eq_true (List.all_eq_true.mp h x hx)
    have hspaced' : ∀ x ∈ sps ++ u :: v :: more, x.Spaced := fun x hx =>
      Postgres.spaced_of_mem_lex x (by rw [hlex]; exact hx)
    have hblank := raws_spaces fun x hx => ⟨hsps x hx, hspaced' x (by simp [hx])⟩
    have hblank' := raws_spaces fun x hx => ⟨hspaces x hx, hspaced' x (by simp [hx])⟩
    have hstrip := strip_keyword hcore hk hK hnoise
    have hraws : raws (sps ++ u :: v :: more) = raws sps ++ (u.raw ++ ';' :: raws more) := by
      rw [Postgres.raws_append, Postgres.raws_cons, Postgres.raws_cons, hraw]
      rfl
    rw [hraws, ← List.append_assoc, ← List.append_assoc] at hstrip
    have hune := Postgres.raw_ne_of_keyword hu hK'.1
    have hnormal := normalize_semicolon hstrip hblank' fun c hc => by
      rw [List.getLast?_append_of_ne_nil _ hune] at hc
      exact ((letters_of_keyword hu hK').2 c hc).1
    have hnil : ∀ c ∈ ([] : Text), isWhitespace c = true := fun c hc => absurd hc List.not_mem_nil
    have hhead : ∀ c ∈ (raws sps ++ u.raw).head?, endsWord c = true := by
      intro c hc
      cases sps with
      | nil =>
          have hword : u.kind = .space := by simpa using hspaced
          rw [kind_of_keyword hu hK'.1] at hword
          cases hword
      | cons x sps =>
          have hx : raws (x :: sps) ≠ [] := by
            rw [Postgres.raws_cons]
            exact List.append_ne_nil_of_left_ne_nil (Postgres.starts_of_mem_lex x (by rw [hlex]; simp)).head _
          rw [List.head?_append_of_ne_nil _ hx] at hc
          rw [endsWord, hblank c (List.mem_of_mem_head? hc)]
          rfl
    have hfirst := takeWord_word hnil (Postgres.raw_ne_of_keyword hk hK.1) (letters_of_keyword hk hK).1 hhead
    rw [List.nil_append, ← List.append_assoc, ← hnormal, hw] at hfirst
    obtain rfl : R = raws sps ++ u.raw := (Prod.mk.inj hfirst).2
    have hsecond := @takeWord_word _ _ [] hblank hune (letters_of_keyword hu hK').1 fun c hc => by cases hc
    rw [List.append_nil] at hsecond
    exact ⟨u.raw, [], hsecond, Postgres.upper_of_keyword hu hK'.1⟩

/-- The name of a session is not its user. -/
theorem not_names_resetSession {R w rest : Text} {u : Token} {ts : List Token} {n : Text} (hvar : VarName (u :: ts) n)
    (hu : u.keyword = "SESSION".toList) (hw : takeWord R = (w, rest))
    (hupper : Text.toAsciiUppercase w = "SESSION".toList) : ¬ Names (.reset n) (classifyResetBody R) := by
  obtain ⟨m, hm, hn⟩ := first_of_varName hvar
  obtain rfl := lower_of_colId hm hu (by decide)
  rw [classifyResetBody, hw]
  dsimp only
  rw [hupper, if_neg (by decide), if_neg (by decide), if_pos rfl]
  exact ne_of_first hn (by decide) (by decide)

/-! ## The other direction -/

/-- **Only a legible statement is named**, where PostgreSQL and the classifier agree on comments and white space. -/
theorem legible_of_named {s : Text} {statement name : List Token} {c : Change} (hs : Single standard s statement)
    (hc : Changes statement name c) (h : Readable standard s name) (hnames : Names c (classifySet s)) :
    Legible standard s name := by
  cases statement with
  | nil => cases hc
  | cons k body =>
      have hkeyword : k.keyword = "SET".toList ∨ k.keyword = "RESET".toList := by
        cases hc with
        | set hk | setSession hk => exact .inl hk
        | reset hk | resetAll hk | resetTimeZone hk | resetSession hk => exact .inr hk
      have hspaced : (core (lex standard s)).tail.head?.all (·.kind = .space) = true := by
        by_contra hnot
        rw [none_of_unspaced hs hc rfl hkeyword h.noise (Bool.eq_false_iff.mpr hnot)] at hnames
        cases c <;> exact hnames
      refine ⟨h, hspaced, fun hne => Bool.eq_false_iff.mpr fun hfound => ?_⟩
      rcases hkeyword with hk | hk
      · obtain ⟨R, tail, fin, behind, hcore, hword, hlex, hshows⟩ := shows_of_legible hs hk (by decide) h hspaced
        rw [classifySet_of_word hword (Postgres.upper_of_keyword hk (by decide)) (by decide), if_pos rfl] at hnames
        rw [hcore, mistaken, if_pos hk, Bool.or_eq_true, Bool.and_eq_true, decide_eq_true_eq, decide_eq_true_eq,
          decide_eq_true_eq, ← hlex] at hfound
        generalize hstatement : k :: body = statement at hc
        cases hc with
        | set _ hrest =>
            obtain ⟨-, rfl⟩ := List.cons.inj hstatement
            rcases hfound with hlone | ⟨hlone, hsecond⟩
            · exact not_names_special hshows hrest hne hlone _ hnames
            · exact not_special_of_name hshows hrest hne hlone hsecond
        | setSession _ hsession hrest =>
            obtain ⟨-, rfl⟩ := List.cons.inj hstatement
            rcases hfound with hlone | ⟨hlone, hsecond⟩
            · have hspecial : ∀ K ∈ specialWords, Text.Letters K ∧ K ≠ "SESSION".toList := by decide
              obtain ⟨hK, hnot⟩ := hspecial _ hlone
              exact hnot ((behind_lone hshows rfl hK).1.symm.trans hsession)
            · cases R with
              | nil => exact hshows.ne_nil_of_solid (apart_of_keyword hsession (by decide))
              | cons d R => exact not_names_session hshows hsession hrest hne hlone hsecond _ hnames
        | reset hk' | resetAll hk' | resetTimeZone hk' | resetSession hk' =>
            obtain ⟨rfl, -⟩ := List.cons.inj hstatement
            exact absurd (hk.symm.trans hk') (by decide)
      · obtain ⟨R, tail, fin, behind, hcore, hword, hlex, hshows⟩ := shows_of_legible hs hk (by decide) h hspaced
        rw [classifySet_of_word hword (Postgres.upper_of_keyword hk (by decide)) (by decide), if_neg (by decide),
          if_pos rfl] at hnames
        rw [hcore, mistaken, if_neg (by rw [hk]; decide), Bool.or_eq_true, decide_eq_true_eq] at hfound
        rw [hcore, List.tail_cons] at hspaced
        generalize hstatement : k :: body = statement at hc
        cases hc with
        | set hk' | setSession hk' =>
            obtain ⟨rfl, -⟩ := List.cons.inj hstatement
            exact absurd (hk.symm.trans hk') (by decide)
        | resetAll | resetTimeZone | resetSession => exact hne rfl
        | reset _ hvar =>
            obtain ⟨-, rfl⟩ := List.cons.inj hstatement
            rcases hfound with hlone | hbreaks
            · cases body with
              | nil => cases hvar
              | cons u ts =>
                  obtain ⟨w, rest, hw, hupper⟩ := takeWord_of_session hcore hk h.noise hspaced hword hlex hshows.ended hlone
                  have hletters : Text.Letters "SESSION".toList := by decide
                  have hu := (behind_lone hshows (hlex ▸ hlone) hletters).1
                  exact not_names_resetSession hvar hu hw hupper hnames
            · exact not_names_broken hshows hvar h.unbroken (by rw [hlex]; exact hbreaks) hnames

/-- **`classify_set` names the parameter a statement changes, or pins, if the statement is legible**: the separators in
front of it end where PostgreSQL ends them, white space follows the keyword, no white space beyond ASCII is in the name or
cuts `DEFAULT` or `TO` out of another word, and the first word of the name is neither taken for something else nor for all
of a name that goes on. Where comments and white space are read alike, only then. -/
theorem names_changed (standard : Bool) {s : Text} {statement name : List Token} {c : Change}
    (hs : Single standard s statement) (hc : Changes statement name c) :
    (Legible standard s name → Names c (classifySet s)) ∧
      (Readable standard s name → Names c (classifySet s) → Legible standard s name) :=
  ⟨named_of_legible standard hs hc, legible_of_named hs hc⟩

/-- A comment in front, mixed case and a semicolon. -/
theorem names_changed_reset :
    Names (.reset "work_mem".toList) (classifySet "/* a */ Reset -- b\n Work_Mem ; ".toList) := by
  refine (names_changed true ⟨⟨[⟨.symbol, [';']⟩], ?_, .inr ⟨_, rfl, ?_⟩⟩, ?_⟩ (.reset (k := ⟨.word, "Reset".toList⟩) ?_
    (.colId (t := ⟨.word, "Work_Mem".toList⟩) ?_))).1 ⟨⟨?_, ?_, ?_⟩, ?_, ?_⟩
  all_goals decide +kernel

/-- A comment directly behind the keyword. -/
theorem not_names_changed :
    ∃ (s : Text) (statement name : List Token) (c : Change), Single true s statement ∧ Changes statement name c ∧
      ¬ Names c (classifySet s) := by
  have hsingle : Single true "SET/**/search_path = app".toList
      [⟨.word, "SET".toList⟩, ⟨.word, "search_path".toList⟩, ⟨.symbol, ['=']⟩, ⟨.word, "app".toList⟩] :=
    ⟨⟨[], by decide +kernel, .inl rfl⟩, by decide⟩
  have hname : VarName [⟨.word, "search_path".toList⟩] "search_path".toList := .colId (by decide)
  have hrest : SetRest ([⟨.word, "search_path".toList⟩] ++ ⟨.symbol, ['=']⟩ :: [⟨.word, "app".toList⟩])
      [⟨.word, "search_path".toList⟩] (.set "search_path".toList false) :=
    .generic hname (.inl (by decide)) (by decide) (by decide)
  have hnone : classifySet "SET/**/search_path = app".toList = .none := by decide +kernel
  refine ⟨_, _, _, _, hsingle, .set (by decide) hrest, ?_⟩
  rw [hnone]
  exact id

end Havuz.Sql
