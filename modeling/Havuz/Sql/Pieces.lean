import Mathlib
import Havuz.Sql.Cuts

/-!
# What comes out of a cut

The pieces of `split_statements` are the text again, but for a semicolon at its end. They are slices of its bytes, and
the bytes are what the source walks over: on the bytes, each taken for a character as `byte as char` does, the walk
cuts the same pieces as on the characters, so that no cut falls inside of one.
-/

namespace Havuz

/-! ## Bytes of a character -/

theorem utf8EncodeChar_ascii {c : Char} (h : c.toNat < 128) : String.utf8EncodeChar c = [UInt8.ofNat c.toNat] := by
  have hle : c.val.toNat ≤ 127 := Nat.le_of_lt_succ h
  simp only [String.utf8EncodeChar]
  rw [if_pos hle]
  rfl

theorem utf8EncodeChar_ge {c : Char} (h : 128 ≤ c.toNat) : ∀ b ∈ String.utf8EncodeChar c, 128 ≤ b.toNat := by
  have hle : ¬ c.val.toNat ≤ 127 := Nat.not_le.mpr h
  simp only [String.utf8EncodeChar]
  rw [if_neg hle]
  split
  · simp
    omega
  split
  · simp
    omega
  · simp
    omega

namespace Text

@[simp] theorem asLatin1_nil : asLatin1 [] = [] := rfl

theorem asLatin1_append (t t' : Text) : asLatin1 (t ++ t') = asLatin1 t ++ asLatin1 t' := by
  simp [asLatin1, asBytes]

theorem asLatin1_cons (c : Char) (t : Text) : asLatin1 (c :: t) = asLatin1 [c] ++ asLatin1 t := asLatin1_append [c] t

theorem asLatin1_ascii {c : Char} (h : c.toNat < 128) : asLatin1 [c] = [c] := by
  have hbyte : (UInt8.ofNat c.toNat).toNat = c.toNat := Nat.mod_eq_of_lt (by omega)
  simp [asLatin1, asBytes, utf8EncodeChar_ascii h, hbyte]

theorem asLatin1_ge {c : Char} (h : 128 ≤ c.toNat) : ∀ b ∈ asLatin1 [c], 128 ≤ b.toNat := by
  intro b hb
  simp only [asLatin1, asBytes, List.flatMap_cons, List.flatMap_nil, List.append_nil, List.mem_map] at hb
  obtain ⟨byte, hbyte, rfl⟩ := hb
  have hge := utf8EncodeChar_ge h byte hbyte
  have hlt : byte.toNat < 256 := byte.toNat_lt
  have hvalid : (Char.ofNat byte.toNat).toNat = byte.toNat := by
    rw [Char.ofNat, dif_pos (.inl (by omega))]
    rfl
  omega

theorem asLatin1_ne_nil (c : Char) : asLatin1 [c] ≠ [] := by
  simp [asLatin1, asBytes, String.utf8EncodeChar_ne_nil]

theorem asLatin1_of_ascii {t : Text} (h : ∀ c ∈ t, c.toNat < 128) : asLatin1 t = t := by
  induction t with
  | nil => rfl
  | cons c t ih =>
      obtain ⟨hc, ht⟩ := List.forall_mem_cons.mp h
      rw [asLatin1_cons, asLatin1_ascii hc, ih ht]
      rfl

end Text

namespace Sql

/-! ## The text again -/

/-- What the walk is holding back. -/
def held (s : ScanState) : Text := (scanFinish s).map Prod.snd

theorem scanBase_text (c : Char) : (scanBase c).2.map Prod.snd ++ held (scanBase c).1 = [c] := by
  unfold scanBase
  repeat' split
  all_goals simp_all [held, scanFinish]

/-- One character goes in, and it comes out now or is held back. -/
theorem scanStep_text (s : ScanState) (c : Char) :
    (scanStep s c).2.map Prod.snd ++ held (scanStep s c).1 = held s ++ [c] := by
  have hafter : ∀ t : Text, (scanAfter t c).2.map Prod.snd ++ held (scanAfter t c).1 = t ++ [c] := by
    intro t
    rw [scanAfter, List.map_append, List.append_assoc, scanBase_text]
    simp [Function.comp_def]
  cases s with
  | base => exact scanBase_text c
  | dash | slash =>
      simp only [scanStep]
      split
      case isTrue hc =>
        subst hc
        rfl
      case isFalse => exact hafter _
  | dollar acc =>
      simp only [scanStep]
      split
      case isTrue => simp [held, scanFinish, Function.comp_def]
      case isFalse =>
      split
      case isTrue hc =>
        subst hc
        simp [held, scanFinish, Function.comp_def]
      case isFalse =>
        rw [hafter]
        simp [held, scanFinish, Function.comp_def]
  | quoteEnd q =>
      simp only [scanStep]
      split
      · rfl
      · exact scanBase_text c
  | quoteEscape q => rfl
  | blockStar d =>
      simp only [scanStep]
      split
      · split <;> rfl
      · split <;> rfl
  | quote | body | line | block | blockSlash =>
      simp only [scanStep]
      repeat' split
      all_goals rfl

theorem scanFrom_text (s : ScanState) (t : Text) : (scanFrom s t).map Prod.snd = held s ++ t := by
  induction t generalizing s with
  | nil => rw [scanFrom_nil, List.append_nil, held]
  | cons c t ih =>
      rw [scanFrom_cons, List.map_append, ih, ← List.append_assoc, scanStep_text, List.append_assoc]
      rfl

theorem walk_text (t : Text) : (walk.scan t).map Prod.snd = t := scanFrom_text .base t

theorem cutAtSemicolons_eq_nil {cur : Text} {l : Labelled} (h : cutAtSemicolons cur l = []) : cur = [] ∧ l = [] := by
  induction l generalizing cur with
  | nil =>
      unfold cutAtSemicolons at h
      split at h
      case isTrue hempty => exact ⟨List.isEmpty_iff.mp hempty, rfl⟩
      case isFalse => cases h
  | cons x l ih =>
      obtain ⟨label, c⟩ := x
      unfold cutAtSemicolons at h
      split at h
      · cases h
      · exact absurd (ih h).1 (List.cons_ne_nil _ _)

/-- The pieces with semicolons between them. -/
theorem join_cutAtSemicolons (cur : Text) (l : Labelled) :
    Text.join [';'] (cutAtSemicolons cur l) = cur.reverse ++ l.map Prod.snd ∨
      Text.join [';'] (cutAtSemicolons cur l) ++ [';'] = cur.reverse ++ l.map Prod.snd := by
  induction l generalizing cur with
  | nil =>
      refine .inl ?_
      unfold cutAtSemicolons
      split
      · simp_all [Text.join]
      · simp [Text.join]
  | cons x l ih =>
      obtain ⟨label, c⟩ := x
      unfold cutAtSemicolons
      split
      case isTrue hsemi =>
        obtain ⟨-, rfl⟩ := hsemi
        cases hrest : cutAtSemicolons [] l with
        | nil =>
            obtain ⟨-, rfl⟩ := cutAtSemicolons_eq_nil hrest
            exact .inr rfl
        | cons p ps =>
            have hjoin : Text.join [';'] (cur.reverse :: p :: ps) = cur.reverse ++ [';'] ++ Text.join [';'] (p :: ps) := rfl
            rw [hjoin, ← hrest]
            obtain h | h := ih []
            · exact .inl (by rw [h]; simp)
            · exact .inr (by rw [List.append_assoc, h]; simp)
      case isFalse =>
        have := ih (c :: cur)
        simpa using this

theorem join_split (sql : Text) :
    Text.join [';'] (splitStatements sql) = sql ∨ Text.join [';'] (splitStatements sql) ++ [';'] = sql := by
  have h := join_cutAtSemicolons [] (walk.scan sql)
  rwa [walk_text] at h

/-! ## On the bytes -/

/-- The bytes of what was read, last one first. -/
def lastBytes (seen : Text) : Text := (Text.asLatin1 seen.reverse).reverse

/-- Where the walk over the bytes is when the walk over the characters is at `s`. -/
def onBytes : ScanState → ScanState
  | .body tag seen => .body tag (lastBytes seen)
  | s => s

/-- What the walk compares with is ASCII. -/
def AsciiState : ScanState → Prop
  | .dollar acc => ∀ c ∈ acc, c.toNat < 128
  | .body tag _ => (∀ c ∈ tag, c.toNat < 128) ∧ tag.head? = some '$'
  | .quote q | .quoteEscape q | .quoteEnd q => q.toNat < 128
  | _ => True

/-- The labels on the bytes of the characters. -/
def labelBytes (l : Labelled) : Labelled := l.flatMap fun x => (Text.asLatin1 [x.2]).map (x.1, ·)

@[simp] theorem labelBytes_nil : labelBytes [] = [] := rfl

theorem labelBytes_append (l l' : Labelled) : labelBytes (l ++ l') = labelBytes l ++ labelBytes l' :=
  List.flatMap_append

theorem labelBytes_ascii {l : Labelled} (h : ∀ x ∈ l, x.2.toNat < 128) : labelBytes l = l := by
  induction l with
  | nil => rfl
  | cons x l ih =>
      obtain ⟨hx, hl⟩ := List.forall_mem_cons.mp h
      have hfirst : labelBytes (x :: l) = (Text.asLatin1 [x.2]).map (x.1, ·) ++ labelBytes l := List.flatMap_cons
      rw [hfirst, Text.asLatin1_ascii hx, ih hl]
      rfl

theorem lastBytes_cons (c : Char) (seen : Text) : lastBytes (c :: seen) = (Text.asLatin1 [c]).reverse ++ lastBytes seen := by
  rw [lastBytes, List.reverse_cons, Text.asLatin1_append, List.reverse_append]
  rfl

/-- A tag is found in the bytes where it is found in the characters. -/
theorem isPrefixOf_lastBytes {tag : Text} (htag : ∀ c ∈ tag, c.toNat < 128) (seen : Text) :
    tag.isPrefixOf (lastBytes seen) = tag.isPrefixOf seen := by
  induction tag generalizing seen with
  | nil => simp
  | cons d tag ih =>
      obtain ⟨hd, htag⟩ := List.forall_mem_cons.mp htag
      match seen with
      | [] => rfl
      | c :: seen =>
          rw [lastBytes_cons]
          by_cases hc : c.toNat < 128
          · rw [Text.asLatin1_ascii hc, List.reverse_singleton, List.singleton_append, List.isPrefixOf,
              List.isPrefixOf, ih htag]
          · have hne : d ≠ c := by
              rintro rfl
              exact hc hd
            obtain ⟨b, bs, hbytes⟩ := List.exists_cons_of_ne_nil
              (fun hnil => Text.asLatin1_ne_nil c (List.reverse_eq_nil_iff.mp hnil) : (Text.asLatin1 [c]).reverse ≠ [])
            have hb : 128 ≤ b.toNat :=
              Text.asLatin1_ge (Nat.not_lt.mp hc) b (List.mem_reverse.mp (by rw [hbytes]; exact List.mem_cons_self))
            have hneb : d ≠ b := by
              rintro rfl
              omega
            rw [hbytes, List.cons_append, List.isPrefixOf, List.isPrefixOf, beq_eq_false_iff_ne.mpr hne,
              beq_eq_false_iff_ne.mpr hneb]
            rfl

/-! A byte that is not ASCII is nothing the walk compares with, whatever the state. -/

/-- The label such a byte gets. -/
def otherLabel : ScanState → Label
  | .base | .dash | .slash | .dollar _ | .quoteEnd _ => .code
  | _ => .inside

/-- The state it leads to. -/
def afterOther (c : Char) : ScanState → ScanState
  | .base | .dash | .slash | .dollar _ | .quoteEnd _ => .base
  | .quoteEscape q => .quote q
  | .blockSlash d | .blockStar d => .block d
  | .body tag seen => .body tag (c :: seen)
  | s => s

theorem isAsciiAlphanumeric_other {c : Char} (hc : 128 ≤ c.toNat) : isAsciiAlphanumeric c = false := by
  have hle : ∀ d : Char, d.toNat < 128 → ¬ c ≤ d := by
    intro d hd hcd
    have hval : c.toNat ≤ d.toNat := hcd
    omega
  simp [isAsciiAlphanumeric, isAsciiAlphabetic, isAsciiDigit, hle]

theorem scanStep_other {c : Char} (hc : 128 ≤ c.toNat) {s : ScanState} (hs : AsciiState s) :
    scanStep s c = (afterOther c s, scanFinish s ++ [(otherLabel s, c)]) := by
  have hne : ∀ d : Char, d.toNat < 128 → c ≠ d := by
    rintro d hd rfl
    omega
  have hbase : scanBase c = (.base, [(.code, c)]) := by
    rw [scanBase, if_neg (by simp [hne]), if_neg (hne _ (by decide)), if_neg (hne _ (by decide)), if_neg (hne _ (by decide))]
  have hafter : ∀ t : Text, scanAfter t c = (.base, t.map (Label.code, ·) ++ [(.code, c)]) := by
    intro t
    rw [scanAfter, hbase]
  cases s with
  | base => exact hbase
  | dash | slash =>
      simp only [scanStep]
      rw [if_neg (hne _ (by decide)), hafter]
      rfl
  | dollar acc =>
      simp only [scanStep]
      rw [if_neg (by simp [isAsciiAlphanumeric_other hc, hne]), if_neg (hne _ (by decide)), hafter]
      rfl
  | quote q =>
      simp only [scanStep]
      rw [if_neg (hne _ (by decide)), if_neg (hne q hs)]
      rfl
  | quoteEscape q => rfl
  | quoteEnd q =>
      simp only [scanStep]
      rw [if_neg (hne q hs), hbase]
      rfl
  | body tag seen =>
      obtain ⟨tag, rfl⟩ := List.head?_eq_some_iff.mp hs.2
      have hpre : ¬ ('$' :: tag).isPrefixOf (c :: seen) = true := by
        rw [List.isPrefixOf, beq_eq_false_iff_ne.mpr (hne '$' (by decide)).symm]
        exact Bool.false_ne_true
      simp only [scanStep]
      rw [if_neg hpre]
      rfl
  | line =>
      simp only [scanStep]
      rw [if_neg (hne _ (by decide))]
      rfl
  | block | blockSlash | blockStar =>
      simp only [scanStep]
      rw [if_neg (hne _ (by decide)), if_neg (hne _ (by decide))]
      rfl

theorem AsciiState.afterOther {s : ScanState} (hs : AsciiState s) (c : Char) : AsciiState (afterOther c s) := by
  cases s <;> first | exact hs | trivial

/-- Bytes that are not ASCII. -/
theorem scanFrom_others {bs : Text} (hbs : ∀ b ∈ bs, 128 ≤ b.toNat) (hne : bs ≠ []) {s : ScanState} (hs : AsciiState s)
    (t : Text) :
    scanFrom s (bs ++ t) = scanFinish s ++ bs.map (otherLabel s, ·) ++
      scanFrom (bs.foldl (fun s b => afterOther b s) s) t := by
  induction bs generalizing s with
  | nil => exact absurd rfl hne
  | cons b bs ih =>
      obtain ⟨hb, hbs⟩ := List.forall_mem_cons.mp hbs
      rw [List.cons_append, scanFrom_cons, scanStep_other hb hs]
      match bs with
      | [] => simp
      | b' :: bs =>
          have hlabel : otherLabel (Sql.afterOther b s) = otherLabel s := by cases s <;> rfl
          have hheld : scanFinish (Sql.afterOther b s) = [] := by cases s <;> rfl
          rw [ih hbs (List.cons_ne_nil b' bs) (hs.afterOther b), hlabel, hheld]
          simp

/-- After the bytes of a character the walk over the bytes is where the character leads to. -/
theorem onBytes_afterOther (c : Char) (s : ScanState) :
    (Text.asLatin1 [c]).foldl (fun s b => afterOther b s) (onBytes s) = onBytes (afterOther c s) := by
  have hbody : ∀ (bs tag seen : Text),
      bs.foldl (fun s b => afterOther b s) (.body tag seen) = .body tag (bs.reverse ++ seen) := by
    intro bs tag seen
    induction bs generalizing seen with
    | nil => rfl
    | cons b bs ih => rw [List.foldl_cons, afterOther, ih, List.reverse_cons, List.append_assoc, List.singleton_append]
  have hfix : ∀ (bs : Text) (s : ScanState), (∀ b, afterOther b s = s) → bs.foldl (fun s b => afterOther b s) s = s := by
    intro bs s hs
    induction bs with
    | nil => rfl
    | cons b bs ih => rw [List.foldl_cons, hs, ih]
  obtain ⟨b, bs, hbytes⟩ := List.exists_cons_of_ne_nil (Text.asLatin1_ne_nil c)
  cases s with
  | body tag seen =>
      rw [onBytes, hbody, afterOther, onBytes, lastBytes_cons]
  | base | dash | slash | dollar | quote | quoteEscape | quoteEnd | line | block | blockSlash | blockStar =>
      rw [hbytes, List.foldl_cons]
      exact hfix bs _ fun _ => rfl

/-! An ASCII character is its byte. -/

theorem onBytes_scanBase (c : Char) : onBytes (scanBase c).1 = (scanBase c).1 := by
  unfold scanBase
  repeat' split
  all_goals rfl

/-- A walk that is not inside of `$tag$` has no bytes to remember. -/
theorem onBytes_scanStep {s : ScanState} (hs : ∀ tag seen, s ≠ .body tag seen) (c : Char) :
    onBytes (scanStep s c).1 = (scanStep s c).1 := by
  cases s with
  | body tag seen => exact absurd rfl (hs tag seen)
  | base => exact onBytes_scanBase c
  | dash | slash | dollar | quoteEnd =>
      simp only [scanStep, scanAfter]
      repeat' split
      all_goals first
        | exact onBytes_scanBase c
        | rfl
  | quote | quoteEscape | line | block | blockSlash =>
      simp only [scanStep]
      repeat' split
      all_goals rfl
  | blockStar d =>
      simp only [scanStep]
      split
      · split <;> rfl
      · split <;> rfl

theorem scanStep_ascii {c : Char} (hc : c.toNat < 128) {s : ScanState} (hs : AsciiState s) :
    scanStep (onBytes s) c = (onBytes (scanStep s c).1, (scanStep s c).2) := by
  by_cases hbody : ∃ tag seen, s = .body tag seen
  · obtain ⟨tag, seen, rfl⟩ := hbody
    have hbytes : c :: lastBytes seen = lastBytes (c :: seen) := by
      rw [lastBytes_cons, Text.asLatin1_ascii hc]
      rfl
    simp only [onBytes, scanStep]
    rw [hbytes, isPrefixOf_lastBytes hs.1]
    split <;> rfl
  · have hout : ∀ tag seen, s ≠ .body tag seen := fun tag seen heq => hbody ⟨tag, seen, heq⟩
    have hsame : onBytes s = s := by
      cases s with
      | body tag seen => exact absurd rfl (hout tag seen)
      | _ => rfl
    rw [hsame, onBytes_scanStep hout]

/-- What the walk is holding back is ASCII, and the same on the bytes. -/
theorem AsciiState.finish {s : ScanState} (hs : AsciiState s) :
    scanFinish (onBytes s) = scanFinish s ∧ ∀ x ∈ scanFinish s, x.2.toNat < 128 := by
  cases s with
  | dollar acc =>
      refine ⟨rfl, ?_⟩
      intro x hx
      simp only [scanFinish, List.mem_map, List.mem_cons, List.mem_reverse] at hx
      obtain ⟨d, rfl | hd, rfl⟩ := hx
      · decide
      · exact hs d hd
  | dash | slash => exact ⟨rfl, by simp [scanFinish]⟩
  | _ => exact ⟨rfl, fun x hx => absurd hx List.not_mem_nil⟩

theorem AsciiState.scanBase {c : Char} (hc : c.toNat < 128) :
    AsciiState (scanBase c).1 ∧ ∀ x ∈ (Sql.scanBase c).2, x.2.toNat < 128 := by
  unfold Sql.scanBase
  repeat' split
  all_goals simp [AsciiState, hc]

theorem AsciiState.scanAfter {c : Char} (hc : c.toNat < 128) {t : Text} (ht : ∀ d ∈ t, d.toNat < 128) :
    AsciiState (scanAfter t c).1 ∧ ∀ x ∈ (Sql.scanAfter t c).2, x.2.toNat < 128 := by
  obtain ⟨hstate, hout⟩ := AsciiState.scanBase hc
  refine ⟨hstate, ?_⟩
  intro x hx
  obtain hx | hx := List.mem_append.mp hx
  · obtain ⟨d, hd, rfl⟩ := List.mem_map.mp hx
    exact ht d hd
  · exact hout x hx

theorem AsciiState.step {c : Char} (hc : c.toNat < 128) {s : ScanState} (hs : AsciiState s) :
    AsciiState (scanStep s c).1 ∧ ∀ x ∈ (scanStep s c).2, x.2.toNat < 128 := by
  cases s with
  | base => exact AsciiState.scanBase hc
  | dash | slash =>
      simp only [scanStep]
      split
      · exact ⟨trivial, by simp⟩
      · exact AsciiState.scanAfter hc (by simp)
  | dollar acc =>
      have hacc : ∀ d ∈ acc.reverse, d.toNat < 128 := fun d hd => hs d (List.mem_reverse.mp hd)
      have hdollar : '$'.toNat < 128 := by decide
      simp only [scanStep]
      split
      · exact ⟨List.forall_mem_cons.mpr ⟨hc, hs⟩, by simp⟩
      split
      · refine ⟨⟨?_, rfl⟩, ?_⟩
        · intro d hd
          simp only [List.mem_append, List.mem_cons, List.not_mem_nil, or_false] at hd
          obtain (rfl | hd) | rfl := hd
          all_goals first
            | exact hdollar
            | exact hs d hd
        · intro x hx
          simp only [List.mem_cons, List.mem_map, List.mem_append, List.not_mem_nil, or_false] at hx
          obtain rfl | ⟨d, hd | rfl, rfl⟩ := hx
          all_goals first
            | exact hdollar
            | exact hacc d hd
      · exact AsciiState.scanAfter hc (List.forall_mem_cons.mpr ⟨hdollar, hacc⟩)
  | quote q =>
      simp only [scanStep]
      repeat' split
      all_goals exact ⟨hs, by simpa using hc⟩
  | quoteEscape q => exact ⟨hs, by simpa [scanStep] using hc⟩
  | quoteEnd q =>
      simp only [scanStep]
      split
      · exact ⟨hs, by simpa using hc⟩
      · exact AsciiState.scanBase hc
  | body tag seen =>
      simp only [scanStep]
      split
      · exact ⟨trivial, by simpa using hc⟩
      · exact ⟨hs, by simpa using hc⟩
  | line =>
      simp only [scanStep]
      split
      all_goals exact ⟨trivial, by simpa using hc⟩
  | block | blockSlash =>
      simp only [scanStep]
      repeat' split
      all_goals exact ⟨trivial, by simpa using hc⟩
  | blockStar d =>
      refine ⟨?_, ?_⟩
      all_goals
        simp only [scanStep]
        repeat' split
      all_goals first
        | trivial
        | simpa using hc

theorem scanFrom_onBytes {s : ScanState} (hs : AsciiState s) (t : Text) :
    scanFrom (onBytes s) (Text.asLatin1 t) = labelBytes (scanFrom s t) := by
  induction t generalizing s with
  | nil =>
      rw [Text.asLatin1_nil, scanFrom_nil, scanFrom_nil, hs.finish.1, labelBytes_ascii hs.finish.2]
  | cons c t ih =>
      rw [Text.asLatin1_cons, scanFrom_cons s, labelBytes_append]
      by_cases hc : c.toNat < 128
      · obtain ⟨hnext, hout⟩ := hs.step hc
        rw [Text.asLatin1_ascii hc, List.singleton_append, scanFrom_cons, scanStep_ascii hc hs, ih hnext,
          labelBytes_ascii hout]
      · have hge : 128 ≤ c.toNat := Nat.not_lt.mp hc
        have hs' : AsciiState (onBytes s) := by cases s <;> exact hs
        have hlabel : otherLabel (onBytes s) = otherLabel s := by cases s <;> rfl
        rw [scanFrom_others (Text.asLatin1_ge hge) (Text.asLatin1_ne_nil c) hs', onBytes_afterOther, hs.finish.1, hlabel,
          scanStep_other hge hs, ih (hs.afterOther c), labelBytes_append, labelBytes_ascii hs.finish.2]
        simp [labelBytes]

/-- A piece of the bytes is the bytes of a piece. -/
theorem cutAtSemicolons_labelBytes (cur : Text) (l : Labelled) :
    cutAtSemicolons (lastBytes cur) (labelBytes l) = (cutAtSemicolons cur l).map Text.asLatin1 := by
  induction l generalizing cur with
  | nil =>
      match cur with
      | [] => rfl
      | c :: cur =>
          have hne : (lastBytes (c :: cur)).isEmpty = false := by
            rw [lastBytes_cons, List.isEmpty_eq_false_iff]
            simp [Text.asLatin1_ne_nil]
          rw [labelBytes_nil, cutAtSemicolons, hne]
          simp [cutAtSemicolons, lastBytes]
  | cons x l ih =>
      obtain ⟨label, c⟩ := x
      have hfirst : labelBytes ((label, c) :: l) = (Text.asLatin1 [c]).map (label, ·) ++ labelBytes l := List.flatMap_cons
      rw [hfirst]
      by_cases hsemi : label = .code ∧ c = ';'
      · obtain ⟨rfl, rfl⟩ := hsemi
        have hcut : cutAtSemicolons cur ((.code, ';') :: l) = cur.reverse :: cutAtSemicolons [] l := if_pos ⟨rfl, rfl⟩
        have hcutBytes : cutAtSemicolons (lastBytes cur) ((.code, ';') :: labelBytes l) =
            (lastBytes cur).reverse :: cutAtSemicolons [] (labelBytes l) := if_pos ⟨rfl, rfl⟩
        have hread : (lastBytes cur).reverse = Text.asLatin1 cur.reverse := by rw [lastBytes, List.reverse_reverse]
        have hrest : cutAtSemicolons [] (labelBytes l) = (cutAtSemicolons [] l).map Text.asLatin1 := ih []
        rw [hcut, List.map_cons, ← hread, ← hrest, ← hcutBytes, Text.asLatin1_ascii (by decide)]
        rfl
      · have hbytes : (Label.code, ';') ∉ (Text.asLatin1 [c]).map (label, ·) := by
          intro hmem
          obtain ⟨b, hb, heq⟩ := List.mem_map.mp hmem
          obtain ⟨rfl, rfl⟩ := Prod.mk.inj heq
          by_cases hc : c.toNat < 128
          · rw [Text.asLatin1_ascii hc, List.mem_singleton] at hb
            exact hsemi ⟨rfl, hb.symm⟩
          · exact absurd (Text.asLatin1_ge (Nat.not_lt.mp hc) _ hb) (by decide)
        rw [cutAtSemicolons_append hbytes, cutAtSemicolons, if_neg hsemi, ← ih (c :: cur), lastBytes_cons]
        simp [Function.comp_def]

/-- **The walk over the bytes cuts the bytes of the pieces.** -/
theorem split_asLatin1 (sql : Text) : splitStatements (Text.asLatin1 sql) = (splitStatements sql).map Text.asLatin1 := by
  unfold splitStatements
  rw [walk_scan, walk_scan, ← cutAtSemicolons_labelBytes [] (scanFrom .base sql)]
  have hbase : scanFrom .base (Text.asLatin1 sql) = labelBytes (scanFrom .base sql) :=
    scanFrom_onBytes (s := .base) trivial sql
  rw [hbase]
  rfl

/-! ## The cut of PostgreSQL -/

/-- The fragments are the pieces between the semicolons that PostgreSQL reads. -/
def CutsRight (standard : Bool) (sql : Text) : Prop := splitStatements sql = (Postgres.statements standard sql).map Postgres.raws

/-- The fragments are the text again, but for a semicolon at its end. -/
def Restores (sql : Text) : Prop :=
  Text.join [';'] (splitStatements sql) = sql ∨ Text.join [';'] (splitStatements sql) ++ [';'] = sql

/-- The fragments cut from the bytes are the bytes of the fragments. -/
def OnBoundaries (sql : Text) : Prop := splitStatements (Text.asLatin1 sql) = (splitStatements sql).map Text.asLatin1

/-- **The text is cut where PostgreSQL cuts it**, with the strings of either setting, as long as every token is read
alike; and whatever the text, nothing of it is lost and no character is cut in two. -/
theorem cuts_where_postgres_cuts (standard : Bool) (sql : Text) :
    (allAlike standard (Postgres.lex standard sql) = true → CutsRight standard sql) ∧ Restores sql ∧ OnBoundaries sql :=
  ⟨split_alike, join_split sql, split_asLatin1 sql⟩

/-- A backslash and a quote in a string, where a backslash is an escape. -/
theorem cuts_where_postgres_cuts_escaped :
    splitStatements "SELECT 'back\\'slash; SET x = 1'; -- $é$\nSELECT a$1".toList =
      ["SELECT 'back\\'slash; SET x = 1'".toList, " -- $é$\nSELECT a$1".toList] := by
  have h := (cuts_where_postgres_cuts false "SELECT 'back\\'slash; SET x = 1'; -- $é$\nSELECT a$1".toList).1 (by decide)
  rw [CutsRight] at h
  rw [h]
  decide

/-- Where it is none, two statements are hidden in what the walk takes for one literal. -/
theorem not_cuts_where_postgres_cuts : ¬ ∀ sql : Text, CutsRight true sql ∧ Restores sql ∧ OnBoundaries sql := by
  intro h
  have hcut := (h "SELECT 'a\\'; SET ROLE x; SELECT 'b'".toList).1
  rw [CutsRight] at hcut
  revert hcut
  decide

end Sql

end Havuz
