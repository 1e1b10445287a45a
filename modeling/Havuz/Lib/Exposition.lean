import Mathlib

/-!
# A text format of metrics

A text is lines. Two comments open a metric, and every line behind them is a series of it, with its labels and its value.
A label is quoted, and a backslash stands in front of a backslash, of a quote and of the `n` of a line feed. `write`
writes what `read` reads: the names are names, every metric is opened once, and the text of a label is any text
(`read_write`).
-/

namespace Havuz.Lib.Exposition

/-! ## Separators -/

section Separators

variable {α : Type*} [DecidableEq α] {sep : α}

/-- What stands in front of the first separator, and what stands behind it. -/
def cut (sep : α) : List α → Option (List α × List α)
  | [] => none
  | a :: l => if a = sep then some ([], l) else (cut sep l).map fun p => (a :: p.1, p.2)

theorem cut_append {front : List α} (h : sep ∉ front) (rest : List α) :
    cut sep (front ++ sep :: rest) = some (front, rest) := by
  induction front with
  | nil => exact if_pos rfl
  | cons a front ih =>
      obtain ⟨hne, hrest⟩ := not_or.mp (List.mem_cons.not.mp h)
      rw [List.cons_append, cut, if_neg (Ne.symm hne), ih hrest]
      rfl

/-- Pieces that each end in a separator. Nothing stands behind the last. -/
def pieces (sep : α) : List α → Option (List (List α))
  | [] => some []
  | a :: l =>
      match pieces sep l with
      | none => none
      | some ps =>
          if a = sep then some ([] :: ps)
          else
            match ps with
            | [] => none
            | p :: ps => some ((a :: p) :: ps)

theorem pieces_piece {p : List α} (h : sep ∉ p) {l : List α} {ps : List (List α)} (hl : pieces sep l = some ps) :
    pieces sep (p ++ sep :: l) = some (p :: ps) := by
  induction p with
  | nil =>
      rw [List.nil_append, pieces, hl]
      exact if_pos rfl
  | cons a p ih =>
      obtain ⟨hne, hrest⟩ := not_or.mp (List.mem_cons.not.mp h)
      rw [List.cons_append, pieces, ih hrest]
      exact if_neg (Ne.symm hne)

theorem pieces_flatMap {ps : List (List α)} (h : ∀ p ∈ ps, sep ∉ p) :
    pieces sep (ps.flatMap fun p => p ++ [sep]) = some ps := by
  induction ps with
  | nil => rfl
  | cons p ps ih =>
      obtain ⟨hp, hps⟩ := List.forall_mem_cons.mp h
      rw [List.flatMap_cons, List.append_assoc]
      exact pieces_piece hp (ih hps)

/-- What stands behind a prefix. -/
def behind : List α → List α → Option (List α)
  | [], l => some l
  | a :: pre, b :: l => if a = b then behind pre l else none
  | _ :: _, [] => none

theorem behind_append (pre l : List α) : behind pre (pre ++ l) = some l := by
  induction pre with
  | nil => rfl
  | cons a pre ih =>
      rw [List.cons_append, behind, if_pos rfl]
      exact ih

/-- A list that begins otherwise. -/
theorem behind_eq_none {a b : α} (h : a ≠ b) (pre l : List α) : behind (a :: pre) (b :: l) = none := if_neg h

end Separators

/-! ## Names -/

def isNameStart (c : Char) : Bool := c.isAlpha || c == '_'

def isNameChar (c : Char) : Bool := isNameStart c || c.isDigit

def isName : List Char → Bool
  | [] => false
  | c :: cs => isNameStart c && cs.all isNameChar

theorem all_of_isName {name : List Char} (h : isName name = true) : ∀ c ∈ name, isNameChar c = true := by
  cases name with
  | nil => exact List.forall_mem_nil _
  | cons c cs =>
      obtain ⟨hc, hcs⟩ := Bool.and_eq_true_iff.mp h
      refine List.forall_mem_cons.mpr ⟨?_, List.all_eq_true.mp hcs⟩
      rw [isNameChar, hc]
      rfl

/-- A character that is not one of a name's is in none. -/
theorem not_mem_of_isName {name : List Char} (h : isName name = true) {c : Char} (hc : isNameChar c = false) :
    c ∉ name := by
  intro hmem
  rw [all_of_isName h c hmem] at hc
  cases hc

/-! ## Quoted texts -/

def escapeChar (c : Char) : List Char :=
  if c = '\\' then ['\\', '\\'] else if c = '"' then ['\\', '"'] else if c = '\n' then ['\\', 'n'] else [c]

def escape (value : List Char) : List Char := value.flatMap escapeChar

/-- The character a backslash stands in front of. -/
def unescapeChar (c : Char) : Option Char :=
  if c = '\\' ∨ c = '"' then some c else if c = 'n' then some '\n' else none

/-- A text up to the quote that closes it, and what stands behind that. -/
def unquote : List Char → Option (List Char × List Char)
  | [] => none
  | '\\' :: c :: rest =>
      match unescapeChar c with
      | none => none
      | some c => (unquote rest).map fun p => (c :: p.1, p.2)
  | c :: rest => if c = '"' then some ([], rest) else (unquote rest).map fun p => (c :: p.1, p.2)

theorem unquote_escapeChar (c : Char) (rest : List Char) :
    unquote (escapeChar c ++ rest) = (unquote rest).map fun p => (c :: p.1, p.2) := by
  unfold escapeChar
  split_ifs with hback hquote hline
  · subst hback
    rfl
  · subst hquote
    rfl
  · subst hline
    rfl
  · rw [List.singleton_append, unquote]
    · exact if_neg hquote
    · intro d rest' heq
      exact absurd heq hback

theorem unquote_escape (value rest : List Char) : unquote (escape value ++ '"' :: rest) = some (value, rest) := by
  induction value with
  | nil => rfl
  | cons c value ih =>
      rw [escape, List.flatMap_cons, List.append_assoc, unquote_escapeChar]
      rw [escape] at ih
      rw [ih]
      rfl

/-- An escaped text is on one line. -/
theorem not_mem_escape (value : List Char) : '\n' ∉ escape value := by
  rw [escape, List.mem_flatMap]
  rintro ⟨c, -, hmem⟩
  unfold escapeChar at hmem
  split_ifs at hmem with hback hquote hline
  · simp at hmem
  · simp at hmem
  · simp at hmem
  · exact hline (List.mem_singleton.mp hmem).symm

/-! ## Metrics -/

structure Label where
  key : List Char
  value : List Char
deriving DecidableEq, Repr

structure Series where
  labels : List Label
  value : List Char
deriving DecidableEq, Repr

structure Metric where
  name : List Char
  kind : List Char
  help : List Char
  series : List Series
deriving DecidableEq, Repr

def kinds : List (List Char) :=
  ["counter".toList, "gauge".toList, "histogram".toList, "summary".toList, "untyped".toList]

structure Series.Good (s : Series) : Prop where
  keys : ∀ l ∈ s.labels, isName l.key = true
  value : s.value ≠ []
  plain : ∀ c ∈ s.value, c ≠ ' ' ∧ c ≠ '\n'

structure Metric.Good (m : Metric) : Prop where
  name : isName m.name = true
  kind : m.kind ∈ kinds
  help : '\n' ∉ m.help
  series : ∀ s ∈ m.series, s.Good

/-! ### Writing -/

def Label.write (l : Label) : List Char := l.key ++ '=' :: '"' :: escape l.value ++ ['"']

/-- Labels, behind the brace that opens them. -/
def writeLabels : Label → List Label → List Char
  | l, [] => l.write ++ ['}']
  | l, l' :: ls => l.write ++ ',' :: writeLabels l' ls

def Series.label (s : Series) : List Char :=
  match s.labels with
  | [] => []
  | l :: ls => '{' :: writeLabels l ls

def helpText : List Char := "# HELP ".toList

def typeText : List Char := "# TYPE ".toList

inductive Line where
  | help (name text : List Char)
  | type (name kind : List Char)
  | series (name : List Char) (s : Series)
deriving DecidableEq, Repr

def Line.write : Line → List Char
  | .help name text => helpText ++ (name ++ ' ' :: text)
  | .type name kind => typeText ++ (name ++ ' ' :: kind)
  | .series name s => name ++ (s.label ++ ' ' :: s.value)

def Metric.lines (m : Metric) : List Line :=
  .help m.name m.help :: .type m.name m.kind :: m.series.map (.series m.name)

def write (ms : List Metric) : List Char := (ms.flatMap Metric.lines).flatMap fun l => l.write ++ ['\n']

/-! ### Reading -/

def readLabel (text : List Char) : Option (Label × List Char) :=
  match cut '=' text with
  | some (key, '"' :: rest) =>
      if isName key = true then (unquote rest).map fun p => (⟨key, p.1⟩, p.2) else none
  | _ => none

/-- Labels, behind the brace that opens them. The fuel is the number there can be. -/
def readLabels : ℕ → List Char → Option (List Label × List Char)
  | 0, _ => none
  | fuel + 1, text =>
      match readLabel text with
      | some (l, '}' :: rest) => some ([l], rest)
      | some (l, ',' :: rest) => (readLabels fuel rest).map fun p => (l :: p.1, p.2)
      | _ => none

def readValue (labels : List Label) : List Char → Option Series
  | ' ' :: value => if value = [] ∨ ' ' ∈ value then none else some ⟨labels, value⟩
  | _ => none

/-- What stands behind the name of a series. -/
def readSeries : List Char → Option Series
  | '{' :: rest => (readLabels rest.length rest).bind fun p => readValue p.1 p.2
  | rest => readValue [] rest

def readLine (text : List Char) : Option Line :=
  match behind helpText text with
  | some rest => (cut ' ' rest).map fun p => .help p.1 p.2
  | none =>
      match behind typeText text with
      | some rest => (cut ' ' rest).map fun p => .type p.1 p.2
      | none => (readSeries (text.dropWhile isNameChar)).map fun s => .series (text.takeWhile isNameChar) s

/-- What has been read, the last metric first, with one more line. -/
def add : List Metric → Line → Option (List Metric)
  | ms, .help name text =>
      if isName name = true ∧ name ∉ ms.map Metric.name then some (⟨name, [], text, []⟩ :: ms) else none
  | m :: ms, .type name kind =>
      if m.name = name ∧ m.kind = [] ∧ kind ∈ kinds then some ({ m with kind } :: ms) else none
  | m :: ms, .series name s =>
      if m.name = name ∧ m.kind ≠ [] then some ({ m with series := m.series ++ [s] } :: ms) else none
  | [], _ => none

def read (text : List Char) : Option (List Metric) := do
  let ls ← pieces '\n' text
  let ls ← ls.mapM readLine
  let ms ← ls.foldlM add []
  some ms.reverse

/-! ### What is written is read -/

theorem readLabel_write {l : Label} (h : isName l.key = true) (rest : List Char) :
    readLabel (l.write ++ rest) = some (l, rest) := by
  have hcut : cut '=' (l.write ++ rest) = some (l.key, '"' :: (escape l.value ++ '"' :: rest)) := by
    rw [Label.write, List.append_assoc]
    have hkey : '=' ∉ l.key := not_mem_of_isName h rfl
    simpa using cut_append hkey ('"' :: (escape l.value ++ '"' :: rest))
  simp only [readLabel, hcut, if_pos h, unquote_escape]
  rfl

theorem readLabels_write {l : Label} {ls : List Label} (h : ∀ x ∈ l :: ls, isName x.key = true) {fuel : ℕ}
    (hfuel : ls.length < fuel) (rest : List Char) :
    readLabels fuel (writeLabels l ls ++ rest) = some (l :: ls, rest) := by
  obtain ⟨fuel, rfl⟩ := Nat.exists_eq_add_one.mpr (Nat.zero_lt_of_lt hfuel)
  induction ls generalizing l fuel with
  | nil =>
      obtain ⟨hl, -⟩ := List.forall_mem_cons.mp h
      rw [writeLabels, List.append_assoc, readLabels, readLabel_write hl]
      rfl
  | cons l' ls ih =>
      obtain ⟨hl, hls⟩ := List.forall_mem_cons.mp h
      rw [List.length_cons, Nat.add_lt_add_iff_right] at hfuel
      obtain ⟨fuel, rfl⟩ := Nat.exists_eq_add_one.mpr (Nat.zero_lt_of_lt hfuel)
      rw [writeLabels, List.append_assoc, readLabels, readLabel_write hl]
      have hrest := ih hls fuel hfuel
      simp only [List.cons_append, hrest]
      rfl

theorem length_writeLabels (l : Label) (ls : List Label) : ls.length < (writeLabels l ls).length := by
  induction ls generalizing l with
  | nil => simp [writeLabels]
  | cons l' ls ih =>
      have hrest := ih l'
      simp only [writeLabels, List.length_cons, List.length_append]
      omega

theorem readValue_good {s : Series} (h : s.Good) : readValue s.labels (' ' :: s.value) = some s := by
  have hblank : ' ' ∉ s.value := fun hmem => (h.plain _ hmem).1 rfl
  exact if_neg (not_or.mpr ⟨h.value, hblank⟩)

theorem readSeries_write {s : Series} (h : s.Good) : readSeries (s.label ++ ' ' :: s.value) = some s := by
  have hvalue := readValue_good h
  unfold Series.label
  cases hlabels : s.labels with
  | nil =>
      rw [hlabels] at hvalue
      exact hvalue
  | cons l ls =>
      have hkeys := h.keys
      rw [hlabels] at hkeys hvalue
      have hlength := length_writeLabels l ls
      have hfuel : ls.length < (writeLabels l ls ++ ' ' :: s.value).length := by
        rw [List.length_append]
        omega
      have hread := readLabels_write hkeys hfuel (' ' :: s.value)
      rw [List.cons_append, readSeries, hread]
      exact hvalue

def Line.Good : Line → Prop
  | .help name text => isName name = true ∧ '\n' ∉ text
  | .type name kind => isName name = true ∧ kind ∈ kinds
  | .series name s => isName name = true ∧ s.Good

/-- What stands behind a name begins with a blank or a brace. -/
theorem Series.front_label (s : Series) : (s.label ++ ' ' :: s.value).takeWhile isNameChar = [] ∧
    (s.label ++ ' ' :: s.value).dropWhile isNameChar = s.label ++ ' ' :: s.value := by
  unfold Series.label
  cases s.labels with
  | nil => exact ⟨rfl, rfl⟩
  | cons l ls => exact ⟨rfl, rfl⟩

theorem readLine_write {l : Line} (h : l.Good) : readLine l.write = some l := by
  cases l with
  | help name text =>
      rw [Line.write, readLine, behind_append]
      dsimp only
      rw [cut_append (not_mem_of_isName h.1 rfl)]
      rfl
  | type name kind =>
      have hno : behind helpText (typeText ++ (name ++ ' ' :: kind)) = none := rfl
      rw [Line.write, readLine, hno, behind_append]
      dsimp only
      rw [cut_append (not_mem_of_isName h.1 rfl)]
      rfl
  | series name s =>
      obtain ⟨hname, hs⟩ := h
      have hall := all_of_isName hname
      -- A name does not begin with the sign of a comment.
      have hcomment : ∀ pre : List Char, behind ('#' :: pre) (name ++ (s.label ++ ' ' :: s.value)) = none := by
        intro pre
        cases name with
        | nil => cases hname
        | cons c cs =>
            have hc := hall c List.mem_cons_self
            refine behind_eq_none ?_ _ _
            rintro rfl
            cases hc
      rw [Line.write, readLine, show behind helpText _ = none from hcomment _,
        show behind typeText _ = none from hcomment _]
      dsimp only
      rw [List.takeWhile_append_of_pos hall, List.dropWhile_append_of_pos hall, (s.front_label).1, (s.front_label).2,
        readSeries_write hs, List.append_nil]
      rfl

theorem not_mem_writeLabels {l : Label} {ls : List Label} (h : ∀ x ∈ l :: ls, isName x.key = true) :
    '\n' ∉ writeLabels l ls := by
  have hlabel : ∀ {x : Label}, isName x.key = true → '\n' ∉ x.write := by
    intro x hx
    have hkey : '\n' ∉ x.key := not_mem_of_isName hx rfl
    simp [Label.write, hkey, not_mem_escape]
  induction ls generalizing l with
  | nil =>
      obtain ⟨hl, -⟩ := List.forall_mem_cons.mp h
      simp [writeLabels, hlabel hl]
  | cons l' ls ih =>
      obtain ⟨hl, hls⟩ := List.forall_mem_cons.mp h
      simp [writeLabels, hlabel hl, ih hls]

/-- What is written of a line is on one line. -/
theorem Line.not_mem_write {l : Line} (h : l.Good) : '\n' ∉ l.write := by
  have hname : ∀ {name : List Char}, isName name = true → '\n' ∉ name := fun hn => not_mem_of_isName hn rfl
  cases l with
  | help name text =>
      have hcomment : '\n' ∉ helpText := by decide
      simp [Line.write, hcomment, hname h.1, h.2]
  | type name kind =>
      have hkind : ∀ k ∈ kinds, '\n' ∉ k := by decide
      have hcomment : '\n' ∉ typeText := by decide
      simp [Line.write, hcomment, hname h.1, hkind kind h.2]
  | series name s =>
      have hvalue : '\n' ∉ s.value := fun hmem => (h.2.plain _ hmem).2 rfl
      have hlabel : '\n' ∉ s.label := by
        have hkeys := h.2.keys
        unfold Series.label
        cases hlabels : s.labels with
        | nil => exact List.not_mem_nil
        | cons l ls =>
            rw [hlabels] at hkeys
            simp [not_mem_writeLabels hkeys]
      simp [Line.write, hname h.1, hlabel, hvalue]

theorem Metric.Good.lines {m : Metric} (h : m.Good) : ∀ l ∈ m.lines, l.Good := by
  refine List.forall_mem_cons.mpr ⟨⟨h.name, h.help⟩, List.forall_mem_cons.mpr ⟨⟨h.name, h.kind⟩, ?_⟩⟩
  intro l hl
  obtain ⟨s, hs, rfl⟩ := List.mem_map.mp hl
  exact ⟨h.name, h.series s hs⟩

theorem mapM_write {ls : List Line} (h : ∀ l ∈ ls, l.Good) : (ls.map Line.write).mapM readLine = some ls := by
  induction ls with
  | nil => rfl
  | cons l ls ih =>
      obtain ⟨hl, hls⟩ := List.forall_mem_cons.mp h
      rw [List.map_cons, List.mapM_cons, readLine_write hl, ih hls]
      rfl

/-- The lines of a series come to the metric that is open. -/
theorem foldlM_series {m : Metric} (hm : m.kind ≠ []) (ms : List Metric) (ss : List Series) :
    (ss.map (Line.series m.name)).foldlM add (m :: ms) = some ({ m with series := m.series ++ ss } :: ms) := by
  induction ss generalizing m with
  | nil => simp
  | cons s ss ih =>
      have hrest : (ss.map (Line.series m.name)).foldlM add ({ m with series := m.series ++ [s] } :: ms) =
          some ({ m with series := m.series ++ [s] ++ ss } :: ms) := ih hm
      rw [List.map_cons, List.foldlM_cons, add, if_pos ⟨rfl, hm⟩]
      rw [List.append_assoc] at hrest
      exact hrest

theorem foldlM_lines {m : Metric} (h : m.Good) {ms : List Metric} (hnew : m.name ∉ ms.map Metric.name) :
    m.lines.foldlM add ms = some (m :: ms) := by
  have hkind : ({ m with series := [] } : Metric).kind ≠ [] := by
    have hall : ∀ k ∈ kinds, k ≠ [] := by decide
    exact hall _ h.kind
  rw [Metric.lines, List.foldlM_cons, add, if_pos ⟨h.name, hnew⟩, Option.bind_eq_bind, Option.bind_some,
    List.foldlM_cons, add, if_pos ⟨rfl, rfl, h.kind⟩, Option.bind_eq_bind, Option.bind_some]
  have hseries : (m.series.map (Line.series m.name)).foldlM add ({ m with series := [] } :: ms) = some (m :: ms) :=
    foldlM_series hkind ms m.series
  exact hseries

theorem foldlM_metrics {ms : List Metric} (h : ∀ m ∈ ms, m.Good) {before : List Metric}
    (hnew : (before.map Metric.name ++ ms.map Metric.name).Nodup) :
    (ms.flatMap Metric.lines).foldlM add before = some (ms.reverse ++ before) := by
  induction ms generalizing before with
  | nil => rfl
  | cons m ms ih =>
      obtain ⟨hm, hms⟩ := List.forall_mem_cons.mp h
      rw [List.map_cons, List.nodup_append_comm, List.cons_append, List.nodup_cons] at hnew
      obtain ⟨hfresh, hrest⟩ := hnew
      have hout : m.name ∉ before.map Metric.name := fun hmem => hfresh (List.mem_append_right _ hmem)
      have hnext : ((m :: before).map Metric.name ++ ms.map Metric.name).Nodup := by
        rw [List.map_cons, List.cons_append, List.nodup_cons, List.mem_append, List.nodup_append_comm]
        exact ⟨fun hmem => hfresh (List.mem_append.mpr hmem.symm), hrest⟩
      rw [List.flatMap_cons, List.foldlM_append, foldlM_lines hm hout, Option.bind_eq_bind, Option.bind_some,
        ih hms hnext, List.reverse_cons, List.append_assoc]
      rfl

/-- What is written is read, when no metric is opened twice. -/
theorem read_write {ms : List Metric} (h : ∀ m ∈ ms, m.Good) (hnames : (ms.map Metric.name).Nodup) :
    read (write ms) = some ms := by
  have hgood : ∀ l ∈ ms.flatMap Metric.lines, l.Good := by
    intro l hl
    obtain ⟨m, hm, hl⟩ := List.mem_flatMap.mp hl
    exact (h m hm).lines l hl
  have hlines : ∀ p ∈ (ms.flatMap Metric.lines).map Line.write, '\n' ∉ p := by
    intro p hp
    obtain ⟨l, hl, rfl⟩ := List.mem_map.mp hp
    exact Line.not_mem_write (hgood l hl)
  have hpieces := pieces_flatMap hlines
  rw [List.flatMap_map] at hpieces
  have hfold : (ms.flatMap Metric.lines).foldlM add [] = some (ms.reverse ++ []) :=
    foldlM_metrics h (by simpa using hnames)
  simp only [read, write, hpieces, mapM_write hgood, hfold, Option.bind_eq_bind, Option.bind_some, List.append_nil,
    List.reverse_reverse]

end Havuz.Lib.Exposition
