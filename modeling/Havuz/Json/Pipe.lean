import Havuz.Json.Reject

/-!
# One document per line

Reference: `emit` of `Agent.java`, and the line readers at both ends of the pipe.

Every control character is escaped where a string is written, and nothing else writes one, so a written document is one
line and the lines that are read are the documents that were written (`readLines_emitted`). With what the parser makes of
a document, of a text that goes on behind one and of a text that ends inside a string, this is what the pipe needs of the
agent's JSON (`survives`).
-/

namespace Havuz.Json

variable {J : Doubles}

/-! ## Line breaks -/

/-- What a line reader ends a line at: a line feed or a carriage return. -/
def breaksLine (c : UInt16) : Bool := c = 10 || c = 13

/-- No control characters. -/
def Printed (t : JString) : Prop := ∀ c ∈ t, 0x20 ≤ c

instance (t : JString) : Decidable (Printed t) := List.decidableBAll _ t

theorem Printed.append {t t' : JString} (h : Printed t) (h' : Printed t') : Printed (t ++ t') :=
  List.forall_mem_append.mpr ⟨h, h'⟩

theorem Printed.cons {c : UInt16} (hc : 0x20 ≤ c) {t : JString} (h : Printed t) : Printed (c :: t) :=
  List.forall_mem_cons.mpr ⟨hc, h⟩

theorem Printed.not_breaks {t : JString} (h : Printed t) : ∀ c ∈ t, breaksLine c = false := by
  intro c hc
  have hprinted := h c hc
  rw [breaksLine, Bool.or_eq_false_iff, decide_eq_false_iff_not, decide_eq_false_iff_not]
  constructor
  · rintro rfl
    revert hprinted
    decide
  · rintro rfl
    revert hprinted
    decide

theorem printed_writeUnit (c : UInt16) : Printed (writeUnit c) := by
  have hdigit : ∀ n < 16, 0x20 ≤ hexDigit n := by decide
  rw [writeUnit]
  split_ifs with hquote hescape hn hr ht hb hf hcontrol
  · decide
  · decide
  · decide
  · decide
  · decide
  · decide
  · decide
  · refine Printed.append (by decide) ?_
    intro u hu
    simp only [format04x, List.mem_cons, List.not_mem_nil, or_false] at hu
    obtain rfl | rfl | rfl | rfl := hu <;> exact hdigit _ (Nat.mod_lt _ (by omega))
  · intro u hu
    rw [List.mem_singleton.mp hu]
    exact UInt16.not_lt.mp hcontrol

theorem printed_writeString (s : JString) : Printed (writeString s) := by
  have hquote : 0x20 ≤ unit '"' := by decide
  refine Printed.append (.cons hquote fun u hu => ?_) (by decide)
  obtain ⟨c, -, hc⟩ := List.mem_flatMap.mp hu
  exact printed_writeUnit c u hc

theorem printed_longToString (n : Int64) : Printed (longToString n) := by
  have hdigit : ∀ d < 10, 0x20 ≤ digitUnit d := by decide
  rw [longToString]
  refine Printed.append ?_ fun u hu => ?_
  · split_ifs <;> decide
  · obtain ⟨d, hd, rfl⟩ := List.mem_map.mp hu
    exact hdigit d ((Numeral.ofLong n).digit d hd)

mutual

theorem printed_write : ∀ v : Value J, Plain v → Printed (write v)
  | .null, _ => (by decide : Printed (units "null"))
  | .bool true, _ => (by decide : Printed (units "true"))
  | .bool false, _ => (by decide : Printed (units "false"))
  | .long n, _ => printed_longToString n
  | .double _, h => absurd h id
  | .string s, _ => printed_writeString s
  | .list items, h => .append (.cons (by decide) (printed_writeItems true items h)) (by decide)
  | .map entries, h => .append (.cons (by decide) (printed_writeEntries true entries h.2)) (by decide)

theorem printed_writeItems (first : Bool) : ∀ items : List (Value J), PlainItems items → Printed (writeItems first items)
  | [], _ => (by decide : Printed [])
  | item :: rest, h => by
      rw [writeItems]
      refine .append (.append ?_ (printed_write item h.1)) (printed_writeItems false rest h.2)
      split_ifs <;> decide

theorem printed_writeEntries (first : Bool) : ∀ entries : List (JString × Value J), PlainEntries entries →
    Printed (writeEntries first entries)
  | [], _ => (by decide : Printed [])
  | (key, v) :: rest, h => by
      rw [writeEntries]
      refine .append (.append (.append ?_ (printed_writeString key)) (.cons (by decide) (printed_write v h.1)))
        (printed_writeEntries false rest h.2)
      split_ifs <;> decide

end

/-! ## Lines -/

/-- A text without a line break is a line. -/
theorem readLines_line {t : JString} (h : ∀ c ∈ t, breaksLine c = false) (cur rest : JString) :
    readLines cur (t ++ 10 :: rest) = (cur ++ t) :: readLines [] rest := by
  induction t generalizing cur with
  | nil =>
      rw [List.append_nil, List.nil_append, readLines.eq_def]
      rfl
  | cons c t ih =>
      obtain ⟨hc, ht⟩ := List.forall_mem_cons.mp h
      rw [breaksLine, Bool.or_eq_false_iff, decide_eq_false_iff_not, decide_eq_false_iff_not] at hc
      rw [List.cons_append, readLines.eq_def]
      dsimp only
      rw [if_neg hc.1, if_neg hc.2, ih ht, List.append_assoc]
      rfl

/-- The lines that are read are the documents that were written, in their order. -/
theorem readLines_emitted (documents : List (List (JString × Value J))) (h : ∀ d ∈ documents, Plain (.map d)) :
    readLines [] (documents.flatMap emit) = documents.map fun d => write (.map d) := by
  induction documents with
  | nil => rfl
  | cons d documents ih =>
      obtain ⟨hd, hdocuments⟩ := List.forall_mem_cons.mp h
      have hline := readLines_line (printed_write (.map d) hd).not_breaks [] (documents.flatMap emit)
      rw [List.flatMap_cons, emit, List.append_assoc, List.map_cons, ← ih hdocuments]
      exact hline

/-- An answer can be written when its parts can. -/
theorem plain_response {id : Value J} {result : Option (Value J)} {error : Option (List (JString × Value J))} (hid : Plain id)
    (hresult : ∀ v ∈ result, Plain v) (herror : ∀ e ∈ error, Plain (.map e)) : Plain (.map (response id result error)) := by
  have herrorKeys : [units "jsonrpc", units "id", units "error"].Nodup := by decide
  have hresultKeys : [units "jsonrpc", units "id", units "result"].Nodup := by decide
  cases error with
  | some e => exact ⟨herrorKeys, trivial, hid, herror e rfl, trivial⟩
  | none =>
      cases result with
      | some v => exact ⟨hresultKeys, trivial, hid, hresult v rfl, trivial⟩
      | none => exact ⟨hresultKeys, trivial, hid, ⟨List.nodup_nil, trivial⟩, trivial⟩

/-- An answer arrives as the line that was written for it, and is parsed to what was answered. -/
theorem response_arrives {id : Value J} {result : Option (Value J)} {error : Option (List (JString × Value J))}
    (hid : Plain id) (hresult : ∀ v ∈ result, Plain v) (herror : ∀ e ∈ error, Plain (.map e)) :
    (readLines [] (emit (response id result error))).map parse =
      [(.ok (.map (response id result error)) : Except ParseError (Value J))] := by
  have hplain := plain_response hid hresult herror
  have hlines := readLines_emitted [response id result error] fun d hd => by rw [List.mem_singleton.mp hd]; exact hplain
  rw [List.flatMap_singleton] at hlines
  rw [hlines, List.map_singleton, List.map_singleton, parse_write hplain]

/-! ## The pipe -/

/-- What is written is read back and breaks no line; every document is parsed to the value it denotes; what goes on behind
a document, and is not white space or more of a number, is rejected, and so is a text that ends inside a string. -/
theorem survives (J : Doubles) :
    (∀ v : Value J, Plain v → parse (write v) = .ok v ∧ ∀ c ∈ write v, breaksLine c = false) ∧
      (∀ t : DocText, parse t.text = .ok (t.doc.value : Value J)) ∧
      (∀ (t more : JString) (v : Value J), parse t = .ok v → (∃ u ∈ more, isBlank u = false) →
        (v.isNumber = true → Ends more) → Rejected J (t ++ more)) ∧
      ∀ input, endsInString input → Rejected J input := by
  refine ⟨fun v hv => ⟨parse_write hv, (printed_write v hv).not_breaks⟩, parse_doc, ?_, fun input => rejected_of_endsInString⟩
  intro t more v hparse hmore hnumber
  obtain ⟨k, hk⟩ := trailing_rejected hparse hmore hnumber
  exact ⟨.trailingContent k, by simp, hk⟩

/-- No doubles. -/
def noDoubles : Doubles := ⟨Unit, fun _ => none, fun _ => false, fun _ => []⟩

/-- A row with a line break and half of a surrogate pair in it, a text with another behind it, and an open string. -/
theorem survives_row :
    parse (write (.list [.long (-5), .string [10, 0xD800, 34]] : Value noDoubles)) =
        .ok (.list [.long (-5), .string [10, 0xD800, 34]] : Value noDoubles) ∧
      Rejected noDoubles (units "[] x") ∧ Rejected noDoubles (units "[\"ab") :=
  ⟨((survives noDoubles).1 _ (by simp [Plain, PlainItems])).1,
    (survives noDoubles).2.2.1 (units "[]") (units " x") (.list [])
      ((survives noDoubles).2.1 ⟨noBlanks, .emptyArray noBlanks, noBlanks⟩) ⟨unit 'x', by decide, by decide⟩
      (fun h => by cases h),
    (survives noDoubles).2.2.2 _ (by unfold endsInString; decide)⟩

end Havuz.Json
