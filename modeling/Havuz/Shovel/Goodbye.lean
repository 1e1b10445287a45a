import Mathlib
import Havuz.Shovel.Scanner

/-!
# The goodbye is held back and nothing else is

Reference: `FrameScanner::scan` and the client branch of `session_relay_inner` in `havuz-pg/src/relay.rs`.

`beforeGoodbye` reads a whole stream at once: it follows the declared lengths from message to message and
stops at the first tag that is `Terminate`. The scanner reads the same stream in chunks. What ties the two
together is `FrameScanner.ahead`, what the reference still lets through from where the scanner stands: a
round of the loop takes a piece off it that the relay forwards, wherever the chunk is cut.

`ArrayScanner` is the scanner with the array, the indices and the subtractions of the source, each of which
can fail.
-/

namespace Havuz

open Lib

variable {σ : Type}

/-! ## The stream at once -/

/-- What comes before the first `Terminate` of a stream of messages. Each round takes at least a header off. -/
def beforeGoodbyeLoop : Nat → Bytes → Bytes
  | 0, _ => []
  | _ + 1, [] => []
  | fuel + 1, b :: bs =>
      if b = byte 'X' then []
      else if (b :: bs).length < headerLen then b :: bs
      else
        let size := headerLen + bodyLen (b :: bs)
        (b :: bs).take size ++ beforeGoodbyeLoop fuel ((b :: bs).drop size)

def beforeGoodbye (bs : Bytes) : Bytes := beforeGoodbyeLoop bs.length bs

theorem beforeGoodbyeLoop_stable {fuel fuel' : Nat} {bs : Bytes} (h : bs.length ≤ fuel) (h' : bs.length ≤ fuel') :
    beforeGoodbyeLoop fuel bs = beforeGoodbyeLoop fuel' bs := by
  induction fuel generalizing fuel' bs with
  | zero =>
      obtain rfl : bs = [] := List.length_eq_zero_iff.mp (by omega)
      cases fuel' <;> rfl
  | succ fuel ih =>
      match bs, fuel' with
      | [], 0 => rfl
      | [], _ + 1 => rfl
      | b :: bs, fuel' + 1 =>
          rw [beforeGoodbyeLoop, beforeGoodbyeLoop]
          have hdrop : ((b :: bs).drop (headerLen + bodyLen (b :: bs))).length ≤ bs.length := by
            rw [List.length_drop, List.length_cons, headerLen]
            omega
          rw [List.length_cons] at h h'
          dsimp only
          rw [ih (by omega) (show _ ≤ fuel' by omega)]

@[simp] theorem beforeGoodbye_nil : beforeGoodbye [] = [] := rfl

theorem beforeGoodbye_goodbye {bs : Bytes} (h : bs.head? = some (byte 'X')) : beforeGoodbye bs = [] := by
  match bs, h with
  | b :: bs, h =>
      rw [beforeGoodbye, List.length_cons, beforeGoodbyeLoop, if_pos (Option.some.inj h)]

theorem beforeGoodbye_header {bs : Bytes} (h : bs.head? ≠ some (byte 'X')) (hlen : bs.length < headerLen) :
    beforeGoodbye bs = bs := by
  match bs with
  | [] => rfl
  | b :: bs =>
      rw [beforeGoodbye, List.length_cons, beforeGoodbyeLoop, if_neg fun hb => h (congrArg some hb), if_pos hlen]

theorem beforeGoodbye_message {bs : Bytes} (h : bs.head? ≠ some (byte 'X')) (hlen : headerLen ≤ bs.length) :
    beforeGoodbye bs = bs.take (headerLen + bodyLen bs) ++ beforeGoodbye (bs.drop (headerLen + bodyLen bs)) := by
  match bs with
  | [] => exact absurd hlen (by decide)
  | b :: bs =>
      have hdrop : ((b :: bs).drop (headerLen + bodyLen (b :: bs))).length ≤ bs.length := by
        rw [List.length_drop, List.length_cons, headerLen]
        omega
      rw [beforeGoodbye, List.length_cons, beforeGoodbyeLoop, if_neg fun hb => h (congrArg some hb),
        if_neg (by omega)]
      dsimp only
      rw [beforeGoodbyeLoop_stable hdrop (Nat.le_refl _)]
      rfl

/-! ## The stream in chunks -/

namespace FrameScanner

/-- Nothing is carried inside a body, and what is carried is the beginning of a header that is no goodbye. -/
structure Carries (sc : FrameScanner) : Prop where
  carried : 0 < sc.remaining → sc.carried = []
  length_lt : sc.carried.length < headerLen
  goodbye : sc.carried.head? ≠ some (byte 'X')

/-- What comes before the goodbye in `bs`, from where the scanner stands. -/
def ahead (sc : FrameScanner) (bs : Bytes) : Bytes :=
  bs.take sc.remaining ++ (beforeGoodbye (sc.carried ++ bs.drop sc.remaining)).drop sc.carried.length

theorem ahead_start (bs : Bytes) : ahead {} bs = beforeGoodbye bs := rfl

theorem ahead_nil {sc : FrameScanner} (h : sc.Carries) : sc.ahead [] = [] := by
  rw [ahead, List.take_nil, List.drop_nil, List.append_nil, beforeGoodbye_header h.goodbye h.length_lt, List.drop_length]
  rfl

theorem carries_start : Carries {} := ⟨fun _ => rfl, by decide, nofun⟩

theorem carries_body (n : Nat) : Carries ⟨n, []⟩ :=
  have hpos : 0 < headerLen := by decide
  ⟨fun _ => rfl, hpos, nofun⟩

variable {sc : FrameScanner}

theorem ahead_outside (hremaining : ¬ 0 < sc.remaining) (bs : Bytes) :
    sc.ahead bs = (beforeGoodbye (sc.carried ++ bs)).drop sc.carried.length := by
  obtain ⟨remaining, carried⟩ := sc
  obtain rfl : remaining = 0 := by
    dsimp only at hremaining
    omega
  rfl

/-- A piece of a body goes by. -/
theorem ahead_skip (h : sc.Carries) (hremaining : 0 < sc.remaining) {skip : Bytes} (hle : skip.length ≤ sc.remaining)
    (bs : Bytes) : sc.ahead (skip ++ bs) = skip ++ ahead ⟨sc.remaining - skip.length, []⟩ bs := by
  obtain ⟨remaining, carried⟩ := sc
  obtain rfl : carried = [] := h.carried hremaining
  dsimp only [ahead] at hle ⊢
  rw [List.take_append, List.take_of_length_le hle, List.drop_append, List.drop_of_length_le hle, List.nil_append,
    List.append_assoc]

/-- A header that goes on is let through. -/
theorem ahead_carry (hremaining : ¬ 0 < sc.remaining) {more : Bytes} (hlen : (sc.carried ++ more).length < headerLen)
    (hgoodbye : (sc.carried ++ more).head? ≠ some (byte 'X')) (bs : Bytes) :
    sc.ahead (more ++ bs) = more ++ ahead ⟨0, sc.carried ++ more⟩ bs := by
  rw [ahead_outside hremaining, ahead_outside (Nat.lt_irrefl 0), ← List.append_assoc]
  dsimp only
  generalize hheader : sc.carried ++ more = header at hlen hgoodbye
  have hdrop : ∀ rest, (header ++ rest).drop sc.carried.length = more ++ rest := fun rest => by
    rw [← hheader, List.append_assoc, List.drop_left]
  -- either the stream ends inside this header, or it completes it
  by_cases hall : (header ++ bs).length < headerLen
  · by_cases hhead : (header ++ bs).head? = some (byte 'X')
    · have hnil : header = [] := by
        by_contra hne
        rw [List.head?_append_of_ne_nil _ hne] at hhead
        exact hgoodbye hhead
      obtain ⟨-, rfl⟩ := List.append_eq_nil_iff.mp (hheader.trans hnil)
      rw [beforeGoodbye_goodbye hhead, List.drop_nil, List.drop_nil, List.nil_append]
    · rw [beforeGoodbye_header hhead hall, hdrop, List.drop_left]
  · by_cases hhead : (header ++ bs).head? = some (byte 'X')
    · have hnil : header = [] := by
        by_contra hne
        rw [List.head?_append_of_ne_nil _ hne] at hhead
        exact hgoodbye hhead
      obtain ⟨-, rfl⟩ := List.append_eq_nil_iff.mp (hheader.trans hnil)
      rw [beforeGoodbye_goodbye hhead, List.drop_nil, List.drop_nil, List.nil_append]
    · rw [beforeGoodbye_message hhead (by omega), List.take_append, List.take_of_length_le (by omega), List.append_assoc,
        hdrop, List.drop_left]

/-- A header that is complete is let through, and its body is skipped. -/
theorem ahead_complete (hremaining : ¬ 0 < sc.remaining) {more : Bytes} (hlen : (sc.carried ++ more).length = headerLen)
    (hgoodbye : (sc.carried ++ more).head? ≠ some (byte 'X')) (bs : Bytes) :
    sc.ahead (more ++ bs) = more ++ ahead ⟨bodyLen (sc.carried ++ more), []⟩ bs := by
  rw [ahead_outside hremaining, ← List.append_assoc]
  generalize hheader : sc.carried ++ more = header at hlen hgoodbye
  have hdrop : ∀ rest, (header ++ rest).drop sc.carried.length = more ++ rest := fun rest => by
    rw [← hheader, List.append_assoc, List.drop_left]
  have hne : header ≠ [] := List.ne_nil_of_length_pos (by rw [hlen]; decide)
  have hhead : (header ++ bs).head? ≠ some (byte 'X') := by rwa [List.head?_append_of_ne_nil _ hne]
  have hsize : headerLen + bodyLen header = header.length + bodyLen header := by rw [hlen]
  rw [beforeGoodbye_message hhead (by rw [List.length_append]; omega), bodyLen_append (by omega), hsize,
    List.take_length_add_append, List.drop_length_add_append, List.append_assoc, hdrop]
  rfl

/-- Where a scan of a chunk ends: at a goodbye, in front of which the stream is let through, or behind the chunk, all of
which is. -/
structure Lets (sc : FrameScanner) (buf : Bytes) (pos : Nat) (found : Option Nat × FrameScanner) : Prop where
  through : found.1 = none → found.2.Carries ∧ ∀ bs, sc.ahead (buf ++ bs) = buf ++ found.2.ahead bs
  stops : ∀ off, found.1 = some off → pos ≤ off ∧ ∀ bs, sc.ahead (buf ++ bs) = buf.take (off - pos)

/-- A round of the loop that takes `k` bytes off. -/
theorem Lets.more {sc' : FrameScanner} {buf : Bytes} {pos k : Nat} {found : Option Nat × FrameScanner}
    (h : Lets sc' (buf.drop k) (pos + k) found)
    (hround : ∀ bs, sc.ahead (buf.take k ++ bs) = buf.take k ++ sc'.ahead bs) : Lets sc buf pos found := by
  have hsplit : ∀ bs, sc.ahead (buf ++ bs) = buf.take k ++ sc'.ahead (buf.drop k ++ bs) := fun bs => by
    rw [← hround, ← List.append_assoc, List.take_append_drop]
  refine ⟨fun hnone => ?_, fun off hoff => ?_⟩
  · obtain ⟨hcarries, hthrough⟩ := h.through hnone
    refine ⟨hcarries, fun bs => ?_⟩
    rw [hsplit, hthrough, ← List.append_assoc, List.take_append_drop]
  · obtain ⟨hle, hstops⟩ := h.stops off hoff
    refine ⟨by omega, fun bs => ?_⟩
    rw [hsplit, hstops, ← List.take_add, show k + (off - (pos + k)) = off - pos by omega]

theorem scanLoop_lets {fuel : Nat} {buf : Bytes} {pos : Nat} (h : sc.Carries) (hfuel : buf.length ≤ fuel) :
    Lets sc buf pos (scanLoop fuel sc buf pos) := by
  induction fuel generalizing sc buf pos with
  | zero =>
      obtain rfl : buf = [] := List.length_eq_zero_iff.mp (by omega)
      exact ⟨fun _ => ⟨h, fun _ => rfl⟩, fun _ hoff => by cases hoff⟩
  | succ fuel ih =>
      cases buf with
      | nil => exact ⟨fun _ => ⟨h, fun _ => rfl⟩, fun _ hoff => by cases hoff⟩
      | cons b buf =>
          have hlength : (b :: buf).length = buf.length + 1 := rfl
          rw [scanLoop]
          by_cases hremaining : 0 < sc.remaining
          · -- inside a body
            rw [if_pos hremaining, h.carried hremaining]
            dsimp only
            generalize hskip : min sc.remaining (b :: buf).length = skip
            have htake : ((b :: buf).take skip).length = skip := by
              rw [List.length_take]
              omega
            refine (ih (carries_body _) (by rw [List.length_drop]; omega)).more fun bs => ?_
            rw [ahead_skip h hremaining (by omega), htake]
          · rw [if_neg hremaining]
            by_cases hcarried : 0 < sc.carried.length
            · -- inside a header
              rw [if_pos hcarried]
              have hlt := h.length_lt
              have hhead : ∀ more, (sc.carried ++ more).head? ≠ some (byte 'X') := fun more => by
                rw [List.head?_append_of_ne_nil _ (List.ne_nil_of_length_pos hcarried)]
                exact h.goodbye
              dsimp only
              generalize htake : min (headerLen - sc.carried.length) (b :: buf).length = take
              have hlen : ((b :: buf).take take).length = take := by
                rw [List.length_take]
                omega
              rw [if_neg (hhead _)]
              split_ifs with hshort
              · have hall : (b :: buf).take take = b :: buf := by
                  refine List.take_of_length_le ?_
                  rw [List.length_append, hlen] at hshort
                  omega
                rw [hall] at hshort ⊢
                obtain hzero : sc.remaining = 0 := by omega
                refine ⟨fun _ => ⟨⟨fun h => absurd h hremaining, hshort, hhead _⟩, fun bs => ?_⟩, fun _ hoff => by cases hoff⟩
                rw [ahead_carry hremaining hshort (hhead _), hzero]
              · have hwhole : (sc.carried ++ (b :: buf).take take).length = headerLen := by
                  rw [List.length_append, hlen] at hshort ⊢
                  omega
                exact (ih (carries_body _) (by rw [List.length_drop]; omega)).more
                  (ahead_complete hremaining hwhole (hhead _))
            · -- between two messages
              rw [if_neg hcarried]
              obtain hnil : sc.carried = [] := List.length_eq_zero_iff.mp (by omega)
              have houtside : ∀ bs, sc.ahead bs = beforeGoodbye bs := fun bs => by
                rw [ahead_outside hremaining, hnil, List.nil_append, List.length_nil, List.drop_zero]
              split_ifs with hgoodbye hshort
              · refine ⟨fun hnone => (by cases hnone), fun off hoff => ?_⟩
                obtain rfl : pos = off := Option.some.inj hoff
                refine ⟨Nat.le_refl _, fun bs => ?_⟩
                rw [houtside, Nat.sub_self, List.take_zero]
                exact beforeGoodbye_goodbye (congrArg some hgoodbye)
              · have hcarry : ∀ bs, sc.ahead ((b :: buf) ++ bs) = _ := ahead_carry hremaining (by rwa [hnil])
                  (by rw [hnil]; exact fun h => hgoodbye (Option.some.inj h))
                rw [hnil] at hcarry
                obtain hzero : sc.remaining = 0 := by omega
                rw [hzero]
                exact ⟨fun _ => ⟨⟨fun h => absurd h (Nat.lt_irrefl 0), hshort, fun h => hgoodbye (Option.some.inj h)⟩, hcarry⟩,
                  fun _ hoff => by cases hoff⟩
              · have hheader : ((b :: buf).take headerLen).length = headerLen := by
                  rw [List.length_take]
                  omega
                have hcomplete : ∀ bs, sc.ahead ((b :: buf).take headerLen ++ bs) = _ :=
                  ahead_complete hremaining (by rwa [hnil])
                  (by rw [hnil]; exact fun h => hgoodbye (Option.some.inj h))
                rw [hnil] at hcomplete
                exact (ih (carries_body _) (by rw [List.length_drop, headerLen]; omega)).more hcomplete

/-- The scan of a chunk from where the scanner stands. -/
theorem scan_lets (h : sc.Carries) (buf : Bytes) : Lets sc buf 0 (sc.scan buf) := scanLoop_lets h (Nat.le_refl _)

/-- The scans of a connection: the relay returns at the first goodbye. -/
def scans : FrameScanner → List Bytes → List (Option Nat)
  | _, [] => []
  | sc, chunk :: chunks =>
      match sc.scan chunk with
      | (some offset, _) => [some offset]
      | (none, sc) => none :: scans sc chunks

end FrameScanner

/-! ## The scanner with its array -/

/-- `&bytes[from..until]`, which panics out of bounds. -/
def slice (bytes : Bytes) (start stop : Nat) : Option Bytes :=
  if start ≤ stop ∧ stop ≤ bytes.length then some ((bytes.take stop).drop start) else none

theorem slice_eq {bytes : Bytes} {start len : Nat} (h : start + len ≤ bytes.length) :
    slice bytes start (start + len) = some ((bytes.drop start).take len) := by
  rw [slice, if_pos ⟨by omega, h⟩, List.take_drop, Nat.add_comm]

/-- `a - b` on `usize`, which panics below zero. -/
def checkedSub (a b : Nat) : Option Nat := if b ≤ a then some (a - b) else none

theorem checkedSub_eq {a b : Nat} (h : b ≤ a) : checkedSub a b = some (a - b) := if_pos h

/-- `bytes[at..at + piece.len()].copy_from_slice(piece)`. -/
def copyInto (bytes : Bytes) (at_ : Nat) (piece : Bytes) : Option Bytes :=
  if at_ + piece.length ≤ bytes.length then some (bytes.take at_ ++ piece ++ bytes.drop (at_ + piece.length)) else none

/-- The fields of `FrameScanner` as they are declared: an array of five bytes and how many of them count. -/
structure ArrayScanner where
  remaining : Nat := 0
  header : Bytes := [0, 0, 0, 0, 0]
  headerLength : Nat := 0
deriving DecidableEq, Repr

namespace ArrayScanner

/-- The loop of `FrameScanner::scan`; `none` is a panic, or a loop that has not ended after `fuel` rounds. -/
def scanLoop : Nat → ArrayScanner → Bytes → Nat → Option (Option Nat × ArrayScanner)
  | 0, _, _, _ => none
  | fuel + 1, sc, buf, pos =>
      if pos < buf.length then
        if 0 < sc.remaining then
          (checkedSub buf.length pos).bind fun left =>
            let skip := min sc.remaining left
            (checkedSub sc.remaining skip).bind fun remaining =>
              scanLoop fuel { sc with remaining } buf (pos + skip)
        else if 0 < sc.headerLength then
          (checkedSub headerLen sc.headerLength).bind fun want =>
            (checkedSub buf.length pos).bind fun left =>
              let take := min want left
              (slice buf pos (pos + take)).bind fun piece =>
                (copyInto sc.header sc.headerLength piece).bind fun header =>
                  let headerLength := sc.headerLength + take
                  if headerLength < headerLen then some (none, { sc with header, headerLength })
                  else
                    header[0]?.bind fun tag =>
                      if tag = byte 'X' then some (some 0, { sc with header, headerLength := 0 })
                      else scanLoop fuel ⟨bodyLen header, header, 0⟩ buf (pos + take)
        else
          buf[pos]?.bind fun tag =>
            if tag = byte 'X' then some (some pos, sc)
            else
              (checkedSub buf.length pos).bind fun left =>
                if left < headerLen then
                  (slice buf pos (pos + left)).bind fun piece =>
                    (copyInto sc.header 0 piece).bind fun header =>
                      some (none, { sc with header, headerLength := left })
                else
                  (slice buf pos (pos + headerLen)).bind fun header =>
                    scanLoop fuel { sc with remaining := bodyLen header } buf (pos + headerLen)
      else some (none, sc)

/-- `FrameScanner::scan`. -/
def scan (sc : ArrayScanner) (buf : Bytes) : Option (Option Nat × ArrayScanner) := scanLoop (buf.length + 1) sc buf 0

/-- The scanner of the relay, without the bytes of the array that do not count. -/
def abs (sc : ArrayScanner) : FrameScanner := ⟨sc.remaining, sc.header.take sc.headerLength⟩

/-- The array has five bytes, not all of which count. -/
structure Sized (sc : ArrayScanner) : Prop where
  header : sc.header.length = headerLen
  headerLength : sc.headerLength < headerLen

/-- A scan goes as that of the relay goes, and leaves an array of five bytes. -/
def Agrees (found : Option (Option Nat × ArrayScanner)) (expected : Option Nat × FrameScanner) : Prop :=
  ∃ sc : ArrayScanner, found = some (expected.1, sc) ∧ sc.abs = expected.2 ∧ sc.Sized

theorem copyInto_eq (bytes : Bytes) (at_ : Nat) (piece : Bytes) (h : at_ + piece.length ≤ bytes.length) :
    ∃ copied, copyInto bytes at_ piece = some copied ∧ copied.length = bytes.length ∧
      copied.take (at_ + piece.length) = bytes.take at_ ++ piece := by
  have hlen : (bytes.take at_).length = at_ := by
    rw [List.length_take]
    omega
  refine ⟨_, if_pos h, ?_, ?_⟩
  · simp only [List.length_append, hlen, List.length_drop]
    omega
  · rw [List.take_left']
    rw [List.length_append, hlen]

variable {sc : ArrayScanner}

theorem scanLoop_agrees {fuel fuel' : Nat} {buf : Bytes} {pos : Nat} (h : sc.Sized) (hpos : pos ≤ buf.length)
    (hfuel : buf.length - pos < fuel) (hfuel' : buf.length - pos ≤ fuel') :
    Agrees (scanLoop fuel sc buf pos) (FrameScanner.scanLoop fuel' sc.abs (buf.drop pos) pos) := by
  induction fuel generalizing fuel' sc pos with
  | zero => omega
  | succ fuel ih =>
      have hfive : 0 < headerLen := by decide
      rw [scanLoop]
      by_cases hin : pos < buf.length
      · obtain ⟨fuel', rfl⟩ : ∃ n, fuel' = n + 1 := ⟨fuel' - 1, by omega⟩
        have hleft : (buf.drop pos).length = buf.length - pos := List.length_drop
        have hcons : buf.drop pos = buf[pos] :: buf.drop (pos + 1) := List.drop_eq_getElem_cons hin
        have hdrop : ∀ k, (buf.drop pos).drop k = buf.drop (pos + k) := fun k => List.drop_drop
        have hsub : checkedSub buf.length pos = some (buf.length - pos) := checkedSub_eq hpos
        have habs : sc.abs.carried.length = sc.headerLength := by
          have hlt := h.headerLength
          rw [abs, List.length_take, h.header]
          omega
        rw [if_pos hin, hcons, FrameScanner.scanLoop, ← hcons, habs, hleft, hsub]
        simp only [hdrop]
        by_cases hremaining : 0 < sc.remaining
        · rw [if_pos hremaining, if_pos (show 0 < sc.abs.remaining from hremaining), Option.bind_some,
            checkedSub_eq (Nat.min_le_left _ _), Option.bind_some]
          exact ih ⟨h.header, h.headerLength⟩ (by omega) (by omega) (by omega)
        · rw [if_neg hremaining, if_neg (show ¬ 0 < sc.abs.remaining from hremaining)]
          by_cases hcarried : 0 < sc.headerLength
          · have hlt := h.headerLength
            rw [if_pos hcarried, if_pos hcarried, checkedSub_eq (Nat.le_of_lt hlt), Option.bind_some, Option.bind_some]
            generalize htake : min (headerLen - sc.headerLength) (buf.length - pos) = take
            have hpiece : ((buf.drop pos).take take).length = take := by
              rw [List.length_take]
              omega
            obtain ⟨copied, hcopy, hlength, hcopied⟩ :=
              copyInto_eq sc.header sc.headerLength ((buf.drop pos).take take)
                (by rw [hpiece, h.header]; omega)
            rw [hpiece] at hcopied
            have hheader : copied.take (sc.headerLength + take) = sc.abs.carried ++ (buf.drop pos).take take := hcopied
            have hsize : (sc.abs.carried ++ (buf.drop pos).take take).length = sc.headerLength + take := by
              rw [List.length_append, habs, hpiece]
            rw [slice_eq (by omega), Option.bind_some, hcopy, Option.bind_some, hsize]
            by_cases hshort : sc.headerLength + take < headerLen
            · rw [if_pos hshort, if_pos hshort]
              exact ⟨_, rfl, by rw [abs, ← hheader]; rfl, hlength.trans h.header, hshort⟩
            · -- the array holds exactly the header
              have hwhole : copied = sc.abs.carried ++ (buf.drop pos).take take := by
                rw [← hheader, List.take_of_length_le]
                rw [hlength, h.header]
                omega
              have hne : copied ≠ [] := List.ne_nil_of_length_pos (by rw [hlength, h.header]; decide)
              rw [if_neg hshort, if_neg hshort, ← hwhole, ← List.head?_eq_getElem?, List.head?_eq_some_head hne,
                Option.bind_some]
              by_cases hgoodbye : copied.head hne = byte 'X'
              · rw [if_pos hgoodbye, if_pos (congrArg some hgoodbye)]
                exact ⟨_, rfl, rfl, hlength.trans h.header, hfive⟩
              · rw [if_neg hgoodbye, if_neg fun hsome => hgoodbye (Option.some.inj hsome)]
                exact ih ⟨hlength.trans h.header, hfive⟩ (by omega) (by omega) (by omega)
          · obtain hzero : sc.headerLength = 0 := by omega
            have hnil : sc.abs.carried = [] := by rw [abs, hzero]; rfl
            rw [if_neg hcarried, if_neg hcarried, List.getElem?_eq_getElem hin, Option.bind_some]
            by_cases hgoodbye : buf[pos] = byte 'X'
            · rw [if_pos hgoodbye, if_pos hgoodbye]
              exact ⟨sc, rfl, rfl, h⟩
            · rw [if_neg hgoodbye, if_neg hgoodbye, Option.bind_some]
              by_cases hshort : buf.length - pos < headerLen
              · have hpiece : (buf.drop pos).take (buf.length - pos) = buf.drop pos :=
                  List.take_of_length_le (by omega)
                obtain ⟨copied, hcopy, hlength, hcopied⟩ :=
                  copyInto_eq sc.header 0 (buf.drop pos) (by rw [h.header]; omega)
                rw [if_pos hshort, if_pos hshort, slice_eq (by omega), Option.bind_some, hpiece, hcopy, Option.bind_some]
                refine ⟨_, rfl, ?_, hlength.trans h.header, hshort⟩
                rw [Nat.zero_add, hleft, List.take_zero, List.nil_append] at hcopied
                rw [abs, hcopied]
                rfl
              · rw [if_neg hshort, if_neg hshort, slice_eq (by omega), Option.bind_some]
                have hsame : (⟨bodyLen ((buf.drop pos).take headerLen), []⟩ : FrameScanner) =
                    { sc with remaining := bodyLen ((buf.drop pos).take headerLen) : ArrayScanner }.abs := by
                  rw [abs, hzero]
                  rfl
                rw [hsame]
                exact ih ⟨h.header, h.headerLength⟩ (by omega) (by rw [headerLen]; omega) (by rw [headerLen]; omega)
      · rw [if_neg hin, List.drop_of_length_le (by omega)]
        cases fuel' with
        | zero => exact ⟨sc, rfl, rfl, h⟩
        | succ fuel' => exact ⟨sc, rfl, rfl, h⟩

/-- A scan ends, and stays inside the chunk and inside the array. -/
theorem scan_agrees (h : sc.Sized) (buf : Bytes) : Agrees (sc.scan buf) (sc.abs.scan buf) :=
  scanLoop_agrees h (Nat.zero_le _) (Nat.lt_succ_self _) (Nat.le_refl _)

/-- The scans of a connection. -/
def scans : ArrayScanner → List Bytes → Option (List (Option Nat))
  | _, [] => some []
  | sc, chunk :: chunks =>
      match sc.scan chunk with
      | none => none
      | some (some offset, _) => some [some offset]
      | some (none, sc) => (scans sc chunks).map (none :: ·)

theorem scans_agree (h : sc.Sized) (chunks : List Bytes) : sc.scans chunks = some (sc.abs.scans chunks) := by
  induction chunks generalizing sc with
  | nil => rfl
  | cons chunk chunks ih =>
      obtain ⟨sc', hscan, habs, hsized⟩ := scan_agrees h chunk
      rw [scans, FrameScanner.scans, hscan]
      rcases hfound : sc.abs.scan chunk with ⟨found, scanner⟩
      rw [hfound] at habs
      cases found with
      | some offset => rfl
      | none =>
          show (scans sc' chunks).map (none :: ·) = some (none :: scanner.scans chunks)
          rw [ih hsized, habs]
          rfl

end ArrayScanner

/-! ## The relay -/

/-- How many bytes the backend's socket takes of what a round writes to it, if it fails. -/
def ShovelEvent.cut : ShovelEvent → Option Nat
  | .client _ cut => cut
  | _ => none

/-- What a socket takes of some bytes. -/
def takenOf (cut : Option Nat) (bs : Bytes) : Bytes :=
  match cut with
  | none => bs
  | some k => bs.take k

theorem takenOf_nil (cut : Option Nat) : takenOf cut [] = [] := by
  cases cut with
  | none => rfl
  | some k => exact List.take_nil

theorem takenOf_starts (cut : Option Nat) (bs : Bytes) : takenOf cut bs <+: bs := by
  cases cut with
  | none => exact List.prefix_rfl
  | some k => exact List.take_prefix k bs

namespace Shovel

/-- What a round of the relay reads from the client. -/
def read (r : Shovel σ) : ShovelEvent → Bytes
  | .client chunk _ => if r.ending.isSome then [] else chunk
  | _ => []

/-- What a round of the relay writes to the backend. -/
def sent (r : Shovel σ) : ShovelEvent → Bytes
  | .client chunk cut =>
      if r.ending.isSome then []
      else
        match (r.scanner.scan chunk).1 with
        | some offset => takenOf cut (chunk.take offset)
        | none => takenOf cut chunk
  | _ => []

variable (srv : Server σ)

/-- The client's stream, as far as the relay reads it. -/
def received : Shovel σ → List ShovelEvent → Bytes
  | _, [] => []
  | r, e :: events => r.read e ++ received (r.step srv e) events

/-- What the relay writes to the backend. -/
def written : Shovel σ → List ShovelEvent → Bytes
  | _, [] => []
  | r, e :: events => r.sent e ++ written (r.step srv e) events

/-- What a server makes of the bytes it gets does not depend on what of its answers is read. -/
theorem feed_unread (st : ByteStream σ) (unread : Bytes) (bs : Bytes) :
    ∃ unread', ByteStream.feed srv { st with unread } bs = { st.feed srv bs with unread := unread' } := by
  induction bs generalizing st unread with
  | nil => exact ⟨unread, rfl⟩
  | cons b bs ih =>
      have hbyte : ∃ unread', ByteStream.feedByte srv { st with unread } b =
          { st.feedByte srv b with unread := unread' } := by
        unfold ByteStream.feedByte ByteStream.deliver
        dsimp only
        split_ifs
        · exact ⟨unread, rfl⟩
        · cases frameOf (st.unfinished ++ [b]) with
          | short => exact ⟨unread, rfl⟩
          | bad => exact ⟨unread, rfl⟩
          | message m =>
              dsimp only
              cases srv.write st.server m with
              | none => exact ⟨unread, rfl⟩
              | some answer => exact ⟨_, rfl⟩
      obtain ⟨unread', hbyte⟩ := hbyte
      obtain ⟨unread'', hrest⟩ := ih (st.feedByte srv b) unread'
      refine ⟨unread'', ?_⟩
      show ByteStream.feed srv (ByteStream.feedByte srv { st with unread } b) bs = _
      rw [hbyte, hrest]
      rfl

/-- A round that finds a goodbye writes what comes before it and returns. -/
theorem onClient_found (cut : Option Nat) {r : Shovel σ} (hrun : r.ending = none) {chunk : Bytes} {offset : Nat}
    (h : (r.scanner.scan chunk).1 = some offset) :
    (r.onClient srv chunk cut).stream = r.stream.feed srv (takenOf cut (chunk.take offset)) ∧
      (r.onClient srv chunk cut).ending.isSome = true := by
  obtain ⟨scanner, hscan⟩ : ∃ scanner, r.scanner.scan chunk = (some offset, scanner) := ⟨_, Prod.ext h rfl⟩
  rw [onClient, hscan]
  dsimp only
  by_cases hoffset : 0 < offset
  · rw [if_pos hoffset]
    cases cut with
    | none =>
        simp only [forward, hrun, Option.isSome_none, Bool.false_eq_true, if_false]
        exact ⟨rfl, rfl⟩
    | some k => exact ⟨rfl, rfl⟩
  · obtain rfl : offset = 0 := by omega
    rw [if_neg hoffset, List.take_zero, takenOf_nil]
    dsimp only
    rw [hrun]
    exact ⟨rfl, rfl⟩

/-- A round that finds none writes its chunk, and goes on if that does not fail. -/
theorem onClient_none (cut : Option Nat) {r : Shovel σ} (hrun : r.ending = none) {chunk : Bytes}
    (h : (r.scanner.scan chunk).1 = none) :
    (r.onClient srv chunk cut).stream = r.stream.feed srv (takenOf cut chunk) ∧
      (r.onClient srv chunk cut).ending.isSome = cut.isSome ∧
      (r.onClient srv chunk cut).scanner = (r.scanner.scan chunk).2 := by
  obtain ⟨scanner, hscan⟩ : ∃ scanner, r.scanner.scan chunk = (none, scanner) := ⟨_, Prod.ext h rfl⟩
  rw [onClient, hscan]
  cases cut with
  | none => exact ⟨rfl, congrArg Option.isSome hrun, rfl⟩
  | some k => exact ⟨rfl, rfl, rfl⟩

theorem step_of_ended {r : Shovel σ} (h : r.ending.isSome = true) (e : ShovelEvent) : r.step srv e = r := if_pos h

theorem step_client {r : Shovel σ} (h : ¬ r.ending.isSome = true) {chunk : Bytes} (hne : chunk ≠ []) (cut : Option Nat) :
    r.step srv (.client chunk cut) = r.onClient srv chunk cut := by
  cases chunk with
  | nil => exact absurd rfl hne
  | cons b chunk =>
      rw [step, if_neg h]
      exact hne

/-- At the end of the client's stream the relay returns. -/
theorem step_client_nil {r : Shovel σ} (h : ¬ r.ending.isSome = true) (cut : Option Nat) :
    r.step srv (.client [] cut) = { r with ending := some .ok } := by
  rw [step, if_neg h]

/-- What is written is what reaches the backend. -/
theorem stream_step (r : Shovel σ) (e : ShovelEvent) :
    ∃ unread, (r.step srv e).stream = { r.stream.feed srv (r.sent e) with unread } := by
  by_cases hend : r.ending.isSome = true
  · refine ⟨r.stream.unread, ?_⟩
    rw [step_of_ended srv hend]
    cases e with
    | client chunk cut => rw [sent, if_pos hend]; rfl
    | _ => rfl
  · have hrun : r.ending = none := by simpa using hend
    cases e with
    | client chunk cut =>
        by_cases hne : chunk = []
        · refine ⟨r.stream.unread, ?_⟩
          rw [hne, step_client_nil srv hend, sent, if_neg hend]
          show r.stream = { r.stream.feed srv (takenOf cut []) with unread := r.stream.unread }
          rw [takenOf_nil]
          rfl
        · rw [step_client srv hend hne, sent, if_neg hend]
          cases hscan : (r.scanner.scan chunk).1 with
          | none => exact ⟨_, (onClient_none srv cut hrun hscan).1⟩
          | some offset => exact ⟨_, (onClient_found srv cut hrun hscan).1⟩
    | backend n taken =>
        rw [step, if_neg hend]
        dsimp only [onBackend]
        split_ifs <;> exact ⟨_, rfl⟩
    | kick => rw [step, if_neg hend]; exact ⟨_, rfl⟩
    | clientFailed => rw [step, if_neg hend]; exact ⟨_, rfl⟩
    | backendFailed => rw [step, if_neg hend]; exact ⟨_, rfl⟩

theorem stream_run (r : Shovel σ) (events : List ShovelEvent) :
    ∃ unread, (run (step srv) r events).stream = { r.stream.feed srv (written srv r events) with unread } := by
  induction events generalizing r with
  | nil => exact ⟨r.stream.unread, rfl⟩
  | cons e events ih =>
      obtain ⟨unread, hstep⟩ := stream_step srv r e
      obtain ⟨unread', hrun⟩ := ih (r.step srv e)
      obtain ⟨unread'', hfeed⟩ := feed_unread srv (r.stream.feed srv (r.sent e)) unread (written srv (r.step srv e) events)
      refine ⟨unread', ?_⟩
      rw [run_cons, hrun, hstep, hfeed, written, ByteStream.feed_append]

/-- A relay that has returned reads and writes no more. -/
theorem ended_run {r : Shovel σ} (h : r.ending.isSome = true) (events : List ShovelEvent) :
    received srv r events = [] ∧ written srv r events = [] := by
  induction events with
  | nil => exact ⟨rfl, rfl⟩
  | cons e events ih =>
      rw [received, written, step_of_ended srv h, ih.1, ih.2]
      cases e <;> simp [read, sent, h]

/-- A round that is not the client's leaves the scanner where it is. -/
theorem scanner_step {r : Shovel σ} {e : ShovelEvent} (h : ∀ chunk cut, e ≠ .client chunk cut) :
    r.read e = [] ∧ r.sent e = [] ∧ (r.step srv e).scanner = r.scanner := by
  unfold step
  cases e with
  | client chunk cut => exact absurd rfl (h chunk cut)
  | backend n taken =>
      refine ⟨rfl, rfl, ?_⟩
      dsimp only [onBackend]
      split_ifs <;> rfl
  | _ =>
      refine ⟨rfl, rfl, ?_⟩
      split_ifs <;> rfl

/-- Of what comes before the goodbye in the bytes that are read, everything is written, or the socket failed. -/
theorem written_ahead {r : Shovel σ} (h : r.scanner.Carries) (events : List ShovelEvent) :
    written srv r events <+: r.scanner.ahead (received srv r events) ∧
      ((∀ e ∈ events, e.cut = none) → written srv r events = r.scanner.ahead (received srv r events)) := by
  induction events generalizing r with
  | nil =>
      rw [received, written, FrameScanner.ahead_nil h]
      exact ⟨List.nil_prefix, fun _ => rfl⟩
  | cons e events ih =>
      rw [received, written]
      by_cases hend : r.ending.isSome = true
      · obtain ⟨hread, hwritten⟩ := ended_run srv hend (e :: events)
        rw [received] at hread
        rw [written] at hwritten
        rw [hread, hwritten, FrameScanner.ahead_nil h]
        exact ⟨List.nil_prefix, fun _ => rfl⟩
      · have hrun : r.ending = none := by simpa using hend
        have hother : ∀ {e : ShovelEvent}, (∀ chunk cut, e ≠ .client chunk cut) →
            (r.sent e ++ written srv (r.step srv e) events <+:
                r.scanner.ahead (r.read e ++ received srv (r.step srv e) events)) ∧
              ((∀ x ∈ e :: events, x.cut = none) → r.sent e ++ written srv (r.step srv e) events =
                r.scanner.ahead (r.read e ++ received srv (r.step srv e) events)) := by
          intro e he
          obtain ⟨hread, hsent, hscanner⟩ := scanner_step srv (r := r) he
          have hrest := ih (r := r.step srv e) (by rw [hscanner]; exact h)
          rw [hscanner] at hrest
          rw [hread, hsent]
          exact ⟨hrest.1, fun hcut => hrest.2 fun x hx => hcut x (List.mem_cons_of_mem _ hx)⟩
        match e with
        | .client chunk cut =>
            have hlets := FrameScanner.scan_lets h chunk
            rw [read, if_neg hend, sent, if_neg hend]
            by_cases hne : chunk = []
            · -- the end of the stream
              rw [hne, step_client_nil srv hend]
              obtain ⟨hread, hwritten⟩ := ended_run srv (r := { r with ending := some .ok }) rfl events
              rw [hread, hwritten, List.append_nil, List.append_nil, FrameScanner.ahead_nil h]
              show takenOf cut [] <+: [] ∧ (_ → takenOf cut [] = [])
              rw [takenOf_nil]
              exact ⟨List.nil_prefix, fun _ => rfl⟩
            · rw [step_client srv hend hne]
              cases hscan : (r.scanner.scan chunk).1 with
              | some offset =>
                  -- the goodbye: the relay returns
                  obtain ⟨-, hstops⟩ := hlets.stops offset hscan
                  obtain ⟨hread, hwritten⟩ := ended_run srv (onClient_found srv cut hrun hscan).2 events
                  rw [hread, hwritten, List.append_nil, List.append_nil, ← List.append_nil chunk, hstops, Nat.sub_zero,
                    List.append_nil]
                  exact ⟨takenOf_starts cut _, fun hcut => by rw [show cut = none from hcut _ List.mem_cons_self]; rfl⟩
              | none =>
                  obtain ⟨hcarries, hthrough⟩ := hlets.through hscan
                  obtain ⟨-, hending, hscanner⟩ := onClient_none srv cut hrun hscan
                  rw [hthrough]
                  cases cut with
                  | none =>
                      obtain ⟨hstarts, hall⟩ := ih (r := r.onClient srv chunk none) (by rw [hscanner]; exact hcarries)
                      rw [hscanner] at hstarts hall
                      exact ⟨(List.prefix_append_right_inj chunk).mpr hstarts,
                        fun hcut => congrArg (chunk ++ ·) (hall fun e he => hcut e (List.mem_cons_of_mem _ he))⟩
                  | some k =>
                      obtain ⟨hread, hwritten⟩ := ended_run srv (hending.trans rfl) events
                      rw [hread, hwritten, List.append_nil, FrameScanner.ahead_nil hcarries, List.append_nil]
                      exact ⟨takenOf_starts (some k) chunk, fun hcut => nomatch hcut _ List.mem_cons_self⟩
        | .kick => exact hother nofun
        | .clientFailed => exact hother nofun
        | .backendFailed => exact hother nofun
        | .backend n taken => exact hother nofun

/-- **Terminate never reaches the backend and nothing else is held back.** However the client's stream is cut into
chunks and whatever happens between them, what reaches the backend is what comes before the first `Terminate` of the
bytes the relay has read, as far as the backend's socket takes it. Every scan ends, inside its chunk and its array. -/
theorem terminate_held_back (srv : Server σ) (stream : ByteStream σ) (events : List ShovelEvent) :
    (∃ unread, (run (step srv) (start stream) events).stream =
      { stream.feed srv (written srv (start stream) events) with unread }) ∧
    written srv (start stream) events <+: beforeGoodbye (received srv (start stream) events) ∧
    ((∀ e ∈ events, e.cut = none) →
      written srv (start stream) events = beforeGoodbye (received srv (start stream) events)) ∧
    ∀ chunks, ArrayScanner.scans {} chunks = some (FrameScanner.scans {} chunks) := by
  obtain ⟨hstarts, hall⟩ := written_ahead srv (r := start stream) FrameScanner.carries_start events
  exact ⟨stream_run srv (start stream) events, hstarts, hall, fun chunks => ArrayScanner.scans_agree ⟨rfl, by decide⟩ chunks⟩

end Shovel

end Havuz
