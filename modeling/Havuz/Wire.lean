import Havuz.Protocol
import Mathlib.Algebra.Order.Ring.Int
import Mathlib.Data.List.Basic

/-!
# Messages on the wire

Reference: `Message::encode` and `Message::read` of `havuz-pg/src/protocol.rs`, and `body_len` of
`havuz-pg/src/relay.rs`. A message is a tag, a length that counts itself but not the tag, and a body.
`frameOf` says what the bytes of a stream are as the beginning of one message, for a reader that gets
them one at a time.
-/

namespace Havuz

/-! ## Lengths -/

/-- `i32::from_be_bytes`. -/
def i32OfBytes (a b c d : UInt8) : Int :=
  let n := ((a.toNat * 256 + b.toNat) * 256 + c.toNat) * 256 + d.toNat
  if n < 2 ^ 31 then n else (n : Int) - 2 ^ 32

/-- `put_i32` of a length. -/
def i32Bytes (n : Nat) : Bytes :=
  [UInt8.ofNat (n / 2 ^ 24), UInt8.ofNat (n / 2 ^ 16), UInt8.ofNat (n / 2 ^ 8), UInt8.ofNat n]

theorem i32OfBytes_i32Bytes {n : Nat} (h : n < 2 ^ 31) :
    i32OfBytes (UInt8.ofNat (n / 2 ^ 24)) (UInt8.ofNat (n / 2 ^ 16)) (UInt8.ofNat (n / 2 ^ 8))
      (UInt8.ofNat n) = n := by
  simp only [i32OfBytes, UInt8.toNat_ofNat']
  have hn : ((n / 2 ^ 24 % 2 ^ 8 * 256 + n / 2 ^ 16 % 2 ^ 8) * 256 + n / 2 ^ 8 % 2 ^ 8) * 256 + n % 2 ^ 8 =
      n := by omega
  rw [hn, if_pos h]

/-- Header size: one tag byte plus a four byte length. -/
def headerLen : Nat := 5

/-- The length a header declares. It covers itself but not the tag. -/
def declared : Bytes → Int
  | _ :: a :: b :: c :: d :: _ => i32OfBytes a b c d
  | _ => 0

/-- `body_len`: a malformed length cannot make it negative. -/
def bodyLen (header : Bytes) : Nat := (declared header - 4).toNat

/-- Only the header counts. -/
theorem declared_append {p : Bytes} (hp : headerLen ≤ p.length) (q : Bytes) :
    declared (p ++ q) = declared p := by
  match p, hp with
  | _ :: _ :: _ :: _ :: _ :: _, _ => rfl

theorem bodyLen_append {p : Bytes} (hp : headerLen ≤ p.length) (q : Bytes) :
    bodyLen (p ++ q) = bodyLen p := by
  rw [bodyLen, declared_append hp, bodyLen]

/-! ## Encoding and reading -/

namespace Message

/-- The length of the message fits its length field. -/
def Fits (m : Message) : Prop := m.body.length + 4 < 2 ^ 31

instance (m : Message) : Decidable m.Fits := inferInstanceAs (Decidable (_ < _))

/-- `Message::encode`. -/
def encode (m : Message) : Bytes := m.tag :: (i32Bytes (m.body.length + 4) ++ m.body)

@[simp] theorem length_encode (m : Message) : m.encode.length = headerLen + m.body.length := by
  simp only [encode, i32Bytes, List.length_cons, List.length_append, List.length_nil, headerLen]
  omega

theorem declared_encode {m : Message} (hfits : m.Fits) : declared m.encode = m.body.length + 4 := by
  simp only [encode, i32Bytes, List.cons_append, List.nil_append, declared]
  exact i32OfBytes_i32Bytes hfits

theorem bodyLen_encode {m : Message} (hfits : m.Fits) : bodyLen m.encode = m.body.length := by
  rw [bodyLen, declared_encode hfits]
  omega

/-- How a read goes: a message and what follows it, an error, or more bytes are waited for. -/
inductive ReadResult where
  | message (m : Message) (rest : Bytes)
  | failed
  | waits
deriving DecidableEq, Repr

/-- `MAX_MESSAGE_LEN`. -/
def maxMessageLen : Nat := 64 * 1024 * 1024

/-- `Message::read`, from what is there to be read. -/
def read (bs : Bytes) : ReadResult :=
  if bs.length < headerLen then .waits
  else if declared bs < 4 then .failed
  else if maxMessageLen < bodyLen bs then .failed
  else if bs.length < headerLen + bodyLen bs then .waits
  else .message ⟨bs.headD 0, (bs.drop headerLen).take (bodyLen bs)⟩ (bs.drop (headerLen + bodyLen bs))

/-- What was encoded is read back, unless it is too large. -/
theorem read_encode_eq {m : Message} (hfits : m.Fits) (rest : Bytes) :
    read (m.encode ++ rest) = if maxMessageLen < m.body.length then .failed else .message m rest := by
  have hheader : headerLen ≤ m.encode.length := by
    rw [length_encode]
    omega
  have hbody : bodyLen (m.encode ++ rest) = m.body.length := by
    rw [bodyLen_append hheader, bodyLen_encode hfits]
  have hdrop : (m.encode ++ rest).drop headerLen = m.body ++ rest := rfl
  rw [read, hbody, declared_append hheader, declared_encode hfits, List.length_append, length_encode]
  rw [if_neg (by omega), if_neg (by omega)]
  by_cases hmax : maxMessageLen < m.body.length
  · rw [if_pos hmax, if_pos hmax]
  · rw [if_neg hmax, if_neg hmax, if_neg (by omega), ← List.drop_drop, hdrop, List.take_left, List.drop_left]
    rfl

theorem read_encode {m : Message} (hfits : m.Fits) (rest : Bytes) :
    read (m.encode ++ rest) = .message m rest ∨ read (m.encode ++ rest) = .failed := by
  rw [read_encode_eq hfits]
  split
  · exact .inr rfl
  · exact .inl rfl

theorem read_encode_of_le {m : Message} (h : m.body.length ≤ maxMessageLen) (rest : Bytes) :
    read (m.encode ++ rest) = .message m rest := by
  have hfits : m.Fits := by
    rw [maxMessageLen] at h
    rw [Fits]
    omega
  rw [read_encode_eq hfits, if_neg (by omega)]

/-- A read takes at least a header off. -/
theorem length_of_read {bs rest : Bytes} {m : Message} (h : read bs = .message m rest) :
    rest.length + headerLen ≤ bs.length := by
  unfold read at h
  split_ifs at h
  injection h with _ hrest
  rw [← hrest, List.length_drop]
  omega

/-- What is read does not depend on what follows it. -/
theorem read_append {bs rest : Bytes} {m : Message} (h : read bs = .message m rest) (more : Bytes) :
    read (bs ++ more) = .message m (rest ++ more) := by
  unfold read at h
  split_ifs at h with hshort hbad hmax hbody
  injection h with hm hrest
  have hheader : headerLen ≤ bs.length := by omega
  rw [read, declared_append hheader, bodyLen_append hheader, List.length_append, if_neg (by omega),
    if_neg hbad, if_neg hmax, if_neg (by omega), List.drop_append_of_le_length hheader,
    List.drop_append_of_le_length (by omega), hrest,
    List.take_append_of_le_length (by rw [List.length_drop]; omega), ← hm]
  cases bs with
  | nil => simp [headerLen] at hheader
  | cons b bs => rfl

theorem read_append_failed {bs : Bytes} (h : read bs = .failed) (more : Bytes) :
    read (bs ++ more) = .failed := by
  unfold read at h
  split_ifs at h with hshort hbad hmax
  all_goals
    have hheader : headerLen ≤ bs.length := by omega
    rw [read, declared_append hheader, bodyLen_append hheader, List.length_append, if_neg (by omega)]
  · rw [if_pos hbad]
  · rw [if_neg hbad, if_pos hmax]

end Message

/-! ## The beginning of a message -/

/-- What some bytes are as the beginning of one message. -/
inductive FrameState where
  /-- The message is not complete. -/
  | short
  | message (m : Message)
  /-- The length field is not a length. -/
  | bad
deriving DecidableEq, Repr

/-- What the bytes `p` are as the beginning of one message. -/
def frameOf (p : Bytes) : FrameState :=
  if p.length < headerLen then .short
  else if declared p < 4 then .bad
  else if p.length < headerLen + bodyLen p then .short
  else .message ⟨p.headD 0, p.drop headerLen⟩

theorem frameOf_of_lt {p : Bytes} (h : p.length < headerLen) : frameOf p = .short := by
  rw [frameOf, if_pos h]

/-- From the header on, how much is missing is known. -/
theorem frameOf_short_iff {p : Bytes} (h : headerLen ≤ p.length) :
    frameOf p = .short ↔ ¬ declared p < 4 ∧ p.length < headerLen + bodyLen p := by
  unfold frameOf
  rw [if_neg (by omega)]
  split_ifs with hbad hbody
  · exact ⟨nofun, fun h => absurd hbad h.1⟩
  · exact ⟨fun _ => ⟨hbad, hbody⟩, fun _ => rfl⟩
  · exact ⟨nofun, fun h => absurd h.2 hbody⟩

/-- What begins a message that is not complete is not complete. -/
theorem frameOf_short_left {p q : Bytes} (h : frameOf (p ++ q) = .short) : frameOf p = .short := by
  by_cases hp : p.length < headerLen
  · exact frameOf_of_lt hp
  · have hheader : headerLen ≤ p.length := by omega
    rw [frameOf_short_iff (by rw [List.length_append]; omega), declared_append hheader,
      bodyLen_append hheader, List.length_append] at h
    rw [frameOf_short_iff hheader]
    exact ⟨h.1, by omega⟩

/-- An encoded message is complete. -/
theorem frameOf_encode {m : Message} (hfits : m.Fits) : frameOf m.encode = .message m := by
  rw [frameOf, Message.bodyLen_encode hfits, Message.declared_encode hfits, m.length_encode, if_neg (by omega),
    if_neg (by omega), if_neg (by omega)]
  rfl

/-- It is not complete before its last byte. -/
theorem frameOf_encode_left {m : Message} (hfits : m.Fits) {p : Bytes} {b : UInt8}
    (h : m.encode = p ++ [b]) : frameOf p = .short := by
  have hlen : p.length + 1 = headerLen + m.body.length := by
    rw [← m.length_encode, h, List.length_append, List.length_singleton]
  by_cases hp : p.length < headerLen
  · exact frameOf_of_lt hp
  · have hheader : headerLen ≤ p.length := by omega
    rw [frameOf_short_iff hheader, ← declared_append hheader [b], ← bodyLen_append hheader [b], ← h,
      Message.declared_encode hfits, Message.bodyLen_encode hfits]
    omega

end Havuz
