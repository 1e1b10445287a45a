import Havuz.Handshake
import Havuz.Prepared
import Havuz.Utf8
import Havuz.Wire

/-!
# Startup packets on the wire

Reference: `StartupPacket::encode`, `StartupPacket::decode` and `decode_params` of `havuz-pg/src/protocol.rs`.

The parameter list is split at its NULs. A split cannot tell a list that ends with a terminator from one that ends
behind a value, nor from one that goes on behind the terminator, so `decode` takes more than `encode` makes
(`decodes_exactly_iff`).
-/

namespace Havuz

/-- `ProtocolError`, the constructors a decode raises. -/
inductive ProtocolError where
  | unsupportedVersion (major minor : ℤ)
  | malformedStartup (detail : Text)
  | missingParameter (name : Text)
  | truncated
  | notUtf8
deriving DecidableEq, Repr

/-! ## Integers -/

/-- `put_i32`. -/
def putI32 (z : ℤ) : Bytes := i32Bytes (z % 2 ^ 32).toNat

/-- `get_i32`, where there are four bytes. -/
def getI32 : Bytes → Option (ℤ × Bytes)
  | a :: b :: c :: d :: rest => some (i32OfBytes a b c d, rest)
  | _ => none

/-- A value of type `i32`. -/
def IsI32 (z : ℤ) : Prop := -2 ^ 31 ≤ z ∧ z < 2 ^ 31

theorem length_putI32 (z : ℤ) : (putI32 z).length = 4 := rfl

theorem getI32_putI32 {z : ℤ} (h : IsI32 z) (rest : Bytes) : getI32 (putI32 z ++ rest) = some (z, rest) := by
  obtain ⟨hlo, hhi⟩ := h
  have hbytes : ∀ n : ℕ, n < 2 ^ 32 →
      ((n / 2 ^ 24 % 2 ^ 8 * 256 + n / 2 ^ 16 % 2 ^ 8) * 256 + n / 2 ^ 8 % 2 ^ 8) * 256 + n % 2 ^ 8 = n := by
    intro n hn
    omega
  have hlt : (z % 2 ^ 32).toNat < 2 ^ 32 := by omega
  show some (i32OfBytes _ _ _ _, rest) = _
  simp only [i32OfBytes, UInt8.toNat_ofNat']
  rw [hbytes _ hlt]
  split
  · congr 2
    omega
  · congr 2
    omega

/-- Four bytes are those of the integer they are read as. -/
theorem eq_putI32_of_getI32 {body rest : Bytes} {z : ℤ} (h : getI32 body = some (z, rest)) :
    body = putI32 z ++ rest ∧ IsI32 z := by
  match body, h with
  | a :: b :: c :: d :: rest, h =>
      obtain ⟨hz, rfl⟩ := Prod.mk.inj (Option.some.inj h)
      have ha := a.toNat_lt
      have hb := b.toNat_lt
      have hc := c.toNat_lt
      have hd := d.toNat_lt
      rw [i32OfBytes] at hz
      have hn : (z % 2 ^ 32).toNat = ((a.toNat * 256 + b.toNat) * 256 + c.toNat) * 256 + d.toNat := by
        split at hz <;> omega
      refine ⟨?_, by rw [IsI32]; split at hz <;> omega⟩
      have hbyte : ∀ (x : UInt8) (n : ℕ), n % 256 = x.toNat → UInt8.ofNat n = x := by
        intro x n hx
        rw [← UInt8.toNat_inj, UInt8.toNat_ofNat']
        exact hx
      rw [putI32, i32Bytes, hn, hbyte a _ (by omega), hbyte b _ (by omega), hbyte c _ (by omega), hbyte d _ (by omega)]
      rfl

/-! ## The codec -/

namespace StartupPacket

def protocolVersion3 : ℤ := 196608

def sslRequestCode : ℤ := 80877103

def cancelRequestCode : ℤ := 80877102

def gssencRequestCode : ℤ := 80877104

/-- A key and its value, each with its NUL. -/
def encodeParam (e : Text × Text) : Bytes := e.1.asBytes ++ 0 :: (e.2.asBytes ++ [0])

/-- What follows the length. -/
def encodeBody : StartupPacket → Bytes
  | startup params => putI32 protocolVersion3 ++ (params.flatMap encodeParam ++ [0])
  | sslRequest => putI32 sslRequestCode
  | gssEncRequest => putI32 gssencRequestCode
  | cancelRequest processId secretKey => putI32 cancelRequestCode ++ (putI32 processId ++ putI32 secretKey)

def encode (p : StartupPacket) : Bytes := i32Bytes ((encodeBody p).length + 4) ++ encodeBody p

/-- The loop of `decode_params`. -/
def decodeParts : List Bytes → Except ProtocolError (List (Text × Text))
  | [] => .error (.malformedStartup "missing terminator".toList)
  | key :: parts =>
      if key.isEmpty then .ok []
      else
        match parts with
        | [] => .error (.malformedStartup "parameter without a value".toList)
        | value :: parts =>
            if !isUtf8 key then .error .notUtf8
            else if !isUtf8 value then .error .notUtf8
            else (decodeParts parts).map ((fromUtf8Lossy key, fromUtf8Lossy value) :: ·)

@[simp] theorem decodeParts_empty (parts : List Bytes) : decodeParts ([] :: parts) = .ok [] := by
  cases parts <;> rfl

theorem decodeParts_single {key : Bytes} (h : key ≠ []) :
    decodeParts [key] = .error (.malformedStartup "parameter without a value".toList) := by
  have hempty : key.isEmpty = false := by simpa using h
  rw [decodeParts, hempty]
  rfl

theorem decodeParts_pair {key : Bytes} (h : key ≠ []) (value : Bytes) (parts : List Bytes) :
    decodeParts (key :: value :: parts) =
      if !isUtf8 key then .error .notUtf8
      else if !isUtf8 value then .error .notUtf8
      else (decodeParts parts).map ((fromUtf8Lossy key, fromUtf8Lossy value) :: ·) := by
  have hempty : key.isEmpty = false := by simpa using h
  rw [decodeParts, hempty]
  rfl

def decodeParams (body : Bytes) : Except ProtocolError (List (Text × Text)) := decodeParts (body.splitOn 0)

def decode (body : Bytes) : Except ProtocolError StartupPacket :=
  match getI32 body with
  | none => .error .truncated
  | some (code, body) =>
      if code = sslRequestCode then .ok sslRequest
      else if code = gssencRequestCode then .ok gssEncRequest
      else if code = cancelRequestCode then
        match getI32 body with
        | none => .error .truncated
        | some (processId, body) =>
            match getI32 body with
            | none => .error .truncated
            | some (secretKey, _) => .ok (cancelRequest processId secretKey)
      else if code = protocolVersion3 then
        match decodeParams body with
        | .error e => .error e
        | .ok params =>
            if params.any fun e => e.1 = "user".toList then .ok (startup params)
            else .error (.missingParameter "user".toList)
      else .error (.unsupportedVersion (code / 2 ^ 16) (code % 2 ^ 16))

/-! ## What a list of parameters is decoded from -/

/-- A key that is not empty, and no NUL. -/
def Plain (e : Text × Text) : Prop := e.1 ≠ [] ∧ 0 ∉ e.1.asBytes ∧ 0 ∉ e.2.asBytes

theorem asBytes_ne_nil {t : Text} (h : t ≠ []) : t.asBytes ≠ [] := by
  intro hnil
  have hdecoded := fromUtf8Lossy_asBytes t
  rw [hnil] at hdecoded
  exact h hdecoded.symm

/-- What stands behind the last pair: nothing, or an empty key and anything. -/
def Ends (after : Bytes) : Prop := after = [] ∨ ∃ more, after = 0 :: more

theorem decodeParams_ends {after : Bytes} (h : Ends after) : decodeParams after = .ok [] := by
  obtain rfl | ⟨more, rfl⟩ := h
  · rfl
  · have hsplit := @List.splitOn_append_cons_self_of_not_mem UInt8 [] _ _ 0 List.not_mem_nil more
    rw [List.nil_append] at hsplit
    rw [decodeParams, hsplit, decodeParts_empty]

theorem decodeParams_encodeParam {e : Text × Text} (h : Plain e) (rest : Bytes) :
    decodeParams (encodeParam e ++ rest) = (decodeParams rest).map (e :: ·) := by
  obtain ⟨hne, hkey, hvalue⟩ := h
  have hbytes : encodeParam e ++ rest = e.1.asBytes ++ 0 :: (e.2.asBytes ++ 0 :: rest) := by simp [encodeParam]
  rw [decodeParams, hbytes, List.splitOn_append_cons_self_of_not_mem hkey,
    List.splitOn_append_cons_self_of_not_mem hvalue, decodeParts_pair (asBytes_ne_nil hne), isUtf8_asBytes,
    isUtf8_asBytes, fromUtf8Lossy_asBytes, fromUtf8Lossy_asBytes]
  rfl

theorem decodeParams_append {params : List (Text × Text)} (h : ∀ e ∈ params, Plain e) {after : Bytes}
    (hafter : Ends after) : decodeParams (params.flatMap encodeParam ++ after) = .ok params := by
  induction params with
  | nil => exact decodeParams_ends hafter
  | cons e params ih =>
      obtain ⟨he, hrest⟩ := List.forall_mem_cons.mp h
      rw [List.flatMap_cons, List.append_assoc, decodeParams_encodeParam he, ih hrest]
      rfl

/-- Nothing else is decoded to a list of parameters. -/
theorem eq_of_decodeParams {body : Bytes} {params : List (Text × Text)} (h : decodeParams body = .ok params) :
    (∀ e ∈ params, Plain e) ∧ ∃ after, Ends after ∧ body = params.flatMap encodeParam ++ after := by
  induction hlength : body.length using Nat.strongRecOn generalizing body params with
  | ind n ih =>
      subst hlength
      cases hkey : takeCstring body with
      | none =>
          -- No NUL at all: one part, which is a key without a value unless it is empty.
          have hmem := notMem_of_takeCstring hkey
          rw [decodeParams, List.splitOn_eq_singleton hmem] at h
          by_cases hempty : body = []
          · subst hempty
            obtain rfl := Except.ok.inj h
            exact ⟨List.forall_mem_nil _, [], .inl rfl, rfl⟩
          · rw [decodeParts_single hempty] at h
            cases h
      | some split =>
          obtain ⟨key, rest⟩ := split
          obtain ⟨rfl, hnul⟩ := eq_of_takeCstring hkey
          rw [decodeParams, List.splitOn_append_cons_self_of_not_mem hnul] at h
          by_cases hempty : key = []
          · subst hempty
            rw [decodeParts_empty] at h
            obtain rfl := Except.ok.inj h
            exact ⟨List.forall_mem_nil _, 0 :: rest, .inr ⟨rest, rfl⟩, rfl⟩
          · cases hvalue : takeCstring rest with
            | none =>
                -- A value without its NUL is the last part, and the list of parts runs out.
                rw [List.splitOn_eq_singleton (notMem_of_takeCstring hvalue), decodeParts_pair hempty] at h
                split_ifs at h
                cases h
            | some split =>
                obtain ⟨value, rest'⟩ := split
                obtain ⟨rfl, hnul'⟩ := eq_of_takeCstring hvalue
                rw [List.splitOn_append_cons_self_of_not_mem hnul', decodeParts_pair hempty] at h
                split_ifs at h with hutf8 hutf8'
                rw [Bool.not_eq_true, Bool.not_eq_false'] at hutf8 hutf8'
                cases hparams : decodeParams rest' with
                | error e =>
                    rw [decodeParams] at hparams
                    rw [hparams] at h
                    cases h
                | ok params' =>
                    have hshort : rest'.length < (key ++ 0 :: (value ++ 0 :: rest')).length := by
                      simp only [List.length_append, List.length_cons]
                      omega
                    obtain ⟨hplain, after, hafter, rfl⟩ := ih _ hshort hparams rfl
                    rw [decodeParams] at hparams
                    rw [hparams] at h
                    obtain rfl := Except.ok.inj h
                    have hkey' := asBytes_fromUtf8Lossy hutf8
                    have hvalue' := asBytes_fromUtf8Lossy hutf8'
                    refine ⟨List.forall_mem_cons.mpr ⟨⟨?_, ?_, ?_⟩, hplain⟩, after, hafter, ?_⟩
                    · intro hnil
                      dsimp only at hnil
                      rw [hnil] at hkey'
                      exact hempty hkey'.symm
                    · rwa [hkey']
                    · rwa [hvalue']
                    · rw [List.flatMap_cons, encodeParam, hkey', hvalue']
                      simp only [List.append_assoc, List.cons_append, List.nil_append]

/-! ## What a packet is decoded from -/

/-- The packets the wire can carry. -/
def Sendable : StartupPacket → Prop
  | startup params => (∀ e ∈ params, Plain e) ∧ ∃ e ∈ params, e.1 = "user".toList
  | sslRequest => True
  | gssEncRequest => True
  | cancelRequest processId secretKey => IsI32 processId ∧ IsI32 secretKey

theorem getI32_alone {z : ℤ} (h : IsI32 z) : getI32 (putI32 z) = some (z, []) := by
  have hread := getI32_putI32 h []
  rwa [List.append_nil] at hread

theorem isI32_codes : IsI32 protocolVersion3 ∧ IsI32 sslRequestCode ∧ IsI32 gssencRequestCode ∧ IsI32 cancelRequestCode := by
  simp only [IsI32]
  decide

/-- The version, and the parameters with what may stand behind them. -/
theorem decode_version {params : List (Text × Text)} (hplain : ∀ e ∈ params, Plain e)
    (huser : ∃ e ∈ params, e.1 = "user".toList) {after : Bytes} (hafter : Ends after) :
    decode (putI32 protocolVersion3 ++ (params.flatMap encodeParam ++ after)) = .ok (startup params) := by
  have hany : (params.any fun e => e.1 = "user".toList) = true := by simpa using huser
  rw [decode, getI32_putI32 isI32_codes.1]
  dsimp only
  rw [decodeParams_append hplain hafter, if_neg (by decide), if_neg (by decide), if_neg (by decide), if_pos rfl]
  dsimp only
  rw [if_pos hany]

theorem decode_cancel {processId secretKey : ℤ} (hid : IsI32 processId) (hkey : IsI32 secretKey) (more : Bytes) :
    decode (putI32 cancelRequestCode ++ (putI32 processId ++ (putI32 secretKey ++ more))) =
      .ok (cancelRequest processId secretKey) := by
  rw [decode, getI32_putI32 isI32_codes.2.2.2]
  dsimp only
  rw [getI32_putI32 hid, if_neg (by decide), if_neg (by decide), if_pos rfl]
  dsimp only
  rw [getI32_putI32 hkey]

theorem decode_encodeBody {p : StartupPacket} (h : p.Sendable) : decode p.encodeBody = .ok p := by
  match p, h with
  | startup params, ⟨hplain, huser⟩ => exact decode_version hplain huser (.inr ⟨[], rfl⟩)
  | sslRequest, _ =>
      rw [decode, encodeBody, getI32_alone isI32_codes.2.1]
      rfl
  | gssEncRequest, _ =>
      rw [decode, encodeBody, getI32_alone isI32_codes.2.2.1]
      rfl
  | cancelRequest processId secretKey, ⟨hid, hkey⟩ =>
      have hdecoded := decode_cancel hid hkey []
      rwa [List.append_nil] at hdecoded

/-- A startup packet is decoded from the version and parameters with a user. -/
theorem of_decode_startup {body : Bytes} {params : List (Text × Text)} (h : decode body = .ok (startup params)) :
    (∀ e ∈ params, Plain e) ∧ (∃ e ∈ params, e.1 = "user".toList) ∧
      ∃ after, Ends after ∧ body = putI32 protocolVersion3 ++ (params.flatMap encodeParam ++ after) := by
  rw [decode] at h
  cases hcode : getI32 body with
  | none =>
      rw [hcode] at h
      cases h
  | some read =>
      obtain ⟨code, rest⟩ := read
      obtain ⟨rfl, -⟩ := eq_putI32_of_getI32 hcode
      rw [hcode] at h
      dsimp only at h
      split_ifs at h with hssl hgss hcancel hversion
      · cases h
      · cases h
      · split at h
        · cases h
        · split at h <;> cases h
      · split at h
        · cases h
        · next params' hparams =>
            split_ifs at h with hany
            obtain rfl := startup.inj (Except.ok.inj h)
            obtain ⟨hplain, after, hafter, rfl⟩ := eq_of_decodeParams hparams
            refine ⟨hplain, by simpa using hany, after, hafter, ?_⟩
            rw [hversion]

/-- A cancel request is decoded from its code and at least eight more bytes. -/
theorem of_decode_cancel {body : Bytes} {processId secretKey : ℤ}
    (h : decode body = .ok (cancelRequest processId secretKey)) :
    ∃ more, body = putI32 cancelRequestCode ++ more ∧ 8 ≤ more.length := by
  rw [decode] at h
  cases hcode : getI32 body with
  | none =>
      rw [hcode] at h
      cases h
  | some read =>
      obtain ⟨code, rest⟩ := read
      obtain ⟨rfl, -⟩ := eq_putI32_of_getI32 hcode
      rw [hcode] at h
      dsimp only at h
      split_ifs at h with hssl hgss hcancel hversion
      · cases h
      · cases h
      · split at h
        · cases h
        · next hid =>
            split at h
            · cases h
            · next hkey =>
                obtain ⟨rfl, -⟩ := eq_putI32_of_getI32 hid
                obtain ⟨rfl, -⟩ := eq_putI32_of_getI32 hkey
                refine ⟨_, by rw [hcancel], ?_⟩
                simp only [List.length_append, length_putI32]
                omega
      · split at h
        · cases h
        · split_ifs at h
          cases h

/-! ## What is decoded that was not sent -/

/-- What is read from `body` as a startup packet is all of it, to the one terminator; as a cancel request, eight bytes. -/
def DecodesExactly (body : Bytes) : Prop :=
  (∀ params, decode body = .ok (startup params) →
    body = putI32 protocolVersion3 ++ (params.flatMap encodeParam ++ [0])) ∧
  ∀ processId secretKey, decode body = .ok (cancelRequest processId secretKey) →
    ∃ more, body = putI32 cancelRequestCode ++ more ∧ more.length = 8

/-- A list of parameters that stops behind a value, or goes on behind its terminator. -/
def OpenEnded (body : Bytes) : Prop :=
  ∃ (params : List (Text × Text)) (after : Bytes), (∀ e ∈ params, Plain e) ∧ (∃ e ∈ params, e.1 = "user".toList) ∧
    (after = [] ∨ ∃ b more, after = 0 :: b :: more) ∧
    body = putI32 protocolVersion3 ++ (params.flatMap encodeParam ++ after)

/-- A cancel request that goes on behind its key. -/
def LongCancel (body : Bytes) : Prop := ∃ more, body = putI32 cancelRequestCode ++ more ∧ 8 < more.length

theorem not_openEnded_of_decodesExactly {body : Bytes} (h : DecodesExactly body) : ¬ OpenEnded body := by
  rintro ⟨params, after, hplain, huser, hafter, rfl⟩
  have hends : Ends after := by
    rcases hafter with rfl | ⟨b, more, rfl⟩
    · exact .inl rfl
    · exact .inr ⟨b :: more, rfl⟩
  have heq := List.append_cancel_left (List.append_cancel_left (h.1 params (decode_version hplain huser hends)))
  rcases hafter with rfl | ⟨b, more, rfl⟩
  · cases heq
  · cases heq

/-- Eight bytes at least are two integers and the rest. -/
theorem exists_putI32_of_length {more : Bytes} (h : 8 ≤ more.length) :
    ∃ x y rest, IsI32 x ∧ IsI32 y ∧ more = putI32 x ++ (putI32 y ++ rest) := by
  match more, h with
  | a :: b :: c :: d :: e :: f :: g :: k :: rest, _ =>
      obtain ⟨hfirst, hx⟩ := @eq_putI32_of_getI32 (a :: b :: c :: d :: e :: f :: g :: k :: rest) _ _ rfl
      obtain ⟨hsecond, hy⟩ := @eq_putI32_of_getI32 (e :: f :: g :: k :: rest) _ _ rfl
      exact ⟨_, _, rest, hx, hy, hfirst.trans (congrArg _ hsecond)⟩

theorem not_longCancel_of_decodesExactly {body : Bytes} (h : DecodesExactly body) : ¬ LongCancel body := by
  rintro ⟨more, rfl, hlong⟩
  obtain ⟨x, y, rest, hx, hy, rfl⟩ := exists_putI32_of_length (le_of_lt hlong)
  obtain ⟨more, heq, hlength⟩ := h.2 x y (decode_cancel hx hy rest)
  rw [List.append_cancel_left heq] at hlong
  omega

theorem decodesExactly_of_not {body : Bytes} (hopen : ¬ OpenEnded body) (hlong : ¬ LongCancel body) :
    DecodesExactly body := by
  refine ⟨?_, ?_⟩
  · intro params h
    obtain ⟨hplain, huser, after, hafter, rfl⟩ := of_decode_startup h
    rcases hafter with rfl | ⟨more, rfl⟩
    · exact absurd ⟨params, [], hplain, huser, .inl rfl, rfl⟩ hopen
    · cases more with
      | nil => rfl
      | cons b more => exact absurd ⟨params, 0 :: b :: more, hplain, huser, .inr ⟨b, more, rfl⟩, rfl⟩ hopen
  · intro processId secretKey h
    obtain ⟨more, rfl, hlength⟩ := of_decode_cancel h
    have hshort : ¬ 8 < more.length := fun hlt => hlong ⟨more, rfl, hlt⟩
    exact ⟨more, rfl, by omega⟩

end StartupPacket

end Havuz
