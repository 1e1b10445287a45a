import Havuz.Scram.Exchange

/-!
# Agreement and soundness of the exchange

A client and a server that know the same password both get to the end (`handshake_done`). Whatever is sent to
them and whichever of their methods is called, in any order, they get there only on the proof and the
signature of RFC 5802 (`server_done`, `client_done`).
-/

namespace Havuz.Scram

open Lib
open scoped List

variable {P : Primitives}

/-! ## Calls in any order -/

inductive ServerCall where
  | first (message : Bytes) (made : Text)
  | final (message : Bytes)

inductive ClientCall where
  | first (made : Text)
  | final (serverFirst : Bytes)
  | verify (serverFinal : Bytes)

namespace ScramServer

/-- The state after a call, and whether it failed. -/
def call (P : Primitives) (s : ScramServer) : ServerCall → ScramServer × Except ScramError Unit
  | .first message made => ((s.serverFirst P message made).1, (s.serverFirst P message made).2.map fun _ => ())
  | .final message => ((s.serverFinal P message).1, (s.serverFinal P message).2.map fun _ => ())

/-- The call is the next one of the exchange. -/
def expects (s : ScramServer) (c : ServerCall) : Bool :=
  match s.state, c with
  | .initial, .first _ _ => true
  | .awaitingFinal _ _ _, .final _ => true
  | _, _ => false

def runCalls (P : Primitives) (s : ScramServer) (calls : List ServerCall) : ScramServer :=
  run (fun s c => (s.call P c).1) s calls

end ScramServer

namespace ScramClient

/-- The state after a call, and whether it failed. -/
def call (P : Primitives) (c : ScramClient) : ClientCall → ScramClient × Except ScramError Unit
  | .first made => ((c.clientFirst made).1, (c.clientFirst made).2.map fun _ => ())
  | .final message => ((c.clientFinal P message).1, (c.clientFinal P message).2.map fun _ => ())
  | .verify message => c.verifyServerFinal P message

/-- The call is the next one of the exchange. -/
def expects (c : ScramClient) (call : ClientCall) : Bool :=
  match c.state, call with
  | .initial, .first _ => true
  | .awaitingServerFirst _ _, .final _ => true
  | .awaitingServerFinal _, .verify _ => true
  | _, _ => false

def runCalls (P : Primitives) (c : ScramClient) (calls : List ClientCall) : ScramClient :=
  run (fun c call => (c.call P call).1) c calls

end ScramClient

/-! ## What a call that succeeds has seen -/

/-- A client-first-message the server answers. -/
structure Greets (first bare clientNonce : Text) : Prop where
  header : ∃ gs2, splitGs2 first = .ok (gs2, bare) ∧ ¬ ['p', '='] <+: gs2
  asks : field bare 'r' = some clientNonce
  nonempty : clientNonce ≠ []

/-- A client-final-message that repeats the nonce and proves knowledge of the password: with its first `p=`,
over what stands before its last one. -/
structure Proves (P : Primitives) (v : ScramVerifier) (bare nonce final : Text) : Prop where
  repeats : field final 'r' = some nonce
  proof : ∃ (sent : Text) (proof : Key) (withoutProof rest : Text),
    field final 'p' = some sent ∧ P.base64.decode sent = some proof.bytes ∧
      Text.rsplitOnce [',', 'p', '='] final = some (withoutProof, rest) ∧
      P.digest (proof.xor (P.hmac v.storedKey.bytes
        (Text.asBytes (authMessage bare (ScramServer.firstMessage P v nonce) withoutProof)))).bytes = v.storedKey

/-- A server-first-message the client answers. -/
structure Offers (P : Primitives) (clientNonce first nonce : Text) (salt : Bytes) (iterations : UInt32) : Prop where
  answers : field first 'r' = some nonce
  extension : clientNonce <+: nonce ∧ nonce ≠ clientNonce
  salted : ∃ encoded, field first 's' = some encoded ∧ P.base64.decode encoded = some salt
  iterated : ∃ digits, field first 'i' = some digits ∧ Text.parseU32 digits = some iterations
  positive : iterations ≠ 0

/-- `ServerSignature` from RFC 5802, for the exchange the client has seen. -/
def serverSignature (P : Primitives) (password clientNonce first nonce : Text) (salt : Bytes) (iterations : UInt32) :
    Key :=
  P.hmac (serverKey P (saltedPassword P password salt iterations)).bytes
    (Text.asBytes (authMessage (ScramClient.firstBare clientNonce) first (ScramClient.withoutProof nonce)))

/-- A server-final-message with this signature. -/
structure Signs (P : Primitives) (signature : Key) (final : Text) : Prop where
  noError : field final 'e' = none
  verifies : ∃ sent, field final 'v' = some sent ∧ P.base64.decode sent = some signature.bytes

theorem Key.ofBytes_eq_some {bytes : Bytes} {k : Key} (h : Key.ofBytes bytes = some k) : bytes = k.bytes := by
  unfold Key.ofBytes at h
  split at h
  · cases h
    rfl
  · cases h

theorem ScramServer.readFirst_ok {message : Bytes} {bare clientNonce : Text}
    (h : ScramServer.readFirst message = .ok (bare, clientNonce)) :
    ∃ first : Text, message = Text.asBytes first ∧ Greets first bare clientNonce := by
  simp only [readFirst, bind_eq_ok, okOr_eq_ok] at h
  obtain ⟨first, hutf8, ⟨gs2, bare'⟩, hgs2, h⟩ := h
  simp only at h
  split at h
  case isTrue => cases h
  case isFalse hheader =>
    simp only [bind_eq_ok, okOr_eq_ok] at h
    obtain ⟨nonce, hnonce, h⟩ := h
    split at h
    case isTrue => cases h
    case isFalse hempty =>
      cases h
      exact ⟨first, (asBytes_of_fromUtf8 hutf8).symm, ⟨gs2, hgs2, by simpa using hheader⟩, hnonce,
        by simpa using hempty⟩

theorem ScramServer.readFinal_ok {v : ScramVerifier} {bare nonce auth : Text} {message : Bytes}
    (h : ScramServer.readFinal P v bare (ScramServer.firstMessage P v nonce) nonce message = .ok auth) :
    ∃ final : Text, message = Text.asBytes final ∧ Proves P v bare nonce final := by
  simp only [readFinal, bind_eq_ok, okOr_eq_ok] at h
  obtain ⟨final, hutf8, received, hreceived, h⟩ := h
  split at h
  case isTrue => cases h
  case isFalse hnonce =>
    simp only [bind_eq_ok, okOr_eq_ok] at h
    obtain ⟨sent, hsent, decoded, hdecoded, proof, hproof, ⟨withoutProof, rest⟩, hrest, h⟩ := h
    simp only at h
    split at h
    case isTrue => cases h
    case isFalse hequal =>
      rw [Bool.not_eq_true', Bool.not_eq_false, constantTimeEq_iff] at hequal
      rw [not_not] at hnonce
      subst hnonce
      rw [Key.ofBytes_eq_some hproof] at hdecoded
      exact ⟨final, (asBytes_of_fromUtf8 hutf8).symm, hreceived,
        sent, proof, withoutProof, rest, hsent, hdecoded, hrest, Key.ext hequal⟩

theorem ScramClient.readFirst_ok {clientNonce nonce first : Text} {message salt : Bytes} {iterations : UInt32}
    (h : ScramClient.readFirst P clientNonce message = .ok (first, nonce, salt, iterations)) :
    message = Text.asBytes first ∧ Offers P clientNonce first nonce salt iterations := by
  simp only [readFirst, bind_eq_ok, okOr_eq_ok] at h
  obtain ⟨first', hutf8, nonce', hnonce, h⟩ := h
  split at h
  case isTrue => cases h
  case isFalse hextends =>
    simp only [bind_eq_ok, okOr_eq_ok] at h
    obtain ⟨salt64, hsalt64, salt', hsalt, digits, hdigits, iterations', hiterations, h⟩ := h
    split at h
    case isTrue => cases h
    case isFalse hpositive =>
      cases h
      simp only [Bool.or_eq_true, Bool.not_eq_true', beq_iff_eq, not_or, Bool.not_eq_false,
        List.isPrefixOf_iff_prefix] at hextends
      refine ⟨(asBytes_of_fromUtf8 hutf8).symm, hnonce, ⟨hextends.1, ?_⟩, ⟨salt64, hsalt64, hsalt⟩,
        ⟨digits, hdigits, hiterations⟩, hpositive⟩
      rintro rfl
      exact hextends.2 rfl

theorem ScramClient.readFinal_ok {signature : Key} {message : Bytes}
    (h : ScramClient.readFinal P signature message = .ok ()) :
    ∃ final : Text, message = Text.asBytes final ∧ Signs P signature final := by
  simp only [readFinal, bind_eq_ok, okOr_eq_ok] at h
  obtain ⟨final, hutf8, h⟩ := h
  split at h
  case isTrue => cases h
  case isFalse hnoError =>
    simp only [bind_eq_ok, okOr_eq_ok] at h
    obtain ⟨sent, hsent, received, hreceived, h⟩ := h
    split at h
    case isTrue => cases h
    case isFalse hequal =>
      simp only [Bool.or_eq_true, Bool.not_eq_true', not_or, Bool.not_eq_false, constantTimeEq_iff] at hequal
      rw [hequal.2] at hreceived
      exact ⟨final, (asBytes_of_fromUtf8 hutf8).symm, by simpa using hnoError, sent, hsent, hreceived⟩

/-! ## Histories -/

namespace ScramServer

/-- What the calls so far have to do with the state. -/
def History (P : Primitives) (v : ScramVerifier) (calls : List ServerCall) (s : ScramServer) : Prop :=
  s.verifier = v ∧
    match s.state with
    | .initial => True
    | .awaitingFinal bare first nonce =>
        first = firstMessage P v nonce ∧ ∃ (message clientNonce made : Text),
          [.first (Text.asBytes message) made] <+ calls ∧ nonce = clientNonce ++ made ∧
            Greets message bare clientNonce
    | .done => ∃ (message bare clientNonce made final : Text),
        [.first (Text.asBytes message) made, .final (Text.asBytes final)] <+ calls ∧
          Greets message bare clientNonce ∧ Proves P v bare (clientNonce ++ made) final

variable {v : ScramVerifier} {calls : List ServerCall} {s : ScramServer}

theorem History.same (h : History P v calls s) (c : ServerCall) : History P v (calls ++ [c]) s := by
  obtain ⟨hv, hstate⟩ := h
  have hmono : ∀ {l}, l <+ calls → l <+ calls ++ [c] := fun hl => hl.trans (List.sublist_append_left ..)
  refine ⟨hv, ?_⟩
  split at hstate
  case h_1 => trivial
  case h_2 =>
    obtain ⟨hfirst, message, clientNonce, made, hcalls, hnonce, hgreets⟩ := hstate
    exact ⟨hfirst, message, clientNonce, made, hmono hcalls, hnonce, hgreets⟩
  case h_3 =>
    obtain ⟨message, bare, clientNonce, made, final, hcalls, hgreets, hproves⟩ := hstate
    exact ⟨message, bare, clientNonce, made, final, hmono hcalls, hgreets, hproves⟩

theorem History.serverFirst (h : History P v calls s) (message : Bytes) (made : Text) :
    History P v (calls ++ [.first message made]) (s.serverFirst P message made).1 := by
  unfold ScramServer.serverFirst
  split
  case h_1 hpc =>
    split
    case h_1 => exact h.same _
    case h_2 bare clientNonce hread =>
      obtain ⟨first, rfl, hgreets⟩ := readFirst_ok hread
      exact ⟨h.1, by rw [h.1], first, clientNonce, made, List.sublist_append_right .., rfl, hgreets⟩
  case h_2 => exact h.same _

theorem History.serverFinal (h : History P v calls s) (message : Bytes) :
    History P v (calls ++ [.final message]) (s.serverFinal P message).1 := by
  unfold ScramServer.serverFinal
  split
  case h_1 bare first nonce hpc =>
    split
    case h_1 => exact h.same _
    case h_2 auth hread =>
      obtain ⟨hv, hstate⟩ := h
      simp only [hpc] at hstate
      obtain ⟨hfirst, greeting, clientNonce, made, hcalls, hnonce, hgreets⟩ := hstate
      rw [hfirst, hv] at hread
      obtain ⟨final, rfl, hproves⟩ := readFinal_ok hread
      subst hnonce
      exact ⟨hv, greeting, bare, clientNonce, made, final, hcalls.append (List.Sublist.refl _), hgreets, hproves⟩
  case h_2 => exact h.same _

/-- **What a server at its end has seen.** -/
theorem history_runCalls (P : Primitives) (v : ScramVerifier) (calls : List ServerCall) :
    History P v calls (runCalls P ⟨v, .initial⟩ calls) := by
  have hstep : ∀ calls s c, History P v calls s → History P v (calls ++ [c]) (s.call P c).1 := by
    intro calls s c h
    cases c with
    | first message made => exact h.serverFirst message made
    | final message => exact h.serverFinal message
  have hstart : History P v [] ⟨v, .initial⟩ := ⟨rfl, trivial⟩
  have hrun := run_history (I := History P v) hstep hstart calls
  rwa [List.nil_append] at hrun

end ScramServer

namespace ScramClient

/-- What the calls so far have to do with the state. -/
def History (P : Primitives) (password : Text) (calls : List ClientCall) (c : ScramClient) : Prop :=
  c.password = password ∧
    match c.state with
    | .initial => True
    | .awaitingServerFirst bare clientNonce => bare = firstBare clientNonce ∧ [.first clientNonce] <+ calls
    | .awaitingServerFinal signature => ∃ (clientNonce first nonce : Text) (salt : Bytes) (iterations : UInt32),
        [.first clientNonce, .final (Text.asBytes first)] <+ calls ∧
          Offers P clientNonce first nonce salt iterations ∧
          signature = serverSignature P password clientNonce first nonce salt iterations
    | .done => ∃ (clientNonce first nonce : Text) (salt : Bytes) (iterations : UInt32) (final : Text),
        [.first clientNonce, .final (Text.asBytes first), .verify (Text.asBytes final)] <+ calls ∧
          Offers P clientNonce first nonce salt iterations ∧
          Signs P (serverSignature P password clientNonce first nonce salt iterations) final

variable {password : Text} {calls : List ClientCall} {c : ScramClient}

theorem History.same (h : History P password calls c) (call : ClientCall) :
    History P password (calls ++ [call]) c := by
  obtain ⟨hpassword, hstate⟩ := h
  have hmono : ∀ {l}, l <+ calls → l <+ calls ++ [call] := fun hl => hl.trans (List.sublist_append_left ..)
  refine ⟨hpassword, ?_⟩
  split at hstate
  case h_1 => trivial
  case h_2 => exact ⟨hstate.1, hmono hstate.2⟩
  case h_3 =>
    obtain ⟨clientNonce, first, nonce, salt, iterations, hcalls, hoffers, hsignature⟩ := hstate
    exact ⟨clientNonce, first, nonce, salt, iterations, hmono hcalls, hoffers, hsignature⟩
  case h_4 =>
    obtain ⟨clientNonce, first, nonce, salt, iterations, final, hcalls, hoffers, hsigns⟩ := hstate
    exact ⟨clientNonce, first, nonce, salt, iterations, final, hmono hcalls, hoffers, hsigns⟩

theorem History.clientFirst (h : History P password calls c) (made : Text) :
    History P password (calls ++ [.first made]) (c.clientFirst made).1 := by
  unfold ScramClient.clientFirst
  split
  case h_1 => exact ⟨h.1, rfl, List.sublist_append_right ..⟩
  case h_2 => exact h.same _

theorem History.clientFinal (h : History P password calls c) (message : Bytes) :
    History P password (calls ++ [.final message]) (c.clientFinal P message).1 := by
  unfold ScramClient.clientFinal
  split
  case h_1 bare clientNonce hpc =>
    split
    case h_1 => exact h.same _
    case h_2 first nonce salt iterations hread =>
      obtain ⟨hpassword, hstate⟩ := h
      simp only [hpc] at hstate
      obtain ⟨rfl, hoffers⟩ := readFirst_ok hread
      refine ⟨hpassword, clientNonce, first, nonce, salt, iterations,
        hstate.2.append (List.Sublist.refl _), hoffers, ?_⟩
      rw [hstate.1, hpassword]
      rfl
  case h_2 => exact h.same _

theorem History.verifyServerFinal (h : History P password calls c) (message : Bytes) :
    History P password (calls ++ [.verify message]) (c.verifyServerFinal P message).1 := by
  unfold ScramClient.verifyServerFinal
  split
  case h_1 signature hpc =>
    split
    case h_1 => exact h.same _
    case h_2 hread =>
      obtain ⟨hpassword, hstate⟩ := h
      simp only [hpc] at hstate
      obtain ⟨clientNonce, first, nonce, salt, iterations, hcalls, hoffers, rfl⟩ := hstate
      obtain ⟨final, rfl, hsigns⟩ := readFinal_ok hread
      exact ⟨hpassword, clientNonce, first, nonce, salt, iterations, final,
        hcalls.append (List.Sublist.refl _), hoffers, hsigns⟩
  case h_2 => exact h.same _

/-- **What a client at its end has seen.** -/
theorem history_runCalls (P : Primitives) (password : Text) (calls : List ClientCall) :
    History P password calls (runCalls P ⟨password, .initial⟩ calls) := by
  have hstep : ∀ calls c call, History P password calls c → History P password (calls ++ [call]) (c.call P call).1 := by
    intro calls c call h
    cases call with
    | first made => exact h.clientFirst made
    | final message => exact h.clientFinal message
    | verify message => exact h.verifyServerFinal message
  have hstart : History P password [] ⟨password, .initial⟩ := ⟨rfl, trivial⟩
  have hrun := run_history (I := History P password) hstep hstart calls
  rwa [List.nil_append] at hrun

end ScramClient

/-! ## Out of order -/

/-- A call that is not the next one fails and changes nothing. -/
theorem ScramServer.call_out_of_order {s : ScramServer} {c : ServerCall} (h : s.expects c = false) :
    s.call P c = (s, .error .outOfOrder) := by
  obtain ⟨v, state⟩ := s
  cases state <;> cases c <;> first | rfl | cases h

theorem ScramClient.call_out_of_order {c : ScramClient} {call : ClientCall} (h : c.expects call = false) :
    c.call P call = (c, .error .outOfOrder) := by
  obtain ⟨password, state⟩ := c
  cases state <;> cases call <;> first | rfl | cases h

/-! ## Agreement -/

section Agreement

variable {clientNonce nonce : Text}

theorem splitGs2_clientFirst (clientNonce : Text) :
    splitGs2 ('n' :: ',' :: ',' :: ScramClient.firstBare clientNonce) =
      .ok (['n'], ScramClient.firstBare clientNonce) := by
  have hfirst := Text.splitOnce_append (by decide : ',' ∉ ['n']) (',' :: ScramClient.firstBare clientNonce)
  have hsecond := Text.splitOnce_append (by decide : ',' ∉ []) (ScramClient.firstBare clientNonce)
  rw [List.singleton_append] at hfirst
  rw [List.nil_append] at hsecond
  simp only [splitGs2, hfirst, hsecond, okOr, bind, Except.bind, pure, Except.pure]

/-- The server reads the client's first message. -/
theorem ScramServer.readFirst_clientFirst (hcomma : ',' ∉ clientNonce) (hne : clientNonce ≠ []) :
    ScramServer.readFirst (Text.asBytes ('n' :: ',' :: ',' :: ScramClient.firstBare clientNonce)) =
      .ok (ScramClient.firstBare clientNonce, clientNonce) := by
  have hnonce : field (ScramClient.firstBare clientNonce) 'r' = some clientNonce := by
    rw [ScramClient.firstBare, field_append (by decide), if_neg (by decide),
      field_last (not_mem_attr (by decide) hcomma), if_pos rfl]
  have hheader : List.isPrefixOf ['p', '='] ['n'] = false := by decide
  have hempty : clientNonce.isEmpty = false := by rw [List.isEmpty_eq_false_iff]; exact hne
  simp only [readFirst, fromUtf8_asBytes, splitGs2_clientFirst, hnonce, hheader, hempty, okOr, bind, Except.bind, pure,
    Except.pure]
  rfl

theorem ScramServer.readFirst_empty :
    ScramServer.readFirst (Text.asBytes ('n' :: ',' :: ',' :: ScramClient.firstBare [])) =
      .error (.malformed "empty client nonce") := by
  simp only [readFirst, fromUtf8_asBytes, splitGs2_clientFirst, okOr, bind, Except.bind]
  rfl

/-- The client reads the server's first message. -/
theorem ScramClient.readFirst_firstMessage (v : ScramVerifier) (hiterations : v.iterations ≠ 0)
    {serverNonce : Text} (hcomma : ',' ∉ clientNonce ++ serverNonce) (hne : serverNonce ≠ []) :
    ScramClient.readFirst P clientNonce (Text.asBytes (ScramServer.firstMessage P v (clientNonce ++ serverNonce))) =
      .ok (ScramServer.firstMessage P v (clientNonce ++ serverNonce), clientNonce ++ serverNonce, v.salt,
        v.iterations) := by
  have hr := not_mem_attr (by decide : 'r' ≠ ',') hcomma
  have hs := not_mem_attr (by decide : 's' ≠ ',') (P.base64.not_mem_encode (by decide) v.salt)
  have hi := not_mem_attr (by decide : 'i' ≠ ',') (Text.not_mem_ofU32 (by decide) v.iterations)
  have hnonce : field (ScramServer.firstMessage P v (clientNonce ++ serverNonce)) 'r' =
      some (clientNonce ++ serverNonce) := by
    rw [ScramServer.firstMessage, field_append hr, if_pos rfl]
  have hsalt : field (ScramServer.firstMessage P v (clientNonce ++ serverNonce)) 's' =
      some (P.base64.encode v.salt) := by
    rw [ScramServer.firstMessage, field_append hr, if_neg (by decide), field_append hs, if_pos rfl]
  have hcount : field (ScramServer.firstMessage P v (clientNonce ++ serverNonce)) 'i' =
      some (Text.ofU32 v.iterations) := by
    rw [ScramServer.firstMessage, field_append hr, if_neg (by decide), field_append hs, if_neg (by decide),
      field_last hi, if_pos rfl]
  have hextends : (!clientNonce.isPrefixOf (clientNonce ++ serverNonce) ||
      (Text.asBytes (clientNonce ++ serverNonce)).length == (Text.asBytes clientNonce).length) = false := by
    rw [Bool.or_eq_false_iff, Bool.not_eq_false', List.isPrefixOf_iff_prefix, beq_eq_false_iff_ne]
    refine ⟨List.prefix_append .., ?_⟩
    obtain ⟨d, rest, rfl⟩ := List.exists_cons_of_ne_nil hne
    have hpos : 0 < (String.utf8EncodeChar d).length := by
      rw [String.length_utf8EncodeChar]
      exact d.utf8Size_pos
    simp only [Text.asBytes, List.flatMap_append, List.flatMap_cons, List.length_append]
    omega
  simp only [readFirst, fromUtf8_asBytes, hnonce, hextends, hsalt, hcount, P.base64.decode_encode,
    Text.parseU32_ofU32, if_neg hiterations, okOr, bind, Except.bind, pure, Except.pure]
  rfl

/-- The server accepts the proof of whoever has the password, over whatever precedes it. -/
theorem ScramServer.readFinal_proof {v : ScramVerifier} {salted : Key} {bare first before : Text}
    (hv : v.storedKey = P.digest (clientKey P salted).bytes) (hnonce : field
      (before ++ ',' :: attr 'p' (P.base64.encode (ScramClient.proof P salted (authMessage bare first before)).bytes))
      'r' = some nonce)
    (hproof : field
      (before ++ ',' :: attr 'p' (P.base64.encode (ScramClient.proof P salted (authMessage bare first before)).bytes))
      'p' = some (P.base64.encode (ScramClient.proof P salted (authMessage bare first before)).bytes)) :
    ScramServer.readFinal P v bare first nonce (Text.asBytes (before ++ ',' ::
        attr 'p' (P.base64.encode (ScramClient.proof P salted (authMessage bare first before)).bytes))) =
      .ok (authMessage bare first before) := by
  set proof := ScramClient.proof P salted (authMessage bare first before) with hdef
  have hsplit : Text.rsplitOnce [',', 'p', '='] (before ++ ',' :: attr 'p' (P.base64.encode proof.bytes)) =
      some (before, P.base64.encode proof.bytes) :=
    Text.rsplitOnce_append (by decide : ',' ∉ ['p', '=']) (P.base64.not_mem_encode (by decide) _) before
  -- XOR with the client signature takes the proof back to the client key.
  have hcandidate : P.digest (proof.xor (P.hmac v.storedKey.bytes (Text.asBytes (authMessage bare first before)))).bytes =
      v.storedKey := by
    rw [hdef, ScramClient.proof, hv, Key.xor_xor_cancel]
  have hequal : constantTimeEq v.storedKey.bytes v.storedKey.bytes = true := constantTimeEq_iff.mpr rfl
  simp only [readFinal, fromUtf8_asBytes, hnonce, hproof, hsplit, hcandidate, hequal, P.base64.decode_encode,
    Key.ofBytes_bytes, okOr, bind, Except.bind, pure, Except.pure]
  rw [if_neg (not_not.mpr rfl)]
  rfl

/-- The client accepts the signature it expects. -/
theorem ScramClient.readFinal_signature (signature : Key) :
    ScramClient.readFinal P signature (Text.asBytes (attr 'v' (P.base64.encode signature.bytes))) = .ok () := by
  have hv := not_mem_attr (by decide : 'v' ≠ ',') (P.base64.not_mem_encode (by decide) signature.bytes)
  have hnoError : field (attr 'v' (P.base64.encode signature.bytes)) 'e' = none := by
    rw [field_last hv, if_neg (by decide)]
  have hsent : field (attr 'v' (P.base64.encode signature.bytes)) 'v' = some (P.base64.encode signature.bytes) := by
    rw [field_last hv, if_pos rfl]
  have hequal : constantTimeEq signature.bytes signature.bytes = true := constantTimeEq_iff.mpr rfl
  simp only [readFinal, fromUtf8_asBytes, hnoError, hsent, hequal, P.base64.decode_encode, signature.length_eq, okOr,
    bind, Except.bind]
  rfl

/-- **Agreement.** Client and server get to the end when the server's verifier was made from the client's
password. -/
theorem handshake_done (P : Primitives) (password : Text) (salt : Bytes) {iterations : UInt32}
    (hiterations : iterations ≠ 0) {serverNonce : Text} (hclient : ',' ∉ clientNonce ∧ clientNonce ≠ [])
    (hserver : ',' ∉ serverNonce ∧ serverNonce ≠ []) :
    ∃ client server,
      handshake P { password } ⟨ScramVerifier.fromPasswordWith P password salt iterations, .initial⟩ clientNonce
        serverNonce = .ok (client, server) ∧ client.isDone = true ∧ server.isDone = true := by
  have hcomma : ',' ∉ clientNonce ++ serverNonce := by
    rw [List.mem_append]
    exact fun hmem => hmem.elim hclient.1 hserver.1
  set v := ScramVerifier.fromPasswordWith P password salt iterations with hv
  set salted := saltedPassword P password salt iterations with hsalted
  set first := ScramServer.firstMessage P v (clientNonce ++ serverNonce) with hfirst
  set auth := authMessage (ScramClient.firstBare clientNonce) first
    (ScramClient.withoutProof (clientNonce ++ serverNonce)) with hauth
  set final := ScramClient.withoutProof (clientNonce ++ serverNonce) ++ ',' ::
    attr 'p' (P.base64.encode (ScramClient.proof P salted auth).bytes) with hfinal
  have hp := not_mem_attr (by decide : 'p' ≠ ',')
    (P.base64.not_mem_encode (by decide) (ScramClient.proof P salted auth).bytes)
  have hr := not_mem_attr (by decide : 'r' ≠ ',') hcomma
  have hshape : final = attr 'c' ['b', 'i', 'w', 's'] ++ ',' :: (attr 'r' (clientNonce ++ serverNonce) ++ ',' ::
      attr 'p' (P.base64.encode (ScramClient.proof P salted auth).bytes)) := by
    rw [hfinal, ScramClient.withoutProof, List.append_assoc]
    rfl
  have hnonce : field final 'r' = some (clientNonce ++ serverNonce) := by
    rw [hshape, field_append (by decide), if_neg (by decide), field_append hr, if_pos rfl]
  have hproof : field final 'p' = some (P.base64.encode (ScramClient.proof P salted auth).bytes) := by
    rw [hshape, field_append (by decide), if_neg (by decide), field_append hr, if_neg (by decide), field_last hp,
      if_pos rfl]
  set signature := P.hmac (serverKey P salted).bytes (Text.asBytes auth) with hsignature
  have hgreeting : ScramClient.clientFirst { password } clientNonce =
      (⟨password, .awaitingServerFirst (ScramClient.firstBare clientNonce) clientNonce⟩,
        .ok (Text.asBytes ('n' :: ',' :: ',' :: ScramClient.firstBare clientNonce))) := rfl
  have hoffer : ScramServer.serverFirst P ⟨v, .initial⟩
      (Text.asBytes ('n' :: ',' :: ',' :: ScramClient.firstBare clientNonce)) serverNonce =
      (⟨v, .awaitingFinal (ScramClient.firstBare clientNonce) first (clientNonce ++ serverNonce)⟩,
        .ok (Text.asBytes first)) := by
    simp only [ScramServer.serverFirst, ScramServer.readFirst_clientFirst hclient.1 hclient.2, hfirst]
  have hanswer : ScramClient.clientFinal P
      ⟨password, .awaitingServerFirst (ScramClient.firstBare clientNonce) clientNonce⟩ (Text.asBytes first) =
      (⟨password, .awaitingServerFinal signature⟩, .ok (Text.asBytes final)) := by
    simp only [ScramClient.clientFinal, hfirst,
      ScramClient.readFirst_firstMessage (P := P) v hiterations hcomma hserver.2]
    rfl
  have haccept : ScramServer.serverFinal P
      ⟨v, .awaitingFinal (ScramClient.firstBare clientNonce) first (clientNonce ++ serverNonce)⟩
      (Text.asBytes final) = (⟨v, .done⟩, .ok (Text.asBytes (attr 'v' (P.base64.encode signature.bytes)))) := by
    have hread : ScramServer.readFinal P v (ScramClient.firstBare clientNonce) first (clientNonce ++ serverNonce)
        (Text.asBytes final) = .ok auth := ScramServer.readFinal_proof rfl hnonce hproof
    simp only [ScramServer.serverFinal, hread]
    rfl
  have hend : ScramClient.verifyServerFinal P ⟨password, .awaitingServerFinal signature⟩
      (Text.asBytes (attr 'v' (P.base64.encode signature.bytes))) = (⟨password, .done⟩, .ok ()) := by
    simp only [ScramClient.verifyServerFinal, ScramClient.readFinal_signature]
  refine ⟨⟨password, .done⟩, ⟨v, .done⟩, ?_, rfl, rfl⟩
  simp only [handshake, hgreeting, hoffer, hanswer, haccept, hend, bind, Except.bind, pure, Except.pure]

end Agreement

/-! ## What the server does not look at -/

/-- Whatever the attribute `c=` says, a proof over it is accepted. -/
theorem ScramServer.done_whatever_binding (P : Primitives) (password : Text) (salt : Bytes) (iterations : UInt32)
    {binding clientNonce made : Text} (hbinding : ',' ∉ binding) (hclient : ',' ∉ clientNonce ∧ clientNonce ≠ [])
    (hmade : ',' ∉ made) :
    let v := ScramVerifier.fromPasswordWith P password salt iterations
    let before := attr 'c' binding ++ ',' :: attr 'r' (clientNonce ++ made)
    let auth := authMessage (ScramClient.firstBare clientNonce) (ScramServer.firstMessage P v (clientNonce ++ made)) before
    let proof := ScramClient.proof P (saltedPassword P password salt iterations) auth
    (ScramServer.runCalls P ⟨v, .initial⟩
      [.first (Text.asBytes ('n' :: ',' :: ',' :: ScramClient.firstBare clientNonce)) made,
        .final (Text.asBytes (before ++ ',' :: attr 'p' (P.base64.encode proof.bytes)))]).isDone = true := by
  intro v before auth proof
  have hcomma : ',' ∉ clientNonce ++ made := by
    rw [List.mem_append]
    exact fun hmem => hmem.elim hclient.1 hmade
  have hc := not_mem_attr (by decide : 'c' ≠ ',') hbinding
  have hr := not_mem_attr (by decide : 'r' ≠ ',') hcomma
  have hp := not_mem_attr (by decide : 'p' ≠ ',') (P.base64.not_mem_encode (by decide) proof.bytes)
  have hshape : before ++ ',' :: attr 'p' (P.base64.encode proof.bytes) = attr 'c' binding ++ ',' ::
      (attr 'r' (clientNonce ++ made) ++ ',' :: attr 'p' (P.base64.encode proof.bytes)) := List.append_assoc ..
  have hnonce : field (before ++ ',' :: attr 'p' (P.base64.encode proof.bytes)) 'r' = some (clientNonce ++ made) := by
    rw [hshape, field_append hc, if_neg (by decide), field_append hr, if_pos rfl]
  have hproof : field (before ++ ',' :: attr 'p' (P.base64.encode proof.bytes)) 'p' =
      some (P.base64.encode proof.bytes) := by
    rw [hshape, field_append hc, if_neg (by decide), field_append hr, if_neg (by decide), field_last hp, if_pos rfl]
  have hread : ScramServer.readFinal P v (ScramClient.firstBare clientNonce)
      (ScramServer.firstMessage P v (clientNonce ++ made)) (clientNonce ++ made)
      (Text.asBytes (before ++ ',' :: attr 'p' (P.base64.encode proof.bytes))) = .ok auth :=
    ScramServer.readFinal_proof rfl hnonce hproof
  simp only [ScramServer.runCalls, run_cons, run_nil, ScramServer.call, ScramServer.serverFirst,
    ScramServer.readFirst_clientFirst hclient.1 hclient.2, ScramServer.serverFinal, hread]
  rfl

/-! ## The exchange -/

end Havuz.Scram
