import Mathlib
import Havuz.Admission.Passthrough
import Havuz.Login.Frames
import Havuz.Scram.Sound

/-!
# Letting a client in

Reference: `ClientHandshake` and `AuthDenial` in `havuz-pg/src/session.rs`, with `StateAuthenticator` of
`havuz-pg/src/family.rs` behind it. The client is whatever it sends. What the database says about a name without
a record, and the way a refusal prints for the log, are parameters.

`AuthenticationOk` goes out only on a proof, and the password is asked for in the clear only where the pool
says so (`session_needs_proof`).
-/

namespace Havuz

namespace Admission

/-! ## Refusals -/

def AuthDenial.sqlstate : AuthDenial → Text
  | unknownPool _ => "3D000".toList
  | unverifiable _ => Sqlstate.cannotConnectNow
  | _ => "28000".toList

/-- Vague about which half of the credentials was wrong. -/
def AuthDenial.clientMessage : AuthDenial → Text
  | unknownPool pool => "database \"".toList ++ pool ++ "\" does not exist".toList
  | unverifiable reason => "cannot verify credentials against the database right now: ".toList ++ reason
  | _ => "authentication failed".toList

def AuthDenial.message (denial : AuthDenial) : Message := .fatal denial.sqlstate denial.clientMessage

namespace ClientAuth

variable {V : Type}

/-- Whether the handshake has to come away holding the password. -/
def needsPlaintext : ClientAuth V → Bool
  | scram _ => false
  | plaintext _ _ => true
  | unproven _ => true

def allowWithoutTls : ClientAuth V → Bool
  | scram _ => false
  | plaintext _ allow => allow
  | unproven allow => allow

end ClientAuth

end Admission

namespace Login

open Admission (AuthDenial ClientAuth)
open Scram (ScramServer ScramVerifier Primitives Greets Proves)

/-! ## The exchange -/

/-- `Authenticator`. -/
structure Authenticator where
  resolve : Text → Text → Except AuthDenial (ClientAuth ScramVerifier)
  /-- `admit`: prove an identity by using it. -/
  admits : Text → Text → Text → Except AuthDenial Unit
  /-- `{:?}` of a refusal. -/
  showDenial : AuthDenial → Text

/-- What the client sends after its startup packet, and what lies with chance. -/
structure Client where
  messages : List Message
  /-- How the read fails that finds nothing more. -/
  ends : Text
  /-- The nonce havuz makes. -/
  nonce : Text

/-- `read_password_message`. -/
def readPasswordMessage (ends : Text) : List Message → Except HandshakeError (Message × List Message)
  | [] => .error (.protocol ("reading auth response: ".toList ++ ends))
  | m :: rest =>
      if m.tag = byte 'p' then .ok (m, rest)
      else .error (.protocol ("expected a password message, got '".toList ++ [Char.ofNat m.tag.toNat] ++ "'".toList))

/-- What `deny` sends. -/
def passwordFailed : Message := .fatal "28P01".toList "password authentication failed".toList

variable (P : Primitives)

/-- `ClientHandshake::scram`. -/
def scram (client : Client) (verifier : ScramVerifier) : List Answer × Except HandshakeError Unit :=
  let offer := Answer.message .authenticationSasl
  match readPasswordMessage client.ends client.messages with
  | .error e => ([offer], .error e)
  | .ok (initial, rest) =>
      match parseSaslInitial initial.body with
      | .error e => ([offer], .error e)
      | .ok first =>
          match ScramServer.serverFirst P ⟨verifier, .initial⟩ first client.nonce with
          | (_, .error e) => ([offer, .message passwordFailed], .error (.auth ("scram: ".toList ++ e.text)))
          | (server, .ok serverFirst) =>
              let answers := [offer, .message (.authenticationSaslContinue serverFirst)]
              match readPasswordMessage client.ends rest with
              | .error e => (answers, .error e)
              | .ok (response, _) =>
                  match server.serverFinal P response.body with
                  | (_, .error e) =>
                      (answers ++ [.message passwordFailed], .error (.auth ("scram: ".toList ++ e.text)))
                  | (_, .ok serverFinal) => (answers ++ [.message (.authenticationSaslFinal serverFinal)], .ok ())

/-- The password in an answer: up to a NUL, which some clients omit. -/
def passwordIn (body : Bytes) : Option Text := fromUtf8 (body.takeWhile (· ≠ 0))

/-- `ClientHandshake::cleartext`. -/
def cleartext (client : Client) (verifier : Option ScramVerifier) : List Answer × Except HandshakeError Text :=
  let ask := Answer.message .authenticationCleartext
  match readPasswordMessage client.ends client.messages with
  | .error e => ([ask], .error e)
  | .ok (m, _) =>
      match passwordIn m.body with
      | none => ([ask], .error (.auth "password is not valid utf-8".toList))
      | some password =>
          if verifier.all (Passthrough.verifies P · password) then ([ask], .ok password)
          else ([ask, .message AuthDenial.unknownUser.message], .error (.auth "password did not verify".toList))

/-- The refusal to ask for a password on a socket anyone can read. -/
def onlyOverTls (pool : Text) : Message :=
  .fatal "28000".toList ("pool \"".toList ++ pool ++
    "\" authenticates against the database as you, so it needs your password ".toList ++
    "and will only ask for it over TLS; connect with sslmode=require or higher".toList)

/-- What `run_for_pool` does between the choice of a pool and `AuthenticationOk`. -/
def authenticateClient (A : Authenticator) (client : Client) (encrypted : Bool) (user pool : Text) :
    List Answer × Except HandshakeError (Option Text) :=
  match A.resolve user pool with
  | .error denial => ([.message denial.message], .error (.auth (A.showDenial denial)))
  | .ok auth =>
      if auth.needsPlaintext && !encrypted && !auth.allowWithoutTls then
        ([.message (onlyOverTls pool)],
          .error (.tls ("pool '".toList ++ pool ++ "' requires TLS for per-user authentication".toList)))
      else
        match auth with
        | .scram verifier => ((scram P client verifier).1, (scram P client verifier).2.map fun _ => none)
        | .plaintext verifier _ =>
            ((cleartext P client (some verifier)).1, (cleartext P client (some verifier)).2.map some)
        | .unproven _ =>
            match cleartext P client none with
            | (answers, .error e) => (answers, .error e)
            | (answers, .ok password) =>
                match A.admits user pool password with
                | .error denial =>
                    (answers ++ [.message denial.message], .error (.auth (A.showDenial denial)))
                | .ok () => (answers, .ok (some password))

/-- The handshake with this authenticator and this client. -/
def handshakePeer (accept : Except Text Unit) (A : Authenticator) (client : Client) : HandshakePeer where
  accept := accept
  authenticate := authenticateClient P A client

/-- `StateAuthenticator` over a state, with the verifiers the database vouched for. -/
def stateAuthenticator (s : State) (known : Text → Text → Option ScramVerifier)
    (admits : Text → Text → Text → Except AuthDenial Unit) (showDenial : AuthDenial → Text) : Authenticator where
  resolve user pool := Admission.resolve (fun t => (ScramVerifier.parse P t).toOption) s (known pool user) user pool
  admits := admits
  showDenial := showDenial

/-! ## What is proved -/

/-- The client's messages carry a SCRAM proof against this verifier, over the nonce havuz made for it. -/
def ProvesBy (client : Client) (verifier : ScramVerifier) : Prop :=
  ∃ initial response rest, client.messages = initial :: response :: rest ∧
    ∃ first bare nonce final : Text, parseSaslInitial initial.body = .ok first.asBytes ∧ Greets first bare nonce ∧
      response.body = final.asBytes ∧ Proves P verifier bare (nonce ++ client.nonce) final

/-- The client's first message is this password. -/
def Client.Sends (client : Client) (password : Text) : Prop :=
  ∃ m rest, client.messages = m :: rest ∧ passwordIn m.body = some password

/-! ## What havuz says on the way -/

/-- A request of this kind. -/
def Asks (kind : ℤ) (a : Answer) : Prop := ∃ data, a = .message (.authentication kind data)

/-- Anything the client gets before it is let in or asked for its password. -/
inductive Plain : Answer → Prop where
  | flag (b : UInt8) : Plain (.byte b)
  | sasl {kind : ℤ} (h : kind = 10 ∨ kind = 11 ∨ kind = 12) (data : Bytes) : Plain (.message (.authentication kind data))
  | fatal (code text : Text) : Plain (.message (.fatal code text))

theorem kind_of_authentication_eq {kind kind' : ℤ} {data data' : Bytes} (hk : IsI32 kind) (hk' : IsI32 kind')
    (h : Message.authentication kind data = .authentication kind' data') : kind = kind' := by
  have hbody := congrArg (fun m : Message => getI32 m.body) h
  simp only [Message.authentication, getI32_putI32 hk, getI32_putI32 hk', Option.some.injEq, Prod.mk.injEq] at hbody
  exact hbody.1

theorem Plain.not_asks {a : Answer} (h : Plain a) {kind : ℤ} (hkind : kind = 0 ∨ kind = 3) : ¬ Asks kind a := by
  intro hasks
  obtain ⟨data, ha⟩ := hasks
  cases h with
  | flag b => cases ha
  | sasl hsasl data' =>
      have hsmall : ∀ k : ℤ, 0 ≤ k → k ≤ 12 → IsI32 k := fun k h0 h12 => ⟨by omega, by omega⟩
      have hsame := kind_of_authentication_eq (hsmall _ (by omega) (by omega)) (hsmall _ (by omega) (by omega))
        (Answer.message.inj ha)
      omega
  | fatal code text =>
      have htag : byte 'E' = byte 'R' := congrArg Message.tag (Answer.message.inj ha)
      exact absurd htag (by decide)

theorem Plain.ne_ok {a : Answer} (h : Plain a) : a ≠ .message .authenticationOk := by
  rintro rfl
  exact h.not_asks (.inl rfl) ⟨[], by rw [Message.authenticationOk_eq]⟩

theorem Plain.ne_cleartext {a : Answer} (h : Plain a) : a ≠ .message .authenticationCleartext := by
  rintro rfl
  exact h.not_asks (.inr rfl) ⟨[], rfl⟩

section Said

variable {P} {A : Authenticator} {client : Client} {verifier : ScramVerifier} {encrypted : Bool} {user pool : Text}

theorem scram_plain : ∀ a ∈ (scram P client verifier).1, Plain a := by
  have hoffer : Plain (.message .authenticationSasl) := .sasl (.inl rfl) _
  have hgoes : ∀ data, Plain (.message (.authenticationSaslContinue data)) := fun data => .sasl (.inr (.inl rfl)) data
  have hends : ∀ data, Plain (.message (.authenticationSaslFinal data)) := fun data => .sasl (.inr (.inr rfl)) data
  have hfails : Plain (.message passwordFailed) := .fatal _ _
  unfold scram
  dsimp only
  repeat' split
  all_goals simp [hoffer, hgoes, hends, hfails]

/-- The password is asked for first; the rest is plain. -/
theorem cleartext_said (P : Primitives) (client : Client) (verifier : Option ScramVerifier) :
    ∃ rest, (cleartext P client verifier).1 = .message .authenticationCleartext :: rest ∧ ∀ a ∈ rest, Plain a := by
  have hfails : Plain (.message AuthDenial.unknownUser.message) := .fatal _ _
  unfold cleartext
  dsimp only
  repeat' split
  · exact ⟨[], rfl, List.forall_mem_nil _⟩
  · exact ⟨[], rfl, List.forall_mem_nil _⟩
  · exact ⟨[], rfl, List.forall_mem_nil _⟩
  · exact ⟨[_], rfl, by simpa using hfails⟩

/-- The password is asked for only where it may be. -/
theorem authenticateClient_said (P : Primitives) (A : Authenticator) (client : Client) (encrypted : Bool) (user pool : Text) :
    ∀ a ∈ (authenticateClient P A client encrypted user pool).1, Plain a ∨
      (a = .message .authenticationCleartext ∧ ∃ auth, A.resolve user pool = .ok auth ∧ auth.needsPlaintext = true ∧
        (encrypted = true ∨ auth.allowWithoutTls = true)) := by
  intro a ha
  unfold authenticateClient at ha
  split at ha
  case h_1 => exact .inl (List.mem_singleton.mp ha ▸ .fatal _ _)
  case h_2 auth hauth =>
    split at ha
    case isTrue => exact .inl (List.mem_singleton.mp ha ▸ .fatal _ _)
    case isFalse hmay =>
      have hasked : ∀ v, auth.needsPlaintext = true → a ∈ (cleartext P client v).1 → Plain a ∨
          (a = .message .authenticationCleartext ∧ ∃ auth, A.resolve user pool = .ok auth ∧
            auth.needsPlaintext = true ∧ (encrypted = true ∨ auth.allowWithoutTls = true)) := by
        intro v hneeds hmem
        obtain ⟨rest, hsaid, hplain⟩ := cleartext_said P client v
        rw [hsaid] at hmem
        obtain rfl | hmem := List.mem_cons.mp hmem
        · refine .inr ⟨rfl, auth, hauth, hneeds, ?_⟩
          rw [hneeds] at hmay
          cases encrypted
          · exact .inr (by simpa using hmay)
          · exact .inl rfl
        · exact .inl (hplain a hmem)
      cases auth with
      | scram verifier => exact .inl (scram_plain a ha)
      | plaintext verifier allow => exact hasked _ rfl ha
      | unproven allow =>
          dsimp only at ha
          split at ha
          case h_1 answers e hclear => exact hasked none rfl (by rw [hclear]; exact ha)
          case h_2 answers password hclear =>
            split at ha
            case h_1 =>
              obtain ha | ha := List.mem_append.mp ha
              · exact hasked none rfl (by rw [hclear]; exact ha)
              · exact .inl (List.mem_singleton.mp ha ▸ .fatal _ _)
            case h_2 => exact hasked none rfl (by rw [hclear]; exact ha)

/-! ## What it takes -/

theorem readPasswordMessage_ok {ends : Text} {messages rest : List Message} {m : Message}
    (h : readPasswordMessage ends messages = .ok (m, rest)) : messages = m :: rest ∧ m.tag = byte 'p' := by
  unfold readPasswordMessage at h
  split at h
  case h_1 => cases h
  case h_2 m' rest' =>
    split at h
    case isTrue htag =>
      cases h
      exact ⟨rfl, htag⟩
    case isFalse => cases h

theorem scram_ok (h : (scram P client verifier).2 = .ok ()) : ProvesBy P client verifier := by
  unfold scram at h
  dsimp only at h
  split at h
  case h_1 => cases h
  case h_2 initial rest hinitial =>
    split at h
    case h_1 => cases h
    case h_2 payload hpayload =>
      split at h
      case h_1 => cases h
      case h_2 server serverFirst hfirst =>
        split at h
        case h_1 => cases h
        case h_2 response rest' hresponse =>
          split at h
          case h_1 => cases h
          case h_2 server' serverFinal hfinal =>
            obtain ⟨hmessages, -⟩ := readPasswordMessage_ok hinitial
            obtain ⟨rfl, -⟩ := readPasswordMessage_ok hresponse
            simp only [ScramServer.serverFirst] at hfirst
            split at hfirst
            case h_1 => cases hfirst
            case h_2 bare nonce hread =>
              cases hfirst
              obtain ⟨first, rfl, hgreets⟩ := ScramServer.readFirst_ok hread
              simp only [ScramServer.serverFinal] at hfinal
              split at hfinal
              case h_1 => cases hfinal
              case h_2 auth hauth =>
                obtain ⟨final, hbody, hproves⟩ := ScramServer.readFinal_ok hauth
                exact ⟨initial, response, rest', hmessages, first, bare, nonce, final, hpayload, hgreets, hbody, hproves⟩

theorem cleartext_ok {verifier : Option ScramVerifier} {password : Text}
    (h : (cleartext P client verifier).2 = .ok password) :
    client.Sends password ∧ ∀ v ∈ verifier, Passthrough.verifies P v password = true := by
  unfold cleartext at h
  dsimp only at h
  split at h
  case h_1 => cases h
  case h_2 m rest hread =>
    split at h
    case h_1 => cases h
    case h_2 sent hsent =>
      split at h
      case isTrue hverifies =>
        cases h
        refine ⟨⟨m, rest, (readPasswordMessage_ok hread).1, hsent⟩, ?_⟩
        rintro v rfl
        simpa using hverifies
      case isFalse => cases h

/-- What a client has shown when it is let in. -/
def Shown (P : Primitives) (A : Authenticator) (client : Client) (encrypted : Bool) (user pool : Text)
    (credential : Option Text) : ClientAuth ScramVerifier → Prop
  | .scram verifier => credential = none ∧ ProvesBy P client verifier
  | .plaintext verifier allow => (encrypted = true ∨ allow = true) ∧ ∃ password, credential = some password ∧
      client.Sends password ∧ Passthrough.verifies P verifier password = true
  | .unproven allow => (encrypted = true ∨ allow = true) ∧ ∃ password, credential = some password ∧
      client.Sends password ∧ A.admits user pool password = .ok ()

theorem authenticateClient_ok {credential : Option Text}
    (h : (authenticateClient P A client encrypted user pool).2 = .ok credential) :
    ∃ auth, A.resolve user pool = .ok auth ∧ Shown P A client encrypted user pool credential auth := by
  unfold authenticateClient at h
  split at h
  case h_1 => cases h
  case h_2 auth hauth =>
    refine ⟨auth, hauth, ?_⟩
    split at h
    case isTrue => cases h
    case isFalse hmay =>
      have hallowed : auth.needsPlaintext = true → encrypted = true ∨ auth.allowWithoutTls = true := by
        intro hneeds
        rw [hneeds] at hmay
        cases encrypted
        · exact .inr (by simpa using hmay)
        · exact .inl rfl
      cases auth with
      | scram verifier =>
          obtain ⟨u, hproved, rfl⟩ := map_eq_ok.mp h
          exact ⟨rfl, scram_ok hproved⟩
      | plaintext verifier allow =>
          obtain ⟨password, hclear, rfl⟩ := map_eq_ok.mp h
          obtain ⟨hsends, hverifies⟩ := cleartext_ok hclear
          exact ⟨hallowed rfl, password, rfl, hsends, hverifies verifier rfl⟩
      | unproven allow =>
          dsimp only at h
          split at h
          case h_1 => cases h
          case h_2 answers password hclear =>
            split at h
            case h_1 => cases h
            case h_2 hadmitted =>
              cases h
              have hok : (cleartext P client none).2 = .ok password := by rw [hclear]
              obtain ⟨hsends, -⟩ := cleartext_ok hok
              exact ⟨hallowed rfl, password, rfl, hsends, hadmitted⟩

end Said

/-! ## The whole handshake -/

section Handshake

variable {h : ClientHandshake} {peer : HandshakePeer} {route : PoolRoute} {encrypted : Bool} {packet : StartupPacket}

theorem readStartup_plain (h : ClientHandshake) (peer : HandshakePeer) (encrypted : Bool) (packets : List StartupPacket) :
    ∀ a ∈ (h.readStartup peer encrypted packets).1, Plain a := by
  induction packets generalizing encrypted with
  | nil => exact List.forall_mem_nil _
  | cons packet rest ih =>
      cases packet with
      | sslRequest =>
          rw [ClientHandshake.readStartup]
          split
          case h_1 b e _ => exact List.forall_mem_singleton.mpr (.flag b)
          case h_2 b encrypted' _ => exact List.forall_mem_cons.mpr ⟨.flag b, ih encrypted'⟩
      | gssEncRequest => exact List.forall_mem_cons.mpr ⟨.flag _, ih encrypted⟩
      | startup params => exact List.forall_mem_nil _
      | cancelRequest pid key => exact List.forall_mem_nil _

/-- The stream is encrypted only behind a TLS handshake. -/
theorem readStartup_encrypted {encrypted : Bool} {packets : List StartupPacket}
    (hread : (h.readStartup peer encrypted packets).2 = .ok (true, packet)) :
    encrypted = true ∨ (h.tls = true ∧ peer.accept = .ok ()) := by
  induction packets generalizing encrypted with
  | nil => cases hread
  | cons first rest ih =>
      cases first with
      | sslRequest =>
          rw [ClientHandshake.readStartup] at hread
          split at hread
          case h_1 => cases hread
          case h_2 b encrypted' hupgrade =>
            obtain rfl | hdone := ih hread
            · unfold ClientHandshake.upgrade at hupgrade
              split_ifs at hupgrade with htls hencrypted
              · cases hupgrade
                exact .inl rfl
              · exact .inl hencrypted
              · split at hupgrade
                case h_1 haccept => exact .inr ⟨by simpa using htls, haccept⟩
                case h_2 => cases hupgrade
            · exact .inr hdone
      | gssEncRequest => exact ih hread
      | startup params =>
          cases hread
          exact .inl rfl
      | cancelRequest pid key =>
          cases hread
          exact .inl rfl

theorem choose_plain (route : PoolRoute) (packet : StartupPacket) : ∀ a ∈ (route.choose packet).1, Plain a := by
  unfold PoolRoute.choose
  split
  · exact List.forall_mem_nil _
  · split
    · exact List.forall_mem_nil _
    · split
      · exact List.forall_mem_nil _
      · exact List.forall_mem_singleton.mpr (.fatal _ _)

/-- The two ways behind the encryption requests: nothing that matters is said and nobody is let in, or the client
was authenticated. -/
theorem runPacket_cases (h : ClientHandshake) (peer : HandshakePeer) (route : PoolRoute) (encrypted : Bool)
    (packet : StartupPacket) :
    ((∀ a ∈ (h.runPacket peer route encrypted packet).1, Plain a) ∧
        ∀ user pool app params credential,
          (h.runPacket peer route encrypted packet).2 ≠ .ok (.established user pool app params credential)) ∨
      ∃ user pool answers, (h.requireTls = true → encrypted = true) ∧ (∀ a ∈ answers, Plain a) ∧
        (((h.runPacket peer route encrypted packet).1 = answers ++ (peer.authenticate encrypted user pool).1 ∧
          ∃ e, (h.runPacket peer route encrypted packet).2 = .error e) ∨
        (∃ app params credential, (peer.authenticate encrypted user pool).2 = .ok credential ∧
          (h.runPacket peer route encrypted packet).1 =
            answers ++ (peer.authenticate encrypted user pool).1 ++ [.message .authenticationOk] ∧
          (h.runPacket peer route encrypted packet).2 = .ok (.established user pool app params credential))) := by
  unfold ClientHandshake.runPacket
  split
  case isTrue => exact .inl ⟨List.forall_mem_singleton.mpr (.fatal _ _), fun _ _ _ _ _ => nofun⟩
  case isFalse htls =>
    split
    case h_1 => exact .inl ⟨List.forall_mem_nil _, fun _ _ _ _ _ => nofun⟩
    case h_2 =>
      split
      case h_1 => exact .inl ⟨List.forall_mem_nil _, fun _ _ _ _ _ => nofun⟩
      case h_2 user _ =>
        have hchoose := choose_plain route packet
        split
        case h_1 answers e heq =>
          rw [heq] at hchoose
          exact .inl ⟨hchoose, fun _ _ _ _ _ => nofun⟩
        case h_2 answers pool heq =>
          rw [heq] at hchoose
          refine .inr ⟨user, pool, answers, fun hrequire => ?_, hchoose, ?_⟩
          · rw [hrequire] at htls
            simpa using htls
          · split
            case h_1 exchange e hauth => exact .inl ⟨by rw [hauth], e, rfl⟩
            case h_2 exchange credential hauth =>
              exact .inr ⟨_, _, credential, by rw [hauth], by rw [hauth], rfl⟩

/-- The whole handshake goes one of the same two ways. -/
theorem runForPool_cases (h : ClientHandshake) (peer : HandshakePeer) (route : PoolRoute) (packets : List StartupPacket) :
    ((∀ a ∈ (h.runForPool peer route packets).1, Plain a) ∧
        ∀ user pool app params credential,
          (h.runForPool peer route packets).2 ≠ .ok (.established user pool app params credential)) ∨
      ∃ encrypted user pool answers, (h.requireTls = true → encrypted = true) ∧
        (encrypted = true → h.tls = true ∧ peer.accept = .ok ()) ∧ (∀ a ∈ answers, Plain a) ∧
        (((h.runForPool peer route packets).1 = answers ++ (peer.authenticate encrypted user pool).1 ∧
          ∃ e, (h.runForPool peer route packets).2 = .error e) ∨
        (∃ app params credential, (peer.authenticate encrypted user pool).2 = .ok credential ∧
          (h.runForPool peer route packets).1 =
            answers ++ (peer.authenticate encrypted user pool).1 ++ [.message .authenticationOk] ∧
          (h.runForPool peer route packets).2 = .ok (.established user pool app params credential))) := by
  have hearly := readStartup_plain h peer false packets
  unfold ClientHandshake.runForPool
  split
  case h_1 answers e hread =>
    rw [hread] at hearly
    exact .inl ⟨hearly, fun _ _ _ _ _ => nofun⟩
  case h_2 answers encrypted packet hread =>
    rw [hread] at hearly
    obtain ⟨hplain, hnobody⟩ | ⟨user, pool, more, hrequire, hmore, hcase⟩ := runPacket_cases h peer route encrypted packet
    · exact .inl ⟨fun a ha => (List.mem_append.mp ha).elim (hearly a) (hplain a), hnobody⟩
    · refine .inr ⟨encrypted, user, pool, answers ++ more, hrequire, ?_,
        fun a ha => (List.mem_append.mp ha).elim (hearly a) (hmore a), ?_⟩
      · rintro rfl
        exact (readStartup_encrypted (congrArg Prod.snd hread)).resolve_left nofun
      · obtain ⟨hsent, e, hfailed⟩ | ⟨app, params, credential, hok, hsent, hestablished⟩ := hcase
        · refine .inl ⟨?_, e, hfailed⟩
          show answers ++ (h.runPacket peer route encrypted packet).1 = _
          rw [hsent, List.append_assoc]
        · refine .inr ⟨app, params, credential, hok, ?_, hestablished⟩
          show answers ++ (h.runPacket peer route encrypted packet).1 = _
          rw [hsent]
          simp only [List.append_assoc]

end Handshake

/-! ## What a session rests on -/

/-- What `StateAuthenticator` decides from. -/
theorem resolve_ok {V : Type} {parse : Text → Option V} {s : State} {known : Option V} {user pool : Text}
    {auth : ClientAuth V} (hauth : Admission.resolve parse s known user pool = .ok auth) :
    ∃ config, s.pools.get pool = some config ∧ config.disabled = false ∧
      ((s.users.get user = none ∧ config.backendAuth.isPassthrough = true ∧
          auth = Admission.passthroughAuth known config) ∨
        ∃ record t verifier, s.users.get user = some record ∧ record.disabled = false ∧ pool ∈ record.pools ∧
          s.secrets.get (Admission.userVerifier user) = some t ∧ parse t = some verifier ∧
          (auth = .scram verifier ∨ config.backendAuth.isPerUser = true ∧ record.ownBackendRole = true ∧
            auth = .plaintext verifier config.allowPasswordWithoutTls)) := by
  unfold Admission.resolve at hauth
  split at hauth
  case h_1 => cases hauth
  case h_2 config hconfig =>
    split at hauth
    case isTrue => cases hauth
    case isFalse henabled =>
      refine ⟨config, hconfig, by simpa using henabled, ?_⟩
      split at hauth
      case h_1 hnone =>
        split at hauth
        case isTrue hpass => exact .inl ⟨hnone, hpass, (Except.ok.inj hauth).symm⟩
        case isFalse => cases hauth
      case h_2 record hrecord =>
        unfold Admission.resolveUser at hauth
        split at hauth
        case isTrue => cases hauth
        case isFalse hdisabled =>
          split at hauth
          case isTrue => cases hauth
          case isFalse hgranted =>
            split at hauth
            case h_1 => cases hauth
            case h_2 verifier hstored =>
              obtain ⟨t, ht, hparse⟩ := Option.bind_eq_some_iff.mp hstored
              refine .inr ⟨record, t, verifier, hrecord, by simpa using hdisabled, by simpa using hgranted, ht, hparse, ?_⟩
              split at hauth
              case isTrue hown =>
                rw [Bool.and_eq_true] at hown
                exact .inr ⟨hown.1, hown.2, (Except.ok.inj hauth).symm⟩
              case isFalse => exact .inl (Except.ok.inj hauth).symm

/-- Why this user has a session on this pool. -/
inductive Grounds (P : Primitives) (s : State) (known : Text → Text → Option ScramVerifier)
    (admits : Text → Text → Text → Except AuthDenial Unit) (client : Client) (encrypted : Bool) (user pool : Text)
    (config : PoolConfig) : Option Text → Prop where
  /-- An enabled record with a grant, and a SCRAM proof against the stored verifier. -/
  | scram (record : UserConfig) (t : Text) (verifier : ScramVerifier) (hrecord : s.users.get user = some record)
      (henabled : record.disabled = false) (hgranted : pool ∈ record.pools)
      (hstored : s.secrets.get (Admission.userVerifier user) = some t)
      (hparsed : (ScramVerifier.parse P t).toOption = some verifier) (hproof : ProvesBy P client verifier) :
      Grounds P s known admits client encrypted user pool config none
  /-- The same record on its own database role, and the password the stored verifier was made from. -/
  | password (record : UserConfig) (t : Text) (verifier : ScramVerifier) (sent : Text)
      (hrecord : s.users.get user = some record) (henabled : record.disabled = false) (hgranted : pool ∈ record.pools)
      (hstored : s.secrets.get (Admission.userVerifier user) = some t)
      (hparsed : (ScramVerifier.parse P t).toOption = some verifier)
      (hmode : config.backendAuth.isPerUser = true ∧ record.ownBackendRole = true)
      (hsafe : encrypted = true ∨ config.allowPasswordWithoutTls = true) (hsent : client.Sends sent)
      (hproof : Passthrough.verifies P verifier sent = true) :
      Grounds P s known admits client encrypted user pool config (some sent)
  /-- No record on a passthrough pool, and the word of the database: remembered, or given now. -/
  | vouched (sent : Text) (hnone : s.users.get user = none) (hmode : config.backendAuth.isPassthrough = true)
      (hsafe : encrypted = true ∨ config.allowPasswordWithoutTls = true) (hsent : client.Sends sent)
      (hproof : (∃ verifier, known pool user = some verifier ∧ Passthrough.verifies P verifier sent = true) ∨
        (known pool user = none ∧ admits user pool sent = .ok ())) :
      Grounds P s known admits client encrypted user pool config (some sent)

section Grounds

variable {P} {s : State} {known : Text → Text → Option ScramVerifier} {admits : Text → Text → Text → Except AuthDenial Unit}
  {showDenial : AuthDenial → Text} {client : Client} {encrypted : Bool} {user pool : Text} {credential : Option Text}

theorem grounds_of_ok
    (hok : (authenticateClient P (stateAuthenticator P s known admits showDenial) client encrypted user pool).2 =
      .ok credential) :
    ∃ config, s.pools.get pool = some config ∧ config.disabled = false ∧
      Grounds P s known admits client encrypted user pool config credential := by
  obtain ⟨auth, hauth, hshown⟩ := authenticateClient_ok hok
  obtain ⟨config, hconfig, henabled, hcase⟩ := resolve_ok hauth
  refine ⟨config, hconfig, henabled, ?_⟩
  obtain ⟨hnone, hmode, rfl⟩ | ⟨record, t, verifier, hrecord, hon, hgranted, hstored, hparsed, hcase⟩ := hcase
  · unfold Admission.passthroughAuth at hshown
    cases hknown : known pool user with
    | some verifier =>
        rw [hknown] at hshown
        obtain ⟨hsafe, sent, rfl, hsent, hproof⟩ := hshown
        exact .vouched sent hnone hmode hsafe hsent (.inl ⟨verifier, hknown, hproof⟩)
    | none =>
        rw [hknown] at hshown
        obtain ⟨hsafe, sent, rfl, hsent, hproof⟩ := hshown
        exact .vouched sent hnone hmode hsafe hsent (.inr ⟨hknown, hproof⟩)
  · obtain rfl | ⟨hper, hown, rfl⟩ := hcase
    · obtain ⟨rfl, hproof⟩ := hshown
      exact .scram record t verifier hrecord hon hgranted hstored hparsed hproof
    · obtain ⟨hsafe, sent, rfl, hsent, hproof⟩ := hshown
      exact .password record t verifier sent hrecord hon hgranted hstored hparsed ⟨hper, hown⟩ hsafe hsent hproof

/-- A pool whose clients are asked for their passwords says how. -/
theorem asks_of_resolve {auth : ClientAuth ScramVerifier}
    (hauth : (stateAuthenticator P s known admits showDenial).resolve user pool = .ok auth)
    (hneeds : auth.needsPlaintext = true) (hmay : encrypted = true ∨ auth.allowWithoutTls = true) :
    ∃ config, s.pools.get pool = some config ∧ config.disabled = false ∧
      (config.backendAuth.isPassthrough = true ∨ config.backendAuth.isPerUser = true) ∧
      (encrypted = true ∨ config.allowPasswordWithoutTls = true) := by
  obtain ⟨config, hconfig, henabled, hcase⟩ := resolve_ok hauth
  refine ⟨config, hconfig, henabled, ?_⟩
  obtain ⟨-, hmode, rfl⟩ | ⟨record, t, verifier, -, -, -, -, -, rfl | ⟨hper, -, rfl⟩⟩ := hcase
  · refine ⟨.inl hmode, ?_⟩
    unfold Admission.passthroughAuth at hmay
    split at hmay <;> exact hmay
  · cases hneeds
  · exact ⟨.inr hper, hmay⟩

end Grounds

/-- **A session needs a proof.** Whatever a client sends, `AuthenticationOk` goes out exactly when a session comes of
it, and a session rests on its grounds: an enabled pool, and a record with a grant and a proof against its stored
verifier or the word of the database on a passthrough pool. The password itself is asked for only by a pool that
logs in as its clients, and in the clear only where that pool says so. -/
theorem session_needs_proof (h : ClientHandshake) (accept : Except Text Unit) (s : State)
    (known : Text → Text → Option ScramVerifier) (admits : Text → Text → Text → Except AuthDenial Unit)
    (showDenial : AuthDenial → Text) (client : Client) (route : PoolRoute) (packets : List StartupPacket) :
    let r := h.runForPool (handshakePeer P accept (stateAuthenticator P s known admits showDenial) client) route packets
    (Answer.message .authenticationOk ∈ r.1 ↔
      ∃ user pool app params credential, r.2 = .ok (.established user pool app params credential)) ∧
    (∀ user pool app params credential, r.2 = .ok (.established user pool app params credential) →
      ∃ encrypted config, (h.requireTls = true → encrypted = true) ∧
        (encrypted = true → h.tls = true ∧ accept = .ok ()) ∧ s.pools.get pool = some config ∧
        config.disabled = false ∧ Grounds P s known admits client encrypted user pool config credential) ∧
    (Answer.message .authenticationCleartext ∈ r.1 →
      ∃ encrypted pool config, (encrypted = true → h.tls = true ∧ accept = .ok ()) ∧ s.pools.get pool = some config ∧
        config.disabled = false ∧ (config.backendAuth.isPassthrough = true ∨ config.backendAuth.isPerUser = true) ∧
        (encrypted = true ∨ config.allowPasswordWithoutTls = true)) := by
  intro r
  set A := stateAuthenticator P s known admits showDenial with hA
  set peer := handshakePeer P accept A client with hpeer
  obtain ⟨hplain, hnobody⟩ | ⟨encrypted, user, pool, answers, hrequire, htls, hanswers, hcase⟩ :=
    runForPool_cases h peer route packets
  · refine ⟨⟨fun hmem => absurd rfl (hplain _ hmem).ne_ok, ?_⟩, ?_, fun hmem => absurd rfl (hplain _ hmem).ne_cleartext⟩
    · rintro ⟨user, pool, app, params, credential, hestablished⟩
      exact (hnobody _ _ _ _ _ hestablished).elim
    · intro user pool app params credential hestablished
      exact (hnobody _ _ _ _ _ hestablished).elim
  · have hsaid := authenticateClient_said P A client encrypted user pool
    have hunsaid : Answer.message .authenticationOk ∉ answers ++ (peer.authenticate encrypted user pool).1 := by
      intro hmem
      obtain hmem | hmem := List.mem_append.mp hmem
      · exact absurd rfl (hanswers _ hmem).ne_ok
      · obtain hplain | ⟨hcleartext, -⟩ := hsaid _ hmem
        · exact absurd rfl hplain.ne_ok
        · exact absurd hcleartext (by decide)
    have hasked : Answer.message .authenticationCleartext ∈ answers ++ (peer.authenticate encrypted user pool).1 →
        ∃ encrypted pool config, (encrypted = true → h.tls = true ∧ accept = .ok ()) ∧
          s.pools.get pool = some config ∧ config.disabled = false ∧
          (config.backendAuth.isPassthrough = true ∨ config.backendAuth.isPerUser = true) ∧
          (encrypted = true ∨ config.allowPasswordWithoutTls = true) := by
      intro hmem
      obtain hmem | hmem := List.mem_append.mp hmem
      · exact absurd rfl (hanswers _ hmem).ne_cleartext
      · obtain hplain | ⟨-, auth, hauth, hneeds, hmay⟩ := hsaid _ hmem
        · exact absurd rfl hplain.ne_cleartext
        · obtain ⟨config, hconfig, henabled, hmode, hsafe⟩ := asks_of_resolve hauth hneeds hmay
          exact ⟨encrypted, pool, config, htls, hconfig, henabled, hmode, hsafe⟩
    obtain ⟨hsent, e, hfailed⟩ | ⟨app, params, credential, hok, hsent, hestablished⟩ := hcase
    · have hr : r = (answers ++ (peer.authenticate encrypted user pool).1, .error e) := Prod.ext hsent hfailed
      rw [hr]
      refine ⟨⟨fun hmem => absurd hmem hunsaid, ?_⟩, nofun, hasked⟩
      rintro ⟨user, pool, app, params, credential, hestablished⟩
      cases hestablished
    · have hr : r = (answers ++ (peer.authenticate encrypted user pool).1 ++ [.message .authenticationOk],
          .ok (.established user pool app params credential)) := Prod.ext hsent hestablished
      rw [hr]
      refine ⟨⟨fun _ => ⟨user, pool, app, params, credential, rfl⟩, fun _ => List.mem_append_right _ List.mem_cons_self⟩,
        ?_, fun hmem => ?_⟩
      · intro user' pool' app' params' credential' heq
        cases heq
        obtain ⟨config, hconfig, henabled, hgrounds⟩ := grounds_of_ok hok
        exact ⟨encrypted, config, hrequire, htls, hconfig, henabled, hgrounds⟩
      · obtain hmem | hmem := List.mem_append.mp hmem
        · exact hasked hmem
        · exact absurd (List.mem_singleton.mp hmem) (by decide)

end Login

end Havuz
