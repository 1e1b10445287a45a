import Mathlib
import Havuz.Login.Admit
import Havuz.Login.Connector

/-!
# The two ends of a login agree

Reference: `complete_startup` in `havuz-pg/src/session.rs`, with both ends of the login. A connector that is
configured with the password a listener's verifier was made from is let in, over TLS where both have it, and
comes away with the parameters the listener's own database reported and with the key it was given
(`connector_is_let_in`). So a havuz in front of a havuz passes on what the database said.
-/

namespace Havuz.Login

open Admission (ClientAuth)
open Scram (ScramClient ScramServer ScramVerifier Primitives)

/-- `complete_startup`. -/
def completeStartup (parameters : List (Text × Text)) (cancelPid cancelSecret : ℤ) : List Message :=
  parameters.map (fun e => .parameterStatus e.1 e.2) ++
    [.backendKeyData cancelPid cancelSecret, .readyForQuery .idle]

/-- The packets a connector opens with. -/
def BackendConfig.packets (cfg : BackendConfig) : List StartupPacket :=
  if cfg.sslMode.wantsTls then [.sslRequest, cfg.packet] else [cfg.packet]

/-- A message whose answer is written without trouble. -/
def arriving (nonce : Text) (m : Message) : Incoming := ⟨m, nonce, .ok ()⟩

/-! ## The SCRAM messages -/

/-- What the two halves of the exchange say to one another. -/
structure Dialogue (P : Primitives) (password : Text) (verifier : ScramVerifier) (clientNonce serverNonce : Text)
    (first serverFirst final serverFinal : Bytes) : Prop where
  short : first.length < 2 ^ 31
  client : ∃ c c' c'', ScramClient.clientFirst { password } clientNonce = (c, .ok first) ∧
    c.clientFinal P serverFirst = (c', .ok final) ∧ c'.verifyServerFinal P serverFinal = (c'', .ok ())
  server : ∃ s s', ScramServer.serverFirst P ⟨verifier, .initial⟩ first serverNonce = (s, .ok serverFirst) ∧
    s.serverFinal P final = (s', .ok serverFinal)

theorem exists_dialogue (P : Primitives) (password : Text) (salt : Bytes) {iterations : UInt32} (hiterations : iterations ≠ 0)
    {clientNonce serverNonce : Text} (hclient : ',' ∉ clientNonce ∧ clientNonce ≠ [])
    (hserver : ',' ∉ serverNonce ∧ serverNonce ≠ []) (hshort : clientNonce.asBytes.length < 2 ^ 30) :
    ∃ first serverFirst final serverFinal,
      Dialogue P password (ScramVerifier.fromPasswordWith P password salt iterations) clientNonce serverNonce first
        serverFirst final serverFinal := by
  obtain ⟨client, server, hdone, -, -⟩ := Scram.handshake_done P password salt hiterations hclient hserver
  simp only [Scram.handshake, Lib.bind_eq_ok] at hdone
  obtain ⟨first, hfirst, serverFirst, hserverFirst, final, hfinal, serverFinal, hserverFinal, u, hverify, -⟩ := hdone
  refine ⟨first, serverFirst, final, serverFinal, ?_, ⟨_, _, _, Prod.ext rfl hfirst, Prod.ext rfl hfinal, Prod.ext rfl hverify⟩,
    ⟨_, _, Prod.ext rfl hserverFirst, Prod.ext rfl hserverFinal⟩⟩
  have hbytes : first = Text.asBytes ("n,,n=,r=".toList ++ clientNonce) := (Except.ok.inj hfirst).symm
  have hprefix : (Text.asBytes "n,,n=,r=".toList).length = 8 := by decide
  have hlength : first.length = 8 + clientNonce.asBytes.length := by
    rw [hbytes, Text.asBytes, List.flatMap_append, List.length_append, ← hprefix]
    rfl
  omega

/-! ## The listener's end -/

/-- What the listener of a dialogue writes. -/
def offers (serverFirst serverFinal : Bytes) : List Message :=
  [.authenticationSasl, .authenticationSaslContinue serverFirst, .authenticationSaslFinal serverFinal]

theorem scram_of_dialogue {P : Primitives} {password : Text} {verifier : ScramVerifier} {clientNonce serverNonce : Text}
    {first serverFirst final serverFinal : Bytes}
    (h : Dialogue P password verifier clientNonce serverNonce first serverFirst final serverFinal) (ends : Text) :
    scram P ⟨[.saslInitial first, .saslResponse final], ends, serverNonce⟩ verifier =
      ([.message .authenticationSasl, .message (.authenticationSaslContinue serverFirst),
        .message (.authenticationSaslFinal serverFinal)], .ok ()) := by
  obtain ⟨s, s', hfirst, hfinal⟩ := h.server
  have hinitial : readPasswordMessage ends [.saslInitial first, .saslResponse final] =
      .ok (.saslInitial first, [.saslResponse final]) := rfl
  have hresponse : readPasswordMessage ends [.saslResponse final] = .ok (.saslResponse final, []) := rfl
  have hbody : (Message.saslResponse final).body = final := rfl
  simp only [scram, hinitial, parseSaslInitial_saslInitial h.short, hfirst, hresponse, hbody, hfinal]
  rfl

theorem authenticateClient_of_dialogue {P : Primitives} {password : Text} {verifier : ScramVerifier}
    {clientNonce serverNonce : Text} {first serverFirst final serverFinal : Bytes}
    (h : Dialogue P password verifier clientNonce serverNonce first serverFirst final serverFinal) (A : Authenticator)
    (ends user pool : Text) (encrypted : Bool) (hresolved : A.resolve user pool = .ok (.scram verifier)) :
    authenticateClient P A ⟨[.saslInitial first, .saslResponse final], ends, serverNonce⟩ encrypted user pool =
      ((offers serverFirst serverFinal).map Answer.message, .ok none) := by
  rw [authenticateClient, hresolved]
  simp only [ClientAuth.needsPlaintext, Bool.false_and, Bool.false_eq_true, if_false, scram_of_dialogue h]
  rfl

/-! ## The connector's end -/

section Connector

variable {E : Ambient} {cfg : BackendConfig} {ends nonce : Text} {s s' : Locals} {m : Message} {rest : List Incoming}

theorem authenticate_next (h : handle E cfg s nonce m = .next s') :
    authenticate E cfg ends s (arriving nonce m :: rest) = authenticate E cfg ends s' rest := by
  rw [authenticate]
  simp only [arriving, h]

theorem authenticate_reply {sending : Text} {answer : Message} (h : handle E cfg s nonce m = .reply s' sending answer) :
    authenticate E cfg ends s (arriving nonce m :: rest) =
      { authenticate E cfg ends s' rest with written := answer :: (authenticate E cfg ends s' rest).written } := by
  rw [authenticate]
  simp only [arriving, h]

theorem handle_request (h : m.tag = byte 'R') : handle E cfg s nonce m = handleRequest E cfg s nonce m.body := by
  rw [handle, h, if_pos rfl]

theorem handle_status (h : m.tag = byte 'S') :
    handle E cfg s nonce m = .next { s with startup := s.startup.noted m.body } := by
  rw [handle, h, if_neg (by decide), if_pos rfl]

theorem handle_key (h : m.tag = byte 'K') :
    handle E cfg s nonce m = .next { s with startup := s.startup.keyed m.body } := by
  rw [handle, h, if_neg (by decide), if_neg (by decide), if_pos rfl]

/-- An authentication request is read as what was written. -/
theorem handle_authentication {kind : ℤ} (hkind : 0 ≤ kind ∧ kind ≤ 12) (data : Bytes) :
    handle E cfg s nonce (.authentication kind data) =
      if kind = 0 then .next s
      else if kind = 3 then .reply s "sending password".toList (.password cfg.password)
      else if kind = 5 then
        .fail (.auth ("backend requested md5 authentication, which havuz does not implement; ".toList ++
          "switch the account to scram-sha-256".toList))
      else if kind = 10 then handleSasl E cfg s nonce data
      else if kind = 11 then handleSaslContinue E s data
      else if kind = 12 then handleSaslFinal E s data
      else .fail (.auth ("backend requested unsupported authentication method ".toList ++ (toString kind).toList)) := by
  have hi32 : IsI32 kind := ⟨by omega, by omega⟩
  have hread : getI32 (Message.authentication kind data).body = some (kind, data) := getI32_putI32 hi32 data
  rw [handle_request rfl, handleRequest, hread]

theorem handle_parameterStatus {e : Text × Text} (hname : 0 ∉ e.1.asBytes) (hvalue : 0 ∉ e.2.asBytes) :
    handle E cfg s nonce (.parameterStatus e.1 e.2) =
      .next { s with startup := { s.startup with parameters := s.startup.parameters ++ [e] } } := by
  rw [handle_status rfl, Startup.noted, parseParameterStatus_parameterStatus hname hvalue]

theorem authenticate_parameters {parameters : List (Text × Text)}
    (h : ∀ e ∈ parameters, 0 ∉ e.1.asBytes ∧ 0 ∉ e.2.asBytes) :
    authenticate E cfg ends s ((parameters.map fun e => arriving nonce (.parameterStatus e.1 e.2)) ++ rest) =
      authenticate E cfg ends
        { s with startup := { s.startup with parameters := s.startup.parameters ++ parameters } } rest := by
  induction parameters generalizing s with
  | nil => simp
  | cons e parameters ih =>
      obtain ⟨⟨hname, hvalue⟩, hothers⟩ := List.forall_mem_cons.mp h
      rw [List.map_cons, List.cons_append, authenticate_next (handle_parameterStatus hname hvalue), ih hothers]
      simp only [List.append_assoc, List.singleton_append]

theorem handle_backendKeyData {pid secret : ℤ} (hpid : IsI32 pid) (hsecret : IsI32 secret) :
    handle E cfg s nonce (.backendKeyData pid secret) =
      .next { s with startup := { s.startup with backendPid := some (UInt32.ofInt pid), secretKey := some secret } } := by
  have hread : readKey (Message.backendKeyData pid secret).body = some (pid, secret) := by
    rw [readKey, Message.backendKeyData, getI32_putI32 hpid]
    dsimp only
    rw [StartupPacket.getI32_alone hsecret]
    rfl
  rw [handle_key rfl, Startup.keyed, hread]

/-- A connector reads what `complete_startup` writes. -/
theorem authenticate_completeStartup {parameters : List (Text × Text)} {pid secret : ℤ}
    (h : ∀ e ∈ parameters, 0 ∉ e.1.asBytes ∧ 0 ∉ e.2.asBytes) (hpid : IsI32 pid) (hsecret : IsI32 secret) :
    authenticate E cfg ends s ((completeStartup parameters pid secret).map (arriving nonce) ++ rest) =
      ⟨[], rest, .ok ⟨s.startup.parameters ++ parameters, some (UInt32.ofInt pid), some secret⟩⟩ := by
  have hready : ∀ s : Locals, handle E cfg s nonce (.readyForQuery .idle) = .ready := fun s => rfl
  rw [completeStartup, List.map_append, List.append_assoc, List.map_map]
  show authenticate E cfg ends s ((parameters.map fun e => arriving nonce (.parameterStatus e.1 e.2)) ++ _) = _
  rw [authenticate_parameters h, List.map_cons, List.map_cons, List.map_nil, List.cons_append, List.cons_append,
    List.nil_append, authenticate_next (handle_backendKeyData hpid hsecret), authenticate]
  simp only [arriving, hready]

theorem authenticate_of_dialogue {verifier : ScramVerifier} {clientNonce serverNonce : Text}
    {first serverFirst final serverFinal : Bytes}
    (h : Dialogue E.scram cfg.password verifier clientNonce serverNonce first serverFirst final serverFinal)
    {parameters : List (Text × Text)} {pid secret : ℤ} (hparameters : ∀ e ∈ parameters, 0 ∉ e.1.asBytes ∧ 0 ∉ e.2.asBytes)
    (hpid : IsI32 pid) (hsecret : IsI32 secret) (ends : Text) (rest : List Incoming) :
    authenticate E cfg ends {} ((offers serverFirst serverFinal ++ .authenticationOk ::
        completeStartup parameters pid secret).map (arriving clientNonce) ++ rest) =
      ⟨[.saslInitial first, .saslResponse final], rest, .ok ⟨parameters, some (UInt32.ofInt pid), some secret⟩⟩ := by
  obtain ⟨c, c', c'', hfirst, hfinal, hverify⟩ := h.client
  have hsasl : handle E cfg {} clientNonce .authenticationSasl =
      .reply { scram := some c } "sending sasl initial".toList (.saslInitial first) := by
    rw [Message.authenticationSasl, handle_authentication (by decide), if_neg (by decide), if_neg (by decide),
      if_neg (by decide), if_pos rfl, handleSasl]
    have hoffered : (parseMechanisms (Text.asBytes Message.mechanismName ++ [0, 0])).contains Message.mechanismName = true :=
      List.contains_iff_mem.mpr mem_parseMechanisms
    simp only [hoffered, hfirst]
    rfl
  have hcontinue : handle E cfg { scram := some c } clientNonce (.authenticationSaslContinue serverFirst) =
      .reply { scram := some c' } "sending sasl response".toList (.saslResponse final) := by
    rw [Message.authenticationSaslContinue, handle_authentication (by decide), if_neg (by decide), if_neg (by decide),
      if_neg (by decide), if_neg (by decide), if_pos rfl, handleSaslContinue]
    simp only [hfinal]
  have hlast : handle E cfg { scram := some c' } clientNonce (.authenticationSaslFinal serverFinal) =
      .next { scram := some c'' } := by
    rw [Message.authenticationSaslFinal, handle_authentication (by decide), if_neg (by decide), if_neg (by decide),
      if_neg (by decide), if_neg (by decide), if_neg (by decide), if_pos rfl, handleSaslFinal]
    simp only [hverify]
  have hok : handle E cfg { scram := some c'' } clientNonce .authenticationOk = .next { scram := some c'' } := by
    rw [Message.authenticationOk_eq, handle_authentication (by decide), if_pos rfl]
  rw [offers]
  simp only [List.cons_append, List.nil_append, List.map_cons]
  rw [authenticate_reply hsasl, authenticate_reply hcontinue, authenticate_next hlast, authenticate_next hok,
    authenticate_completeStartup hparameters hpid hsecret]
  rfl

end Connector

/-! ## Both ends -/

/-- The listener and the connector fit together. -/
structure Fits (E : Ambient) (cfg : BackendConfig) (h : ClientHandshake) (A : Authenticator) (route : PoolRoute)
    (pool : Text) (salt : Bytes) (iterations : UInt32) : Prop where
  routed : (route.choose cfg.packet).2 = .ok pool
  /-- The listener's verifier was made from the connector's password. -/
  resolved : A.resolve cfg.user pool =
    .ok (.scram (ScramVerifier.fromPasswordWith E.scram cfg.password salt iterations))
  iterated : iterations ≠ 0
  /-- Neither end requires TLS of one that does not have it. -/
  connector : cfg.sslMode.requiresTls = true → h.tls = true
  listener : h.requireTls = true → h.tls = true ∧ cfg.sslMode.wantsTls = true
  /-- A connector that wants TLS has a configuration and a name for it. -/
  named : cfg.sslMode.wantsTls = true → cfg.tls = true ∧ E.serverName cfg.host = true

/-- The byte a listener answers a request for encryption with. -/
def greeting (h : ClientHandshake) : UInt8 := if h.tls then byte 'S' else byte 'N'

/-- The network between the two, when nothing goes wrong on it. -/
def between (h : ClientHandshake) (incoming : List Incoming) (ends : Text) : BackendPeer where
  dial := .ok ()
  requestWrite := .ok ()
  answer := .ok (greeting h)
  handshake := .ok ()
  startupWrite := .ok ()
  incoming := incoming
  ends := ends

section Both

variable {E : Ambient} {cfg : BackendConfig} {h : ClientHandshake} {A : Authenticator} {route : PoolRoute} {pool : Text}
  {salt : Bytes} {iterations : UInt32}

/-- The listener's end of the negotiation. -/
theorem readStartup_packets {peer : HandshakePeer} (haccept : peer.accept = .ok ()) :
    h.readStartup peer false cfg.packets =
      (if cfg.sslMode.wantsTls then [.byte (greeting h)] else [],
        .ok (cfg.sslMode.wantsTls && h.tls, cfg.packet)) := by
  rw [BackendConfig.packets]
  cases hwants : cfg.sslMode.wantsTls with
  | false => rfl
  | true =>
      cases htls : h.tls with
      | false => simp [ClientHandshake.readStartup, ClientHandshake.upgrade, greeting, htls, BackendConfig.packet]
      | true =>
          simp [ClientHandshake.readStartup, ClientHandshake.upgrade, greeting, htls, haccept, BackendConfig.packet]

/-- The connector's end of it. -/
theorem negotiateTls_between (fit : Fits E cfg h A route pool salt iterations) (incoming : List Incoming) (ends : Text) :
    negotiateTls E cfg (between h incoming ends) =
      (if cfg.sslMode.wantsTls then [⟨false, StartupPacket.sslRequest.encode⟩] else [],
        .ok (cfg.sslMode.wantsTls && h.tls)) := by
  unfold negotiateTls
  cases hwants : cfg.sslMode.wantsTls with
  | false => rfl
  | true =>
      obtain ⟨hconfig, hname⟩ := fit.named hwants
      cases htls : h.tls with
      | false =>
          have hprefers : cfg.sslMode.requiresTls = false := by
            rw [← Bool.not_eq_true]
            intro hrequires
            rw [fit.connector hrequires] at htls
            cases htls
          have hdeclines : byte 'N' ≠ byte 'S' := by decide
          simp [between, greeting, htls, hprefers, hdeclines]
      | true => simp [between, greeting, htls, hconfig, hname]

theorem choose_silent {packet : StartupPacket} (hrouted : (route.choose packet).2 = .ok pool) :
    route.choose packet = ([], .ok pool) := by
  unfold PoolRoute.choose at hrouted ⊢
  split at hrouted
  case h_1 only hsole =>
    cases hrouted
    simp only [hsole]
  case h_2 hsole =>
    split at hrouted
    case h_1 => cases hrouted
    case h_2 asked hasked =>
      split at hrouted
      case h_1 pool' hresolve =>
        cases hrouted
        simp only [hsole, hasked, hresolve]
      case h_2 => cases hrouted

/-- The listener's end of a dialogue, with everything around it. -/
theorem runForPool_of_dialogue (fit : Fits E cfg h A route pool salt iterations) {clientNonce serverNonce ends : Text}
    {first serverFirst final serverFinal : Bytes}
    (hdialogue : Dialogue E.scram cfg.password (ScramVerifier.fromPasswordWith E.scram cfg.password salt iterations)
      clientNonce serverNonce first serverFirst final serverFinal) :
    h.runForPool (handshakePeer E.scram (.ok ()) A ⟨[.saslInitial first, .saslResponse final], ends, serverNonce⟩) route
        cfg.packets =
      ((if cfg.sslMode.wantsTls then [.byte (greeting h)] else []) ++
          (offers serverFirst serverFinal ++ [Message.authenticationOk]).map Answer.message,
        .ok (.established cfg.user pool (some cfg.applicationName) cfg.packet.startupParams none)) := by
  have haccepted := authenticateClient_of_dialogue hdialogue A ends cfg.user pool
    (cfg.sslMode.wantsTls && h.tls) fit.resolved
  have hallowed : (h.requireTls && !(cfg.sslMode.wantsTls && h.tls)) = false := by
    cases hrequire : h.requireTls with
    | false => rfl
    | true =>
        obtain ⟨htls, hwants⟩ := fit.listener hrequire
        rw [htls, hwants]
        rfl
  have huser : cfg.packet.user = .ok cfg.user := rfl
  have happ : cfg.packet.applicationName = some cfg.applicationName := rfl
  have hpacket : h.runPacket (handshakePeer E.scram (.ok ()) A
      ⟨[.saslInitial first, .saslResponse final], ends, serverNonce⟩) route (cfg.sslMode.wantsTls && h.tls) cfg.packet =
      ((offers serverFirst serverFinal ++ [Message.authenticationOk]).map Answer.message,
        .ok (.established cfg.user pool (some cfg.applicationName) cfg.packet.startupParams none)) := by
    unfold ClientHandshake.runPacket
    rw [hallowed, if_neg (by decide)]
    split
    case h_1 heq => simp [BackendConfig.packet] at heq
    case h_2 =>
      simp only [huser, choose_silent fit.routed, handshakePeer, haccepted, happ, List.nil_append, List.map_append,
        List.map_cons, List.map_nil]
  rw [ClientHandshake.runForPool, readStartup_packets rfl]
  simp only [hpacket]

end Both

/-- **A connector with the right password is let in.** Both ends end well on what the other one wrote: encrypted if
both have TLS, the listener with a session for the connector's user on the pool its name routes to, the connector
with the parameters of the listener's own database connection, unchanged, and the key it was issued. -/
theorem connector_is_let_in (E : Ambient) (cfg : BackendConfig) (h : ClientHandshake) (A : Authenticator)
    (route : PoolRoute) (pool : Text) (salt : Bytes) (iterations : UInt32)
    (fit : Fits E cfg h A route pool salt iterations) (clientNonce serverNonce : Text)
    (hclient : ',' ∉ clientNonce ∧ clientNonce ≠ []) (hserver : ',' ∉ serverNonce ∧ serverNonce ≠ [])
    (hshort : clientNonce.asBytes.length < 2 ^ 30) (E' : Ambient) (cfg' : BackendConfig) (peer' : BackendPeer)
    (database : Opened) (hdatabase : (connect E' cfg' peer').result = .ok database) (pid secret : ℤ) (hpid : IsI32 pid)
    (hsecret : IsI32 secret) (ends ends' : Text) (rest : List Incoming) :
    ∃ up said : List Message,
      h.runForPool (handshakePeer E.scram (.ok ()) A ⟨up, ends, serverNonce⟩) route cfg.packets =
        ((if cfg.sslMode.wantsTls then [.byte (greeting h)] else []) ++ said.map Answer.message,
          .ok (.established cfg.user pool (some cfg.applicationName) cfg.packet.startupParams none)) ∧
      connect E cfg (between h ((said ++ completeStartup database.parameters pid secret).map (arriving clientNonce) ++
          rest) ends') =
        ⟨(if cfg.sslMode.wantsTls then [⟨false, StartupPacket.sslRequest.encode⟩] else []) ++
            ⟨cfg.sslMode.wantsTls && h.tls, cfg.packet.encode⟩ ::
              up.map fun m => ⟨cfg.sslMode.wantsTls && h.tls, m.encode⟩,
          .ok { encrypted := cfg.sslMode.wantsTls && h.tls, host := cfg.host, port := cfg.port,
                backendPid := some (UInt32.ofInt pid), secretKey := some secret, parameters := database.parameters,
                supportsDiscardAll := cfg.supportsDiscardAll }⟩ := by
  obtain ⟨first, serverFirst, final, serverFinal, hdialogue⟩ :=
    exists_dialogue E.scram cfg.password salt fit.iterated hclient hserver hshort
  refine ⟨[.saslInitial first, .saslResponse final], offers serverFirst serverFinal ++ [Message.authenticationOk],
    runForPool_of_dialogue fit hdialogue, ?_⟩
  have hexchange := authenticate_of_dialogue hdialogue (parameters_plain hdatabase) hpid hsecret ends' rest
  have hincoming : offers serverFirst serverFinal ++ [Message.authenticationOk] ++
      completeStartup database.parameters pid secret = offers serverFirst serverFinal ++ .authenticationOk ::
        completeStartup database.parameters pid secret := by
    rw [List.append_assoc, List.singleton_append]
  rw [hincoming]
  set incoming := (offers serverFirst serverFinal ++ .authenticationOk ::
    completeStartup database.parameters pid secret).map (arriving clientNonce) ++ rest with hdef
  have hdial : (between h incoming ends').dial = .ok () := rfl
  have hlogin : ∀ encrypted, login E cfg (between h incoming ends') encrypted =
      ⟨⟨encrypted, cfg.packet.encode⟩ :: [Message.saslInitial first, .saslResponse final].map fun m => ⟨encrypted, m.encode⟩,
        .ok { encrypted, host := cfg.host, port := cfg.port, backendPid := some (UInt32.ofInt pid),
              secretKey := some secret, parameters := database.parameters,
              supportsDiscardAll := cfg.supportsDiscardAll }⟩ := by
    intro encrypted
    simp only [login, between, hexchange]
    rfl
  simp only [connect, hdial, negotiateTls_between fit, hlogin]

/-- Over TLS, with a version reported by a database that asked for nothing. -/
theorem connector_is_let_in_over_tls :
    ∃ up said : List Message, (ClientHandshake.mk true true).runForPool
        (handshakePeer Scram.sums (.ok ())
          ⟨fun _ _ => .ok (.scram (ScramVerifier.fromPasswordWith Scram.sums "pencil".toList [1] 1)),
            fun _ _ _ => .ok (), fun _ => []⟩ ⟨up, [], ['s']⟩) ⟨[['p']], [], by decide⟩ overTls.packets =
      (.byte (byte 'S') :: said.map Answer.message,
        .ok (.established "app".toList ['p'] (some "havuz".toList) overTls.packet.startupParams none)) := by
  let database : BackendPeer := between ⟨true, true⟩
    ([.authenticationOk, .parameterStatus "server_version".toList "16".toList, .readyForQuery .idle].map (arriving [])) []
  obtain ⟨up, said, hlistener, -⟩ := connector_is_let_in plainly overTls ⟨true, true⟩
    ⟨fun _ _ => .ok (.scram (ScramVerifier.fromPasswordWith Scram.sums "pencil".toList [1] 1)), fun _ _ _ => .ok (),
      fun _ => []⟩ ⟨[['p']], [], by decide⟩ ['p'] [1] 1
    ⟨rfl, rfl, by decide, fun _ => rfl, fun _ => ⟨rfl, rfl⟩, fun _ => ⟨rfl, rfl⟩⟩ ['c'] ['s'] (by decide) (by decide)
    (by decide) plainly overTls database
    ⟨true, "db".toList, 5432, none, none, [("server_version".toList, "16".toList)], true⟩ rfl 1 2
    ⟨by decide, by decide⟩ ⟨by decide, by decide⟩ [] [] []
  exact ⟨up, said, hlistener⟩

end Havuz.Login
