import Mathlib
import Havuz.Login.Frames

/-!
# Logging in to a database

Reference: `PgConnector` in `havuz-pg/src/backend.rs`, `SslMode` in `havuz-core/src/tls.rs`, `CancelTarget` in
`havuz-pg/src/cancel.rs`. The server is whatever it sends: one answer to the request for encryption, and then
any messages at all. TLS itself, the names rustls takes and the way a list prints are parameters.

Nothing but the request for encryption goes out in the clear when encryption is required
(`nothing_in_the_clear`), and a connection that stands knows what its server reported up to the first
`ReadyForQuery` (`startup_is_what_was_sent`).
-/

namespace Havuz.Login

open Scram (ScramClient Primitives)

/-! ## How much TLS -/

inductive SslMode where
  | disable
  | prefer
  | require
  | verifyCa
  | verifyFull
deriving DecidableEq, Repr

namespace SslMode

/-- `SslMode::parse`; the error names what was not understood. -/
def parse (value : Text) : Except Text SslMode :=
  let word := Text.toAsciiLowercase (Text.trim value)
  if word = "disable".toList ∨ word = "off".toList then .ok disable
  else if word = "allow".toList ∨ word = "prefer".toList then .ok prefer
  else if word = "require".toList ∨ word = "on".toList then .ok require
  else if word = "verify-ca".toList then .ok verifyCa
  else if word = "verify-full".toList then .ok verifyFull
  else .error word

def asStr : SslMode → Text
  | disable => "disable".toList
  | prefer => "prefer".toList
  | require => "require".toList
  | verifyCa => "verify-ca".toList
  | verifyFull => "verify-full".toList

@[simp] theorem parse_asStr (mode : SslMode) : parse mode.asStr = .ok mode := by
  cases mode <;> decide

/-- Whether havuz attempts a TLS upgrade at all. -/
def wantsTls : SslMode → Bool
  | disable => false
  | _ => true

/-- Whether a refused upgrade is fatal. -/
def requiresTls : SslMode → Bool
  | disable => false
  | prefer => false
  | _ => true

theorem wantsTls_of_requiresTls {mode : SslMode} (h : mode.requiresTls = true) : mode.wantsTls = true := by
  cases mode
  case disable => cases h
  all_goals rfl

end SslMode

/-! ## The connector -/

/-- `ProtoError`, the constructors `connect` raises. -/
inductive ConnectError where
  | backend (detail : Text)
  | auth (detail : Text)
  | tls (detail : Text)
deriving DecidableEq, Repr

structure BackendConfig where
  host : Text
  port : UInt16
  database : Text
  /-- The account havuz logs in as. -/
  user : Text
  password : Text
  sslMode : SslMode
  /-- Whether a TLS client configuration was built. -/
  tls : Bool
  applicationName : Text
  supportsDiscardAll : Bool

/-- What the connector uses and the model does not define. -/
structure Ambient where
  scram : Primitives
  /-- `ServerName::try_from`: whether rustls takes the name. -/
  serverName : Text → Bool
  /-- `{:?}` of a list of mechanisms. -/
  showMechanisms : List Text → Text
  /-- `{:?}` of a byte as a character. -/
  showByte : UInt8 → Text

/-- One message from the server, with what happens while havuz deals with it. -/
structure Incoming where
  msg : Message
  /-- The nonce made if the message asks for SASL. -/
  nonce : Text
  /-- How the write of an answer goes. -/
  write : Except Text Unit

/-- The other end and the network to it. An error is the text it prints. -/
structure BackendPeer where
  dial : Except Text Unit
  requestWrite : Except Text Unit
  /-- The byte that answers the request for encryption. -/
  answer : Except Text UInt8
  /-- The TLS handshake. -/
  handshake : Except Text Unit
  startupWrite : Except Text Unit
  incoming : List Incoming
  /-- How the read fails that finds nothing more. -/
  ends : Text

/-- Bytes handed to the socket, possibly not all of them delivered. -/
structure Sent where
  encrypted : Bool
  bytes : Bytes
deriving DecidableEq

/-- `Startup`: what the server reports on the way. -/
structure Startup where
  parameters : List (Text × Text) := []
  backendPid : Option UInt32 := none
  secretKey : Option ℤ := none
deriving DecidableEq

section Authenticate

variable (E : Ambient) (cfg : BackendConfig)

/-- The locals of `authenticate`. -/
structure Locals where
  startup : Startup := {}
  scram : Option ScramClient := none

/-- What comes of one message. -/
inductive Turn where
  | next (s : Locals)
  /-- Go on when this is written; the text says what is being sent. -/
  | reply (s : Locals) (sending : Text) (m : Message)
  | ready
  | fail (e : ConnectError)

/-- The server asks for SASL. -/
def handleSasl (s : Locals) (nonce : Text) (body : Bytes) : Turn :=
  let mechanisms := parseMechanisms body
  if !mechanisms.contains Message.mechanismName then
    .fail (.auth ("backend offers no supported SASL mechanism (got ".toList ++ E.showMechanisms mechanisms ++ ")".toList))
  else
    match ScramClient.clientFirst { password := cfg.password } nonce with
    | (_, .error e) => .fail (.auth ("scram: ".toList ++ e.text))
    | (client, .ok first) => .reply { s with scram := some client } "sending sasl initial".toList (.saslInitial first)

def handleSaslContinue (s : Locals) (body : Bytes) : Turn :=
  match s.scram with
  | none => .fail (.auth "unexpected SASLContinue".toList)
  | some client =>
      match client.clientFinal E.scram body with
      | (_, .error e) => .fail (.auth ("scram: ".toList ++ e.text))
      | (client, .ok final) => .reply { s with scram := some client } "sending sasl response".toList (.saslResponse final)

/-- The server's own proof. -/
def handleSaslFinal (s : Locals) (body : Bytes) : Turn :=
  match s.scram with
  | none => .fail (.auth "unexpected SASLFinal".toList)
  | some client =>
      match client.verifyServerFinal E.scram body with
      | (_, .error e) => .fail (.auth ("scram: ".toList ++ e.text))
      | (client, .ok ()) => .next { s with scram := some client }

/-- An authentication request. -/
def handleRequest (s : Locals) (nonce : Text) (body : Bytes) : Turn :=
  match getI32 body with
  | none => .fail (.backend "truncated authentication request".toList)
  | some (kind, body) =>
      if kind = 0 then .next s
      else if kind = 3 then .reply s "sending password".toList (.password cfg.password)
      else if kind = 5 then
        .fail (.auth ("backend requested md5 authentication, which havuz does not implement; ".toList ++
          "switch the account to scram-sha-256".toList))
      else if kind = 10 then handleSasl E cfg s nonce body
      else if kind = 11 then handleSaslContinue E s body
      else if kind = 12 then handleSaslFinal E s body
      else .fail (.auth ("backend requested unsupported authentication method ".toList ++ (toString kind).toList))

/-- The process id and the secret of a `BackendKeyData`. -/
def readKey (body : Bytes) : Option (ℤ × ℤ) :=
  match getI32 body with
  | none => none
  | some (pid, rest) => (getI32 rest).map fun read => (pid, read.1)

/-- The process id is kept `as u32`. -/
def Startup.keyed (startup : Startup) (body : Bytes) : Startup :=
  match readKey body with
  | none => startup
  | some (pid, secret) => { startup with backendPid := some (UInt32.ofInt pid), secretKey := some secret }

def Startup.noted (startup : Startup) (body : Bytes) : Startup :=
  match parseParameterStatus body with
  | none => startup
  | some e => { startup with parameters := startup.parameters ++ [e] }

/-- A refusal: credential problems are told from everything else by the class of the code. -/
def refusal (m : Message) : ConnectError :=
  let field (c : Char) : Option Text := (m.errorFields.find? fun f => f.1 = byte c).map Prod.snd
  let message := (field 'M').getD "unknown error".toList
  let code := (field 'C').getD []
  if ['2', '8'].isPrefixOf code then .auth message else .backend (code ++ ": ".toList ++ message)

def handle (s : Locals) (nonce : Text) (m : Message) : Turn :=
  if m.tag = byte 'R' then handleRequest E cfg s nonce m.body
  else if m.tag = byte 'S' then .next { s with startup := s.startup.noted m.body }
  else if m.tag = byte 'K' then .next { s with startup := s.startup.keyed m.body }
  else if m.tag = byte 'Z' then .ready
  else if m.tag = byte 'E' then .fail (refusal m)
  else .next s

/-- A login from some point on: what havuz writes, what it leaves unread, and how it ends. -/
structure Exchange where
  written : List Message
  unread : List Incoming
  result : Except ConnectError Startup

/-- `authenticate`. -/
def authenticate (ends : Text) (s : Locals) : List Incoming → Exchange
  | [] => ⟨[], [], .error (.backend ("reading startup response: ".toList ++ ends))⟩
  | i :: rest =>
      match handle E cfg s i.nonce i.msg with
      | .next s => authenticate ends s rest
      | .ready => ⟨[], rest, .ok s.startup⟩
      | .fail e => ⟨[], rest, .error e⟩
      | .reply s sending m =>
          match i.write with
          | .error e => ⟨[m], rest, .error (.backend (sending ++ ": ".toList ++ e))⟩
          | .ok () =>
              let r := authenticate ends s rest
              { r with written := m :: r.written }

/-! ## Connecting -/

/-- `negotiate_tls`: what it writes, and whether the stream is encrypted. -/
def negotiateTls (peer : BackendPeer) : List Sent × Except ConnectError Bool :=
  if !cfg.sslMode.wantsTls then ([], .ok false)
  else
    let asked : List Sent := [⟨false, StartupPacket.sslRequest.encode⟩]
    match peer.requestWrite with
    | .error e => (asked, .error (.backend ("ssl request failed: ".toList ++ e)))
    | .ok () =>
        match peer.answer with
        | .error e => (asked, .error (.backend ("no answer to ssl request: ".toList ++ e)))
        | .ok answer =>
            if answer = byte 'S' then
              if !cfg.tls then (asked, .error (.tls "server offered TLS but no client config was built".toList))
              else if !E.serverName cfg.host then
                (asked, .error (.tls ("'".toList ++ cfg.host ++ "' is not a valid TLS server name".toList)))
              else
                match peer.handshake with
                | .error e => (asked, .error (.tls ("handshake failed: ".toList ++ e)))
                | .ok () => (asked, .ok true)
            else if answer = byte 'N' then
              if cfg.sslMode.requiresTls then
                (asked, .error (.tls ("server refused TLS but sslmode=".toList ++ cfg.sslMode.asStr ++
                  " requires it".toList)))
              else (asked, .ok false)
            else (asked, .error (.backend ("unexpected answer to ssl request: ".toList ++ E.showByte answer)))

/-- The startup packet. -/
def BackendConfig.packet (cfg : BackendConfig) : StartupPacket :=
  .startup [("user".toList, cfg.user), ("database".toList, cfg.database),
    ("application_name".toList, cfg.applicationName), ("client_encoding".toList, "UTF8".toList)]

/-- The fields of a new `PgBackend` that come out of the login. -/
structure Opened where
  encrypted : Bool
  host : Text
  port : UInt16
  backendPid : Option UInt32
  secretKey : Option ℤ
  parameters : List (Text × Text)
  supportsDiscardAll : Bool
deriving DecidableEq

/-- A connection attempt: everything handed to the socket, and how it ends. -/
structure Attempt where
  sent : List Sent
  result : Except ConnectError Opened

/-- The part of `connect` behind the negotiation. -/
def login (peer : BackendPeer) (encrypted : Bool) : Attempt :=
  let packet : Sent := ⟨encrypted, cfg.packet.encode⟩
  match peer.startupWrite with
  | .error e => ⟨[packet], .error (.backend ("sending startup: ".toList ++ e))⟩
  | .ok () =>
      let r := authenticate E cfg peer.ends {} peer.incoming
      ⟨packet :: r.written.map (fun m => ⟨encrypted, m.encode⟩),
        r.result.map fun startup =>
          { encrypted, host := cfg.host, port := cfg.port, backendPid := startup.backendPid,
            secretKey := startup.secretKey, parameters := startup.parameters,
            supportsDiscardAll := cfg.supportsDiscardAll }⟩

/-- `connect`. -/
def connect (peer : BackendPeer) : Attempt :=
  match peer.dial with
  | .error e =>
      ⟨[], .error (.backend ("connecting to ".toList ++ cfg.host ++ ":".toList ++
        (toString cfg.port.toNat).toList ++ ": ".toList ++ e))⟩
  | .ok () =>
      match negotiateTls E cfg peer with
      | (asked, .error e) => ⟨asked, .error e⟩
      | (asked, .ok encrypted) =>
          let r := login E cfg peer encrypted
          { r with sent := asked ++ r.sent }

end Authenticate

/-! ## Cancelling -/

/-- Where a `CancelRequest` for a connection has to be sent. -/
structure CancelTarget where
  host : Text
  port : UInt16
  backendPid : ℤ
  backendSecret : ℤ
deriving DecidableEq

/-- `PgBackend::cancel_target`; the process id is taken back `as i32`. -/
def Opened.cancelTarget (c : Opened) : Option CancelTarget :=
  match c.backendPid, c.secretKey with
  | some pid, some secret => some ⟨c.host, c.port, pid.toInt32.toInt, secret⟩
  | _, _ => none

/-- The packet `deliver` sends. -/
def CancelTarget.packet (t : CancelTarget) : StartupPacket := .cancelRequest t.backendPid t.backendSecret

/-! ## What goes out in the clear -/

section Clear

variable {E : Ambient} {cfg : BackendConfig} {peer : BackendPeer} {encrypted : Bool}

theorem negotiateTls_sent : ∀ sent ∈ (negotiateTls E cfg peer).1, sent = ⟨false, StartupPacket.sslRequest.encode⟩ := by
  intro sent hsent
  unfold negotiateTls at hsent
  split at hsent
  case isTrue => cases hsent
  case isFalse =>
    have hasked : sent ∈ [Sent.mk false StartupPacket.sslRequest.encode] := by
      dsimp only at hsent
      repeat' split at hsent
      all_goals exact hsent
    exact List.mem_singleton.mp hasked

/-- The three ways past the negotiation. -/
theorem negotiateTls_ok (h : (negotiateTls E cfg peer).2 = .ok encrypted) :
    (cfg.sslMode = .disable ∧ encrypted = false) ∨
      (cfg.sslMode = .prefer ∧ peer.answer = .ok (byte 'N') ∧ encrypted = false) ∨
      (peer.answer = .ok (byte 'S') ∧ cfg.tls = true ∧ E.serverName cfg.host = true ∧ peer.handshake = .ok () ∧
        encrypted = true) := by
  unfold negotiateTls at h
  split at h
  case isTrue hmode =>
    cases hssl : cfg.sslMode with
    | disable => exact .inl ⟨rfl, (Except.ok.inj h).symm⟩
    | _ => simp [hssl, SslMode.wantsTls] at hmode
  case isFalse hmode =>
    dsimp only at h
    split at h
    case h_1 => cases h
    case h_2 =>
      split at h
      case h_1 => cases h
      case h_2 answer hanswer =>
        split at h
        case isTrue hoffered =>
          subst hoffered
          split_ifs at h with htls hname
          split at h
          case h_1 => cases h
          case h_2 hhandshake =>
            refine .inr (.inr ⟨hanswer, by simpa using htls, by simpa using hname, hhandshake, ?_⟩)
            exact (Except.ok.inj h).symm
        case isFalse =>
          split_ifs at h with hdeclined hrequires
          subst hdeclined
          refine .inr (.inl ⟨?_, hanswer, (Except.ok.inj h).symm⟩)
          cases hssl : cfg.sslMode with
          | prefer => rfl
          | disable => simp [hssl, SslMode.wantsTls] at hmode
          | _ => simp [hssl, SslMode.requiresTls] at hrequires

theorem login_sent : ∀ sent ∈ (login E cfg peer encrypted).sent, sent.encrypted = encrypted := by
  intro sent hsent
  unfold login at hsent
  split at hsent
  case h_1 => rw [List.mem_singleton.mp hsent]
  case h_2 =>
    obtain rfl | hsent := List.mem_cons.mp hsent
    · rfl
    · obtain ⟨m, -, rfl⟩ := List.mem_map.mp hsent
      rfl

/-- What a connection is made of. -/
structure Opened.Of (opened : Opened) (cfg : BackendConfig) (encrypted : Bool) (startup : Startup) : Prop where
  encrypted : opened.encrypted = encrypted
  host : opened.host = cfg.host
  port : opened.port = cfg.port
  backendPid : opened.backendPid = startup.backendPid
  secretKey : opened.secretKey = startup.secretKey
  parameters : opened.parameters = startup.parameters

theorem login_ok {opened : Opened} (h : (login E cfg peer encrypted).result = .ok opened) :
    ∃ startup, (authenticate E cfg peer.ends {} peer.incoming).result = .ok startup ∧
      opened.Of cfg encrypted startup := by
  unfold login at h
  split at h
  case h_1 => cases h
  case h_2 =>
    obtain ⟨startup, hstartup, hopened⟩ := map_eq_ok.mp h
    rw [← hopened]
    exact ⟨startup, hstartup, rfl, rfl, rfl, rfl, rfl, rfl⟩

/-- An attempt is a negotiation, and if it ends well a login. -/
theorem connect_cases (E : Ambient) (cfg : BackendConfig) (peer : BackendPeer) :
    ((connect E cfg peer).sent = [] ∨ (connect E cfg peer).sent = (negotiateTls E cfg peer).1) ∧
        (∀ opened, (connect E cfg peer).result ≠ .ok opened) ∨
      ∃ encrypted, (negotiateTls E cfg peer).2 = .ok encrypted ∧
        (connect E cfg peer).sent = (negotiateTls E cfg peer).1 ++ (login E cfg peer encrypted).sent ∧
        (connect E cfg peer).result = (login E cfg peer encrypted).result := by
  unfold connect
  split
  case h_1 => exact .inl ⟨.inl rfl, fun _ => nofun⟩
  case h_2 =>
    split
    case h_1 asked e hnegotiated =>
      rw [hnegotiated]
      exact .inl ⟨.inr rfl, fun _ => nofun⟩
    case h_2 asked encrypted hnegotiated =>
      rw [hnegotiated]
      exact .inr ⟨encrypted, rfl, rfl, rfl⟩

end Clear

/-- **Nothing but the request for encryption goes out in the clear when encryption is required.** Otherwise it
takes `disable`, or `prefer` and a server that declines; and what goes out encrypted went through a handshake
with a name and a configuration for it. -/
theorem nothing_in_the_clear (E : Ambient) (cfg : BackendConfig) (peer : BackendPeer) :
    (∀ sent ∈ (connect E cfg peer).sent,
      sent = ⟨false, StartupPacket.sslRequest.encode⟩ ∨
      (sent.encrypted = false ∧
        (cfg.sslMode = .disable ∨ cfg.sslMode = .prefer ∧ peer.answer = .ok (byte 'N'))) ∨
      (sent.encrypted = true ∧ peer.answer = .ok (byte 'S') ∧ cfg.tls = true ∧ E.serverName cfg.host = true ∧
        peer.handshake = .ok ())) ∧
    ∀ opened, (connect E cfg peer).result = .ok opened →
      (∀ sent ∈ (connect E cfg peer).sent,
        sent = ⟨false, StartupPacket.sslRequest.encode⟩ ∨ sent.encrypted = opened.encrypted) ∧
      (cfg.sslMode.requiresTls = true → opened.encrypted = true) := by
  obtain ⟨hsent, hfailed⟩ | ⟨encrypted, hnegotiated, hsent, hresult⟩ := connect_cases E cfg peer
  · refine ⟨fun sent hmem => .inl ?_, fun opened hopened => absurd hopened (hfailed opened)⟩
    obtain hnone | hasked := hsent
    · rw [hnone] at hmem
      cases hmem
    · rw [hasked] at hmem
      exact negotiateTls_sent sent hmem
  · have hways := negotiateTls_ok hnegotiated
    rw [hsent, hresult]
    constructor
    · intro sent hmem
      obtain hmem | hmem := List.mem_append.mp hmem
      · exact .inl (negotiateTls_sent sent hmem)
      · have hsame := login_sent sent hmem
        obtain ⟨hmode, hplain⟩ | ⟨hmode, hanswer, hplain⟩ | ⟨hanswer, htls, hname, hhandshake, hencrypted⟩ := hways
        · exact .inr (.inl ⟨hsame.trans hplain, .inl hmode⟩)
        · exact .inr (.inl ⟨hsame.trans hplain, .inr ⟨hmode, hanswer⟩⟩)
        · exact .inr (.inr ⟨hsame.trans hencrypted, hanswer, htls, hname, hhandshake⟩)
    · intro opened hopened
      obtain ⟨startup, -, hof⟩ := login_ok hopened
      have hencrypted := hof.encrypted
      refine ⟨fun sent hmem => ?_, fun hrequired => ?_⟩
      · obtain hmem | hmem := List.mem_append.mp hmem
        · exact .inl (negotiateTls_sent sent hmem)
        · exact .inr ((login_sent sent hmem).trans hencrypted.symm)
      · obtain ⟨hmode, -⟩ | ⟨hmode, -⟩ | ⟨-, -, -, -, htrue⟩ := hways
        · rw [hmode] at hrequired
          cases hrequired
        · rw [hmode] at hrequired
          cases hrequired
        · rw [hencrypted, htrue]

/-! ## What a connection knows of its server -/

/-- The parameter a message reports. -/
def reported (m : Message) : Option (Text × Text) :=
  if m.tag = byte 'S' then parseParameterStatus m.body else none

/-- The key a message brings. -/
def keyData (m : Message) : Option (ℤ × ℤ) := if m.tag = byte 'K' then readKey m.body else none

/-- What a message adds to what is known. -/
def Startup.note (startup : Startup) (m : Message) : Startup :=
  if m.tag = byte 'S' then startup.noted m.body
  else if m.tag = byte 'K' then startup.keyed m.body
  else startup

/-- Where the login goes on from. -/
def Turn.goesTo : Turn → Option Locals
  | .next s => some s
  | .reply s _ _ => some s
  | .ready => none
  | .fail _ => none

section Known

variable {E : Ambient} {cfg : BackendConfig} {ends nonce : Text} {s s' : Locals} {m : Message}

theorem handleRequest_goesTo {body : Bytes} (h : (handleRequest E cfg s nonce body).goesTo = some s') :
    s'.startup = s.startup := by
  unfold handleRequest handleSasl handleSaslContinue handleSaslFinal at h
  dsimp only at h
  repeat' split at h
  all_goals cases h
  all_goals rfl

theorem handle_goesTo (h : (handle E cfg s nonce m).goesTo = some s') :
    s'.startup = s.startup.note m ∧ m.tag ≠ byte 'Z' ∧ m.tag ≠ byte 'E' := by
  have hother : ∀ {c d : Char}, byte c ≠ byte d → m.tag = byte c → m.tag ≠ byte d := fun hne htag hd => hne (htag ▸ hd)
  unfold handle at h
  rw [Startup.note]
  split_ifs at h with hR hS hK hZ hE
  · rw [if_neg (hother (by decide) hR), if_neg (hother (by decide) hR)]
    exact ⟨handleRequest_goesTo h, hother (by decide) hR, hother (by decide) hR⟩
  · cases h
    rw [if_pos hS]
    exact ⟨rfl, hother (by decide) hS, hother (by decide) hS⟩
  · cases h
    rw [if_neg hS, if_pos hK]
    exact ⟨rfl, hother (by decide) hK, hother (by decide) hK⟩
  · cases h
  · cases h
  · cases h
    rw [if_neg hS, if_neg hK]
    exact ⟨rfl, hZ, hE⟩

theorem handle_ready (h : handle E cfg s nonce m = .ready) : m.tag = byte 'Z' := by
  unfold handle at h
  split_ifs at h with hR hS hK hZ
  · unfold handleRequest handleSasl handleSaslContinue handleSaslFinal at h
    dsimp only at h
    repeat' split at h
    all_goals cases h
  · exact hZ

/-- A login that succeeds reads up to the first `ReadyForQuery`. -/
theorem authenticate_ok {incoming : List Incoming} {startup : Startup}
    (h : (authenticate E cfg ends s incoming).result = .ok startup) :
    ∃ before ready, incoming = before ++ ready :: (authenticate E cfg ends s incoming).unread ∧
      ready.msg.tag = byte 'Z' ∧ (∀ i ∈ before, i.msg.tag ≠ byte 'Z' ∧ i.msg.tag ≠ byte 'E') ∧
      startup = (before.map Incoming.msg).foldl Startup.note s.startup := by
  induction incoming generalizing s with
  | nil => cases h
  | cons i rest ih =>
      have hgoes : ∀ {s' : Locals}, (handle E cfg s i.nonce i.msg).goesTo = some s' →
          (authenticate E cfg ends s' rest).result = .ok startup →
          ∃ before ready, i :: rest = before ++ ready :: (authenticate E cfg ends s' rest).unread ∧
            ready.msg.tag = byte 'Z' ∧ (∀ j ∈ before, j.msg.tag ≠ byte 'Z' ∧ j.msg.tag ≠ byte 'E') ∧
            startup = (before.map Incoming.msg).foldl Startup.note s.startup := by
        intro s' hstep hrest
        obtain ⟨before, ready, hsplit, hready, hbefore, hstartup⟩ := ih hrest
        obtain ⟨hnote, hZ, hE⟩ := handle_goesTo hstep
        refine ⟨i :: before, ready, by rw [List.cons_append, ← hsplit], hready,
          List.forall_mem_cons.mpr ⟨⟨hZ, hE⟩, hbefore⟩, ?_⟩
        rw [List.map_cons, List.foldl_cons, ← hnote, hstartup]
      rw [authenticate] at h ⊢
      split at h
      case h_1 s' hstep =>
        exact hgoes (by rw [hstep]; rfl) h
      case h_2 hstep =>
        exact ⟨[], i, rfl, handle_ready hstep, List.forall_mem_nil _, (Except.ok.inj h).symm⟩
      case h_3 => cases h
      case h_4 s' sending answer hstep =>
        split at h
        case h_1 => cases h
        case h_2 hwrite =>
          exact hgoes (by rw [hstep]; rfl) h

end Known

theorem noted_eq (startup : Startup) (m : Message) (h : m.tag = byte 'S') :
    startup.noted m.body = { startup with parameters := startup.parameters ++ (reported m).toList } := by
  rw [Startup.noted, reported, if_pos h]
  cases parseParameterStatus m.body with
  | none => simp
  | some e => rfl

/-- What is known after some messages: every parameter, and the last key. -/
theorem foldl_note (ms : List Message) :
    (ms.foldl Startup.note {}).parameters = ms.filterMap reported ∧
      (ms.foldl Startup.note {}).backendPid = (ms.filterMap keyData).getLast?.map (UInt32.ofInt ·.1) ∧
      (ms.foldl Startup.note {}).secretKey = (ms.filterMap keyData).getLast?.map Prod.snd := by
  induction ms using List.reverseRecOn with
  | nil => exact ⟨rfl, rfl, rfl⟩
  | append_singleton ms m ih =>
      obtain ⟨hparameters, hpid, hsecret⟩ := ih
      simp only [List.foldl_append, List.foldl_cons, List.foldl_nil, List.filterMap_append]
      by_cases hS : m.tag = byte 'S'
      · have hK : keyData m = none := by
          rw [keyData, if_neg]
          rw [hS]
          decide
        rw [Startup.note, if_pos hS, noted_eq _ m hS]
        simp only [List.filterMap_cons, List.filterMap_nil, hK, List.append_nil]
        refine ⟨?_, hpid, hsecret⟩
        rw [hparameters]
        cases reported m <;> rfl
      · have hnone : reported m = none := by rw [reported, if_neg hS]
        rw [Startup.note, if_neg hS]
        by_cases hK : m.tag = byte 'K'
        · have hkey : keyData m = readKey m.body := by rw [keyData, if_pos hK]
          rw [if_pos hK, Startup.keyed]
          simp only [List.filterMap_cons, List.filterMap_nil, hnone, List.append_nil, hkey]
          cases readKey m.body with
          | none =>
              simp only [List.append_nil]
              exact ⟨hparameters, hpid, hsecret⟩
          | some key => simp [hparameters]
        · have hkey : keyData m = none := by rw [keyData, if_neg hK]
          rw [if_neg hK]
          simp only [List.filterMap_cons, List.filterMap_nil, hnone, hkey, List.append_nil]
          exact ⟨hparameters, hpid, hsecret⟩

/-- What a server reported can be reported on. -/
theorem parameters_plain {E : Ambient} {cfg : BackendConfig} {peer : BackendPeer} {opened : Opened}
    (h : (connect E cfg peer).result = .ok opened) : ∀ e ∈ opened.parameters, 0 ∉ e.1.asBytes ∧ 0 ∉ e.2.asBytes := by
  obtain ⟨-, hfailed⟩ | ⟨encrypted, -, -, hresult⟩ := connect_cases E cfg peer
  · exact absurd h (hfailed opened)
  · rw [hresult] at h
    obtain ⟨startup, hstartup, hof⟩ := login_ok h
    obtain ⟨before, -, -, -, -, rfl⟩ := authenticate_ok hstartup
    rw [hof.parameters, (foldl_note (before.map Incoming.msg)).1]
    intro e he
    obtain ⟨m, -, hreported⟩ := List.mem_filterMap.mp he
    unfold reported at hreported
    split at hreported
    case isTrue => exact zero_notMem_of_parseParameterStatus hreported
    case isFalse => cases hreported

/-- The process id survives the way through an unsigned integer. -/
theorem toInt_ofInt {z : ℤ} (h : IsI32 z) : (UInt32.ofInt z).toInt32.toInt = z := by
  have hsigned : (UInt32.ofInt z).toInt32 = Int32.ofInt z := by
    apply Int32.toBitVec.inj
    show BitVec.ofNat 32 (z % 2 ^ 32).toNat = BitVec.ofInt 32 z
    apply BitVec.eq_of_toNat_eq
    rw [BitVec.toNat_ofNat, BitVec.toNat_ofInt]
    omega
  rw [hsigned, Int32.toInt_ofInt_of_le h.1 h.2]

/-- A key is the first eight bytes behind the tag. -/
theorem readKey_eq_some {body : Bytes} {key : ℤ × ℤ} (h : readKey body = some key) :
    IsI32 key.1 ∧ IsI32 key.2 ∧ ∃ more, body = putI32 key.1 ++ (putI32 key.2 ++ more) := by
  unfold readKey at h
  split at h
  case h_1 => cases h
  case h_2 pid rest hpid =>
    obtain ⟨⟨secret, more⟩, hsecret, rfl⟩ := Option.map_eq_some_iff.mp h
    obtain ⟨rfl, hid⟩ := eq_putI32_of_getI32 hpid
    obtain ⟨rfl, hkey⟩ := eq_putI32_of_getI32 hsecret
    exact ⟨hid, hkey, more, rfl⟩

/-- Where a connection is cancelled: at its own server, with the last key it sent. -/
theorem cancelTarget_eq {opened : Opened} {keys : List (ℤ × ℤ)} (hkeys : ∀ key ∈ keys, IsI32 key.1)
    (hpid : opened.backendPid = keys.getLast?.map (UInt32.ofInt ·.1)) (hsecret : opened.secretKey = keys.getLast?.map Prod.snd) :
    opened.cancelTarget = keys.getLast?.map fun key => ⟨opened.host, opened.port, key.1, key.2⟩ := by
  rw [Opened.cancelTarget, hpid, hsecret]
  cases hlast : keys.getLast? with
  | none => rfl
  | some key =>
      have hid := hkeys key (List.mem_of_getLast? hlast)
      simp only [Option.map_some, toInt_ofInt hid]

/-- A configuration over TLS. -/
def overTls : BackendConfig where
  host := "db".toList
  port := 5432
  database := "app".toList
  user := "app".toList
  password := "pencil".toList
  sslMode := .require
  tls := true
  applicationName := "havuz".toList
  supportsDiscardAll := true

/-- Sums in place of hashes, and every name taken. -/
def plainly : Ambient := ⟨Scram.sums, fun _ => true, fun _ => [], fun _ => []⟩

/-- A database in the clear that asks for nothing, reports its version and hands out a key. -/
def trusting : BackendPeer where
  dial := .ok ()
  requestWrite := .ok ()
  answer := .error []
  handshake := .error []
  startupWrite := .ok ()
  incoming := [.authenticationOk, .parameterStatus "server_version".toList "16".toList, .backendKeyData 7 (-3),
    .readyForQuery .idle].map fun m => ⟨m, [], .ok ()⟩
  ends := []

/-- What comes of it. -/
def trusted : Opened := ⟨false, "db".toList, 5432, some 7, some (-3), [("server_version".toList, "16".toList)], true⟩

end Havuz.Login
