import Havuz.Listeners
import Havuz.Protocol

/-!
# The handshake and the pool it lands on

Reference: `StartupPacket` in `havuz-pg/src/protocol.rs` and `ClientHandshake::run_for_pool` in
`havuz-pg/src/session.rs`. A client may ask for TLS or GSSAPI encryption before its real startup packet;
then the listener's route turns the database field into a pool, and the authenticator decides. What the
authenticator and the exchange with it come to is a parameter here.
-/

namespace Havuz

open Lib (SortedMap)

/-- The first packet on a connection. -/
inductive StartupPacket where
  | startup (params : List (Text × Text))
  | sslRequest
  | cancelRequest (processId secretKey : ℤ)
  | gssEncRequest
deriving DecidableEq, Repr

/-- `ProtoError`, the constructors the handshake raises. -/
inductive HandshakeError where
  | protocol (detail : Text)
  | auth (detail : Text)
  | noRoute (asked : Text)
  | tls (detail : Text)
deriving DecidableEq, Repr

namespace StartupPacket

def param (p : StartupPacket) (key : Text) : Option Text :=
  match p with
  | startup params => (params.find? fun e => e.1 = key).map Prod.snd
  | sslRequest => none
  | cancelRequest _ _ => none
  | gssEncRequest => none

/-- The havuz user. -/
def user (p : StartupPacket) : Except HandshakeError Text :=
  match p.param "user".toList with
  | some name => .ok name
  | none =>
      .error (.protocol "startup packet is missing the required 'user' parameter".toList)

/-- The pool name. Postgres defaults `database` to `user` when omitted. -/
def database (p : StartupPacket) : Except HandshakeError Text :=
  match p.param "database".toList with
  | some db => .ok db
  | none => p.user

def applicationName (p : StartupPacket) : Option Text := p.param "application_name".toList

def startupParams : StartupPacket → List (Text × Text)
  | startup params => params
  | sslRequest => []
  | cancelRequest _ _ => []
  | gssEncRequest => []

end StartupPacket

/-- What havuz writes to the client during the handshake. -/
inductive Answer where
  /-- The single byte that answers a request for encryption. -/
  | byte (b : UInt8)
  | message (m : Message)
deriving DecidableEq, Repr

/-- What the handshake produced. -/
inductive HandshakeOutcome where
  | established (user pool : Text) (applicationName : Option Text) (startupParams : List (Text × Text))
      (credential : Option Text)
  | cancel (processId secretKey : ℤ)
deriving DecidableEq, Repr

/-- `Message::authentication_ok`. -/
def Message.authenticationOk : Message := ⟨Havuz.byte 'R', [0, 0, 0, 0]⟩

structure ClientHandshake where
  /-- Whether there is a TLS acceptor. -/
  tls : Bool
  requireTls : Bool

/-- What lies outside the handshake's own decisions. -/
structure HandshakePeer where
  /-- How the client's TLS handshake ends. -/
  accept : Except Text Unit
  /-- `resolve` and the exchange it asks for: what is sent, and the credential or the refusal. -/
  authenticate : Bool → Text → Text → List Answer × Except HandshakeError (Option Text)

namespace ClientHandshake

/-- The answer to an `SSLRequest`, and whether the stream is encrypted afterwards. -/
def upgrade (h : ClientHandshake) (peer : HandshakePeer) (encrypted : Bool) :
    UInt8 × Except HandshakeError Bool :=
  if !h.tls then (Havuz.byte 'N', .ok encrypted)
  else if encrypted then
    (Havuz.byte 'S', .error (.protocol "duplicate SSLRequest after TLS was established".toList))
  else
    match peer.accept with
    | .ok () => (Havuz.byte 'S', .ok true)
    | .error e => (Havuz.byte 'S', .error (.tls ("client handshake failed: ".toList ++ e)))

/-- Read packets until one is neither of the two encryption requests. -/
def readStartup (h : ClientHandshake) (peer : HandshakePeer) :
    Bool → List StartupPacket → List Answer × Except HandshakeError (Bool × StartupPacket)
  | _, [] => ([], .error (.protocol "startup: io: early eof".toList))
  | encrypted, .sslRequest :: rest =>
      match h.upgrade peer encrypted with
      | (b, .error e) => ([.byte b], .error e)
      | (b, .ok encrypted) =>
          let (answers, result) := readStartup h peer encrypted rest
          (.byte b :: answers, result)
  | encrypted, .gssEncRequest :: rest =>
      let (answers, result) := readStartup h peer encrypted rest
      (.byte (Havuz.byte 'N') :: answers, result)
  | encrypted, .startup params :: _ => ([], .ok (encrypted, .startup params))
  | encrypted, .cancelRequest pid key :: _ => ([], .ok (encrypted, .cancelRequest pid key))

end ClientHandshake

/-- The refusal of a name no pool on the port answers to. -/
def PoolRoute.refusal (route : PoolRoute) (asked : Text) : Message :=
  .fatal "3D000".toList
    ("no pool named \"".toList ++ asked ++ "\" on this port; available here: ".toList ++
      Text.join ", ".toList route.reachable)

/-- Which of the listener's pools the client asked for. -/
def PoolRoute.choose (route : PoolRoute) (packet : StartupPacket) :
    List Answer × Except HandshakeError Text :=
  match route.sole with
  | some only => ([], .ok only)
  | none =>
      match packet.database with
      | .error e => ([], .error e)
      | .ok asked =>
          match route.resolve asked with
          | some pool => ([], .ok pool)
          | none => ([.message (route.refusal asked)], .error (.noRoute asked))

namespace ClientHandshake

/-- The part of `run_for_pool` behind the encryption requests. -/
def runPacket (h : ClientHandshake) (peer : HandshakePeer) (route : PoolRoute) (encrypted : Bool)
    (packet : StartupPacket) : List Answer × Except HandshakeError HandshakeOutcome :=
  if h.requireTls && !encrypted then
    ([.message (.fatal "28000".toList "TLS is required".toList)],
      .error (.tls "client refused TLS".toList))
  else
    match packet with
    | .cancelRequest pid key => ([], .ok (.cancel pid key))
    | _ =>
        match packet.user with
        | .error e => ([], .error e)
        | .ok user =>
            match route.choose packet with
            | (answers, .error e) => (answers, .error e)
            | (answers, .ok pool) =>
                match peer.authenticate encrypted user pool with
                | (exchange, .error e) => (answers ++ exchange, .error e)
                | (exchange, .ok credential) =>
                    (answers ++ exchange ++ [.message .authenticationOk],
                      .ok (.established user pool packet.applicationName packet.startupParams credential))

/-- `ClientHandshake::run_for_pool`. -/
def runForPool (h : ClientHandshake) (peer : HandshakePeer) (route : PoolRoute)
    (packets : List StartupPacket) : List Answer × Except HandshakeError HandshakeOutcome :=
  match h.readStartup peer false packets with
  | (answers, .error e) => (answers, .error e)
  | (answers, .ok (encrypted, packet)) =>
      let (more, result) := h.runPacket peer route encrypted packet
      (answers ++ more, result)

/-- The pool a finished handshake connected its client to. -/
def reached : Except HandshakeError HandshakeOutcome → Option Text
  | .ok (.established _ pool _ _ _) => some pool
  | .ok (.cancel _ _) => none
  | .error _ => none

/-- The only way through: the route chose the pool. -/
theorem choose_of_reached {h : ClientHandshake} {peer : HandshakePeer} {route : PoolRoute}
    {encrypted : Bool} {packet : StartupPacket} {pool : Text}
    (hreached : reached (h.runPacket peer route encrypted packet).2 = some pool) :
    (route.choose packet).2 = .ok pool := by
  unfold runPacket at hreached
  split at hreached
  · simp [reached] at hreached
  · split at hreached
    · simp [reached] at hreached
    · split at hreached
      · simp [reached] at hreached
      · split at hreached
        · simp [reached] at hreached
        case h_2 answers chosen hchoose =>
          split at hreached
          · simp [reached] at hreached
          · simp only [reached, Option.some_inj] at hreached
            rw [hchoose, hreached]

theorem runForPool_snd {h : ClientHandshake} {peer : HandshakePeer} {route : PoolRoute}
    {packets : List StartupPacket} {encrypted : Bool} {packet : StartupPacket}
    (hread : (h.readStartup peer false packets).2 = .ok (encrypted, packet)) :
    (h.runForPool peer route packets).2 = (h.runPacket peer route encrypted packet).2 := by
  unfold runForPool
  split
  case h_1 heq =>
    rw [heq] at hread
    cases hread
  case h_2 heq =>
    rw [heq] at hread
    cases hread
    rfl

end ClientHandshake

namespace PoolRoute

theorem choose_sole {route : PoolRoute} {only : Text} (h : route.pools = [only])
    (packet : StartupPacket) : (route.choose packet).2 = .ok only := by
  simp [choose, sole, h]

theorem choose_named {route : PoolRoute} (h : 2 ≤ route.pools.length) {packet : StartupPacket}
    {asked : Text} (hasked : packet.database = .ok asked) :
    (route.choose packet).2 =
      match route.resolve asked with
      | some pool => .ok pool
      | none => .error (.noRoute asked) := by
  unfold choose
  rw [sole_eq_none h, hasked]
  simp only
  split <;> rfl

end PoolRoute

namespace State

/-- A route over the enabled pools of a port, listed in any order, sends a name to the enabled pool
that owns it and refuses the name of a disabled one. -/
theorem resolve_owned {s : State} (hvalid : s.validate = .ok ()) {port : ℕ} {route : PoolRoute}
    (hpools : route.pools.Perm ((s.enabledOn port).map Prod.fst))
    (haliases : route.aliases.Perm ((s.enabledOn port).flatMap ownAliases))
    {e : Text × PoolConfig} (he : e ∈ s.pools.entries) {asked : Text} (hasked : AnswersTo port asked e) :
    route.resolve asked = if e.2.disabled then none else some e.1 := by
  -- Whoever answers to `asked` among the enabled pools is `e` itself.
  have hname : asked ∈ route.pools → e ∈ s.enabledOn port ∧ asked = e.1 := by
    intro hmem
    obtain ⟨e', he', rfl⟩ := List.mem_map.mp (hpools.mem_iff.mp hmem)
    have hmem' := mem_enabledOn.mp he'
    rw [answersTo_unique hvalid he hmem'.1 hasked ⟨hmem'.2.2, .inl rfl⟩]
    exact ⟨he', rfl⟩
  have halias : ∀ pool, (asked, pool) ∈ route.aliases → e ∈ s.enabledOn port ∧ pool = e.1 := by
    intro pool hmem
    obtain ⟨e', he', hin, rfl⟩ := mem_ownAliases.mp (haliases.mem_iff.mp hmem)
    have hmem' := mem_enabledOn.mp he'
    rw [answersTo_unique hvalid he hmem'.1 hasked ⟨hmem'.2.2, .inr hin⟩]
    exact ⟨he', rfl⟩
  by_cases hdisabled : e.2.disabled = true
  · rw [if_pos hdisabled]
    have hnot : e ∉ s.enabledOn port := by
      intro hmem
      rw [(mem_enabledOn.mp hmem).2.1] at hdisabled
      cases hdisabled
    apply PoolRoute.resolve_eq_none
    · exact fun hmem => hnot (hname hmem).1
    · exact fun pool hmem => hnot (halias pool hmem).1
  · rw [if_neg hdisabled]
    have hon : e ∈ s.enabledOn port := mem_enabledOn.mpr ⟨he, by simpa using hdisabled, hasked.1⟩
    apply PoolRoute.resolve_eq_some
    · exact fun hmem => (hname hmem).2
    · exact fun pool hmem => (halias pool hmem).2
    · rcases hasked.2 with rfl | hin
      · exact .inl (hpools.mem_iff.mpr (List.mem_map.mpr ⟨e, hon, rfl⟩))
      · exact .inr ⟨e.1, haliases.mem_iff.mpr (mem_ownAliases.mpr ⟨e, hon, hin, rfl⟩)⟩

/-- **A client that names a pool reaches that pool or none, as long as the port has several.** On a
port with one enabled pool the database field is not routing information and the client reaches that
pool; a port with none has no listener. A name means the same pool in whatever order the pools and
aliases of the port are listed. -/
theorem named_pool_is_reached (s : State) (hvalid : s.validate = .ok ()) (port : ℕ)
    (e : Text × PoolConfig) (he : e ∈ s.pools.entries) (asked : Text) (hasked : AnswersTo port asked e) :
    (s.listeners.get port = none ↔ s.enabledOn port = []) ∧
    ∀ L, s.listeners.get port = some L →
      ∃ route, L.route = some route ∧
      (∀ (h : ClientHandshake) (peer : HandshakePeer) (packets : List StartupPacket) (encrypted : Bool)
          (packet : StartupPacket) (pool : Text),
        (h.readStartup peer false packets).2 = .ok (encrypted, packet) →
        packet.database = .ok asked →
        ClientHandshake.reached (h.runForPool peer route packets).2 = some pool →
        (2 ≤ (s.enabledOn port).length → pool = e.1 ∧ e.2.disabled = false) ∧
        ∀ only, s.enabledOn port = [only] → pool = only.1) ∧
      ∀ route' : PoolRoute, route'.pools.Perm L.pools → route'.aliases.Perm L.aliases →
        route'.resolve asked = if e.2.disabled then none else some e.1 := by
  refine ⟨listeners_get_eq_none, fun L hL => ?_⟩
  obtain ⟨route, hroute, hpools, haliases⟩ := listeners_route hL
  obtain ⟨hLpools, hLaliases⟩ := listeners_pools hL
  have hresolve : ∀ route' : PoolRoute, route'.pools.Perm L.pools → route'.aliases.Perm L.aliases →
      route'.resolve asked = if e.2.disabled then none else some e.1 := fun route' hp ha =>
    resolve_owned hvalid (hLpools ▸ hp) (ha.trans hLaliases) he hasked
  refine ⟨route, hroute, fun h peer packets encrypted packet pool hread hdb hreached => ?_, hresolve⟩
  rw [ClientHandshake.runForPool_snd hread] at hreached
  have hchoose := ClientHandshake.choose_of_reached hreached
  have hlength : route.pools.length = (s.enabledOn port).length := by rw [hpools, hLpools, List.length_map]
  constructor
  · intro hseveral
    rw [PoolRoute.choose_named (hlength ▸ hseveral) hdb,
      hresolve route (.of_eq hpools) (.of_eq haliases)] at hchoose
    split at hchoose
    case h_1 heq =>
      split at heq
      case isTrue => cases heq
      case isFalse henabled =>
        cases heq
        cases hchoose
        exact ⟨rfl, by simpa using henabled⟩
    case h_2 => cases hchoose
  · intro only honly
    have hone : route.pools = [only.1] := by rw [hpools, hLpools, honly]; rfl
    rw [PoolRoute.choose_sole hone] at hchoose
    cases hchoose
    rfl

/-- A PostgreSQL pool on port 6432. -/
def poolOn6432 (aliases : List Text) (disabled : Bool) : PoolConfig where
  family := "postgres".toList
  mode := .transaction
  targets := [⟨"db".toList, 5432, .primary⟩]
  listenPort := 6432
  aliases := aliases
  disabled := disabled

/-- Pools `a`, also known as `o`, and `b` on one port, the second one possibly disabled. -/
def neighbours (disabled : Bool) : State where
  version := stateVersion
  pools := (SortedMap.empty.insert ['a'] (poolOn6432 [['o']] false)).insert ['b'] (poolOn6432 [] disabled)
  users := .empty
  secrets := .empty

/-- A peer the authenticator lets in. -/
def welcome : HandshakePeer := ⟨.ok (), fun _ _ _ => ([], .ok none)⟩

/-- A client that names the pool by its alias reaches it. -/
theorem named_pool_is_reached_by_alias :
    ∃ route pool, (∃ L, (neighbours false).listeners.get 6432 = some L ∧ L.route = some route) ∧
      ClientHandshake.reached ((ClientHandshake.mk false false).runForPool welcome route
        [.sslRequest, .startup [("user".toList, ['u']), ("database".toList, ['o'])]]).2 = some pool ∧
      pool = ['a'] := by
  let L : Listener := ⟨6432, "postgres".toList, [['a'], ['b']], [(['o'], ['a'])]⟩
  have hL : (neighbours false).listeners.get 6432 = some L := by decide
  obtain ⟨-, hall⟩ := named_pool_is_reached (neighbours false) (by decide) 6432
    (['a'], poolOn6432 [['o']] false) (by decide) ['o'] (by decide)
  obtain ⟨route, hroute, hreach, -⟩ := hall L hL
  have hlit : route = ⟨[['a'], ['b']], [(['o'], ['a'])], by decide⟩ :=
    Option.some_inj.mp (hroute.symm.trans (by decide))
  subst hlit
  have hconnected : ClientHandshake.reached ((ClientHandshake.mk false false).runForPool welcome
      ⟨[['a'], ['b']], [(['o'], ['a'])], by decide⟩
      [.sslRequest, .startup [("user".toList, ['u']), ("database".toList, ['o'])]]).2 = some ['a'] := by decide
  have hnamed := (hreach ⟨false, false⟩ welcome _ false _ ['a'] rfl rfl hconnected).1 (by decide)
  exact ⟨_, ['a'], ⟨L, hL, hroute⟩, hconnected, hnamed.1⟩

/-- The claim that a client never reaches a pool it did not name fails: the neighbour it named is
disabled, and the pool that is left takes the client. -/
theorem not_named_pool_only :
    ¬ ∀ (s : State), s.validate = .ok () → ∀ (port : ℕ) (e : Text × PoolConfig), e ∈ s.pools.entries →
      ∀ asked, AnswersTo port asked e → ∀ L, s.listeners.get port = some L →
      ∀ route, L.route = some route →
      ∀ (h : ClientHandshake) (peer : HandshakePeer) (packet : StartupPacket) (pool : Text),
        packet.database = .ok asked →
        ClientHandshake.reached (h.runForPool peer route [packet]).2 = some pool → pool = e.1 := by
  intro hclaim
  have hpool := hclaim (neighbours true) (by decide) 6432 (['b'], poolOn6432 [] true) (by decide) ['b']
    (by decide) ⟨6432, "postgres".toList, [['a']], [(['o'], ['a'])]⟩ (by decide)
    ⟨[['a']], [(['o'], ['a'])], by decide⟩ (by decide) ⟨false, false⟩ welcome
    (.startup [("user".toList, ['u']), ("database".toList, ['b'])]) ['a'] (by decide) (by decide)
  exact absurd hpool (by decide)

end State

end Havuz
