import Havuz.Admission.Model
import Havuz.Families.Model
import Havuz.Lib.Interleave
import Havuz.Scram.Verifier

/-!
# Admission without a record

Reference: `StateAuthenticator` and `FamilyProber` in `havuz-pg/src/family.rs`, `cleartext` and the way to
`AuthenticationOk` in `havuz-pg/src/session.rs`, `EphemeralIdentities` in `havuz-pg/src/passthrough.rs`.

A name without a record is admitted on a passthrough pool on the word of the database, or on a verifier
remembered from it. What the word was given for is looked up several times on the way and not once more at
the end, and `reload_pool` keeps what was remembered. `Undisturbed` excludes that an update cuts the ground
from under a client or a remembered verifier, and then the admission is right at the moment it is made
(`passthrough_admits_the_vouched`).
-/

namespace Havuz.Passthrough

open Lib
open Admission (ClientAuth resolve passthroughAuth)
open Families (Fails)
open Scram (Primitives ScramVerifier normalize)

/-- A remembered verifier. The configuration is not part of the program: it is the one whose database
accepted the password. -/
structure Identity where
  verifier : ScramVerifier
  vouchedUnder : PoolConfig
deriving DecidableEq

/-- The database of this configuration accepted this login. -/
structure Acceptance where
  config : PoolConfig
  pool : Text
  user : Text
  password : Text
deriving DecidableEq

/-- An `AuthenticationOk` sent without a record, and what was the case then. -/
structure Sent where
  user : Text
  pool : Text
  password : Text
  store : State
  accepted : List Acceptance

structure Shared where
  store : State
  live : Families.Live
  /-- `EphemeralIdentities`, under pool and user. -/
  identities : SortedMap (Text ×ₗ Text) Identity := .empty
  /-- Not part of the program: every login a database accepted. -/
  accepted : List Acceptance := []
  /-- Not part of the program. -/
  sent : List Sent := []

/-- Where a client is. A client with a record is followed only to see that it has one. -/
inductive Pc where
  | arriving
  /-- Resolved, and asked for what its policy wants. -/
  | asked (auth : ClientAuth ScramVerifier) (recorded : Bool)
  /-- `admit` is called with the password. -/
  | offered (password : Text)
  /-- `admit` has found the pool in passthrough. -/
  | checked (password : Text)
  /-- The prober connects with the configuration it loaded. -/
  | proving (config : PoolConfig) (password : Text)
  | vouched (config : PoolConfig) (password : Text)
  | passed (password : Text) (recorded : Bool)
  | admitted
  | gone
deriving DecidableEq

structure Client where
  user : Text
  pool : Text
  pc : Pc := .arriving
deriving DecidableEq

inductive Move where
  | resolve
  /-- The password message arrives. -/
  | password (password : Text)
  /-- A SCRAM exchange ends. -/
  | scram (accepted : Bool)
  | go
  /-- The database answers the prober, or cannot be reached. -/
  | connected (accepted : Bool)
  /-- `learn`, with the salt it draws. -/
  | learn (salt : Bytes)
  /-- The client goes away or is sent away. -/
  | leave

/-- What the rest of the program does in one step. -/
inductive Admin where
  | update (change : State → State)
  | sync (fails : Fails)
  | reload (fails : Fails) (name : Text)
  /-- One pool's turn in `sweep_idle_users`: who has a live session or a connection group there is kept. -/
  | sweep (name : Text) (keep : Text → Bool)

/-! ## The remembered verifiers -/

/-- The pool admits names without a record: the test of `admit`. -/
def admits (config : PoolConfig) : Bool := config.backendAuth.isPassthrough && !config.disabled

def Shared.verifier (sh : Shared) (pool user : Text) : Option ScramVerifier :=
  (sh.identities.get (toLex (pool, user))).map Identity.verifier

/-- `EphemeralIdentities::retain`. -/
def Shared.retain (sh : Shared) (pool : Text) (keep : Text → Bool) : Shared :=
  { sh with identities := sh.identities.filter fun e => (ofLex e.1).1 ≠ pool || keep (ofLex e.1).2 }

/-- `forget_pool`, for every pool that left the map. -/
def Shared.settle (sh : Shared) (live : Families.Live) : Shared :=
  (live.forgotten.drop sh.live.forgotten.length).foldl (fun sh pool => sh.retain pool fun _ => false) { sh with live }

/-! ## Steps -/

section Act

variable (P : Primitives)

/-- `cleartext` with a verifier: the stored key is computed anew. -/
def verifies (verifier : ScramVerifier) (password : Text) : Bool :=
  (ScramVerifier.fromPasswordWith P password verifier.salt verifier.iterations).storedKey == verifier.storedKey

/-- One step of a client. -/
def act (m : Move) (sh : Shared) (c : Client) : Option (Shared × Client) :=
  match c.pc, m with
  | .arriving, .resolve =>
      match resolve (fun t => (ScramVerifier.parse P t).toOption) sh.store (sh.verifier c.pool c.user) c.user c.pool with
      | .ok auth => some (sh, { c with pc := .asked auth (sh.store.users.get c.user).isSome })
      | .error _ => some (sh, { c with pc := .gone })
  | .asked (.scram _) _, .scram accepted => some (sh, { c with pc := if accepted then .admitted else .gone })
  | .asked (.plaintext verifier _) recorded, .password password =>
      some (sh, { c with pc := if verifies P verifier password then .passed password recorded else .gone })
  | .asked (.unproven _) _, .password password => some (sh, { c with pc := .offered password })
  | .offered password, .go =>
      match (sh.store.pools.get c.pool).filter admits with
      | some _ => some (sh, { c with pc := .checked password })
      | none => some (sh, { c with pc := .gone })
  | .checked password, .go =>
      match (sh.store.pools.get c.pool).filter fun config => config.primary.isSome with
      | some config => some (sh, { c with pc := .proving config password })
      | none => some (sh, { c with pc := .gone })
  | .proving config password, .connected accepted =>
      if accepted then
        some ({ sh with accepted := ⟨config, c.pool, c.user, password⟩ :: sh.accepted },
          { c with pc := .vouched config password })
      else some (sh, { c with pc := .gone })
  | .vouched config password, .learn salt =>
      some ({ sh with
        identities := sh.identities.insert (toLex (c.pool, c.user))
          ⟨ScramVerifier.fromPassword P password salt, config⟩ }, { c with pc := .passed password false })
  | .passed password recorded, .go =>
      some (if recorded then sh
        else { sh with sent := ⟨c.user, c.pool, password, sh.store, sh.accepted⟩ :: sh.sent },
        { c with pc := .admitted })
  | _, .leave => some (sh, { c with pc := .gone })
  | _, _ => none

/-- `StateStore::update`: what is published afterwards. -/
def published (s : State) (change : State → State) : State :=
  if (change s).validate = .ok () then change s else s

def admin (sh : Shared) : Admin → Shared
  | .update change => { sh with store := published sh.store change }
  | .sync fails => sh.settle (sh.live.rebuild .pg fails sh.store).1
  | .reload fails name => sh.settle (sh.live.reload .pg fails name sh.store).1
  | .sweep name keep => if (sh.live.pools.get name).isSome then sh.retain name keep else sh

/-- One step of the system. -/
def step (w : Procs Shared Client) : (ℕ × Move) ⊕ Admin → Procs Shared Client
  | .inl l => w.step (act P) l
  | .inr a => { w with shared := admin w.shared a }

end Act

/-- Clients about to connect to a process that serves this state. -/
def listening (s : State) (live : Families.Live) (clients : List (Text × Text)) : Procs Shared Client :=
  ⟨{ store := s, live }, clients.map fun c => { user := c.1, pool := c.2 }⟩

/-! ## What an admission rests on -/

/-- The name has no record, the pool is an enabled passthrough pool, and the database of its configuration
accepted this user with this password, as SASLprep prepares it. -/
structure Entitled (P : Primitives) (store : State) (accepted : List Acceptance) (user pool password : Text) :
    Prop where
  unrecorded : store.users.get user = none
  vouched : ∃ config, store.pools.get pool = some config ∧ admits config = true ∧
    ∃ password', normalize P password' = normalize P password ∧ ⟨config, pool, user, password'⟩ ∈ accepted

/-! ## The condition -/

namespace Pc

/-- On its way to be admitted without a record. -/
def unrecorded : Pc → Bool
  | asked _ recorded => !recorded
  | offered _ => true
  | checked _ => true
  | proving _ _ => true
  | vouched _ _ => true
  | passed _ recorded => !recorded
  | _ => false

/-- On its way there with the word of a database or a verifier in hand. -/
def relies : Pc → Bool
  | asked (.plaintext _ _) recorded => !recorded
  | proving _ _ => true
  | vouched _ _ => true
  | passed _ recorded => !recorded
  | _ => false

/-- `admit` has looked at the pool and the prober has not yet. -/
def between : Pc → Bool
  | checked _ => true
  | _ => false

end Pc

/-- What an update that publishes `next` leaves alone: it gives no record to a name that is on its way without
one, does not change the pool of a client that relies on its configuration, does not take a pool out of
passthrough between `admit`'s look at it and the prober's, and leaves no verifier behind for an enabled
passthrough pool that was vouched for under another configuration. -/
structure Spares (sh : Shared) (cs : List Client) (next : State) : Prop where
  records : ∀ c ∈ cs, c.pc.unrecorded = true → next.users.get c.user = none
  pools : ∀ c ∈ cs, c.pc.relies = true → next.pools.get c.pool = sh.store.pools.get c.pool
  looks : ∀ c ∈ cs, c.pc.between = true → ((next.pools.get c.pool).filter admits).isSome = true
  identities : ∀ e ∈ sh.identities.entries, ∀ config ∈ next.pools.get (ofLex e.1).1,
    admits config = true → e.2.vouchedUnder = config

instance (sh : Shared) (cs : List Client) (next : State) : Decidable (Spares sh cs next) :=
  decidable_of_iff
    ((∀ c ∈ cs, c.pc.unrecorded = true → next.users.get c.user = none) ∧
      (∀ c ∈ cs, c.pc.relies = true → next.pools.get c.pool = sh.store.pools.get c.pool) ∧
      (∀ c ∈ cs, c.pc.between = true → ((next.pools.get c.pool).filter admits).isSome = true) ∧
      ∀ e ∈ sh.identities.entries, ∀ config ∈ next.pools.get (ofLex e.1).1,
        admits config = true → e.2.vouchedUnder = config)
    ⟨fun h => ⟨h.1, h.2.1, h.2.2.1, h.2.2.2⟩, fun h => ⟨h.records, h.pools, h.looks, h.identities⟩⟩

/-- The condition on a run: every update spares who is on the way and what is remembered. -/
def Undisturbed (w : Procs Shared Client) : (ℕ × Move) ⊕ Admin → Prop
  | .inr (.update change) => Spares w.shared w.procs (published w.shared.store change)
  | _ => True

instance (w : Procs Shared Client) (l : (ℕ × Move) ⊕ Admin) : Decidable (Undisturbed w l) :=
  match l with
  | .inr (.update change) => inferInstanceAs (Decidable (Spares w.shared w.procs (published w.shared.store change)))
  | .inr (.sync _) => .isTrue trivial
  | .inr (.reload _ _) => .isTrue trivial
  | .inr (.sweep _ _) => .isTrue trivial
  | .inl _ => .isTrue trivial

/-! ## The invariant -/

section Invariant

variable {P : Primitives} {passwords : List Text} {salts : List Bytes}

/-- The verifier was made from a password the database of this configuration accepted. -/
def MadeFrom (P : Primitives) (passwords : List Text) (salts : List Bytes) (accepted : List Acceptance)
    (config : PoolConfig) (pool user : Text) (verifier : ScramVerifier) : Prop :=
  ∃ password ∈ passwords, ∃ salt ∈ salts, verifier = ScramVerifier.fromPassword P password salt ∧
    ⟨config, pool, user, password⟩ ∈ accepted

/-- What is known of a client on its way to be admitted without a record. -/
def Ready (P : Primitives) (passwords : List Text) (salts : List Bytes) (store : State)
    (accepted : List Acceptance) (c : Client) : Prop :=
  match c.pc with
  | .asked (.plaintext verifier _) false => store.users.get c.user = none ∧
      ∃ config, store.pools.get c.pool = some config ∧ admits config = true ∧
        MadeFrom P passwords salts accepted config c.pool c.user verifier
  | .asked (.unproven _) recorded => recorded = false ∧ store.users.get c.user = none
  | .offered password => store.users.get c.user = none ∧ password ∈ passwords
  | .checked password => store.users.get c.user = none ∧ password ∈ passwords ∧
      ∃ config, store.pools.get c.pool = some config ∧ admits config = true
  | .proving config password => store.users.get c.user = none ∧ password ∈ passwords ∧
      store.pools.get c.pool = some config ∧ admits config = true
  | .vouched config password => store.users.get c.user = none ∧ password ∈ passwords ∧
      store.pools.get c.pool = some config ∧ admits config = true ∧
      ⟨config, c.pool, c.user, password⟩ ∈ accepted
  | .passed password false => Entitled P store accepted c.user c.pool password
  | _ => True

/-- What holds in every state of an undisturbed run. -/
structure Sound (P : Primitives) (passwords : List Text) (salts : List Bytes) (sh : Shared) (cs : List Client) :
    Prop where
  identities : ∀ e ∈ sh.identities.entries,
    MadeFrom P passwords salts sh.accepted e.2.vouchedUnder (ofLex e.1).1 (ofLex e.1).2 e.2.verifier ∧
      ∀ config ∈ sh.store.pools.get (ofLex e.1).1, admits config = true → e.2.vouchedUnder = config
  clients : ∀ c ∈ cs, Ready P passwords salts sh.store sh.accepted c
  sent : ∀ ok ∈ sh.sent, Entitled P ok.store ok.accepted ok.user ok.pool ok.password

variable {sh sh' : Shared} {c c' : Client} {cs others : List Client} {m : Move} {store : State}
  {accepted accepted' : List Acceptance}

theorem Entitled.mono {user pool password : Text} (h : Entitled P store accepted user pool password)
    (hsub : accepted ⊆ accepted') : Entitled P store accepted' user pool password where
  unrecorded := h.unrecorded
  vouched := by
    obtain ⟨config, hget, hadmits, password', hsame, hmem⟩ := h.vouched
    exact ⟨config, hget, hadmits, password', hsame, hsub hmem⟩

theorem MadeFrom.mono {config : PoolConfig} {pool user : Text} {verifier : ScramVerifier}
    (h : MadeFrom P passwords salts accepted config pool user verifier) (hsub : accepted ⊆ accepted') :
    MadeFrom P passwords salts accepted' config pool user verifier := by
  obtain ⟨password, hpassword, salt, hsalt, hverifier, hmem⟩ := h
  exact ⟨password, hpassword, salt, hsalt, hverifier, hsub hmem⟩

/-- More logins may be accepted. -/
theorem Ready.mono (h : Ready P passwords salts store accepted c) (hsub : accepted ⊆ accepted') :
    Ready P passwords salts store accepted' c := by
  unfold Ready at h ⊢
  split at h
  case h_1 =>
    obtain ⟨huser, config, hget, hadmits, hmade⟩ := h
    exact ⟨huser, config, hget, hadmits, hmade.mono hsub⟩
  case h_2 => exact h
  case h_3 => exact h
  case h_4 => exact h
  case h_5 => exact h
  case h_6 =>
    obtain ⟨huser, hpassword, hget, hadmits, hmem⟩ := h
    exact ⟨huser, hpassword, hget, hadmits, hsub hmem⟩
  case h_7 => exact h.mono hsub
  case h_8 => trivial

/-- An update that spares a client leaves it ready. -/
theorem Ready.update {next : State} (h : Ready P passwords salts store accepted c)
    (hrecords : c.pc.unrecorded = true → next.users.get c.user = none)
    (hpools : c.pc.relies = true → next.pools.get c.pool = store.pools.get c.pool)
    (hlooks : c.pc.between = true → ((next.pools.get c.pool).filter admits).isSome = true) :
    Ready P passwords salts next accepted c := by
  unfold Ready at h ⊢
  split at h
  case h_1 hpc =>
    obtain ⟨-, config, hget, hadmits, hmade⟩ := h
    rw [hpc] at hrecords hpools
    exact ⟨hrecords rfl, config, (hpools rfl).trans hget, hadmits, hmade⟩
  case h_2 recorded hpc =>
    rw [hpc] at hrecords
    obtain ⟨rfl, -⟩ := h
    exact ⟨rfl, hrecords rfl⟩
  case h_3 hpc =>
    rw [hpc] at hrecords
    exact ⟨hrecords rfl, h.2⟩
  case h_4 hpc =>
    rw [hpc] at hrecords hlooks
    obtain ⟨config, hconfig⟩ := Option.isSome_iff_exists.mp (hlooks rfl)
    exact ⟨hrecords rfl, h.2.1, config, Option.filter_eq_some_iff.mp hconfig⟩
  case h_5 hpc =>
    rw [hpc] at hrecords hpools
    exact ⟨hrecords rfl, h.2.1, (hpools rfl).trans h.2.2.1, h.2.2.2⟩
  case h_6 hpc =>
    rw [hpc] at hrecords hpools
    exact ⟨hrecords rfl, h.2.1, (hpools rfl).trans h.2.2.1, h.2.2.2⟩
  case h_7 hpc =>
    rw [hpc] at hrecords hpools
    obtain ⟨config, hget, hrest⟩ := h.vouched
    exact ⟨hrecords rfl, config, (hpools rfl).trans hget, hrest⟩
  case h_8 => trivial

/-- Nothing is known of a client at these places, and nothing has to be. -/
def Pc.quiet : Pc → Bool
  | .passed _ recorded => recorded
  | .admitted => true
  | .gone => true
  | _ => false

theorem Ready.of_quiet (h : c.pc.quiet = true) : Ready P passwords salts store accepted c := by
  unfold Ready
  split
  case h_7 hpc => rw [hpc] at h; cases h
  case h_8 => trivial
  all_goals
    rename_i hpc
    rw [hpc] at h
    cases h

/-! ### One step -/

/-- All that a client can do. -/
inductive Course (P : Primitives) (m : Move) (sh : Shared) (c : Client) : Shared → Client → Prop where
  | resolves (auth : ClientAuth ScramVerifier) :
      resolve (fun t => (ScramVerifier.parse P t).toOption) sh.store (sh.verifier c.pool c.user) c.user c.pool =
        .ok auth →
      Course P m sh c sh { c with pc := .asked auth (sh.store.users.get c.user).isSome }
  | verifies (verifier : ScramVerifier) (allow : Bool) (password : Text) :
      c.pc = .asked (.plaintext verifier allow) false → m = .password password →
      verifies P verifier password = true → Course P m sh c sh { c with pc := .passed password false }
  | offers (allow recorded : Bool) (password : Text) : c.pc = .asked (.unproven allow) recorded →
      m = .password password → Course P m sh c sh { c with pc := .offered password }
  | checks (password : Text) (config : PoolConfig) : c.pc = .offered password →
      sh.store.pools.get c.pool = some config → admits config = true →
      Course P m sh c sh { c with pc := .checked password }
  | loads (password : Text) (config : PoolConfig) : c.pc = .checked password →
      sh.store.pools.get c.pool = some config → Course P m sh c sh { c with pc := .proving config password }
  | accepts (config : PoolConfig) (password : Text) : c.pc = .proving config password →
      Course P m sh c { sh with accepted := ⟨config, c.pool, c.user, password⟩ :: sh.accepted }
        { c with pc := .vouched config password }
  | learns (config : PoolConfig) (password : Text) (salt : Bytes) : c.pc = .vouched config password →
      m = .learn salt →
      Course P m sh c { sh with
        identities := sh.identities.insert (toLex (c.pool, c.user))
          ⟨ScramVerifier.fromPassword P password salt, config⟩ } { c with pc := .passed password false }
  | sends (password : Text) : c.pc = .passed password false →
      Course P m sh c { sh with sent := ⟨c.user, c.pool, password, sh.store, sh.accepted⟩ :: sh.sent }
        { c with pc := .admitted }
  | quiets (pc : Pc) : pc.quiet = true → Course P m sh c sh { c with pc }

theorem act_course (h : act P m sh c = some (sh', c')) : Course P m sh c sh' c' := by
  unfold act at h
  split at h
  case h_1 =>
    split at h
    case h_1 auth hauth =>
      cases h
      exact .resolves auth hauth
    case h_2 =>
      cases h
      exact .quiets .gone rfl
  case h_2 accepted hpc =>
    cases h
    cases accepted
    · exact .quiets .gone rfl
    · exact .quiets .admitted rfl
  case h_3 verifier allow recorded password hpc =>
    cases h
    split
    case isTrue hverifies =>
      cases recorded
      · exact .verifies verifier allow password hpc rfl hverifies
      · exact .quiets (.passed password true) rfl
    case isFalse => exact .quiets .gone rfl
  case h_4 allow recorded password hpc =>
    cases h
    exact .offers allow recorded password hpc rfl
  case h_5 password hpc =>
    split at h
    case h_1 config hconfig =>
      cases h
      obtain ⟨hget, hadmits⟩ := Option.filter_eq_some_iff.mp hconfig
      exact .checks password config hpc hget hadmits
    case h_2 =>
      cases h
      exact .quiets .gone rfl
  case h_6 password hpc =>
    split at h
    case h_1 config hconfig =>
      cases h
      exact .loads password config hpc (Option.filter_eq_some_iff.mp hconfig).1
    case h_2 =>
      cases h
      exact .quiets .gone rfl
  case h_7 config password accepted hpc =>
    split at h
    case isTrue =>
      cases h
      exact .accepts config password hpc
    case isFalse =>
      cases h
      exact .quiets .gone rfl
  case h_8 config password salt hpc =>
    cases h
    exact .learns config password salt hpc rfl
  case h_9 password recorded hpc =>
    cases h
    cases recorded
    · exact .sends password hpc
    · exact .quiets .admitted rfl
  case h_10 =>
    cases h
    exact .quiets .gone rfl
  case h_11 => cases h

/-- Of the passwords and salts of a run, no two passwords share a stored key but those SASLprep makes equal. -/
def TellsApart (P : Primitives) (passwords : List Text) (salts : List Bytes) : Prop :=
  ∀ p ∈ passwords, ∀ q ∈ passwords, ∀ salt ∈ salts,
    (ScramVerifier.fromPassword P p salt).storedKey = (ScramVerifier.fromPassword P q salt).storedKey →
      normalize P p = normalize P q

theorem Sound.perm (h : Sound P passwords salts sh cs) {cs' : List Client} (hperm : cs.Perm cs') :
    Sound P passwords salts sh cs' where
  identities := h.identities
  clients c hc := h.clients c (hperm.mem_iff.mpr hc)
  sent := h.sent

/-- Where the store stays, only the client that moves and what it writes are in question. -/
theorem Sound.moved (h : Sound P passwords salts sh (c :: others)) (hstore : sh'.store = sh.store)
    (haccepted : sh.accepted ⊆ sh'.accepted)
    (hidentities : ∀ e ∈ sh'.identities.entries, e ∈ sh.identities.entries ∨
      MadeFrom P passwords salts sh'.accepted e.2.vouchedUnder (ofLex e.1).1 (ofLex e.1).2 e.2.verifier ∧
        ∀ config ∈ sh.store.pools.get (ofLex e.1).1, admits config = true → e.2.vouchedUnder = config)
    (hready : Ready P passwords salts sh.store sh'.accepted c')
    (hsent : ∀ ok ∈ sh'.sent, ok ∈ sh.sent ∨ Entitled P ok.store ok.accepted ok.user ok.pool ok.password) :
    Sound P passwords salts sh' (c' :: others) := by
  constructor
  · intro e he
    rw [hstore]
    rcases hidentities e he with he | hnew
    · obtain ⟨hmade, hconfig⟩ := h.identities e he
      exact ⟨hmade.mono haccepted, hconfig⟩
    · exact hnew
  · intro q hq
    rw [hstore]
    rcases List.mem_cons.mp hq with rfl | hq
    · exact hready
    · exact (h.clients q (List.mem_cons_of_mem _ hq)).mono haccepted
  · intro ok hok
    rcases hsent ok hok with hok | hnew
    · exact h.sent ok hok
    · exact hnew

/-- Where nothing is written, only the client that moves is. -/
theorem Sound.still (h : Sound P passwords salts sh (c :: others))
    (hready : Ready P passwords salts sh.store sh.accepted c') : Sound P passwords salts sh (c' :: others) :=
  h.moved rfl (List.Subset.refl _) (fun _ he => .inl he) hready fun _ hok => .inl hok

/-- A client that is resolved without a record relies on the pool and on who vouched for the verifier. -/
theorem Sound.resolved (h : Sound P passwords salts sh cs) {auth : ClientAuth ScramVerifier} {user pool : Text}
    (hauth : resolve (fun t => (ScramVerifier.parse P t).toOption) sh.store (sh.verifier pool user) user pool =
      .ok auth) :
    Ready P passwords salts sh.store sh.accepted
      ⟨user, pool, .asked auth (sh.store.users.get user).isSome⟩ := by
  cases hrecord : sh.store.users.get user with
  | some record =>
    cases auth with
    | scram verifier => trivial
    | plaintext verifier allow => trivial
    | unproven allow =>
      rw [Admission.not_unproven_of_record hauth] at hrecord
      cases hrecord
  | none =>
    obtain ⟨config, hpool, henabled, hpass, rfl⟩ := Admission.resolve_without_record hauth hrecord
    unfold passthroughAuth
    cases hknown : sh.verifier pool user with
    | none => exact ⟨rfl, hrecord⟩
    | some verifier =>
      obtain ⟨identity, hget, rfl⟩ := Option.map_eq_some_iff.mp hknown
      obtain ⟨hmade, hconfig⟩ := h.identities _ (SortedMap.mem_of_get hget)
      have hadmits : admits config = true := by simp [admits, hpass, henabled]
      have hsame : identity.vouchedUnder = config := hconfig config hpool hadmits
      rw [hsame] at hmade
      exact ⟨hrecord, config, hpool, hadmits, hmade⟩

theorem Sound.course (h : Sound P passwords salts sh (c :: others)) (hcourse : Course P m sh c sh' c')
    (htells : TellsApart P passwords salts) (hpassword : ∀ password, m = .password password → password ∈ passwords)
    (hsalt : ∀ salt, m = .learn salt → salt ∈ salts) : Sound P passwords salts sh' (c' :: others) := by
  have hready := h.clients c List.mem_cons_self
  unfold Ready at hready
  cases hcourse with
  | resolves auth hauth => exact h.still (h.resolved hauth)
  | verifies verifier allow password hpc hm hverifies =>
    rw [hpc] at hready
    obtain ⟨huser, config, hget, hadmits, password', hpassword', salt, hsalt', rfl, hmem⟩ := hready
    apply h.still
    have hkey := beq_iff_eq.mp hverifies
    exact ⟨huser, config, hget, hadmits, password',
      htells password' hpassword' password (hpassword password hm) salt hsalt' hkey.symm, hmem⟩
  | offers allow recorded password hpc hm =>
    rw [hpc] at hready
    apply h.still
    exact ⟨hready.2, hpassword password hm⟩
  | checks password config hpc hget hadmits =>
    rw [hpc] at hready
    apply h.still
    exact ⟨hready.1, hready.2, config, hget, hadmits⟩
  | loads password config hpc hget =>
    rw [hpc] at hready
    obtain ⟨huser, hmem, config', hget', hadmits⟩ := hready
    rw [hget] at hget'
    cases hget'
    apply h.still
    exact ⟨huser, hmem, hget, hadmits⟩
  | accepts config password hpc =>
    rw [hpc] at hready
    obtain ⟨huser, hmem, hget, hadmits⟩ := hready
    refine h.moved rfl (List.subset_cons_self ..) (fun _ he => .inl he) ?_ fun _ hok => .inl hok
    exact ⟨huser, hmem, hget, hadmits, List.mem_cons_self⟩
  | learns config password salt hpc hm =>
    rw [hpc] at hready
    obtain ⟨huser, hmem, hget, hadmits, haccepted⟩ := hready
    refine h.moved rfl (List.Subset.refl _) ?_ ?_ fun _ hok => .inl hok
    · intro e he
      rcases SortedMap.mem_insertEntry he with rfl | he
      · refine .inr ⟨⟨password, hmem, salt, hsalt salt hm, rfl, haccepted⟩, fun config' hconfig' _ => ?_⟩
        have hsame : some config' = some config := hconfig'.symm.trans hget
        exact (Option.some.inj hsame).symm
      · exact .inl he
    · exact ⟨huser, config, hget, hadmits, password, rfl, haccepted⟩
  | sends password hpc =>
    rw [hpc] at hready
    refine h.moved rfl (List.Subset.refl _) (fun _ he => .inl he) trivial ?_
    intro ok hok
    rcases List.mem_cons.mp hok with rfl | hok
    · exact .inr hready
    · exact .inl hok
  | quiets pc hpc => exact h.still (.of_quiet hpc)

/-- Fewer verifiers may be remembered. -/
theorem Sound.fewer (h : Sound P passwords salts sh cs) (hstore : sh'.store = sh.store)
    (haccepted : sh'.accepted = sh.accepted) (hsent : sh'.sent = sh.sent)
    (hsub : sh'.identities.entries ⊆ sh.identities.entries) : Sound P passwords salts sh' cs := by
  constructor
  · intro e he
    rw [hstore, haccepted]
    exact h.identities e (hsub he)
  · rw [hstore, haccepted]
    exact h.clients
  · rw [hsent]
    exact h.sent

theorem Sound.retain (h : Sound P passwords salts sh cs) (pool : Text) (keep : Text → Bool) :
    Sound P passwords salts (sh.retain pool keep) cs :=
  h.fewer rfl rfl rfl (List.filter_subset_self _)

theorem Sound.settle (h : Sound P passwords salts sh cs) (live : Families.Live) :
    Sound P passwords salts (sh.settle live) cs := by
  unfold Shared.settle
  have hlive : Sound P passwords salts { sh with live } cs := h.fewer rfl rfl rfl (List.Subset.refl _)
  generalize { sh with live } = sh' at hlive
  generalize live.forgotten.drop sh.live.forgotten.length = forgotten
  induction forgotten generalizing sh' with
  | nil => exact hlive
  | cons pool rest ih =>
    rw [List.foldl_cons]
    exact ih _ (hlive.retain pool _)

theorem Sound.update (h : Sound P passwords salts sh cs) {next : State} (hspares : Spares sh cs next) :
    Sound P passwords salts { sh with store := next } cs where
  identities e he := ⟨(h.identities e he).1, hspares.identities e he⟩
  clients c hc := (h.clients c hc).update (hspares.records c hc) (hspares.pools c hc) (hspares.looks c hc)
  sent := h.sent

/-- The passwords and the salts of a run. -/
def passwordsOf (ls : List ((ℕ × Move) ⊕ Admin)) : List Text :=
  ls.filterMap fun l =>
    match l with
    | .inl (_, .password password) => some password
    | _ => none

def saltsOf (ls : List ((ℕ × Move) ⊕ Admin)) : List Bytes :=
  ls.filterMap fun l =>
    match l with
    | .inl (_, .learn salt) => some salt
    | _ => none

variable {w : Procs Shared Client}

theorem Sound.step {ls : List ((ℕ × Move) ⊕ Admin)} {l : (ℕ × Move) ⊕ Admin}
    (h : Sound P (passwordsOf ls) (saltsOf ls) w.shared w.procs) (htells : TellsApart P (passwordsOf ls) (saltsOf ls))
    (hok : Undisturbed w l) (hmem : l ∈ ls) :
    Sound P (passwordsOf ls) (saltsOf ls) (step P w l).shared (step P w l).procs := by
  rcases l with ⟨i, m⟩ | a
  · obtain hsame | ⟨c, sh', c', hc, hact, hstep⟩ := w.step_cases (act P) (i, m)
    · rw [Passthrough.step, hsame]
      exact h
    · rw [Passthrough.step, hstep]
      have hpassword : ∀ password, m = .password password → password ∈ passwordsOf ls := by
        rintro password rfl
        exact List.mem_filterMap.mpr ⟨_, hmem, rfl⟩
      have hsalt : ∀ salt, m = .learn salt → salt ∈ saltsOf ls := by
        rintro salt rfl
        exact List.mem_filterMap.mpr ⟨_, hmem, rfl⟩
      have hmoved := (h.perm (perm_eraseIdx hc)).course (act_course hact) htells hpassword hsalt
      exact hmoved.perm (set_perm_eraseIdx c' hc).symm
  · cases a with
    | update change => exact h.update hok
    | sync fails => exact h.settle _
    | reload fails name => exact h.settle _
    | sweep name keep =>
      by_cases hlive : (w.shared.live.pools.get name).isSome = true
      · have hadmin : admin w.shared (.sweep name keep) = w.shared.retain name keep := if_pos hlive
        rw [Passthrough.step, hadmin]
        exact h.retain name keep
      · have hadmin : admin w.shared (.sweep name keep) = w.shared := if_neg hlive
        rw [Passthrough.step, hadmin]
        exact h

theorem sound_listening (s : State) (live : Families.Live) (clients : List (Text × Text)) :
    Sound P passwords salts (listening s live clients).shared (listening s live clients).procs where
  identities e he := by cases he
  clients c hc := by
    obtain ⟨name, -, rfl⟩ := List.mem_map.mp hc
    trivial
  sent ok hok := by cases hok

end Invariant

/-! ## In an undisturbed run -/

/-- **Passthrough admits the vouched.** In every undisturbed run of clients, updates, reloads and sweeps, in
which no two passwords share a stored key but those SASLprep makes equal: whoever was sent `AuthenticationOk`
without a record had none at that moment, on an enabled passthrough pool whose database, as the pool was
configured at that moment, had accepted this user with this password. -/
theorem passthrough_admits_the_vouched (P : Primitives) (s : State) (live : Families.Live) (clients : List (Text × Text))
    {ls : List ((ℕ × Move) ⊕ Admin)} (htells : TellsApart P (passwordsOf ls) (saltsOf ls))
    (hrun : Along (step P) Undisturbed (listening s live clients) ls) :
    ∀ ok ∈ (run (step P) (listening s live clients) ls).shared.sent,
      Entitled P ok.store ok.accepted ok.user ok.pool ok.password := by
  have hsound : Sound P (passwordsOf ls) (saltsOf ls) (run (step P) (listening s live clients) ls).shared
      (run (step P) (listening s live clients) ls).procs := by
    apply hrun.with_labels.invariant
      (I := fun w => Sound P (passwordsOf ls) (saltsOf ls) w.shared w.procs)
    · rintro w l hw ⟨hok, hmem⟩
      exact hw.step htells hok hmem
    · exact sound_listening s live clients
  exact hsound.sent

/-- A passthrough pool `p` that has no users yet. -/
def open_ : State where
  version := stateVersion
  pools := SortedMap.empty.insert ['p']
    { family := "postgres".toList, mode := .transaction, targets := [⟨"db".toList, 5432, .primary⟩],
      listenPort := 6432, backendAuth := .passthrough }
  users := .empty
  secrets := .empty

/-- A client's way to `AuthenticationOk` on the word of the database. -/
def vouchedFor (i : ℕ) : List ((ℕ × Move) ⊕ Admin) :=
  [.inl (i, .resolve), .inl (i, .password ['k']), .inl (i, .go), .inl (i, .go), .inl (i, .connected true),
    .inl (i, .learn []), .inl (i, .go)]

/-- The update that gives `u` a record, a disabled one. -/
def recordU (s : State) : State := { s with users := s.users.insert ['u'] { pools := [['p']], disabled := true } }

/-- One client is admitted after a sync and before a sweep. -/
theorem passthrough_admits_the_vouched_once :
    ∃ ok ∈ (run (step Scram.sums) (listening open_ .empty [(['u'], ['p'])])
        (.inr (.sync fun _ _ => none) :: (vouchedFor 0 ++ [.inr (.sweep ['p'] fun _ => false)]))).shared.sent,
      Entitled Scram.sums ok.store ok.accepted ok.user ok.pool ok.password := by
  have hrun : Along (step Scram.sums) Undisturbed (listening open_ .empty [(['u'], ['p'])])
      (.inr (.sync fun _ _ => none) :: (vouchedFor 0 ++ [.inr (.sweep ['p'] fun _ => false)])) := by decide
  have hsent : (run (step Scram.sums) (listening open_ .empty [(['u'], ['p'])])
      (.inr (.sync fun _ _ => none) :: (vouchedFor 0 ++ [.inr (.sweep ['p'] fun _ => false)]))).shared.sent ≠ [] := by
    decide
  obtain ⟨ok, hok⟩ := List.exists_mem_of_ne_nil _ hsent
  exact ⟨ok, hok, passthrough_admits_the_vouched Scram.sums open_ .empty [(['u'], ['p'])]
    (by simp [TellsApart, passwordsOf, saltsOf, vouchedFor]) hrun ok hok⟩

/-- The claim that no other admission is ever made fails: the user gets a record, a disabled one, while its
client is asked for the password, and `admit` looks at the pool only. -/
theorem not_passthrough_admits_the_vouched :
    ¬ ∀ (P : Primitives) (s : State), s.validate = .ok () → ∀ (live : Families.Live) (clients : List (Text × Text))
      (ls : List ((ℕ × Move) ⊕ Admin)), TellsApart P (passwordsOf ls) (saltsOf ls) →
      ∀ ok ∈ (run (step P) (listening s live clients) ls).shared.sent,
        Entitled P ok.store ok.accepted ok.user ok.pool ok.password := by
  intro hclaim
  have hall := hclaim Scram.sums open_ (by decide) .empty [(['u'], ['p'])]
    [.inl (0, .resolve), .inl (0, .password ['k']), .inr (.update recordU), .inl (0, .go), .inl (0, .go),
      .inl (0, .connected true), .inl (0, .learn []), .inl (0, .go)]
    (by simp [TellsApart, passwordsOf, saltsOf])
  have hnone := fun ok hok => (hall ok hok).unrecorded
  revert hnone
  decide

end Havuz.Passthrough
