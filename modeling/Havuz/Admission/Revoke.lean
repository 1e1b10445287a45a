import Havuz.Admission.Model
import Havuz.Lib.Interleave

/-!
# Revoking access

Reference: the way of a client from `resolve` to `register` in `havuz-pg/src/session.rs` and `family.rs`,
`SessionRegistry` in `havuz-control/src/sessions.rs`, `update_user`, `kick_user` and `kick_pool` in
`havuz-admin/src/routes.rs`.

A client reads the state twice, when it is resolved and when its policy is, and enters the registry after
both; a kick ends who is in the registry. A client that was resolved before the change and registers after
the kick is missed. `Prompt` excludes that, and then a kick is final (`kick_is_final`).
-/

namespace Havuz.Admission

open Lib

variable {V : Type}

/-- A session in the registry. The two revisions are not part of the program: they say which published
states admitted it and gave it its policy. -/
structure Entry where
  id : ℕ
  user : Text
  pool : Text
  policy : ResolvedPolicy
  kicked : Bool := false
  resolvedAt : ℕ
  policyAt : ℕ
deriving DecidableEq, Repr

/-- Where a connecting client is. The numbers are revisions, as in `Entry`. -/
inductive Pc (V : Type) where
  | arriving
  /-- Proves who it is; every round is waited for. -/
  | resolved (auth : ClientAuth V) (resolvedAt : ℕ)
  /-- Was sent `AuthenticationOk`. -/
  | authenticated (resolvedAt : ℕ)
  | configured (policy : ResolvedPolicy) (resolvedAt policyAt : ℕ)
  | registered (id : ℕ)
  | gone
deriving DecidableEq, Repr

structure Client (V : Type) where
  user : Text
  pool : Text
  pc : Pc V := .arriving
deriving DecidableEq, Repr

structure Shared where
  store : State
  /-- Bumped on every published change. -/
  revision : ℕ := 0
  sessions : List Entry := []
  nextId : ℕ := 1
  /-- Not part of the program: the revision that last restricted a user on a pool. -/
  lastRestriction : Text → Text → ℕ := fun _ _ => 0

inductive Move (V : Type) where
  /-- `resolve`, which finds this verifier among the vouched-for ones. -/
  | resolve (known : Option V)
  /-- The exchange the authenticator asked for comes to an end. -/
  | exchange (accepted : Bool)
  | go
  /-- The client leaves or is sent away. -/
  | leave

/-- What an admin request does in one step. -/
inductive Admin where
  | update (change : State → State)
  /-- The handler of that name. -/
  | kickUser (user : Text)
  /-- The last step of `update_user` with `kick`. -/
  | kickUpdated (user : Text)
  | kickPool (pool : Text)

/-! ## The registry -/

/-- `SessionRegistry::register`. -/
def Shared.register (sh : Shared) (user pool : Text) (policy : ResolvedPolicy) (resolvedAt policyAt : ℕ) :
    Option (Shared × ℕ) :=
  if policy.sessionLimit > 0 && decide (policy.sessionLimit ≤ (sh.sessions.filter fun e => e.user = user).length)
  then none
  else
    some ({ sh with
      sessions := sh.sessions ++ [{ id := sh.nextId, user, pool, policy, resolvedAt, policyAt }]
      nextId := sh.nextId + 1 }, sh.nextId)

/-- `SessionRegistry::signal`. -/
def Shared.signal (sh : Shared) (picks : Entry → Bool) : Shared :=
  { sh with sessions := sh.sessions.map fun e => if picks e then { e with kicked := true } else e }

/-- `SessionRegistry::deregister`. -/
def Shared.deregister (sh : Shared) (id : ℕ) : Shared :=
  { sh with sessions := sh.sessions.filter fun e => e.id ≠ id }

/-! ## Steps -/

/-- The second state takes from the user on this pool what the first one allowed: the user is disabled or
deleted, the grant is gone, the user or the pool has become read-only. -/
def restricts (s s' : State) (user pool : Text) : Bool :=
  (match s.users.get user, s'.users.get user with
    | some _, none => true
    | some before, some after =>
        (after.disabled && !before.disabled) || (before.pools.contains pool && !after.pools.contains pool) ||
          (after.readOnly && !before.readOnly)
    | none, _ => false) ||
  match s.pools.get pool, s'.pools.get pool with
    | some before, some after => after.readOnly && !before.readOnly
    | _, _ => false

/-- `StateStore::update`: a valid state is published. -/
def Shared.update (sh : Shared) (change : State → State) : Shared :=
  let next := change sh.store
  if next.validate = .ok () then
    { sh with
      store := next
      revision := sh.revision + 1
      lastRestriction := fun user pool =>
        if restricts sh.store next user pool then sh.revision + 1 else sh.lastRestriction user pool }
  else sh

namespace Admin

/-- The kick is about this user on this pool. -/
def covers (user pool : Text) : Admin → Bool
  | update _ => false
  | kickUser name => name = user
  | kickUpdated name => name = user
  | kickPool name => name = pool

/-- The handler finds what it is to act on; otherwise it answers 404. -/
def found (s : State) : Admin → Bool
  | update _ => true
  | kickUser name => (s.users.get name).isSome
  | kickUpdated _ => true
  | kickPool name => (s.pools.get name).isSome

end Admin

def admin (sh : Shared) (a : Admin) : Shared :=
  match a with
  | .update change => sh.update change
  | .kickUser name => if a.found sh.store then sh.signal fun e => e.user = name else sh
  | .kickUpdated name => sh.signal fun e => e.user = name
  | .kickPool name => if a.found sh.store then sh.signal fun e => e.pool = name else sh

section Act

variable (parse : Text → Option V)

/-- One step of a client. -/
def act (m : Move V) (sh : Shared) (c : Client V) : Option (Shared × Client V) :=
  match c.pc, m with
  | .arriving, .resolve known =>
      match resolve parse sh.store known c.user c.pool with
      | .ok auth => some (sh, { c with pc := .resolved auth sh.revision })
      | .error _ => some (sh, { c with pc := .gone })
  | .resolved _ r, .exchange accepted =>
      some (sh, { c with pc := if accepted then .authenticated r else .gone })
  | .authenticated r, .go =>
      some (sh, { c with pc := .configured (sessionPolicy sh.store c.pool c.user) r sh.revision })
  | .configured policy r q, .go =>
      match sh.register c.user c.pool policy r q with
      | some (sh, id) => some (sh, { c with pc := .registered id })
      | none => some (sh, { c with pc := .gone })
  | .registered id, .leave => some (sh.deregister id, { c with pc := .gone })
  | _, .leave => some (sh, { c with pc := .gone })
  | _, _ => none

/-- One step of the system: of a client, or of an admin request. -/
def step (w : Procs Shared (Client V)) : (ℕ × Move V) ⊕ Admin → Procs Shared (Client V)
  | .inl l => w.step (act parse) l
  | .inr a => { w with shared := admin w.shared a }

end Act

/-- Clients about to connect to a process that serves this state. -/
def listening (s : State) (clients : List (Text × Text)) : Procs Shared (Client V) :=
  ⟨{ store := s }, clients.map fun c => { user := c.1, pool := c.2 }⟩

/-! ## The condition -/

/-- The revision a client was resolved under, while it is not in the registry yet. -/
def Pc.resolvedAt : Pc V → Option ℕ
  | .resolved _ r => some r
  | .authenticated r => some r
  | .configured _ r _ => some r
  | _ => none

/-- The condition for a kick to be final: it finds the user or pool it names, and nobody it is about is
between `resolve` and `register` who was resolved before the last change that restricted it. -/
structure Prompt (w : Procs Shared (Client V)) (l : (ℕ × Move V) ⊕ Admin) : Prop where
  found : ∀ a, l = .inr a → a.found w.shared.store = true
  nobody : ∀ a, l = .inr a → ∀ c ∈ w.procs, a.covers c.user c.pool = true → ∀ r ∈ c.pc.resolvedAt,
    w.shared.lastRestriction c.user c.pool ≤ r

instance (w : Procs Shared (Client V)) (l : (ℕ × Move V) ⊕ Admin) : Decidable (Prompt w l) :=
  match l with
  | .inl _ => .isTrue ⟨fun _ h => (by cases h), fun _ h => (by cases h)⟩
  | .inr a =>
      decidable_of_iff
        (a.found w.shared.store = true ∧ ∀ c ∈ w.procs, a.covers c.user c.pool = true →
          ∀ r ∈ c.pc.resolvedAt, w.shared.lastRestriction c.user c.pool ≤ r)
        ⟨fun h => ⟨fun _ ha => by cases ha; exact h.1, fun _ ha => by cases ha; exact h.2⟩,
          fun h => ⟨h.found a rfl, h.nobody a rfl⟩⟩

/-! ## One step -/

section Step

variable {parse : Text → Option V} {sh sh' : Shared} {c c' : Client V} {m : Move V}

/-- All that a client can do. -/
inductive Course (parse : Text → Option V) (sh : Shared) (c : Client V) : Shared → Client V → Prop where
  | resolves (known : Option V) (auth : ClientAuth V) :
      resolve parse sh.store known c.user c.pool = .ok auth →
      Course parse sh c sh { c with pc := .resolved auth sh.revision }
  | authenticates (auth : ClientAuth V) (r : ℕ) : c.pc = .resolved auth r →
      Course parse sh c sh { c with pc := .authenticated r }
  | configures (r : ℕ) : c.pc = .authenticated r →
      Course parse sh c sh { c with pc := .configured (sessionPolicy sh.store c.pool c.user) r sh.revision }
  | registers (policy : ResolvedPolicy) (r q : ℕ) (sh' : Shared) (id : ℕ) : c.pc = .configured policy r q →
      sh.register c.user c.pool policy r q = some (sh', id) →
      Course parse sh c sh' { c with pc := .registered id }
  | deregisters (id : ℕ) : c.pc = .registered id → Course parse sh c (sh.deregister id) { c with pc := .gone }
  | ends : Course parse sh c sh { c with pc := .gone }

theorem act_course (h : act parse m sh c = some (sh', c')) : Course parse sh c sh' c' := by
  unfold act at h
  split at h
  case h_1 hpc =>
    split at h
    case h_1 auth hauth =>
      cases h
      exact .resolves _ auth hauth
    case h_2 =>
      cases h
      exact .ends
  case h_2 auth r accepted hpc =>
    split at h
    case isTrue =>
      cases h
      exact .authenticates auth r hpc
    case isFalse =>
      cases h
      exact .ends
  case h_3 r hpc =>
    cases h
    exact .configures r hpc
  case h_4 policy r q hpc =>
    split at h
    case h_1 sh'' id hregister =>
      cases h
      exact .registers policy r q sh' id hpc hregister
    case h_2 =>
      cases h
      exact .ends
  case h_5 id hpc =>
    cases h
    exact .deregisters id hpc
  case h_6 =>
    cases h
    exact .ends
  case h_7 => cases h

/-- All that an admin request can do. -/
theorem admin_cases (sh : Shared) (a : Admin) :
    admin sh a = sh ∨ (∃ change, admin sh a = sh.update change) ∨ ∃ picks, admin sh a = sh.signal picks := by
  cases a with
  | update change => exact .inr (.inl ⟨change, rfl⟩)
  | kickUser name =>
      by_cases h : Admin.found sh.store (.kickUser name) = true
      · exact .inr (.inr ⟨fun e => e.user = name, if_pos h⟩)
      · exact .inl (if_neg h)
  | kickUpdated name => exact .inr (.inr ⟨fun e => e.user = name, rfl⟩)
  | kickPool name =>
      by_cases h : Admin.found sh.store (.kickPool name) = true
      · exact .inr (.inr ⟨fun e => e.pool = name, if_pos h⟩)
      · exact .inl (if_neg h)

theorem step_cases (parse : Text → Option V) (w : Procs Shared (Client V)) (l : (ℕ × Move V) ⊕ Admin) :
    step parse w l = w ∨
      (∃ i c sh' c', w.procs[i]? = some c ∧ Course parse w.shared c sh' c' ∧
        step parse w l = ⟨sh', w.procs.set i c'⟩) ∨
      ∃ a, l = .inr a ∧ step parse w l = { w with shared := admin w.shared a } := by
  rcases l with l | a
  · obtain hsame | ⟨c, sh', c', hc, hact, hstep⟩ := w.step_cases (act parse) l
    · exact .inl hsame
    · exact .inr (.inl ⟨l.1, c, sh', c', hc, act_course hact, hstep⟩)
  · exact .inr (.inr ⟨a, rfl, rfl⟩)

theorem register_eq_some {user pool : Text} {policy : ResolvedPolicy} {r q id : ℕ}
    (h : sh.register user pool policy r q = some (sh', id)) :
    sh' = { sh with
      sessions := sh.sessions ++ [{ id := sh.nextId, user, pool, policy, resolvedAt := r, policyAt := q }]
      nextId := sh.nextId + 1 } := by
  unfold Shared.register at h
  split at h
  case isTrue => cases h
  case isFalse =>
    cases h
    rfl

/-! ## Revisions -/

/-- The revisions a client carries are in order, and none is ahead of the published one. -/
def Pc.Ordered (revision : ℕ) : Pc V → Prop
  | .resolved _ r => r ≤ revision
  | .authenticated r => r ≤ revision
  | .configured _ r q => r ≤ q ∧ q ≤ revision
  | _ => True

theorem Pc.Ordered.mono {pc : Pc V} {n n' : ℕ} (h : pc.Ordered n) (hle : n ≤ n') : pc.Ordered n' := by
  cases pc with
  | arriving => trivial
  | resolved auth r => exact Nat.le_trans h hle
  | authenticated r => exact Nat.le_trans h hle
  | configured policy r q => exact ⟨h.1, Nat.le_trans h.2 hle⟩
  | registered id => trivial
  | gone => trivial

/-- What holds in every state of every run. -/
structure Ordered (w : Procs Shared (Client V)) : Prop where
  restriction : ∀ user pool, w.shared.lastRestriction user pool ≤ w.shared.revision
  clients : ∀ c ∈ w.procs, c.pc.Ordered w.shared.revision

/-- A client publishes nothing. -/
theorem Course.publishes_nothing (h : Course parse sh c sh' c') :
    sh'.revision = sh.revision ∧ sh'.lastRestriction = sh.lastRestriction := by
  cases h with
  | resolves known auth hauth => exact ⟨rfl, rfl⟩
  | authenticates auth r hpc => exact ⟨rfl, rfl⟩
  | configures r hpc => exact ⟨rfl, rfl⟩
  | registers policy r q sh' id hpc hregister =>
      rw [register_eq_some hregister]
      exact ⟨rfl, rfl⟩
  | deregisters id hpc => exact ⟨rfl, rfl⟩
  | ends => exact ⟨rfl, rfl⟩

theorem Course.ordered (h : Course parse sh c sh' c') (hc : c.pc.Ordered sh.revision) :
    c'.pc.Ordered sh.revision := by
  cases h with
  | resolves known auth hauth => exact Nat.le_refl _
  | authenticates auth r hpc =>
      rw [hpc] at hc
      exact hc
  | configures r hpc =>
      rw [hpc] at hc
      exact ⟨hc, Nat.le_refl _⟩
  | registers policy r q sh' id hpc hregister => trivial
  | deregisters id hpc => trivial
  | ends => trivial

/-- A request never takes a revision back, and never a restriction. -/
theorem admin_mono (a : Admin) (h : ∀ user pool, sh.lastRestriction user pool ≤ sh.revision) :
    sh.revision ≤ (admin sh a).revision ∧ ∀ user pool,
      sh.lastRestriction user pool ≤ (admin sh a).lastRestriction user pool ∧
        (admin sh a).lastRestriction user pool ≤ (admin sh a).revision := by
  obtain hsame | ⟨change, hupdate⟩ | ⟨picks, hsignal⟩ := admin_cases sh a
  · rw [hsame]
    exact ⟨Nat.le_refl _, fun user pool => ⟨Nat.le_refl _, h user pool⟩⟩
  · rw [hupdate]
    unfold Shared.update
    simp only
    split
    · refine ⟨Nat.le_succ _, fun user pool => ?_⟩
      have hle := h user pool
      simp only
      split
      · omega
      · omega
    · exact ⟨Nat.le_refl _, fun user pool => ⟨Nat.le_refl _, h user pool⟩⟩
  · rw [hsignal]
    exact ⟨Nat.le_refl _, fun user pool => ⟨Nat.le_refl _, h user pool⟩⟩

variable {w : Procs Shared (Client V)} {l : (ℕ × Move V) ⊕ Admin}

theorem Ordered.step (h : Ordered w) (l : (ℕ × Move V) ⊕ Admin) : Ordered (step parse w l) := by
  obtain hsame | ⟨i, c, sh', c', hc, hcourse, hstep⟩ | ⟨a, -, hstep⟩ := step_cases parse w l
  · rw [hsame]
    exact h
  · obtain ⟨hrevision, hrestriction⟩ := hcourse.publishes_nothing
    rw [hstep]
    constructor
    · intro user pool
      simp only [hrevision, hrestriction]
      exact h.restriction user pool
    · intro q hq
      simp only [hrevision]
      rcases mem_of_mem_set hq with rfl | hq
      · exact hcourse.ordered (h.clients c (List.mem_of_getElem? hc))
      · exact h.clients q hq
  · obtain ⟨hrevision, hrestriction⟩ := admin_mono a h.restriction
    rw [hstep]
    exact ⟨fun user pool => (hrestriction user pool).2, fun q hq => (h.clients q hq).mono hrevision⟩

/-- A restriction is never forgotten. -/
theorem Ordered.restriction_mono (h : Ordered w) (l : (ℕ × Move V) ⊕ Admin) (user pool : Text) :
    w.shared.lastRestriction user pool ≤ (Admission.step parse w l).shared.lastRestriction user pool := by
  obtain hsame | ⟨i, c, sh', c', hc, hcourse, hstep⟩ | ⟨a, -, hstep⟩ := step_cases parse w l
  · rw [hsame]
  · rw [hstep, hcourse.publishes_nothing.2]
  · rw [hstep]
    exact ((admin_mono a h.restriction).2 user pool).1

/-! ## After the kick -/

/-- What a kick leaves behind: whoever is registered for this user and pool is to end or was admitted and
configured under a revision from `since` on, and whoever is about to be was resolved under one. -/
structure Fresh (user pool : Text) (since : ℕ) (w : Procs Shared (Client V)) : Prop where
  published : since ≤ w.shared.revision
  sessions : ∀ e ∈ w.shared.sessions, e.user = user → e.pool = pool →
    e.kicked = true ∨ since ≤ e.resolvedAt ∧ since ≤ e.policyAt
  clients : ∀ c ∈ w.procs, c.user = user → c.pool = pool → ∀ r ∈ c.pc.resolvedAt, since ≤ r

variable {user pool : Text} {since : ℕ}

theorem Course.same_client (h : Course parse sh c sh' c') : c'.user = c.user ∧ c'.pool = c.pool := by
  cases h <;> exact ⟨rfl, rfl⟩

/-- A client is resolved once, under the state that is published then. -/
theorem Course.resolvedAt (h : Course parse sh c sh' c') {r : ℕ} (hr : r ∈ c'.pc.resolvedAt) :
    r = sh.revision ∨ r ∈ c.pc.resolvedAt := by
  cases h with
  | resolves known auth hauth => exact .inl (Option.some.inj hr).symm
  | authenticates auth r' hpc => exact .inr (by rw [hpc]; exact hr)
  | configures r' hpc => exact .inr (by rw [hpc]; exact hr)
  | registers policy r' q sh' id hpc hregister => cases hr
  | deregisters id hpc => cases hr
  | ends => cases hr

/-- The registry gains no session but that of a client which was resolved and configured. -/
theorem Course.sessions (h : Course parse sh c sh' c') {e : Entry} (he : e ∈ sh'.sessions) :
    e ∈ sh.sessions ∨ e.user = c.user ∧ e.pool = c.pool ∧
      c.pc = .configured e.policy e.resolvedAt e.policyAt := by
  cases h with
  | resolves known auth hauth => exact .inl he
  | authenticates auth r hpc => exact .inl he
  | configures r hpc => exact .inl he
  | registers policy r q sh' id hpc hregister =>
      rw [register_eq_some hregister] at he
      rcases List.mem_append.mp he with he | he
      · exact .inl he
      · rw [List.mem_singleton] at he
        subst he
        exact .inr ⟨rfl, rfl, hpc⟩
  | deregisters id hpc => exact .inl (List.mem_of_mem_filter he)
  | ends => exact .inl he

/-- A request ends sessions and does nothing else to them. -/
theorem admin_sessions (a : Admin) {e : Entry} (he : e ∈ (admin sh a).sessions) :
    ∃ e' ∈ sh.sessions, e = e' ∨ e = { e' with kicked := true } := by
  obtain hsame | ⟨change, hupdate⟩ | ⟨picks, hsignal⟩ := admin_cases sh a
  · rw [hsame] at he
    exact ⟨e, he, .inl rfl⟩
  · rw [hupdate] at he
    refine ⟨e, ?_, .inl rfl⟩
    unfold Shared.update at he
    simp only at he
    split at he <;> exact he
  · rw [hsignal] at he
    obtain ⟨e', he', rfl⟩ := List.mem_map.mp he
    refine ⟨e', he', ?_⟩
    split
    · exact .inr rfl
    · exact .inl rfl

theorem Fresh.step (h : Fresh user pool since w) (hw : Ordered w) (l : (ℕ × Move V) ⊕ Admin) :
    Fresh user pool since (step parse w l) := by
  obtain hsame | ⟨i, c, sh', c', hc, hcourse, hstep⟩ | ⟨a, -, hstep⟩ := step_cases parse w l
  · rw [hsame]
    exact h
  · have hmem := List.mem_of_getElem? hc
    obtain ⟨hsameUser, hsamePool⟩ := hcourse.same_client
    rw [hstep]
    constructor
    · simp only [hcourse.publishes_nothing.1]
      exact h.published
    · intro e he huser hpool
      rcases hcourse.sessions he with he | ⟨heuser, hepool, hpc⟩
      · exact h.sessions e he huser hpool
      -- The client was resolved under the new state, and configured later.
      · have hresolved : since ≤ e.resolvedAt := by
          apply h.clients c hmem (heuser.symm.trans huser) (hepool.symm.trans hpool)
          rw [hpc]
          rfl
        have hordered := hw.clients c hmem
        rw [hpc] at hordered
        exact .inr ⟨hresolved, Nat.le_trans hresolved hordered.1⟩
    · intro q hq huser hpool r hr
      rcases mem_of_mem_set hq with rfl | hq
      · rcases hcourse.resolvedAt hr with rfl | hr
        · exact h.published
        · exact h.clients c hmem (hsameUser.symm.trans huser) (hsamePool.symm.trans hpool) r hr
      · exact h.clients q hq huser hpool r hr
  · rw [hstep]
    constructor
    · exact Nat.le_trans h.published (admin_mono a hw.restriction).1
    · intro e he huser hpool
      obtain ⟨e', he', rfl | rfl⟩ := admin_sessions a he
      · exact h.sessions _ he' huser hpool
      · exact .inl rfl
    · exact h.clients

/-- A kick that finds its user or pool reaches every session it is about. -/
theorem kicked_of_covers {a : Admin} (hcovers : a.covers user pool = true) (hfound : a.found sh.store = true)
    {e : Entry} (he : e ∈ (admin sh a).sessions) (huser : e.user = user) (hpool : e.pool = pool) :
    e.kicked = true := by
  have hsignal : ∃ picks, admin sh a = sh.signal picks ∧
      ∀ e' : Entry, e'.user = user → e'.pool = pool → picks e' = true := by
    cases a with
    | update change => cases hcovers
    | kickUser name =>
        refine ⟨fun e => e.user = name, if_pos hfound, fun e' huser' _ => ?_⟩
        rw [decide_eq_true_eq, huser']
        exact (of_decide_eq_true hcovers).symm
    | kickUpdated name =>
        refine ⟨fun e => e.user = name, rfl, fun e' huser' _ => ?_⟩
        rw [decide_eq_true_eq, huser']
        exact (of_decide_eq_true hcovers).symm
    | kickPool name =>
        refine ⟨fun e => e.pool = name, if_pos hfound, fun e' _ hpool' => ?_⟩
        rw [decide_eq_true_eq, hpool']
        exact (of_decide_eq_true hcovers).symm
  obtain ⟨picks, hadmin, hpicks⟩ := hsignal
  rw [hadmin] at he
  obtain ⟨e', -, rfl⟩ := List.mem_map.mp he
  split at huser
  case isTrue hpick => rw [if_pos hpick]
  case isFalse hpick =>
    rw [if_neg hpick] at hpool
    exact absurd (hpicks e' huser hpool) hpick

/-- A prompt kick. -/
theorem Ordered.kick (hw : Ordered w) {k : Admin} (hprompt : Prompt w (.inr k))
    (hcovers : k.covers user pool = true) :
    Fresh user pool (w.shared.lastRestriction user pool) (Admission.step parse w (.inr k)) where
  published := Nat.le_trans (hw.restriction user pool) (admin_mono k hw.restriction).1
  sessions _ he huser hpool := .inl (kicked_of_covers hcovers (hprompt.found k rfl) he huser hpool)
  clients := by
    intro c hc huser hpool r hr
    have hbound := hprompt.nobody k rfl c hc (by rw [huser, hpool]; exact hcovers) r hr
    rwa [huser, hpool] at hbound

theorem Fresh.of_le {since' : ℕ} (h : Fresh user pool since w) (hle : since' ≤ since) :
    Fresh user pool since' w where
  published := Nat.le_trans hle h.published
  sessions e he huser hpool :=
    (h.sessions e he huser hpool).imp_right fun h' => ⟨Nat.le_trans hle h'.1, Nat.le_trans hle h'.2⟩
  clients c hc huser hpool r hr := Nat.le_trans hle (h.clients c hc huser hpool r hr)

theorem restricts_self (s : State) (user pool : Text) : restricts s s user pool = false := by
  unfold restricts
  cases s.users.get user <;> cases s.pools.get pool <;> simp

theorem restricted_of_restricts {change : State → State}
    (h : restricts sh.store (admin sh (.update change)).store user pool = true) :
    (admin sh (.update change)).lastRestriction user pool = (admin sh (.update change)).revision := by
  unfold admin Shared.update at h ⊢
  simp only at h ⊢
  split at h
  case isTrue hvalid =>
    rw [if_pos hvalid]
    exact if_pos h
  case isFalse =>
    rw [restricts_self] at h
    cases h

theorem ordered_listening (s : State) (clients : List (Text × Text)) :
    Ordered (listening (V := V) s clients) where
  restriction _ _ := Nat.le_refl 0
  clients := by
    intro c hc
    obtain ⟨name, -, rfl⟩ := List.mem_map.mp hc
    trivial

end Step

/-! ## In a run of prompt kicks -/

/-- **A kick is final.** In every run of clients and admin requests in which every kick is prompt: when an
update restricts a user on a pool and a kick of that user or pool comes after it, then from the kick on
every session registered for the two is to end, or was admitted and given its policy under the new state. -/
theorem kick_is_final (parse : Text → Option V) {s : State} {clients : List (Text × Text)}
    {ls₁ ls₂ ls₃ : List ((ℕ × Move V) ⊕ Admin)} {change : State → State} {k : Admin} {user pool : Text}
    (hrun : Along (step parse) Prompt (listening s clients)
      (ls₁ ++ .inr (.update change) :: (ls₂ ++ .inr k :: ls₃)))
    (hrestricts :
      restricts (run (step parse) (listening s clients) ls₁).shared.store
        (run (step parse) (listening s clients) (ls₁ ++ [.inr (.update change)])).shared.store user pool = true)
    (hcovers : k.covers user pool = true) :
    let published := (run (step parse) (listening s clients) (ls₁ ++ [.inr (.update change)])).shared.revision
    ∀ e ∈ (run (step parse) (listening s clients)
        (ls₁ ++ .inr (.update change) :: (ls₂ ++ .inr k :: ls₃))).shared.sessions,
      e.user = user → e.pool = pool →
        e.kicked = true ∨ published ≤ e.resolvedAt ∧ published ≤ e.policyAt := by
  intro published
  have hstart : Ordered (run (step parse) (listening s clients) ls₁) :=
    run_invariant (fun w l hw => hw.step l) (ordered_listening s clients) ls₁
  set w := run (step parse) (listening s clients) ls₁ with hw
  set w₁ := step parse w (.inr (.update change)) with hw₁
  have hpublished : run (step parse) (listening s clients) (ls₁ ++ [.inr (.update change)]) = w₁ := by
    rw [run_append]
    rfl
  rw [hpublished] at hrestricts
  have hrestricted : w₁.shared.lastRestriction user pool = published :=
    (restricted_of_restricts hrestricts).trans (congrArg (fun w => w.shared.revision) hpublished.symm)
  -- Up to the kick.
  have hbefore : Ordered (run (step parse) w₁ ls₂) ∧ published ≤
      (run (step parse) w₁ ls₂).shared.lastRestriction user pool := by
    apply run_invariant (I := fun w => Ordered w ∧ published ≤ w.shared.lastRestriction user pool)
    · rintro w l ⟨hordered, hle⟩
      exact ⟨hordered.step l, Nat.le_trans hle (hordered.restriction_mono l user pool)⟩
    · exact ⟨hstart.step _, hrestricted.ge⟩
  -- From the kick on.
  obtain ⟨-, -, hrest⟩ := Along.append.mp hrun
  obtain ⟨-, hprompt, -⟩ := Along.append.mp hrest
  have hafter : Ordered (run (step parse) (step parse (run (step parse) w₁ ls₂) (.inr k)) ls₃) ∧
      Fresh user pool published (run (step parse) (step parse (run (step parse) w₁ ls₂) (.inr k)) ls₃) := by
    apply run_invariant (I := fun w => Ordered w ∧ Fresh user pool published w)
    · rintro w l ⟨hordered, hfresh⟩
      exact ⟨hordered.step l, hfresh.step hordered l⟩
    · exact ⟨hbefore.1.step _, (hbefore.1.kick hprompt hcovers).of_le hbefore.2⟩
  rw [run_append, run_cons, run_append, run_cons]
  exact hafter.2.sessions


/-- User `u` with a grant for pool `p` and a secret. -/
def granted : State where
  version := stateVersion
  pools := SortedMap.empty.insert ['p']
    { family := "postgres".toList, mode := .transaction, targets := [⟨"db".toList, 5432, .primary⟩],
      listenPort := 6432 }
  users := SortedMap.empty.insert ['u'] { pools := [['p']] }
  secrets := SortedMap.empty.insert (userVerifier ['u']) ['k']

/-- The update that disables `u`. -/
def disableU (s : State) : State :=
  { s with users := s.users.insert ['u'] { pools := [['p']], disabled := true } }

/-- A client's whole way into the registry. -/
def connects (i : ℕ) : List ((ℕ × Move Text) ⊕ Admin) :=
  [.inl (i, .resolve none), .inl (i, .exchange true), .inl (i, .go), .inl (i, .go)]

/-- One client is registered when its user is disabled and kicked; another one comes later. -/
theorem kick_is_final_after_disable :
    (run (step some) (listening granted [(['u'], ['p']), (['u'], ['p'])])
      (connects 0 ++ .inr (.update disableU) :: ([] ++ .inr (.kickUpdated ['u']) :: connects 1))).shared.sessions.all
        (fun e => decide (e.kicked = true ∨ 1 ≤ e.resolvedAt ∧ 1 ≤ e.policyAt)) = true := by
  have hrun : Along (step some) Prompt (listening granted [(['u'], ['p']), (['u'], ['p'])])
      (connects 0 ++ .inr (.update disableU) :: ([] ++ .inr (.kickUpdated ['u']) :: connects 1)) := by decide
  have hours : ∀ e ∈ (run (step some) (listening granted [(['u'], ['p']), (['u'], ['p'])])
      (connects 0 ++ .inr (.update disableU) :: ([] ++ .inr (.kickUpdated ['u']) :: connects 1))).shared.sessions,
      e.user = ['u'] ∧ e.pool = ['p'] := by decide
  apply List.all_eq_true.mpr
  intro e he
  obtain ⟨huser, hpool⟩ := hours e he
  exact decide_eq_true (kick_is_final some hrun (by decide) (by decide) e he huser hpool)

/-- The claim that every kick is final fails: the client was resolved before its user was disabled, is
still proving who it is when the kick looks for it, and enters the registry afterwards. -/
theorem not_kick_is_final :
    ¬ ∀ (V : Type) (parse : Text → Option V) (s : State), s.validate = .ok () →
      ∀ (clients : List (Text × Text)) (ls₁ ls₂ ls₃ : List ((ℕ × Move V) ⊕ Admin)) (change : State → State)
        (k : Admin) (user pool : Text),
      restricts (run (step parse) (listening s clients) ls₁).shared.store
        (run (step parse) (listening s clients) (ls₁ ++ [.inr (.update change)])).shared.store user pool = true →
      k.covers user pool = true →
      ∀ e ∈ (run (step parse) (listening s clients)
          (ls₁ ++ .inr (.update change) :: (ls₂ ++ .inr k :: ls₃))).shared.sessions,
        e.user = user → e.pool = pool → e.kicked = true ∨
          (run (step parse) (listening s clients) (ls₁ ++ [.inr (.update change)])).shared.revision ≤ e.resolvedAt ∧
            (run (step parse) (listening s clients) (ls₁ ++ [.inr (.update change)])).shared.revision ≤ e.policyAt := by
  intro hclaim
  have hfinal := hclaim Text some granted (by decide) [(['u'], ['p'])] [.inl (0, .resolve none)] []
    [.inl (0, .exchange true), .inl (0, .go), .inl (0, .go)] disableU (.kickUpdated ['u']) ['u'] ['p'] (by decide)
    (by decide)
  revert hfinal
  decide

end Havuz.Admission
