import Havuz.Relay

/-!
# What one turn of the relay can do

A turn has about fifteen ends: releases, refusals, early returns, the way out of the loop. `TurnRule`
lists, once, what has to be shown at each of them, and `relayStep_kept` is the case analysis. Every
result about runs of the relay goes through it, so none of them unfolds `relayStep` again.
-/

namespace Havuz

open Lib Sql

section Turn

variable {σ : Type} (sha256 : Bytes → Bytes) (srv : Server σ) (g : Group)

/-! ## What a pool hands out -/

/-- A connection a pool may hand out: one off a shelf, its trace started over, or a new one. -/
inductive Offered (sh : Shelves σ) : PgBackend σ → Prop
  | shelved {pool : Option Nat} {c : PgBackend σ} (h : c ∈ sh pool) (hfit : c.broken = false) :
      Offered sh { c with trace := [] }
  | opened (n : Nat) :
      Offered sh { server := srv.start n, supportsDiscardAll := g.supportsDiscardAll }

variable {srv g}

theorem takeFit_spec {expired : Nat → Bool} {i : Nat} {l : List (PgBackend σ)} :
    (∀ c ∈ (takeFit expired i l).2, c ∈ l) ∧
      ∀ c, (takeFit expired i l).1 = some c → c ∈ l ∧ c.broken = false := by
  induction l generalizing i with
  | nil => simp [takeFit]
  | cons a l ih =>
      rw [takeFit]
      split
      case isTrue =>
        obtain ⟨hrest, hfit⟩ := ih (i := i + 1)
        refine ⟨fun c hc => List.mem_cons_of_mem _ (hrest c hc), fun c hc => ?_⟩
        obtain ⟨hmem, hb⟩ := hfit c hc
        exact ⟨List.mem_cons_of_mem _ hmem, hb⟩
      case isFalse hfit =>
        refine ⟨fun c hc => List.mem_cons_of_mem _ hc, fun c hc => ?_⟩
        cases hc
        simp only [Bool.or_eq_true, not_or] at hfit
        exact ⟨List.mem_cons_self, by simpa using hfit.1⟩

theorem acquire_shelves {input : AcquireInput} {pool p : Option Nat} {sh : Shelves σ}
    {c : PgBackend σ} (h : c ∈ (acquire srv g input pool sh).2 p) : c ∈ sh p := by
  unfold acquire at h
  cases input with
  | refused e => exact h
  | granted expired connect =>
      have hrest : ∀ c ∈ (Function.update sh pool (takeFit expired 0 (sh pool)).2) p, c ∈ sh p := by
        intro c hc
        by_cases hp : p = pool
        · subst hp
          rw [Function.update_self] at hc
          exact takeFit_spec.1 c hc
        · rwa [Function.update_of_ne hp] at hc
      simp only at h
      split at h
      · exact hrest c h
      · split at h <;> exact hrest c h

theorem acquire_offered {input : AcquireInput} {pool : Option Nat} {sh : Shelves σ}
    {c : PgBackend σ} (h : (acquire srv g input pool sh).1 = .ok c) : Offered srv g sh c := by
  unfold acquire at h
  cases input with
  | refused e => cases h
  | granted expired connect =>
      simp only at h
      split at h
      case h_1 c' hfit =>
        cases h
        obtain ⟨hmem, hb⟩ := (takeFit_spec (i := 0)).2 c' hfit
        exact .shelved hmem hb
      case h_2 =>
        split at h
        · cases h
          exact .opened _
        · cases h

theorem Offered.mono {sh sh' : Shelves σ} (hsub : ∀ p c, c ∈ sh' p → c ∈ sh p) {c : PgBackend σ}
    (h : Offered srv g sh' c) : Offered srv g sh c := by
  cases h with
  | shelved hmem hfit => exact .shelved (hsub _ _ hmem) hfit
  | opened n => exact .opened n

/-- What goes back on a shelf is what was there, and the checkout if it is fit. -/
theorem Checkout.mem_drop {co : Checkout σ} {retire : Bool} {sh : Shelves σ} {p : Option Nat}
    {c : PgBackend σ} (h : c ∈ co.drop retire sh p) :
    c ∈ sh p ∨ (c = co.conn ∧ co.discard = false ∧ co.conn.broken = false) := by
  unfold Checkout.drop at h
  split at h
  case isTrue => exact .inl h
  case isFalse hfit =>
    simp only [Bool.or_eq_true, not_or, Bool.not_eq_true] at hfit
    by_cases hp : p = co.pool
    · subst hp
      rw [Function.update_self, List.mem_append, List.mem_singleton] at h
      rcases h with h | h
      · exact .inl h
      · exact .inr ⟨h, hfit.1.1, hfit.1.2⟩
    · rw [Function.update_of_ne hp] at h
      exact .inl h

theorem Relay.mem_giveBack {r : Relay σ} {co : Checkout σ} {retire : Bool} {p : Option Nat}
    {c : PgBackend σ} (h : c ∈ (r.giveBack co retire).shelves p) :
    c ∈ r.shelves p ∨ (c = co.conn ∧ co.discard = false ∧ co.conn.broken = false) :=
  Checkout.mem_drop h

variable (srv g)

/-! ## The stages of a message turn -/

/-- The session once a message that needs a backend has been routed: the router's choice, or the
primary in place of a replica that could not be had. -/
inductive Routed (r : Relay σ) (t : Turn) (msg : Message) : Session σ → Prop
  | chosen :
      Routed r t msg { (r.session.receive msg).arrive msg with
        routing := (chooseRoute g t msg r).2
        currentRoute := (chooseRoute g t msg r).1 }
  | fellBack :
      Routed r t msg { Session.record false { (r.session.receive msg).arrive msg with
          routing := (chooseRoute g t msg r).2
          currentRoute := (chooseRoute g t msg r).1 } with
        currentRoute := .primary .noReplicaAvailable }

/-- Routing touches the routing state, the route and the record of results. -/
theorem Routed.spec {r : Relay σ} {t : Turn} {msg : Message} {s : Session σ}
    (h : Routed g r t msg s) :
    s.params = ((r.session.receive msg).arrive msg).params ∧ s.held = r.session.held ∧
      s.state = ((r.session.receive msg).arrive msg).state ∧
      s.statements = r.session.statements ∧
      ∃ results, s.log = { (r.session.receive msg).log with results } := by
  cases h with
  | chosen => exact ⟨rfl, rfl, rfl, rfl, _, rfl⟩
  | fellBack => exact ⟨rfl, rfl, rfl, rfl, _, rfl⟩

/-- The session holds `co` and is about to rewrite and forward `msg`. -/
inductive Ready (r : Relay σ) (t : Turn) (msg : Message) : Session σ → Checkout σ → Prop
  | held {co : Checkout σ} (h : r.session.held = some co) :
      Ready r t msg ((r.session.receive msg).arrive msg) co
  | borrowed {s : Session σ} {c conn : PgBackend σ} {sync : PgBackend.ParamSync}
      {pool : Option Nat} (hnone : r.session.held = none) (hs : Routed g r t msg s)
      (hoffer : Offered srv g r.shelves c)
      (hsync : c.syncParams srv ((r.session.receive msg).arrive msg).params = (.ok sync, conn))
      (hok : ∀ d, sync ≠ .refused d) :
      Ready r t msg (s.checkOut.hold ⟨conn, pool, false⟩ sync) ⟨conn, pool, false⟩

/-- The turn hands the client's message to a backend, if one can be had. -/
structure Forwards (r : Relay σ) (t : Turn) (msg : Message) : Prop where
  event : t.event = .message msg
  accepted : refusedByPolicy r.session.policy msg = none
  stays : classify msg ≠ .terminate

/-- The message went out as `out`: the connection was `before` it was written and is `after` now. -/
structure Sends (r : Relay σ) (t : Turn) (msg : Message) (s : Session σ) (co : Checkout σ)
    (out : Message) (st : ClientStatements) (before after : PgBackend σ) (replies : List Reply) :
    Prop where
  forwards : Forwards r t msg
  ready : Ready srv g r t msg s co
  outgoing : outgoing sha256 srv (prepareParse srv) msg s.statements co.conn = .send out st before
  written : writeForClient srv out before = some (after, replies)

/-- The session after the message went out. -/
abbrev Session.afterSend (s : Session σ) (msg out : Message) (st : ClientStatements)
    (co : Checkout σ) (before after : PgBackend σ) (replies : List Reply) : Session σ :=
  s.sent msg out st { co with conn := after } before.server replies

/-- The turn ends the session from the loop's head. -/
def Exits (r : Relay σ) (t : Turn) : Prop :=
  match t.event with
  | .kick => True
  | .readError => True
  | .idleTimeout => r.session.policy.idleInTransaction ≠ 0 ∧ r.session.state.inTransaction = true
  | .message msg => refusedByPolicy r.session.policy msg = none ∧ classify msg = .terminate

/-! ## The rule -/

/-- Relative to the relay `r` a turn began with: every connection now on a shelf was on it or is
`J`, every message now recorded as forwarded was recorded or is `F`, and a session that goes on is
`P`. -/
structure Kept (J : PgBackend σ → Prop) (F : Forward σ → Prop) (P : Session σ → Prop)
    (r r' : Relay σ) : Prop where
  shelves : ∀ p c, c ∈ r'.shelves p → c ∈ r.shelves p ∨ J c
  forwarded : ∀ f ∈ r'.session.log.forwarded, f ∈ r.session.log.forwarded ∨ F f
  session : r'.session.exit = none → P r'.session

/-- What has to be shown at the ends of the turn `t` from `r`. -/
structure TurnRule (r : Relay σ) (t : Turn) (J : PgBackend σ → Prop) (F : Forward σ → Prop)
    (P : Session σ → Prop) : Prop where
  /-- The timer of a session without an open transaction does nothing. -/
  idle : t.event = .idleTimeout → r.session.exit = none → P r.session
  /-- The loop ends and the backend is given back as it is. -/
  leaves : ∀ co, Exits r t → r.session.held = some co → r.session.state.pin = none →
    r.session.state.inTransaction = false → co.discard = false → co.conn.broken = false → J co.conn
  /-- The loop ends and the backend is cleaned first. -/
  resets : ∀ co c, Exits r t → r.session.held = some co →
    (r.session.state.pin.isSome || r.session.state.inTransaction) = true → co.discard = false →
    co.conn.reset srv = (true, c) → J c
  /-- The read-only policy answers the message. -/
  policy : ∀ msg reason, t.event = .message msg →
    refusedByPolicy r.session.policy msg = some reason →
    P ((r.session.receive msg).refuse msg (policyError g reason)
      (if r.session.state.inTransaction then .failed else .idle))
  /-- The server refuses the client's parameters; the connection goes back. -/
  syncRefused : ∀ msg c conn detail, Forwards r t msg → r.session.held = none →
    Offered srv g r.shelves c →
    c.syncParams srv ((r.session.receive msg).arrive msg).params = (.ok (.refused detail), conn) →
    J conn
  /-- The rewrite fails and the message is answered here. -/
  refused : ∀ msg s co e, Forwards r t msg → Ready srv g r t msg s co →
    rewritePrepared sha256 msg s.statements co.conn.statements = .error e →
    P (s.refuse msg (rewriteError e) .failed)
  /-- A replica does not take the message; the loop goes on without a backend. -/
  dropped : ∀ msg s co out st c, Forwards r t msg → Ready srv g r t msg s co →
    outgoing sha256 srv (prepareParse srv) msg s.statements co.conn = .send out st c →
    srv.write c.server out = none → s.currentRoute.isReplica = true →
    P (Session.record false { s with statements := st, held := none })
  /-- The message goes out. -/
  sent : ∀ msg s co out st c c' replies, Sends sha256 srv g r t msg s co out st c c' replies →
    F ⟨msg, out, c.server, s.log.received, replies⟩
  /-- Nothing is pumped after it. -/
  pipelined : ∀ msg s co out st c c' replies,
    Sends sha256 srv g r t msg s co out st c c' replies → expectsReply msg = false →
    P (s.afterSend msg out st co c c' replies)
  /-- The answer is pumped through and the backend is kept. -/
  kept : ∀ msg s co out st c c' replies e delivered c'',
    Sends sha256 srv g r t msg s co out st c c' replies → expectsReply msg = true →
    c'.pumpUntilReady t.clientAccepts = (some e, delivered, c'') →
    (((s.afterSend msg out st co c c' replies).answered delivered).settle
      { co with conn := c'' } e).state.isReleasable = false →
    P (((s.afterSend msg out st co c c' replies).answered delivered).settle
      { co with conn := c'' } e)
  /-- The answer is pumped through and the backend is released. -/
  released : ∀ msg s co out st c c' replies e delivered c'',
    Sends sha256 srv g r t msg s co out st c c' replies → expectsReply msg = true →
    c'.pumpUntilReady t.clientAccepts = (some e, delivered, c'') →
    (((s.afterSend msg out st co c c' replies).answered delivered).settle
      { co with conn := c'' } e).state.isReleasable = true →
    P (((s.afterSend msg out st co c c' replies).answered delivered).settle
        { co with conn := c'' } e).release ∧
      (co.discard = false → c''.broken = false →
        J (({ co with conn := c'' } : Checkout σ).settled s.params e).conn)
  /-- A replica is lost before the client got anything: the exchange starts over on the primary. -/
  restarted : ∀ msg s co out st c c' replies c'' r',
    Sends sha256 srv g r t msg s co out st c c' replies → expectsReply msg = true →
    c'.pumpUntilReady t.clientAccepts = (none, [], c'') → s.currentRoute.isReplica = true →
    r'.session = Session.record false
      (Session.deliver [] { s.afterSend msg out st co c c' replies with held := none }) →
    (∀ p c, c ∈ r'.shelves p → c ∈ r.shelves p) →
    Kept J F P r (replayOnPrimary sha256 srv g t r')

variable {sha256 srv g} in
/-- Two rules for one turn. -/
theorem TurnRule.and {r : Relay σ} {t : Turn} {J J' : PgBackend σ → Prop} {F F' : Forward σ → Prop}
    {P P' : Session σ → Prop} (h : TurnRule sha256 srv g r t J F P)
    (h' : TurnRule sha256 srv g r t J' F' P') :
    TurnRule sha256 srv g r t (fun c => J c ∧ J' c) (fun f => F f ∧ F' f) (fun s => P s ∧ P' s) := by
  constructor
  case idle => exact fun he hx => ⟨h.idle he hx, h'.idle he hx⟩
  case leaves =>
    exact fun co he hco hp ht hd hb =>
      ⟨h.leaves co he hco hp ht hd hb, h'.leaves co he hco hp ht hd hb⟩
  case resets =>
    exact fun co c he hco hk hd hr => ⟨h.resets co c he hco hk hd hr, h'.resets co c he hco hk hd hr⟩
  case policy =>
    exact fun msg reason he hp => ⟨h.policy msg reason he hp, h'.policy msg reason he hp⟩
  case syncRefused =>
    exact fun msg c conn detail hf hn ho hs =>
      ⟨h.syncRefused msg c conn detail hf hn ho hs, h'.syncRefused msg c conn detail hf hn ho hs⟩
  case refused =>
    exact fun msg s co e hf hr he => ⟨h.refused msg s co e hf hr he, h'.refused msg s co e hf hr he⟩
  case dropped =>
    exact fun msg s co out st c hf hr ho hw hroute =>
      ⟨h.dropped msg s co out st c hf hr ho hw hroute, h'.dropped msg s co out st c hf hr ho hw hroute⟩
  case sent =>
    exact fun msg s co out st c c' replies hs =>
      ⟨h.sent msg s co out st c c' replies hs, h'.sent msg s co out st c c' replies hs⟩
  case pipelined =>
    exact fun msg s co out st c c' replies hs hr =>
      ⟨h.pipelined msg s co out st c c' replies hs hr, h'.pipelined msg s co out st c c' replies hs hr⟩
  case kept =>
    exact fun msg s co out st c c' replies e d c'' hs hr hp hk =>
      ⟨h.kept msg s co out st c c' replies e d c'' hs hr hp hk,
        h'.kept msg s co out st c c' replies e d c'' hs hr hp hk⟩
  case released =>
    intro msg s co out st c c' replies e d c'' hs hr hp hk
    obtain ⟨hP, hJ⟩ := h.released msg s co out st c c' replies e d c'' hs hr hp hk
    obtain ⟨hP', hJ'⟩ := h'.released msg s co out st c c' replies e d c'' hs hr hp hk
    exact ⟨⟨hP, hP'⟩, fun hd hb => ⟨hJ hd hb, hJ' hd hb⟩⟩
  case restarted =>
    intro msg s co out st c c' replies c'' r' hs hr hp hroute hsession hshelves
    have hkept := h.restarted msg s co out st c c' replies c'' r' hs hr hp hroute hsession hshelves
    have hkept' := h'.restarted msg s co out st c c' replies c'' r' hs hr hp hroute hsession hshelves
    refine ⟨fun p c hc => ?_, fun f hf => ?_, fun hx => ⟨hkept.session hx, hkept'.session hx⟩⟩
    · rcases hkept.shelves p c hc with hold | hJ
      · exact .inl hold
      · exact (hkept'.shelves p c hc).imp_right fun hJ' => ⟨hJ, hJ'⟩
    · rcases hkept.forwarded f hf with hold | hF
      · exact .inl hold
      · exact (hkept'.forwarded f hf).imp_right fun hF' => ⟨hF, hF'⟩

/-! ## The case analysis -/

variable {sha256 srv} in
/-- Only a failed rewrite refuses a message. -/
theorem outgoing_refused {onParse : Bytes → PgBackend σ → Except ProtoError Unit × PgBackend σ}
    {msg : Message} {st : ClientStatements} {c : PgBackend σ} {e : PreparedError}
    (h : outgoing sha256 srv onParse msg st c = .refused e) :
    rewritePrepared sha256 msg st c.statements = .error e := by
  unfold outgoing at h
  split at h
  case h_1 hr => cases h; exact hr
  case h_4 => split at h <;> cases h
  case h_6 => split at h <;> cases h
  all_goals cases h

variable {sha256 srv g} {J : PgBackend σ → Prop} {F : Forward σ → Prop} {P : Session σ → Prop}
  {r r' : Relay σ} {t : Turn}

/-- An intermediate relay of the turn, whose session may still be anything. -/
structure Midway (J : PgBackend σ → Prop) (F : Forward σ → Prop) (r r' : Relay σ) : Prop where
  shelves : ∀ p c, c ∈ r'.shelves p → c ∈ r.shelves p ∨ J c
  forwarded : ∀ f ∈ r'.session.log.forwarded, f ∈ r.session.log.forwarded ∨ F f

theorem Midway.kept (h : Midway J F r r') (hP : P r'.session) : Kept J F P r r' :=
  ⟨h.shelves, h.forwarded, fun _ => hP⟩

theorem Midway.giveBack (h : Midway J F r r') {co : Checkout σ} {retire : Bool}
    (hco : co.discard = false → co.conn.broken = false → J co.conn) :
    Midway J F r (r'.giveBack co retire) := by
  refine ⟨fun p c hc => ?_, h.forwarded⟩
  rcases Checkout.mem_drop hc with hc | ⟨rfl, hd, hb⟩
  · exact h.shelves p c hc
  · exact .inr (hco hd hb)

theorem Midway.discard (h : Midway J F r r') {co : Checkout σ} {retire : Bool}
    (hco : co.discard = true) : Midway J F r (r'.giveBack co retire) :=
  h.giveBack fun hd => absurd hd (by simp [hco])

/-- A session that returned goes on no more: only what it gave back counts. -/
theorem Midway.leave (h : Midway J F r r') {e : Exit} {retire : Bool}
    (hco : ∀ co, r'.session.held = some co → co.discard = false → co.conn.broken = false →
      J co.conn) : Kept J F P r (r'.leave e retire) := by
  refine ⟨fun p c hc => ?_, h.forwarded, fun hexit => by simp [Relay.leave] at hexit⟩
  unfold Relay.leave at hc
  split at hc
  case h_1 co hheld =>
    rcases Checkout.mem_drop hc with hc | ⟨rfl, hd, hb⟩
    · exact h.shelves p c hc
    · exact .inr (hco co hheld hd hb)
  case h_2 => exact h.shelves p c hc

theorem Midway.fatalExit (h : Midway J F r r') {code text : Text} {e : ProtoError}
    (hco : ∀ co, r'.session.held = some co → co.discard = false → co.conn.broken = false →
      J co.conn) : Kept J F P r (fatalExit t code text e r') := by
  have hsaid : Midway J F r (r'.withSession (Session.say (.fatal code text))) :=
    ⟨h.shelves, h.forwarded⟩
  exact hsaid.leave hco

theorem finish_kept (rule : TurnRule sha256 srv g r t J F P) (hexits : Exits r t)
    {s : Session σ} (hheld : s.held = r.session.held) (hstate : s.state = r.session.state)
    (hlog : s.log.forwarded = r.session.log.forwarded) :
    Kept J F P r (finish srv t { r with session := s }) := by
  have hfw : ∀ f ∈ s.log.forwarded, f ∈ r.session.log.forwarded ∨ F f := fun f hf => .inl (hlog ▸ hf)
  unfold finish
  simp only [hheld, hstate]
  cases hco : r.session.held with
  | none =>
      refine Midway.leave ?_ fun co h => ?_
      · exact ⟨fun p c hc => .inl hc, hfw⟩
      · rw [hheld, hco] at h
        cases h
  | some co =>
      simp only
      split
      case isTrue hkept =>
        cases hreset : co.conn.reset srv with
        | mk cleaned conn =>
            refine Midway.leave ?_ fun co' hco' hd hb => ?_
            · exact ⟨fun p c hc => .inl hc, hfw⟩
            · cases hco'
              simp only [Bool.or_eq_false_iff, Bool.not_eq_false'] at hd
              obtain ⟨hd, rfl⟩ := hd
              exact rule.resets co conn hexits hco hkept hd hreset
      case isFalse hclean =>
        simp only [Bool.or_eq_true, not_or, Bool.not_eq_true, Option.isSome_eq_false_iff,
          Option.isNone_iff_eq_none] at hclean
        refine Midway.leave ?_ fun co' hco' hd hb => ?_
        · exact ⟨fun p c hc => .inl hc, hfw⟩
        · rw [hheld, hco] at hco'
          cases hco'
          exact rule.leaves co hexits hco hclean.1 hclean.2 hd hb

theorem pumpAnswer_kept (rule : TurnRule sha256 srv g r t J F P) {msg out : Message}
    {s : Session σ} {co : Checkout σ} {st : ClientStatements} {c c' : PgBackend σ}
    {replies : List Reply} (hsends : Sends sha256 srv g r t msg s co out st c c' replies)
    (hreply : expectsReply msg = true)
    (hsession : r'.session = s.afterSend msg out st co c c' replies)
    (hfw : ∀ f ∈ r'.session.log.forwarded, f ∈ r.session.log.forwarded ∨ F f)
    (hsh : ∀ p c, c ∈ r'.shelves p → c ∈ r.shelves p) :
    Kept J F P r (pumpAnswer sha256 srv g t { co with conn := c' } r') := by
  have hshelves : ∀ p c, c ∈ r'.shelves p → c ∈ r.shelves p ∨ J c := fun p c hc => .inl (hsh p c hc)
  unfold pumpAnswer
  simp only
  split
  case isTrue =>
    refine Midway.leave (Midway.discard ?_ rfl) fun co' h => ?_
    · exact ⟨hshelves, hfw⟩
    · cases h
  case isFalse =>
    cases hpump : c'.pumpUntilReady t.clientAccepts with
    | mk ending rest =>
        obtain ⟨delivered, c''⟩ := rest
        cases ending with
        | some e =>
            have hfw' : ∀ f ∈ (r'.session.answered delivered).log.forwarded,
                f ∈ r.session.log.forwarded ∨ F f := by
              rwa [Session.forwarded_answered]
            simp only [exchangeDone, Relay.withSession, hsession] at hfw' ⊢
            split
            case isTrue hrel =>
              obtain ⟨hP, hJ⟩ := rule.released msg s co out st c c' replies e delivered c''
                hsends hreply hpump hrel
              refine Midway.kept ?_ hP
              refine ⟨fun p c hc => ?_, hfw'⟩
              rcases Checkout.mem_drop hc with hc | ⟨rfl, hd, hb⟩
              · exact hshelves p c hc
              · exact .inr (hJ hd (by rwa [Checkout.settled_broken] at hb))
            case isFalse hrel =>
              exact Midway.kept ⟨hshelves, hfw'⟩ (rule.kept msg s co out st c c' replies e delivered
                c'' hsends hreply hpump (by simpa using hrel))
        | none =>
            simp only
            split
            case isTrue hrestart =>
              obtain ⟨hroute, rfl⟩ := hrestart
              have hroute : s.currentRoute.isReplica = true := by
                rw [← hroute]
                simp [Relay.giveBack, Relay.withSession, Session.record, Session.note,
                  Session.deliver, hsession, Session.sent]
              refine rule.restarted msg s co out st c c' replies c'' _ hsends hreply hpump hroute ?_ ?_
              · simp only [Relay.giveBack, Relay.withSession, hsession]
              · intro p c hc
                rcases Relay.mem_giveBack hc with hc | ⟨-, hd, -⟩
                · exact hsh p c hc
                · cases hd
            case isFalse =>
              refine Midway.fatalExit ?_ fun co' h => by cases h
              refine ⟨fun p c hc => ?_, hfw⟩
              have hc : c ∈ Checkout.drop ⟨c'', co.pool, true⟩ t.retire r'.shelves p := hc
              rcases Checkout.mem_drop hc with hc | ⟨-, hd, -⟩
              · exact hshelves p c hc
              · cases hd

theorem forward_kept (rule : TurnRule sha256 srv g r t J F P) {msg out : Message}
    {s : Session σ} {co : Checkout σ} {st : ClientStatements} {c : PgBackend σ}
    (hforwards : Forwards r t msg) (hready : Ready srv g r t msg s co)
    (hout : outgoing sha256 srv (prepareParse srv) msg s.statements co.conn = .send out st c)
    (hsession : r'.session = s) (hfw : s.log.forwarded = r.session.log.forwarded)
    (hsh : ∀ p c, c ∈ r'.shelves p → c ∈ r.shelves p) :
    Kept J F P r (forward sha256 srv g t msg out st { co with conn := c } r') := by
  subst hsession
  have hshelves : ∀ p c, c ∈ r'.shelves p → c ∈ r.shelves p ∨ J c := fun p c hc => .inl (hsh p c hc)
  have hold : ∀ f ∈ r'.session.log.forwarded, f ∈ r.session.log.forwarded ∨ F f :=
    fun f hf => .inl (hfw ▸ hf)
  unfold forward
  simp only
  cases hwrite : writeForClient srv out c with
  | none =>
      simp only
      have hnone : srv.write c.server out = none := by
        simp only [writeForClient, PgBackend.write, Option.map_eq_none_iff] at hwrite
        split at hwrite
        · assumption
        · cases hwrite
      split
      case isTrue hroute =>
        refine Midway.kept (Midway.discard ?_ rfl)
          (rule.dropped msg _ co out st c hforwards hready hout hnone hroute)
        exact ⟨hshelves, hold⟩
      case isFalse =>
        refine Midway.fatalExit (Midway.discard ?_ rfl) fun co' h => ?_
        · exact ⟨hshelves, hold⟩
        · cases h
  | some written =>
      obtain ⟨c', replies⟩ := written
      have hsends : Sends sha256 srv g r t msg r'.session co out st c c' replies :=
        ⟨hforwards, hready, hout, hwrite⟩
      have hnew : ∀ f ∈ (r'.session.afterSend msg out st co c c' replies).log.forwarded,
          f ∈ r.session.log.forwarded ∨ F f := by
        intro f hf
        rcases List.mem_append.mp hf with hf | hf
        · exact hold f hf
        · rw [List.mem_singleton] at hf
          subst hf
          exact .inr (rule.sent msg _ co out st c c' replies hsends)
      simp only
      split
      case isTrue hreply =>
        exact pumpAnswer_kept rule hsends hreply rfl hnew hsh
      case isFalse hreply =>
        exact Midway.kept ⟨hshelves, hnew⟩
          (rule.pipelined msg _ co out st c c' replies hsends (by simpa using hreply))

theorem dispatch_kept (rule : TurnRule sha256 srv g r t J F P) {msg : Message} {s : Session σ}
    {co : Checkout σ} (hforwards : Forwards r t msg) (hready : Ready srv g r t msg s co) (hsession : r'.session = s)
    (hfw : s.log.forwarded = r.session.log.forwarded)
    (hsh : ∀ p c, c ∈ r'.shelves p → c ∈ r.shelves p) :
    Kept J F P r (dispatch sha256 srv g t msg co r') := by
  subst hsession
  have hshelves : ∀ p c, c ∈ r'.shelves p → c ∈ r.shelves p ∨ J c := fun p c hc => .inl (hsh p c hc)
  have hold : ∀ f ∈ r'.session.log.forwarded, f ∈ r.session.log.forwarded ∨ F f :=
    fun f hf => .inl (hfw ▸ hf)
  unfold dispatch
  split
  case h_1 e hout =>
    have he : rewritePrepared sha256 msg r'.session.statements co.conn.statements = .error e :=
      outgoing_refused hout
    exact Midway.kept ⟨hshelves, hold⟩ (rule.refused msg _ co e hforwards hready he)
  case h_2 e statements conn hout =>
    refine Midway.leave ?_ fun co' h hd => ?_
    · exact ⟨hshelves, hold⟩
    · cases h
      cases hd
  case h_3 e statements conn hout =>
    refine Midway.fatalExit ?_ fun co' h hd => ?_
    · exact ⟨hshelves, hold⟩
    · cases h
      cases hd
  case h_4 out statements conn hout =>
    exact forward_kept rule hforwards hready hout rfl hfw hsh

/-- Asking the pools records at most a failed replica, takes nothing but what is on the shelves, and
hands out an offered connection. -/
theorem acquireRouted_spec {acquired : Except PoolError (PgBackend σ)}
    (h : acquireRouted srv g t r = (acquired, r')) :
    (r'.session = r.session ∨
        r'.session = { r.session.record false with currentRoute := .primary .noReplicaAvailable }) ∧
      (∀ p c, c ∈ r'.shelves p → c ∈ r.shelves p) ∧
      ∀ c, acquired = .ok c → Offered srv g r.shelves c := by
  unfold acquireRouted at h
  cases hfirst : acquire srv g t.acquire (g.poolFor r.session.currentRoute) r.shelves with
  | mk first sh =>
      have hsh : ∀ p c, c ∈ sh p → c ∈ r.shelves p := by
        intro p c hc
        exact acquire_shelves (by rw [hfirst]; exact hc)
      simp only [hfirst] at h
      cases first with
      | ok conn =>
          cases h
          refine ⟨.inl rfl, hsh, fun c hc => ?_⟩
          cases hc
          exact acquire_offered (by rw [hfirst])
      | error e =>
          simp only at h
          split at h
          case isFalse =>
            cases h
            exact ⟨.inl rfl, hsh, fun c hc => by cases hc⟩
          case isTrue =>
            cases h
            refine ⟨.inr rfl, fun p c hc => hsh p c (acquire_shelves hc), fun c hc => ?_⟩
            exact (acquire_offered hc).mono hsh

theorem install_kept (rule : TurnRule sha256 srv g r t J F P) {msg : Message} {c : PgBackend σ}
    (hforwards : Forwards r t msg) (hheld : r.session.held = none)
    (hrouted : Routed g r t msg r'.session) (hsh : ∀ p c, c ∈ r'.shelves p → c ∈ r.shelves p)
    (hoffer : Offered srv g r.shelves c) :
    Kept J F P r (match (install srv g t c r').session.held with
      | some co => dispatch sha256 srv g t msg co (install srv g t c r')
      | none => install srv g t c r') := by
  obtain ⟨hparams, hnone, -, -, results, hlog⟩ := hrouted.spec
  rw [hheld] at hnone
  have hfw : r'.session.log.forwarded = r.session.log.forwarded := by rw [hlog]; rfl
  have hshelves : ∀ p c, c ∈ r'.shelves p → c ∈ r.shelves p ∨ J c := fun p c hc => .inl (hsh p c hc)
  have hold : ∀ f ∈ r'.session.log.forwarded, f ∈ r.session.log.forwarded ∨ F f :=
    fun f hf => .inl (hfw ▸ hf)
  have hgone : ∀ {co : Checkout σ}, r'.session.held = some co → False := by
    intro co h
    rw [hnone] at h
    cases h
  unfold install
  cases hsync : c.syncParams srv r'.session.params with
  | mk res conn =>
      simp only [Relay.withSession, Session.checkOut, hsync]
      match res, hsync with
      | .error e, _ =>
          simp only [held_fatalExit]
          refine Midway.fatalExit ?_ fun co h => (hgone h).elim
          refine ⟨fun p c hc => ?_, hold⟩
          have hc : c ∈ Checkout.drop ⟨conn, g.poolFor r'.session.currentRoute, true⟩ t.retire
              r'.shelves p := hc
          rcases Checkout.mem_drop hc with hc | ⟨-, hd, -⟩
          · exact hshelves p c hc
          · cases hd
      | .ok (.refused detail), hsync =>
          simp only [held_fatalExit]
          refine Midway.fatalExit (Midway.giveBack ?_ fun _ _ => ?_) fun co h => (hgone h).elim
          · exact ⟨hshelves, hold⟩
          · exact rule.syncRefused msg c conn detail hforwards hheld hoffer (hparams ▸ hsync)
      | .ok .unchanged, hsync =>
          exact dispatch_kept rule hforwards
            (Ready.borrowed hheld hrouted hoffer (hparams ▸ hsync) (by simp)) rfl hfw hsh
      | .ok .applied, hsync =>
          exact dispatch_kept rule hforwards
            (Ready.borrowed hheld hrouted hoffer (hparams ▸ hsync) (by simp)) rfl hfw hsh

theorem onMessage_kept (rule : TurnRule sha256 srv g r t J F P) {msg : Message}
    (hevent : t.event = .message msg) : Kept J F P r (onMessage sha256 srv g t msg r) := by
  have hstart : Midway J F r r := ⟨fun p c hc => .inl hc, fun f hf => .inl hf⟩
  unfold onMessage
  simp only [Relay.withSession]
  split
  case h_1 reason hpolicy =>
    exact Midway.kept ⟨hstart.shelves, hstart.forwarded⟩ (rule.policy msg reason hevent hpolicy)
  case h_2 hpolicy =>
    split
    case isTrue hterm =>
      refine finish_kept rule ?_ rfl rfl rfl
      rw [Exits, hevent]
      exact ⟨hpolicy, hterm⟩
    case isFalse hstays =>
      have hforwards : Forwards r t msg := ⟨hevent, hpolicy, hstays⟩
      cases hheld : r.session.held with
      | some co =>
          have hheld' : ((r.session.receive msg).arrive msg).held = some co := hheld
          simp only [borrow, hheld']
          exact dispatch_kept rule hforwards (.held hheld) rfl rfl (fun p c hc => hc)
      | none =>
          have hheld' : ((r.session.receive msg).arrive msg).held = none := hheld
          simp only [borrow, hheld']
          -- The pools are asked; a refusal ends the session.
          generalize hr₀ : ({ session := _, shelves := _, cursor := _ } : Relay σ) = r₀
          cases hacq : acquireRouted srv g t r₀ with
          | mk acquired r₁ =>
              subst hr₀
              obtain ⟨hs, hsh, hoff⟩ := acquireRouted_spec hacq
              have hrouted : Routed g r t msg r₁.session := by
                rcases hs with hs | hs
                · rw [hs]
                  exact .chosen
                · rw [hs]
                  exact .fellBack
              cases acquired with
              | ok conn =>
                  exact install_kept rule hforwards hheld hrouted hsh (hoff conn rfl)
              | error e =>
                  obtain ⟨-, hnone, -, -, results, hlog⟩ := hrouted.spec
                  simp only [held_fatalExit]
                  refine Midway.fatalExit ?_ fun co h => ?_
                  · refine ⟨fun p c hc => .inl (hsh p c hc), fun f hf => .inl ?_⟩
                    have hf : f ∈ r₁.session.log.forwarded := hf
                    rw [hlog] at hf
                    exact hf
                  · have h : r₁.session.held = some co := h
                    rw [hnone, hheld] at h
                    cases h

/-- **The case analysis of a turn.** -/
theorem relayStep_kept (rule : TurnRule sha256 srv g r t J F P) :
    Kept J F P r (relayStep sha256 srv g r t) := by
  have hstart : Midway J F r r := ⟨fun p c hc => .inl hc, fun f hf => .inl hf⟩
  unfold relayStep
  split
  case isTrue hexit =>
    refine ⟨hstart.shelves, hstart.forwarded, fun h => ?_⟩
    simp [h] at hexit
  case isFalse hexit =>
    have hexit : r.session.exit = none := by simpa using hexit
    split
    case h_1 hevent =>
      exact finish_kept rule (by rw [Exits, hevent]; trivial) rfl rfl rfl
    case h_2 hevent =>
      split
      case isTrue hfires =>
        exact finish_kept rule (by rw [Exits, hevent]; exact hfires) rfl rfl rfl
      case isFalse => exact hstart.kept (rule.idle hevent hexit)
    case h_3 hevent =>
      exact finish_kept rule (by rw [Exits, hevent]; trivial) rfl rfl rfl
    case h_4 msg hevent => exact onMessage_kept rule hevent

/-- A session that is ready holds the connection it is about to use. -/
theorem Ready.held_eq {msg : Message} {s : Session σ} {co : Checkout σ}
    (h : Ready srv g r t msg s co) : s.held = some co := by
  cases h with
  | held h => exact h
  | borrowed => rfl

/-- Getting ready touches the books in two ways: the message is received, and a checkout may begin. -/
theorem Ready.log_eq {msg : Message} {s : Session σ} {co : Checkout σ}
    (h : Ready srv g r t msg s co) :
    ∃ results, (r.session.held = some co ∧ s.log = { (r.session.receive msg).log with results }) ∨
      (r.session.held = none ∧ s.log = { (r.session.receive msg).log with results }.checkout) := by
  cases h with
  | held h => exact ⟨_, .inl ⟨h, rfl⟩⟩
  | borrowed hnone hs =>
      obtain ⟨-, -, -, -, results, hlog⟩ := hs.spec
      exact ⟨results, .inr ⟨hnone, by simp [Session.checkOut, Session.hold, hlog]⟩⟩

/-- A backend is not told of the client's statements before the message is rewritten. -/
theorem Ready.statements_eq {msg : Message} {s : Session σ} {co : Checkout σ}
    (h : Ready srv g r t msg s co) : s.statements = r.session.statements := by
  cases h with
  | held h => rfl
  | borrowed hnone hs => exact hs.spec.2.2.2.1

theorem Ready.copyBy_eq {msg : Message} {s : Session σ} {co : Checkout σ}
    (h : Ready srv g r t msg s co) : s.log.copyBy = r.session.log.copyBy := by
  obtain ⟨results, ⟨-, hlog⟩ | ⟨-, hlog⟩⟩ := h.log_eq <;> rw [hlog] <;> rfl

/-! ## Many sessions -/

/-- Every connection on a shelf is `J`, every message forwarded is `F`, and every session that goes on
is `P`. -/
structure World.Holds {ι : Type} (J : PgBackend σ → Prop) (F : Forward σ → Prop)
    (P : Session σ → Prop) (w : World ι σ) : Prop where
  shelves : ∀ p c, c ∈ w.shelves p → J c
  forwarded : ∀ i, ∀ f ∈ (w.sessions i).log.forwarded, F f
  sessions : ∀ i, (w.sessions i).exit = none → P (w.sessions i)

/-- Nothing has happened in a session yet. -/
structure Session.Fresh (s : Session σ) : Prop where
  held : s.held = none
  statements : s.statements = {}
  log : s.log = {}

theorem Session.Fresh.no_held {s : Session σ} (h : s.Fresh) {Q : Checkout σ → Prop} :
    ∀ co, s.held = some co → Q co := by
  intro co hco
  rw [h.held] at hco
  cases hco

/-- Nothing has happened yet: the sessions are fresh and the shelves are empty. -/
structure World.Fresh {ι : Type} (w : World ι σ) : Prop where
  sessions : ∀ i, (w.sessions i).Fresh
  shelves : ∀ p, w.shelves p = []

/-- A turn of one session that keeps `J`, `F` and `P` keeps them in the whole world. -/
theorem World.Holds.step {ι : Type} [DecidableEq ι] {w : World ι σ} {l : ι × Turn}
    (h : w.Holds J F P)
    (hkept : Kept J F P (w.relay l.1) (relayStep sha256 srv g (w.relay l.1) l.2)) :
    (worldStep sha256 srv g w l).Holds J F P := by
  refine ⟨fun p c hc => ?_, fun i f hf => ?_, fun i hexit => ?_⟩
  · rcases hkept.shelves p c hc with hc | hJ
    · exact h.shelves p c hc
    · exact hJ
  · by_cases hi : i = l.1
    · subst hi
      simp only [worldStep, Function.update_self] at hf
      rcases hkept.forwarded f hf with hf | hF
      · exact h.forwarded l.1 f hf
      · exact hF
    · simp only [worldStep, Function.update_of_ne hi] at hf
      exact h.forwarded i f hf
  · by_cases hi : i = l.1
    · subst hi
      simp only [worldStep, Function.update_self] at hexit ⊢
      exact hkept.session hexit
    · simp only [worldStep, Function.update_of_ne hi] at hexit ⊢
      exact h.sessions i hexit

/-- **The invariant rule.** What a fresh world satisfies and every turn that meets `ok` keeps holds in
every world reached by turns that meet `ok`. -/
theorem World.holds_of_along {ι : Type} [DecidableEq ι] {ok : Relay σ → Turn → Prop}
    {w : World ι σ} {ls : List (ι × Turn)} (hfresh : w.Fresh)
    (hstart : ∀ s : Session σ, s.Fresh → P s)
    (hrule : ∀ r t, (∀ p c, c ∈ r.shelves p → J c) → r.session.exit = none → P r.session → ok r t →
      TurnRule sha256 srv g r t J F P)
    (hrun : Along (worldStep sha256 srv g) (fun w l => ok (w.relay l.1) l.2) w ls) :
    (run (worldStep sha256 srv g) w ls).Holds J F P := by
  refine hrun.invariant ?_ ⟨fun p c hc => ?_, fun i f hf => ?_, fun i _ => hstart _ (hfresh.sessions i)⟩
  · intro w l hw hok
    by_cases hexit : (w.sessions l.1).exit = none
    · exact hw.step (relayStep_kept (hrule _ _ hw.shelves hexit (hw.sessions l.1 hexit) hok))
    · refine hw.step ?_
      rw [relayStep_ended sha256 srv g (r := w.relay l.1) hexit]
      exact ⟨fun p c hc => .inl hc, fun f hf => .inl hf, fun h => (hexit h).elim⟩
  · rw [hfresh.shelves p] at hc
    cases hc
  · rw [(hfresh.sessions i).log] at hf
    cases hf

/-- A world of new sessions. -/
def World.new (ι σ : Type) : World ι σ :=
  { sessions := fun _ => { statements := .new }, shelves := fun _ => [] }

theorem World.new_fresh (ι σ : Type) : (World.new ι σ).Fresh :=
  ⟨fun _ => ⟨rfl, rfl, rfl⟩, fun _ => rfl⟩

/-- **The invariant rule for one session.** What every turn that meets `ok` keeps, holds after every
run of turns that meet `ok`, as long as the session has not ended. -/
theorem session_of_along {ok : Session σ → Visit σ → Prop} {s : Session σ} {vs : List (Visit σ)}
    (hstart : P s)
    (hstep : ∀ s v, s.exit = none → P s → ok s v → (sessionStep sha256 srv g s v).exit = none →
      P (sessionStep sha256 srv g s v))
    (hrun : Along (sessionStep sha256 srv g) ok s vs)
    (hexit : (run (sessionStep sha256 srv g) s vs).exit = none) :
    P (run (sessionStep sha256 srv g) s vs) := by
  refine hrun.invariant (I := fun s => s.exit = none → P s) ?_ (fun _ => hstart) hexit
  intro s v hs hok hexit
  by_cases hbefore : s.exit = none
  · exact hstep s v hbefore (hs hbefore) hok hexit
  · rw [sessionStep_ended hbefore] at hexit
    exact absurd hexit hbefore

/-! ## Conditions on a turn -/

variable (srv g) in
/-- The exchange is not started over on the primary: when a replica serves it, the client's socket
takes the first reply, and the replica sends one. -/
def NoRestart (r : Relay σ) (t : Turn) : Prop :=
  ∀ msg s co, Forwards r t msg → Ready srv g r t msg s co → s.currentRoute.isReplica = true →
    expectsReply msg = true →
    t.clientAccepts ≠ some 0 ∧
      ∀ s' rs, srv.write co.conn.server msg = some (s', rs) → rs ≠ []

/-- Where the router never chooses a replica, none serves the session. -/
theorem Ready.not_replica {msg : Message} {s : Session σ} {co : Checkout σ}
    (hready : Ready srv g r t msg s co) (hroute : r.session.currentRoute.isReplica = false)
    (hchoose : ∀ msg, (chooseRoute g t msg r).1.isReplica = false) :
    s.currentRoute.isReplica = false := by
  cases hready with
  | held => exact hroute
  | borrowed _ hs =>
      cases hs with
      | chosen => exact hchoose msg
      | fellBack => rfl

/-- A session whose route is not a replica's never starts over. -/
theorem noRestart_of_primary (hroute : r.session.currentRoute.isReplica = false)
    (hchoose : ∀ msg, (chooseRoute g t msg r).1.isReplica = false) : NoRestart srv g r t := by
  intro msg s co _ hready hreplica _
  rw [hready.not_replica hroute hchoose] at hreplica
  cases hreplica

end Turn

/-! ## A plain pool -/

/-- A group with no replicas. -/
def Group.plain : Group :=
  { name := "main".toList, readWriteSplit := false, stickyAfterWrite := 0, weights := []
    supportsDiscardAll := true }

/-- Outside a transaction everything goes to the primary. -/
theorem chooseRoute_plain {σ : Type} {r : Relay σ} {t : Turn} {msg : Message}
    (h : r.session.routing.transactionRoute = none) :
    (chooseRoute .plain t msg r).1 = .primary .splitDisabled := by
  simp [chooseRoute, Group.decide, Group.plain, h]

/-- A turn in which a permit is granted and a connection can be opened. -/
def Turn.plain (event : Event) : Turn :=
  { event, acquire := .granted (fun _ => false) (.ok 0)
    fallback := .granted (fun _ => false) (.ok 0) }

/-- A turn of a session that finds the shelves empty. -/
def Visit.alone {σ : Type} (event : Event) : Visit σ :=
  { turn := .plain event, shelves := fun _ => [] }

end Havuz
