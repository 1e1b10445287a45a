import Havuz.Relay.Binding
import Havuz.Relay.Failover

/-!
# Writes reach the primary

The target is chosen once per checkout, from the message that causes it. Everything the session sends
until it gives the backend back goes to the same place, so a write that comes after a read in one
pipeline, or on a session that was pinned to a replica, is forwarded to a replica. `Segregated` says
that no such message comes.
-/

namespace Havuz

open Lib Sql

variable {σ : Type} {sha256 : Bytes → Bytes} {srv : Server σ} {g : Group}

/-! ## What a message runs -/

/-- The SQL of a message: the text of a Query or `Parse`, or of the statement a `Bind` names. -/
def messageSql (msg : Message) (statements : ClientStatements) : Option Text :=
  if msg.tag = byte 'Q' then some (textBody msg.body)
  else if msg.tag = byte 'P' then parseMessageSql msg.body
  else if msg.tag = byte 'B' then
    (secondField msg.body).bind fun name =>
      (statements.byName (Text.asBytes (fromUtf8Lossy name))).map fun s => fromUtf8Lossy s.sql
  else none

/-- The message carries a write. -/
def writes (msg : Message) (statements : ClientStatements) : Bool :=
  (messageSql msg statements).any fun sql => routeIntent sql false = .write

/-- The last statement of a message that opens a transaction: whether explicitly a read-only one. -/
def opener (msg : Message) (statements : ClientStatements) : Option Bool :=
  (messageSql msg statements).bind fun sql =>
    ((splitStatements sql).filter opensTransaction).getLast?.map startsReadOnlyTransaction

/-- A message that carries a write is routed as one. -/
theorem messageIntent_of_writes {msg : Message} {statements : ClientStatements}
    (h : writes msg statements = true) : messageIntent msg statements false = .write := by
  unfold writes messageSql at h
  unfold messageIntent
  split at h
  case isTrue hQ => simpa [hQ] using h
  case isFalse hQ =>
    rw [if_neg hQ]
    split at h
    case isTrue hP =>
      rw [if_pos hP]
      cases hsql : secondField msg.body with
      | none => rfl
      | some sql => simpa [parseMessageSql, hsql] using h
    case isFalse hP =>
      rw [if_neg hP]
      split at h
      case isFalse hB => rw [if_neg hB]
      case isTrue hB =>
        rw [if_pos hB]
        cases hname : secondField msg.body with
        | none => rfl
        | some name =>
            simp only [hname, Option.bind_some] at h ⊢
            cases hst : statements.byName (Text.asBytes (fromUtf8Lossy name)) with
            | none => rfl
            | some st => simpa [hst] using h

/-! ## The observer -/

/-- What an observer remembers of a session. -/
structure BlockWatch where
  /-- The last opener of the exchange in progress. -/
  opener : Option Bool := none
  /-- Where the block the session is inside was opened, and whether by a read-only opener. -/
  block : Option (Route × Bool) := none
deriving DecidableEq, Repr

/-- The message of a turn, if it is one. -/
def Visit.message (v : Visit σ) : Option Message :=
  match v.turn.event with
  | .message msg => some msg
  | _ => none

/-- The last opener of the exchange, with the message of this turn. -/
def BlockWatch.opens (s : Session σ) (v : Visit σ) (w : BlockWatch) : Option Bool :=
  (v.message.bind fun msg => Havuz.opener msg s.statements).or w.opener

/-- What the observer remembers after a turn from `s` to `s'`. A block is over when the session is idle or
has lost its backend, and another one is opened when an exchange inside it has an opener. -/
def BlockWatch.next (s : Session σ) (v : Visit σ) (s' : Session σ) (w : BlockWatch) : BlockWatch where
  opener := if s.exchanges < s'.exchanges then none else w.opens s v
  block :=
    if s'.state.inTransaction = false ∨ s'.held.isNone then none
    else if s.state.inTransaction ∧ s'.checkouts = s.checkouts then
      if s.exchanges < s'.exchanges then
        match w.opens s v with
        | some readOnly => some (s'.currentRoute, readOnly)
        | none => w.block
      else w.block
    else some (s'.currentRoute, (w.opens s v).getD false)

/-! ## The condition -/

variable (sha256 srv g) in
/-- The condition under which writes reach the primary. -/
structure Segregated (x : Session σ × BlockWatch) (v : Visit σ) : Prop where
  /-- Outside a transaction, an exchange that began on a replica goes on without writes. -/
  pipeline : ∀ msg, Forwards (v.relay x.1) v.turn msg → x.1.currentRoute.isReplica = true →
    x.1.exchange ≠ [] → x.1.state.inTransaction = false → writes msg x.1.statements = false
  /-- A session is not pinned while it uses a replica. -/
  pins : ∀ msg s co, Forwards (v.relay x.1) v.turn msg → Ready srv g (v.relay x.1) v.turn msg s co →
    s.currentRoute.isReplica = true → s.state.pin = none
  /-- A replica reports a transaction only after an exchange with a read-only opener. -/
  opens : ∀ msg s co out st c c' replies e delivered c'',
    Sends sha256 srv g (v.relay x.1) v.turn msg s co out st c c' replies →
    c'.pumpUntilReady v.turn.clientAccepts = (some e, delivered, c'') →
    s.currentRoute.isReplica = true → x.1.state.inTransaction = false → e.status ≠ .idle →
    x.2.opens x.1 v = some true
  /-- Inside a transaction on a replica no other one is opened than read-only ones. -/
  reopens : ∀ msg, Forwards (v.relay x.1) v.turn msg → x.1.currentRoute.isReplica = true →
    x.1.state.inTransaction = true → opener msg x.1.statements ≠ some false
  /-- Inside a transaction a replica takes what is forwarded to it. -/
  takes : ∀ msg s co out st c, Forwards (v.relay x.1) v.turn msg →
    Ready srv g (v.relay x.1) v.turn msg s co → s.currentRoute.isReplica = true →
    x.1.state.inTransaction = true →
    outgoing sha256 srv (prepareParse srv) msg s.statements co.conn = .send out st c →
    srv.write c.server out ≠ none

/-- What holds in every state of a segregated run. -/
structure Apart (s : Session σ) (w : BlockWatch) : Prop where
  writable : s.policy.readOnly = none
  mode : s.state.mode = .transaction
  fit : s.state.broken = false
  idle : s.state.inTransaction = false → s.routing.transactionRoute = none
  holds : s.state.inTransaction = true → s.held ≠ none
  /-- A replica is held inside a read-only transaction, or in the middle of an exchange. -/
  replica : ∀ i, s.held ≠ none → s.currentRoute = .replica i → s.state.pin = none ∧
    (s.state.inTransaction = true → w.block = some (.replica i, true) ∧ w.opener ≠ some false) ∧
    (s.state.inTransaction = false → s.exchange ≠ [])

section Step

variable {s s₁ s' : Session σ} {w : BlockWatch} {v : Visit σ} {msg : Message}

/-- Inside a transaction the observer keeps the block unless another one is opened. -/
theorem BlockWatch.next_inside {i : ℕ} (hblock : w.block = some (.replica i, true))
    (hopens : w.opens s v ≠ some false) (hbefore : s.state.inTransaction = true)
    (htx : s'.state.inTransaction = true) (hheld : s'.held ≠ none) (hroute : s'.currentRoute = .replica i)
    (hcheckouts : s'.checkouts = s.checkouts) :
    (w.next s v s').block = some (.replica i, true) ∧ (w.next s v s').opener ≠ some false := by
  simp only [next, htx, hheld, hbefore, hcheckouts, hroute, Option.isNone_iff_eq_none, or_self,
    Bool.true_eq_false, if_false, and_self, if_true, hblock]
  split
  · cases hopened : w.opens s v with
    | none => exact ⟨rfl, nofun⟩
    | some readOnly =>
        cases readOnly with
        | false => exact absurd hopened hopens
        | true => exact ⟨rfl, nofun⟩
  · exact ⟨rfl, hopens⟩

/-- A message inside a transaction on a replica opens a read-only one at most. -/
theorem Segregated.opens_inside (ok : Segregated sha256 srv g (s, w) v)
    (hfwd : Forwards (v.relay s) v.turn msg) (hopener : w.opener ≠ some false)
    (hroute : s.currentRoute.isReplica = true) (htx : s.state.inTransaction = true) :
    w.opens s v ≠ some false := by
  have hmsg : v.message = some msg := by rw [Visit.message, hfwd.event]
  have hread := ok.reopens msg hfwd hroute htx
  rw [BlockWatch.opens, hmsg, Option.bind_some]
  cases h : Havuz.opener msg s.statements with
  | none => exact hopener
  | some readOnly =>
      rw [h] at hread
      exact hread

/-- The session waits for more of the exchange. -/
theorem Apart.waiting (h : Apart s w) (ok : Segregated sha256 srv g (s, w) v)
    (hfwd : Forwards (v.relay s) v.turn msg) (hprep : Prepared s s₁ msg)
    (hpin : s₁.currentRoute.isReplica = true → s₁.state.pin = none) (hstate : s'.state = s₁.state)
    (hpolicy : s'.policy = s₁.policy) (hexchange : s'.exchange = s₁.exchange)
    (hrouting : s'.routing = s₁.routing) (hroute : s'.currentRoute = s₁.currentRoute)
    (hcheckouts : s'.checkouts = s₁.checkouts) (hheld : s'.held ≠ none) :
    Apart s' (w.next s v s') := by
  obtain ⟨pin, harrive⟩ := hprep.pinned
  have hsame : s'.state = { s.state with pin } := hstate.trans harrive
  refine ⟨by rw [hpolicy, hprep.policy, h.writable], by rw [hsame, h.mode], by rw [hsame, h.fit],
    fun hidle => ?_, fun _ => hheld, fun i _ hi => ⟨?_, fun htx => ?_, fun _ => ?_⟩⟩
  · rw [hrouting, hprep.transactionRoute]
    exact h.idle (by rw [hsame] at hidle; exact hidle)
  · rw [hstate]
    exact hpin (by rw [← hroute, hi]; rfl)
  · have hbefore : s.state.inTransaction = true := by rw [hsame] at htx; exact htx
    obtain ⟨hsome, -, hroute₁, hcheckouts₁⟩ | ⟨hnone, -⟩ := hprep.target
    · have hroute₀ : s.currentRoute = .replica i := by rw [← hroute₁, ← hroute, hi]
      obtain ⟨hblock, hopener⟩ := (h.replica i hsome hroute₀).2.1 hbefore
      exact w.next_inside hblock (ok.opens_inside hfwd hopener (by rw [hroute₀]; rfl) hbefore) hbefore htx
        hheld hi (hcheckouts.trans hcheckouts₁)
    · exact absurd hnone (h.holds hbefore)
  · rw [hexchange, hprep.exchange]
    simp

/-- The exchange is over. -/
theorem Apart.finished (h : Apart s w) (ok : Segregated sha256 srv g (s, w) v)
    (hfwd : Forwards (v.relay s) v.turn msg) (hprep : Prepared s s₁ msg)
    (hpin : s₁.currentRoute.isReplica = true → s₁.state.pin = none) (s₂ : Session σ)
    (hstate : s₂.state = s₁.state) (hpolicy : s₂.policy = s₁.policy)
    (hroute : s₂.currentRoute.isReplica = true →
      s₂.currentRoute = s₁.currentRoute ∧ s₂.checkouts = s₁.checkouts)
    {co : Checkout σ} {e : ExchangeEnd}
    (hopens : s₂.currentRoute.isReplica = true → s.state.inTransaction = false → e.status ≠ .idle →
      w.opens s v = some true)
    (hs' : s' = s₂.finished co e) : Apart s' (w.next s v s') := by
  obtain ⟨pin, harrive⟩ := hprep.pinned
  have hsame : s₂.state = { s.state with pin } := hstate.trans harrive
  obtain ⟨tx, hfinished⟩ := s₂.state_finished co e
  have hafter : s'.state = { s.state with pin, inTransaction := tx } := by rw [hs', hfinished, hsame]
  refine ⟨?_, by rw [hafter, h.mode], by rw [hafter, h.fit], fun hidle => ?_, fun htx => ?_,
    fun i hheld hi => ?_⟩
  · rw [hs', Session.policy_finished, hpolicy, hprep.policy, h.writable]
  · rw [hs', Session.inTransaction_finished] at hidle
    rw [hs', Session.transactionRoute_finished, if_pos (by simpa using hidle)]
  · rw [hs'] at htx ⊢
    exact Session.held_finished _ _ _ htx
  · have hi₂ : s₂.currentRoute = .replica i := by rw [← hi, hs', Session.currentRoute_finished]
    obtain ⟨hroute₁, hcheckouts⟩ := hroute (by rw [hi₂]; rfl)
    have hpin₁ : s₁.state.pin = none := hpin (by rw [← hroute₁, hi₂]; rfl)
    have hpinned : s₂.state.pin = none := by rw [hstate, hpin₁]
    have htx : s'.state.inTransaction = true := by
      rw [hs'] at hheld ⊢
      exact s₂.kept_of_held co e hheld (by rw [hsame, h.mode]) (by rw [hsame, h.fit]) hpinned
    refine ⟨?_, fun _ => ?_, fun hidle => ?_⟩
    · rw [hs', hfinished, hpinned]
    · by_cases hbefore : s.state.inTransaction = true
      · obtain ⟨hsome, -, hroute', hcheckouts'⟩ | ⟨hnone, -⟩ := hprep.target
        · have hroute₀ : s.currentRoute = .replica i := by rw [← hroute', ← hroute₁, hi₂]
          obtain ⟨hblock, hopener⟩ := (h.replica i hsome hroute₀).2.1 hbefore
          have hsamecount : s'.checkouts = s.checkouts := by
            rw [hs', Session.checkouts_finished, hcheckouts, hcheckouts']
          exact w.next_inside hblock (ok.opens_inside hfwd hopener (by rw [hroute₀]; rfl) hbefore) hbefore
            htx hheld hi hsamecount
        · exact absurd hnone (h.holds hbefore)
      · have hbefore : s.state.inTransaction = false := by simpa using hbefore
        have hstatus : e.status ≠ .idle := by
          rw [hs', Session.inTransaction_finished] at htx
          simpa using htx
        have hopened : w.opens s v = some true := hopens (by rw [hi₂]; rfl) hbefore hstatus
        simp [BlockWatch.next, htx, hheld, hbefore, hi, hopened]
    · rw [htx] at hidle
      cases hidle

/-- Every way a turn of a segregated run can end. -/
theorem Apart.rule (h : Apart s w) (ok : Segregated sha256 srv g (s, w) v) :
    SessionRule sha256 srv g (v.relay s) v.turn fun s' => Apart s' (w.next s v s') := by
  constructor
  case idle =>
    intro hevent
    refine ⟨h.writable, h.mode, h.fit, h.idle, h.holds, fun i hheld hi => ?_⟩
    obtain ⟨hpin, hinside, hexchange⟩ := h.replica i hheld hi
    refine ⟨hpin, fun htx => ?_, hexchange⟩
    obtain ⟨hblock, hopener⟩ := hinside htx
    have hopens : w.opens s v = w.opener := by simp [BlockWatch.opens, Visit.message, hevent]
    exact w.next_inside hblock (by rw [hopens]; exact hopener) htx htx hheld hi rfl
  case policy =>
    intro msg reason _ hrefused
    rw [Visit.session_relay] at hrefused
    simp [refusedByPolicy, h.writable] at hrefused
  case refused =>
    intro msg s₁ co e hfwd hready _
    exact h.waiting ok hfwd hready.prepared (ok.pins msg s₁ co hfwd hready) rfl rfl rfl rfl rfl rfl
      (by rw [Session.held_refuse, hready.held_eq]; simp)
  case dropped =>
    intro msg s₁ co out st c hfwd hready hout hwrite hroute
    have hprep := hready.prepared
    have hidle : s.state.inTransaction = false := by
      by_contra htx
      exact ok.takes msg s₁ co out st c hfwd hready hroute (by simpa using htx) hout hwrite
    obtain ⟨pin, hsame⟩ := hprep.pinned
    refine ⟨?_, ?_, ?_, fun _ => ?_, fun htx => ?_, fun i hheld => absurd rfl hheld⟩
    · exact hprep.policy ▸ h.writable
    · exact hsame ▸ h.mode
    · exact hsame ▸ h.fit
    · exact hprep.transactionRoute.trans (h.idle hidle)
    · change s₁.state.inTransaction = true at htx
      rw [hsame] at htx
      exact absurd htx (by simp [hidle])
  case pipelined =>
    intro msg s₁ co out st c c' replies hsends _
    exact h.waiting ok hsends.forwards hsends.ready.prepared (ok.pins msg s₁ co hsends.forwards hsends.ready) rfl rfl rfl
      rfl rfl rfl (Option.some_ne_none _)
  case answered =>
    intro msg s₁ co out st c c' replies e delivered c'' hsends _ hpump
    exact h.finished ok hsends.forwards hsends.ready.prepared (ok.pins msg s₁ co hsends.forwards hsends.ready)
      ((s₁.afterSend msg out st co c c' replies).answered delivered) rfl rfl (fun _ => ⟨rfl, rfl⟩)
      (ok.opens msg s₁ co out st c c' replies e delivered c'' hsends hpump) rfl
  case replayed =>
    intro msg s₁ co out st c c' replies c'' s₂ delivered co' e _ _ hsends _ _ _ hreplayed _
    obtain ⟨statements, toReplica, paramSyncs, log, hs₂⟩ := hreplayed.session
    have hprimary : (s₂.answered delivered).currentRoute = .primary .noReplicaAvailable := by
      rw [hs₂]
      rfl
    refine h.finished ok hsends.forwards hsends.ready.prepared (ok.pins msg s₁ co hsends.forwards hsends.ready)
      (s₂.answered delivered) (by rw [hs₂]; rfl) (by rw [hs₂]; rfl) (fun hroute => ?_)
      (fun hroute => ?_) rfl
    · rw [hprimary] at hroute
      cases hroute
    · rw [hprimary] at hroute
      cases hroute

end Step

/-! ## The run -/

variable (sha256 srv g) in
/-- A turn of a session under the eyes of the observer. -/
def blockStep (x : Session σ × BlockWatch) (v : Visit σ) : Session σ × BlockWatch :=
  watchStep sha256 srv g id (fun s v s' w => w.next s v s') x v

theorem apart_of_run {s : Session σ} (hnew : s.New) (hwritable : s.policy.readOnly = none)
    {vs : List (Visit σ)} (hrun : Along (blockStep sha256 srv g) (Segregated sha256 srv g) (s, {}) vs)
    (hexit : (run (blockStep sha256 srv g) (s, {}) vs).1.exit = none) :
    Apart (run (blockStep sha256 srv g) (s, {}) vs).1 (run (blockStep sha256 srv g) (s, {}) vs).2 := by
  refine watch_of_along (P := Apart) ?_ ?_ hrun hexit
  · refine ⟨hwritable, by rw [hnew.state], by rw [hnew.state], fun _ => by rw [hnew.routing],
      fun htx => ?_, fun i hheld => absurd hnew.held hheld⟩
    rw [hnew.state] at htx
    cases htx
  · intro s w v _ happart hok hnext
    exact relayStep_session (happart.rule hok) hnext

/-- A write that needs a backend is sent to the primary. -/
theorem Group.decide_write {s : SessionRouting} (hnone : s.transactionRoute = none)
    (input : RouterInput) : (g.decide .write s input).1.isReplica = false := by
  unfold Group.decide
  rw [hnone]
  dsimp only
  split
  · rfl
  · rfl

/-- **Writes reach the primary.** In a segregated run, a write goes to a replica only inside a block
that was opened there by an explicitly read-only opener. -/
theorem writes_reach_primary {s₀ : Session σ} (hnew : s₀.New) (hwritable : s₀.policy.readOnly = none)
    {vs : List (Visit σ)} {v : Visit σ}
    (hrun : Along (blockStep sha256 srv g) (Segregated sha256 srv g) (s₀, {}) (vs ++ [v]))
    {msg : Message} {i : ℕ}
    (hover : handsOver sha256 srv g (v.relay (run (blockStep sha256 srv g) (s₀, {}) vs).1) v.turn =
      some (msg, .replica i))
    (hwrites : writes msg (run (blockStep sha256 srv g) (s₀, {}) vs).1.statements = true) :
    (run (blockStep sha256 srv g) (s₀, {}) vs).1.state.inTransaction = true ∧
      (run (blockStep sha256 srv g) (s₀, {}) vs).2.block = some (.replica i, true) := by
  obtain ⟨hrun, hok, -⟩ := Along.append.mp hrun
  obtain ⟨hexit, s₁, co, hfwd, hready, hroute⟩ := handsOver_ready hover
  have happart := apart_of_run hnew hwritable hrun hexit
  generalize run (blockStep sha256 srv g) (s₀, {}) vs = x at *
  by_cases hheld : x.1.held = none
  · have hidle : x.1.state.inTransaction = false := by
      by_contra htx
      exact happart.holds (by simpa using htx) hheld
    have hprimary : (chooseRoute g v.turn msg (v.relay x.1)).1.isReplica = false := by
      simp only [chooseRoute, Visit.session_relay, happart.writable, Option.isSome_none,
        messageIntent_of_writes hwrites]
      exact Group.decide_write (happart.idle hidle) _
    rcases (hready.route_borrowed hheld).2 with h | h
    · rw [← h, hroute] at hprimary
      cases hprimary
    · rw [hroute] at h
      cases h
  · obtain ⟨-, -, hsame, -⟩ | ⟨hnone, -⟩ := hready.prepared.target
    · have hreplica : x.1.currentRoute = .replica i := hsame ▸ hroute
      obtain ⟨-, hblock, hexchange⟩ := happart.replica i hheld hreplica
      by_cases htx : x.1.state.inTransaction = true
      · exact ⟨htx, (hblock htx).1⟩
      · have hidle : x.1.state.inTransaction = false := by simpa using htx
        have hread := hok.pipeline msg hfwd (by rw [hreplica]; rfl) (hexchange hidle) hidle
        rw [hread] at hwrites
        cases hwrites
    · exact absurd hnone hheld

/-! ## A replica inside and outside a transaction -/

/-- A group with one replica. -/
def Group.split : Group :=
  { name := "main".toList, readWriteSplit := true, stickyAfterWrite := 0, weights := [1]
    supportsDiscardAll := true }

/-- A server that also knows how to open a read-only transaction. -/
def Mini.standby : Server Mini.State where
  start := Mini.server.start
  write s m :=
    Mini.server.write s (if m = .query "BEGIN READ ONLY".toList then .query "BEGIN".toList else m)
  flush := Mini.server.flush

theorem Mini.standby_write (s : Mini.State) (m : Message) : Mini.standby.write s m ≠ none :=
  Option.some_ne_none _

/-- A turn that begins an exchange with a read-only opener, or is inside a transaction. -/
theorem segregated_of {s : Session σ} {w : BlockWatch} {v : Visit σ} {msg : Message}
    (hevent : v.turn.event = .message msg) (hwrite : ∀ s m, srv.write s m ≠ none)
    (hpin : ((s.receive msg).arrive msg).state.pin = none)
    (hexchange : s.exchange = [] ∨ s.state.inTransaction = true)
    (hopens : s.state.inTransaction = true ∨ w.opens s v = some true)
    (hreopens : opener msg s.statements ≠ some false) : Segregated sha256 srv g (s, w) v := by
  have hmsg : ∀ msg', Forwards (v.relay s) v.turn msg' → msg' = msg := by
    intro msg' hfwd
    have := hfwd.event.symm.trans hevent
    cases this
    rfl
  constructor
  case pipeline =>
    intro _ _ _ hne hidle
    rcases hexchange with h | h
    · exact absurd h hne
    · rw [h] at hidle
      cases hidle
  case pins =>
    intro msg' s₁ co hfwd hready _
    rw [hready.prepared.state, hmsg msg' hfwd]
    exact hpin
  case opens =>
    intro _ _ _ _ _ _ _ _ _ _ _ _ _ _ hidle _
    rcases hopens with h | h
    · rw [h] at hidle
      cases hidle
    · exact h
  case reopens =>
    intro msg' hfwd _ _
    rw [hmsg msg' hfwd]
    exact hreopens
  case takes => exact fun _ _ _ _ _ _ _ _ _ _ _ => hwrite _ _

/-- The turns of a client that writes inside a read-only transaction. -/
def readOnlyTurns : List (Visit Mini.State) :=
  [.alone (.message (.query "BEGIN READ ONLY".toList)),
    .alone (.message (.query "INSERT INTO t VALUES (1)".toList))]

theorem writes_reach_primary_read_only :
    (run (blockStep sampleDigest Mini.standby .split) ({}, {})
        (readOnlyTurns.take 1)).1.state.inTransaction = true ∧
      (run (blockStep sampleDigest Mini.standby .split) ({}, {}) (readOnlyTurns.take 1)).2.block =
        some (.replica 0, true) := by
  have hrun : Along (blockStep sampleDigest Mini.standby .split) (Segregated sampleDigest Mini.standby .split)
      ({}, {}) (readOnlyTurns.take 1 ++ [.alone (.message (.query "INSERT INTO t VALUES (1)".toList))]) := by
    refine ⟨?_, ?_, trivial⟩
    · exact segregated_of rfl Mini.standby_write (by decide +kernel) (.inl rfl) (.inr (by decide +kernel))
        (by decide +kernel)
    · exact segregated_of rfl Mini.standby_write (by decide +kernel) (.inr (by decide +kernel))
        (.inl (by decide +kernel)) (by decide +kernel)
  have hover : handsOver sampleDigest Mini.standby .split
      ((Visit.alone (.message (.query "INSERT INTO t VALUES (1)".toList))).relay
        (run (blockStep sampleDigest Mini.standby .split) ({}, {}) (readOnlyTurns.take 1)).1)
      (.plain (.message (.query "INSERT INTO t VALUES (1)".toList))) =
        some (.query "INSERT INTO t VALUES (1)".toList, .replica 0) := by
    decide +kernel
  exact writes_reach_primary ⟨⟨rfl, rfl, rfl⟩, rfl, rfl, rfl, rfl⟩ rfl hrun hover (by decide +kernel)

/-- The second statement of a pipeline follows the first one to the replica. -/
theorem not_writes_reach_primary :
    ¬ ∀ (s₀ : Session Mini.State) (vs : List (Visit Mini.State)) (v : Visit Mini.State) (msg : Message)
        (i : ℕ), s₀.New → s₀.policy.readOnly = none →
      handsOver sampleDigest Mini.server .split
        (v.relay (run (blockStep sampleDigest Mini.server .split) (s₀, {}) vs).1) v.turn =
          some (msg, .replica i) →
      writes msg (run (blockStep sampleDigest Mini.server .split) (s₀, {}) vs).1.statements = true →
      (run (blockStep sampleDigest Mini.server .split) (s₀, {}) vs).1.state.inTransaction = true ∧
        (run (blockStep sampleDigest Mini.server .split) (s₀, {}) vs).2.block = some (.replica i, true) := by
  intro h
  have hblock := (h {} [.alone (.message (parseUnnamed "SELECT 1".toList))]
    (.alone (.message (parseUnnamed "INSERT INTO t VALUES (1)".toList)))
    (parseUnnamed "INSERT INTO t VALUES (1)".toList) 0 ⟨⟨rfl, rfl, rfl⟩, rfl, rfl, rfl, rfl⟩ rfl
    (by decide +kernel) (by decide +kernel)).1
  revert hblock
  decide +kernel

end Havuz
