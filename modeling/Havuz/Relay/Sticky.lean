import Havuz.Relay.Delivery

/-!
# Reads after a write

The sticky window is looked at, and started, only when a backend is acquired: it runs from the moment
a checkout began with a message that was not provably a read. A write on a backend that is already
held, and the time a write takes, do not count. An observer with a clock remembers when the writes of
the session completed; `Covered` says that the window of the router covers theirs.
-/

namespace Havuz

open Lib Sql

variable {σ : Type} {sha256 : Bytes → Bytes} {srv : Server σ} {g : Group}

/-! ## A decision -/

/-- Choosing a target starts the window exactly when the message is not provably a read. -/
theorem lastWrite_decide (g : Group) (intent : RouteIntent) (s : SessionRouting) (input : RouterInput) :
    (g.decide intent s input).2.lastWrite =
      if intent = .write then some input.now else s.lastWrite := by
  have hnoted : (if intent = .write then s.noteWrite input.now else s).lastWrite =
      if intent = .write then some input.now else s.lastWrite := by
    split <;> rfl
  unfold Group.decide
  cases s.transactionRoute with
  | some route => cases route <;> exact hnoted
  | none =>
      dsimp only
      by_cases hoff : (!g.readWriteSplit) = true ∨ g.weights = []
      · rw [if_pos hoff]
        exact hnoted
      rw [if_neg hoff]
      by_cases hwrite : intent = .write
      · rw [if_pos hwrite]
        exact hnoted
      rw [if_neg hwrite, if_neg hwrite]
      by_cases hsticky : s.isSticky input.now g.stickyAfterWrite = true
      · rw [if_pos hsticky]
      rw [if_neg hsticky]
      cases g.pickReplica input <;> rfl

/-- Outside a transaction a replica is chosen for a read outside the window. -/
theorem Group.decide_replica {intent : RouteIntent} {s : SessionRouting} {input : RouterInput} {i : ℕ}
    (hnone : s.transactionRoute = none) (h : (g.decide intent s input).1 = .replica i) :
    intent = .read ∧ s.isSticky input.now g.stickyAfterWrite = false := by
  revert h
  unfold Group.decide
  rw [hnone]
  dsimp only
  by_cases hoff : (!g.readWriteSplit) = true ∨ g.weights = []
  · rw [if_pos hoff]
    exact fun h => (by cases h)
  rw [if_neg hoff]
  by_cases hwrite : intent = .write
  · rw [if_pos hwrite]
    exact fun h => (by cases h)
  rw [if_neg hwrite]
  by_cases hsticky : s.isSticky input.now g.stickyAfterWrite = true
  · rw [if_pos hsticky]
    exact fun h => (by cases h)
  · intro _
    refine ⟨?_, by simpa using hsticky⟩
    cases intent with
    | read => rfl
    | write => exact absurd rfl hwrite

/-- The window covers what is less than its length ago. -/
theorem SessionRouting.isSticky_of_lt {s : SessionRouting} {now window n : ℕ}
    (hlast : s.lastWrite = some n) (hlt : now < n + window) (hwindow : 0 < window) :
    s.isSticky now window = true := by
  rw [isSticky, if_neg (by omega), hlast]
  exact decide_eq_true (by omega)

/-! ## The observer -/

/-- The message for which this turn has to acquire a backend. -/
def Session.begins (s : Session σ) (v : Visit σ) : Option Message :=
  if s.held.isSome then none
  else v.message.filter fun msg =>
    (refusedByPolicy s.policy msg).isNone && decide (classify msg ≠ .terminate)

/-- The intent a message is routed by. -/
def Session.intent (s : Session σ) (msg : Message) : RouteIntent :=
  messageIntent msg s.statements s.policy.readOnly.isSome

/-- The message carries a write of this session. -/
def Session.writes (s : Session σ) (msg : Message) : Bool :=
  (messageSql msg s.statements).any fun sql => routeIntent sql s.policy.readOnly.isSome = .write

/-- A turn, and the time at which it was over. -/
abbrev TimedVisit (σ : Type) := Visit σ × ℕ

/-- What an observer with a clock remembers. -/
structure WriteWatch where
  /-- The exchange in progress carries a write. -/
  writing : Bool := false
  /-- When the exchanges that carried a write completed. -/
  completed : List ℕ := []
  /-- Those that had when the backend now held was acquired. -/
  before : List ℕ := []
  /-- When a checkout last began with a message that was not provably a read. -/
  noted : Option ℕ := none
  clock : ℕ := 0
deriving DecidableEq, Repr

/-- What the observer remembers after a turn from `s` to `s'`. -/
def WriteWatch.next (s : Session σ) (l : TimedVisit σ) (s' : Session σ) (w : WriteWatch) : WriteWatch :=
  let writing := w.writing || l.1.message.any s.writes
  let concluded := decide (s.log.history.length < s'.log.history.length)
  { writing := writing && !concluded
    completed := if concluded && writing then w.completed ++ [l.2] else w.completed
    before := if s.checkouts < s'.checkouts then w.completed else w.before
    noted := match s.begins l.1 with
      | some msg => if s.intent msg = .write then some l.1.turn.now else w.noted
      | none => w.noted
    clock := l.2 }

/-- The writes that had completed when the backend of this turn's message was acquired. -/
def WriteWatch.seen (s : Session σ) (w : WriteWatch) : List ℕ :=
  if s.held.isNone then w.completed else w.before

/-! ## The condition -/

variable (sha256 srv g) in
/-- The condition under which reads stay on the primary after a write. -/
structure Covered (x : Session σ × WriteWatch) (l : TimedVisit σ) : Prop where
  /-- Time does not go back. -/
  clock : x.2.clock ≤ l.1.turn.now ∧ l.1.turn.now ≤ l.2
  /-- Inside a transaction a replica takes what is forwarded to it. -/
  takes : ∀ msg s co out st c, Forwards (l.1.relay x.1) l.1.turn msg →
    Ready srv g (l.1.relay x.1) l.1.turn msg s co → s.currentRoute.isReplica = true →
    x.1.state.inTransaction = true →
    outgoing sha256 srv (prepareParse srv) msg s.statements co.conn = .send out st c →
    srv.write c.server out ≠ none
  /-- A read that needs a backend and comes less than a window after a write completed comes less than a
  window after a checkout last began with a write. -/
  recent : ∀ msg, x.1.begins l.1 = some msg → x.1.intent msg = .read → ∀ t ∈ x.2.completed,
    l.1.turn.now < t + g.stickyAfterWrite →
    ∃ n, x.2.noted = some n ∧ l.1.turn.now < n + g.stickyAfterWrite

/-! ## A turn -/

/-- What holds in every state of a covered run. -/
structure Watched (g : Group) (s : Session σ) (w : WriteWatch) : Prop where
  noted : s.routing.lastWrite = w.noted
  idle : s.state.inTransaction = false → s.routing.transactionRoute = none
  holds : s.state.inTransaction = true → s.held ≠ none
  /-- A replica that is held was acquired outside the window of every write before that. -/
  replica : ∀ i, s.held ≠ none → s.currentRoute = .replica i → ∀ t ∈ w.before,
    t + g.stickyAfterWrite ≤ w.clock

section Step

variable {s s₁ s' : Session σ} {w : WriteWatch} {l : TimedVisit σ} {msg : Message} {co : Checkout σ}

theorem Forwards.begins (hfwd : Forwards (l.1.relay s) l.1.turn msg) (hheld : s.held = none) :
    s.begins l.1 = some msg := by
  have haccepted : refusedByPolicy s.policy msg = none := hfwd.accepted
  simp [Session.begins, hheld, hfwd.message, haccepted, hfwd.stays]

theorem Session.begins_held (hheld : s.held ≠ none) (v : Visit σ) : s.begins v = none := by
  rw [begins, if_pos (Option.isSome_iff_ne_none.mpr hheld)]

/-- Outside a transaction a session without a backend is not bound to a target. -/
theorem Watched.unbound (h : Watched g s w) (hheld : s.held = none) :
    s.routing.transactionRoute = none := by
  refine h.idle ?_
  by_contra htx
  exact h.holds (by simpa using htx) hheld

/-- Getting ready keeps the time of the last write, or notes one. -/
theorem Watched.ready (h : Watched g s w) (hfwd : Forwards (l.1.relay s) l.1.turn msg)
    (hready : Ready srv g (l.1.relay s) l.1.turn msg s₁ co) :
    s₁.routing.lastWrite = (w.next s l s').noted := by
  have hprep : Prepared s s₁ msg := hready.prepared
  obtain ⟨hheld, hrouting, -⟩ | ⟨hnone, -⟩ := hprep.target
  · rw [hrouting]
    simp only [WriteWatch.next, Session.begins_held hheld]
    exact h.noted
  · rw [(hready.route_borrowed hnone).1]
    simp only [WriteWatch.next, hfwd.begins hnone]
    rw [← h.noted]
    exact lastWrite_decide _ _ _ _

/-- A replica is used outside the window of every write before its backend was acquired. -/
theorem Watched.outside (h : Watched g s w) (ok : Covered sha256 srv g (s, w) l)
    (hwindow : 0 < g.stickyAfterWrite) (hfwd : Forwards (l.1.relay s) l.1.turn msg)
    (hready : Ready srv g (l.1.relay s) l.1.turn msg s₁ co) {i : ℕ} (hi : s₁.currentRoute = .replica i) :
    ∀ t ∈ w.seen s, t + g.stickyAfterWrite ≤ l.1.turn.now := by
  intro t ht
  have hprep : Prepared s s₁ msg := hready.prepared
  obtain ⟨hheld, -, hroute, -⟩ | ⟨hnone, -⟩ := hprep.target
  · have hbefore : t ∈ w.before := by
      rwa [WriteWatch.seen, if_neg (by simpa using hheld)] at ht
    have hbound := h.replica i hheld (hroute ▸ hi) t hbefore
    exact hbound.trans ok.clock.1
  · have hcompleted : t ∈ w.completed := by
      rwa [WriteWatch.seen, if_pos (by simp [hnone])] at ht
    have hchosen : (chooseRoute g l.1.turn msg (l.1.relay s)).1 = .replica i := by
      rcases (hready.route_borrowed hnone).2 with h | h
      · rw [← h, hi]
      · rw [hi] at h
        cases h
    obtain ⟨hread, hloose⟩ := Group.decide_replica (h.unbound hnone) hchosen
    by_contra hlate
    obtain ⟨n, hnoted, hrecent⟩ := ok.recent msg (hfwd.begins hnone) hread t hcompleted (by omega)
    rw [SessionRouting.isSticky_of_lt (h.noted.trans hnoted) hrecent hwindow] at hloose
    cases hloose

/-- The observer's view of the writes before a checkout, after the turn. -/
theorem WriteWatch.before_next (hready : Ready srv g (l.1.relay s) l.1.turn msg s₁ co)
    (hcheckouts : s'.checkouts = s₁.checkouts) : (w.next s l s').before = w.seen s := by
  have hprep : Prepared s s₁ msg := hready.prepared
  obtain ⟨hheld, -, -, hsame⟩ | ⟨hnone, hmore⟩ := hprep.target
  · have hsame : s'.checkouts = s.checkouts := hcheckouts.trans hsame
    simp [next, seen, hheld, hsame]
  · have hmore : s'.checkouts = s.checkouts + 1 := hcheckouts.trans hmore
    simp [next, seen, hnone, hmore]

/-- The session waits for more of the exchange. -/
theorem Watched.waiting (h : Watched g s w) (ok : Covered sha256 srv g (s, w) l)
    (hwindow : 0 < g.stickyAfterWrite) (hfwd : Forwards (l.1.relay s) l.1.turn msg)
    (hready : Ready srv g (l.1.relay s) l.1.turn msg s₁ co) (hstate : s'.state = s₁.state)
    (hrouting : s'.routing = s₁.routing) (hroute : s'.currentRoute = s₁.currentRoute)
    (hcheckouts : s'.checkouts = s₁.checkouts) (hheld : s'.held ≠ none) :
    Watched g s' (w.next s l s') := by
  have hprep : Prepared s s₁ msg := hready.prepared
  obtain ⟨pin, hpinned⟩ := hprep.pinned
  refine ⟨by rw [hrouting]; exact h.ready hfwd hready, fun hidle => ?_, fun _ => hheld, fun i _ hi => ?_⟩
  · rw [hstate, hpinned] at hidle
    rw [hrouting, hprep.transactionRoute]
    exact h.idle hidle
  · rw [WriteWatch.before_next hready hcheckouts]
    intro t ht
    exact (h.outside ok hwindow hfwd hready (hroute ▸ hi) t ht).trans ok.clock.2

/-- The backend is given up outside a transaction. -/
theorem Watched.dropped (h : Watched g s w) (hfwd : Forwards (l.1.relay s) l.1.turn msg)
    (hready : Ready srv g (l.1.relay s) l.1.turn msg s₁ co) (hidle : s.state.inTransaction = false)
    (hstate : s'.state = s₁.state) (hrouting : s'.routing = s₁.routing) (hheld : s'.held = none) :
    Watched g s' (w.next s l s') := by
  have hprep : Prepared s s₁ msg := hready.prepared
  obtain ⟨pin, hpinned⟩ := hprep.pinned
  have hstill : s'.state.inTransaction = false := by rw [hstate, hpinned, ← hidle]
  refine ⟨by rw [hrouting]; exact h.ready hfwd hready, fun _ => ?_, fun htx => ?_,
    fun i hsome => absurd hheld hsome⟩
  · rw [hrouting, hprep.transactionRoute]
    exact h.idle hidle
  · rw [hstill] at htx
    cases htx

/-- The exchange is over. -/
theorem Watched.finished (h : Watched g s w) (ok : Covered sha256 srv g (s, w) l)
    (hwindow : 0 < g.stickyAfterWrite) (hfwd : Forwards (l.1.relay s) l.1.turn msg)
    (hready : Ready srv g (l.1.relay s) l.1.turn msg s₁ co) (s₂ : Session σ)
    (hrouting : s₂.routing = s₁.routing)
    (hroute : s₂.currentRoute.isReplica = true →
      s₂.currentRoute = s₁.currentRoute ∧ s₂.checkouts = s₁.checkouts) {co' : Checkout σ} {e : ExchangeEnd}
    (hs' : s' = s₂.finished co' e) : Watched g s' (w.next s l s') := by
  refine ⟨?_, fun hidle => ?_, fun htx => ?_, fun i _ hi => ?_⟩
  · rw [← h.ready hfwd hready, hs', Session.lastWrite_finished, hrouting]
  · rw [hs', Session.inTransaction_finished] at hidle
    rw [hs', Session.transactionRoute_finished, if_pos (by simpa using hidle)]
  · rw [hs'] at htx ⊢
    exact Session.held_finished _ _ _ htx
  · have hi₂ : s₂.currentRoute = .replica i := by rw [← hi, hs', Session.currentRoute_finished]
    obtain ⟨hsame, hcheckouts⟩ := hroute (by rw [hi₂]; rfl)
    have hcount : s'.checkouts = s₁.checkouts := by
      rw [hs', Session.checkouts_finished, hcheckouts]
    rw [WriteWatch.before_next hready hcount]
    intro t ht
    exact (h.outside ok hwindow hfwd hready (hsame ▸ hi₂) t ht).trans ok.clock.2

/-- Every way a turn of a covered run can end. -/
theorem Watched.rule (h : Watched g s w) (ok : Covered sha256 srv g (s, w) l)
    (hwindow : 0 < g.stickyAfterWrite) :
    SessionRule sha256 srv g (l.1.relay s) l.1.turn fun s' => Watched g s' (w.next s l s') := by
  have hsilent : s.begins l.1 = none → ∀ {s' : Session σ}, s'.checkouts = s.checkouts →
      s'.routing = s.routing → s'.state = s.state → s'.held = s.held →
      s'.currentRoute = s.currentRoute → Watched g s' (w.next s l s') := by
    intro hbegins s' hcheckouts hrouting hstate hheld hroute
    refine ⟨?_, ?_, ?_, fun i hsome hi t ht => ?_⟩
    · rw [hrouting, h.noted]
      simp [WriteWatch.next, hbegins]
    · rw [hrouting, hstate]
      exact h.idle
    · rw [hheld, hstate]
      exact h.holds
    · simp only [WriteWatch.next, hcheckouts, lt_irrefl, if_false] at ht
      exact (h.replica i (hheld ▸ hsome) (hroute ▸ hi) t ht).trans (ok.clock.1.trans ok.clock.2)
  constructor
  case idle =>
    intro hevent
    refine hsilent ?_ rfl rfl rfl rfl rfl
    simp [Session.begins, Visit.message, hevent]
  case policy =>
    intro msg reason hevent hrefused
    rw [Visit.session_relay] at hrefused
    refine hsilent ?_ (Session.checkouts_refuse _ _ _ _) (Session.routing_refuse _ _ _ _)
      (Session.state_refuse _ _ _ _) (Session.held_refuse _ _ _ _) (Session.currentRoute_refuse _ _ _ _)
    simp [Session.begins, Visit.message, hevent, hrefused]
  case refused =>
    intro msg s₁ co e hfwd hready _
    exact h.waiting ok hwindow hfwd hready (Session.state_refuse _ _ _ _) (Session.routing_refuse _ _ _ _)
      (Session.currentRoute_refuse _ _ _ _) (Session.checkouts_refuse _ _ _ _)
      (by rw [Session.held_refuse, hready.held_eq]; simp)
  case dropped =>
    intro msg s₁ co out st c hfwd hready hout hwrite hroute
    have hidle : s.state.inTransaction = false := by
      by_contra htx
      exact ok.takes msg s₁ co out st c hfwd hready hroute (by simpa using htx) hout hwrite
    exact h.dropped hfwd hready hidle rfl rfl rfl
  case pipelined =>
    intro msg s₁ co out st c c' replies hsends _
    exact h.waiting ok hwindow hsends.forwards hsends.ready rfl rfl rfl rfl (Option.some_ne_none _)
  case answered =>
    intro msg s₁ co out st c c' replies e delivered c'' hsends _ _
    exact h.finished ok hwindow hsends.forwards hsends.ready
      ((s₁.afterSend msg out st co c c' replies).answered delivered) rfl (fun _ => ⟨rfl, rfl⟩) rfl
  case replayed =>
    intro msg s₁ co out st c c' replies c'' s₂ delivered co' e _ _ hsends _ _ _ hreplayed _
    obtain ⟨_, _, _, _, hs₂⟩ := hreplayed.session
    refine h.finished ok hwindow hsends.forwards hsends.ready (s₂.answered delivered) (by rw [hs₂]; rfl)
      (fun hroute => ?_) rfl
    have hprimary : (s₂.answered delivered).currentRoute = .primary .noReplicaAvailable := by
      rw [hs₂]
      rfl
    rw [hprimary] at hroute
    cases hroute

end Step

/-! ## The run -/

variable (sha256 srv g) in
/-- A turn of a session under the eyes of the observer. -/
def writeStep (x : Session σ × WriteWatch) (l : TimedVisit σ) : Session σ × WriteWatch :=
  watchStep sha256 srv g Prod.fst (fun s l s' w => w.next s l s') x l

theorem watched_of_run {s : Session σ} (hnew : s.New) (hwindow : 0 < g.stickyAfterWrite)
    {ls : List (TimedVisit σ)} (hrun : Along (writeStep sha256 srv g) (Covered sha256 srv g) (s, {}) ls)
    (hexit : (run (writeStep sha256 srv g) (s, {}) ls).1.exit = none) :
    Watched g (run (writeStep sha256 srv g) (s, {}) ls).1 (run (writeStep sha256 srv g) (s, {}) ls).2 := by
  have hwatched : Along (watchStep sha256 srv g Prod.fst fun s l s' (w : WriteWatch) => w.next s l s')
    (Covered sha256 srv g) (s, {}) ls := hrun
  refine watch_of_along (P := Watched g) ?_ ?_ hwatched hexit
  · refine ⟨by rw [hnew.routing], fun _ => by rw [hnew.routing], fun htx => ?_,
      fun i hheld => absurd hnew.held hheld⟩
    rw [hnew.state] at htx
    cases htx
  · intro s w l _ h ok hnext
    exact relayStep_session (h.rule ok hwindow) hnext

/-- **Reads follow writes.** In a covered run, a message goes to a replica at least a window after every
write of the session that had completed when the replica's connection was acquired. -/
theorem reads_follow_writes {s₀ : Session σ} (hnew : s₀.New) (hwindow : 0 < g.stickyAfterWrite)
    {ls : List (TimedVisit σ)} {l : TimedVisit σ}
    (hrun : Along (writeStep sha256 srv g) (Covered sha256 srv g) (s₀, {}) (ls ++ [l]))
    {msg : Message} {i : ℕ}
    (hover : handsOver sha256 srv g (l.1.relay (run (writeStep sha256 srv g) (s₀, {}) ls).1) l.1.turn =
      some (msg, .replica i)) :
    ∀ t ∈ (run (writeStep sha256 srv g) (s₀, {}) ls).2.seen (run (writeStep sha256 srv g) (s₀, {}) ls).1,
      t + g.stickyAfterWrite ≤ l.1.turn.now := by
  obtain ⟨hrun, ok, -⟩ := Along.append.mp hrun
  obtain ⟨hexit, s₁, co, hfwd, hready, hroute⟩ := handsOver_ready hover
  exact (watched_of_run hnew hwindow hrun hexit).outside ok hwindow hfwd hready hroute

/-! ## A read after a write -/

/-- A group with one replica and a window of five. -/
def Group.sticky : Group := { Group.split with stickyAfterWrite := 5 }

/-- A client message at a given time; the shelves are empty. -/
def Visit.timed (now : ℕ) (sql : Text) : Visit Mini.State :=
  { turn := { Turn.plain (.message (.query sql)) with now }, shelves := fun _ => [] }

/-- A read a whole window after a write goes to the replica. -/
theorem reads_follow_writes_later :
    (run (writeStep sampleDigest Mini.server .sticky) ({}, {})
        [(.timed 0 "INSERT INTO t VALUES (1)".toList, 0)]).2.completed = [0] ∧
      ∀ t ∈ (run (writeStep sampleDigest Mini.server .sticky) ({}, {})
          [(.timed 0 "INSERT INTO t VALUES (1)".toList, 0)]).2.seen
            (run (writeStep sampleDigest Mini.server .sticky) ({}, {})
              [(.timed 0 "INSERT INTO t VALUES (1)".toList, 0)]).1, t + 5 ≤ 5 := by
  have hrun : Along (writeStep sampleDigest Mini.server .sticky) (Covered sampleDigest Mini.server .sticky)
      ({}, {}) ([(.timed 0 "INSERT INTO t VALUES (1)".toList, 0)] ++
        [(.timed 5 "SELECT 1".toList, 5)]) := by
    refine ⟨⟨by decide, fun _ _ _ _ _ _ _ _ _ _ _ => Option.some_ne_none _, ?_⟩,
      ⟨by decide +kernel, fun _ _ _ _ _ _ _ _ _ _ _ => Option.some_ne_none _, ?_⟩, trivial⟩
    · intro msg _ _ t ht
      cases ht
    · intro msg _ _ t ht hlt
      have hcompleted : (writeStep sampleDigest Mini.server .sticky ({}, {})
          (.timed 0 "INSERT INTO t VALUES (1)".toList, 0)).2.completed = [0] := by decide +kernel
      rw [hcompleted, List.mem_singleton] at ht
      subst ht
      exact absurd hlt (by decide)
  have hover : handsOver sampleDigest Mini.server .sticky
      ((Visit.timed 5 "SELECT 1".toList).relay (run (writeStep sampleDigest Mini.server .sticky) ({}, {})
        [(.timed 0 "INSERT INTO t VALUES (1)".toList, 0)]).1)
      (Visit.timed 5 "SELECT 1".toList).turn = some (.query "SELECT 1".toList, .replica 0) := by
    decide +kernel
  exact ⟨by decide +kernel,
    reads_follow_writes ⟨⟨rfl, rfl, rfl⟩, rfl, rfl, rfl, rfl⟩ (by decide) hrun hover⟩

/-- A transaction that writes, and commits when the window that began with it is over. -/
def lateCommit : List (TimedVisit Mini.State) :=
  [(.timed 0 "BEGIN".toList, 0), (.timed 10 "INSERT INTO t VALUES (1)".toList, 10),
    (.timed 10 "COMMIT".toList, 11)]

/-- The read that follows at once goes to the replica. -/
theorem not_reads_follow_writes :
    ¬ ∀ (s₀ : Session Mini.State) (ls : List (TimedVisit Mini.State)) (l : TimedVisit Mini.State)
        (msg : Message) (i : ℕ), s₀.New →
      Along (writeStep sampleDigest Mini.server .sticky)
        (fun x l => x.2.clock ≤ l.1.turn.now ∧ l.1.turn.now ≤ l.2) (s₀, {}) (ls ++ [l]) →
      handsOver sampleDigest Mini.server .sticky
        (l.1.relay (run (writeStep sampleDigest Mini.server .sticky) (s₀, {}) ls).1) l.1.turn =
          some (msg, .replica i) →
      ∀ t ∈ (run (writeStep sampleDigest Mini.server .sticky) (s₀, {}) ls).2.seen
          (run (writeStep sampleDigest Mini.server .sticky) (s₀, {}) ls).1,
        t + Group.sticky.stickyAfterWrite ≤ l.1.turn.now := by
  intro h
  have hbound := h {} lateCommit (.timed 12 "SELECT 1".toList, 12) (.query "SELECT 1".toList) 0
    ⟨⟨rfl, rfl, rfl⟩, rfl, rfl, rfl, rfl⟩ (by decide +kernel) (by decide +kernel) 11 (by decide +kernel)
  revert hbound
  decide

end Havuz
