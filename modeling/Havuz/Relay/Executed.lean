import Havuz.Relay.Binding
import Havuz.Relay.Failover

/-!
# Parameters follow execution

`stage_params` looks at the text of a `Parse`; what changes a parameter is its `Execute`, in the same
exchange or in a later one, once, more than once or never. An observer who knows what the client's own
names stand for reads off the answers what ran, exchange by exchange (`settings`). Where the last `SET` or
`RESET` of each parameter that was parsed in an exchange is the last one that ran in it, the session
believes what the observer does.
-/

namespace Havuz

open Lib Sql

variable {σ : Type} {sha256 : Bytes → Bytes} {srv : Server σ} {g : Group}

/-! ## The last word on a parameter -/

namespace Sql

/-- What an action says about one parameter, if anything: its statement, or that it has none. -/
def wordOn (name : Text) : SetAction → Option (Option Text)
  | .track n statement => if n = name then some (some statement) else none
  | .reset n => if n = name then some none else none
  | .resetAll => some none
  | .pin _ => none
  | .none => none

/-- The last word of a list of actions on one parameter. -/
def lastWordOn (name : Text) (actions : List SetAction) : Option (Option Text) :=
  actions.reverse.findSome? (wordOn name)

theorem get_applyAction (m : ParamMap) (a : SetAction) (name : Text) :
    (applyAction m a).get name = (wordOn name a).getD (m.get name) := by
  cases a with
  | track n statement =>
      by_cases h : n = name
      · simp [applyAction, wordOn, h]
      · simp [applyAction, wordOn, h, Ne.symm h]
  | reset n =>
      by_cases h : n = name
      · simp [applyAction, wordOn, h]
      · simp [applyAction, wordOn, h, Ne.symm h]
  | resetAll => rfl
  | pin reason => rfl
  | none => rfl

/-- A run of actions leaves every parameter at the last word on it. -/
theorem get_applyActions (m : ParamMap) (actions : List SetAction) (name : Text) :
    (actions.foldl applyAction m).get name = (lastWordOn name actions).getD (m.get name) := by
  induction actions using List.reverseRecOn with
  | nil => rfl
  | append_singleton actions a ih =>
      rw [List.foldl_append, List.foldl_cons, List.foldl_nil, get_applyAction, ih, lastWordOn,
        lastWordOn, List.reverse_append, List.reverse_singleton, List.singleton_append, List.findSome?_cons]
      cases wordOn name a with
      | none => rfl
      | some word => rfl

theorem applyActions_congr {actions actions' : List SetAction}
    (h : ∀ name, lastWordOn name actions = lastWordOn name actions') (m : ParamMap) :
    actions.foldl applyAction m = actions'.foldl applyAction m := by
  refine SortedMap.ext_get fun name => ?_
  rw [get_applyActions, get_applyActions, h]

end Sql

/-! ## What ran -/

/-- What the client's names stand for, and the texts that ran since the exchange began. -/
structure Execution where
  statements : Bytes → Option Text := fun _ => none
  portals : Bytes → Option Text := fun _ => none
  ran : List Text := []

/-- Whether a message was answered with a reply of this tag. -/
def Forward.got (f : Forward σ) (c : Char) : Bool := f.replies.any fun x => x.msg.tag = byte c

namespace Execution

/-- `ParseComplete`: the name stands for the text. -/
def parse (x : Execution) (body : Bytes) : Execution :=
  match takeCstring body with
  | some (name, _) => { x with statements := Function.update x.statements name (parseMessageSql body) }
  | none => x

/-- `BindComplete`: the portal runs what the name stands for. -/
def bind (x : Execution) (body : Bytes) : Execution :=
  match takeCstring body with
  | some (portal, rest) =>
      match takeCstring rest with
      | some (name, _) => { x with portals := Function.update x.portals portal (x.statements name) }
      | none => x
  | none => x

/-- `CommandComplete`: the text of the portal ran. -/
def execute (x : Execution) (body : Bytes) : Execution :=
  match takeCstring body with
  | some (portal, _) => { x with ran := x.ran ++ (x.portals portal).toList }
  | none => x

/-- `CloseComplete`. -/
def close (x : Execution) (body : Bytes) : Execution :=
  match body with
  | kind :: rest =>
      match takeCstring rest with
      | some (name, _) =>
          if kind = byte 'S' then { x with statements := Function.update x.statements name none }
          else { x with portals := Function.update x.portals name none }
      | none => x
  | [] => x

/-- A message of the extended protocol and its answer. -/
def next (x : Execution) (f : Forward σ) : Execution :=
  if f.msg.tag = byte 'P' ∧ f.got '1' then x.parse f.msg.body
  else if f.msg.tag = byte 'B' ∧ f.got '2' then x.bind f.msg.body
  else if f.msg.tag = byte 'E' ∧ f.got 'C' then x.execute f.msg.body
  else if f.msg.tag = byte 'C' ∧ f.got '3' then x.close f.msg.body
  else x

/-- An exchange. Outside a transaction block no portal outlives the Sync. -/
def exchange (x : Execution) (forwards : List (Forward σ)) : Execution :=
  forwards.foldl next { x with portals := fun _ => none, ran := [] }

end Execution

/-- What the client's names stand for after the exchanges of a history, and what ran in the last one. -/
def executed (history : List (List (Forward σ) × List Reply)) : Execution :=
  history.foldl (fun x entry => x.exchange entry.1) {}

/-- The client is told that an exchange failed. -/
def reportsError (delivered : List Reply) : Bool := delivered.any fun x => x.msg.tag = byte 'E'

/-- The effect of an exchange in which `ran` ran. One that failed is undone. -/
def applyExchange (ran : List Text) (delivered : List Reply) (m : ParamMap) : ParamMap :=
  if reportsError delivered then m else (ran.flatMap actionsForSql).foldl applyAction m

/-- What the client's names stand for and the parameters that are in force after the exchanges of a
history, if `m` were in force before. -/
def settings (m : ParamMap) (history : List (List (Forward σ) × List Reply)) : Execution × ParamMap :=
  history.foldl (fun p entry =>
    (p.1.exchange entry.1, applyExchange (p.1.exchange entry.1).ran entry.2 p.2)) ({}, m)

theorem settings_fst (m : ParamMap) (history : List (List (Forward σ) × List Reply)) :
    (settings m history).1 = executed history := by
  induction history using List.reverseRecOn with
  | nil => rfl
  | append_singleton history entry ih =>
      rw [settings, executed, List.foldl_append, List.foldl_append] at *
      simp only [List.foldl_cons, List.foldl_nil]
      rw [ih]

theorem settings_append (m : ParamMap) (history : List (List (Forward σ) × List Reply))
    (forwards : List (Forward σ)) (delivered : List Reply) :
    (settings m (history ++ [(forwards, delivered)])).2 =
      applyExchange ((executed history).exchange forwards).ran delivered (settings m history).2 := by
  rw [← settings_fst m history]
  simp only [settings, List.foldl_append, List.foldl_cons, List.foldl_nil]

/-! ## What is staged -/

/-- Pins are not staged. -/
def isTracked (a : SetAction) : Bool :=
  match a with
  | .pin _ => false
  | _ => true

/-- What a message stages outside a transaction. -/
def stagedBy (msg : Message) : List SetAction :=
  match paramSql msg with
  | some sql => (actionsForSql sql).filter isTracked
  | none => []

theorem none_notMem_actionsForSql (sql : Text) : SetAction.none ∉ actionsForSql sql := by
  unfold actionsForSql
  dsimp only
  split_ifs
  · exact fun h => by simp at h
  · exact fun h => by simp at h
  · exact fun h => by simp at h

theorem pending_stage {actions : List SetAction} (h : SetAction.none ∉ actions) (p : ClientParams) :
    (actions.foldl ClientParams.stage p).pending = p.pending ++ actions := by
  induction actions generalizing p with
  | nil => exact (List.append_nil _).symm
  | cons a actions ih =>
      rw [List.mem_cons, not_or] at h
      rw [List.foldl_cons, ih h.2, ClientParams.stage, if_neg (Ne.symm h.1), List.append_assoc]
      rfl

theorem Session.pending_arrive {s : Session σ} (hout : s.state.inTransaction = false) (msg : Message) :
    (s.arrive msg).params.pending = s.params.pending ++ stagedBy msg := by
  simp only [arrive, stagedBy]
  cases paramSql msg with
  | none => exact (List.append_nil _).symm
  | some sql =>
      have hstate : ∀ state : SessionState, state.inTransaction = false →
          (stageParams s.params state sql).1.pending =
            s.params.pending ++ (actionsForSql sql).filter isTracked := by
        intro state hstate
        simp only [stageParams, hstate, Bool.false_eq_true, if_false]
        split_ifs with hnone
        · rw [List.isEmpty_iff.mp hnone]
          exact (List.append_nil _).symm
        · exact pending_stage (fun h => none_notMem_actionsForSql sql (List.mem_filter.mp h).1) _
      refine hstate _ ?_
      cases classify msg <;> exact hout

/-- What getting ready does to the parameters. -/
theorem Ready.params_eq {r : Relay σ} {t : Turn} {msg : Message} {s : Session σ} {co : Checkout σ}
    (h : Ready srv g r t msg s co) : s.params = ((r.session.receive msg).arrive msg).params := by
  cases h with
  | held => rfl
  | borrowed _ hs => cases hs <;> rfl

theorem Session.params_finished (s : Session σ) (co : Checkout σ) (e : ExchangeEnd) :
    (s.finished co e).params = (settleParams s.params co.conn e.errored).1 := by
  obtain ⟨h, -⟩ | ⟨h, -⟩ := s.finished_cases co e <;> rw [h] <;> rfl

/-- An exchange that failed is forgotten, any other one is believed. -/
theorem settleParams_fst (params : ClientParams) (c : PgBackend σ) (errored : Bool) :
    (settleParams params c errored).1 =
      ⟨if errored then params.desired else params.pending.foldl applyAction params.desired, []⟩ := by
  obtain ⟨desired, pending⟩ := params
  unfold settleParams
  cases pending with
  | nil => cases errored <;> rfl
  | cons a pending => cases errored <;> rfl

/-! ## What is believed -/

/-- What the session believes between two messages: the effect of what ran, and what it has staged. -/
structure Believes (m : ParamMap) (s : Session σ) : Prop where
  desired : s.params.desired = (settings m s.log.history).2
  pending : s.params.pending = s.exchange.flatMap stagedBy
  delivered : s.log.delivered = []

/-- If the turn of `msg` from `s` to `s'` ends an exchange without an error, the last `SET` or `RESET` of
each parameter that was parsed in the exchange is the last one that ran in it. -/
def Session.Follows (s : Session σ) (msg : Message) (s' : Session σ) : Prop :=
  ∀ forwards delivered, s'.log.history = s.log.history ++ [(forwards, delivered)] →
    reportsError delivered = false → ∀ name,
      lastWordOn name ((s.exchange ++ [msg]).flatMap stagedBy) =
        lastWordOn name (((executed s.log.history).exchange forwards).ran.flatMap actionsForSql)

section Step

variable {m : ParamMap} {s s₁ : Session σ} {v : Visit σ} {msg : Message} {co : Checkout σ}

/-- Ready to forward: the message is staged and nothing else has changed. -/
structure Staged (m : ParamMap) (s : Session σ) (msg : Message) (s₁ : Session σ) : Prop where
  desired : s₁.params.desired = (settings m s.log.history).2
  pending : s₁.params.pending = (s.exchange ++ [msg]).flatMap stagedBy
  exchange : s₁.exchange = s.exchange ++ [msg]
  history : s₁.log.history = s.log.history
  delivered : s₁.log.delivered = []

theorem Believes.ready (h : Believes m s) (hout : s.state.inTransaction = false)
    (hready : Ready srv g (v.relay s) v.turn msg s₁ co) : Staged m s msg s₁ := by
  have hdelivered : s₁.log.delivered = [] := by
    by_cases hheld : s.held = none
    · exact (hready.books_none hheld).2
    · rw [(hready.books_held hheld).2]
      exact h.delivered
  refine ⟨?_, ?_, hready.prepared.exchange, hready.history_eq, hdelivered⟩
  · rw [hready.params_eq, Session.desired_arrive]
    exact h.desired
  · rw [hready.params_eq, Session.pending_arrive (by exact hout)]
    simp only [Visit.session_relay, Session.params_receive, h.pending, List.flatMap_append,
      List.flatMap_singleton]

/-- The turn ended before an answer. -/
theorem Staged.waiting (h : Staged m s msg s₁) : Believes m s₁ :=
  ⟨by rw [h.history]; exact h.desired, by rw [h.exchange]; exact h.pending, h.delivered⟩

/-- The answer was read. -/
theorem Staged.finished (h : Staged m s msg s₁) {c c' : PgBackend σ} {accepts : Option ℕ} {e : ExchangeEnd}
    {delivered : List Reply} (hpump : c.pumpUntilReady accepts = (some e, delivered, c'))
    (hout : ((s₁.answered delivered).finished co e).state.inTransaction = false)
    (hfollows : s.Follows msg ((s₁.answered delivered).finished co e)) :
    Believes m ((s₁.answered delivered).finished co e) := by
  have hcopy : (delivered.any fun d => opensCopy d.msg) = false := by
    cases hstarts : delivered.any fun d => opensCopy d.msg with
    | false => rfl
    | true =>
        rw [Session.inTransaction_finished, pumpUntilReady_copy hpump hstarts] at hout
        cases hout
  obtain ⟨-, hnone, hhistory⟩ := s₁.books_ready co e hcopy
  obtain ⟨front, x, -, -, -, -, herrored, -⟩ := pumpUntilReady_some hpump
  rw [h.history, h.delivered, List.nil_append] at hhistory
  have hparams : ((s₁.answered delivered).finished co e).params =
      ⟨if e.errored then s₁.params.desired else s₁.params.pending.foldl applyAction s₁.params.desired, []⟩ := by
    rw [Session.params_finished]
    exact settleParams_fst s₁.params co.conn e.errored
  refine ⟨?_, ?_, hnone⟩
  · rw [hparams, hhistory, settings_append, applyExchange, h.desired, h.pending, herrored]
    change (if reportsError delivered then _ else _) = _
    split_ifs with hfailed
    · rfl
    · exact applyActions_congr (hfollows _ _ hhistory (Bool.eq_false_iff.mpr hfailed)) _
  · rw [hparams, Session.exchange_finished]
    rfl

theorem Believes.rule (h : Believes m s) (hout : s.state.inTransaction = false) :
    SessionRule sha256 srv g (v.relay s) v.turn fun s' => s'.state.inTransaction = false →
      (∀ msg, v.turn.event = .message msg → s.Follows msg s') → Believes m s' := by
  constructor
  case idle => exact fun _ _ _ => h
  case policy =>
    intro msg reason _ _ _ _
    refine ⟨?_, ?_, ?_⟩
    · rw [Session.params_refuse, Session.log_refuse]
      exact h.desired
    · rw [Session.params_refuse, Session.exchange_refuse]
      exact h.pending
    · rw [Session.log_refuse]
      exact h.delivered
  case refused =>
    intro msg s₁ co e _ hready _ _ _
    have hwaiting := (h.ready hout hready).waiting
    refine ⟨?_, ?_, ?_⟩
    · rw [Session.params_refuse, Session.log_refuse]
      exact hwaiting.desired
    · rw [Session.params_refuse, Session.exchange_refuse]
      exact hwaiting.pending
    · rw [Session.log_refuse]
      exact hwaiting.delivered
  case dropped =>
    intro msg s₁ co out st c _ hready _ _ _ _ _
    have hwaiting := (h.ready hout hready).waiting
    exact ⟨hwaiting.desired, hwaiting.pending, hwaiting.delivered⟩
  case pipelined =>
    intro msg s₁ co out st c c' replies hsends _ _ _
    have hwaiting := (h.ready hout hsends.ready).waiting
    exact ⟨hwaiting.desired, hwaiting.pending, hwaiting.delivered⟩
  case answered =>
    intro msg s₁ co out st c c' replies e delivered c'' hsends _ hpump hstays hfollows
    have hstaged := h.ready hout hsends.ready
    have hsent : Staged m s msg (s₁.afterSend msg out st co c c' replies) :=
      ⟨hstaged.desired, hstaged.pending, hstaged.exchange, hstaged.history, hstaged.delivered⟩
    exact hsent.finished hpump hstays (hfollows msg hsends.forwards.event)
  case replayed =>
    intro msg s₁ co out st c c' replies c'' s₂ delivered co' e c₁ c₂ hsends _ _ _ hreplayed hpump hstays
      hfollows
    have hstaged := h.ready hout hsends.ready
    obtain ⟨statements, toReplica, paramSyncs, log, hs₂⟩ := hreplayed.session
    have hagain : Staged m s msg s₂ := by
      refine ⟨?_, ?_, ?_, hreplayed.history.trans hstaged.history, hreplayed.delivered⟩
      · rw [hs₂]
        exact hstaged.desired
      · rw [hs₂]
        exact hstaged.pending
      · rw [hs₂]
        exact hstaged.exchange
    exact hagain.finished hpump hstays (hfollows msg hsends.forwards.event)

end Step

/-! ## The result -/

variable (sha256 srv g) in
/-- A turn outside a transaction in which what was parsed is what ran. -/
structure FollowsTurn (s : Session σ) (v : Visit σ) : Prop where
  outside : s.state.inTransaction = false
  stays : (sessionStep sha256 srv g s v).state.inTransaction = false
  follows : ∀ msg, v.turn.event = .message msg → s.Follows msg (sessionStep sha256 srv g s v)

/-- **Believed parameters follow execution.** In every run of a session outside transactions whose
exchanges run, of each parameter, what they last parsed of it, the session wants at every point what the
statements that ran have set, in the order in which they ran. -/
theorem desired_follows_execution {s : Session σ} (hnew : s.Fresh) (hpending : s.params.pending = [])
    (hexchange : s.exchange = []) {vs : List (Visit σ)}
    (hrun : Along (sessionStep sha256 srv g) (FollowsTurn sha256 srv g) s vs)
    (hexit : (run (sessionStep sha256 srv g) s vs).exit = none) :
    (run (sessionStep sha256 srv g) s vs).params.desired =
      (settings s.params.desired (run (sessionStep sha256 srv g) s vs).log.history).2 := by
  have hstart : Believes s.params.desired s := by
    refine ⟨?_, ?_, ?_⟩
    · rw [hnew.log]
      rfl
    · rw [hpending, hexchange]
      rfl
    · rw [hnew.log]
  refine (session_of_along hstart (fun s' v _ h hturn hexit => ?_) hrun hexit).desired
  exact relayStep_session (h.rule hturn.outside) hexit hturn.stays hturn.follows

/-- A `SET` that is parsed, bound and executed. -/
def setTurns : List (Visit Mini.State) :=
  [.alone (.message (parseUnnamed "SET a = 1".toList)), .alone (.message (bindTo [])),
    .alone (.message executeUnnamed), .alone (.message .sync)]

/-- A `SET` that is parsed and never executed. -/
def unexecutedTurns : List (Visit Mini.State) :=
  [.alone (.message (parseUnnamed "SET a = 1".toList)), .alone (.message .sync)]

/-- A turn that ends no exchange. -/
theorem Session.follows_of_le {s s' : Session σ} {msg : Message}
    (h : s'.log.history.length ≤ s.log.history.length) : s.Follows msg s' := by
  intro forwards delivered hhistory
  rw [hhistory, List.length_append, List.length_singleton] at h
  omega

/-- A turn that ends an exchange in which `ran` ran. -/
theorem Session.follows_of_ran {s s' : Session σ} {msg : Message} (ran : List Text)
    (hran : (s'.log.history.drop s.log.history.length).map
      (fun entry => ((executed s.log.history).exchange entry.1).ran) = [ran])
    (h : (s.exchange ++ [msg]).flatMap stagedBy = ran.flatMap actionsForSql) : s.Follows msg s' := by
  intro forwards delivered hhistory _ name
  rw [hhistory, List.drop_left, List.map_singleton, List.cons.injEq] at hran
  rw [h, hran.1]

theorem desired_follows_execution_set :
    (run (sessionStep sampleDigest Mini.server .plain) {} setTurns).params.desired.entries =
        [(['a'], "SET a = 1".toList)] ∧
      (run (sessionStep sampleDigest Mini.server .plain) {} setTurns).params.desired =
        (settings .empty (run (sessionStep sampleDigest Mini.server .plain) {} setTurns).log.history).2 := by
  have hrun : Along (sessionStep sampleDigest Mini.server .plain)
      (FollowsTurn sampleDigest Mini.server .plain) {} setTurns := by
    refine ⟨⟨?_, ?_, fun msg hmsg => ?_⟩, ⟨?_, ?_, fun msg hmsg => ?_⟩, ⟨?_, ?_, fun msg hmsg => ?_⟩,
      ⟨?_, ?_, fun msg hmsg => ?_⟩, trivial⟩
    case refine_12 =>
      cases hmsg
      exact Session.follows_of_ran ["SET a = 1".toList] (by decide +kernel) (by decide +kernel)
    case refine_3 => exact Session.follows_of_le (by decide +kernel)
    case refine_6 => exact Session.follows_of_le (by decide +kernel)
    case refine_9 => exact Session.follows_of_le (by decide +kernel)
    all_goals decide +kernel
  exact ⟨by decide +kernel, desired_follows_execution ⟨rfl, rfl, rfl⟩ rfl rfl hrun (by decide +kernel)⟩

/-- The `SET` that never ran is believed. -/
theorem not_desired_follows_execution :
    ¬ ∀ vs : List (Visit Mini.State),
      (run (sessionStep sampleDigest Mini.server .plain) {} vs).exit = none →
      (run (sessionStep sampleDigest Mini.server .plain) {} vs).state.inTransaction = false →
      (run (sessionStep sampleDigest Mini.server .plain) {} vs).state.pin = none →
      (run (sessionStep sampleDigest Mini.server .plain) {} vs).log.history.all
        (fun entry => !reportsError entry.2) = true →
      (run (sessionStep sampleDigest Mini.server .plain) {} vs).params.desired =
        (settings .empty (run (sessionStep sampleDigest Mini.server .plain) {} vs).log.history).2 := by
  intro h
  have heq := h unexecutedTurns (by decide +kernel) (by decide +kernel) (by decide +kernel)
    (by decide +kernel)
  revert heq
  decide +kernel

end Havuz
