import Havuz.Server

/-!
# A small PostgreSQL

A server that runs: prepared statements, transaction blocks, skipping to the next Sync after an error,
and COPY. It knows a handful of query texts and accepts every other one. The laws of `Havuz.Server`
hold of it, so they can hold together, and concrete runs of the relay can be evaluated against it.
-/

namespace Havuz.Mini

/-- What a session is waiting for. -/
inductive Mode where
  | command
  /-- Discarding messages up to the next Sync. -/
  | skipping
  /-- Taking COPY data; `simple` if a simple Query asked for it. -/
  | copy (simple : Bool)
deriving DecidableEq, Repr

/-- The state of a session. -/
structure State where
  mode : Mode := .command
  status : TransactionStatus := .idle
  /-- Prepared statements: name, query text, parameter types. -/
  prepared : List (Bytes × Bytes × Bytes) := []
deriving DecidableEq, Repr

/-- A reply that does not end an answer. -/
inductive Plain where
  | parseComplete
  | bindComplete
  | closeComplete
  | noData
  | functionResult
  | commandComplete
  | error
deriving DecidableEq, Repr

def Plain.message : Plain → Message
  | parseComplete => ⟨byte '1', []⟩
  | bindComplete => ⟨byte '2', []⟩
  | closeComplete => ⟨byte '3', []⟩
  | noData => ⟨byte 'n', []⟩
  | functionResult => ⟨byte 'V', []⟩
  | commandComplete => ⟨byte 'C', []⟩
  | error => .errorResponse "ERROR".toList "42601".toList "syntax error".toList

/-- How an answer ends. -/
inductive Ending where
  | open
  | ready
  | copyIn
deriving DecidableEq, Repr

/-- What a message does: the state after it and the answer. -/
structure Answer where
  state : State
  plain : List Plain
  ending : Ending

namespace State

/-- An error puts an open transaction block into the failed state. -/
def fail (s : State) : State :=
  { s with status := if s.status = .idle then .idle else .failed }

/-- An error of an extended-protocol message. -/
def reject (s : State) : Answer := ⟨{ s.fail with mode := .skipping }, [.error], .open⟩

def find (s : State) (name : Bytes) : Option (Bytes × Bytes) :=
  (s.prepared.find? fun p => p.1 = name).map Prod.snd

def drop (s : State) (name : Bytes) : State :=
  { s with prepared := s.prepared.filter fun p => p.1 ≠ name }

/-- The simple query protocol. -/
def runQuery (s : State) (sql : Bytes) : Answer :=
  let done (s : State) : Answer := ⟨s, [.commandComplete], .ready⟩
  if sql = Text.asBytes "ROLLBACK".toList ∨ sql = Text.asBytes "COMMIT".toList then
    done { s with status := .idle }
  else if s.status = .failed ∨ sql = Text.asBytes "FAIL".toList then ⟨s.fail, [.error], .ready⟩
  else if sql = Text.asBytes "BEGIN".toList then done { s with status := .inTransaction }
  else if sql = Text.asBytes "DISCARD ALL".toList then done { s with prepared := [] }
  else if sql = Text.asBytes "COPY t FROM STDIN".toList then
    ⟨{ s with mode := .copy true }, [], .copyIn⟩
  else done s

/-- `Parse`. The unnamed statement is replaced, a name in use is an error. -/
def runParse (s : State) (body : Bytes) : Answer :=
  match takeCstring body with
  | none => s.reject
  | some (name, rest) =>
      match takeCstring rest with
      | none => s.reject
      | some (sql, types) =>
          let s := if name = [] then s.drop [] else s
          if (s.find name).isSome ∨ s.status = .failed ∨ sql = Text.asBytes "FAIL".toList then s.reject
          else ⟨{ s with prepared := (name, sql, types) :: s.prepared }, [.parseComplete], .open⟩

/-- `Bind`: the statement must exist. -/
def runBind (s : State) (body : Bytes) : Answer :=
  match (takeCstring body).bind fun p => takeCstring p.2 with
  | some (name, _) => if (s.find name).isSome then ⟨s, [.bindComplete], .open⟩ else s.reject
  | none => s.reject

/-- `Describe` of a statement that must exist, or of a portal. -/
def runDescribe (s : State) (body : Bytes) : Answer :=
  match body with
  | [] => s.reject
  | kind :: rest =>
      match takeCstring rest with
      | none => s.reject
      | some (name, _) =>
          if kind = byte 'S' ∧ (s.find name).isNone then s.reject else ⟨s, [.noData], .open⟩

/-- `Close` never fails on a name that does not exist. -/
def runClose (s : State) (body : Bytes) : Answer :=
  match body with
  | [] => s.reject
  | kind :: rest =>
      match takeCstring rest with
      | none => s.reject
      | some (name, _) =>
          ⟨if kind = byte 'S' then s.drop name else s, [.closeComplete], .open⟩

/-- A message outside COPY. -/
def runMessage (s : State) (m : Message) : Answer :=
  if m.tag = byte 'Q' then s.runQuery (m.body.takeWhile (· ≠ 0))
  else if m.tag = byte 'P' then s.runParse m.body
  else if m.tag = byte 'B' then s.runBind m.body
  else if m.tag = byte 'D' then s.runDescribe m.body
  else if m.tag = byte 'E' then ⟨s, [.commandComplete], .open⟩
  else if m.tag = byte 'C' then s.runClose m.body
  else if m.tag = byte 'S' then ⟨s, [], .ready⟩
  else if m.tag = byte 'F' then ⟨s, [.functionResult], .ready⟩
  else ⟨s, [], .open⟩

/-- A message during COPY: data, Flush and Sync are taken, `CopyDone` completes it, anything else is
an error. -/
def runCopy (s : State) (simple : Bool) (m : Message) : Answer :=
  let after := { s with mode := .command }
  if m.tag = byte 'd' ∨ m.tag = byte 'H' ∨ m.tag = byte 'S' then ⟨s, [], .open⟩
  else if m.tag = byte 'c' then ⟨after, [.commandComplete], if simple then .ready else .open⟩
  else if simple then ⟨after.fail, [.error], .ready⟩
  else after.reject

def answer (s : State) (m : Message) : Answer :=
  match s.mode with
  | .command => s.runMessage m
  | .skipping =>
      if m.tag = byte 'S' then ⟨{ s with mode := .command }, [], .ready⟩ else ⟨s, [], .open⟩
  | .copy simple => s.runCopy simple m

end State

/-- The messages of an answer. -/
def Answer.messages (a : Answer) : List Message :=
  a.plain.map Plain.message ++
    match a.ending with
    | .open => []
    | .ready => [.readyForQuery a.state.status]
    | .copyIn => [⟨byte 'G', []⟩]

/-- The server. Its sockets never fail. -/
def server : Server State where
  start _ := {}
  write s m := some ((s.answer m).state, (s.answer m).messages)
  flush _ := true

/-! ## What an answer looks like -/

theorem Plain.not_terminal (p : Plain) : isTerminal p.message = false := by
  cases p <;> decide

/-- A terminal reply is the last one, and says how the answer ended. -/
theorem Answer.terminal {a : Answer} {x : Message} (hx : x ∈ a.messages)
    (hterm : isTerminal x = true) :
    (a.ending = .ready ∧ x = .readyForQuery a.state.status) ∨
      (a.ending = .copyIn ∧ x = ⟨byte 'G', []⟩) := by
  unfold messages at hx
  rcases List.mem_append.mp hx with hx | hx
  · obtain ⟨p, -, rfl⟩ := List.mem_map.mp hx
    rw [p.not_terminal] at hterm
    cases hterm
  · cases hend : a.ending with
    | «open» => simp [hend] at hx
    | ready => exact .inl ⟨rfl, by simpa [hend] using hx⟩
    | copyIn => exact .inr ⟨rfl, by simpa [hend] using hx⟩

theorem Answer.terminal_last {a : Answer} {front back : List Message} {x : Message}
    (h : a.messages = front ++ x :: back) (hterm : isTerminal x = true) : back = [] := by
  have hplain : ∀ y ∈ a.plain.map Plain.message, isTerminal y = false := by
    intro y hy
    obtain ⟨p, -, rfl⟩ := List.mem_map.mp hy
    exact p.not_terminal
  unfold messages at h
  -- The terminal reply lies in the ending, which is at most one message long.
  have hlen : (match a.ending with
      | .open => []
      | .ready => [Message.readyForQuery a.state.status]
      | .copyIn => [⟨byte 'G', []⟩]).length ≤ 1 := by
    cases a.ending <;> simp
  obtain ⟨f, hfront, hend⟩ | ⟨b, hmap, hend⟩ := List.append_eq_append_iff.mp h
  · rw [hend, List.length_append, List.length_cons] at hlen
    exact List.length_eq_zero_iff.mp (by omega)
  · cases b with
    | nil =>
        rw [List.nil_append] at hend
        rw [← hend, List.length_cons] at hlen
        exact List.length_eq_zero_iff.mp (by omega)
    | cons y b =>
        rw [List.cons_append, List.cons.injEq] at hend
        rw [hend.1, hplain y (by rw [hmap]; simp)] at hterm
        cases hterm

namespace State

/-- Extended-protocol messages leave the answer open, and start the skipping exactly when they fail. -/
def Extended (s : State) (a : Answer) : Prop :=
  a.ending = .open ∧ (a.state.mode = s.mode ∧ .error ∉ a.plain ∨ a.state.mode = .skipping)

theorem extended_reject (s : State) : s.Extended s.reject := ⟨rfl, .inr rfl⟩

theorem extended_execute (s : State) : s.Extended ⟨s, [.commandComplete], .open⟩ :=
  ⟨rfl, .inl ⟨rfl, by simp⟩⟩

theorem extended_runParse (s : State) (body : Bytes) : s.Extended (s.runParse body) := by
  unfold runParse
  split
  · exact extended_reject s
  · split
    · exact extended_reject s
    · simp only
      split_ifs
      · exact ⟨rfl, .inr rfl⟩
      · exact ⟨rfl, .inl ⟨rfl, by simp⟩⟩
      · exact ⟨rfl, .inr rfl⟩
      · exact ⟨rfl, .inl ⟨rfl, by simp⟩⟩

theorem extended_runBind (s : State) (body : Bytes) : s.Extended (s.runBind body) := by
  unfold runBind
  split
  · split
    · exact ⟨rfl, .inl ⟨rfl, by simp⟩⟩
    · exact extended_reject s
  · exact extended_reject s

theorem extended_runDescribe (s : State) (body : Bytes) : s.Extended (s.runDescribe body) := by
  unfold runDescribe
  split
  · exact extended_reject s
  · split
    · exact extended_reject s
    · split
      · exact extended_reject s
      · exact ⟨rfl, .inl ⟨rfl, by simp⟩⟩

theorem extended_runClose (s : State) (body : Bytes) : s.Extended (s.runClose body) := by
  unfold runClose
  split
  · exact extended_reject s
  · split
    · exact extended_reject s
    · refine ⟨rfl, .inl ⟨?_, by simp⟩⟩
      simp only
      split <;> rfl

/-- Where an answer may end, and where it leaves the session. -/
structure Sound (s : State) (m : Message) (a : Answer) : Prop where
  ready : a.ending = .ready →
    (isSyncPoint m.tag = true ∨ s.mode = .copy true) ∧ a.state.mode = .command
  copyIn : a.ending = .copyIn → m.tag = byte 'Q'
  copying : a.state.mode = .copy true →
    s.mode = .copy true ∨ (m.tag = byte 'Q' ∧ a.ending = .copyIn)

theorem Extended.sound {s : State} {m : Message} {a : Answer} (h : s.Extended a) : s.Sound m a := by
  obtain ⟨hend, hmode⟩ := h
  refine ⟨fun h => ?_, fun h => ?_, fun h => .inl ?_⟩
  · rw [hend] at h
    cases h
  · rw [hend] at h
    cases h
  · rcases hmode with ⟨hmode, -⟩ | hmode
    · rw [← hmode, h]
    · rw [hmode] at h
      cases h

theorem sound_runQuery {s : State} {m : Message} (hmode : s.mode = .command)
    (htag : m.tag = byte 'Q') (sql : Bytes) : s.Sound m (s.runQuery sql) := by
  have hready : isSyncPoint m.tag = true ∨ s.mode = .copy true := .inl (by rw [htag]; decide)
  have hdone : ∀ (s' : State) (l : List Plain), s'.mode = .command → s.Sound m ⟨s', l, .ready⟩ := by
    intro s' l hs'
    refine ⟨fun _ => ⟨hready, hs'⟩, fun h => (by cases h), fun h => ?_⟩
    simp only [hs'] at h
    cases h
  unfold runQuery
  simp only
  split_ifs
  · exact hdone _ _ hmode
  · exact hdone _ _ hmode
  · exact hdone _ _ hmode
  · exact hdone _ _ hmode
  · exact ⟨fun h => (by cases h), fun _ => htag, fun _ => .inr ⟨htag, rfl⟩⟩
  · exact hdone _ _ hmode

theorem sound_runMessage {s : State} (hmode : s.mode = .command) (m : Message) :
    s.Sound m (s.runMessage m) := by
  have hready : isSyncPoint m.tag = true → ∀ l, s.Sound m ⟨s, l, .ready⟩ := by
    intro htag l
    refine ⟨fun _ => ⟨.inl htag, hmode⟩, fun h => (by cases h), fun h => ?_⟩
    simp only [hmode] at h
    cases h
  unfold runMessage
  split_ifs with hQ hP hB hD hE hC hS hF
  · exact sound_runQuery hmode hQ _
  · exact (extended_runParse s _).sound
  · exact (extended_runBind s _).sound
  · exact (extended_runDescribe s _).sound
  · exact Extended.sound ⟨rfl, .inl ⟨rfl, by simp⟩⟩
  · exact (extended_runClose s _).sound
  · exact hready (by rw [hS]; decide) _
  · exact hready (by rw [hF]; decide) _
  · exact Extended.sound ⟨rfl, .inl ⟨rfl, by simp⟩⟩

theorem sound_runCopy {s : State} {simple : Bool} (hmode : s.mode = .copy simple) (m : Message) :
    s.Sound m (s.runCopy simple m) := by
  have hover : ∀ (s' : State) (l : List Plain), simple = true → s'.mode = .command →
      s.Sound m ⟨s', l, .ready⟩ := by
    intro s' l hsimple hs'
    refine ⟨fun _ => ⟨.inr (by rw [hmode, hsimple]), hs'⟩, fun h => (by cases h), fun h => ?_⟩
    simp only [hs'] at h
    cases h
  unfold runCopy
  simp only
  split_ifs with hdata hdone hsimple hsimple
  · exact Extended.sound ⟨rfl, .inl ⟨rfl, by simp⟩⟩
  · exact hover _ _ hsimple rfl
  · exact ⟨fun h => (by cases h), fun h => (by cases h), fun h => (by cases h)⟩
  · exact hover _ _ hsimple rfl
  · exact ⟨fun h => (by cases h), fun h => (by cases h), fun h => (by cases h)⟩

theorem sound_answer (s : State) (m : Message) : s.Sound m (s.answer m) := by
  unfold answer
  split
  case h_1 hmode => exact sound_runMessage hmode m
  case h_2 hmode =>
    split
    case isTrue hS =>
      exact ⟨fun _ => ⟨.inl (by rw [hS]; decide), rfl⟩, fun h => (by cases h), fun h => (by cases h)⟩
    case isFalse => exact Extended.sound ⟨rfl, .inl ⟨rfl, by simp⟩⟩
  case h_3 simple hmode => exact sound_runCopy hmode m

end State

/-! ## The laws -/

/-- Replies come in order and end where the protocol says. -/
theorem answers : Answers server (fun s => s.mode = .copy true) where
  start n := by simp [server]
  ready_status := by
    intro s m s' rs hw x hx hz
    cases hw
    rcases Answer.terminal hx (by simp [isTerminal, hz]) with ⟨-, rfl⟩ | ⟨-, rfl⟩
    · exact ⟨_, rfl⟩
    · exact absurd hz (by decide)
  terminal_last := by
    intro s m s' rs hw front x back h hterm
    cases hw
    exact Answer.terminal_last h hterm
  ready_tag := by
    intro s m s' rs hw x hx hz
    cases hw
    rcases Answer.terminal hx (by simp [isTerminal, hz]) with ⟨hend, -⟩ | ⟨-, rfl⟩
    · exact ((State.sound_answer s m).ready hend).1
    · exact absurd hz (by decide)
  opens_tag := by
    intro s m s' rs hw x hx hcopy
    cases hw
    rcases Answer.terminal hx (by simp [isTerminal, hcopy]) with ⟨-, rfl⟩ | ⟨hend, -⟩
    · exact absurd hcopy (by simp)
    · exact .inl ((State.sound_answer s m).copyIn hend)
  copying_step := by
    intro s m s' rs hw hcopy
    cases hw
    rcases (State.sound_answer s m).copying hcopy with h | ⟨htag, hend⟩
    · exact .inl h
    · refine .inr ⟨htag, ⟨byte 'G', []⟩, ?_, by decide⟩
      simp [Answer.messages, hend]
  ready_copying := by
    intro s m s' rs hw x hx hz
    cases hw
    rcases Answer.terminal hx (by simp [isTerminal, hz]) with ⟨hend, -⟩ | ⟨-, rfl⟩
    · rw [((State.sound_answer s m).ready hend).2]
      simp
    · exact absurd hz (by decide)

  flush_silent := by
    intro s m s' rs hw htag
    cases hw
    unfold State.answer
    cases hmode : s.mode with
    | command => simp only [State.runMessage, htag]; rfl
    | skipping => simp only [htag]; rfl
    | copy simple => simp only [State.runCopy, htag]; rfl

theorem Plain.message_tag_error {p : Plain} (h : p.message.tag = byte 'E') : p = .error := by
  cases p
  case error => rfl
  all_goals exact absurd h (by decide)

theorem Answer.error_mem {a : Answer} {x : Message} (hx : x ∈ a.messages)
    (hE : x.tag = byte 'E') : .error ∈ a.plain := by
  unfold messages at hx
  rcases List.mem_append.mp hx with hx | hx
  · obtain ⟨p, hp, rfl⟩ := List.mem_map.mp hx
    rwa [Plain.message_tag_error hE] at hp
  · cases hend : a.ending with
    | «open» => simp [hend] at hx
    | ready =>
        rw [hend, List.mem_singleton] at hx
        rw [hx] at hE
        exact absurd hE (show byte 'Z' ≠ byte 'E' by decide)
    | copyIn =>
        rw [hend, List.mem_singleton] at hx
        rw [hx] at hE
        exact absurd hE (show byte 'G' ≠ byte 'E' by decide)

/-- The text the server reads off a simple query. -/
def queryText (sql : Text) : Bytes := (Message.cstring sql).takeWhile (· ≠ 0)

theorem answer_query {s : State} (hmode : s.mode = .command) (sql : Text) :
    s.answer (.query sql) = s.runQuery (queryText sql) := by
  unfold State.answer
  rw [hmode]
  rfl

theorem answer_query_skipping {s : State} (hmode : s.mode = .skipping) (sql : Text) :
    s.answer (.query sql) = ⟨s, [], .open⟩ := by
  unfold State.answer
  rw [hmode]
  rfl

theorem answer_query_copy {s : State} {simple : Bool} (hmode : s.mode = .copy simple) (sql : Text) :
    s.answer (.query sql) =
      if simple then ⟨State.fail { s with mode := .command }, [.error], .ready⟩
      else State.reject { s with mode := .command } := by
  unfold State.answer
  rw [hmode]
  rfl

/-- Transaction blocks are opened by `BEGIN` alone. -/
theorem blocks : Blocks server (fun s => s.status = .idle)
    (fun sql => queryText sql = Text.asBytes "BEGIN".toList) where
  start n := rfl
  status := by
    intro s m s' rs st hw hz
    cases hw
    rcases Answer.terminal hz rfl with ⟨-, h⟩ | ⟨-, h⟩
    · rw [Message.readyForQuery_inj h]
    · exact absurd (congrArg Message.tag h) (show byte 'Z' ≠ byte 'G' by decide)
  query := by
    intro s sql s' rs st hw hidle hopens hz
    cases hw
    rcases Answer.terminal hz rfl with ⟨hend, h⟩ | ⟨-, h⟩
    · rw [Message.readyForQuery_inj h]
      cases hmode : s.mode with
      | command =>
          rw [answer_query hmode]
          unfold State.runQuery
          simp only [State.fail, hidle, hopens, if_false, if_true]
          split_ifs <;> first | rfl | exact hidle
      | skipping =>
          rw [answer_query_skipping hmode] at hend
          cases hend
      | copy simple =>
          rw [answer_query_copy hmode]
          cases simple <;> simp [State.fail, State.reject, hidle]
    · exact absurd (congrArg Message.tag h) (show byte 'Z' ≠ byte 'G' by decide)
  rollback := by
    intro s s' rs st hw hE hz
    cases hw
    rcases Answer.terminal hz rfl with ⟨hend, h⟩ | ⟨-, h⟩
    · rw [Message.readyForQuery_inj h]
      cases hmode : s.mode with
      | command =>
          rw [answer_query hmode]
          rfl
      | skipping =>
          rw [answer_query_skipping hmode] at hend
          cases hend
      | copy simple =>
          -- In COPY the query is refused.
          refine absurd rfl (hE Plain.error.message ?_)
          rw [answer_query_copy hmode]
          cases simple <;> simp [Answer.messages, State.reject]
    · exact absurd (congrArg Message.tag h) (show byte 'Z' ≠ byte 'G' by decide)
  discard := by decide

theorem skips : Skips server (fun s => s.mode = .skipping) where
  skip := by
    intro s m s' rs hs htag hw
    cases hw
    simp [State.answer, hs, htag, Answer.messages]
  enter := by
    intro s m s' rs hw htag hE hZ
    cases hw
    obtain ⟨x, hx, hxE⟩ := hE
    have herr := Answer.error_mem hx hxE
    have hext : ∀ a, s.answer m = a → s.Extended a → a.state.mode = .skipping := by
      rintro a rfl ⟨-, ⟨-, hno⟩ | hskip⟩
      · exact absurd herr hno
      · exact hskip
    cases hmode : s.mode with
    | command =>
        have hrun : s.answer m = s.runMessage m := by
          unfold State.answer
          rw [hmode]
        rcases htag with h | h | h | h | h
        · exact hext _ rfl (by rw [hrun, State.runMessage, h]; exact State.extended_runParse s _)
        · exact hext _ rfl (by rw [hrun, State.runMessage, h]; exact State.extended_runBind s _)
        · exact hext _ rfl (by rw [hrun, State.runMessage, h]; exact State.extended_runDescribe s _)
        · exact hext _ rfl (by rw [hrun, State.runMessage, h]; exact State.extended_execute s)
        · exact hext _ rfl (by rw [hrun, State.runMessage, h]; exact State.extended_runClose s _)
    | skipping =>
        have hrun : s.answer m = ⟨s, [], .open⟩ := by
          unfold State.answer
          rw [hmode]
          rcases htag with h | h | h | h | h <;> rw [h] <;> rfl
        rw [hrun] at herr
        cases herr
    | copy simple =>
        have hrun : s.answer m =
            if simple then ⟨State.fail { s with mode := .command }, [.error], .ready⟩
            else State.reject { s with mode := .command } := by
          unfold State.answer
          rw [hmode]
          rcases htag with h | h | h | h | h <;> simp only [State.runCopy, h] <;> rfl
        cases simple with
        | false => rw [hrun]; rfl
        | true =>
            refine absurd rfl (hZ (.readyForQuery (s.answer m).state.status) ?_)
            rw [hrun]
            simp [Answer.messages]

/-! ## Prepared statements -/

namespace State

theorem find_congr {s s' : State} (h : s'.prepared = s.prepared) (n : Bytes) : s'.find n = s.find n := by
  rw [find, find, h]

theorem find_reject (s : State) (n : Bytes) : s.reject.state.find n = s.find n := rfl

theorem find_drop (s : State) (name n : Bytes) :
    (s.drop name).find n = if n = name then none else s.find n := by
  simp only [find, drop, List.find?_filter]
  split_ifs with hn
  · subst hn
    simp
  · congr 1
    congr 1
    funext p
    by_cases hp : p.1 = n
    · simp [hp, hn]
    · simp [hp]

theorem find_cons (s : State) (name sql types n : Bytes) :
    ({ s with prepared := (name, sql, types) :: s.prepared } : State).find n =
      if n = name then some (sql, types) else s.find n := by
  simp only [find, List.find?_cons]
  split_ifs with hn
  · simp [hn]
  · simp [Ne.symm hn]

/-- The session would take this statement under a free name. -/
def Accepts (s : State) (sql _types : Bytes) : Prop :=
  s.mode = .command ∧ s.status ≠ .failed ∧ sql ≠ Text.asBytes "FAIL".toList

/-- In COPY every message of another kind is an error that touches no statement. -/
theorem prepared_runCopy (s : State) (simple : Bool) (m : Message) :
    (s.runCopy simple m).state.prepared = s.prepared := by
  unfold runCopy
  simp only
  split_ifs <;> rfl

theorem prepared_answer_of_ne_command {s : State} (h : s.mode ≠ .command) (m : Message) :
    (s.answer m).state.prepared = s.prepared := by
  unfold answer
  cases hmode : s.mode with
  | command => exact absurd hmode h
  | skipping =>
      simp only
      split <;> rfl
  | copy simple => exact prepared_runCopy s simple m

theorem answer_command {s : State} (h : s.mode = .command) (m : Message) :
    s.answer m = s.runMessage m := by
  rw [answer, h]

/-- What a `Parse` outside COPY and skipping does. -/
theorem runParse_eq {s : State} {body name rest sql types : Bytes}
    (hname : takeCstring body = some (name, rest)) (hsql : takeCstring rest = some (sql, types)) :
    s.runParse body =
      let s := if name = [] then s.drop [] else s
      if (s.find name).isSome ∨ s.status = .failed ∨ sql = Text.asBytes "FAIL".toList then s.reject
      else ⟨{ s with prepared := (name, sql, types) :: s.prepared }, [.parseComplete], .open⟩ := by
  unfold runParse
  simp only [hname, hsql]

/-- Only a `Parse` answers with `ParseComplete`. -/
theorem parseComplete_mem {a : Answer} : (∃ x ∈ a.messages, x.tag = byte '1') ↔
    .parseComplete ∈ a.plain := by
  constructor
  · rintro ⟨x, hx, htag⟩
    unfold Answer.messages at hx
    rcases List.mem_append.mp hx with hx | hx
    · obtain ⟨p, hp, rfl⟩ := List.mem_map.mp hx
      cases p
      case parseComplete => exact hp
      all_goals exact absurd htag (by decide)
    · cases hend : a.ending with
      | «open» => simp [hend] at hx
      | ready =>
          rw [hend, List.mem_singleton] at hx
          rw [hx] at htag
          exact absurd htag (show byte 'Z' ≠ byte '1' by decide)
      | copyIn =>
          rw [hend, List.mem_singleton] at hx
          rw [hx] at htag
          exact absurd htag (show byte 'G' ≠ byte '1' by decide)
  · intro hp
    refine ⟨Plain.parseComplete.message, ?_, rfl⟩
    exact List.mem_append_left _ (List.mem_map_of_mem hp)

end State

/-- The texts that deallocate. -/
def Deallocates (_ : State) (m : Message) : Prop :=
  m.tag = byte 'Q' ∧ m.body.takeWhile (· ≠ 0) = Text.asBytes "DISCARD ALL".toList

/-- An empty batch of parameter statements deallocates nothing. -/
theorem not_deallocates_nothing (s : State) :
    ¬ Deallocates s (.query (PgBackend.batchSql [])) := by
  have hnothing : (Message.query (PgBackend.batchSql [])).body.takeWhile (· ≠ 0) ≠
      Text.asBytes "DISCARD ALL".toList := by decide
  exact fun h => hnothing h.2

theorem prepared_runQuery {s : State} {sql : Bytes} (h : sql ≠ Text.asBytes "DISCARD ALL".toList) :
    (s.runQuery sql).state.prepared = s.prepared := by
  unfold State.runQuery
  simp only [h, if_false]
  split_ifs <;> rfl

theorem find_runMessage_other {s : State} {m : Message} (hP : m.tag ≠ byte 'P')
    (hC : m.tag ≠ byte 'C') (hsql : m.tag = byte 'Q' ∨ m.tag = byte 'E' → ¬ Deallocates s m) :
    (s.runMessage m).state.prepared = s.prepared := by
  unfold State.runMessage
  split_ifs with hQ hB hD hE hS hF
  · exact prepared_runQuery fun h => hsql (.inl hQ) ⟨hQ, h⟩
  · unfold State.runBind
    split
    · split <;> rfl
    · rfl
  · unfold State.runDescribe
    split
    · rfl
    · split
      · rfl
      · split <;> rfl
  · rfl
  · rfl
  · rfl
  · rfl

/-- A `Parse` that is read: it is taken, or rejected and the unnamed statement gone. -/
theorem runParse_cases {s : State} {body name rest sql types : Bytes}
    (hname : takeCstring body = some (name, rest)) (hsql : takeCstring rest = some (sql, types)) :
    (.parseComplete ∈ (s.runParse body).plain ∧ (s.runParse body).state.mode = s.mode ∧
        ∀ n, (s.runParse body).state.find n = if n = name then some (sql, types) else s.find n) ∨
      (.parseComplete ∉ (s.runParse body).plain ∧
        ((s.find name).isSome = true ∨ s.status = .failed ∨ sql = Text.asBytes "FAIL".toList) ∧
        ∀ n, (s.runParse body).state.find n = if n = name ∧ name = [] then none else s.find n) := by
  rw [State.runParse_eq hname hsql]
  by_cases hnil : name = []
  · subst hnil
    simp only [if_true]
    split_ifs with hrej
    · refine .inr ⟨by simp [State.reject], ?_, fun n => ?_⟩
      · rcases hrej with h | h
        · rw [State.find_drop] at h
          simp at h
        · exact .inr h
      · rw [State.find_reject, State.find_drop]
        simp
    · refine .inl ⟨by simp, rfl, fun n => ?_⟩
      rw [State.find_cons, State.find_drop]
      split_ifs <;> rfl
  · simp only [if_neg hnil]
    split_ifs with hrej
    · refine .inr ⟨by simp [State.reject], hrej, fun n => ?_⟩
      rw [State.find_reject]
      simp [hnil]
    · exact .inl ⟨by simp, rfl, fun n => State.find_cons s name sql types n⟩

theorem runQuery_discard (s : State) :
    s.runQuery (queryText "DISCARD ALL".toList) =
      if s.status = .failed then ⟨s.fail, [.error], .ready⟩
      else ⟨{ s with prepared := [] }, [.commandComplete], .ready⟩ := by
  generalize hq : queryText "DISCARD ALL".toList = q
  have hrollback : q ≠ Text.asBytes "ROLLBACK".toList := by rw [← hq]; decide
  have hcommit : q ≠ Text.asBytes "COMMIT".toList := by rw [← hq]; decide
  have hfail : q ≠ Text.asBytes "FAIL".toList := by rw [← hq]; decide
  have hbegin : q ≠ Text.asBytes "BEGIN".toList := by rw [← hq]; decide
  have hself : q = Text.asBytes "DISCARD ALL".toList := by rw [← hq]; decide
  unfold State.runQuery
  rw [if_neg (not_or.mpr ⟨hrollback, hcommit⟩), if_neg hbegin, if_pos hself]
  by_cases hstatus : s.status = .failed
  · rw [if_pos hstatus, if_pos (.inl hstatus)]
  · rw [if_neg hstatus, if_neg (not_or.mpr ⟨hstatus, hfail⟩)]

/-- A `Close` that is read. -/
theorem runClose_eq {s : State} {kind : UInt8} {rest name back : Bytes}
    (h : takeCstring rest = some (name, back)) :
    s.runClose (kind :: rest) =
      ⟨if kind = byte 'S' then s.drop name else s, [.closeComplete], .open⟩ := by
  unfold State.runClose
  simp only [h]

theorem prepares : Prepares server State.find (fun s => s.mode = .command) State.Accepts
    Deallocates where
  start k n := rfl
  dead := by
    intro s m hw
    cases hw
  attentive_of_accepts h := h.1
  parse := by
    intro s body s' rs name rest sql types hw hname hsql
    cases hw
    by_cases hmode : s.mode = .command
    · have hrun : s.answer ⟨byte 'P', body⟩ = s.runParse body := State.answer_command hmode _
      rw [hrun, State.parseComplete_mem]
      obtain ⟨hone, -, hfind⟩ | ⟨hnone, -, hfind⟩ := runParse_cases (s := s) hname hsql
      · refine ⟨fun n hn => by rw [hfind, if_neg hn], fun _ => by rw [hfind, if_pos rfl], fun hno => ?_⟩
        obtain ⟨x, hx, htag⟩ := State.parseComplete_mem.mpr hone
        exact absurd htag (hno x hx)
      · refine ⟨fun n hn => by rw [hfind, if_neg fun h => hn h.1], fun h => absurd h hnone, fun _ => ?_⟩
        rw [hfind]
        split_ifs
        · exact .inr rfl
        · exact .inl rfl
    · have hsame := State.find_congr (State.prepared_answer_of_ne_command hmode ⟨byte 'P', body⟩)
      refine ⟨fun n _ => hsame n, fun hone => ?_, fun _ => .inl (hsame name)⟩
      rw [State.parseComplete_mem] at hone
      refine absurd hone ?_
      unfold State.answer
      cases hm : s.mode with
      | command => exact absurd hm hmode
      | skipping => exact fun h => by cases h
      | copy simple => cases simple <;> exact fun h => by cases h with | tail _ h => cases h
  accepted := by
    rintro s body s' rs name rest sql types ⟨hmode, hstatus, htext⟩ hw hname hsql hfree
    cases hw
    have hrun : s.answer ⟨byte 'P', body⟩ = s.runParse body := State.answer_command hmode _
    rw [hrun, State.parseComplete_mem]
    obtain ⟨hone, hkeeps, -⟩ | ⟨-, hrej, -⟩ := runParse_cases (s := s) hname hsql
    · exact ⟨hone, hkeeps.trans hmode⟩
    · rcases hrej with h | h | h
      · rw [hfree] at h
        cases h
      · exact absurd h hstatus
      · exact absurd h htext
  close := by
    intro s rest s' rs name back hw hname
    cases hw
    by_cases hmode : s.mode = .command
    · have hrun : s.answer ⟨byte 'C', byte 'S' :: rest⟩ = s.runClose (byte 'S' :: rest) :=
        State.answer_command hmode _
      rw [hrun, runClose_eq hname]
      simp only [if_true]
      refine ⟨fun n hn => by rw [State.find_drop, if_neg hn], .inr ?_, fun _ => ⟨?_, hmode⟩,
        fun sql types h => h⟩
      · rw [State.find_drop, if_pos rfl]
      · rw [State.find_drop, if_pos rfl]
    · have hsame := State.find_congr
        (State.prepared_answer_of_ne_command hmode ⟨byte 'C', byte 'S' :: rest⟩)
      exact ⟨fun n _ => hsame n, .inl (hsame name), fun h => absurd h hmode,
        fun sql types h => absurd h.1 hmode⟩
  closePortal := by
    intro s kind rest s' rs hw hkind n
    cases hw
    refine State.find_congr ?_ n
    by_cases hmode : s.mode = .command
    · have hrun : s.answer ⟨byte 'C', kind :: rest⟩ = s.runClose (kind :: rest) :=
        State.answer_command hmode _
      rw [hrun]
      unfold State.runClose
      simp only [hkind, if_false]
      split <;> rfl
    · exact State.prepared_answer_of_ne_command hmode _
  other := by
    intro s m s' rs hw hP hC hsql n
    cases hw
    refine .inl (State.find_congr ?_ n)
    by_cases hmode : s.mode = .command
    · rw [State.answer_command hmode]
      exact find_runMessage_other hP hC hsql
    · exact State.prepared_answer_of_ne_command hmode m
  flush := by
    intro s m s' rs hw htag
    cases hw
    have hsame : s.mode = .command → (s.answer m).state = s := by
      intro hmode
      rw [State.answer_command hmode, State.runMessage, htag]
      rfl
    refine ⟨fun hmode => by rw [hsame hmode]; exact hmode, fun sql types h => ?_⟩
    rw [hsame h.1]
    exact h
  discard := by
    intro s s' rs hw
    cases hw
    refine ⟨fun n => ?_, fun hE hz n => ?_⟩
    · by_cases hmode : s.mode = .command
      · rw [answer_query hmode, runQuery_discard]
        split_ifs
        · exact .inl rfl
        · exact .inr rfl
      · exact .inl (State.find_congr (State.prepared_answer_of_ne_command hmode _) n)
    · obtain ⟨status, hz⟩ := hz
      cases hmode : s.mode with
      | command =>
          rw [answer_query hmode, runQuery_discard] at hE ⊢
          split_ifs at hE ⊢
          · refine absurd rfl (hE Plain.error.message ?_)
            simp [Answer.messages]
          · rfl
      | skipping =>
          rw [answer_query_skipping hmode] at hz
          cases hz
      | copy simple =>
          refine absurd rfl (hE Plain.error.message ?_)
          rw [answer_query_copy hmode]
          cases simple <;> simp [Answer.messages, State.reject]
  resets s := by
    refine ⟨?_, ?_⟩ <;>
    · rintro ⟨-, h⟩
      exact absurd h (by decide)

/-! ## Short answers -/

theorem live : Live server where
  write s m := by simp [server]
  flush s := rfl

/-- A `Parse` and a `Close` get one reply at most. -/
theorem messages_brief {s : State} {m : Message} (hmode : s.mode ≠ .copy true)
    (htag : m.tag = byte 'P' ∨ m.tag = byte 'C') : (s.answer m).messages.length ≤ 1 := by
  have hreject : ∀ s : State, s.reject.messages.length ≤ 1 := fun s => by
    simp [State.reject, Answer.messages]
  have hS : m.tag ≠ byte 'S' := by rcases htag with h | h <;> rw [h] <;> decide
  unfold State.answer
  split
  case h_1 =>
    unfold State.runMessage
    rcases htag with h | h
    · rw [h, if_neg (by decide), if_pos rfl]
      unfold State.runParse
      split
      case h_1 => exact hreject _
      case h_2 =>
        split
        case h_1 => exact hreject _
        case h_2 name _ _ _ _ _ _ =>
          generalize (if name = [] then s.drop [] else s) = s'
          simp only
          split
          · exact hreject _
          · simp [Answer.messages]
    · rw [h, if_neg (by decide), if_neg (by decide), if_neg (by decide), if_neg (by decide),
        if_neg (by decide), if_pos rfl]
      unfold State.runClose
      split
      · exact hreject _
      · split
        · exact hreject _
        · simp [Answer.messages]
  case h_2 => simp [hS, Answer.messages]
  case h_3 simple hcopy =>
    have hsimple : simple = false := by
      cases simple
      · rfl
      · exact absurd hcopy hmode
    have hother : ¬ (m.tag = byte 'd' ∨ m.tag = byte 'H' ∨ m.tag = byte 'S') ∧ m.tag ≠ byte 'c' := by
      rcases htag with h | h <;> rw [h] <;> decide
    rw [State.runCopy, if_neg hother.1, if_neg hother.2, hsimple]
    exact hreject _

theorem completes : Completes server (fun s => s.mode = .copy true) := by
  have hlast : ∀ {s : State} {m : Message} {front back : List Message} {x : Message},
      s.mode ≠ .copy true → m.tag = byte 'P' ∨ m.tag = byte 'C' →
      (s.answer m).messages = front ++ x :: back → back = [] := by
    intro s m front back x hmode htag h
    have hbrief := messages_brief hmode htag
    rw [h, List.length_append, List.length_cons] at hbrief
    exact List.length_eq_zero_iff.mp (by omega)
  constructor
  · intro s m s' rs hw hmode hP front x back h _
    cases hw
    exact hlast hmode (.inl hP) h
  · intro s m s' rs hw hmode hC front x back h _
    cases hw
    exact hlast hmode (.inr hC) h

end Havuz.Mini
