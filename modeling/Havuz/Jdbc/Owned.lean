import Havuz.Pool.Retire
import Mathlib.Data.List.Perm.Subperm

/-!
# Who owns a session of the agent

Reference: `JdbcConnector::connect` and `JdbcBackend::close` in `havuz-jdbc/src/conn.rs`, `Agent::call` in
`havuz-jdbc/src/agent.rs`, `Pool::acquire` and the closer in `havuz-pool/src/pool.rs`, `openSession` and
`closeSession` in `Agent.java`.

The pool is the one of `Pool/Model.lean`; its connections are sessions of the agent, by number. A connection is opened
by a request that the agent performs when it comes to it, and its answer is read by the `acquire` that waits for it, if
that still waits. Requests of other kinds do not open or close a session and only make the others wait.
-/

namespace Havuz.Jdbc

open Lib

/-- A request that opens a session, with its id, or closes one. -/
inductive Sent where
  | openSession (id : ℕ)
  | closeSession (session : ℕ)
deriving DecidableEq, Repr

/-- The id of an `open_session`. -/
def Sent.id : Sent → Option ℕ
  | .openSession id => some id
  | .closeSession _ => none

/-- What becomes of an `open_session`. -/
inductive Opening where
  | opened
  | refused
  /-- Something that is no `SQLException` is thrown when the session is in the table already. -/
  | thrown
deriving DecidableEq, Repr

/-- A pool over its agent. -/
structure Sidecar where
  pool : Procs (Pool.Inner ℕ) (Pool.Task ℕ)
  /-- What the closer task has been sent. -/
  retired : List ℕ := []
  /-- What it is closing. -/
  closing : Option ℕ := none
  /-- The tasks that wait for an `open_session`, and its id. -/
  waiting : List (ℕ × ℕ) := []
  nextId : ℕ := 0
  /-- The requests that the agent has not performed. -/
  sent : List Sent := []
  /-- The answers to `open_session` that nobody has taken, by id. -/
  answers : List (ℕ × Option ℕ) := []
  /-- The sessions that are open in the agent. -/
  sessions : List ℕ := []
  nextSession : ℕ := 0
deriving DecidableEq

namespace Sidecar

inductive Event where
  /-- A task makes a move in the pool; a future that is dropped waits no more. -/
  | pool (task : ℕ) (m : Pool.Move ℕ)
  /-- `connect` writes its request. -/
  | openSession (task : ℕ)
  /-- The agent performs the next request. -/
  | perform (opening : Opening)
  /-- A task takes its answer. -/
  | take (task : ℕ)
  /-- A task gives up: `connect_timeout`, or the request's own. -/
  | giveUp (task : ℕ)
  /-- The closer task goes on to a connection, and writes its request. -/
  | closeSession (session : ℕ)
  | closed
  /-- The closer task gives up, and drops its connection. -/
  | giveUpClosing

/-- A move of a task, with what it sends to the closer. -/
def move (task : ℕ) (m : Pool.Move ℕ) (b : Sidecar) : Sidecar :=
  match b.pool.procs[task]? with
  | none => b
  | some t =>
      match Pool.act m b.pool.shared t with
      | none => b
      | some (s, t') =>
          { b with pool := ⟨s, b.pool.procs.set task t'⟩, retired := b.retired ++ Pool.retires m b.pool.shared t }

/-- A task waits no more. -/
def forget (task : ℕ) (b : Sidecar) : Sidecar := { b with waiting := b.waiting.filter fun w => w.1 ≠ task }

/-- A task is where it opens a connection. -/
def connects (task : ℕ) (b : Sidecar) : Bool :=
  match b.pool.procs[task]? with
  | some t =>
      match t.pc with
      | .connecting => true
      | _ => false
  | none => false

/-- `Agent.handle`. -/
def perform (opening : Opening) (b : Sidecar) : Sidecar :=
  match b.sent with
  | [] => b
  | .openSession id :: sent =>
      match opening with
      | .opened =>
          { b with
            sent
            answers := b.answers ++ [(id, some b.nextSession)]
            sessions := b.sessions ++ [b.nextSession]
            nextSession := b.nextSession + 1 }
      | .refused => { b with sent, answers := b.answers ++ [(id, none)] }
      | .thrown =>
          { b with
            sent
            answers := b.answers ++ [(id, none)]
            sessions := b.sessions ++ [b.nextSession]
            nextSession := b.nextSession + 1 }
  | .closeSession session :: sent => { b with sent, sessions := b.sessions.erase session }

def take (task : ℕ) (b : Sidecar) : Sidecar :=
  match b.waiting.find? fun w => w.1 = task with
  | none => b
  | some (_, id) =>
      match b.answers.find? fun a => a.1 = id with
      | none => b
      | some (_, answer) =>
          { (b.move task (.connect answer)).forget task with answers := b.answers.filter fun a => a.1 ≠ id }

def step (b : Sidecar) : Event → Sidecar
  | .pool _ (.connect _) => b
  | .pool task .cancel => (b.move task .cancel).forget task
  | .pool task m => b.move task m
  | .openSession task =>
      if b.connects task && !b.waiting.any fun w => w.1 = task then
        { b with
          waiting := b.waiting ++ [(task, b.nextId)]
          nextId := b.nextId + 1
          sent := b.sent ++ [.openSession b.nextId] }
      else b
  | .perform opening => b.perform opening
  | .take task => b.take task
  | .giveUp task => (b.move task (.connect none)).forget task
  | .closeSession session =>
      if b.closing = none ∧ session ∈ b.retired then
        { b with
          retired := b.retired.erase session
          closing := some session
          sent := b.sent ++ [.closeSession session] }
      else b
  | .closed =>
      match b.closing with
      | none => b
      | some session => if .closeSession session ∈ b.sent then b else { b with closing := none }
  | .giveUpClosing => { b with closing := none }

/-- A new pool, its agent, and `n` tasks that have not called it yet. -/
def new (maxSize minIdle n : ℕ) : Sidecar := { pool := Pool.new ℕ maxSize minIdle n }

/-! ## Ownership -/

/-- The sessions that some `JdbcBackend` refers to: idle, checked out or being closed. -/
def backends (b : Sidecar) : List ℕ :=
  b.pool.shared.idle ++ b.pool.procs.flatMap Pool.Task.inHand ++ (b.retired ++ b.closing.toList)

/-- The sessions in answers for which a caller is still waiting. -/
def promised (b : Sidecar) : List ℕ :=
  b.answers.filterMap fun a => if b.waiting.any fun w => w.2 = a.1 then a.2 else none

/-- Each session that is open has one owner, and there are no more than the pool may have and those being closed. -/
structure Owned (b : Sidecar) : Prop where
  once : ∀ session ∈ b.sessions, (b.backends ++ b.promised).count session = 1
  bound : b.sessions.length ≤ b.pool.shared.maxSize + (b.retired.length + b.closing.toList.length)

/-- A task that leaves has not been sent a session. -/
def Leaves (task : ℕ) (b : Sidecar) : Prop :=
  ∀ w ∈ b.waiting, w.1 = task → ∀ a ∈ b.answers, a.1 = w.2 → a.2 = none

instance (task : ℕ) (b : Sidecar) : Decidable (b.Leaves task) := by
  unfold Leaves
  infer_instance

/-- The condition on a run. Whoever has a session opened waits for it until it has it, `open_session` does not throw
with the session in the table, and the closer waits until the session is closed. -/
def Attended (b : Sidecar) : Event → Prop
  | .pool task .cancel => b.Leaves task
  | .giveUp task => b.Leaves task
  | .perform opening =>
      ∀ request ∈ b.sent.head?, ∀ id ∈ request.id,
        opening ≠ .thrown ∧ (opening = .opened → ∃ w ∈ b.waiting, w.2 = id)
  | .giveUpClosing => ∀ session ∈ b.closing, .closeSession session ∉ b.sent
  | _ => True

instance (b : Sidecar) (e : Event) : Decidable (b.Attended e) := by
  unfold Attended
  split <;> infer_instance

variable {b : Sidecar} {task : ℕ} {m : Pool.Move ℕ}

/-! ## Moves in the pool -/

/-- All that a move of a task does. -/
theorem move_cases (b : Sidecar) (task : ℕ) (m : Pool.Move ℕ) :
    b.move task m = b ∨ ∃ t s t', b.pool.procs[task]? = some t ∧ Pool.act m b.pool.shared t = some (s, t') ∧
      b.move task m = { b with
        pool := ⟨s, b.pool.procs.set task t'⟩
        retired := b.retired ++ Pool.retires m b.pool.shared t } := by
  unfold move
  split
  case h_1 => exact .inl rfl
  case h_2 t ht =>
    split
    case h_1 => exact .inl rfl
    case h_2 s t' hact => exact .inr ⟨t, s, t', ht, hact, rfl⟩

/-- It is a step of the pool. -/
theorem pool_move (b : Sidecar) (task : ℕ) (m : Pool.Move ℕ) :
    (b.move task m).pool = b.pool.step Pool.act (task, m) := by
  unfold move Procs.step
  cases b.pool.procs[task]? with
  | none => rfl
  | some t =>
      dsimp only
      cases Pool.act m b.pool.shared t with
      | none => rfl
      | some r => rfl

theorem count_inHand (ps : List (Pool.Task ℕ)) (c : ℕ) :
    (ps.flatMap Pool.Task.inHand).count c = total (fun t => t.inHand.count c) ps := List.count_flatMap

theorem count_backends (b : Sidecar) (c : ℕ) : b.backends.count c =
    b.pool.shared.idle.count c + total (fun t => t.inHand.count c) b.pool.procs +
      (b.retired.count c + b.closing.toList.count c) := by
  simp only [backends, List.count_append, count_inHand]

/-- A move that opens no connection keeps all of them. -/
theorem count_move (hopens : m.opens = []) (c : ℕ) : (b.move task m).backends.count c = b.backends.count c := by
  obtain hsame | ⟨t, s, t', ht, hact, hmove⟩ := b.move_cases task m
  · rw [hsame]
  · have hconserves := Pool.act_conserves hact c
    have htotal := total_set (fun t : Pool.Task ℕ => t.inHand.count c) t' ht
    rw [hopens, List.count_nil] at hconserves
    rw [hmove, count_backends, count_backends]
    simp only [List.count_append]
    omega

/-- Nothing but the pool is moved. -/
theorem move_frame (b : Sidecar) (task : ℕ) (m : Pool.Move ℕ) :
    ∃ retired, b.move task m = { b with pool := b.pool.step Pool.act (task, m), retired } := by
  rw [← pool_move]
  obtain hsame | ⟨t, s, t', -, -, hmove⟩ := b.move_cases task m
  · exact ⟨b.retired, by rw [hsame]⟩
  · exact ⟨_, by rw [hmove]⟩

theorem connects_iff : b.connects task = true ↔ ∃ t, b.pool.procs[task]? = some t ∧ t.pc = .connecting := by
  unfold connects
  split
  case h_1 t ht =>
    split
    case h_1 hpc => simp [ht, hpc]
    case h_2 hpc =>
      have hne : t.pc ≠ .connecting := hpc
      simp [ht, hne]
  case h_2 hnone => simp [hnone]

/-- The other tasks are where they were. -/
theorem connects_move {other : ℕ} (hne : other ≠ task) : (b.move task m).connects other = b.connects other := by
  unfold connects
  rw [pool_move, Procs.step_other _ _ (task, m) hne]

/-- A task that opens a connection only waits. -/
theorem move_of_connects (hconnects : b.connects task = true) (hm : ∀ c, m ≠ .connect c) (hcancel : m ≠ .cancel) :
    b.move task m = b := by
  obtain ⟨t, ht, hpc⟩ := connects_iff.mp hconnects
  have hstays : Pool.act m b.pool.shared t = none := by
    unfold Pool.act
    rw [hpc]
    cases m with
    | connect c => exact absurd rfl (hm c)
    | cancel => exact absurd rfl hcancel
    | _ => rfl
  simp only [move, ht, hstays]

/-- A task that opens a connection gets it. -/
theorem count_connect (hconnects : b.connects task = true) (session c : ℕ) :
    (b.move task (.connect (some session))).backends.count c = b.backends.count c + [session].count c := by
  obtain ⟨t, ht, hpc⟩ := connects_iff.mp hconnects
  have hact : Pool.act (.connect (some session)) b.pool.shared t =
      some (b.pool.shared, { t with pc := .opened session }) := by
    unfold Pool.act
    rw [hpc]
  have hconserves := Pool.act_conserves hact c
  have htotal := total_set (fun t : Pool.Task ℕ => t.inHand.count c) { t with pc := .opened session } ht
  have hopens : (Pool.Move.connect (some session)).opens = [session] := rfl
  rw [hopens] at hconserves
  simp only [move, ht, hact]
  rw [count_backends, count_backends]
  simp only [List.count_append]
  omega

/-! ## The invariant -/

/-- The ids of the calls that are on their way. -/
def ids (b : Sidecar) : List ℕ := b.sent.filterMap Sent.id ++ b.answers.map Prod.fst

/-- What holds in every state of a run that meets the condition. -/
structure Keeps (b : Sidecar) : Prop where
  bounded : Pool.Bounded b.pool
  /-- A task waits for one answer, and where it opens a connection. -/
  tasks : (b.waiting.map Prod.fst).Nodup
  connects : ∀ w ∈ b.waiting, b.connects w.1 = true
  /-- Ids are used once. -/
  ids : b.ids.Nodup
  below : ∀ id ∈ b.ids, id < b.nextId
  /-- A session that was answered is waited for. -/
  attended : ∀ a ∈ b.answers, a.2 ≠ none → ∃ w ∈ b.waiting, w.2 = a.1
  sessions : b.sessions.Nodup
  fresh : ∀ session ∈ b.sessions, session < b.nextSession
  closing : ∀ session, .closeSession session ∈ b.sent → b.closing = some session
  /-- Each session has one owner; one that was closed may be with the closer still. -/
  owned : ∀ session, (b.backends ++ b.answers.filterMap Prod.snd).count session =
    b.sessions.count session + if b.closing = some session ∧ session ∉ b.sessions then 1 else 0
  closes : ∀ session ∈ b.closing, session < b.nextSession ∧ (session ∈ b.sessions → .closeSession session ∈ b.sent)

theorem Keeps.lt (h : Keeps b) {session : ℕ} (hmem : session ∈ b.backends ++ b.answers.filterMap Prod.snd) :
    session < b.nextSession := by
  have hcount := h.owned session
  have hpositive := List.count_pos_iff.mpr hmem
  by_cases hsession : session ∈ b.sessions
  · exact h.fresh session hsession
  · rw [List.count_eq_zero_of_not_mem hsession] at hcount
    split at hcount
    case isTrue hclosing => exact (h.closes session hclosing.1).1
    case isFalse => omega

/-- A task leaves, and its call with it. -/
theorem Keeps.leave (h : Keeps b) (hopens : m.opens = []) (hleaves : b.Leaves task) :
    Keeps ((b.move task m).forget task) := by
  have hcount : ∀ c, (b.move task m).backends.count c = b.backends.count c := count_move hopens
  have hconnects : ∀ other, other ≠ task → (b.move task m).connects other = b.connects other :=
    fun other hne => connects_move hne
  obtain ⟨retired, hmove⟩ := b.move_frame task m
  rw [hmove] at hcount hconnects ⊢
  have hwaiting : ∀ w ∈ b.waiting.filter (fun w => w.1 ≠ task), w ∈ b.waiting ∧ w.1 ≠ task := by
    intro w hw
    simpa using hw
  refine ⟨h.bounded.step _, ?_, ?_, h.ids, h.below, ?_, h.sessions, h.fresh, h.closing, ?_, h.closes⟩
  · exact h.tasks.sublist (List.filter_sublist.map _)
  · intro w hw
    obtain ⟨hw, hne⟩ := hwaiting w hw
    exact (hconnects w.1 hne).trans (h.connects w hw)
  · intro a ha hsome
    obtain ⟨w, hw, hid⟩ := h.attended a ha hsome
    refine ⟨w, ?_, hid⟩
    have hne : w.1 ≠ task := fun htask => hsome (hleaves w hw htask a ha hid.symm)
    exact List.mem_filter.mpr ⟨hw, by simpa using hne⟩
  · intro session
    have hsession := h.owned session
    rw [List.count_append] at hsession ⊢
    rw [← hcount session] at hsession
    exact hsession

/-- A task makes a move of another kind. -/
theorem Keeps.move (h : Keeps b) (hm : ∀ c, m ≠ .connect c) (hcancel : m ≠ .cancel) : Keeps (b.move task m) := by
  cases hconnects : b.connects task with
  | true =>
      rw [move_of_connects hconnects hm hcancel]
      exact h
  | false =>
      -- it has not asked for a connection, so there is no call to forget
      have hnone : ∀ w ∈ b.waiting, w.1 ≠ task := by
        rintro w hw rfl
        rw [h.connects w hw] at hconnects
        cases hconnects
      have hopens : m.opens = [] := by
        cases m with
        | connect c => exact absurd rfl (hm c)
        | _ => rfl
      have hleave : Keeps ((b.move task m).forget task) :=
        h.leave hopens fun w hw htask => absurd htask (hnone w hw)
      have hsame : (b.move task m).forget task = b.move task m := by
        obtain ⟨retired, hmove⟩ := b.move_frame task m
        have hfilter : b.waiting.filter (fun w => w.1 ≠ task) = b.waiting :=
          List.filter_eq_self.mpr fun w hw => by simpa using hnone w hw
        rw [hmove, forget]
        simp only [hfilter]
      rwa [hsame] at hleave

/-- `connect` writes its request. -/
theorem Keeps.openSession (h : Keeps b) : Keeps (b.step (.openSession task)) := by
  simp only [step]
  split
  case isFalse => exact h
  case isTrue hasks =>
    rw [Bool.and_eq_true, Bool.not_eq_true', List.any_eq_false] at hasks
    obtain ⟨hconnects, hnone⟩ := hasks
    have hids : (List.filterMap Sent.id (b.sent ++ [.openSession b.nextId]) ++ b.answers.map Prod.fst).Perm
        (b.nextId :: b.ids) := by
      rw [List.filterMap_append, List.append_assoc]
      exact List.perm_middle
    refine ⟨h.bounded, ?_, ?_, ?_, ?_, ?_, h.sessions, h.fresh, ?_, h.owned, ?_⟩
    · rw [List.map_append, List.nodup_append]
      refine ⟨h.tasks, by simp, ?_⟩
      intro i hi j hj
      obtain ⟨w, hw, rfl⟩ := List.mem_map.mp hi
      have hne := hnone w hw
      simp only [List.map_cons, List.map_nil, List.mem_singleton] at hj
      subst hj
      simpa using hne
    · intro w hw
      obtain hw | hw := List.mem_append.mp hw
      · exact h.connects w hw
      · rw [List.mem_singleton.mp hw]
        exact hconnects
    · exact hids.nodup_iff.mpr (List.nodup_cons.mpr ⟨fun hmem => Nat.lt_irrefl _ (h.below _ hmem), h.ids⟩)
    · intro id hid
      obtain rfl | hid := List.mem_cons.mp (hids.mem_iff.mp hid)
      · exact Nat.lt_succ_self _
      · exact Nat.lt_succ_of_lt (h.below id hid)
    · intro a ha hsome
      obtain ⟨w, hw, hid⟩ := h.attended a ha hsome
      exact ⟨w, List.mem_append_left _ hw, hid⟩
    · intro session hsession
      exact h.closing session (by simpa using hsession)
    · intro session hclosing
      obtain ⟨hlt, hsent⟩ := h.closes session hclosing
      exact ⟨hlt, fun hmem => List.mem_append_left _ (hsent hmem)⟩

theorem ids_answered {id : ℕ} {sent : List Sent} (hsent : b.sent = .openSession id :: sent) (answer : Option ℕ) :
    (sent.filterMap Sent.id ++ (b.answers ++ [(id, answer)]).map Prod.fst).Perm b.ids := by
  have hids : b.ids = id :: (sent.filterMap Sent.id ++ b.answers.map Prod.fst) := by
    rw [ids, hsent]
    rfl
  rw [hids, List.map_append, ← List.append_assoc]
  exact List.perm_append_singleton _ _

/-- The agent opens a session for a caller that waits. -/
theorem Keeps.opened {id : ℕ} {sent : List Sent} (h : Keeps b) (hsent : b.sent = .openSession id :: sent)
    (hwaits : ∃ w ∈ b.waiting, w.2 = id) :
    Keeps { b with
      sent
      answers := b.answers ++ [(id, some b.nextSession)]
      sessions := b.sessions ++ [b.nextSession]
      nextSession := b.nextSession + 1 } := by
  have hids := ids_answered hsent (some b.nextSession)
  have hnew : b.nextSession ∉ b.sessions := fun hmem => Nat.lt_irrefl _ (h.fresh _ hmem)
  have hcloser : b.closing ≠ some b.nextSession := fun hclosing => Nat.lt_irrefl _ (h.closes _ hclosing).1
  have hmem : ∀ session, session ≠ b.nextSession → (session ∈ b.sessions ++ [b.nextSession] ↔ session ∈ b.sessions) := by
    intro session hne
    simp [hne]
  refine ⟨h.bounded, h.tasks, h.connects, hids.nodup_iff.mpr h.ids, fun id hid => h.below id (hids.mem_iff.mp hid),
    ?_, ?_, ?_, ?_, ?_, ?_⟩
  · intro a ha hsome
    obtain ha | ha := List.mem_append.mp ha
    · exact h.attended a ha hsome
    · rw [List.mem_singleton.mp ha]
      exact hwaits
  · rw [List.nodup_append]
    refine ⟨h.sessions, by simp, ?_⟩
    rintro session hsession _ hlast rfl
    rw [List.mem_singleton.mp hlast] at hsession
    exact hnew hsession
  · intro session hsession
    obtain hsession | hsession := List.mem_append.mp hsession
    · exact Nat.lt_succ_of_lt (h.fresh session hsession)
    · rw [List.mem_singleton.mp hsession]
      exact Nat.lt_succ_self _
  · intro session hclose
    exact h.closing session (by rw [hsent]; exact List.mem_cons_of_mem _ hclose)
  · intro session
    have hsession := h.owned session
    change (b.backends ++ (b.answers ++ [(id, some b.nextSession)]).filterMap Prod.snd).count session =
      (b.sessions ++ [b.nextSession]).count session +
        if b.closing = some session ∧ session ∉ b.sessions ++ [b.nextSession] then 1 else 0
    rw [List.filterMap_append, ← List.append_assoc, List.count_append, hsession, List.count_append]
    by_cases hne : session = b.nextSession
    · subst hne
      simp [hcloser]
    · simp only [hmem session hne]
      have hother : List.count session [b.nextSession] = 0 := by simp [Ne.symm hne]
      simp [hother]
  · intro session hclosing
    obtain ⟨hlt, hclose⟩ := h.closes session hclosing
    refine ⟨Nat.lt_succ_of_lt hlt, fun hsession => ?_⟩
    have hclose := hclose ((hmem session (Nat.ne_of_lt hlt)).mp hsession)
    rw [hsent] at hclose
    simpa using hclose

theorem Keeps.refused {id : ℕ} {sent : List Sent} (h : Keeps b) (hsent : b.sent = .openSession id :: sent) :
    Keeps { b with sent, answers := b.answers ++ [(id, none)] } := by
  have hids := ids_answered hsent none
  refine ⟨h.bounded, h.tasks, h.connects, hids.nodup_iff.mpr h.ids, fun id hid => h.below id (hids.mem_iff.mp hid),
    ?_, h.sessions, h.fresh, ?_, ?_, ?_⟩
  · intro a ha hsome
    obtain ha | ha := List.mem_append.mp ha
    · exact h.attended a ha hsome
    · rw [List.mem_singleton.mp ha] at hsome
      exact absurd rfl hsome
  · intro session hclose
    exact h.closing session (by rw [hsent]; exact List.mem_cons_of_mem _ hclose)
  · intro session
    have hsession := h.owned session
    change (b.backends ++ (b.answers ++ [(id, none)]).filterMap Prod.snd).count session = _
    rw [List.filterMap_append]
    simpa using hsession
  · intro session hclosing
    obtain ⟨hlt, hclose⟩ := h.closes session hclosing
    refine ⟨hlt, fun hsession => ?_⟩
    have hclose := hclose hsession
    rw [hsent] at hclose
    simpa using hclose

/-- The agent closes a session, which is with the closer. -/
theorem Keeps.closedSession {session : ℕ} {sent : List Sent} (h : Keeps b)
    (hsent : b.sent = .closeSession session :: sent) : Keeps { b with sent, sessions := b.sessions.erase session } := by
  have hids : b.ids = sent.filterMap Sent.id ++ b.answers.map Prod.fst := by
    rw [Sidecar.ids, hsent]
    rfl
  have hclosing : b.closing = some session := h.closing session (by rw [hsent]; exact List.mem_cons_self)
  refine ⟨h.bounded, h.tasks, h.connects, ?_, fun id hid => h.below id (by rw [hids]; exact hid), h.attended,
    h.sessions.erase session, fun other hother => h.fresh other (List.mem_of_mem_erase hother), ?_, ?_, ?_⟩
  · have hnodup := h.ids
    rwa [hids] at hnodup
  · intro other hclose
    exact h.closing other (by rw [hsent]; exact List.mem_cons_of_mem _ hclose)
  · intro other
    have hother := h.owned other
    change (b.backends ++ b.answers.filterMap Prod.snd).count other = (b.sessions.erase session).count other +
      if b.closing = some other ∧ other ∉ b.sessions.erase session then 1 else 0
    rw [hother, hclosing]
    by_cases hne : other = session
    · subst hne
      have hgone : other ∉ b.sessions.erase other := h.sessions.not_mem_erase
      rw [List.count_eq_zero_of_not_mem hgone]
      by_cases hmem : other ∈ b.sessions
      · rw [List.count_eq_one_of_mem h.sessions hmem]
        simp [hmem, hgone]
      · rw [List.count_eq_zero_of_not_mem hmem]
        simp [hmem, hgone]
    · rw [List.count_erase_of_ne hne]
      simp [Ne.symm hne]
  · intro other hother
    rw [Option.mem_def, hclosing, Option.some.injEq] at hother
    subst hother
    exact ⟨(h.closes session hclosing).1, fun hmem => absurd hmem h.sessions.not_mem_erase⟩

/-- The closer goes on to a connection that was retired. -/
theorem Keeps.closeSession {session : ℕ} (h : Keeps b) : Keeps (b.step (.closeSession session)) := by
  simp only [step]
  split
  case isFalse => exact h
  case isTrue hcloses =>
    obtain ⟨hnone, hretired⟩ := hcloses
    have hids : List.filterMap Sent.id (b.sent ++ [.closeSession session]) ++ b.answers.map Prod.fst = b.ids := by
      simp [Sidecar.ids, List.filterMap_append, Sent.id]
    have hmem : session ∈ b.backends ++ b.answers.filterMap Prod.snd :=
      List.mem_append_left _ (List.mem_append_right _ (List.mem_append_left _ hretired))
    have hopen : session ∈ b.sessions := by
      have hcount := h.owned session
      have hpositive := List.count_pos_iff.mpr hmem
      rw [hnone] at hcount
      apply List.count_pos_iff.mp
      simp only [reduceCtorEq, false_and, if_false] at hcount
      omega
    refine ⟨h.bounded, h.tasks, h.connects, ?_, ?_, h.attended, h.sessions, h.fresh, ?_, ?_, ?_⟩
    · have hnodup := h.ids
      rwa [← hids] at hnodup
    · intro id hid
      exact h.below id (by rw [← hids]; exact hid)
    · intro other hclose
      obtain hclose | hclose := List.mem_append.mp hclose
      · rw [h.closing other hclose] at hnone
        cases hnone
      · cases List.mem_singleton.mp hclose
        rfl
    · intro other
      have hother := h.owned other
      have herase := (List.perm_cons_erase hretired).count_eq other
      have hclosing : ¬ (some session = some other ∧ other ∉ b.sessions) := by
        rintro ⟨hsame, hgone⟩
        cases hsame
        exact hgone hopen
      rw [List.count_append, count_backends, hnone] at hother
      rw [List.count_append, count_backends, if_neg hclosing]
      simp only [List.count_cons, List.count_nil, Option.toList, reduceCtorEq, false_and, if_false] at herase hother ⊢
      omega
    · intro other hother
      cases hother
      exact ⟨h.lt hmem, fun _ => List.mem_append_right _ (List.mem_singleton.mpr rfl)⟩

/-- The closer drops what was closed. -/
theorem Keeps.drop (h : Keeps b) (hclosed : ∀ session ∈ b.closing, .closeSession session ∉ b.sent) :
    Keeps { b with closing := none } := by
  refine ⟨h.bounded, h.tasks, h.connects, h.ids, h.below, h.attended, h.sessions, h.fresh, ?_, ?_, by simp⟩
  · intro session hclose
    exact absurd hclose (hclosed session (h.closing session hclose))
  · intro session
    have hsession := h.owned session
    cases hclosing : b.closing with
    | none =>
        rw [hclosing] at hsession
        rw [List.count_append, count_backends] at hsession ⊢
        rw [hclosing] at hsession
        exact hsession
    | some other =>
        have hgone : other ∉ b.sessions := fun hmem => hclosed other hclosing ((h.closes other hclosing).2 hmem)
        rw [hclosing] at hsession
        rw [List.count_append, count_backends] at hsession ⊢
        rw [hclosing] at hsession
        by_cases hne : session = other
        · subst hne
          simp [hgone] at hsession ⊢
          omega
        · simp [Ne.symm hne] at hsession ⊢
          omega

/-- An entry is found once under its key. -/
theorem perm_filter_key {α : Type} {l : List (ℕ × α)} {k : ℕ} {a : α} (hnodup : (l.map Prod.fst).Nodup) (hmem : (k, a) ∈ l) :
    l.Perm ((k, a) :: l.filter fun e => e.1 ≠ k) := by
  induction l with
  | nil => cases hmem
  | cons e l ih =>
      rw [List.map_cons, List.nodup_cons] at hnodup
      obtain ⟨hnew, hrest⟩ := hnodup
      obtain rfl | hmem := List.mem_cons.mp hmem
      · have hall : l.filter (fun e => e.1 ≠ k) = l := by
          apply List.filter_eq_self.mpr
          intro e he
          have hne : e.1 ≠ k := fun heq => hnew (List.mem_map.mpr ⟨e, he, heq⟩)
          simpa using hne
        rw [List.filter_cons_of_neg (by simp), hall]
      · have hne : e.1 ≠ k := fun heq => hnew (List.mem_map.mpr ⟨_, hmem, heq.symm⟩)
        rw [List.filter_cons_of_pos (by simpa using hne)]
        exact ((ih hrest hmem).cons e).trans (List.Perm.swap _ _ _)

/-- A caller takes its answer. -/
theorem Keeps.take (h : Keeps b) : Keeps (b.take task) := by
  unfold Sidecar.take
  split
  case h_1 => exact h
  case h_2 task' id hfound =>
    obtain rfl : task' = task := by simpa using List.find?_some hfound
    have hwaits : (task', id) ∈ b.waiting := List.mem_of_find?_eq_some hfound
    split
    case h_1 => exact h
    case h_2 id' answer hanswer =>
      obtain rfl : id' = id := by simpa using List.find?_some hanswer
      have hmem : (id', answer) ∈ b.answers := List.mem_of_find?_eq_some hanswer
      have hperm := perm_filter_key (h.ids.sublist (List.sublist_append_right _ _)) hmem
      have hconnects := h.connects _ hwaits
      have hcount : ∀ c, (b.move task' (.connect answer)).backends.count c = b.backends.count c + answer.toList.count c := by
        cases answer with
        | none => exact fun c => count_move rfl c
        | some session => exact count_connect hconnects session
      have hothers : ∀ other, other ≠ task' → (b.move task' (.connect answer)).connects other = b.connects other :=
        fun other hne => connects_move hne
      obtain ⟨retired, hmove⟩ := b.move_frame task' (.connect answer)
      rw [hmove] at hcount hothers ⊢
      refine ⟨h.bounded.step _, ?_, ?_, ?_, ?_, ?_, h.sessions, h.fresh, h.closing, ?_, h.closes⟩
      · exact h.tasks.sublist (List.filter_sublist.map _)
      · intro w hw
        have hw : w ∈ b.waiting ∧ w.1 ≠ task' := by simpa [forget] using hw
        exact (hothers w.1 hw.2).trans (h.connects w hw.1)
      · exact h.ids.sublist ((List.Sublist.refl _).append (List.filter_sublist.map _))
      · intro other hother
        exact h.below other (((List.Sublist.refl _).append (List.filter_sublist.map _)).subset hother)
      · intro a ha hsome
        obtain ⟨ha, hne⟩ : a ∈ b.answers ∧ a.1 ≠ id' := by simpa using ha
        obtain ⟨w, hw, hid⟩ := h.attended a ha hsome
        have htask : w.1 ≠ task' := by
          intro htask
          have hsame := List.inj_on_of_nodup_map h.tasks hw hwaits htask
          rw [hsame] at hid
          exact hne hid.symm
        exact ⟨w, List.mem_filter.mpr ⟨hw, by simpa using htask⟩, hid⟩
      · intro session
        have hsession := h.owned session
        have hanswers := (hperm.filterMap Prod.snd).count_eq session
        have hnew := hcount session
        have hrest : (((id', answer) :: b.answers.filter fun e => e.1 ≠ id').filterMap Prod.snd).count session =
            answer.toList.count session + ((b.answers.filter fun e => e.1 ≠ id').filterMap Prod.snd).count session := by
          cases answer with
          | none => simp
          | some s =>
              simp only [List.filterMap_cons, Option.toList, List.count_cons, List.count_nil]
              omega
        rw [List.count_append] at hsession ⊢
        change (backends { b with pool := b.pool.step Pool.act (task', .connect answer), retired }).count session +
          ((b.answers.filter fun e => e.1 ≠ id').filterMap Prod.snd).count session =
            b.sessions.count session + if b.closing = some session ∧ session ∉ b.sessions then 1 else 0
        omega

/-- **Step lemma.** -/
theorem Keeps.step {e : Event} (h : Keeps b) (hattended : b.Attended e) : Keeps (b.step e) := by
  cases e with
  | pool task m =>
      cases m with
      | connect c => exact h
      | cancel => exact h.leave rfl hattended
      | _ => exact h.move (by simp) (by simp)
  | openSession task => exact h.openSession
  | perform opening =>
      change Keeps (b.perform opening)
      unfold Sidecar.perform
      split
      case h_1 => exact h
      case h_2 id sent hsent =>
        obtain ⟨hthrown, hwaits⟩ := hattended (.openSession id) (by rw [hsent]; rfl) id rfl
        cases opening with
        | opened => exact h.opened hsent (hwaits rfl)
        | refused => exact h.refused hsent
        | thrown => exact absurd rfl hthrown
      case h_3 session sent hsent => exact h.closedSession hsent
  | take task => exact h.take
  | giveUp task => exact h.leave rfl hattended
  | closeSession session => exact h.closeSession
  | closed =>
      simp only [Sidecar.step]
      split
      case h_1 => exact h
      case h_2 session hclosing =>
        split
        case isTrue => exact h
        case isFalse hsent =>
          apply h.drop
          intro other hother
          rw [Option.mem_def, hclosing, Option.some.injEq] at hother
          rwa [← hother]
  | giveUpClosing => exact h.drop hattended

/-! ## Runs -/

theorem Keeps.new (maxSize minIdle n : ℕ) : Keeps (Sidecar.new maxSize minIdle n) := by
  have hnone : ∀ session, total (fun t : Pool.Task ℕ => t.inHand.count session) (List.replicate n {}) = 0 := by
    intro session
    rw [total_replicate]
    rfl
  refine ⟨.new ℕ maxSize minIdle n, List.nodup_nil, by simp [Sidecar.new], List.nodup_nil, by simp [Sidecar.new, Sidecar.ids],
    by simp [Sidecar.new], List.nodup_nil, by simp [Sidecar.new], by simp [Sidecar.new], fun session => ?_,
    by simp [Sidecar.new]⟩
  rw [List.count_append, count_backends]
  simp [Sidecar.new, Pool.new, hnone]

/-- A task is opening a connection. -/
def opening (t : Pool.Task ℕ) : ℕ :=
  match t.pc with
  | .connecting => 1
  | _ => 0

/-- The pool counts a connection that is being opened as one that it has. -/
theorem conns_eq (t : Pool.Task ℕ) : t.conns = t.inHand.length + opening t := by
  unfold Pool.Task.conns Pool.Task.live Pool.Task.inHand opening
  simp only [List.length_append, List.length_map]
  cases t.pc <;> simp [Pool.Pc.conns, Pool.Pc.inHand]

theorem Keeps.promised (h : Keeps b) : b.promised = b.answers.filterMap Prod.snd := by
  apply List.filterMap_congr
  intro a ha
  cases hanswer : a.2 with
  | none => simp
  | some session =>
      obtain ⟨w, hw, hid⟩ := h.attended a ha (by simp [hanswer])
      have hany : b.waiting.any (fun w => w.2 = a.1) = true := List.any_eq_true.mpr ⟨w, hw, by simpa using hid⟩
      rw [if_pos hany]

/-- There are no more answers with a session than there are tasks that open a connection. -/
theorem Keeps.length_promised (h : Keeps b) : b.promised.length ≤ total opening b.pool.procs := by
  have hcount : b.promised.length = (b.answers.filter fun a => a.2.isSome).length := by
    rw [h.promised, List.length_filterMap_eq_countP, List.countP_eq_length_filter]
  have hkeys : ((b.answers.filter fun a => a.2.isSome).map Prod.fst).Nodup :=
    (h.ids.sublist (List.sublist_append_right _ _)).sublist (List.filter_sublist.map _)
  have hwaited : (b.answers.filter fun a => a.2.isSome).map Prod.fst ⊆ b.waiting.map Prod.snd := by
    intro id hid
    obtain ⟨a, ha, rfl⟩ := List.mem_map.mp hid
    obtain ⟨ha, hsome⟩ := List.mem_filter.mp ha
    obtain ⟨w, hw, hid⟩ := h.attended a ha (Option.isSome_iff_ne_none.mp hsome)
    exact List.mem_map.mpr ⟨w, hw, hid⟩
  have hanswers := (List.Nodup.subperm hkeys hwaited).length_le
  have htasks : (b.waiting.map Prod.fst).length ≤ total opening b.pool.procs := by
    apply length_le_total h.tasks
    intro i hi
    obtain ⟨w, hw, rfl⟩ := List.mem_map.mp hi
    obtain ⟨t, ht, hpc⟩ := connects_iff.mp (h.connects w hw)
    exact ⟨t, ht, by simp [opening, hpc]⟩
  simp only [List.length_map] at hanswers htasks
  omega

/-- **Every session is owned.** -/
theorem Keeps.all_owned (h : Keeps b) : Owned b := by
  have hcount : ∀ session, (b.backends ++ b.promised).count session =
      b.sessions.count session + if b.closing = some session ∧ session ∉ b.sessions then 1 else 0 := by
    rw [h.promised]
    exact h.owned
  have honce : ∀ session ∈ b.sessions, (b.backends ++ b.promised).count session = 1 := by
    intro session hsession
    rw [hcount, List.count_eq_one_of_mem h.sessions hsession, if_neg fun hgone => hgone.2 hsession]
  refine ⟨honce, ?_⟩
  have hsubset : b.sessions ⊆ b.backends ++ b.promised := by
    intro session hsession
    have hone := honce session hsession
    exact List.count_pos_iff.mp (by omega)
  have hlength := (List.Nodup.subperm h.sessions hsubset).length_le
  have hhands : (b.pool.procs.flatMap Pool.Task.inHand).length = total (fun t => t.inHand.length) b.pool.procs :=
    List.length_flatMap
  have htotal : total Pool.Task.conns b.pool.procs =
      total (fun t => t.inHand.length) b.pool.procs + total opening b.pool.procs := by
    rw [total_congr fun t _ => conns_eq t]
    exact List.sum_map_add
  have hpromised := h.length_promised
  have hbound := h.bounded.conns
  simp only [backends, List.length_append] at hlength
  omega

theorem maxSize_move (b : Sidecar) (task : ℕ) (m : Pool.Move ℕ) :
    (b.move task m).pool.shared.maxSize = b.pool.shared.maxSize := by
  rw [pool_move]
  exact Pool.step_maxSize b.pool (task, m)

theorem step_maxSize (b : Sidecar) (e : Event) : (b.step e).pool.shared.maxSize = b.pool.shared.maxSize := by
  unfold step
  split
  case h_1 => rfl
  case h_2 task => exact b.maxSize_move task .cancel
  case h_3 task m _ _ => exact b.maxSize_move task m
  case h_4 => split <;> rfl
  case h_5 =>
    unfold perform
    split
    · rfl
    · split <;> rfl
    · rfl
  case h_6 task =>
    unfold take
    split
    · rfl
    · split
      · rfl
      · exact b.maxSize_move task _
  case h_7 task => exact b.maxSize_move task (.connect none)
  case h_8 => split <;> rfl
  case h_9 =>
    split
    · rfl
    · split <;> rfl
  case h_10 => rfl

variable {maxSize minIdle n : ℕ} {es : List Event}

/-- **Every connection is owned.** In every run of any number of tasks in which whoever has a session opened waits for
it, each session that is open in the agent has one owner, an idle or checked-out connection, one that is being
closed, or a caller that is waiting for it; and there are no more of them than `max_size` and those being closed. -/
theorem every_session_owned (hrun : Along step Attended (new maxSize minIdle n) es) :
    let b := run step (new maxSize minIdle n) es
    (∀ session ∈ b.sessions, (b.backends ++ b.promised).count session = 1) ∧
      b.sessions.length ≤ maxSize + (b.retired.length + b.closing.toList.length) := by
  intro b
  have hkeeps : Keeps b := hrun.invariant (fun _ _ h hattended => h.step hattended) (.new maxSize minIdle n)
  have hkept : ∀ (b : Sidecar) (e : Event), b.pool.shared.maxSize = maxSize → (b.step e).pool.shared.maxSize = maxSize :=
    fun b e hb => (b.step_maxSize e).trans hb
  have hmax : b.pool.shared.maxSize = maxSize := run_invariant hkept rfl es
  obtain ⟨honce, hbound⟩ := hkeeps.all_owned
  exact ⟨honce, hmax ▸ hbound⟩

/-- One task acquires a connection and gets it. -/
theorem every_session_owned_acquire :
    let es := [Event.pool 0 .acquire, .pool 0 .go, .pool 0 .go, .pool 0 .go, .pool 0 .go, .openSession 0, .perform .opened,
      .take 0]
    let b := run step (new 1 0 1) es
    b.sessions = [0] ∧ b.backends = [0] ∧
      (∀ session ∈ b.sessions, (b.backends ++ b.promised).count session = 1) ∧
      b.sessions.length ≤ 1 + (b.retired.length + b.closing.toList.length) :=
  ⟨by decide, by decide, every_session_owned (by decide)⟩

/-- The same, but `connect_timeout` passes before the agent has opened the session. -/
theorem not_every_session_owned :
    ¬ ∀ es : List Event, let b := run step (new 1 0 1) es
      (∀ session ∈ b.sessions, (b.backends ++ b.promised).count session = 1) ∧
        b.sessions.length ≤ 1 + (b.retired.length + b.closing.toList.length) := by
  intro h
  have howned := (h [.pool 0 .acquire, .pool 0 .go, .pool 0 .go, .pool 0 .go, .pool 0 .go, .openSession 0, .giveUp 0,
    .perform .opened]).1 0 (by decide)
  revert howned
  decide

end Sidecar

end Havuz.Jdbc
