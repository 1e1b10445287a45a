import Havuz.Lib.Interleave
import Havuz.State

/-!
# The state store

Reference: `havuz-core/src/store.rs`. Any number of `update` and `reload` calls share the published state,
the write lock and the directory of the state file. A file operation is handed to the blocking pool and
waited for, so it is two steps, its execution and the call's next turn; a call may be dropped at either,
and what it handed over is executed all the same.

A file is what its bytes are, a `D`; `encode` and `decode` stand for `serde_json`. Two writers of one file
at a time are not described further: the last one wins. Nobody else touches the directory.
-/

namespace Havuz.Store

open Lib

variable {D : Type}

/-- The file operations of `write_atomic`, in their order. -/
inductive Op where
  | write
  | restrictPermissions
  | open_
  | syncAll
  | rename
deriving DecidableEq, Repr

/-- What `write_atomic` does next. -/
def Op.next : Op → Option Op
  | .write => some .restrictPermissions
  | .restrictPermissions => some .open_
  | .open_ => some .syncAll
  | .syncAll => some .rename
  | .rename => none

/-- The temporary file and the state file. -/
structure Disk (D : Type) where
  tmp : Option D
  path : Option D
deriving DecidableEq

/-- The execution of one operation, which may fail: the disk after it and the result. A write that fails
leaves anything in the temporary file. -/
def Disk.perform (encode : State → D) (disk : Disk D) (next : State) (ok : Bool) (torn : Option D) :
    Op → Disk D × Bool
  | .write => if ok then ({ disk with tmp := some (encode next) }, true) else ({ disk with tmp := torn }, false)
  | .restrictPermissions => (disk, ok && disk.tmp.isSome)
  | .open_ => (disk, ok && disk.tmp.isSome)
  | .syncAll => (disk, ok)
  | .rename =>
      match ok, disk.tmp with
      | true, some d => ({ tmp := none, path := some d }, true)
      | _, _ => (disk, false)

/-- The two calls. -/
inductive Kind where
  | update (mutate : State → State)
  | reload

/-- Where a call is. -/
inductive Pc (D : Type) where
  /-- Waits for the lock. -/
  | waiting
  /-- An operation is handed over. -/
  | pending (op : Op) (next : State)
  /-- It has been executed, and the call has not been told. -/
  | finished (op : Op) (next : State) (ok : Bool)
  | reading
  /-- The file has been read. -/
  | read (content : Option D)
  | succeeded
  | failed
  | dropped
  /-- Dropped, with an operation that is still to be executed. -/
  | orphan (op : Op) (next : State)
deriving DecidableEq

structure Call (D : Type) where
  kind : Kind
  pc : Pc D := .waiting

structure Shared (D : Type) where
  published : State
  locked : Bool := false
  disk : Disk D
  /-- Not part of the program: the mutations of the updates that returned `Ok`, oldest first. -/
  log : List (State → State) := []

inductive Move (D : Type) where
  /-- The lock is taken; an update also validates what it is going to write. -/
  | acquire
  /-- The blocking pool executes what the call has handed over. -/
  | execute (ok : Bool) (torn : Option D)
  /-- The call goes on. -/
  | poll
  /-- The future is dropped. -/
  | drop

/-- Parsing and validating a file. -/
def readState (decode : D → Option State) (content : Option D) : Option State :=
  (content.bind decode).filter fun s => s.validate = .ok ()

/-- `StateStore::open`: a missing file is an empty state. -/
def opens (decode : D → Option State) (disk : Disk D) : Option State :=
  match disk.path with
  | none => some State.default
  | some d => readState decode (some d)

/-- The end of a successful call: the state is published and the lock released. -/
def Shared.publish (sh : Shared D) (kind : Kind) (next : State) : Shared D :=
  { sh with
    published := next
    locked := false
    log := match kind with
      | .update mutate => sh.log ++ [mutate]
      | .reload => sh.log }

def Shared.release (sh : Shared D) : Shared D := { sh with locked := false }

section Act

variable (encode : State → D) (decode : D → Option State)

/-- One step of a call. -/
def act (m : Move D) (sh : Shared D) (c : Call D) : Option (Shared D × Call D) :=
  match c.pc, m with
  | .waiting, .acquire =>
      if sh.locked then none
      else
        match c.kind with
        | .update mutate =>
            if (mutate sh.published).validate = .ok () then
              some ({ sh with locked := true }, { c with pc := .pending .write (mutate sh.published) })
            else some (sh, { c with pc := .failed })
        | .reload => some ({ sh with locked := true }, { c with pc := .reading })
  | .waiting, .drop => some (sh, { c with pc := .dropped })
  | .pending op next, .execute ok torn =>
      let (disk, ok) := sh.disk.perform encode next ok torn op
      some ({ sh with disk }, { c with pc := .finished op next ok })
  | .pending op next, .drop => some (sh.release, { c with pc := .orphan op next })
  | .finished op next true, .poll =>
      match op.next with
      | some op => some (sh, { c with pc := .pending op next })
      | none => some (sh.publish c.kind next, { c with pc := .succeeded })
  | .finished _ _ false, .poll => some (sh.release, { c with pc := .failed })
  | .finished _ _ _, .drop => some (sh.release, { c with pc := .dropped })
  | .reading, .execute ok _ => some (sh, { c with pc := .read (if ok then sh.disk.path else none) })
  | .reading, .drop => some (sh.release, { c with pc := .dropped })
  | .read content, .poll =>
      match readState decode content with
      | some s => some (sh.publish c.kind s, { c with pc := .succeeded })
      | none => some (sh.release, { c with pc := .failed })
  | .read _, .drop => some (sh.release, { c with pc := .dropped })
  | .orphan op next, .execute ok torn =>
      some ({ sh with disk := (sh.disk.perform encode next ok torn op).1 }, { c with pc := .dropped })
  | _, _ => none

/-- One turn. -/
def step : Procs (Shared D) (Call D) → ℕ × Move D → Procs (Shared D) (Call D) :=
  Procs.step (act encode decode)

end Act

/-- A store that was opened on this disk, and the calls about to be made. -/
def opened (s : State) (disk : Disk D) (calls : List Kind) : Procs (Shared D) (Call D) :=
  ⟨{ published := s, disk }, calls.map fun kind => { kind }⟩

/-! ## What holds of a call -/

/-- The call has the lock. -/
def Pc.holds : Pc D → Bool
  | .pending _ _ => true
  | .finished _ _ _ => true
  | .reading => true
  | .read _ => true
  | _ => false

/-- The call has been made and has not ended. -/
def Pc.inProgress : Pc D → Bool
  | .succeeded => false
  | .failed => false
  | .dropped => false
  | .orphan _ _ => false
  | _ => true

/-- The mutation of an update that returned `Ok`. -/
def Call.returned (c : Call D) : Option (State → State) :=
  match c.kind, c.pc with
  | .update mutate, .succeeded => some mutate
  | _, _ => none

/-- All that a step can be. -/
inductive Course (encode : State → D) (decode : D → Option State) (sh : Shared D) (c : Call D) :
    Move D → Shared D → Call D → Prop
  /-- Ends before it has the lock. -/
  | quits {m : Move D} {pc : Pc D} (hpc : c.pc = .waiting) (hend : pc = .failed ∨ pc = .dropped) :
      Course encode decode sh c m sh { c with pc }
  | begins (mutate : State → State) (hpc : c.pc = .waiting) (hkind : c.kind = .update mutate)
      (hfree : sh.locked = false) (hvalid : (mutate sh.published).validate = .ok ()) :
      Course encode decode sh c .acquire { sh with locked := true }
        { c with pc := .pending .write (mutate sh.published) }
  | reads (hpc : c.pc = .waiting) (hkind : c.kind = .reload) (hfree : sh.locked = false) :
      Course encode decode sh c .acquire { sh with locked := true } { c with pc := .reading }
  | executes (op : Op) (next : State) (ok : Bool) (torn : Option D) (hpc : c.pc = .pending op next) :
      Course encode decode sh c (.execute ok torn)
        { sh with disk := (sh.disk.perform encode next ok torn op).1 }
        { c with pc := .finished op next (sh.disk.perform encode next ok torn op).2 }
  | advances (op op' : Op) (next : State) (hpc : c.pc = .finished op next true) (hop : op.next = some op') :
      Course encode decode sh c .poll sh { c with pc := .pending op' next }
  | publishes (next : State) (hpc : c.pc = .finished .rename next true) :
      Course encode decode sh c .poll (sh.publish c.kind next) { c with pc := .succeeded }
  /-- Ends without a result, and lets go of the lock. -/
  | ends {m : Move D} {pc : Pc D} (hholds : c.pc.holds = true)
      (hend : pc = .failed ∨ pc = .dropped)
      (hdrop : ∀ next, c.pc = .finished .rename next true → m = .drop) :
      Course encode decode sh c m sh.release { c with pc }
  | abandons (op : Op) (next : State) (hpc : c.pc = .pending op next) :
      Course encode decode sh c .drop sh.release { c with pc := .orphan op next }
  | has_read (content : Option D) (hpc : c.pc = .reading) (hcontent : content = none ∨ content = sh.disk.path)
      {ok : Bool} {torn : Option D} :
      Course encode decode sh c (.execute ok torn) sh { c with pc := .read content }
  | republishes (content : Option D) (s : State) (hpc : c.pc = .read content)
      (hstate : readState decode content = some s) :
      Course encode decode sh c .poll (sh.publish c.kind s) { c with pc := .succeeded }
  | late (op : Op) (next : State) (ok : Bool) (torn : Option D) (hpc : c.pc = .orphan op next) :
      Course encode decode sh c (.execute ok torn)
        { sh with disk := (sh.disk.perform encode next ok torn op).1 } { c with pc := .dropped }

theorem Op.next_eq_none {op : Op} (h : op.next = none) : op = .rename := by
  match op, h with
  | .rename, _ => rfl

theorem act_course {encode : State → D} {decode : D → Option State} {m : Move D} {sh sh' : Shared D}
    {c c' : Call D} (h : act encode decode m sh c = some (sh', c')) :
    Course encode decode sh c m sh' c' := by
  unfold act at h
  split at h
  case h_1 hpc =>
    split at h
    · cases h
    case isFalse hfree =>
      have hfree' : sh.locked = false := by simpa using hfree
      split at h
      case h_1 mutate hkind =>
        split at h
        case isTrue hvalid =>
          cases h
          exact .begins mutate hpc hkind hfree' hvalid
        case isFalse =>
          cases h
          exact .quits hpc (.inl rfl)
      case h_2 hkind =>
        cases h
        exact .reads hpc hkind hfree'
  case h_2 hpc =>
    cases h
    exact .quits hpc (.inr rfl)
  case h_3 op next ok torn hpc =>
    cases h
    exact .executes op next ok torn hpc
  case h_4 op next hpc =>
    cases h
    exact .abandons op next hpc
  case h_5 op next hpc =>
    split at h
    case h_1 op' hop =>
      cases h
      exact .advances op op' next hpc hop
    case h_2 hop =>
      cases h
      rw [Op.next_eq_none hop] at hpc
      exact .publishes next hpc
  case h_6 hpc =>
    cases h
    refine .ends (by rw [hpc]; rfl) (.inl rfl) fun next hren => ?_
    rw [hpc] at hren
    cases hren
  case h_7 hpc =>
    cases h
    exact .ends (by rw [hpc]; rfl) (.inr rfl) fun _ _ => rfl
  case h_8 ok torn hpc =>
    cases h
    refine .has_read _ hpc ?_
    split
    · exact .inr rfl
    · exact .inl rfl
  case h_9 hpc =>
    cases h
    exact .ends (by rw [hpc]; rfl) (.inr rfl) fun _ _ => rfl
  case h_10 content hpc =>
    split at h
    case h_1 s hstate =>
      cases h
      exact .republishes content s hpc hstate
    case h_2 =>
      cases h
      refine .ends (by rw [hpc]; rfl) (.inl rfl) fun next hren => ?_
      rw [hpc] at hren
      cases hren
  case h_11 hpc =>
    cases h
    exact .ends (by rw [hpc]; rfl) (.inr rfl) fun _ _ => rfl
  case h_12 op next ok torn hpc =>
    cases h
    exact .late op next ok torn hpc
  case h_13 => cases h

end Havuz.Store
