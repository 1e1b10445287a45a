import Mathlib.Data.List.Basic

/-!
# Release decisions

Reference: `havuz-proto/src/flow.rs` and `havuz-registry/src/session.rs`. The relay emits flow events;
`SessionState` folds them into one question: can this backend go back on the shelf?
-/

namespace Havuz

/-- Why a session stopped being shareable. -/
inductive PinReason where
  | sessionParameter
  | listen
  | tempTable
  | advisoryLock
  | serverSidePrepare
  | holdableCursor
  | bulkTransfer
  | replication
  | procedureState
  | unclassified
deriving DecidableEq, Repr

inductive PoolMode where
  | session
  | transaction
  | statement
deriving DecidableEq, Repr

/-- What a family observed on the wire. -/
inductive FlowEvent where
  | idle
  | inTransaction
  | mustPin (reason : PinReason)
  | streaming (reason : PinReason)
  | broken
deriving DecidableEq, Repr

/-- Folds `FlowEvent`s into a release decision. -/
structure SessionState where
  mode : PoolMode
  inTransaction : Bool := false
  pin : Option PinReason := none
  broken : Bool := false
deriving DecidableEq, Repr

namespace SessionState

/-- Record an observation. The first pin reason is kept. -/
def observe (s : SessionState) : FlowEvent → SessionState
  | .idle => { s with inTransaction := false }
  | .inTransaction => { s with inTransaction := true }
  | .mustPin reason => { s with pin := s.pin <|> some reason }
  | .streaming reason => { s with pin := s.pin <|> some reason }
  | .broken => { s with broken := true }

/-- Can the backend be handed to another client right now? -/
def isReleasable (s : SessionState) : Bool :=
  if s.broken || s.pin.isSome then false
  else
    match s.mode with
    | .session => false
    | .transaction => !s.inTransaction
    | .statement => !s.inTransaction

/-- Clear per-checkout bookkeeping after a successful release. Pins are kept. -/
def released (s : SessionState) : SessionState := { s with inTransaction := false }

/-- A releasable session is neither pinned nor inside a transaction. -/
theorem isReleasable_iff {s : SessionState} :
    s.isReleasable = true ↔
      s.broken = false ∧ s.pin = none ∧ s.mode ≠ .session ∧ s.inTransaction = false := by
  obtain ⟨mode, tx, pin, broken⟩ := s
  cases mode <;> cases pin <;> cases broken <;> cases tx <;> simp [isReleasable]

end SessionState

end Havuz
