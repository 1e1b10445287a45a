import Havuz.Routing
import Havuz.Breaker.Model

/-!
# The router and its replicas

Reference: `havuz-pg/src/routing.rs` and `apply_to_replica` of `havuz-pg/src/health.rs`.

`Routing` has a decision with the eligible replicas and the cursor as inputs; here they are state.
Asking a replica whether it is eligible asks its circuit breaker, which may take the probe slot, and
`pick_replica` asks every one of them. `Router.decide_eq` says that the target is the one of
`Group.decide`. The counts of decisions are left out; instants and lags are microseconds.
-/

namespace Havuz

open Sql

/-- The part of `RoutingConfig` a decision reads, with the configuration of the breakers. -/
structure RoutingConfig where
  readWriteSplit : Bool := true
  stickyAfterWrite : ℕ := 0
  maxReplicaLag : Option ℕ := none
  breaker : Breaker.Config := {}
deriving DecidableEq, Repr

/-- `ReplicaState`: health and position of one replica. -/
structure Replica where
  weight : ℕ
  weight_pos : 0 < weight
  /-- Replication delay, if it was measured. -/
  lag : Option ℕ := none
  breaker : Breaker := {}
deriving DecidableEq

namespace Replica

/-- An unmeasured replica is not a healthy replica. -/
def lagAllows (r : Replica) : Option ℕ → Bool
  | none => true
  | some limit =>
      match r.lag with
      | some lag => lag ≤ limit
      | none => false

/-- Is this replica fit to serve a read? -/
def isEligible (cfg : RoutingConfig) (now : ℕ) (r : Replica) : Bool × Replica :=
  if r.lagAllows cfg.maxReplicaLag then
    ((r.breaker.allows cfg.breaker now).1, { r with breaker := (r.breaker.allows cfg.breaker now).2 })
  else (false, r)

@[simp] theorem isEligible_weight (cfg : RoutingConfig) (now : ℕ) (r : Replica) :
    (r.isEligible cfg now).2.weight = r.weight := by
  unfold isEligible
  split <;> rfl

/-- `record_success` or `record_failure` of its breaker. -/
def record (cfg : RoutingConfig) (now : ℕ) (success : Bool) (r : Replica) : Replica :=
  { r with
    breaker :=
      if success then r.breaker.recordSuccess cfg.breaker else r.breaker.recordFailure cfg.breaker now }

/-- `apply_to_replica`: a health probe gave a reading, or failed. -/
def applyProbe (cfg : RoutingConfig) (now : ℕ) (reading : Option (Option ℕ)) (r : Replica) : Replica :=
  match reading with
  | some lag => { r with lag }.record cfg now true
  | none => { r with lag := none }.record cfg now false

end Replica

/-- `Router`. -/
structure Router where
  config : RoutingConfig
  replicas : List Replica
  cursor : ℕ := 0
deriving DecidableEq

namespace Router

/-- What every replica answers when it is asked, with the replica after that. -/
def asked (r : Router) (now : ℕ) : List (Bool × Replica) :=
  r.replicas.map (Replica.isEligible r.config now)

/-- The eligible replicas, with their weights. -/
def eligible (r : Router) (now : ℕ) : List (ℕ × ℕ) :=
  ((r.asked now).zipIdx.filter fun a => a.1.1).map fun a => (a.2, a.1.2.weight)

/-- Weighted round-robin over eligible replicas. -/
def pickReplica (r : Router) (now : ℕ) : Option ℕ × Router :=
  let eligible := r.eligible now
  let r := { r with replicas := (r.asked now).map Prod.snd }
  if eligible.isEmpty then (none, r)
  else
    (pickAt (r.cursor % (eligible.map Prod.snd).sum) 0 eligible,
      { r with cursor := (r.cursor + 1) % 2 ^ 64 })

/-- `Router::decide`. -/
def decide (r : Router) (intent : RouteIntent) (s : SessionRouting) (now : ℕ) :
    Route × SessionRouting × Router :=
  let noted := if intent = .write then s.noteWrite now else s
  match s.transactionRoute with
  | some (.primary _) => (.primary .transactionPinned, noted, r)
  | some (.replica i) => (.replica i, noted, r)
  | none =>
      if !r.config.readWriteSplit ∨ r.replicas = [] then (.primary .splitDisabled, noted, r)
      else if intent = .write then (.primary .write, noted, r)
      else if s.isSticky now r.config.stickyAfterWrite then (.primary .readAfterWrite, s, r)
      else
        match r.pickReplica now with
        | (some i, r) => (.replica i, s, r)
        | (none, r) => (.primary .noReplicaAvailable, s, r)

/-- Record the outcome of using a replica, so the breaker can react. -/
def recordResult (r : Router) (route : Route) (success : Bool) (now : ℕ) : Router :=
  match route with
  | .primary _ => r
  | .replica i => { r with replicas := r.replicas.modify i (Replica.record r.config now success) }

/-- The health monitor has looked at a replica. -/
def applyProbe (r : Router) (i : ℕ) (reading : Option (Option ℕ)) (now : ℕ) : Router :=
  { r with replicas := r.replicas.modify i (Replica.applyProbe r.config now reading) }

/-! ## A decision is the one of the group -/

/-- What the router contributes to a decision of the group. -/
def input (r : Router) (now : ℕ) : RouterInput where
  now := now
  eligible i := ((r.asked now)[i]?.map Prod.fst).getD false
  cursor := r.cursor

section Group

variable {r : Router} {g : Group}

theorem eligible_eq (hw : g.weights = r.replicas.map Replica.weight) (now : ℕ) :
    r.eligible now =
      (g.weights.zipIdx.filter fun wi => (r.input now).eligible wi.2).map fun wi => (wi.2, wi.1) := by
  have hask : ∀ ri ∈ r.replicas.zipIdx,
      (ri.1.isEligible r.config now).1 = (r.input now).eligible ri.2 := by
    intro ri hri
    have hget := List.mem_zipIdx_iff_getElem?.mp hri
    simp [input, asked, hget]
  rw [eligible, asked, hw, List.zipIdx_map, List.zipIdx_map, List.filter_map, List.filter_map,
    List.map_map, List.map_map]
  rw [List.filter_congr (q := fun ri => (r.input now).eligible ri.2) hask]
  refine List.map_congr_left fun ri _ => ?_
  simp

theorem pickReplica_eq (hw : g.weights = r.replicas.map Replica.weight) (now : ℕ) :
    (r.pickReplica now).1 = g.pickReplica (r.input now) := by
  unfold pickReplica Group.pickReplica
  rw [eligible_eq hw]
  dsimp only
  split
  · rfl
  · rfl

theorem decide_eq (hsplit : g.readWriteSplit = r.config.readWriteSplit)
    (hsticky : g.stickyAfterWrite = r.config.stickyAfterWrite)
    (hw : g.weights = r.replicas.map Replica.weight) (intent : RouteIntent) (s : SessionRouting) (now : ℕ) :
    ((r.decide intent s now).1, (r.decide intent s now).2.1) = g.decide intent s (r.input now) := by
  have hnone : g.weights = [] ↔ r.replicas = [] := by rw [hw, List.map_eq_nil_iff]
  unfold decide Group.decide
  cases s.transactionRoute with
  | some route => cases route <;> rfl
  | none =>
      simp only [hsplit, hsticky, hnone, ← pickReplica_eq hw]
      show _ = if _ then _ else if _ then _ else if s.isSticky now _ then _ else _
      by_cases hoff : (!r.config.readWriteSplit) = true ∨ r.replicas = []
      · rw [if_pos hoff, if_pos hoff]
        rfl
      rw [if_neg hoff, if_neg hoff]
      by_cases hwrite : intent = .write
      · simp only [if_pos hwrite]
        rfl
      rw [if_neg hwrite, if_neg hwrite]
      by_cases hrecent : s.isSticky now r.config.stickyAfterWrite = true
      · rw [if_pos hrecent, if_pos hrecent]
      rw [if_neg hrecent, if_neg hrecent]
      obtain ⟨picked, r'⟩ := r.pickReplica now
      cases picked <;> rfl

end Group

end Router

end Havuz
