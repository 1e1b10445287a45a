import Mathlib
import Havuz.Breaker.Model
import Havuz.Lib.Exposition
import Havuz.Pins
import Havuz.Pool.Snapshot
import Havuz.Routing

/-!
# The metrics of a scrape

Reference: `havuz-admin/src/metrics.rs`, and the records of `havuz-control/src/report.rs` as far as it reads them. A double
is an `F`: how a number becomes one and how one is printed are parameters. A lag is a number of milliseconds.

`exposed` is what a scrape says, and `render` the text. A name of a pool, of a status or of a replica may have any
characters: what is read from the text is what it says (`scrape_reads_back`). Two targets at one address have one label, and
then a series comes twice (`series_once_iff`).
-/

namespace Havuz

open Lib

namespace PrimaryReason

/-- `PrimaryReason::as_str`. -/
def asStr : PrimaryReason → Text
  | .splitDisabled => "split_disabled".toList
  | .write => "write".toList
  | .readAfterWrite => "read_after_write".toList
  | .transactionPinned => "transaction_pinned".toList
  | .noReplicaAvailable => "no_replica_available".toList

end PrimaryReason

/-- `BreakerState::as_str`. -/
def Breaker.State.asStr : Breaker.State → Text
  | .closed => "closed".toList
  | .open => "open".toList
  | .halfOpen => "half_open".toList

namespace Metrics

open Pool (PoolSnapshot)

/-- `f64`, with the casts and the quotients the samples are made with. -/
structure Doubles (F : Type) where
  /-- `as f64`. -/
  cast : ℤ → F
  /-- `as f64 / 1_000_000.0`. -/
  ofMicros : ℕ → F
  /-- `Duration::as_secs_f64`. -/
  ofMillis : ℕ → F
  /-- The `f32` next to a quotient, `as f64`. -/
  ofRate : ℚ → F
  /-- `Display`. -/
  display : F → Text

/-- What a double prints is one word. -/
def Doubles.Plain {F : Type} (D : Doubles F) : Prop :=
  ∀ x, D.display x ≠ [] ∧ ∀ c ∈ D.display x, c ≠ ' ' ∧ c ≠ '\n'

structure PrimaryReasonCount where
  reason : PrimaryReason
  count : ℕ
deriving DecidableEq, Repr

structure RoutingReport where
  toPrimary : ℕ
  toReplica : ℕ
  primaryReasons : List PrimaryReasonCount
deriving DecidableEq, Repr

structure ReplicaRouting where
  label : Text
  /-- `none` means never measured, which is not the same as caught up. -/
  lagMillis : Option ℕ
  breaker : Breaker.State
deriving DecidableEq, Repr

structure TargetReport where
  name : Text
  replicas : List ReplicaRouting
  routing : RoutingReport
deriving DecidableEq, Repr

section Render

variable {F : Type} (D : Doubles F)

/-- `str::replace` of a character. -/
def replace (c : Char) (by_ t : Text) : Text := t.flatMap fun d => if d = c then by_ else [d]

def escape (value : Text) : Text :=
  replace '\n' ['\\', 'n'] (replace '"' ['\\', '"'] (replace '\\' ['\\', '\\'] value))

def metric (name kind help : Text) (samples : List (Text × F)) : Text :=
  "# HELP ".toList ++ name ++ " ".toList ++ help ++ "\n".toList ++
    ("# TYPE ".toList ++ name ++ " ".toList ++ kind ++ "\n".toList) ++
    samples.flatMap fun s => name ++ s.1 ++ " ".toList ++ D.display s.2 ++ "\n".toList

def series (name kind help : Text) (pools : List PoolSnapshot) (value : PoolSnapshot → F) : Text :=
  metric D name kind help (pools.map fun p =>
    ("\x7bpool=\"".toList ++ escape p.name ++ "\",status=\"".toList ++ escape p.status ++ "\"\x7d".toList, value p))

/-- The calls of `series`: name, kind, help and value. -/
def poolSeries : List (Text × Text × Text × (PoolSnapshot → F)) :=
  [("havuz_pool_backend_connections".toList, "gauge".toList, "Open backend connections".toList,
      fun p => D.cast p.opened),
    ("havuz_pool_active_connections".toList, "gauge".toList, "Backends currently checked out".toList,
      fun p => D.cast p.active),
    ("havuz_pool_idle_connections".toList, "gauge".toList, "Backends available for reuse".toList,
      fun p => D.cast p.idle),
    ("havuz_pool_waiting_clients".toList, "gauge".toList, "Clients queued for a backend".toList,
      fun p => D.cast p.waiting),
    ("havuz_pool_max_size".toList, "gauge".toList, "Configured backend ceiling".toList, fun p => D.cast p.maxSize),
    ("havuz_pool_checkouts_total".toList, "counter".toList, "Backend checkouts served".toList,
      fun p => D.cast p.checkoutTotal),
    ("havuz_pool_connections_created_total".toList, "counter".toList, "Backend connections opened".toList,
      fun p => D.cast p.createdTotal),
    ("havuz_pool_connections_closed_total".toList, "counter".toList, "Backend connections closed".toList,
      fun p => D.cast p.closedTotal),
    ("havuz_pool_checkout_timeouts_total".toList, "counter".toList,
      "Clients rejected after waiting out queue_timeout".toList, fun p => D.cast p.timeoutTotal),
    ("havuz_pool_connect_errors_total".toList, "counter".toList, "Failed backend connection attempts".toList,
      fun p => D.cast p.connectErrorTotal),
    ("havuz_pool_connections_discarded_total".toList, "counter".toList,
      "Backends retired instead of recycled".toList, fun p => D.cast p.discardedTotal),
    ("havuz_pool_connections_unclean_total".toList, "counter".toList,
      "Backends closed because nothing could clean them for reuse".toList, fun p => D.cast p.uncleanTotal),
    ("havuz_pool_wait_seconds_max".toList, "gauge".toList, "Longest observed checkout wait".toList,
      fun p => D.ofMicros p.wait.maxMicros),
    ("havuz_pool_wait_seconds_mean".toList, "gauge".toList, "Mean checkout wait".toList,
      fun p => D.ofMicros p.wait.meanMicros)]

def routingSamples (group : TargetReport) : List (Text × F) :=
  [("\x7bpool=\"".toList ++ escape group.name ++ "\",target=\"primary\"\x7d".toList, D.cast group.routing.toPrimary),
    ("\x7bpool=\"".toList ++ escape group.name ++ "\",target=\"replica\"\x7d".toList, D.cast group.routing.toReplica)]

def reasonSamples (group : TargetReport) : List (Text × F) :=
  group.routing.primaryReasons.map fun reason =>
    ("\x7bpool=\"".toList ++ escape group.name ++ "\",reason=\"".toList ++ reason.reason.asStr ++ "\"\x7d".toList,
      D.cast reason.count)

/-- An unmeasured replica is reported as -1 rather than 0. -/
def lagSamples (group : TargetReport) : List (Text × F) :=
  group.replicas.map fun replica =>
    ("\x7bpool=\"".toList ++ escape group.name ++ "\",replica=\"".toList ++ escape replica.label ++ "\"\x7d".toList,
      (replica.lagMillis.map D.ofMillis).getD (D.cast (-1)))

def breakerSamples (group : TargetReport) : List (Text × F) :=
  group.replicas.map fun replica =>
    ("\x7bpool=\"".toList ++ escape group.name ++ "\",replica=\"".toList ++ escape replica.label ++ "\",state=\"".toList ++
      replica.breaker.asStr ++ "\"\x7d".toList, D.cast 1)

def render (pools : List PoolSnapshot) (targets : List TargetReport) (pins : PinReport) (uptimeSeconds : ℕ) : Text :=
  metric D "havuz_uptime_seconds".toList "gauge".toList "Seconds since the process started".toList
      [([], D.cast uptimeSeconds)] ++
    (poolSeries D).flatMap (fun s => series D s.1 s.2.1 s.2.2.1 pools s.2.2.2) ++
    metric D "havuz_sessions_pinned_total".toList "counter".toList
      "Transaction-mode sessions that lost the ability to share a backend".toList
      (pins.byReason.map fun r => ("\x7breason=\"".toList ++ r.reason.asStr ++ "\"\x7d".toList, D.cast r.count)) ++
    metric D "havuz_sessions_clean_total".toList "counter".toList
      "Transaction-mode sessions that stayed shareable".toList [([], D.cast pins.cleanSessions)] ++
    metric D "havuz_routing_statements_total".toList "counter".toList "Statements routed to each target kind".toList
      (targets.flatMap (routingSamples D)) ++
    metric D "havuz_routing_primary_total".toList "counter".toList
      "Why a statement went to the primary instead of a replica".toList (targets.flatMap (reasonSamples D)) ++
    metric D "havuz_replica_lag_seconds".toList "gauge".toList "Replication delay; -1 means not yet measured".toList
      (targets.flatMap (lagSamples D)) ++
    metric D "havuz_replica_breaker".toList "gauge".toList "Circuit breaker state per replica".toList
      (targets.flatMap (breakerSamples D)) ++
    metric D "havuz_session_pin_rate".toList "gauge".toList
      "Share of transaction-mode sessions that were pinned".toList
      [([], (pins.pinRate.map D.ofRate).getD (D.cast 0))]

/-! ## What a scrape says -/

/-- A metric, with the labels of its samples apart. -/
def exposedMetric (name kind help : Text) (samples : List (List Exposition.Label × F)) : Exposition.Metric :=
  ⟨name, kind, help, samples.map fun s => ⟨s.1, D.display s.2⟩⟩

def exposedPool (pools : List PoolSnapshot) (s : Text × Text × Text × (PoolSnapshot → F)) : Exposition.Metric :=
  exposedMetric D s.1 s.2.1 s.2.2.1
    (pools.map fun p => ([⟨"pool".toList, p.name⟩, ⟨"status".toList, p.status⟩], s.2.2.2 p))

def exposedRouting (group : TargetReport) : List (List Exposition.Label × F) :=
  [([⟨"pool".toList, group.name⟩, ⟨"target".toList, "primary".toList⟩], D.cast group.routing.toPrimary),
    ([⟨"pool".toList, group.name⟩, ⟨"target".toList, "replica".toList⟩], D.cast group.routing.toReplica)]

def exposedReason (group : TargetReport) : List (List Exposition.Label × F) :=
  group.routing.primaryReasons.map fun reason =>
    ([⟨"pool".toList, group.name⟩, ⟨"reason".toList, reason.reason.asStr⟩], D.cast reason.count)

def exposedLag (group : TargetReport) : List (List Exposition.Label × F) :=
  group.replicas.map fun replica =>
    ([⟨"pool".toList, group.name⟩, ⟨"replica".toList, replica.label⟩],
      (replica.lagMillis.map D.ofMillis).getD (D.cast (-1)))

def exposedBreaker (group : TargetReport) : List (List Exposition.Label × F) :=
  group.replicas.map fun replica =>
    ([⟨"pool".toList, group.name⟩, ⟨"replica".toList, replica.label⟩, ⟨"state".toList, replica.breaker.asStr⟩],
      D.cast 1)

def exposed (pools : List PoolSnapshot) (targets : List TargetReport) (pins : PinReport) (uptimeSeconds : ℕ) :
    List Exposition.Metric :=
  [exposedMetric D "havuz_uptime_seconds".toList "gauge".toList "Seconds since the process started".toList
      [([], D.cast uptimeSeconds)]] ++
    (poolSeries D).map (exposedPool D pools) ++
    [exposedMetric D "havuz_sessions_pinned_total".toList "counter".toList
        "Transaction-mode sessions that lost the ability to share a backend".toList
        (pins.byReason.map fun r => ([⟨"reason".toList, r.reason.asStr⟩], D.cast r.count)),
      exposedMetric D "havuz_sessions_clean_total".toList "counter".toList
        "Transaction-mode sessions that stayed shareable".toList [([], D.cast pins.cleanSessions)],
      exposedMetric D "havuz_routing_statements_total".toList "counter".toList
        "Statements routed to each target kind".toList (targets.flatMap (exposedRouting D)),
      exposedMetric D "havuz_routing_primary_total".toList "counter".toList
        "Why a statement went to the primary instead of a replica".toList (targets.flatMap (exposedReason D)),
      exposedMetric D "havuz_replica_lag_seconds".toList "gauge".toList
        "Replication delay; -1 means not yet measured".toList (targets.flatMap (exposedLag D)),
      exposedMetric D "havuz_replica_breaker".toList "gauge".toList "Circuit breaker state per replica".toList
        (targets.flatMap (exposedBreaker D)),
      exposedMetric D "havuz_session_pin_rate".toList "gauge".toList
        "Share of transaction-mode sessions that were pinned".toList
        [([], (pins.pinRate.map D.ofRate).getD (D.cast 0))]]

end Render

/-! ## The text is written as the format has it -/

section Written

variable {F : Type} {D : Doubles F}

/-- Three replacements in a row are one, since none makes what the next replaces. -/
theorem escape_eq (value : Text) : escape value = Exposition.escape value := by
  induction value with
  | nil => rfl
  | cons c value ih =>
      simp only [escape, replace, Exposition.escape, List.flatMap_cons, List.flatMap_append] at ih ⊢
      rw [ih]
      congr 1
      unfold Exposition.escapeChar
      split_ifs with hback hquote hline
      · rfl
      · simp [hquote]
      · simp [hline]
      · simp [hquote, hline]

/-- The text of some labels. -/
def labelText (ls : List Exposition.Label) : Text := Exposition.Series.label ⟨ls, []⟩

/-- A sample with its labels as they are printed. -/
def printed (s : List Exposition.Label × F) : Text × F := (labelText s.1, s.2)

/-- A sample is printed as a line of its metric. -/
theorem sample_eq (name : Text) (samples : List (List Exposition.Label × F)) :
    (samples.map printed).flatMap (fun s => name ++ s.1 ++ " ".toList ++ D.display s.2 ++ "\n".toList) =
      ((samples.map fun s => (⟨s.1, D.display s.2⟩ : Exposition.Series)).map (Exposition.Line.series name)).flatMap
        fun l => l.write ++ ['\n'] := by
  rw [List.flatMap_map, List.map_map, List.flatMap_map]
  refine List.flatMap_congr fun s _ => ?_
  have hlabel : (⟨s.1, D.display s.2⟩ : Exposition.Series).label = labelText s.1 := rfl
  have hblank : " ".toList = [' '] := rfl
  have hfeed : "\n".toList = ['\n'] := rfl
  simp only [Function.comp_apply, printed, Exposition.Line.write, hlabel, hblank, hfeed, List.append_assoc,
    List.cons_append, List.nil_append]

theorem metric_eq (name kind help : Text) (samples : List (List Exposition.Label × F)) :
    metric D name kind help (samples.map printed) = Exposition.write [exposedMetric D name kind help samples] := by
  have hblank : " ".toList = [' '] := rfl
  have hfeed : "\n".toList = ['\n'] := rfl
  have hhelp : "# HELP ".toList = Exposition.helpText := rfl
  have htype : "# TYPE ".toList = Exposition.typeText := rfl
  unfold metric
  rw [sample_eq]
  simp only [hblank, hfeed, hhelp, htype, Exposition.write, exposedMetric, Exposition.Metric.lines,
    Exposition.Line.write, List.flatMap_cons, List.flatMap_nil, List.append_nil, List.append_assoc, List.cons_append,
    List.nil_append]

theorem write_append (ms ms' : List Exposition.Metric) :
    Exposition.write (ms ++ ms') = Exposition.write ms ++ Exposition.write ms' := by
  simp only [Exposition.write, List.flatMap_append]

theorem write_flatMap {α : Type} (l : List α) (f : α → Exposition.Metric) :
    Exposition.write (l.map f) = l.flatMap fun a => Exposition.write [f a] := by
  induction l with
  | nil => rfl
  | cons a l ih =>
      rw [List.map_cons, ← List.singleton_append, write_append, ih]
      rfl

/-! ### Labels -/

theorem escape_pinReason (r : PinReason) : Exposition.escape r.asStr = r.asStr := by cases r <;> rfl

theorem escape_primaryReason (r : PrimaryReason) : Exposition.escape r.asStr = r.asStr := by cases r <;> rfl

theorem escape_breaker (s : Breaker.State) : Exposition.escape s.asStr = s.asStr := by cases s <;> rfl

theorem labelText_one (k v : Text) :
    labelText [⟨k, v⟩] = '{' :: (k ++ '=' :: '"' :: (Exposition.escape v ++ ['"', '}'])) := by
  simp [labelText, Exposition.Series.label, Exposition.writeLabels, Exposition.Label.write]

theorem labelText_more (k v : Text) (l : Exposition.Label) (ls : List Exposition.Label) :
    labelText (⟨k, v⟩ :: l :: ls) =
      '{' :: (k ++ '=' :: '"' :: (Exposition.escape v ++ '"' :: ',' :: (labelText (l :: ls)).tail)) := by
  simp [labelText, Exposition.Series.label, Exposition.writeLabels, Exposition.Label.write]

theorem series_eq (pools : List PoolSnapshot) (s : Text × Text × Text × (PoolSnapshot → F)) :
    series D s.1 s.2.1 s.2.2.1 pools s.2.2.2 = Exposition.write [exposedPool D pools s] := by
  rw [exposedPool, ← metric_eq, series, List.map_map]
  congr 1
  refine List.map_congr_left fun p _ => ?_
  simp [printed, labelText_one, labelText_more, escape_eq]

theorem routingSamples_eq (group : TargetReport) :
    routingSamples D group = (exposedRouting D group).map printed := by
  simp [routingSamples, exposedRouting, printed, labelText_one, labelText_more, escape_eq, Exposition.escape,
    Exposition.escapeChar]

theorem reasonSamples_eq (group : TargetReport) : reasonSamples D group = (exposedReason D group).map printed := by
  rw [reasonSamples, exposedReason, List.map_map]
  refine List.map_congr_left fun reason _ => ?_
  simp [printed, labelText_one, labelText_more, escape_eq, escape_primaryReason]

theorem lagSamples_eq (group : TargetReport) : lagSamples D group = (exposedLag D group).map printed := by
  rw [lagSamples, exposedLag, List.map_map]
  refine List.map_congr_left fun replica _ => ?_
  simp [printed, labelText_one, labelText_more, escape_eq]

theorem breakerSamples_eq (group : TargetReport) : breakerSamples D group = (exposedBreaker D group).map printed := by
  rw [breakerSamples, exposedBreaker, List.map_map]
  refine List.map_congr_left fun replica _ => ?_
  simp [printed, labelText_one, labelText_more, escape_eq, escape_breaker]

theorem flatMap_printed {α : Type} {f : α → List (Text × F)} {g : α → List (List Exposition.Label × F)}
    (h : ∀ a, f a = (g a).map printed) (l : List α) : l.flatMap f = (l.flatMap g).map printed := by
  rw [List.map_flatMap]
  exact List.flatMap_congr fun a _ => h a

/-- The text of a scrape is what the format has for what it says. -/
theorem render_eq (pools : List PoolSnapshot) (targets : List TargetReport) (pins : PinReport) (uptime : ℕ) :
    render D pools targets pins uptime = Exposition.write (exposed D pools targets pins uptime) := by
  have hone : ∀ name kind help : Text, ∀ x : F, metric D name kind help [([], x)] =
      Exposition.write [exposedMetric D name kind help [([], x)]] := fun name kind help x =>
    metric_eq name kind help [([], x)]
  have hpins : (pins.byReason.map fun r => ("\x7breason=\"".toList ++ r.reason.asStr ++ "\"\x7d".toList, D.cast r.count)) =
      (pins.byReason.map fun r => ([⟨"reason".toList, r.reason.asStr⟩], D.cast r.count)).map printed := by
    rw [List.map_map]
    refine List.map_congr_left fun r _ => ?_
    simp [printed, labelText_one, escape_pinReason]
  have hpools : (poolSeries D).flatMap (fun s => series D s.1 s.2.1 s.2.2.1 pools s.2.2.2) =
      Exposition.write ((poolSeries D).map (exposedPool D pools)) := by
    rw [write_flatMap]
    exact List.flatMap_congr fun s _ => series_eq pools s
  rw [render, hone, hone, hone, hpins, hpools, flatMap_printed routingSamples_eq, flatMap_printed reasonSamples_eq,
    flatMap_printed lagSamples_eq, flatMap_printed breakerSamples_eq, metric_eq, metric_eq, metric_eq, metric_eq,
    metric_eq]
  simp only [← write_append, exposed, List.append_assoc, List.cons_append, List.nil_append]

/-! ## What is read -/

/-- The keys of a sample are names. -/
def named (s : List Exposition.Label × F) : Bool := s.1.all fun l => Exposition.isName l.key

theorem exposedMetric_good (hD : D.Plain) {name kind help : Text} {samples : List (List Exposition.Label × F)}
    (hname : Exposition.isName name = true) (hkind : kind ∈ Exposition.kinds) (hhelp : '\n' ∉ help)
    (hkeys : ∀ s ∈ samples, named s = true) :
    (exposedMetric D name kind help samples).Good := by
  refine ⟨hname, hkind, hhelp, fun s hs => ?_⟩
  obtain ⟨sample, hsample, rfl⟩ := List.mem_map.mp hs
  exact ⟨List.all_eq_true.mp (hkeys sample hsample), (hD sample.2).1, (hD sample.2).2⟩

theorem poolSeries_good {s : Text × Text × Text × (PoolSnapshot → F)} (hs : s ∈ poolSeries D) :
    Exposition.isName s.1 = true ∧ s.2.1 ∈ Exposition.kinds ∧ '\n' ∉ s.2.2.1 := by
  simp only [poolSeries, List.mem_cons, List.not_mem_nil, or_false] at hs
  rcases hs with rfl | rfl | rfl | rfl | rfl | rfl | rfl | rfl | rfl | rfl | rfl | rfl | rfl | rfl <;>
    exact ⟨rfl, by dsimp only; decide, by dsimp only; decide⟩

theorem exposedPool_good (hD : D.Plain) (pools : List PoolSnapshot) {s : Text × Text × Text × (PoolSnapshot → F)}
    (hs : s ∈ poolSeries D) : (exposedPool D pools s).Good := by
  obtain ⟨hname, hkind, hhelp⟩ := poolSeries_good hs
  exact exposedMetric_good hD hname hkind hhelp (List.forall_mem_map.mpr fun p _ => rfl)

theorem exposed_good (hD : D.Plain) (pools : List PoolSnapshot) (targets : List TargetReport) (pins : PinReport)
    (uptime : ℕ) : ∀ m ∈ exposed D pools targets pins uptime, m.Good := by
  have hbare : ∀ x : F, ∀ s ∈ [(([] : List Exposition.Label), x)], named s = true :=
    fun x => List.forall_mem_singleton.mpr rfl
  have hpins : ∀ s ∈ pins.byReason.map fun r => ([(⟨"reason".toList, r.reason.asStr⟩ : Exposition.Label)], D.cast r.count),
      named s = true := List.forall_mem_map.mpr fun r _ => rfl
  have hrouting : ∀ s ∈ targets.flatMap (exposedRouting D), named s = true := by
    refine List.forall_mem_flatMap.mpr fun group _ => ?_
    exact List.forall_mem_cons.mpr ⟨rfl, List.forall_mem_singleton.mpr rfl⟩
  have hreason : ∀ s ∈ targets.flatMap (exposedReason D), named s = true :=
    List.forall_mem_flatMap.mpr fun group _ => List.forall_mem_map.mpr fun r _ => rfl
  have hlag : ∀ s ∈ targets.flatMap (exposedLag D), named s = true :=
    List.forall_mem_flatMap.mpr fun group _ => List.forall_mem_map.mpr fun r _ => rfl
  have hbreaker : ∀ s ∈ targets.flatMap (exposedBreaker D), named s = true :=
    List.forall_mem_flatMap.mpr fun group _ => List.forall_mem_map.mpr fun r _ => rfl
  simp only [exposed, List.forall_mem_append, List.forall_mem_cons, List.forall_mem_map, List.not_mem_nil,
    false_implies, implies_true, and_true]
  refine ⟨⟨?_, fun s hs => exposedPool_good hD pools hs⟩, ?_, ?_, ?_, ?_, ?_, ?_, ?_⟩
  case refine_1 => exact exposedMetric_good hD rfl (by decide) (by decide) (hbare _)
  case refine_2 => exact exposedMetric_good hD rfl (by decide) (by decide) hpins
  case refine_3 => exact exposedMetric_good hD rfl (by decide) (by decide) (hbare _)
  case refine_4 => exact exposedMetric_good hD rfl (by decide) (by decide) hrouting
  case refine_5 => exact exposedMetric_good hD rfl (by decide) (by decide) hreason
  case refine_6 => exact exposedMetric_good hD rfl (by decide) (by decide) hlag
  case refine_7 => exact exposedMetric_good hD rfl (by decide) (by decide) hbreaker
  case refine_8 => exact exposedMetric_good hD rfl (by decide) (by decide) (hbare _)

/-- No metric is opened twice. -/
theorem nodup_exposed (pools : List PoolSnapshot) (targets : List TargetReport) (pins : PinReport) (uptime : ℕ) :
    ((exposed D pools targets pins uptime).map Exposition.Metric.name).Nodup := by
  have hnames : (exposed D pools targets pins uptime).map Exposition.Metric.name =
      ["havuz_uptime_seconds".toList, "havuz_pool_backend_connections".toList, "havuz_pool_active_connections".toList,
        "havuz_pool_idle_connections".toList, "havuz_pool_waiting_clients".toList, "havuz_pool_max_size".toList,
        "havuz_pool_checkouts_total".toList, "havuz_pool_connections_created_total".toList,
        "havuz_pool_connections_closed_total".toList, "havuz_pool_checkout_timeouts_total".toList,
        "havuz_pool_connect_errors_total".toList, "havuz_pool_connections_discarded_total".toList,
        "havuz_pool_connections_unclean_total".toList, "havuz_pool_wait_seconds_max".toList,
        "havuz_pool_wait_seconds_mean".toList, "havuz_sessions_pinned_total".toList,
        "havuz_sessions_clean_total".toList, "havuz_routing_statements_total".toList,
        "havuz_routing_primary_total".toList, "havuz_replica_lag_seconds".toList, "havuz_replica_breaker".toList,
        "havuz_session_pin_rate".toList] := rfl
  rw [hnames]
  decide +kernel

/-- Whatever the pools, the statuses and the replicas are called, a scrape reads back as what it says. -/
theorem scrape_reads_back (hD : D.Plain) (pools : List PoolSnapshot) (targets : List TargetReport) (pins : PinReport)
    (uptime : ℕ) :
    Exposition.read (render D pools targets pins uptime) = some (exposed D pools targets pins uptime) := by
  rw [render_eq]
  exact Exposition.read_write (exposed_good hD pools targets pins uptime) (nodup_exposed pools targets pins uptime)

/-! ## No series twice -/

/-- Pools, groups, replicas and reasons that a scrape can tell from each other. -/
structure Distinct (pools : List PoolSnapshot) (targets : List TargetReport) (pins : PinReport) : Prop where
  pools : (pools.map fun p => (p.name, p.status)).Nodup
  pinned : (pins.byReason.map ReasonCount.reason).Nodup
  groups : (targets.map TargetReport.name).Nodup
  reasons : ∀ group ∈ targets, (group.routing.primaryReasons.map PrimaryReasonCount.reason).Nodup
  replicas : ∀ group ∈ targets, (group.replicas.map ReplicaRouting.label).Nodup

/-- Entries under the name of their group: where the names differ, they differ as those of each group do. -/
theorem nodup_grouped {α β : Type} {name : α → Text} {inner : α → List β} {l : List α} (h : (l.map name).Nodup) :
    (l.flatMap fun a => (inner a).map fun b => (name a, b)).Nodup ↔ ∀ a ∈ l, (inner a).Nodup := by
  have hdisjoint : l.Pairwise (Function.onFun List.Disjoint fun a => (inner a).map fun b => (name a, b)) := by
    refine (List.pairwise_map.mp h).imp ?_
    intro a a' hne x hx hx'
    obtain ⟨b, -, rfl⟩ := List.mem_map.mp hx
    obtain ⟨b', -, heq⟩ := List.mem_map.mp hx'
    exact hne (Prod.mk.inj heq).1.symm
  have hinner : ∀ a, ((inner a).map fun b => (name a, b)).Nodup ↔ (inner a).Nodup := fun a =>
    List.nodup_map_iff fun b b' heq => (Prod.mk.inj heq).2
  rw [List.nodup_flatMap, and_iff_left hdisjoint]
  exact forall₂_congr fun a _ => hinner a

/-- Where every group has an entry, the names differ. -/
theorem nodup_names {α β : Type} {name : α → Text} {b : β} {bs : List β} {l : List α}
    (h : (l.flatMap fun a => (b :: bs).map fun b => (name a, b)).Nodup) : (l.map name).Nodup := by
  refine List.pairwise_map.mpr ((List.nodup_flatMap.mp h).2.imp ?_)
  intro a a' hdisjoint heq
  have hmem : (name a, b) ∈ (b :: bs).map fun b => (name a, b) := List.mem_cons_self
  have hmem' : (name a, b) ∈ (b :: bs).map fun b => (name a', b) := by
    rw [heq]
    exact List.mem_cons_self
  exact hdisjoint hmem hmem'

theorem labels_exposedMetric (name kind help : Text) (samples : List (List Exposition.Label × F)) :
    (exposedMetric D name kind help samples).series.map Exposition.Series.labels = samples.map Prod.fst := by
  rw [exposedMetric, List.map_map]
  rfl

/-- Two labels. -/
def pairLabels (k k' : Text) (p : Text × Text) : List Exposition.Label := [⟨k, p.1⟩, ⟨k', p.2⟩]

theorem pairLabels_injective (k k' : Text) : Function.Injective (pairLabels k k') := by
  intro p q h
  simp only [pairLabels, List.cons.injEq, Exposition.Label.mk.injEq, true_and, and_true] at h
  exact Prod.ext h.1 h.2

theorem asStr_injective_pins : Function.Injective PinReason.asStr := by
  have hnodup : (PinReason.all.map PinReason.asStr).Nodup := by decide +kernel
  exact fun a b h => List.inj_on_of_nodup_map hnodup (PinReason.mem_all a) (PinReason.mem_all b) h

theorem asStr_injective_primary : Function.Injective PrimaryReason.asStr := by
  intro a b h
  cases a <;> cases b <;> first | rfl | exact absurd h (by decide)

theorem once_pool (pools : List PoolSnapshot) (s : Text × Text × Text × (PoolSnapshot → F)) :
    ((exposedPool D pools s).series.map Exposition.Series.labels).Nodup ↔
      (pools.map fun p => (p.name, p.status)).Nodup := by
  rw [exposedPool, labels_exposedMetric, ← List.nodup_map_iff (pairLabels_injective "pool".toList "status".toList),
    List.map_map, List.map_map]
  rfl

theorem once_pinned (reasons : List ReasonCount) :
    ((reasons.map fun r => ([(⟨"reason".toList, r.reason.asStr⟩ : Exposition.Label)], D.cast r.count)).map
      Prod.fst).Nodup ↔ (reasons.map ReasonCount.reason).Nodup := by
  have hinjective : Function.Injective fun r : PinReason => [(⟨"reason".toList, r.asStr⟩ : Exposition.Label)] := by
    intro a b h
    simp only [List.cons.injEq, Exposition.Label.mk.injEq, true_and, and_true] at h
    exact asStr_injective_pins h
  rw [← List.nodup_map_iff hinjective, List.map_map, List.map_map]
  rfl

theorem once_routing (targets : List TargetReport) :
    ((targets.flatMap (exposedRouting D)).map Prod.fst).Nodup ↔ (targets.map TargetReport.name).Nodup := by
  have hlabels : (targets.flatMap (exposedRouting D)).map Prod.fst =
      (targets.flatMap fun group => ["primary".toList, "replica".toList].map fun t => (group.name, t)).map
        (pairLabels "pool".toList "target".toList) := by
    rw [List.map_flatMap, List.map_flatMap]
    rfl
  rw [hlabels, List.nodup_map_iff (pairLabels_injective _ _)]
  exact ⟨nodup_names, fun h => (nodup_grouped h).mpr fun _ _ => by decide⟩

theorem once_reason {targets : List TargetReport} (h : (targets.map TargetReport.name).Nodup) :
    ((targets.flatMap (exposedReason D)).map Prod.fst).Nodup ↔
      ∀ group ∈ targets, (group.routing.primaryReasons.map PrimaryReasonCount.reason).Nodup := by
  have hinjective : Function.Injective fun k : Text × PrimaryReason =>
      pairLabels "pool".toList "reason".toList (k.1, k.2.asStr) := by
    intro k k' heq
    have hpair := Prod.mk.inj (pairLabels_injective _ _ heq)
    exact Prod.ext hpair.1 (asStr_injective_primary hpair.2)
  have hlabels : (targets.flatMap (exposedReason D)).map Prod.fst =
      (targets.flatMap fun group =>
          (group.routing.primaryReasons.map PrimaryReasonCount.reason).map fun r => (group.name, r)).map
        fun k => pairLabels "pool".toList "reason".toList (k.1, k.2.asStr) := by
    rw [List.map_flatMap, List.map_flatMap]
    refine List.flatMap_congr fun group _ => ?_
    rw [exposedReason, List.map_map, List.map_map, List.map_map]
    rfl
  rw [hlabels, List.nodup_map_iff hinjective]
  exact nodup_grouped h

theorem once_lag {targets : List TargetReport} (h : (targets.map TargetReport.name).Nodup) :
    ((targets.flatMap (exposedLag D)).map Prod.fst).Nodup ↔
      ∀ group ∈ targets, (group.replicas.map ReplicaRouting.label).Nodup := by
  have hlabels : (targets.flatMap (exposedLag D)).map Prod.fst =
      (targets.flatMap fun group => (group.replicas.map ReplicaRouting.label).map fun r => (group.name, r)).map
        (pairLabels "pool".toList "replica".toList) := by
    rw [List.map_flatMap, List.map_flatMap]
    refine List.flatMap_congr fun group _ => ?_
    rw [exposedLag, List.map_map, List.map_map, List.map_map]
    rfl
  rw [hlabels, List.nodup_map_iff (pairLabels_injective _ _)]
  exact nodup_grouped h

/-- The breaker has the labels of the lag and one more. -/
theorem once_breaker {targets : List TargetReport} (h : ((targets.flatMap (exposedLag D)).map Prod.fst).Nodup) :
    ((targets.flatMap (exposedBreaker D)).map Prod.fst).Nodup := by
  have hlabels : ((targets.flatMap (exposedBreaker D)).map Prod.fst).map (List.take 2) =
      (targets.flatMap (exposedLag D)).map Prod.fst := by
    rw [List.map_map, List.map_flatMap, List.map_flatMap]
    refine List.flatMap_congr fun group _ => ?_
    rw [exposedBreaker, exposedLag, List.map_map, List.map_map]
    rfl
  rw [← hlabels] at h
  exact h.of_map

/-- No series of a scrape comes twice exactly when its pools, groups, replicas and reasons are told apart. -/
theorem series_once_iff (hD : D.Plain) (pools : List PoolSnapshot) (targets : List TargetReport) (pins : PinReport)
    (uptime : ℕ) :
    ∃ ms, Exposition.read (render D pools targets pins uptime) = some ms ∧
      ((∀ m ∈ ms, (m.series.map Exposition.Series.labels).Nodup) ↔ Distinct pools targets pins) := by
  refine ⟨exposed D pools targets pins uptime, ?_, ?_⟩
  · rw [render_eq]
    exact Exposition.read_write (exposed_good hD pools targets pins uptime) (nodup_exposed pools targets pins uptime)
  have hbare : ∀ x : F, ([(([] : List Exposition.Label), x)].map Prod.fst).Nodup := fun x => List.nodup_singleton _
  simp only [exposed, List.forall_mem_append, List.forall_mem_cons, List.forall_mem_map, List.not_mem_nil,
    false_implies, implies_true, and_true, labels_exposedMetric, hbare, true_and, once_pool, once_pinned, once_routing]
  constructor
  · rintro ⟨hpools, hpinned, hgroups, hreasons, hlag, -⟩
    exact ⟨hpools _ List.mem_cons_self, hpinned, hgroups, (once_reason hgroups).mp hreasons, (once_lag hgroups).mp hlag⟩
  · intro h
    have hlag : ((targets.flatMap (exposedLag D)).map Prod.fst).Nodup := (once_lag h.groups).mpr h.replicas
    exact ⟨fun _ _ => h.pools, h.pinned, h.groups, (once_reason h.groups).mpr h.reasons, hlag, once_breaker hlag⟩

end Written

/-! ### A pool with a quote in its name -/

/-- Whole numbers, as a double prints them. -/
def whole : Doubles ℤ where
  cast z := z
  ofMicros n := n / 1000000
  ofMillis n := n / 1000
  ofRate q := q.floor
  display z := if z < 0 then '-' :: Nat.toDigits 10 z.natAbs else Nat.toDigits 10 z.natAbs

theorem whole_plain : whole.Plain := by
  intro z
  have hdigits : ∀ c ∈ Nat.toDigits 10 z.natAbs, c ≠ ' ' ∧ c ≠ '\n' := by
    intro c hc
    have hdigit := Nat.isDigit_of_mem_toDigits (by decide) (by decide) hc
    refine ⟨?_, ?_⟩
    all_goals
      rintro rfl
      cases hdigit
  unfold whole
  dsimp only
  split_ifs
  · exact ⟨List.cons_ne_nil _ _, List.forall_mem_cons.mpr ⟨by decide, hdigits⟩⟩
  · exact ⟨Nat.toDigits_ne_nil, hdigits⟩

/-- One pool, whose name would end its label and its line. -/
def quotedPool : PoolSnapshot :=
  { name := ['a', '"', '\\', '\n', 'b']
    status := "active".toList
    active := 3
    idle := 1
    opened := 4
    waiting := 96
    maxSize := 3
    maxClientConnections := 100
    createdTotal := 4
    closedTotal := 0
    checkoutTotal := 1234
    timeoutTotal := 2
    connectErrorTotal := 0
    discardedTotal := 1
    uncleanTotal := 0
    wait := ⟨1234, 2000000, 3000000⟩ }

theorem scrape_reads_back_quoted :
    Exposition.read (render whole [quotedPool] [⟨quotedPool.name, [⟨['"'], none, .open⟩], ⟨1, 2, [⟨.write, 1⟩]⟩⟩]
        (({} : PinRegistry).report 0) 42) =
      some (exposed whole [quotedPool] [⟨quotedPool.name, [⟨['"'], none, .open⟩], ⟨1, 2, [⟨.write, 1⟩]⟩⟩]
        (({} : PinRegistry).report 0) 42) :=
  scrape_reads_back whole_plain _ _ _ _

theorem series_once_quoted :
    ∃ ms, Exposition.read (render whole [quotedPool, quotedPool] [] (({} : PinRegistry).report 0) 42) = some ms ∧
      ((∀ m ∈ ms, (m.series.map Exposition.Series.labels).Nodup) ↔
        Distinct [quotedPool, quotedPool] [] (({} : PinRegistry).report 0)) :=
  series_once_iff whole_plain _ _ _ _

end Metrics

end Havuz
