import Havuz.State

/-!
# The live pools of a family

Reference: `rebuild_pools`, `sync_pools` and `reload_pool` in `havuz-pg/src/family.rs` and
`havuz-jdbc/src/family.rs`, `FamilySet` in `havuz-control/src/lib.rs`. The two families run one algorithm;
they differ in what they do to a pool they let go of. What building a pool comes to is decided outside
(TLS files, driver JARs, a JVM), so it is a parameter.
-/

namespace Havuz.Families

open Lib (SortedMap)

/-- The two families with a driver. -/
inductive Driver where
  | pg
  | jdbc
deriving DecidableEq, Repr

/-- `FAMILY_ID`. -/
def Driver.id : Driver → Text
  | .pg => postgresFamily.id
  | .jdbc => jdbcFamily.id

/-- A live pool: what it was built from, and which of the groups ever built it is. -/
structure Entry where
  config : PoolConfig
  serial : ℕ
deriving DecidableEq, Repr

/-- The pool map with a record of what was done to the pools that left it. -/
structure Live where
  pools : SortedMap Text Entry
  /-- The serial of the next group. -/
  next : ℕ
  /-- The pools `drain` was called on. -/
  drained : List (Text × Entry) := []
  /-- The pools whose agent was shut down. -/
  shutdown : List (Text × Entry) := []
  /-- The pools `forget_pool` was called for. -/
  forgotten : List Text := []
  fresh : ∀ e ∈ pools.entries, e.2.serial < next
deriving DecidableEq

/-- What building a pool comes to: nothing, or why it failed. -/
abbrev Fails := Text → PoolConfig → Option Text

/-- The configuration this family is to serve under a name: an enabled pool of its own. -/
def Driver.wants (d : Driver) (s : State) (name : Text) : Option PoolConfig :=
  (s.pools.get name).filter fun config => decide (config.family = d.id) && !config.disabled

namespace Live

/-- No pool yet. -/
def empty : Live where
  pools := .empty
  next := 0
  fresh := by simp [SortedMap.empty]

/-- Put a freshly built group into the map. -/
def add (live : Live) (name : Text) (config : PoolConfig) : Live :=
  { live with
    pools := live.pools.insert name ⟨config, live.next⟩
    next := live.next + 1
    fresh := by
      intro e he
      rcases SortedMap.mem_insertEntry he with rfl | he
      · exact Nat.lt_succ_self _
      · exact Nat.lt_succ_of_lt (live.fresh e he) }

/-- Keep the entries a test accepts. -/
def keep (live : Live) (p : Text × Entry → Bool) : Live :=
  { live with
    pools := live.pools.filter p
    fresh := fun e he => live.fresh e (List.mem_filter.mp he).1 }

/-- The build loop of `rebuild_pools`: the missing pools in key order, up to the first that fails. -/
def buildMissing (d : Driver) (fails : Fails) :
    List (Text × PoolConfig) → Live → Live × Except Text Unit
  | [], live => (live, .ok ())
  | (name, config) :: rest, live =>
      if config.family ≠ d.id || config.disabled then buildMissing d fails rest live
      else if (live.pools.get name).isSome then buildMissing d fails rest live
      else
        match fails name config with
        | some e => (live, .error e)
        | none => buildMissing d fails rest (live.add name config)

/-- The `retain` pass of `rebuild_pools`: what the configuration no longer wants is drained. The
PostgreSQL family also forgets whom the pool vouched for, the JDBC family stops the agent. -/
def retainWanted (d : Driver) (s : State) (live : Live) : Live :=
  let removed := live.pools.entries.filter fun e => (d.wants s e.1).isNone
  let kept := live.keep fun e => (d.wants s e.1).isSome
  { kept with
    drained := live.drained ++ removed
    shutdown := live.shutdown ++ match d with
      | .pg => []
      | .jdbc => removed
    forgotten := live.forgotten ++ match d with
      | .pg => removed.map Prod.fst
      | .jdbc => [] }

/-- `rebuild_pools` with the state it loaded, under the lock of the pool map. -/
def rebuild (d : Driver) (fails : Fails) (s : State) (live : Live) : Live × Except Text Unit :=
  match buildMissing d fails s.pools.entries live with
  | (live, .error e) => (live, .error e)
  | (live, .ok ()) => (retainWanted d s live, .ok ())

/-- The first half of `reload_pool`: the entry leaves the map. Only the JDBC family drains it. -/
def takeOut (d : Driver) (name : Text) (live : Live) : Live :=
  let retired := live.pools.entries.filter fun e => decide (e.1 = name)
  let kept := live.keep fun e => decide (e.1 ≠ name)
  match d with
  | .pg => kept
  | .jdbc => { kept with drained := live.drained ++ retired, shutdown := live.shutdown ++ retired }

/-- `reload_pool`. -/
def reload (d : Driver) (fails : Fails) (name : Text) (s : State) (live : Live) :
    Live × Except Text Unit :=
  rebuild d fails s (live.takeOut d name)

end Live

/-- `sync_all`: every family in the order of the set, up to the first that fails. -/
def syncAll (s : State) : List (Driver × Fails × Live) → List (Driver × Fails × Live) × Except Text Unit
  | [] => ([], .ok ())
  | (d, fails, live) :: rest =>
      match live.rebuild d fails s with
      | (live, .error e) =>
          ((d, fails, live) :: rest, .error ("family '".toList ++ d.id ++ "': ".toList ++ e))
      | (live, .ok ()) =>
          let (rest, result) := syncAll s rest
          ((d, fails, live) :: rest, result)

/-! ## What each step does to the map -/

variable {d : Driver} {fails : Fails}

theorem Driver.wants_eq_some {s : State} {name : Text} {config : PoolConfig} :
    d.wants s name = some config ↔
      s.pools.get name = some config ∧ config.family = d.id ∧ config.disabled = false := by
  simp [Driver.wants, Option.filter_eq_some_iff]

namespace Live

@[simp] theorem get_add (live : Live) (name n : Text) (config : PoolConfig) :
    (live.add name config).pools.get n =
      if n = name then some ⟨config, live.next⟩ else live.pools.get n := by
  rw [add, SortedMap.get_insert]
  congr

theorem get_keep {live : Live} {p : Text × Entry → Bool} {name : Text} {e : Entry} :
    (live.keep p).pools.get name = some e ↔ live.pools.get name = some e ∧ p (name, e) = true :=
  SortedMap.get_filter_eq_some

@[simp] theorem retainWanted_pools (s : State) (live : Live) :
    (live.retainWanted d s).pools = (live.keep fun e => (d.wants s e.1).isSome).pools := rfl

@[simp] theorem takeOut_pools (name : Text) (live : Live) :
    (live.takeOut d name).pools = (live.keep fun e => decide (e.1 ≠ name)).pools := by
  unfold takeOut
  split <;> rfl

@[simp] theorem takeOut_next (name : Text) (live : Live) : (live.takeOut d name).next = live.next := by
  unfold takeOut
  split <;> rfl

theorem get_takeOut (live : Live) (name n : Text) :
    (live.takeOut d name).pools.get n = if n = name then none else live.pools.get n := by
  rw [takeOut_pools]
  apply Option.ext
  intro e
  rw [get_keep]
  by_cases h : n = name <;> simp [h]

/-! ### The build loop -/

/-- A pool the loop has to build: wanted and not in the map. -/
def Tries (d : Driver) (live : Live) (name : Text) (config : PoolConfig) : Prop :=
  (config.family = d.id ∧ config.disabled = false) ∧ live.pools.get name = none

theorem not_tries_cases {live : Live} {name : Text} {config : PoolConfig}
    (h : ¬ Tries d live name config) (l : List (Text × PoolConfig)) :
    buildMissing d fails ((name, config) :: l) live = buildMissing d fails l live := by
  rw [buildMissing]
  split
  case isTrue => rfl
  case isFalse hwanted =>
    split
    case isTrue => rfl
    case isFalse hmissing =>
      exact absurd ⟨by simpa using hwanted, by simpa using hmissing⟩ h

theorem tries_cases {live : Live} {name : Text} {config : PoolConfig} (h : Tries d live name config)
    (l : List (Text × PoolConfig)) :
    buildMissing d fails ((name, config) :: l) live =
      match fails name config with
      | some e => (live, .error e)
      | none => buildMissing d fails l (live.add name config) := by
  rw [buildMissing, if_neg (by simp [h.1]), if_neg (by simp [h.2])]

/-- The loop leaves the entries that are there alone. -/
theorem buildMissing_keeps {l : List (Text × PoolConfig)} {live : Live} {n : Text} {e : Entry}
    (h : live.pools.get n = some e) : (buildMissing d fails l live).1.pools.get n = some e := by
  induction l generalizing live with
  | nil => exact h
  | cons p rest ih =>
    obtain ⟨name, config⟩ := p
    by_cases htries : Tries d live name config
    · rw [tries_cases htries]
      split
      · exact h
      · apply ih
        have hne : n ≠ name := by
          rintro rfl
          rw [htries.2] at h
          cases h
        rw [get_add, if_neg hne, h]
    · rw [not_tries_cases htries]
      exact ih h

/-- What the loop adds, it built from an entry of the list. -/
theorem buildMissing_built {l : List (Text × PoolConfig)} {live : Live} {n : Text} {e : Entry}
    (h : (buildMissing d fails l live).1.pools.get n = some e) :
    live.pools.get n = some e ∨
      ((n, e.config) ∈ l ∧ Tries d live n e.config ∧ live.next ≤ e.serial) := by
  induction l generalizing live with
  | nil => exact .inl h
  | cons p rest ih =>
    obtain ⟨name, config⟩ := p
    by_cases htries : Tries d live name config
    · rw [tries_cases htries] at h
      split at h
      · exact .inl h
      · rcases ih h with hget | ⟨hmem, hwanted, hserial⟩
        · rw [get_add] at hget
          split at hget
          case isTrue heq =>
            subst heq
            cases hget
            exact .inr ⟨List.mem_cons_self, htries, le_refl _⟩
          case isFalse => exact .inl hget
        · have hmissing : live.pools.get n = none := by
            have hnone := hwanted.2
            rw [get_add] at hnone
            split at hnone
            · cases hnone
            · exact hnone
          exact .inr ⟨List.mem_cons_of_mem _ hmem, ⟨hwanted.1, hmissing⟩, by
            have : live.next + 1 ≤ e.serial := hserial
            omega⟩
    · rw [not_tries_cases htries] at h
      rcases ih h with hget | ⟨hmem, hrest⟩
      · exact .inl hget
      · exact .inr ⟨List.mem_cons_of_mem _ hmem, hrest⟩

/-- Adding one pool changes what is missing for that name only. -/
theorem tries_add {live : Live} {name n : Text} {config c : PoolConfig} (h : n ≠ name) :
    Tries d (live.add name config) n c ↔ Tries d live n c := by
  rw [Tries, Tries, get_add, if_neg h]

/-- **How far the loop gets**: it is done with a missing pool exactly when that pool and every missing
pool before it build. -/
theorem buildMissing_reaches {l : List (Text × PoolConfig)} (hl : l.Pairwise fun a b => a.1 < b.1)
    {live : Live} {n : Text} {c : PoolConfig} (hmem : (n, c) ∈ l) (htry : Tries d live n c) :
    ((buildMissing d fails l live).1.pools.get n).isSome ↔
      ∀ m c', (m, c') ∈ l → Tries d live m c' → m ≤ n → fails m c' = none := by
  induction l generalizing live with
  | nil => cases hmem
  | cons p rest ih =>
    obtain ⟨name, config⟩ := p
    obtain ⟨hfirst, hrest⟩ := List.pairwise_cons.mp hl
    have hle : name ≤ n := by
      rcases List.mem_cons.mp hmem with heq | hmem
      · cases heq
        exact le_refl _
      · exact le_of_lt (hfirst _ hmem)
    by_cases htries : Tries d live name config
    · rw [tries_cases htries]
      split
      case h_1 e hfails =>
        rw [htry.2]
        constructor
        · intro h
          cases h
        · intro hall
          rw [hall name config List.mem_cons_self htries hle] at hfails
          cases hfails
      case h_2 hfails =>
        rcases List.mem_cons.mp hmem with heq | hmem'
        · cases heq
          have hbuilt : (live.add n c).pools.get n = some ⟨c, live.next⟩ := by simp
          rw [buildMissing_keeps hbuilt]
          refine ⟨fun _ m c' hm _ hmn => ?_, fun _ => rfl⟩
          rcases List.mem_cons.mp hm with heq | hm
          · cases heq
            exact hfails
          · exact absurd hmn (not_le.mpr (hfirst _ hm))
        · have hne : n ≠ name := ne_of_gt (hfirst _ hmem')
          rw [ih hrest hmem' ((tries_add hne).mpr htry)]
          constructor
          · intro hall m c' hm hm' hmn
            rcases List.mem_cons.mp hm with heq | hm
            · cases heq
              exact hfails
            · exact hall m c' hm ((tries_add (ne_of_gt (hfirst _ hm))).mpr hm') hmn
          · intro hall m c' hm hm' hmn
            exact hall m c' (List.mem_cons_of_mem _ hm) ((tries_add (ne_of_gt (hfirst _ hm))).mp hm') hmn
    · rw [not_tries_cases htries]
      have hmem' : (n, c) ∈ rest := by
        rcases List.mem_cons.mp hmem with heq | hmem
        · cases heq
          exact absurd htry htries
        · exact hmem
      rw [ih hrest hmem' htry]
      constructor
      · intro hall m c' hm hm' hmn
        rcases List.mem_cons.mp hm with heq | hm
        · cases heq
          exact absurd hm' htries
        · exact hall m c' hm hm' hmn
      · intro hall m c' hm
        exact hall m c' (List.mem_cons_of_mem _ hm)

/-- The loop succeeds exactly when every missing pool builds. -/
theorem buildMissing_ok_iff {l : List (Text × PoolConfig)} (hl : l.Pairwise fun a b => a.1 < b.1)
    {live : Live} : (buildMissing d fails l live).2 = .ok () ↔
      ∀ m c, (m, c) ∈ l → Tries d live m c → fails m c = none := by
  induction l generalizing live with
  | nil => simp [buildMissing]
  | cons p rest ih =>
    obtain ⟨name, config⟩ := p
    obtain ⟨hfirst, hrest⟩ := List.pairwise_cons.mp hl
    by_cases htries : Tries d live name config
    · rw [tries_cases htries]
      split
      case h_1 e hfails =>
        constructor
        · intro h
          cases h
        · intro hall
          rw [hall name config List.mem_cons_self htries] at hfails
          cases hfails
      case h_2 hfails =>
        rw [ih hrest]
        constructor
        · intro hall m c hm hm'
          rcases List.mem_cons.mp hm with heq | hm
          · cases heq
            exact hfails
          · exact hall m c hm ((tries_add (ne_of_gt (hfirst _ hm))).mpr hm')
        · intro hall m c hm hm'
          exact hall m c (List.mem_cons_of_mem _ hm) ((tries_add (ne_of_gt (hfirst _ hm))).mp hm')
    · rw [not_tries_cases htries, ih hrest]
      constructor
      · intro hall m c hm hm'
        rcases List.mem_cons.mp hm with heq | hm
        · cases heq
          exact absurd hm' htries
        · exact hall m c hm hm'
      · intro hall m c hm
        exact hall m c (List.mem_cons_of_mem _ hm)

/-! ### The whole rebuild -/

theorem rebuild_error {s : State} {live : Live} {e : Text} (h : (rebuild d fails s live).2 = .error e) :
    (rebuild d fails s live).1 = (buildMissing d fails s.pools.entries live).1 := by
  unfold rebuild at h ⊢
  split
  case h_1 heq => rw [heq]
  case h_2 heq =>
    rw [heq] at h
    cases h

theorem rebuild_ok {s : State} {live : Live} (h : (rebuild d fails s live).2 = .ok ()) :
    (buildMissing d fails s.pools.entries live).2 = .ok () ∧
      (rebuild d fails s live).1 = retainWanted d s (buildMissing d fails s.pools.entries live).1 := by
  unfold rebuild at h ⊢
  split
  case h_1 heq =>
    rw [heq] at h
    cases h
  case h_2 heq => rw [heq]; exact ⟨rfl, rfl⟩

/-- **A rebuild that succeeds** leaves the wanted pools and nothing else; those that were there stay as
they are. -/
theorem rebuild_get {s : State} {live : Live} (h : (rebuild d fails s live).2 = .ok ()) (n : Text) :
    ((rebuild d fails s live).1.pools.get n).map Entry.config =
      match d.wants s n with
      | none => none
      | some c => some (((live.pools.get n).map Entry.config).getD c) := by
  obtain ⟨hok, heq⟩ := rebuild_ok h
  rw [heq, retainWanted_pools]
  match hw : d.wants s n with
  | none =>
    have hnone : ((buildMissing d fails s.pools.entries live).1.keep fun e => (d.wants s e.1).isSome).pools.get
        n = none := by
      rw [Option.eq_none_iff_forall_ne_some]
      intro e he
      have := (get_keep.mp he).2
      simp [hw] at this
    rw [hnone]
    rfl
  | some c =>
    have hget := Driver.wants_eq_some.mp hw
    have hkeep : ((buildMissing d fails s.pools.entries live).1.keep fun e => (d.wants s e.1).isSome).pools.get
        n = (buildMissing d fails s.pools.entries live).1.pools.get n := by
      apply Option.ext
      intro e
      rw [get_keep]
      simp [hw]
    rw [hkeep]
    match hl : live.pools.get n with
    | some e =>
      rw [buildMissing_keeps hl]
      rfl
    | none =>
      have htry : Tries d live n c := ⟨hget.2, hl⟩
      have hmem : (n, c) ∈ s.pools.entries := SortedMap.mem_of_get hget.1
      have hbuilds := (buildMissing_ok_iff s.pools.sorted).mp hok
      obtain ⟨e, he⟩ := Option.isSome_iff_exists.mp
        ((buildMissing_reaches s.pools.sorted hmem htry).mpr fun m c' hm hm' _ => hbuilds m c' hm hm')
      rw [he]
      rcases buildMissing_built he with hold | ⟨hin, -, -⟩
      · rw [hl] at hold
        cases hold
      · have hc := SortedMap.get_of_mem hin
        rw [hget.1] at hc
        simp only [Option.map_some, Option.map_none, Option.getD_none]
        exact hc.symm

end Live

/-- A PostgreSQL pool over one database. -/
def samplePool (database : Text) : PoolConfig where
  family := "postgres".toList
  mode := .transaction
  targets := [⟨"db".toList, 5432, .primary⟩]
  database := database
  listenPort := 6432

/-- A configuration of these pools and nobody else. -/
def stateOf (pools : List (Text × PoolConfig)) : State where
  version := stateVersion
  pools := pools.foldl (fun m e => m.insert e.1 e.2) .empty
  users := .empty
  secrets := .empty

end Havuz.Families
