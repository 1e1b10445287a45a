import Havuz.State
import Mathlib.Data.List.Induction
import Mathlib.Data.List.Sort

/-!
# Listeners and routes

Reference: `State::listeners` in `havuz-core/src/state.rs` and `PoolRoute` in
`havuz-proto/src/family.rs`. A listener is a port with the enabled pools on it; a route is what a client
on that port may put in its database field.

* `validateListeners_owns`: in a configuration that passes the check, a name on a port has one owner.
* `listeners_get`: the listener of a port, read off the enabled pools on it.
* `resolve_eq_some`, `resolve_eq_none`: what a route answers depends on its members only, not their order.
-/

namespace Havuz

open Lib (SortedMap bind_eq_ok foldlM_kept foldlM_reached)

/-- The pool of this entry is configured on the port, under the name or the alias `asked`. -/
def AnswersTo (port : ℕ) (asked : Text) (entry : Text × PoolConfig) : Prop :=
  entry.2.listenPort = port ∧ (asked = entry.1 ∨ asked ∈ entry.2.aliases)

instance (port : ℕ) (asked : Text) (entry : Text × PoolConfig) :
    Decidable (AnswersTo port asked entry) := inferInstanceAs (Decidable (_ ∧ _))

namespace State

/-! ## One owner for every name on a port -/

theorem enterPool_ok {seen seen' : Ports × Routable} {e : Text × PoolConfig}
    (h : enterPool seen e = .ok seen') :
    seen'.2 = seen.2.insert (toLex (e.2.listenPort, e.1)) e.1 := by
  obtain ⟨name, pool⟩ := e
  simp only [enterPool] at h
  split at h
  · cases h
  · split at h
    · cases h
    · cases h
      rfl

theorem enterAlias_ok {name : Text} {pool : PoolConfig} {r r' : Routable} {alias_ : Text}
    (h : enterAlias name pool r alias_ = .ok r') :
    r.get (toLex (pool.listenPort, alias_)) = none ∧
      r' = r.insert (toLex (pool.listenPort, alias_)) name := by
  unfold enterAlias at h
  split at h
  · cases h
  · split at h
    · cases h
    · split at h
      case h_1 => cases h
      case h_2 hnone =>
        cases h
        exact ⟨hnone, rfl⟩

/-- An alias takes a name nobody owns, so nobody loses one. -/
theorem enterAlias_keeps {name : Text} {pool : PoolConfig} {r r' : Routable} {alias_ : Text}
    (h : enterAlias name pool r alias_ = .ok r') {k : ℕ ×ₗ Text} {owner : Text}
    (hk : r.get k = some owner) : r'.get k = some owner := by
  obtain ⟨hnone, rfl⟩ := enterAlias_ok h
  rw [SortedMap.get_insert, if_neg]
  · exact hk
  · rintro rfl
    rw [hnone] at hk
    cases hk

theorem enterAliases_keeps {r r' : Routable} {e : Text × PoolConfig} (h : enterAliases r e = .ok r')
    {k : ℕ ×ₗ Text} {owner : Text} (hk : r.get k = some owner) : r'.get k = some owner := by
  apply foldlM_kept (P := fun r => r.get k = some owner) _ h hk
  intro _ _ _ hstep
  exact enterAlias_keeps hstep

theorem enterAliases_owns {r r' : Routable} {e : Text × PoolConfig} (h : enterAliases r e = .ok r') :
    ∀ alias_ ∈ e.2.aliases, r'.get (toLex (e.2.listenPort, alias_)) = some e.1 := by
  apply foldlM_reached (Q := fun alias_ r => r.get (toLex (e.2.listenPort, alias_)) = some e.1) _ _ h
  · intro r alias_ r' hstep
    obtain ⟨-, rfl⟩ := enterAlias_ok hstep
    simp
  · intro r alias_ r' hstep other hother
    exact enterAlias_keeps hstep hother

/-- The keys of a map are distinct, so the first loop leaves every pool under its own name. -/
theorem enterPool_owns {ports ports' : Ports × Routable} {l : List (Text × PoolConfig)}
    (h : l.foldlM enterPool ports = .ok ports') :
    ∀ e ∈ l, ports'.2.get (toLex (e.2.listenPort, e.1)) = some e.1 := by
  apply foldlM_reached (Q := fun e seen => seen.2.get (toLex (e.2.listenPort, e.1)) = some e.1) _ _ h
  · intro seen e seen' hstep
    rw [enterPool_ok hstep]
    simp
  · intro seen e seen' hstep other hother
    rw [enterPool_ok hstep, SortedMap.get_insert]
    split
    case isTrue heq =>
      have hname : other.1 = e.1 := congrArg (fun k => (ofLex k).2) heq
      rw [hname]
    case isFalse => exact hother

/-- **In a checked configuration a name on a port has one owner**: every pool that answers to it is
the one the check wrote down. -/
theorem validateListeners_owns {s : State} {r : Routable} (h : s.validateListeners = .ok r)
    {port : ℕ} {asked : Text} {e : Text × PoolConfig} (he : e ∈ s.pools.entries)
    (hasked : AnswersTo port asked e) : r.get (toLex (port, asked)) = some e.1 := by
  unfold validateListeners at h
  rw [bind_eq_ok] at h
  obtain ⟨seen, hfirst, hsecond⟩ := h
  obtain ⟨rfl, rfl | halias⟩ := hasked
  · apply foldlM_kept (P := fun r => r.get (toLex (e.2.listenPort, e.1)) = some e.1) _ hsecond
      (enterPool_owns hfirst e he)
    intro _ _ _ hstep
    exact enterAliases_keeps hstep
  · apply foldlM_reached (Q := fun (e : Text × PoolConfig) r =>
      ∀ alias_ ∈ e.2.aliases, r.get (toLex (e.2.listenPort, alias_)) = some e.1) _ _ hsecond e he asked
      halias
    · intro _ _ _ hstep
      exact enterAliases_owns hstep
    · intro _ _ _ hstep other hother alias_ hmem
      exact enterAliases_keeps hstep (hother alias_ hmem)

theorem validate_listeners {s : State} (h : s.validate = .ok ()) :
    ∃ r, s.validateListeners = .ok r := by
  unfold validate at h
  split at h
  · cases h
  · rw [bind_eq_ok] at h
    obtain ⟨r, hr, -⟩ := h
    exact ⟨r, hr⟩

/-- Two pools of a valid configuration that answer to one name on one port are one pool. -/
theorem answersTo_unique {s : State} (h : s.validate = .ok ()) {port : ℕ} {asked : Text}
    {e e' : Text × PoolConfig} (he : e ∈ s.pools.entries) (he' : e' ∈ s.pools.entries)
    (hasked : AnswersTo port asked e) (hasked' : AnswersTo port asked e') : e = e' := by
  obtain ⟨r, hr⟩ := validate_listeners h
  have howner := validateListeners_owns hr he hasked
  rw [validateListeners_owns hr he' hasked', Option.some_inj] at howner
  have hget := SortedMap.get_of_mem he
  rw [← howner, SortedMap.get_of_mem he', Option.some_inj] at hget
  exact Prod.ext howner.symm hget.symm

end State

/-! ## The listeners a configuration asks for -/

/-- One client-facing socket and the pools reachable through it. -/
structure Listener where
  port : ℕ
  family : Text
  pools : List Text
  /-- Extra names clients may use here, as `(alias, pool)`, sorted by alias. -/
  aliases : List (Text × Text)
deriving DecidableEq, Repr

/-- The order of `(String, String)`. -/
def aliasBefore (a b : Text × Text) : Prop := toLex a ≤ toLex b

instance : DecidableRel aliasBefore := fun a b => inferInstanceAs (Decidable (toLex a ≤ toLex b))

namespace State

/-- The enabled pools of a port. -/
def enabledOn (s : State) (port : ℕ) : List (Text × PoolConfig) :=
  s.pools.entries.filter fun e => !e.2.disabled && decide (e.2.listenPort = port)

/-- The aliases of one pool, each with the pool it stands for. -/
def ownAliases (e : Text × PoolConfig) : List (Text × Text) := e.2.aliases.map fun a => (a, e.1)

/-- The body of the loop in `listeners`, which skips disabled pools. -/
def addPool (out : SortedMap ℕ Listener) (e : Text × PoolConfig) : SortedMap ℕ Listener :=
  if e.2.disabled then out
  else
    let listener := (out.get e.2.listenPort).getD ⟨e.2.listenPort, e.2.family, [], []⟩
    out.insert e.2.listenPort
      { listener with
        pools := listener.pools ++ [e.1]
        aliases := listener.aliases ++ ownAliases e }

/-- The listeners this configuration asks for, keyed by port. -/
def listeners (s : State) : SortedMap ℕ Listener :=
  (s.pools.entries.foldl addPool .empty).mapValues fun listener =>
    { listener with aliases := listener.aliases.insertionSort aliasBefore }

/-- What the loop has gathered for a port once it has seen these enabled pools of it. -/
def gathered (port : ℕ) : List (Text × PoolConfig) → Option Listener
  | [] => none
  | e :: rest =>
      some ⟨port, e.2.family, (e :: rest).map Prod.fst, (e :: rest).flatMap ownAliases⟩

theorem gathered_append (port : ℕ) (l : List (Text × PoolConfig)) (e : Text × PoolConfig) :
    gathered port (l ++ [e]) =
      let listener := (gathered port l).getD ⟨port, e.2.family, [], []⟩
      some { listener with
        pools := listener.pools ++ [e.1]
        aliases := listener.aliases ++ ownAliases e } := by
  match l with
  | [] => simp [gathered]
  | a :: rest => simp [gathered, List.flatMap_append]

theorem get_addPool (out : SortedMap ℕ Listener) (e : Text × PoolConfig) (port : ℕ) :
    (addPool out e).get port =
      if e.2.disabled = false ∧ e.2.listenPort = port then
        let listener := (out.get port).getD ⟨port, e.2.family, [], []⟩
        some { listener with
          pools := listener.pools ++ [e.1]
          aliases := listener.aliases ++ ownAliases e }
      else out.get port := by
  unfold addPool
  by_cases hdisabled : e.2.disabled = true
  · simp [hdisabled]
  · by_cases hport : e.2.listenPort = port
    · subst hport
      simp [hdisabled]
    · simp [hdisabled, hport, Ne.symm hport]

theorem addPool_fold (port : ℕ) (l : List (Text × PoolConfig)) :
    (l.foldl addPool .empty).get port =
      gathered port (l.filter fun e => !e.2.disabled && decide (e.2.listenPort = port)) := by
  induction l using List.reverseRecOn with
  | nil => rfl
  | append_singleton l e ih =>
    rw [List.foldl_append, List.filter_append, List.foldl_cons, List.foldl_nil, get_addPool, ih]
    by_cases h : e.2.disabled = false ∧ e.2.listenPort = port
    · simp [h, gathered_append]
    · have hskip : (!e.2.disabled && decide (e.2.listenPort = port)) = false := by simpa using h
      simp [h, hskip]

/-- **The listener of a port**, read off the enabled pools on it. -/
theorem listeners_get (s : State) (port : ℕ) :
    s.listeners.get port = (gathered port (s.enabledOn port)).map fun listener =>
      { listener with aliases := listener.aliases.insertionSort aliasBefore } := by
  rw [listeners, SortedMap.get_mapValues, addPool_fold]
  rfl

/-- A port without an enabled pool has no listener, so nothing accepts on it. -/
theorem listeners_get_eq_none {s : State} {port : ℕ} :
    s.listeners.get port = none ↔ s.enabledOn port = [] := by
  rw [listeners_get]
  match s.enabledOn port with
  | [] => simp [gathered]
  | e :: rest => simp [gathered]

theorem listeners_pools {s : State} {port : ℕ} {L : Listener} (h : s.listeners.get port = some L) :
    L.pools = (s.enabledOn port).map Prod.fst ∧ L.aliases.Perm ((s.enabledOn port).flatMap ownAliases) := by
  rw [listeners_get] at h
  match hl : s.enabledOn port, h with
  | e :: rest, h =>
    cases h
    exact ⟨rfl, List.perm_insertionSort _ _⟩

theorem mem_enabledOn {s : State} {port : ℕ} {e : Text × PoolConfig} :
    e ∈ s.enabledOn port ↔ e ∈ s.pools.entries ∧ e.2.disabled = false ∧ e.2.listenPort = port := by
  simp [enabledOn]

theorem mem_ownAliases {s : State} {port : ℕ} {asked owner : Text} :
    (asked, owner) ∈ (s.enabledOn port).flatMap ownAliases ↔
      ∃ e ∈ s.enabledOn port, asked ∈ e.2.aliases ∧ e.1 = owner := by
  simp [ownAliases]

end State

/-! ## Routes -/

/-- The pools reachable through the listener a connection arrived on. A listener without pools is
closed rather than bound, and `with_aliases` panics on one. -/
structure PoolRoute where
  pools : List Text
  aliases : List (Text × Text)
  nonempty : pools ≠ []
deriving DecidableEq

namespace PoolRoute

/-- `PoolRoute::with_aliases`; `none` is the failed assertion. -/
def withAliases (pools : List Text) (aliases : List (Text × Text)) : Option PoolRoute :=
  if h : pools ≠ [] then some ⟨pools, aliases, h⟩ else none

/-- The pool a client reaches without naming one, if there is no ambiguity. -/
def sole (route : PoolRoute) : Option Text :=
  match route.pools with
  | [only] => some only
  | _ => none

/-- The pool a client reaches by putting `asked` in its database field. -/
def resolve (route : PoolRoute) (asked : Text) : Option Text :=
  match route.pools.find? fun candidate => candidate = asked with
  | some pool => some pool
  | none => (route.aliases.find? fun e => e.1 = asked).map Prod.snd

/-- Everything a client may legally put in its database field here. -/
def reachable (route : PoolRoute) : List Text :=
  (route.pools ++ route.aliases.map Prod.fst).insertionSort (· ≤ ·)

/-- A name that belongs to `owner` wherever it occurs resolves to `owner`. -/
theorem resolve_eq_some {route : PoolRoute} {asked owner : Text}
    (hpool : asked ∈ route.pools → asked = owner)
    (halias : ∀ pool, (asked, pool) ∈ route.aliases → pool = owner)
    (h : asked ∈ route.pools ∨ ∃ pool, (asked, pool) ∈ route.aliases) :
    route.resolve asked = some owner := by
  unfold resolve
  split
  case h_1 pool hfind =>
    have heq : pool = asked := by simpa using List.find?_some hfind
    have hmem := List.mem_of_find?_eq_some hfind
    rw [heq] at hmem ⊢
    rw [hpool hmem]
  case h_2 hfind =>
    have hnot : asked ∉ route.pools := by
      intro hmem
      have := List.find?_eq_none.mp hfind asked hmem
      simp at this
    obtain ⟨pool, hpool⟩ := h.resolve_left hnot
    have hsome : (route.aliases.find? fun e => e.1 = asked).isSome :=
      List.find?_isSome.mpr ⟨_, hpool, by simp⟩
    obtain ⟨e, he⟩ := Option.isSome_iff_exists.mp hsome
    have hname : e.1 = asked := by simpa using List.find?_some he
    have hmem := List.mem_of_find?_eq_some he
    rw [he, Option.map_some, halias e.2 (hname ▸ hmem)]

theorem resolve_eq_none {route : PoolRoute} {asked : Text} (hpool : asked ∉ route.pools)
    (halias : ∀ pool, (asked, pool) ∉ route.aliases) : route.resolve asked = none := by
  unfold resolve
  have hfind : route.pools.find? (fun candidate => candidate = asked) = none := by
    rw [List.find?_eq_none]
    rintro candidate hmem hc
    exact hpool (of_decide_eq_true hc ▸ hmem)
  have hfind' : route.aliases.find? (fun e => e.1 = asked) = none := by
    rw [List.find?_eq_none]
    rintro ⟨a, pool⟩ hmem hc
    exact halias pool (of_decide_eq_true hc ▸ hmem)
  rw [hfind, hfind']
  rfl

theorem sole_eq_none {route : PoolRoute} (h : 2 ≤ route.pools.length) : route.sole = none := by
  unfold sole
  split
  case h_1 only hpools =>
    rw [hpools] at h
    simp at h
  case h_2 => rfl

end PoolRoute

/-- The route a listener is bound with, as `reconcile` builds it. -/
def Listener.route (L : Listener) : Option PoolRoute := PoolRoute.withAliases L.pools L.aliases

/-- A listener has pools, so the assertion of `with_aliases` never fails. -/
theorem State.listeners_route {s : State} {port : ℕ} {L : Listener}
    (h : s.listeners.get port = some L) :
    ∃ route, L.route = some route ∧ route.pools = L.pools ∧ route.aliases = L.aliases := by
  have hne : s.enabledOn port ≠ [] := by
    intro hempty
    rw [State.listeners_get_eq_none.mpr hempty] at h
    cases h
  have hpools : L.pools ≠ [] := by simpa [(State.listeners_pools h).1] using hne
  exact ⟨⟨L.pools, L.aliases, hpools⟩, by simp [Listener.route, PoolRoute.withAliases, hpools], rfl, rfl⟩

end Havuz
