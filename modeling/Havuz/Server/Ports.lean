import Havuz.Server.Pooler

/-!
# The bound ports converge to the configuration

A pass closes what changed its family and binds it again at once, when the aborted task may still hold the port. Then
the bind fails, and is not repeated before the next change. If every pass finds its own ports free (`Prompt`), the open
sockets are those of the last state once everything has come to rest (`ports_converge`).
-/

namespace Havuz.Pooler

open Lib (SortedMap Along run)

variable {setup : Setup} {w : World} {tasks : List Accept} {nextId : ℕ} {taken : List ℕ} {bound : SortedMap ℕ Bound}

/-! ## The open sockets -/

/-- What the system sees to: a port is held once. -/
structure Sockets (tasks : List Accept) (nextId : ℕ) (taken : List ℕ) : Prop where
  fresh : ∀ t ∈ tasks, t.id < nextId
  ids : ∀ t ∈ tasks, ∀ t' ∈ tasks, t.id = t'.id → t = t'
  ports : ∀ t ∈ tasks, ∀ t' ∈ tasks, t.port = t'.port → t = t'
  notTaken : ∀ t ∈ tasks, t.port ∉ taken

theorem Sockets.map (h : Sockets tasks nextId taken) {f : Accept → Accept} (hid : ∀ t, (f t).id = t.id)
    (hport : ∀ t, (f t).port = t.port) : Sockets (tasks.map f) nextId taken := by
  constructor
  · intro t' ht'
    obtain ⟨t, ht, rfl⟩ := List.mem_map.mp ht'
    rw [hid]
    exact h.fresh t ht
  · intro t₁' ht₁' t₂' ht₂' heq
    obtain ⟨t₁, ht₁, rfl⟩ := List.mem_map.mp ht₁'
    obtain ⟨t₂, ht₂, rfl⟩ := List.mem_map.mp ht₂'
    rw [hid, hid] at heq
    rw [h.ids t₁ ht₁ t₂ ht₂ heq]
  · intro t₁' ht₁' t₂' ht₂' heq
    obtain ⟨t₁, ht₁, rfl⟩ := List.mem_map.mp ht₁'
    obtain ⟨t₂, ht₂, rfl⟩ := List.mem_map.mp ht₂'
    rw [hport, hport] at heq
    rw [h.ports t₁ ht₁ t₂ ht₂ heq]
  · intro t' ht'
    obtain ⟨t, ht, rfl⟩ := List.mem_map.mp ht'
    rw [hport]
    exact h.notTaken t ht

theorem Sockets.sublist {tasks' : List Accept} (h : Sockets tasks nextId taken) (hsub : ∀ t ∈ tasks', t ∈ tasks) :
    Sockets tasks' nextId taken where
  fresh t ht := h.fresh t (hsub t ht)
  ids t ht t' ht' := h.ids t (hsub t ht) t' (hsub t' ht')
  ports t ht t' ht' := h.ports t (hsub t ht) t' (hsub t' ht')
  notTaken t ht := h.notTaken t (hsub t ht)

/-- One more socket, on a port that is free. -/
theorem Sockets.push (h : Sockets tasks nextId taken) {t : Accept} (hid : t.id = nextId)
    (hfree : ∀ t' ∈ tasks, t'.port ≠ t.port) (htaken : t.port ∉ taken) :
    Sockets (tasks ++ [t]) (nextId + 1) taken := by
  constructor
  · intro t' ht'
    rcases List.mem_append.mp ht' with hold | hnew
    · have hlt := h.fresh t' hold
      omega
    · rw [List.mem_singleton.mp hnew]
      omega
  · intro t₁ ht₁ t₂ ht₂ heq
    rcases List.mem_append.mp ht₁ with hold₁ | hnew₁ <;> rcases List.mem_append.mp ht₂ with hold₂ | hnew₂
    · exact h.ids t₁ hold₁ t₂ hold₂ heq
    · have hlt := h.fresh t₁ hold₁
      rw [List.mem_singleton.mp hnew₂] at heq
      omega
    · have hlt := h.fresh t₂ hold₂
      rw [List.mem_singleton.mp hnew₁] at heq
      omega
    · rw [List.mem_singleton.mp hnew₁, List.mem_singleton.mp hnew₂]
  · intro t₁ ht₁ t₂ ht₂ heq
    rcases List.mem_append.mp ht₁ with hold₁ | hnew₁ <;> rcases List.mem_append.mp ht₂ with hold₂ | hnew₂
    · exact h.ports t₁ hold₁ t₂ hold₂ heq
    · rw [List.mem_singleton.mp hnew₂] at heq
      exact absurd heq (hfree t₁ hold₁)
    · rw [List.mem_singleton.mp hnew₁] at heq
      exact absurd heq.symm (hfree t₂ hold₂)
    · rw [List.mem_singleton.mp hnew₁, List.mem_singleton.mp hnew₂]
  · intro t' ht'
    rcases List.mem_append.mp ht' with hold | hnew
    · exact h.notTaken t' hold
    · rwa [List.mem_singleton.mp hnew]

/-- The system gives a port that is free to another process. -/
theorem Sockets.take (h : Sockets tasks nextId taken) {port : ℕ} (hfree : ∀ t ∈ tasks, t.port ≠ port) :
    Sockets tasks nextId (port :: taken) where
  fresh := h.fresh
  ids := h.ids
  ports := h.ports
  notTaken t ht hmem := by
    rcases List.mem_cons.mp hmem with heq | hold
    · exact hfree t ht heq
    · exact h.notTaken t ht hold

theorem Sockets.giveBack (h : Sockets tasks nextId taken) (port : ℕ) :
    Sockets tasks nextId (taken.filter fun p => p ≠ port) where
  fresh := h.fresh
  ids := h.ids
  ports := h.ports
  notTaken t ht hmem := h.notTaken t ht (List.mem_filter.mp hmem).1

/-! ## What the pooler knows of them -/

/-- The task is the one of this entry. -/
structure Belongs (t : Accept) (port : ℕ) (b : Bound) : Prop where
  id : t.id = b.accept
  port : t.port = port
  running : t.aborted = false
  family : t.family = b.family
  route : t.route = PoolRoute.withAliases b.pools b.aliases

/-- Every running task is in the map, and every entry of the map has its task. -/
structure Attached (setup : Setup) (tasks : List Accept) (bound : SortedMap ℕ Bound) : Prop where
  known : ∀ t ∈ tasks, t.aborted = false → ∃ b, bound.get t.port = some b ∧ b.accept = t.id
  open_ : ∀ port b, bound.get port = some b → ∃ t ∈ tasks, Belongs t port b
  family : ∀ port b, bound.get port = some b → b.family ∈ setup.families
  reserved : ∀ port b, bound.get port = some b → setup.reserved ≠ some port

theorem holds_eq_false {port : ℕ} : w.holds port = false ↔ ∀ t ∈ w.tasks, t.port ≠ port := by
  simp [World.holds]

/-- A task is of one entry only. -/
theorem Attached.same_port (h : Attached setup tasks bound) (hs : Sockets tasks nextId taken) {port port' : ℕ}
    {b b' : Bound} (hb : bound.get port = some b) (hb' : bound.get port' = some b') (heq : b.accept = b'.accept) :
    port = port' := by
  obtain ⟨t, ht, hbelongs⟩ := h.open_ port b hb
  obtain ⟨t', ht', hbelongs'⟩ := h.open_ port' b' hb'
  have hsame : t = t' := hs.ids t ht t' ht' (by rw [hbelongs.id, hbelongs'.id, heq])
  rw [← hbelongs.port, ← hbelongs'.port, hsame]

theorem abort_id (ids : List ℕ) (t : Accept) : (World.abort ids t).id = t.id := by
  unfold World.abort
  split <;> rfl

theorem abort_port (ids : List ℕ) (t : Accept) : (World.abort ids t).port = t.port := by
  unfold World.abort
  split <;> rfl

theorem reroute_id (id : ℕ) (route : Option PoolRoute) (t : Accept) : (World.reroute id route t).id = t.id := by
  unfold World.reroute
  split <;> rfl

theorem reroute_port (id : ℕ) (route : Option PoolRoute) (t : Accept) : (World.reroute id route t).port = t.port := by
  unfold World.reroute
  split <;> rfl

theorem mem_dropped {desired : SortedMap ℕ Listener} {id : ℕ} :
    id ∈ w.dropped desired ↔ ∃ e ∈ w.bound.entries, World.keeps desired e = false ∧ e.2.accept = id := by
  simp [World.dropped, and_assoc]

/-- Closing aborts the tasks of the entries it drops, and no others. -/
theorem Attached.retain (h : Attached setup w.tasks w.bound) (hs : Sockets w.tasks nextId taken)
    (desired : SortedMap ℕ Listener) : Attached setup (w.retain desired).tasks (w.retain desired).bound := by
  have hkept : ∀ port b, w.bound.get port = some b → World.keeps desired (port, b) = true →
      b.accept ∉ w.dropped desired := by
    intro port b hb hkeeps hmem
    obtain ⟨e, he, hdrop, heq⟩ := mem_dropped.mp hmem
    have hport := h.same_port hs hb (SortedMap.get_of_mem he) heq.symm
    subst hport
    have hsame := SortedMap.get_of_mem he
    rw [hb, Option.some_inj] at hsame
    subst hsame
    rw [hkeeps] at hdrop
    cases hdrop
  constructor
  · intro t' ht' hrunning
    obtain ⟨t, ht, rfl⟩ := List.mem_map.mp ht'
    unfold World.abort at hrunning ⊢
    split at hrunning
    case isTrue => cases hrunning
    case isFalse hnot =>
      rw [if_neg hnot]
      obtain ⟨b, hb, haccept⟩ := h.known t ht hrunning
      refine ⟨b, ?_, haccept⟩
      rw [World.retain, SortedMap.get_filter_eq_some]
      refine ⟨hb, ?_⟩
      by_contra hdrop
      apply hnot
      rw [List.contains_iff_mem, mem_dropped]
      exact ⟨_, SortedMap.mem_of_get hb, by simpa using hdrop, haccept⟩
  · intro port b hget
    rw [World.retain, SortedMap.get_filter_eq_some] at hget
    obtain ⟨hb, hkeeps⟩ := hget
    obtain ⟨t, ht, hbelongs⟩ := h.open_ port b hb
    have hsame : World.abort (w.dropped desired) t = t := by
      unfold World.abort
      rw [if_neg]
      rw [List.contains_iff_mem, hbelongs.id]
      exact hkept port b hb hkeeps
    exact ⟨t, List.mem_map.mpr ⟨t, ht, hsame⟩, hbelongs⟩
  · intro port b hget
    exact h.family port b (SortedMap.get_filter_eq_some.mp hget).1
  · intro port b hget
    exact h.reserved port b (SortedMap.get_filter_eq_some.mp hget).1

theorem Attached.refresh (h : Attached setup w.tasks w.bound) (hs : Sockets w.tasks nextId taken) {port : ℕ}
    {b : Bound} (hb : w.bound.get port = some b) (plan : Listener) :
    Attached setup (w.refresh port plan b).tasks (w.refresh port plan b).bound := by
  unfold World.refresh
  split
  case isFalse => exact h
  case isTrue =>
    constructor
    · intro t' ht' hrunning
      obtain ⟨t, ht, rfl⟩ := List.mem_map.mp ht'
      have hold : t.aborted = false := by
        unfold World.reroute at hrunning
        split at hrunning <;> exact hrunning
      obtain ⟨b₀, hb₀, haccept⟩ := h.known t ht hold
      rw [reroute_id, reroute_port, SortedMap.get_insert]
      split
      case isTrue heq =>
        rw [heq, hb, Option.some_inj] at hb₀
        exact ⟨_, rfl, by rw [← haccept, ← hb₀]⟩
      case isFalse => exact ⟨b₀, hb₀, haccept⟩
    · intro port' b' hget
      rw [SortedMap.get_insert] at hget
      split at hget
      case isTrue heq =>
        cases hget
        obtain ⟨t, ht, hbelongs⟩ := h.open_ port b hb
        have hroute : World.reroute b.accept plan.route t = { t with route := plan.route } := if_pos hbelongs.id
        exact ⟨_, List.mem_map.mpr ⟨t, ht, hroute⟩, hbelongs.id, hbelongs.port.trans heq.symm, hbelongs.running,
          hbelongs.family, rfl⟩
      case isFalse hne =>
        obtain ⟨t, ht, hbelongs⟩ := h.open_ port' b' hget
        have hother : t.id ≠ b.accept := by
          intro heq
          exact hne (h.same_port hs hget hb (hbelongs.id.symm.trans heq))
        exact ⟨t, List.mem_map.mpr ⟨t, ht, if_neg hother⟩, hbelongs⟩
    · intro port' b' hget
      rw [SortedMap.get_insert] at hget
      split at hget
      case isTrue =>
        cases hget
        exact h.family port b hb
      case isFalse => exact h.family port' b' hget
    · intro port' b' hget
      rw [SortedMap.get_insert] at hget
      split at hget
      case isTrue heq =>
        rw [heq]
        exact h.reserved port b hb
      case isFalse => exact h.reserved port' b' hget

/-- A new socket comes with its entry. -/
theorem Attached.push (h : Attached setup tasks bound) {port : ℕ} {plan : Listener}
    (hfree : ∀ t ∈ tasks, t.port ≠ port) (hfamily : plan.family ∈ setup.families)
    (hreserved : setup.reserved ≠ some port) :
    Attached setup (tasks ++ [{ id := nextId, port, family := plan.family, route := plan.route }])
      (bound.insert port ⟨plan.family, plan.pools, plan.aliases, nextId⟩) := by
  constructor
  · intro t ht hrunning
    rw [SortedMap.get_insert]
    rcases List.mem_append.mp ht with hold | hnew
    · rw [if_neg (hfree t hold)]
      exact h.known t hold hrunning
    · rw [List.mem_singleton.mp hnew, if_pos rfl]
      exact ⟨_, rfl, rfl⟩
  · intro port' b' hget
    rw [SortedMap.get_insert] at hget
    split at hget
    case isTrue heq =>
      cases hget
      exact ⟨_, List.mem_append_right _ (List.mem_singleton_self _), rfl, heq.symm, rfl, rfl, rfl⟩
    case isFalse =>
      obtain ⟨t, ht, hbelongs⟩ := h.open_ port' b' hget
      exact ⟨t, List.mem_append_left _ ht, hbelongs⟩
  · intro port' b' hget
    rw [SortedMap.get_insert] at hget
    split at hget
    case isTrue =>
      cases hget
      exact hfamily
    case isFalse => exact h.family port' b' hget
  · intro port' b' hget
    rw [SortedMap.get_insert] at hget
    split at hget
    case isTrue heq => rwa [heq]
    case isFalse => exact h.reserved port' b' hget

theorem Attached.stop (h : Attached setup tasks bound) (id : ℕ) :
    Attached setup (tasks.filter fun t => !(t.id = id && t.aborted)) bound where
  known t ht hrunning := h.known t (List.mem_filter.mp ht).1 hrunning
  open_ port b hb := by
    obtain ⟨t, ht, hbelongs⟩ := h.open_ port b hb
    exact ⟨t, List.mem_filter.mpr ⟨ht, by simp [hbelongs.running]⟩, hbelongs⟩
  family := h.family
  reserved := h.reserved

/-! ## What a pass has done -/

/-- A port the pass is done with is bound for what the loaded state wants there, or is not to be had. -/
structure Done (setup : Setup) (loaded : State) (bound : SortedMap ℕ Bound) (refused : List ℕ) (port : ℕ) : Prop where
  right : ∀ b, bound.get port = some b → port ∉ refused ∧
    ∃ plan, loaded.listeners.get port = some plan ∧ b.family = plan.family ∧ b.pools = plan.pools ∧
      b.aliases = plan.aliases
  missing : bound.get port = none → ∀ plan, loaded.listeners.get port = some plan →
    plan.family ∉ setup.families ∨ setup.reserved = some port ∨ port ∈ refused

/-- The pass has loaded this state, and has these ports to go. -/
structure Pass (setup : Setup) (loaded : State) (rest : List (ℕ × Listener)) (bound : SortedMap ℕ Bound)
    (refused : List ℕ) : Prop where
  wanted : ∀ e ∈ rest, loaded.listeners.get e.1 = some e.2
  once : rest.Pairwise fun e e' => e.1 ≠ e'.1
  ahead : ∀ e ∈ rest, e.1 ∉ refused ∧ ∀ b, bound.get e.1 = some b → b.family = e.2.family
  behind : ∀ port, (∀ e ∈ rest, e.1 ≠ port) → Done setup loaded bound refused port

theorem pass_load (setup : Setup) (w : World) :
    Pass setup w.published w.published.listeners.entries w.load.bound w.load.refused where
  wanted e he := SortedMap.get_of_mem he
  once := w.published.listeners.sorted.imp fun hlt => ne_of_lt hlt
  ahead := by
    intro e he
    refine ⟨List.not_mem_nil, ?_⟩
    intro b hget
    obtain ⟨-, hkeeps⟩ := SortedMap.get_filter_eq_some.mp hget
    rw [World.keeps, SortedMap.get_of_mem he] at hkeeps
    have hsame : e.2.family = b.family := by simpa using hkeeps
    exact hsame.symm
  behind := by
    intro port hport
    have hnone : w.published.listeners.get port = none := by
      match hget : w.published.listeners.get port with
      | none => rfl
      | some plan => exact absurd rfl (hport _ (SortedMap.mem_of_get hget))
    constructor
    · intro b hget
      obtain ⟨-, hkeeps⟩ := SortedMap.get_filter_eq_some.mp hget
      rw [World.keeps, hnone] at hkeeps
      cases hkeeps
    · intro _ plan hplan
      rw [hnone] at hplan
      cases hplan

/-- All that coming to a port can do to the pooler's map: other ports stay as they are. -/
structure Reaches (setup : Setup) (w w' : World) (port : ℕ) (plan : Listener) : Prop where
  others : ∀ port', port' ≠ port → w'.bound.get port' = w.bound.get port'
  refused : ∀ port', port' ≠ port → (port' ∈ w'.refused ↔ port' ∈ w.refused)
  here : ∀ b, w'.bound.get port = some b → port ∉ w'.refused ∧ b.family = plan.family ∧ b.pools = plan.pools ∧
    b.aliases = plan.aliases
  missing : w'.bound.get port = none →
    plan.family ∉ setup.families ∨ setup.reserved = some port ∨ port ∈ w'.refused

theorem World.reach_reaches {port : ℕ} {plan : Listener} (hrefused : port ∉ w.refused)
    (hfamily : ∀ b, w.bound.get port = some b → b.family = plan.family)
    (hprompt : w.bound.get port = none → setup.reserved ≠ some port → plan.family ∈ setup.families →
      w.holds port = false) : Reaches setup w (w.reach setup port plan) port plan := by
  unfold World.reach
  split
  case h_1 b hb =>
    unfold World.refresh
    split
    case isTrue =>
      constructor
      · intro port' hne
        rw [SortedMap.get_insert, if_neg hne]
      · exact fun _ _ => Iff.rfl
      · intro b' hb'
        rw [SortedMap.get_insert, if_pos rfl] at hb'
        cases hb'
        exact ⟨hrefused, hfamily b hb, rfl, rfl⟩
      · intro hnone
        rw [SortedMap.get_insert, if_pos rfl] at hnone
        cases hnone
    case isFalse hsame =>
      push Not at hsame
      refine ⟨fun _ _ => rfl, fun _ _ => Iff.rfl, ?_, ?_⟩
      · intro b' hb'
        rw [hb, Option.some_inj] at hb'
        subst hb'
        exact ⟨hrefused, hfamily b hb, hsame.1, hsame.2⟩
      · intro hnone
        rw [hb] at hnone
        cases hnone
  case h_2 hnone =>
    have hnothing : ∀ b, w.bound.get port = some b → False := by
      intro b hb
      rw [hnone] at hb
      cases hb
    split
    case isTrue hreserved =>
      exact ⟨fun _ _ => rfl, fun _ _ => Iff.rfl, fun b hb => (hnothing b hb).elim, fun _ => .inr (.inl hreserved)⟩
    case isFalse hreserved =>
      split
      case isTrue hdriver =>
        have hno : plan.family ∉ setup.families := by simpa using hdriver
        exact ⟨fun _ _ => rfl, fun _ _ => Iff.rfl, fun b hb => (hnothing b hb).elim, fun _ => .inl hno⟩
      case isFalse hdriver =>
        have hyes : plan.family ∈ setup.families := by simpa using hdriver
        unfold World.bind
        rw [hprompt hnone hreserved hyes, if_neg Bool.false_ne_true]
        split
        case isTrue =>
          refine ⟨fun _ _ => rfl, ?_, fun b hb => (hnothing b hb).elim, fun _ => .inr (.inr List.mem_cons_self)⟩
          intro port' hne
          rw [List.mem_cons]
          exact or_iff_right hne
        case isFalse =>
          constructor
          · intro port' hne
            rw [SortedMap.get_insert, if_neg hne]
          · exact fun _ _ => Iff.rfl
          · intro b hb
            rw [SortedMap.get_insert, if_pos rfl] at hb
            cases hb
            exact ⟨hrefused, rfl, rfl, rfl⟩
          · intro hmissing
            rw [SortedMap.get_insert, if_pos rfl] at hmissing
            cases hmissing

/-- A step of the pass. -/
theorem Pass.next {loaded : State} {port : ℕ} {plan : Listener} {rest : List (ℕ × Listener)} {w' : World}
    (h : Pass setup loaded ((port, plan) :: rest) w.bound w.refused) (hreaches : Reaches setup w w' port plan) :
    Pass setup loaded rest w'.bound w'.refused := by
  obtain ⟨hfirst, honce⟩ := List.pairwise_cons.mp h.once
  constructor
  · exact fun e he => h.wanted e (List.mem_cons_of_mem _ he)
  · exact honce
  · intro e he
    have hne : e.1 ≠ port := (hfirst e he).symm
    obtain ⟨hrefused, hfamily⟩ := h.ahead e (List.mem_cons_of_mem _ he)
    rw [hreaches.refused _ hne, hreaches.others _ hne]
    exact ⟨hrefused, hfamily⟩
  · intro port' hport'
    by_cases heq : port' = port
    · subst heq
      have hwanted := h.wanted _ List.mem_cons_self
      constructor
      · intro b hb
        obtain ⟨hrefused, hsame⟩ := hreaches.here b hb
        exact ⟨hrefused, plan, hwanted, hsame⟩
      · intro hnone plan' hplan'
        rw [hwanted, Option.some_inj] at hplan'
        subst hplan'
        exact hreaches.missing hnone
    · have hdone := h.behind port' (by
        intro e he
        rcases List.mem_cons.mp he with rfl | hrest
        · exact Ne.symm heq
        · exact hport' e hrest)
      constructor
      · intro b hb
        rw [hreaches.others _ heq] at hb
        rw [hreaches.refused _ heq]
        exact hdone.right b hb
      · intro hnone plan' hplan'
        rw [hreaches.others _ heq] at hnone
        rw [hreaches.refused _ heq]
        exact hdone.missing hnone plan' hplan'

/-! ## Whole runs -/

/-- The ports the pass has to go. -/
def Phase.rest : Phase → List (ℕ × Listener)
  | .binding rest => rest
  | _ => []

/-- What every step keeps. -/
structure Keeps (setup : Setup) (w : World) : Prop where
  sockets : Sockets w.tasks w.nextId w.taken
  attached : Attached setup w.tasks w.bound
  /-- The last pass was made for the published state, if nothing has changed since. -/
  pass : w.phase ≠ .start → ∃ loaded, Pass setup loaded w.phase.rest w.bound w.refused ∧
    (w.bumping = false → w.changed = false → w.published = loaded)

theorem Keeps.load (h : Keeps setup w) : Keeps setup w.load where
  sockets := h.sockets.map (abort_id _) (abort_port _)
  attached := h.attached.retain h.sockets _
  pass _ := ⟨w.published, pass_load setup w, fun _ _ => rfl⟩

theorem World.reach_sockets {port : ℕ} {plan : Listener} (h : Sockets w.tasks w.nextId w.taken) :
    Sockets (w.reach setup port plan).tasks (w.reach setup port plan).nextId (w.reach setup port plan).taken := by
  unfold World.reach
  split
  case h_1 b _ =>
    unfold World.refresh
    split
    · exact h.map (reroute_id _ _) (reroute_port _ _)
    · exact h
  case h_2 =>
    split
    · exact h
    · split
      · exact h
      · unfold World.bind
        split
        case isTrue => exact h
        case isFalse hfree =>
          split
          case isTrue => exact h
          case isFalse htaken =>
            apply h.push rfl
            · exact holds_eq_false.mp (by simpa using hfree)
            · simpa using htaken

theorem World.reach_attached {port : ℕ} {plan : Listener} (hs : Sockets w.tasks w.nextId w.taken)
    (h : Attached setup w.tasks w.bound) :
    Attached setup (w.reach setup port plan).tasks (w.reach setup port plan).bound := by
  unfold World.reach
  split
  case h_1 b hb => exact h.refresh hs hb plan
  case h_2 =>
    split
    case isTrue => exact h
    case isFalse hreserved =>
      split
      case isTrue => exact h
      case isFalse hdriver =>
        unfold World.bind
        split
        case isTrue => exact h
        case isFalse hfree =>
          split
          case isTrue => exact h
          case isFalse =>
            apply h.push
            · exact holds_eq_false.mp (by simpa using hfree)
            · simpa using hdriver
            · exact hreserved

theorem World.reach_published (setup : Setup) (w : World) (port : ℕ) (plan : Listener) :
    (w.reach setup port plan).published = w.published ∧ (w.reach setup port plan).bumping = w.bumping ∧
      (w.reach setup port plan).changed = w.changed := by
  unfold World.reach World.refresh World.bind
  repeat' split
  all_goals exact ⟨rfl, rfl, rfl⟩

theorem step_keeps {e : Event} (h : Keeps setup w) (hprompt : Prompt setup w e) : Keeps setup (step setup w e) := by
  cases e with
  | publish s =>
      simp only [step]
      split
      case isTrue => exact h
      case isFalse =>
        refine ⟨h.sockets, h.attached, ?_⟩
        intro hphase
        obtain ⟨loaded, hpass, -⟩ := h.pass hphase
        exact ⟨loaded, hpass, fun hbumping => by cases hbumping⟩
  | bump =>
      simp only [step]
      split
      case isTrue =>
        refine ⟨h.sockets, h.attached, ?_⟩
        intro hphase
        obtain ⟨loaded, hpass, -⟩ := h.pass hphase
        exact ⟨loaded, hpass, fun _ hchanged => by cases hchanged⟩
      case isFalse => exact h
  | load =>
      simp only [step]
      split
      case h_1 => exact h.load
      case h_2 =>
        split
        case isTrue => exact ⟨h.load.sockets, h.load.attached, fun _ => ⟨w.published, pass_load setup w, fun _ _ => rfl⟩⟩
        case isFalse => exact h
      case h_3 => exact h
  | next =>
      simp only [step]
      split
      case h_1 port plan rest hphase =>
        refine ⟨World.reach_sockets h.sockets, World.reach_attached h.sockets h.attached, ?_⟩
        intro _
        obtain ⟨loaded, hpass, hpublished⟩ := h.pass (by rw [hphase]; exact Phase.noConfusion)
        rw [hphase] at hpass
        obtain ⟨hrefused, hfamily⟩ := hpass.ahead (port, plan) List.mem_cons_self
        have hfree : w.bound.get port = none → setup.reserved ≠ some port → plan.family ∈ setup.families →
            w.holds port = false := by
          simpa only [Prompt, hphase] using hprompt
        obtain ⟨hsame, hbumping, hchanged⟩ := World.reach_published setup w port plan
        have hreaches := World.reach_reaches hrefused hfamily hfree
        have hnext : Pass setup loaded rest (w.reach setup port plan).bound (w.reach setup port plan).refused :=
          Pass.next hpass hreaches
        refine ⟨loaded, hnext, ?_⟩
        simp only [hsame, hbumping, hchanged]
        exact hpublished
      case h_2 hphase =>
        refine ⟨h.sockets, h.attached, ?_⟩
        intro _
        have hpass := h.pass (by rw [hphase]; exact Phase.noConfusion)
        rwa [hphase] at hpass
      case h_3 => exact h
  | stop id =>
      refine ⟨h.sockets.sublist fun t ht => (List.mem_filter.mp ht).1, h.attached.stop id, h.pass⟩
  | take port =>
      simp only [step]
      split
      case isTrue => exact h
      case isFalse hfree =>
        refine ⟨h.sockets.take ?_, h.attached, h.pass⟩
        apply holds_eq_false.mp
        simp only [Bool.or_eq_true, not_or, Bool.not_eq_true] at hfree
        exact hfree.1
  | giveBack port => exact ⟨h.sockets.giveBack port, h.attached, h.pass⟩

/-- A process that has just started, among others that hold some ports. -/
def World.starting (s : State) (taken : List ℕ) : World := { published := s, taken }

theorem starting_keeps (setup : Setup) (s : State) (taken : List ℕ) : Keeps setup (World.starting s taken) := by
  have hbound : ∀ port b, (World.starting s taken).bound.get port ≠ some b := by
    intro port b hb
    cases hb
  constructor
  · constructor <;> exact fun t ht => absurd ht List.not_mem_nil
  · constructor
    · exact fun t ht => absurd ht List.not_mem_nil
    · exact fun port b hb => absurd hb (hbound port b)
    · exact fun port b hb => absurd hb (hbound port b)
    · exact fun port b hb => absurd hb (hbound port b)
  · exact fun hphase => absurd rfl hphase

/-- At rest the open sockets are those that are wanted. -/
theorem Keeps.converged (h : Keeps setup w) (hsettled : Settled w) : Converged setup w := by
  obtain ⟨loaded, hpass, hpublished⟩ := h.pass (by rw [hsettled.phase]; exact Phase.noConfusion)
  rw [hsettled.phase] at hpass
  obtain rfl := hpublished hsettled.bumping hsettled.changed
  have hdone : ∀ port, Done setup w.published w.bound w.refused port := fun port =>
    hpass.behind port fun e he => absurd he List.not_mem_nil
  constructor
  · intro port
    constructor
    · rintro ⟨t, ht, rfl⟩
      obtain ⟨b, hb, -⟩ := h.attached.known t ht (hsettled.stopped t ht)
      obtain ⟨hrefused, plan, hplan, hfamily, -⟩ := (hdone t.port).right b hb
      exact ⟨plan, hplan, hfamily ▸ h.attached.family t.port b hb, h.attached.reserved t.port b hb, hrefused⟩
    · rintro ⟨plan, hplan, hfamily, hreserved, hrefused⟩
      match hget : w.bound.get port with
      | none =>
          obtain hno | hno | hno := (hdone port).missing hget plan hplan
          · exact absurd hfamily hno
          · exact absurd hno hreserved
          · exact absurd hno hrefused
      | some b =>
          obtain ⟨t, ht, hbelongs⟩ := h.attached.open_ port b hget
          exact ⟨t, ht, hbelongs.port⟩
  · exact h.sockets.ports
  · exact h.sockets.notTaken
  · intro t ht
    obtain ⟨b, hb, haccept⟩ := h.attached.known t ht (hsettled.stopped t ht)
    obtain ⟨-, plan, hplan, hfamily, hpools, haliases⟩ := (hdone t.port).right b hb
    obtain ⟨t', ht', hbelongs⟩ := h.attached.open_ t.port b hb
    have hsame : t' = t := h.sockets.ports t' ht' t ht hbelongs.port
    subst hsame
    obtain ⟨route, hroute, hroutes⟩ := State.listeners_route hplan
    refine ⟨plan, route, hplan, hbelongs.family.trans hfamily, ?_, hroutes⟩
    rw [hbelongs.route, hpools, haliases]
    exact hroute

/-- Whatever is published and however late an aborted task stops: if the pooler never finds its own task on a port it
comes to bind, the bound ports are those of the last state when everything is at rest. -/
theorem ports_converge (setup : Setup) (s : State) (taken : List ℕ) (events : List Event)
    (hprompt : Along (step setup) (Prompt setup) (World.starting s taken) events)
    (hsettled : Settled (run (step setup) (World.starting s taken) events)) :
    Converged setup (run (step setup) (World.starting s taken) events) := by
  have hkeeps := hprompt.invariant (fun _ _ h ok => step_keeps h ok) (starting_keeps setup s taken)
  exact hkeeps.converged hsettled

/-! ## It comes to rest -/

/-- A step that nobody else has to make. -/
def Event.isOwn : Event → Bool
  | .bump => true
  | .load => true
  | .next => true
  | .stop _ => true
  | _ => false

/-- Without anybody else doing anything, a world with this property can come about. -/
def Ends (setup : Setup) (w : World) (P : World → Prop) : Prop :=
  ∃ events, events.all Event.isOwn = true ∧ P (run (step setup) w events)

theorem Ends.trans {P Q : World → Prop} (h : Ends setup w P) (hnext : ∀ w', P w' → Ends setup w' Q) :
    Ends setup w Q := by
  obtain ⟨events, hown, hend⟩ := h
  obtain ⟨events', hown', hend'⟩ := hnext _ hend
  refine ⟨events ++ events', by rw [List.all_append, hown, hown']; rfl, ?_⟩
  rwa [Lib.run_append]

theorem Ends.step {P : World → Prop} (e : Event) (hown : e.isOwn = true) (h : P (step setup w e)) : Ends setup w P :=
  ⟨[e], by simp [hown], h⟩

/-- The pass comes to its end. -/
theorem pass_ends (rest : List (ℕ × Listener)) (w : World) (hphase : w.phase = .binding rest) :
    Ends setup w fun w' => w'.phase = .waiting ∧ w'.bumping = w.bumping ∧ w'.changed = w.changed := by
  induction rest generalizing w with
  | nil =>
      apply Ends.step .next rfl
      simp only [Pooler.step, hphase, and_self]
  | cons e rest ih =>
      obtain ⟨port, plan⟩ := e
      obtain ⟨-, hbumping, hchanged⟩ := World.reach_published setup w port plan
      have hstep : Ends setup w fun w' => w'.phase = .binding rest ∧ w'.bumping = w.bumping ∧ w'.changed = w.changed := by
        apply Ends.step .next rfl
        simp only [Pooler.step, hphase]
        exact ⟨trivial, hbumping, hchanged⟩
      apply hstep.trans
      rintro w' ⟨hphase', hbumping', hchanged'⟩
      rw [← hbumping', ← hchanged']
      exact ih w' hphase'

/-- Every aborted task stops. -/
theorem tasks_stop (setup : Setup) (ids : List ℕ) (w : World) :
    run (step setup) w (ids.map Event.stop) =
      { w with tasks := w.tasks.filter fun t => !(ids.contains t.id && t.aborted) } := by
  induction ids generalizing w with
  | nil => simp
  | cons id ids ih =>
      rw [List.map_cons, Lib.run_cons, ih]
      simp only [step, List.filter_filter]
      congr 2
      funext t
      cases t.aborted <;> simp [eq_comm, Bool.and_comm]

/-- Whatever has happened, the pooler and its tasks can come to rest without anything else happening. -/
theorem settles (setup : Setup) (w : World) : Ends setup w (Settled) := by
  -- what is published becomes known
  have hbump : Ends setup w fun w' => w'.bumping = false := by
    apply Ends.step .bump rfl
    simp only [step]
    split
    case isTrue => rfl
    case isFalse hnot => simpa using hnot
  apply hbump.trans
  intro w₁ hbumping₁
  -- the pass under way, or the first one, ends
  have hwaits : Ends setup w₁ fun w' => w'.phase = .waiting ∧ w'.bumping = false := by
    match hphase : w₁.phase with
    | .waiting => exact ⟨[], rfl, hphase, hbumping₁⟩
    | .binding rest =>
        apply (pass_ends rest w₁ hphase).trans
        rintro w' ⟨hphase', hbumping', -⟩
        exact ⟨[], rfl, hphase', hbumping'.trans hbumping₁⟩
    | .start =>
        have hload : Ends setup w₁ fun w' => w'.phase = .binding w₁.published.listeners.entries ∧ w'.bumping = false := by
          apply Ends.step .load rfl
          simp only [step, hphase]
          exact ⟨rfl, hbumping₁⟩
        apply hload.trans
        rintro w' ⟨hphase', hbumping'⟩
        apply (pass_ends _ w' hphase').trans
        rintro w'' ⟨hphase'', hbumping'', -⟩
        exact ⟨[], rfl, hphase'', hbumping''.trans hbumping'⟩
  apply hwaits.trans
  rintro w₂ ⟨hphase₂, hbumping₂⟩
  -- one more pass for what has changed in the meantime
  have hseen : Ends setup w₂ fun w' => w'.phase = .waiting ∧ w'.bumping = false ∧ w'.changed = false := by
    match hchanged : w₂.changed with
    | false => exact ⟨[], rfl, hphase₂, hbumping₂, hchanged⟩
    | true =>
        have hload : Ends setup w₂ fun w' => w'.phase = .binding w₂.published.listeners.entries ∧
            w'.bumping = false ∧ w'.changed = false := by
          apply Ends.step .load rfl
          simp only [step, hphase₂, hchanged, if_true]
          exact ⟨rfl, hbumping₂, trivial⟩
        apply hload.trans
        rintro w' ⟨hphase', hbumping', hchanged'⟩
        apply (pass_ends _ w' hphase').trans
        rintro w'' ⟨hphase'', hbumping'', hchanged''⟩
        exact ⟨[], rfl, hphase'', hbumping''.trans hbumping', hchanged''.trans hchanged'⟩
  apply hseen.trans
  rintro w₃ ⟨hphase₃, hbumping₃, hchanged₃⟩
  refine ⟨(w₃.tasks.map Accept.id).map Event.stop, by simp [Event.isOwn], ?_⟩
  rw [tasks_stop]
  refine ⟨hphase₃, hbumping₃, hchanged₃, ?_⟩
  intro t ht
  obtain ⟨hmem, hkept⟩ := List.mem_filter.mp ht
  have hid : t.id ∈ w₃.tasks.map Accept.id := List.mem_map_of_mem hmem
  simpa [List.contains_iff_mem, hid] using hkept

/-! ## Paused and resumed -/

/-- One pool, paused or not. -/
def onePool (disabled : Bool) : State :=
  { State.default with
    pools := SortedMap.empty.insert ['p']
      { family := "postgres".toList
        mode := .transaction
        targets := [{ host := "db".toList, port := 5432 }]
        listenPort := 6432
        aliases := [['q']]
        disabled } }

def ours : Setup := { reserved := some 8080, families := ["jdbc".toList, "postgres".toList] }

/-- The pool is bound, paused, and its port closed. -/
def paused : List Event :=
  [.load, .next, .next, .publish (onePool true), .bump, .load, .next]

/-- It is resumed. -/
def resumed : List Event := [.publish (onePool false), .bump, .load, .next, .next]

/-- Its task has stopped by then. -/
theorem ports_converge_resumed :
    Converged ours (run (step ours) (World.starting (onePool false) [5432]) (paused ++ .stop 0 :: resumed)) :=
  ports_converge ours (onePool false) [5432] _ (by decide) (by decide)

/-- Its task has not, and the port stays closed. -/
theorem not_ports_converge :
    ¬ ∀ events, Settled (run (step ours) (World.starting (onePool false) []) events) →
      Converged ours (run (step ours) (World.starting (onePool false) []) events) := by
  intro h
  have hconverged := h (paused ++ resumed ++ [.stop 0]) (by decide)
  have hclosed : (run (step ours) (World.starting (onePool false) []) (paused ++ resumed ++ [.stop 0])).tasks = [] := by
    decide
  have hwanted : ∃ plan, (onePool false).listeners.get 6432 = some plan ∧ plan.family ∈ ours.families ∧
      ours.reserved ≠ some 6432 ∧ 6432 ∉ ([] : List ℕ) :=
    ⟨⟨6432, "postgres".toList, [['p']], [(['q'], ['p'])]⟩, by decide⟩
  obtain ⟨t, ht, -⟩ := (hconverged.ports 6432).mpr hwanted
  rw [hclosed] at ht
  cases ht

end Havuz.Pooler
