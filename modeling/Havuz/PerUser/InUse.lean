import Havuz.PerUser.Model

/-!
# A group in use is not swept

The sweeper reads who has a session before it locks the groups, and a client is given its group before it
has a session or a connection. A client that comes in between has a group nothing speaks for. `Careful`
excludes that, and then nobody is given a group that is swept while they have it (`Sound`).
-/

namespace Havuz.PerUser

open Lib

/-! ## What a change does to the groups -/

/-- The group is still the same one, and a change that drains it is not a sweep. -/
structure Group.Kept (G G' : Group) : Prop where
  pool : G'.pool = G.pool
  user : G'.user = G.user
  open_ : G'.drained = none → G.drained = none
  swept : G'.drained = some .swept → G.drained = some .swept

theorem Group.Kept.refl (G : Group) : Group.Kept G G := ⟨rfl, rfl, id, id⟩

theorem Group.kept_drain (G : Group) : Group.Kept G (G.drain .replaced) where
  pool := rfl
  user := rfl
  open_ h := by
    have hdrained : G.drained.or (some .replaced) = none := h
    simp at hdrained
  swept h := by
    have hdrained : G.drained.or (some .replaced) = some .swept := h
    cases hG : G.drained with
    | none => simp [hG] at hdrained
    | some cause => simpa [hG] using hdrained

namespace Shared

variable {sh : Shared} {f : Group → Group} {pool user fingerprint : Text} {g i : ℕ} {G G' : Group}

theorem modify_cases (h : (sh.modify g f).groups[i]? = some G') :
    (i = g ∧ ∃ G, sh.groups[i]? = some G ∧ G' = f G) ∨ (i ≠ g ∧ sh.groups[i]? = some G') := by
  rw [modify, List.getElem?_modify] at h
  obtain ⟨G, hG, heq⟩ := Option.map_eq_some_iff.mp h
  by_cases hig : g = i
  · rw [if_pos hig] at heq
    exact .inl ⟨hig.symm, G, hG, heq.symm⟩
  · rw [if_neg hig] at heq
    exact .inr ⟨Ne.symm hig, hG.trans (congrArg some heq)⟩

theorem getElem?_modify (hG : sh.groups[i]? = some G) :
    (sh.modify g f).groups[i]? = some (if i = g then f G else G) := by
  rw [modify, List.getElem?_modify, hG]
  by_cases hig : i = g
  · simp [hig]
  · simp [hig, Ne.symm hig]

/-- The group is there under its key, and no sweep has drained it. -/
def Given (sh : Shared) (pool user : Text) (g : ℕ) : Prop :=
  ∃ G, sh.groups[g]? = some G ∧ G.pool = pool ∧ G.user = user ∧ G.drained ≠ some .swept

theorem Given.modify (h : sh.Given pool user i) (hkept : ∀ G, Group.Kept G (f G)) :
    (sh.modify g f).Given pool user i := by
  obtain ⟨G, hG, hpool, huser, hswept⟩ := h
  refine ⟨_, getElem?_modify hG, ?_⟩
  split
  · exact ⟨(hkept G).pool.trans hpool, (hkept G).user.trans huser, fun h => hswept ((hkept G).swept h)⟩
  · exact ⟨hpool, huser, hswept⟩

theorem Given.retire (h : sh.Given pool user i) (pool' user' : Text) : (sh.retire pool' user').Given pool user i := by
  unfold Shared.retire
  split
  · exact h.modify Group.kept_drain
  · exact h

theorem Given.insert (h : sh.Given pool user i) (pool' user' : Text) :
    (sh.insert pool' user' fingerprint).Given pool user i := by
  obtain ⟨G, hG, hkey⟩ := h
  refine ⟨G, ?_, hkey⟩
  rw [Shared.insert, List.getElem?_append_left (List.getElem?_eq_some_iff.mp hG).1, hG]

theorem given_insert_self : (sh.insert pool user fingerprint).Given pool user sh.groups.length :=
  ⟨_, by rw [Shared.insert, List.getElem?_concat_length], rfl, rfl, by simp⟩

theorem getElem?_sweep {live : List Text} (hG : sh.groups[i]? = some G) :
    (sh.sweep pool live).groups[i]? = some (if i ∈ sh.swept pool live then G.drain .swept else G) := by
  rw [sweep, List.getElem?_mapIdx, hG, Option.map_some]

theorem sweep_cases {live : List Text} (h : (sh.sweep pool live).groups[i]? = some G') :
    ∃ G, sh.groups[i]? = some G ∧ G' = if i ∈ sh.swept pool live then G.drain .swept else G := by
  rw [sweep, List.getElem?_mapIdx] at h
  obtain ⟨G, hG, heq⟩ := Option.map_eq_some_iff.mp h
  exact ⟨G, hG, heq.symm⟩

theorem Given.sweep {live : List Text} {pool' : Text} (h : sh.Given pool user i) (hkeep : i ∉ sh.swept pool' live) :
    (sh.sweep pool' live).Given pool user i := by
  obtain ⟨G, hG, hkey⟩ := h
  refine ⟨_, getElem?_sweep hG, ?_⟩
  rw [if_neg hkeep]
  exact hkey

/-- A group that is swept is listed under a user of that pool who has no session. -/
theorem of_mem_swept {live : List Text} (h : g ∈ sh.swept pool live) :
    ∃ user, sh.held pool user = some g ∧ user ∉ live := by
  obtain ⟨e, he, rfl⟩ := List.mem_map.mp h
  obtain ⟨hmem, hidle⟩ := List.mem_filter.mp he
  rw [Bool.and_eq_true, Bool.and_eq_true, decide_eq_true_eq] at hidle
  obtain ⟨⟨hpool, hlive⟩, -⟩ := hidle
  refine ⟨(ofLex e.1).2, ?_, by simpa using hlive⟩
  have hkey : toLex (pool, (ofLex e.1).2) = e.1 := by rw [← hpool]; rfl
  rw [held, hkey]
  exact SortedMap.get_of_mem hmem

end Shared

/-! ## The groups themselves -/

/-- What holds of the groups, whoever has them: the map lists groups under their own keys, it lists every
group that is not drained, and the sweeper knows no later sessions than there are. -/
structure Tidy (sh : Shared) : Prop where
  held : ∀ pool user g, sh.held pool user = some g → sh.Given pool user g
  listed : ∀ g G, sh.groups[g]? = some G → G.drained = none → sh.held G.pool G.user = some g
  looked : ∀ pool live upTo, sh.sweeper = .looked pool live upTo → upTo ≤ sh.nextId

namespace Tidy

variable {sh : Shared} {f : Group → Group} {pool user fingerprint : Text} {g : ℕ} {live : List Text}

theorem modify (h : Tidy sh) (hkept : ∀ G, Group.Kept G (f G)) : Tidy (sh.modify g f) where
  held pool user i hi := (h.held pool user i hi).modify hkept
  listed i G' hG' hopen := by
    obtain ⟨-, G, hG, rfl⟩ | ⟨-, hG⟩ := Shared.modify_cases hG'
    · rw [(hkept G).pool, (hkept G).user]
      exact h.listed i G hG ((hkept G).open_ hopen)
    · exact h.listed i G' hG hopen
  looked := h.looked

theorem retire (h : Tidy sh) (pool user : Text) : Tidy (sh.retire pool user) := by
  unfold Shared.retire
  split
  · exact h.modify Group.kept_drain
  · exact h

/-- Once it is retired, the group of this user hands out nothing any more. -/
theorem retired (h : Tidy sh) {G' : Group} (hG' : (sh.retire pool user).groups[g]? = some G')
    (hpool : G'.pool = pool) (huser : G'.user = user) : G'.drained ≠ none := by
  intro hopen
  unfold Shared.retire at hG'
  split at hG'
  case h_1 g₀ hheld =>
    obtain ⟨-, G, hG, rfl⟩ | ⟨hne, hG⟩ := Shared.modify_cases hG'
    · have hdrained : G.drained.or (some .replaced) = none := hopen
      simp at hdrained
    · have hlisted := h.listed g G' hG hopen
      rw [hpool, huser, hheld, Option.some_inj] at hlisted
      exact hne hlisted.symm
  case h_2 hheld =>
    have hlisted := h.listed g G' hG' hopen
    rw [hpool, huser, hheld] at hlisted
    cases hlisted

theorem insert (h : Tidy sh)
    (hnone : ∀ (g : ℕ) (G : Group), sh.groups[g]? = some G → G.pool = pool → G.user = user → G.drained ≠ none) :
    Tidy (sh.insert pool user fingerprint) where
  held pool' user' i hi := by
    rw [Shared.held, Shared.insert, SortedMap.get_insert] at hi
    split at hi
    case isTrue hkey =>
      obtain ⟨rfl, rfl⟩ := Prod.mk.inj (toLex.injective hkey)
      obtain rfl := Option.some.inj hi
      exact Shared.given_insert_self
    case isFalse => exact (h.held pool' user' i hi).insert pool user
  listed i G hG hopen := by
    rw [Shared.held, Shared.insert, SortedMap.get_insert]
    rw [Shared.insert, List.getElem?_append] at hG
    split at hG
    case isTrue =>
      rw [if_neg]
      · exact h.listed i G hG hopen
      · intro hkey
        obtain ⟨hpool, huser⟩ := Prod.mk.inj (toLex.injective hkey)
        exact hnone i G hG hpool huser hopen
    case isFalse hlt =>
      obtain ⟨hi, rfl⟩ := List.getElem?_eq_some_iff.mp hG
      have hlast : i = sh.groups.length := by
        rw [List.length_singleton] at hi
        omega
      subst hlast
      simp
  looked := h.looked

theorem sweep (h : Tidy sh) : Tidy (sh.sweep pool live) where
  held pool' user' i hi := by
    obtain ⟨hget, hkeep⟩ := SortedMap.get_filter_eq_some.mp hi
    exact (h.held pool' user' i hget).sweep (by simpa using hkeep)
  listed i G' hG' hopen := by
    obtain ⟨G, hG, heq⟩ := Shared.sweep_cases hG'
    split at heq
    case isTrue =>
      have hdrained : G.drained.or (some .swept) = none := by
        rw [heq] at hopen
        exact hopen
      simp at hdrained
    case isFalse hkeep =>
      subst heq
      exact SortedMap.get_filter_eq_some.mpr ⟨h.listed i G' hG hopen, by simpa using hkeep⟩
  looked := by
    intro pool live upTo hlooked
    cases hlooked

/-- No two groups of one user hand out connections. -/
theorem unique (h : Tidy sh) {g₁ g₂ : ℕ} {G₁ G₂ : Group} (h₁ : sh.groups[g₁]? = some G₁)
    (h₂ : sh.groups[g₂]? = some G₂) (hopen₁ : G₁.drained = none) (hopen₂ : G₂.drained = none)
    (hpool : G₁.pool = G₂.pool) (huser : G₁.user = G₂.user) : g₁ = g₂ := by
  have hlisted := h.listed g₁ G₁ h₁ hopen₁
  rw [hpool, huser, h.listed g₂ G₂ h₂ hopen₂] at hlisted
  exact (Option.some.inj hlisted).symm

end Tidy

/-! ## What a client can do -/

/-- What a client does to the group it is acquiring from or has a checkout of. -/
inductive Turn (sh : Shared) (max g id : ℕ) : Pc → (Group → Group) → Pc → Prop
  | take (target : ℕ) (hroom : ((sh.groups[g]?).map fun G => G.out.count target).getD 0 < max) :
      Turn sh max g id (.waiting g id)
        (fun G => { G with idle := G.idle.erase target, out := target :: G.out }) (.coming g id target)
  | retry (target : ℕ) :
      Turn sh max g id (.coming g id target) (fun G => { G with idle := G.idle.erase target }) (.coming g id target)
  | counted (target : ℕ) :
      Turn sh max g id (.coming g id target) (fun G => { G with active := G.active + 1 }) (.serving g id target)
  | giveUp (target : ℕ) :
      Turn sh max g id (.coming g id target) (fun G => { G with out := G.out.erase target })
        (.registered (some g) id)
  | drop (target : ℕ) :
      Turn sh max g id (.serving g id target) (fun G => { G with active := G.active - 1 }) (.returning g id target)
  | giveBack (target : ℕ) (keep : Bool) :
      Turn sh max g id (.shelving g id target keep)
        (fun G => { G with idle := if keep then target :: G.idle else G.idle, out := G.out.erase target })
        (.registered (some g) id)

section Turn

variable {sh : Shared} {max g id : ℕ} {pc pc' : Pc} {f : Group → Group}

theorem Turn.kept (h : Turn sh max g id pc f pc') (G : Group) : Group.Kept G (f G) := by
  cases h <;> exact ⟨rfl, rfl, fun hG => hG, fun hG => hG⟩

theorem Turn.group (h : Turn sh max g id pc f pc') : pc.group = some g ∧ pc'.group = some g := by
  cases h <;> exact ⟨rfl, rfl⟩

theorem Turn.session (h : Turn sh max g id pc f pc') : pc.session = some id ∧ pc'.session = some id := by
  cases h <;> exact ⟨rfl, rfl⟩

theorem Turn.busy (h : Turn sh max g id pc f pc') : pc.busy = some g ∧ (pc'.busy = none ∨ pc'.busy = some g) := by
  cases h <;> first | exact ⟨rfl, .inl rfl⟩ | exact ⟨rfl, .inr rfl⟩

end Turn

/-- What a step of a client can be. -/
inductive Course (maxSize : Text → ℕ) (sh : Shared) (c : Client) : Move → Shared → Client → Prop
  /-- It moves on its own. The group it is given, if any, is the listed one. -/
  | goes (m : Move) (pc : Pc) (hsession : ∀ id ∈ pc.session, id ∈ c.pc.session)
      (hgroup : ∀ g ∈ pc.group, g ∈ c.pc.group ∨ sh.held c.pool c.user = some g)
      (hpermit : pc.permit = c.pc.permit)
      (hbusy : ∀ g ∈ pc.busy, g ∈ c.pc.busy ∨ (sh.groups[g]?).bind Group.drained = none) :
      Course maxSize sh c m sh { c with pc }
  | turns (m : Move) (g id : ℕ) (f : Group → Group) (pc : Pc) (hturn : Turn sh (maxSize c.pool) g id c.pc f pc) :
      Course maxSize sh c m (sh.modify g f) { c with pc }
  | retires (ok : Bool) (fingerprint : Text) (hpc : c.pc = .missed) (hfingerprint : c.fingerprint = some fingerprint)
      (hfound : sh.found c.pool c.user fingerprint = none) :
      Course maxSize sh c (.build ok) (sh.retire c.pool c.user) { c with pc := .ended }
  | builds (ok : Bool) (fingerprint : Text) (hpc : c.pc = .missed) (hfingerprint : c.fingerprint = some fingerprint)
      (hfound : sh.found c.pool c.user fingerprint = none) :
      Course maxSize sh c (.build ok) ((sh.retire c.pool c.user).insert c.pool c.user fingerprint)
        { c with pc := .grouped (some sh.groups.length) }
  | registers (m : Move) (g : Option ℕ) (hpc : c.pc = .grouped g) :
      Course maxSize sh c m (sh.register c.pool c.user) { c with pc := .registered g sh.nextId }
  | leaves (m : Move) (g : Option ℕ) (id : ℕ) (hpc : c.pc = .registered g id) :
      Course maxSize sh c m (sh.deregister id) { c with pc := .ended }

section

variable {maxSize : Text → ℕ} {sh sh' : Shared} {c c' : Client} {cs cs' others : List Client} {m : Move}

theorem held_of_found {pool user fingerprint : Text} {g : ℕ} (h : sh.found pool user fingerprint = some g) :
    sh.held pool user = some g :=
  (Option.filter_eq_some_iff.mp h).1

theorem act_course (h : act maxSize m sh c = some (sh', c')) : Course maxSize sh c m sh' c' := by
  unfold act at h
  split at h
  case h_1 hpc =>
    split at h
    · cases h
      exact .goes _ _ (by simp [Pc.session]) (by simp [Pc.group]) (by simp [hpc, Pc.permit]) (by simp [Pc.busy])
    · split at h
      case h_1 hfound =>
        cases h
        exact .goes _ _ (by simp [Pc.session])
          (fun i hi => .inr ((held_of_found hfound).trans hi)) (by simp [hpc, Pc.permit]) (by simp [Pc.busy])
      · cases h
        exact .goes _ _ (by simp [Pc.session]) (by simp [Pc.group]) (by simp [hpc, Pc.permit]) (by simp [Pc.busy])
  case h_2 ok hpc =>
    split at h
    · cases h
    case h_2 fingerprint hfingerprint =>
      split at h
      case h_1 hfound =>
        cases h
        exact .goes _ _ (by simp [Pc.session])
          (fun i hi => .inr ((held_of_found hfound).trans hi)) (by simp [hpc, Pc.permit]) (by simp [Pc.busy])
      case h_2 hfound =>
        split at h
        · cases h
          exact .builds ok fingerprint hpc hfingerprint hfound
        · cases h
          exact .retires ok fingerprint hpc hfingerprint hfound
  case h_3 g room hpc =>
    split at h
    · cases h
      exact .registers _ g hpc
    · cases h
      exact .goes _ _ (by simp [Pc.session]) (by simp [Pc.group]) (by simp [hpc, Pc.permit]) (by simp [Pc.busy])
  case h_4 g id hpc =>
    split at h
    case h_1 hopen =>
      cases h
      exact .goes _ _ (by simp [hpc, Pc.session]) (by simp [hpc, Pc.group]) (by simp [hpc, Pc.permit])
        (fun i hi => .inr (Option.some.inj hi ▸ hopen))
    · cases h
      exact .goes _ c.pc (fun _ hid => hid) (fun _ hg => .inl hg) rfl (fun _ hg => .inl hg)
  case h_5 g id target hpc =>
    split at h
    case isTrue hroom =>
      cases h
      exact .turns _ g id _ _ (by rw [hpc]; exact .take target hroom)
    · cases h
  case h_6 g id target hpc => cases h; exact .turns _ g id _ _ (by rw [hpc]; exact .retry target)
  case h_7 g id target hpc => cases h; exact .turns _ g id _ _ (by rw [hpc]; exact .counted target)
  case h_8 g id hpc =>
    cases h
    exact .goes _ _ (by simp [hpc, Pc.session]) (by simp [hpc, Pc.group]) (by simp [hpc, Pc.permit]) (by simp [Pc.busy])
  case h_9 g id target hpc => cases h; exact .turns _ g id _ _ (by rw [hpc]; exact .giveUp target)
  case h_10 g id target hpc => cases h; exact .turns _ g id _ _ (by rw [hpc]; exact .drop target)
  case h_11 g id target fit hpc =>
    cases h
    exact .goes _ _ (by simp [hpc, Pc.session]) (by simp [hpc, Pc.group]) (by simp [hpc, Pc.permit])
      (by simp [hpc, Pc.busy])
  case h_12 g id target keep hpc => cases h; exact .turns _ g id _ _ (by rw [hpc]; exact .giveBack target keep)
  case h_13 g id hpc => cases h; exact .leaves _ g id hpc
  case h_14 hpc =>
    cases h
    exact .goes _ _ (by simp [Pc.session]) (by simp [Pc.group]) (by simp [hpc, Pc.permit]) (by simp [Pc.busy])
  case h_15 hpc =>
    cases h
    exact .goes _ _ (by simp [Pc.session]) (by simp [Pc.group]) (by simp [hpc, Pc.permit]) (by simp [Pc.busy])
  case h_16 hpc =>
    cases h
    exact .goes _ _ (by simp [Pc.session]) (by simp [Pc.group]) (by simp [hpc, Pc.permit]) (by simp [Pc.busy])
  case h_17 => cases h

/-! ## The invariant -/

/-- What a client has is there. -/
structure Placed (sh : Shared) (c : Client) : Prop where
  group : ∀ g ∈ c.pc.group, sh.Given c.pool c.user g
  session : ∀ id ∈ c.pc.session, ⟨id, c.pool, c.user⟩ ∈ sh.sessions ∧ id < sh.nextId
  /-- A session that was there when the sweeper looked has been seen. -/
  seen : ∀ pool live upTo, sh.sweeper = .looked pool live upTo → c.pool = pool →
    ∀ id ∈ c.pc.session, id < upTo → c.user ∈ live

/-- What holds in every state of a careful run. -/
structure Sound (sh : Shared) (cs : List Client) : Prop where
  tidy : Tidy sh
  placed : ∀ c ∈ cs, Placed sh c
  distinct : (cs.filterMap fun c => c.pc.session).Nodup

theorem Sound.perm (h : Sound sh cs) (hperm : cs.Perm cs') : Sound sh cs' where
  tidy := h.tidy
  placed c hc := h.placed c (hperm.mem_iff.mpr hc)
  distinct := (hperm.filterMap _).nodup_iff.mp h.distinct

theorem Placed.frame (h : Placed sh c) (hgiven : ∀ g, sh.Given c.pool c.user g → sh'.Given c.pool c.user g)
    (hsessions : ∀ s ∈ sh.sessions, c.pc.session = some s.id → s ∈ sh'.sessions) (hnext : sh.nextId ≤ sh'.nextId)
    (hsweeper : sh'.sweeper = sh.sweeper) : Placed sh' c where
  group g hg := hgiven g (h.group g hg)
  session id hid := ⟨hsessions _ (h.session id hid).1 hid, Nat.lt_of_lt_of_le (h.session id hid).2 hnext⟩
  seen pool live upTo hlooked := h.seen pool live upTo (hsweeper ▸ hlooked)

theorem Placed.moves (h : Placed sh c) {pc : Pc} (hgroup : ∀ g ∈ pc.group, sh.Given c.pool c.user g)
    (hsession : ∀ id ∈ pc.session, id ∈ c.pc.session) : Placed sh { c with pc } where
  group := hgroup
  session id hid := h.session id (hsession id hid)
  seen pool live upTo hlooked hpool id hid := h.seen pool live upTo hlooked hpool id (hsession id hid)

theorem Placed.modify (h : Placed sh c) {f : Group → Group} (g : ℕ) (hkept : ∀ G, Group.Kept G (f G)) :
    Placed (sh.modify g f) c :=
  h.frame (fun _ hg => hg.modify hkept) (fun _ hs _ => hs) (Nat.le_refl _) rfl

theorem Placed.retire (h : Placed sh c) (pool user : Text) : Placed (sh.retire pool user) c := by
  unfold Shared.retire
  split
  · exact h.modify _ Group.kept_drain
  · exact h

theorem Placed.insert (h : Placed sh c) (pool user fingerprint : Text) :
    Placed (sh.insert pool user fingerprint) c :=
  h.frame (fun _ hg => hg.insert pool user) (fun _ hs _ => hs) (Nat.le_refl _) rfl

/-- Fewer sessions are still distinct ones. -/
theorem Sound.fewer (h : Sound sh (c :: others)) {pc : Pc} (hsession : ∀ id ∈ pc.session, id ∈ c.pc.session) :
    (({ c with pc } :: others).filterMap fun c => c.pc.session).Nodup := by
  have hdistinct := h.distinct
  rw [List.filterMap_cons] at hdistinct ⊢
  cases hpc : pc.session with
  | none =>
      split at hdistinct
      · exact hdistinct
      · exact (List.nodup_cons.mp hdistinct).2
  | some id =>
      have hid : c.pc.session = some id := hsession id hpc
      rwa [hid] at hdistinct

theorem Sound.course (h : Sound sh (c :: others)) (hcourse : Course maxSize sh c m sh' c') :
    Sound sh' (c' :: others) := by
  have hc := h.placed c List.mem_cons_self
  have hothers := fun q (hq : q ∈ others) => h.placed q (List.mem_cons_of_mem c hq)
  cases hcourse with
  | goes _ pc hsession hgroup _ _ =>
      refine ⟨h.tidy, List.forall_mem_cons.mpr ⟨hc.moves ?_ hsession, hothers⟩, h.fewer hsession⟩
      intro g hg
      exact (hgroup g hg).elim (hc.group g) (h.tidy.held _ _ g)
  | turns _ g id f pc hturn =>
      have hsession : ∀ id ∈ pc.session, id ∈ c.pc.session := by
        rw [hturn.session.1, hturn.session.2]
        exact fun _ hid => hid
      refine ⟨h.tidy.modify hturn.kept, List.forall_mem_cons.mpr ⟨(hc.modify g hturn.kept).moves ?_ hsession,
        fun q hq => (hothers q hq).modify g hturn.kept⟩, h.fewer hsession⟩
      intro i hi
      rw [hturn.group.2] at hi
      exact (hc.group i (hturn.group.1.trans hi)).modify hturn.kept
  | retires _ fingerprint hpc _ _ =>
      have hnone : ∀ id ∈ Pc.ended.session, id ∈ c.pc.session := by
        intro id hid
        cases hid
      refine ⟨h.tidy.retire _ _, List.forall_mem_cons.mpr ⟨(hc.retire _ _).moves ?_ hnone,
        fun q hq => (hothers q hq).retire _ _⟩, h.fewer hnone⟩
      intro g hg
      cases hg
  | builds _ fingerprint hpc _ _ =>
      have hnone : ∀ id ∈ (Pc.grouped (some sh.groups.length)).session, id ∈ c.pc.session := by
        intro id hid
        cases hid
      refine ⟨(h.tidy.retire _ _).insert fun g G hG => h.tidy.retired hG, List.forall_mem_cons.mpr
        ⟨((hc.retire _ _).insert _ _ _).moves ?_ hnone,
          fun q hq => ((hothers q hq).retire _ _).insert _ _ _⟩, h.fewer hnone⟩
      intro g hg
      have hlength : (sh.retire c.pool c.user).groups.length = sh.groups.length := by
        unfold Shared.retire
        split
        · rw [Shared.modify, List.length_modify]
        · rfl
      rw [← Option.some.inj hg, ← hlength]
      exact Shared.given_insert_self
  | registers _ g hpc =>
      refine ⟨⟨h.tidy.held, h.tidy.listed, fun pool live upTo hlooked =>
        Nat.le_succ_of_le (h.tidy.looked pool live upTo hlooked)⟩, List.forall_mem_cons.mpr ⟨⟨?_, ?_, ?_⟩, ?_⟩, ?_⟩
      · exact fun i hi => hc.group i (hpc ▸ hi)
      · intro id hid
        obtain rfl := Option.some.inj hid
        exact ⟨List.mem_append_right _ (List.mem_singleton.mpr rfl), Nat.lt_succ_self _⟩
      · intro pool live upTo hlooked _ id hid hlt
        obtain rfl := Option.some.inj hid
        exact absurd hlt (Nat.not_lt.mpr (h.tidy.looked pool live upTo hlooked))
      · intro q hq
        exact (hothers q hq).frame (fun _ hg => hg) (fun _ hs _ => List.mem_append_left _ hs) (Nat.le_succ _) rfl
      · -- the new id is above all there are
        have hdistinct := h.distinct
        rw [List.filterMap_cons_none (by rw [hpc]; rfl)] at hdistinct
        refine List.nodup_cons.mpr ⟨?_, hdistinct⟩
        intro hmem
        obtain ⟨q, hq, hid⟩ := List.mem_filterMap.mp hmem
        exact absurd ((hothers q hq).session _ hid).2 (Nat.lt_irrefl _)
  | leaves _ g id hpc =>
      have hnone : ∀ id ∈ Pc.ended.session, id ∈ c.pc.session := by
        intro id hid
        cases hid
      have hdistinct := h.distinct
      rw [List.filterMap_cons_some (b := id) (by rw [hpc]; rfl), List.nodup_cons] at hdistinct
      refine ⟨⟨h.tidy.held, h.tidy.listed, h.tidy.looked⟩, List.forall_mem_cons.mpr ⟨⟨?_, ?_, ?_⟩, ?_⟩, h.fewer hnone⟩
      · intro i hi
        cases hi
      · intro i hi
        cases hi
      · intro pool live upTo _ _ i hi
        cases hi
      · intro q hq
        refine (hothers q hq).frame (fun _ hg => hg) ?_ (Nat.le_refl _) rfl
        intro s hs hid
        refine List.mem_filter.mpr ⟨hs, decide_eq_true ?_⟩
        rintro rfl
        exact hdistinct.1 (List.mem_filterMap.mpr ⟨q, hq, hid⟩)

/-- In a careful run, nobody has a group that is swept. -/
theorem Sound.not_swept {w : Procs Shared Client} (h : Sound w.shared w.procs) (hcareful : Careful w (.inr .sweep))
    {pool : Text} {live : List Text} {upTo : ℕ} (hlooked : w.shared.sweeper = .looked pool live upTo)
    (hc : c ∈ w.procs) {g : ℕ} (hg : g ∈ c.pc.group) : g ∉ w.shared.swept pool live := by
  unfold Careful at hcareful
  simp only [hlooked] at hcareful
  by_cases hlate : c.pc.late upTo = true
  · exact hcareful c hc hlate g hg
  · intro hswept
    obtain ⟨user, hheld, hgone⟩ := Shared.of_mem_swept hswept
    obtain ⟨G, hG, hpool, huser, -⟩ := (h.placed c hc).group g hg
    obtain ⟨G', hG', hpool', huser', -⟩ := h.tidy.held pool user g hheld
    rw [hG, Option.some_inj] at hG'
    subst hG'
    obtain ⟨id, hid, hlt⟩ : ∃ id, c.pc.session = some id ∧ id < upTo := by
      cases hid : c.pc.session with
      | none => simp [Pc.late, hid] at hlate
      | some id => exact ⟨id, rfl, by simpa [Pc.late, hid] using hlate⟩
    have hseen := (h.placed c hc).seen pool live upTo hlooked (hpool.symm.trans hpool') id hid hlt
    rw [← huser, huser'] at hseen
    exact hgone hseen

theorem Sound.happen {w : Procs Shared Client} (h : Sound w.shared w.procs) {e : Event}
    (hcareful : Careful w (.inr e)) : Sound (happen w.shared e) w.procs := by
  cases e with
  | look pool =>
      rw [PerUser.happen]
      split
      case h_1 =>
        refine ⟨⟨h.tidy.held, h.tidy.listed, ?_⟩, fun c hc => ⟨(h.placed c hc).group, (h.placed c hc).session, ?_⟩,
          h.distinct⟩
        · intro pool live upTo hlooked
          cases hlooked
          exact Nat.le_refl _
        · intro pool live upTo hlooked hpool id hid _
          cases hlooked
          have hmem := ((h.placed c hc).session id hid).1
          exact List.mem_map.mpr ⟨_, List.mem_filter.mpr ⟨hmem, decide_eq_true hpool⟩, rfl⟩
      case h_2 => exact h
  | sweep =>
      rw [PerUser.happen]
      split
      case h_1 => exact h
      case h_2 pool live upTo hlooked =>
        refine ⟨h.tidy.sweep, fun c hc => ⟨fun g hg => ?_, (h.placed c hc).session, ?_⟩, h.distinct⟩
        · exact ((h.placed c hc).group g hg).sweep (h.not_swept hcareful hlooked hc hg)
        · intro pool live upTo hlooked
          cases hlooked
  | reap g target =>
      have hkept : ∀ G : Group, Group.Kept G { G with idle := G.idle.erase target } :=
        fun G => ⟨rfl, rfl, fun hG => hG, fun hG => hG⟩
      exact ⟨h.tidy.modify hkept, fun c hc => (h.placed c hc).modify g hkept, h.distinct⟩

theorem Sound.step {w : Procs Shared Client} (h : Sound w.shared w.procs) {l : (ℕ × Move) ⊕ Event}
    (hcareful : Careful w l) : Sound (step maxSize w l).shared (step maxSize w l).procs := by
  cases l with
  | inr e => exact h.happen hcareful
  | inl l =>
      obtain hsame | ⟨c, sh, c', hc, hact, hstep⟩ := w.step_cases (act maxSize) l
      · rw [PerUser.step, hsame]
        exact h
      · rw [PerUser.step, hstep]
        exact ((h.perm (perm_eraseIdx hc)).course (act_course hact)).perm (set_perm_eraseIdx c' hc).symm

theorem sound_authenticated (clients : List (Text × Text × Option Text)) :
    Sound (authenticated clients).shared (authenticated clients).procs := by
  have hnew : ∀ c ∈ (authenticated clients).procs, c.pc = .arriving := by
    intro c hc
    obtain ⟨_, _, rfl⟩ := List.mem_map.mp hc
    rfl
  refine ⟨⟨?_, ?_, ?_⟩, fun c hc => ⟨?_, ?_, ?_⟩, ?_⟩
  · intro pool user g hg
    cases hg
  · intro g G hG
    cases hG
  · intro pool live upTo hlooked
    cases hlooked
  · intro g hg
    rw [hnew c hc] at hg
    cases hg
  · intro id hid
    rw [hnew c hc] at hid
    cases hid
  · intro pool live upTo hlooked
    cases hlooked
  · have hnone : (authenticated clients).procs.filterMap (fun c => c.pc.session) = [] := by
      apply List.filterMap_eq_nil_iff.mpr
      intro c hc
      rw [hnew c hc]
      rfl
    rw [hnone]
    exact List.nodup_nil

theorem sound_of_run {clients : List (Text × Text × Option Text)} {ls : List ((ℕ × Move) ⊕ Event)}
    (hrun : Along (step maxSize) Careful (authenticated clients) ls) :
    Sound (run (step maxSize) (authenticated clients) ls).shared (run (step maxSize) (authenticated clients) ls).procs :=
  hrun.invariant (I := fun w => Sound w.shared w.procs) (fun _ _ hw hok => hw.step hok)
    (sound_authenticated clients)

end

end Havuz.PerUser
