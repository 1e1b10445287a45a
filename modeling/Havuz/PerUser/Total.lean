import Havuz.PerUser.InUse

/-!
# The connections of a user

The connections handed out by a group are those its clients have permits for, so a group nobody is busy with
has none once its idle ones are closed (`Counted`). With one group at a time, a user's total on a target is
that group's.
-/

namespace Havuz.PerUser

open Lib

variable {maxSize : Text → ℕ} {sh sh' : Shared} {c c' : Client} {cs cs' others : List Client} {m : Move}

/-! ## Permits -/

theorem Pc.group_of_busy {pc : Pc} {g : ℕ} (h : pc.busy = some g) : pc.group = some g := by
  cases pc <;> first | exact h | cases h

theorem Pc.busy_of_permit {pc : Pc} {g target : ℕ} (h : pc.permit = some (g, target)) : pc.busy = some g := by
  cases pc <;> simp_all [Pc.permit, Pc.busy]

/-- Who has a permit of which group, and for which target. -/
def permits (cs : List Client) : List (ℕ × ℕ) := cs.filterMap fun c => c.pc.permit

theorem count_permits (c : Client) (others : List Client) (x : ℕ × ℕ) :
    (permits (c :: others)).count x = (if c.pc.permit = some x then 1 else 0) + (permits others).count x := by
  rw [permits, List.filterMap_cons]
  cases hpc : c.pc.permit with
  | none => simp [permits]
  | some y =>
      rw [List.count_cons, ← permits]
      by_cases hxy : y = x <;> simp [hxy, Nat.add_comm]

section Turn

variable {max g id : ℕ} {pc pc' : Pc} {f : Group → Group} {G : Group}

theorem Turn.drained (h : Turn sh max g id pc f pc') (G : Group) : (f G).drained = G.drained := by
  cases h <;> rfl

theorem Turn.pool (h : Turn sh max g id pc f pc') (G : Group) : (f G).pool = G.pool := by
  cases h <;> rfl

/-- What is handed out changes with the permit of the client. -/
theorem Turn.out (h : Turn sh max g id pc f pc') (hout : ∀ target, pc.permit = some (g, target) → target ∈ G.out)
    (t : ℕ) : (f G).out.count t + (if pc.permit = some (g, t) then 1 else 0) =
      G.out.count t + (if pc'.permit = some (g, t) then 1 else 0) := by
  cases h with
  | take target hroom => simp [Pc.permit, List.count_cons]
  | retry target => simp [Pc.permit]
  | counted target => simp [Pc.permit]
  | drop target => simp [Pc.permit]
  | giveUp target =>
      have hpos : 0 < G.out.count target := List.count_pos_iff.mpr (hout target rfl)
      by_cases ht : target = t
      · subst ht
        simp [Pc.permit]
        omega
      · simp [Pc.permit, List.count_erase, ht]
  | giveBack target keep =>
      have hpos : 0 < G.out.count target := List.count_pos_iff.mpr (hout target rfl)
      by_cases ht : target = t
      · subst ht
        simp [Pc.permit]
        omega
      · simp [Pc.permit, List.count_erase, ht]

/-- A connection is opened in the place of one that is closed or where there is room. -/
theorem Turn.room (h : Turn sh max g id pc f pc') (hG : sh.groups[g]? = some G)
    (hout : ∀ target, pc.permit = some (g, target) → target ∈ G.out)
    (hroom : ∀ t, G.idle.count t + G.out.count t ≤ max) (t : ℕ) :
    (f G).idle.count t + (f G).out.count t ≤ max := by
  have ht := hroom t
  cases h with
  | take target hlt =>
      rw [hG, Option.map_some, Option.getD_some] at hlt
      simp only [List.count_cons, List.count_erase]
      by_cases hsame : target = t
      · subst hsame
        simp
        omega
      · simp [hsame]
        omega
  | retry target =>
      simp only [List.count_erase]
      omega
  | counted target => exact ht
  | drop target => exact ht
  | giveUp target =>
      simp only [List.count_erase]
      omega
  | giveBack target keep =>
      have hpos : 0 < G.out.count target := List.count_pos_iff.mpr (hout target rfl)
      by_cases hsame : target = t
      · subst hsame
        cases keep <;> simp <;> omega
      · cases keep <;> simp [List.count_erase, hsame] <;> omega

end Turn

/-! ## The invariant -/

/-- The connections of every group, and who has them. -/
structure Counted (maxSize : Text → ℕ) (sh : Shared) (cs : List Client) : Prop where
  busy : ∀ c ∈ cs, ∀ g ∈ c.pc.busy, (sh.groups[g]?).bind Group.drained = none
  shut : ∀ (g : ℕ) (G : Group), sh.groups[g]? = some G → G.drained ≠ none → G.idle = []
  out : ∀ (g : ℕ) (G : Group), sh.groups[g]? = some G → ∀ t, G.out.count t = (permits cs).count (g, t)
  room : ∀ (g : ℕ) (G : Group), sh.groups[g]? = some G → ∀ t, G.idle.count t + G.out.count t ≤ maxSize G.pool

namespace Counted

theorem perm (h : Counted maxSize sh cs) (hperm : cs.Perm cs') : Counted maxSize sh cs' where
  busy c hc := h.busy c (hperm.mem_iff.mpr hc)
  shut := h.shut
  out g G hG t := (h.out g G hG t).trans ((hperm.filterMap _).count_eq (g, t))
  room := h.room

theorem same_groups (h : Counted maxSize sh cs) (hgroups : sh'.groups = sh.groups) : Counted maxSize sh' cs where
  busy c hc g hg := hgroups ▸ h.busy c hc g hg
  shut g G hG := h.shut g G (hgroups ▸ hG)
  out g G hG := h.out g G (hgroups ▸ hG)
  room g G hG := h.room g G (hgroups ▸ hG)

theorem moves (h : Counted maxSize sh (c :: others)) {pc : Pc} (hpermit : pc.permit = c.pc.permit)
    (hbusy : ∀ g ∈ pc.busy, g ∈ c.pc.busy ∨ (sh.groups[g]?).bind Group.drained = none) :
    Counted maxSize sh ({ c with pc } :: others) where
  busy := by
    refine List.forall_mem_cons.mpr ⟨fun g hg => ?_, fun q hq => h.busy q (List.mem_cons_of_mem c hq)⟩
    exact (hbusy g hg).elim (h.busy c List.mem_cons_self g) id
  shut := h.shut
  out g G hG t := by
    rw [h.out g G hG t, count_permits, count_permits, hpermit]
  room := h.room

theorem turns (h : Counted maxSize sh (c :: others)) {g id : ℕ} {f : Group → Group} {pc : Pc} {G : Group}
    (hturn : Turn sh (maxSize c.pool) g id c.pc f pc) (hG : sh.groups[g]? = some G) (hpool : G.pool = c.pool) :
    Counted maxSize (sh.modify g f) ({ c with pc } :: others) := by
  have hdrained : ∀ i : ℕ, ((sh.modify g f).groups[i]?).bind Group.drained = (sh.groups[i]?).bind Group.drained := by
    intro i
    cases hi : sh.groups[i]? with
    | none => simp [Shared.modify, List.getElem?_modify, hi]
    | some Gi =>
        rw [Shared.getElem?_modify hi]
        split
        · exact hturn.drained Gi
        · rfl
  have hopen : G.drained = none := by
    have hnone := h.busy c List.mem_cons_self g hturn.busy.1
    rwa [hG] at hnone
  have hout : ∀ target, c.pc.permit = some (g, target) → target ∈ G.out := by
    intro target hpermit
    have hcount := h.out g G hG target
    rw [count_permits, if_pos hpermit] at hcount
    exact List.count_pos_iff.mp (by omega)
  refine ⟨List.forall_mem_cons.mpr ⟨?_, ?_⟩, ?_, ?_, ?_⟩
  · intro i hi
    rw [hdrained]
    obtain hnone | hsame := hturn.busy.2
    · rw [hnone] at hi
      cases hi
    · rw [hsame] at hi
      exact h.busy c List.mem_cons_self i (hturn.busy.1.trans hi)
  · intro q hq i hi
    rw [hdrained]
    exact h.busy q (List.mem_cons_of_mem c hq) i hi
  · intro i G' hG' hshut
    obtain ⟨rfl, G₀, hG₀, rfl⟩ | ⟨-, hG'⟩ := Shared.modify_cases hG'
    · rw [hG, Option.some_inj] at hG₀
      subst hG₀
      exact absurd ((hturn.drained G).trans hopen) hshut
    · exact h.shut i G' hG' hshut
  · intro i G' hG' t
    rw [count_permits]
    obtain ⟨rfl, G₀, hG₀, rfl⟩ | ⟨hne, hG'⟩ := Shared.modify_cases hG'
    · rw [hG, Option.some_inj] at hG₀
      subst hG₀
      have hold := h.out i G hG t
      have hnew := hturn.out hout t
      rw [count_permits] at hold
      simp only at hold hnew ⊢
      omega
    · -- the permit of this client is one of another group
      have hold := h.out i G' hG' t
      have helse : ∀ p : Pc, p.group = some g → p.permit ≠ some (i, t) := by
        intro p hgroup hpermit
        have hi := Pc.group_of_busy (Pc.busy_of_permit hpermit)
        rw [hgroup, Option.some_inj] at hi
        exact hne hi.symm
      rw [count_permits, if_neg (helse _ hturn.group.1)] at hold
      rw [if_neg (helse _ hturn.group.2), hold]
  · intro i G' hG' t
    obtain ⟨rfl, G₀, hG₀, rfl⟩ | ⟨-, hG'⟩ := Shared.modify_cases hG'
    · rw [hG, Option.some_inj] at hG₀
      subst hG₀
      rw [hturn.pool, hpool]
      exact hturn.room hG hout (hpool ▸ h.room i G hG) t
    · exact h.room i G' hG' t

theorem retire (h : Counted maxSize sh cs) {pool user : Text}
    (hidle : ∀ g ∈ sh.held pool user, ∀ q ∈ cs, q.pc.busy ≠ some g) : Counted maxSize (sh.retire pool user) cs := by
  unfold Shared.retire
  split
  case h_1 g hheld =>
    refine ⟨?_, ?_, ?_, ?_⟩
    · intro q hq i hi
      have hne : i ≠ g := by
        rintro rfl
        exact hidle i hheld q hq hi
      have hopen := h.busy q hq i hi
      cases hG : sh.groups[i]? with
      | none => simp [Shared.modify, List.getElem?_modify, hG]
      | some G =>
          rw [Shared.getElem?_modify hG, if_neg hne, ← hG]
          exact hopen
    · intro i G' hG' hshut
      obtain ⟨-, G, -, rfl⟩ | ⟨-, hG⟩ := Shared.modify_cases hG'
      · rfl
      · exact h.shut i G' hG hshut
    · intro i G' hG'
      obtain ⟨-, G, hG, rfl⟩ | ⟨-, hG⟩ := Shared.modify_cases hG'
      · exact h.out i G hG
      · exact h.out i G' hG
    · intro i G' hG' t
      obtain ⟨-, G, hG, rfl⟩ | ⟨-, hG⟩ := Shared.modify_cases hG'
      · have hroom := h.room i G hG t
        simp only [Group.drain, List.count_nil]
        omega
      · exact h.room i G' hG t
  case h_2 => exact h

theorem insert (h : Counted maxSize sh cs) (pool user fingerprint : Text)
    (hpermits : ∀ x ∈ permits cs, x.1 < sh.groups.length) :
    Counted maxSize (sh.insert pool user fingerprint) cs := by
  have hcases : ∀ (i : ℕ) (G : Group), (sh.insert pool user fingerprint).groups[i]? = some G →
      sh.groups[i]? = some G ∨ i = sh.groups.length ∧ G.idle = [] ∧ G.out = [] ∧ G.drained = none := by
    intro i G hG
    rw [Shared.insert, List.getElem?_append] at hG
    split at hG
    · exact .inl hG
    · obtain ⟨hi, rfl⟩ := List.getElem?_eq_some_iff.mp hG
      rw [List.length_singleton] at hi
      exact .inr ⟨by omega, by simp, by simp, by simp⟩
  refine ⟨?_, ?_, ?_, ?_⟩
  · intro q hq i hi
    have hopen := h.busy q hq i hi
    cases hG : (sh.insert pool user fingerprint).groups[i]? with
    | none => rfl
    | some G =>
        obtain hold | ⟨-, -, -, hnew⟩ := hcases i G hG
        · rwa [hold] at hopen
        · exact hnew
  · intro i G hG hshut
    obtain hG | ⟨-, hidle, -, -⟩ := hcases i G hG
    · exact h.shut i G hG hshut
    · exact hidle
  · intro i G hG t
    obtain hG | ⟨rfl, -, hout, -⟩ := hcases i G hG
    · exact h.out i G hG t
    · rw [hout, List.count_nil]
      apply Eq.symm
      apply List.count_eq_zero.mpr
      exact fun hmem => absurd (hpermits _ hmem) (Nat.lt_irrefl _)
  · intro i G hG t
    obtain hG | ⟨-, hidle, hout, -⟩ := hcases i G hG
    · exact h.room i G hG t
    · simp [hidle, hout]

theorem course (h : Counted maxSize sh (c :: others)) (hsound : Sound sh (c :: others))
    (hcourse : Course maxSize sh c m sh' c')
    (hrotated : ∀ ok, m = .build ok → c.pc = .missed → ∀ fingerprint ∈ c.fingerprint,
      sh.found c.pool c.user fingerprint = none → ∀ g ∈ sh.held c.pool c.user,
        ∀ q ∈ c :: others, q.pc.busy ≠ some g) :
    Counted maxSize sh' (c' :: others) := by
  cases hcourse with
  | goes _ pc _ _ hpermit hbusy => exact h.moves hpermit hbusy
  | turns _ g id f pc hturn =>
      obtain ⟨G, hG, hpool, -, -⟩ := (hsound.placed c List.mem_cons_self).group g hturn.group.1
      exact h.turns hturn hG hpool
  | retires ok fingerprint hpc hfingerprint hfound =>
      have hretired := h.retire (hrotated ok rfl hpc fingerprint hfingerprint hfound)
      exact hretired.moves (by rw [hpc]; rfl) (by simp [Pc.busy])
  | builds ok fingerprint hpc hfingerprint hfound =>
      have hretired := h.retire (hrotated ok rfl hpc fingerprint hfingerprint hfound)
      refine (hretired.insert c.pool c.user fingerprint ?_).moves (by rw [hpc]; rfl) (by simp [Pc.busy])
      rintro ⟨g, t⟩ hx
      obtain ⟨q, hq, hpermit⟩ := List.mem_filterMap.mp hx
      have hgroup := Pc.group_of_busy (Pc.busy_of_permit hpermit)
      obtain ⟨G, hG, -⟩ := ((hsound.placed q hq).group g hgroup).retire c.pool c.user
      exact (List.getElem?_eq_some_iff.mp hG).1
  | registers _ g hpc =>
      have hmoved : Counted maxSize sh ({ c with pc := .registered g sh.nextId } :: others) :=
        h.moves (by rw [hpc]; rfl) (by simp [Pc.busy])
      exact hmoved.same_groups rfl
  | leaves _ g id hpc =>
      have hmoved : Counted maxSize sh ({ c with pc := .ended } :: others) :=
        h.moves (by rw [hpc]; rfl) (by simp [Pc.busy])
      exact hmoved.same_groups rfl

theorem happen {w : Procs Shared Client} (h : Counted maxSize w.shared w.procs) (hsound : Sound w.shared w.procs)
    {e : Event} (hcareful : Careful w (.inr e)) : Counted maxSize (happen w.shared e) w.procs := by
  cases e with
  | look pool =>
      rw [PerUser.happen]
      split
      · exact h.same_groups rfl
      · exact h
  | sweep =>
      rw [PerUser.happen]
      split
      case h_1 => exact h
      case h_2 pool live upTo hlooked =>
        have hkept : ∀ c ∈ w.procs, ∀ g ∈ c.pc.group, g ∉ w.shared.swept pool live :=
          fun c hc g hg => hsound.not_swept hcareful hlooked hc hg
        refine ⟨?_, ?_, ?_, ?_⟩
        · intro c hc g hg
          have hgroup := Pc.group_of_busy hg
          obtain ⟨G, hG, -⟩ := (hsound.placed c hc).group g hgroup
          rw [Shared.getElem?_sweep hG, if_neg (hkept c hc g hgroup), ← hG]
          exact h.busy c hc g hg
        · intro g G' hG' hshut
          obtain ⟨G, hG, heq⟩ := Shared.sweep_cases hG'
          split at heq
          · rw [heq]
            rfl
          · exact h.shut g G' (heq ▸ hG) hshut
        · intro g G' hG' t
          obtain ⟨G, hG, heq⟩ := Shared.sweep_cases hG'
          have hout := h.out g G hG t
          split at heq <;> exact heq ▸ hout
        · intro g G' hG' t
          obtain ⟨G, hG, heq⟩ := Shared.sweep_cases hG'
          have hroom := h.room g G hG t
          split at heq
          · subst heq
            simp only [Group.drain, List.count_nil]
            omega
          · exact heq ▸ hroom
  | reap g target =>
      refine ⟨?_, ?_, ?_, ?_⟩
      · intro c hc i hi
        have hopen := h.busy c hc i hi
        obtain ⟨G, hG, -⟩ := (hsound.placed c hc).group i (Pc.group_of_busy hi)
        rw [hG] at hopen
        rw [PerUser.happen, Shared.getElem?_modify hG]
        split <;> exact hopen
      · intro i G' hG' hshut
        obtain ⟨-, G, hG, rfl⟩ | ⟨-, hG⟩ := Shared.modify_cases hG'
        · simp only [h.shut i G hG hshut, List.erase_nil]
        · exact h.shut i G' hG hshut
      · intro i G' hG'
        obtain ⟨-, G, hG, rfl⟩ | ⟨-, hG⟩ := Shared.modify_cases hG'
        · exact h.out i G hG
        · exact h.out i G' hG
      · intro i G' hG' t
        obtain ⟨-, G, hG, rfl⟩ | ⟨-, hG⟩ := Shared.modify_cases hG'
        · have hroom := h.room i G hG t
          simp only [List.count_erase]
          omega
        · exact h.room i G' hG t

theorem step {w : Procs Shared Client} (h : Counted maxSize w.shared w.procs) (hsound : Sound w.shared w.procs)
    {l : (ℕ × Move) ⊕ Event} (hcareful : Careful w l) (hrotated : Rotated w l) :
    Counted maxSize (step maxSize w l).shared (step maxSize w l).procs := by
  cases l with
  | inr e => exact h.happen hsound hcareful
  | inl l =>
      obtain hsame | ⟨c, sh, c', hc, hact, hstep⟩ := w.step_cases (act maxSize) l
      · rw [PerUser.step, hsame]
        exact h
      · rw [PerUser.step, hstep]
        have hperm := perm_eraseIdx hc
        refine ((h.perm hperm).course (hsound.perm hperm) (act_course hact) ?_).perm (set_perm_eraseIdx c' hc).symm
        intro ok hmove hpc fingerprint hfingerprint hfound g hg q hq
        obtain ⟨i, m⟩ := l
        obtain rfl : m = .build ok := hmove
        exact hrotated c hc hpc fingerprint hfingerprint hfound g hg q (hperm.mem_iff.mpr hq)

theorem authenticated (clients : List (Text × Text × Option Text)) :
    Counted maxSize (authenticated clients).shared (authenticated clients).procs where
  busy c hc g hg := by
    obtain ⟨_, _, rfl⟩ := List.mem_map.mp hc
    cases hg
  shut g G hG := by cases hG
  out g G hG := by cases hG
  room g G hG := by cases hG

/-- A drained group has no connections. -/
theorem none_of_drained (h : Counted maxSize sh cs) {g : ℕ} {G : Group} (hG : sh.groups[g]? = some G)
    (hdrained : G.drained ≠ none) (t : ℕ) : G.idle.count t + G.out.count t = 0 := by
  have hnone : (permits cs).count (g, t) = 0 := by
    apply List.count_eq_zero.mpr
    intro hmem
    obtain ⟨c, hc, hpermit⟩ := List.mem_filterMap.mp hmem
    have hopen := h.busy c hc g (Pc.busy_of_permit hpermit)
    rw [hG] at hopen
    exact hdrained hopen
  rw [h.shut g G hG hdrained, h.out g G hG t, hnone, List.count_nil]

theorem connections_le (h : Counted maxSize sh cs) (htidy : Tidy sh) (pool user : Text) (t : ℕ) :
    sh.connections pool user t ≤ maxSize pool := by
  have hrest : ∀ G ∈ sh.groups, (G.pool = pool ∧ G.user = user → G.drained ≠ none) →
      (if G.pool = pool ∧ G.user = user then G.idle.count t + G.out.count t else 0) = 0 := by
    intro G hG hdrained
    obtain ⟨g, hg⟩ := List.mem_iff_getElem?.mp hG
    split
    case isTrue hkey => exact h.none_of_drained hg (hdrained hkey) t
    case isFalse => rfl
  by_cases hopen : ∃ (g : ℕ) (G : Group), sh.groups[g]? = some G ∧ G.drained = none ∧ G.pool = pool ∧ G.user = user
  · obtain ⟨g, G, hG, hnone, hpool, huser⟩ := hopen
    rw [Shared.connections, total_perm (perm_eraseIdx hG), total_cons, if_pos ⟨hpool, huser⟩, total_eq_zero]
    · rw [Nat.add_zero, ← hpool]
      exact h.room g G hG t
    · -- every other group of this user is drained
      intro G' hG'
      obtain ⟨i, hne, hi⟩ := List.mem_eraseIdx_iff_getElem?.mp hG'
      apply hrest G' (List.mem_of_getElem? hi)
      rintro ⟨hpool', huser'⟩ hnone'
      exact hne (htidy.unique hi hG hnone' hnone (hpool'.trans hpool.symm) (huser'.trans huser.symm))
  · rw [Shared.connections, total_eq_zero]
    · exact Nat.zero_le _
    · intro G hG
      apply hrest G hG
      rintro ⟨hpool, huser⟩ hnone
      obtain ⟨g, hg⟩ := List.mem_iff_getElem?.mp hG
      exact hopen ⟨g, G, hg, hnone, hpool, huser⟩

end Counted

/-! ## Groups in use -/

/-- **A group in use is not swept.** In every run whose sweeps are careful, whoever was given a group and has
not let go of it has it still, not swept; at most one group of a pool and user hands out connections; and if
no group is replaced while somebody is busy with it, the connections of a user on a target stay within the
pool's maximum. -/
theorem group_in_use_not_swept (maxSize : Text → ℕ) (clients : List (Text × Text × Option Text))
    {ls : List ((ℕ × Move) ⊕ Event)} (hrun : Along (step maxSize) Careful (authenticated clients) ls) :
    let w := run (step maxSize) (authenticated clients) ls
    (∀ c ∈ w.procs, ∀ g ∈ c.pc.group,
      ∃ G, w.shared.groups[g]? = some G ∧ G.pool = c.pool ∧ G.user = c.user ∧ G.drained ≠ some .swept) ∧
    (∀ (g₁ g₂ : ℕ) (G₁ G₂ : Group), w.shared.groups[g₁]? = some G₁ → w.shared.groups[g₂]? = some G₂ →
      G₁.drained = none → G₂.drained = none → G₁.pool = G₂.pool → G₁.user = G₂.user → g₁ = g₂) ∧
    (Along (step maxSize) Rotated (authenticated clients) ls →
      ∀ pool user target, w.shared.connections pool user target ≤ maxSize pool) := by
  intro w
  have hsound : Sound w.shared w.procs := sound_of_run hrun
  refine ⟨fun c hc => (hsound.placed c hc).group,
    fun g₁ g₂ G₁ G₂ h₁ h₂ hopen₁ hopen₂ hpool huser => hsound.tidy.unique h₁ h₂ hopen₁ hopen₂ hpool huser, ?_⟩
  intro hrotated
  have hcounted : Sound w.shared w.procs ∧ Counted maxSize w.shared w.procs := by
    apply (hrun.and hrotated).invariant
      (I := fun w => Sound w.shared w.procs ∧ Counted maxSize w.shared w.procs)
    · rintro w l ⟨hw, hcount⟩ ⟨hcareful, hrotated⟩
      exact ⟨hw.step hcareful, hcount.step hw hcareful hrotated⟩
    · exact ⟨sound_authenticated clients, .authenticated clients⟩
  exact hcounted.2.connections_le hcounted.1.tidy

/-- A client has a checkout while a sweep goes by, and its connection is reaped and its group swept when it has
left. -/
def comesAndGoes : List ((ℕ × Move) ⊕ Event) :=
  [.inl (0, .lookUp), .inl (0, .build true), .inl (0, .register true), .inl (0, .acquire), .inl (0, .take 0),
    .inr (.look ['p']), .inr .sweep, .inl (0, .counted), .inl (0, .drop), .inl (0, .inspect true),
    .inl (0, .giveBack), .inl (0, .leave), .inr (.reap 0 0), .inr (.look ['p']), .inr .sweep,
    .inl (1, .lookUp), .inl (1, .build true)]

/-- One client comes and goes, and the next one gets a group of its own. -/
theorem group_in_use_not_swept_after_one :
    let w := run (step fun _ => 1) (authenticated [(['p'], ['u'], some ['f']), (['p'], ['u'], some ['f'])]) comesAndGoes
    (∃ G, w.shared.groups[1]? = some G ∧ G.drained ≠ some .swept) ∧ w.shared.connections ['p'] ['u'] 0 ≤ 1 := by
  intro w
  have hrun : Along (step fun _ => 1) Careful
      (authenticated [(['p'], ['u'], some ['f']), (['p'], ['u'], some ['f'])]) comesAndGoes := by decide
  obtain ⟨hgiven, -, htotal⟩ := group_in_use_not_swept (fun _ => 1)
    [(['p'], ['u'], some ['f']), (['p'], ['u'], some ['f'])] hrun
  have hsecond : (⟨['p'], ['u'], some ['f'], .grouped (some 1)⟩ : Client) ∈ w.procs := by decide
  obtain ⟨G, hG, -, -, hswept⟩ := hgiven _ hsecond 1 rfl
  exact ⟨⟨G, hG, hswept⟩, htotal (by decide) ['p'] ['u'] 0⟩

/-- The claim that a group in use is never swept fails: the client has its group, and neither a session nor a
connection, when the sweeper comes; afterwards the group refuses it. -/
theorem not_group_in_use_not_swept :
    ¬ ∀ (maxSize : Text → ℕ) (clients : List (Text × Text × Option Text)) (ls : List ((ℕ × Move) ⊕ Event)),
      let w := run (step maxSize) (authenticated clients) ls
      (∀ c ∈ w.procs, ∀ g ∈ c.pc.group,
        ∃ G, w.shared.groups[g]? = some G ∧ G.pool = c.pool ∧ G.user = c.user ∧ G.drained ≠ some .swept) ∧
      (∀ (g₁ g₂ : ℕ) (G₁ G₂ : Group), w.shared.groups[g₁]? = some G₁ → w.shared.groups[g₂]? = some G₂ →
        G₁.drained = none → G₂.drained = none → G₁.pool = G₂.pool → G₁.user = G₂.user → g₁ = g₂) ∧
      ∀ pool user target, w.shared.connections pool user target ≤ maxSize pool := by
  intro hclaim
  obtain ⟨hgiven, -⟩ := hclaim (fun _ => 1) [(['p'], ['u'], some ['f'])]
    [.inl (0, .lookUp), .inl (0, .build true), .inr (.look ['p']), .inr .sweep, .inl (0, .register true),
      .inl (0, .acquire)]
  obtain ⟨G, hG, -, -, hkept⟩ := hgiven ⟨['p'], ['u'], some ['f'], .registered (some 0) 1⟩ (by decide) 0 rfl
  have hswept : ((run (step fun _ => 1) (authenticated [(['p'], ['u'], some ['f'])])
      [.inl (0, .lookUp), .inl (0, .build true), .inr (.look ['p']), .inr .sweep, .inl (0, .register true),
        .inl (0, .acquire)]).shared.groups[0]?).bind Group.drained = some .swept := by decide
  rw [hG] at hswept
  exact hkept hswept

end Havuz.PerUser
