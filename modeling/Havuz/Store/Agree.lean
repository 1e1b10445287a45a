import Havuz.Store.Model

/-!
# Memory and disk

An update persists what it will publish and publishes it when it is told that the rename is done. If it is
dropped in between, the disk is ahead of the memory for good; and what a dropped update still has to write
may land in the temporary file of the next one. `Undisturbed` excludes these two, and then memory and disk
agree (`store_agrees`). That the published state is valid needs no condition (`published_valid`).
-/

namespace Havuz.Store

open Lib

variable {D : Type} {encode : State → D} {decode : D → Option State}

/-! ## The condition -/

def Move.isDrop : Move D → Bool
  | .drop => true
  | _ => false

def Move.isAcquire : Move D → Bool
  | .acquire => true
  | _ => false

def Kind.isUpdate : Kind → Bool
  | .update _ => true
  | .reload => false

namespace Pc

/-- The rename is handed over or done, and the call has not published yet. -/
def inRename : Pc D → Bool
  | .pending .rename _ => true
  | .finished .rename _ true => true
  | _ => false

/-- The rename is done. -/
def ahead : Pc D → Bool
  | .finished .rename _ true => true
  | _ => false

/-- A dropped update has a write in flight. -/
def lateWrite : Pc D → Bool
  | .orphan .write _ => true
  | _ => false

/-- A dropped update has its rename in flight. -/
def lateRename : Pc D → Bool
  | .orphan .rename _ => true
  | _ => false

/-- The call is inside `write_atomic`. -/
def writes : Pc D → Bool
  | .pending _ _ => true
  | .finished _ _ _ => true
  | _ => false

theorem holds_of_writes {pc : Pc D} (h : pc.writes = true) : pc.holds = true := by
  unfold writes at h
  split at h
  · rfl
  · rfl
  · cases h

theorem not_lateWrite_of_writes {pc : Pc D} (h : pc.writes = true) : pc.lateWrite = false := by
  unfold writes at h
  split at h
  · rfl
  · rfl
  · cases h

theorem holds_of_ahead {pc : Pc D} (h : pc.ahead = true) : pc.holds = true := by
  unfold ahead at h
  split at h
  · rfl
  · cases h

end Pc

/-- The condition on a run: no update is dropped from the moment its rename is handed over until it has
published, and none starts to write while a write of a dropped one is in flight. -/
structure Undisturbed (w : Procs (Shared D) (Call D)) (l : ℕ × Move D) : Prop where
  kept : ∀ c ∈ w.procs[l.1]?, l.2.isDrop = true → c.pc.inRename = false
  alone : ∀ c ∈ w.procs[l.1]?, l.2.isAcquire = true → c.kind.isUpdate = true →
    ∀ q ∈ w.procs, q.pc.lateWrite = false

instance (w : Procs (Shared D) (Call D)) (l : ℕ × Move D) : Decidable (Undisturbed w l) :=
  decidable_of_iff
    ((∀ c ∈ w.procs[l.1]?, l.2.isDrop = true → c.pc.inRename = false) ∧
      ∀ c ∈ w.procs[l.1]?, l.2.isAcquire = true → c.kind.isUpdate = true →
        ∀ q ∈ w.procs, q.pc.lateWrite = false)
    ⟨fun h => ⟨h.1, h.2⟩, fun h => ⟨h.kept, h.alone⟩⟩

/-! ## The invariant -/

/-- What a call with the lock has made so far. -/
def Staged (encode : State → D) (sh : Shared D) (c : Call D) : Prop :=
  match c.pc with
  | .pending op next =>
      (next.validate = .ok () ∧ ∃ mutate, c.kind = .update mutate ∧ next = mutate sh.published) ∧
        (op ≠ .write → sh.disk.tmp = some (encode next))
  | .finished op next ok =>
      (next.validate = .ok () ∧ ∃ mutate, c.kind = .update mutate ∧ next = mutate sh.published) ∧
        (ok = true → (if op = .rename then sh.disk.path else sh.disk.tmp) = some (encode next))
  | .reading => c.kind = .reload
  | .read content => c.kind = .reload ∧ (content = none ∨ content = sh.disk.path)
  | _ => True

/-- What holds in every state of an undisturbed run. -/
structure Sound (encode : State → D) (decode : D → Option State) (s₀ : State) (sh : Shared D)
    (cs : List (Call D)) : Prop where
  valid : sh.published.validate = .ok ()
  history : sh.published = sh.log.foldl (fun s f => f s) s₀
  returned : sh.log.Perm (cs.filterMap Call.returned)
  /-- At most one call has the lock. -/
  lock : total (fun c => c.pc.holds.toNat) cs = sh.locked.toNat
  staged : ∀ c ∈ cs, Staged encode sh c
  loaded : (∀ c ∈ cs, c.pc.ahead = false) → opens decode sh.disk = some sh.published
  noLateRename : ∀ c ∈ cs, c.pc.lateRename = false
  alone : (∃ c ∈ cs, c.pc.writes = true) → ∀ q ∈ cs, q.pc.lateWrite = false

variable {s₀ : State} {sh sh' : Shared D} {c c' : Call D} {cs cs' others : List (Call D)}

theorem Sound.perm (h : Sound encode decode s₀ sh cs) (hperm : cs.Perm cs') :
    Sound encode decode s₀ sh cs' where
  valid := h.valid
  history := h.history
  returned := h.returned.trans (hperm.filterMap _)
  lock := (total_perm hperm).symm.trans h.lock
  staged c hc := h.staged c (hperm.mem_iff.mpr hc)
  loaded hnone := h.loaded fun c hc => hnone c (hperm.mem_iff.mp hc)
  noLateRename c hc := h.noLateRename c (hperm.mem_iff.mpr hc)
  alone := by
    rintro ⟨c, hc, hwrites⟩ q hq
    exact h.alone ⟨c, hperm.mem_iff.mpr hc, hwrites⟩ q (hperm.mem_iff.mpr hq)

theorem staged_of_not_holds (hfree : c.pc.holds = false) : Staged encode sh c := by
  unfold Staged
  split
  case h_1 hpc => rw [hpc] at hfree; cases hfree
  case h_2 hpc => rw [hpc] at hfree; cases hfree
  case h_3 hpc => rw [hpc] at hfree; cases hfree
  case h_4 hpc => rw [hpc] at hfree; cases hfree
  case h_5 => trivial

/-- Nobody has a lock that is free. -/
theorem Sound.nobody (h : Sound encode decode s₀ sh cs) (hfree : sh.locked = false) :
    ∀ q ∈ cs, q.pc.holds = false := by
  intro q hq
  have hle := le_total (fun c : Call D => c.pc.holds.toNat) hq
  rw [h.lock, hfree] at hle
  simpa using hle

/-- Nobody else has the lock. -/
theorem Sound.nobody_else (h : Sound encode decode s₀ sh (c :: others)) (hholds : c.pc.holds = true) :
    sh.locked = true ∧ ∀ q ∈ others, q.pc.holds = false := by
  have hlock := h.lock
  rw [total_cons, hholds] at hlock
  have hlocked : sh.locked = true := by
    by_contra hnot
    rw [Bool.not_eq_true] at hnot
    rw [hnot] at hlock
    simp at hlock
  refine ⟨hlocked, fun q hq => ?_⟩
  have hle := le_total (fun c : Call D => c.pc.holds.toNat) hq
  rw [hlocked] at hlock
  simp only [Bool.toNat_true] at hlock
  have hzero : q.pc.holds.toNat = 0 := by omega
  simpa using hzero

/-- Where nobody else has the lock, the invariant is about one call. -/
theorem Sound.of_one (hfree : ∀ q ∈ others, q.pc.holds = false)
    (hlate : ∀ q ∈ others, q.pc.lateRename = false) (valid : sh.published.validate = .ok ())
    (history : sh.published = sh.log.foldl (fun s f => f s) s₀)
    (returned : sh.log.Perm ((c :: others).filterMap Call.returned)) (lock : sh.locked = c.pc.holds)
    (staged : Staged encode sh c) (loaded : c.pc.ahead = false → opens decode sh.disk = some sh.published)
    (late : c.pc.lateRename = false)
    (alone : c.pc.writes = true → ∀ q ∈ others, q.pc.lateWrite = false) :
    Sound encode decode s₀ sh (c :: others) where
  valid := valid
  history := history
  returned := returned
  lock := by
    have hnone : total (fun c : Call D => c.pc.holds.toNat) others = 0 :=
      total_eq_zero fun q hq => by simp [hfree q hq]
    rw [total_cons, hnone, lock]
    rfl
  staged := by
    intro q hq
    rcases List.mem_cons.mp hq with rfl | hq
    · exact staged
    · exact staged_of_not_holds (hfree q hq)
  loaded hnone := loaded (hnone c List.mem_cons_self)
  noLateRename := by
    intro q hq
    rcases List.mem_cons.mp hq with rfl | hq
    · exact late
    · exact hlate q hq
  alone := by
    rintro ⟨q, hq, hwrites⟩ r hr
    have hq' : q = c := by
      rcases List.mem_cons.mp hq with rfl | hq
      · rfl
      · exact absurd (Pc.holds_of_writes hwrites) (by simp [hfree q hq])
    subst hq'
    rcases List.mem_cons.mp hr with rfl | hr
    · exact Pc.not_lateWrite_of_writes hwrites
    · exact alone hwrites r hr

/-! ## One step -/

theorem opens_of_path {s : State} (hserde : ∀ s, decode (encode s) = some s) {disk : Disk D}
    (hpath : disk.path = some (encode s)) (hvalid : s.validate = .ok ()) :
    opens decode disk = some s := by
  simp [opens, readState, hpath, hserde, hvalid, Option.filter]

theorem opens_congr {disk disk' : Disk D} (h : disk'.path = disk.path) :
    opens decode disk' = opens decode disk := by
  rw [opens, opens, h]

theorem readState_valid {content : Option D} {s : State} (h : readState decode content = some s) :
    s.validate = .ok () := by
  obtain ⟨-, hvalid⟩ := Option.filter_eq_some_iff.mp h
  simpa using hvalid

/-- Reading the file that is there is opening it. -/
theorem opens_of_readState {content : Option D} {s : State} {disk : Disk D}
    (hcontent : content = none ∨ content = disk.path) (h : readState decode content = some s) :
    opens decode disk = some s := by
  rcases hcontent with rfl | rfl
  · cases h
  · unfold opens
    split
    case h_1 hnone =>
      rw [hnone] at h
      cases h
    case h_2 d hd => rwa [hd] at h

theorem Sound.published_history {mutate : State → State}
    (h : Sound encode decode s₀ sh cs) :
    mutate sh.published = (sh.log ++ [mutate]).foldl (fun s f => f s) s₀ := by
  rw [List.foldl_append, ← h.history]
  rfl

/-- A call that had not returned and has not returned now. -/
theorem Sound.same_returned (h : Sound encode decode s₀ sh (c :: others)) (hc : c.returned = none)
    (hc' : c'.returned = none) : sh.log.Perm ((c' :: others).filterMap Call.returned) := by
  have hsame : (c' :: others).filterMap Call.returned = (c :: others).filterMap Call.returned := by
    simp [hc, hc']
  rw [hsame]
  exact h.returned

theorem returned_eq_none (h : c.pc ≠ .succeeded) : c.returned = none := by
  unfold Call.returned
  split
  case h_1 hpc => exact absurd hpc h
  case h_2 => rfl

theorem not_succeeded_of_holds (h : c.pc.holds = true) : c.pc ≠ .succeeded := by
  intro hpc
  rw [hpc] at h
  cases h

variable {w : Procs (Shared D) (Call D)} {l : ℕ × Move D}

/-- The call that moves had the lock and still has it, or lets go of it; nobody else is concerned. -/
theorem Sound.holder (h : Sound encode decode s₀ sh (c :: others)) (hholds : c.pc.holds = true)
    (hc' : c'.pc ≠ .succeeded) (hlog : sh'.log = sh.log) (hpublished : sh'.published = sh.published)
    (hlock : sh'.locked = c'.pc.holds) (staged : Staged encode sh' c')
    (hpath : c'.pc.ahead = false → c.pc.ahead = false ∧ sh'.disk.path = sh.disk.path)
    (late : c'.pc.lateRename = false)
    (alone : c'.pc.writes = true → ∀ q ∈ others, q.pc.lateWrite = false) :
    Sound encode decode s₀ sh' (c' :: others) := by
  obtain ⟨-, hfree⟩ := h.nobody_else hholds
  refine .of_one hfree (fun q hq => h.noLateRename q (List.mem_cons_of_mem _ hq)) ?_ ?_ ?_ hlock staged
    ?_ late alone
  · rw [hpublished]
    exact h.valid
  · rw [hpublished, hlog]
    exact h.history
  · rw [hlog]
    exact h.same_returned (returned_eq_none (not_succeeded_of_holds hholds)) (returned_eq_none hc')
  · intro hahead
    obtain ⟨hbefore, hsame⟩ := hpath hahead
    rw [opens_congr hsame, hpublished]
    apply h.loaded
    intro q hq
    rcases List.mem_cons.mp hq with rfl | hq
    · exact hbefore
    · by_contra hnot
      have hq' := Pc.holds_of_ahead (by simpa using hnot)
      rw [hfree q hq] at hq'
      cases hq'

/-- The call that holds the lock publishes what the disk has. -/
theorem Sound.publish (h : Sound encode decode s₀ sh (c :: others)) (hholds : c.pc.holds = true) {s : State}
    (hvalid : s.validate = .ok ()) (hdisk : opens decode sh.disk = some s)
    (hkind : (∃ mutate, c.kind = .update mutate ∧ s = mutate sh.published) ∨
      c.kind = .reload ∧ s = sh.published) :
    Sound encode decode s₀ (sh.publish c.kind s) ({ c with pc := .succeeded } :: others) := by
  obtain ⟨-, hfree⟩ := h.nobody_else hholds
  have hreturned := h.returned
  rw [List.filterMap_cons, returned_eq_none (not_succeeded_of_holds hholds)] at hreturned
  refine .of_one hfree (fun q hq => h.noLateRename q (List.mem_cons_of_mem _ hq)) hvalid ?_ ?_ rfl
    (staged_of_not_holds rfl) (fun _ => hdisk) rfl (fun hfalse => by cases hfalse)
  · rcases hkind with ⟨mutate, hk, rfl⟩ | ⟨hk, rfl⟩
    · rw [hk]
      exact h.published_history
    · rw [hk]
      exact h.history
  · rcases hkind with ⟨mutate, hk, -⟩ | ⟨hk, -⟩
    · rw [hk]
      simp only [Shared.publish, List.filterMap_cons, Call.returned]
      exact (List.perm_append_singleton _ _).trans (hreturned.cons _)
    · rw [hk]
      simpa only [Shared.publish, List.filterMap_cons, Call.returned] using hreturned

/-- A call that does not have the lock changes neither the published state nor the state file. -/
theorem Sound.outsider (h : Sound encode decode s₀ sh (c :: others)) (hholds : c.pc.holds = false)
    (hc : c.pc ≠ .succeeded) {pc : Pc D} (hpc : pc = .failed ∨ pc = .dropped) {disk : Disk D}
    (hpath : disk.path = sh.disk.path)
    (htmp : disk.tmp = sh.disk.tmp ∨ ∀ q ∈ others, q.pc.writes = false) :
    Sound encode decode s₀ { sh with disk } ({ c with pc } :: others) := by
  have hpc' : pc.holds = false ∧ pc.ahead = false ∧ pc.lateRename = false ∧ pc.writes = false ∧
      pc.lateWrite = false ∧ pc ≠ .succeeded := by
    rcases hpc with rfl | rfl <;> exact ⟨rfl, rfl, rfl, rfl, rfl, by simp⟩
  obtain ⟨hfree, hahead, hlate, hwrites, hlateWrite, hnot⟩ := hpc'
  constructor
  · exact h.valid
  · exact h.history
  · exact h.same_returned (returned_eq_none hc) (returned_eq_none hnot)
  · have hlock := h.lock
    rw [total_cons, hholds] at hlock
    rw [total_cons, hfree]
    exact hlock
  · intro q hq
    rcases List.mem_cons.mp hq with rfl | hq
    · exact staged_of_not_holds hfree
    · have hstaged := h.staged q (List.mem_cons_of_mem _ hq)
      unfold Staged at hstaged ⊢
      rcases htmp with htmp | hnone
      · simpa only [htmp, hpath] using hstaged
      · have hq' := hnone q hq
        split
        case h_1 heq => rw [heq] at hq'; cases hq'
        case h_2 heq => rw [heq] at hq'; cases hq'
        case h_3 heq => simpa only [heq] using hstaged
        case h_4 heq => simpa only [heq, hpath] using hstaged
        case h_5 => trivial
  · intro hnone
    have hopens : opens decode { sh with disk }.disk = opens decode sh.disk := opens_congr hpath
    rw [hopens]
    apply h.loaded
    intro q hq
    rcases List.mem_cons.mp hq with rfl | hq
    · by_contra hq'
      have hholds' := Pc.holds_of_ahead (by simpa using hq')
      rw [hholds] at hholds'
      cases hholds'
    · exact hnone q (List.mem_cons_of_mem _ hq)
  · intro q hq
    rcases List.mem_cons.mp hq with rfl | hq
    · exact hlate
    · exact h.noLateRename q (List.mem_cons_of_mem _ hq)
  · rintro ⟨q, hq, hq'⟩ r hr
    have hother : ∃ q ∈ c :: others, q.pc.writes = true := by
      rcases List.mem_cons.mp hq with rfl | hq
      · rw [hwrites] at hq'
        cases hq'
      · exact ⟨q, List.mem_cons_of_mem _ hq, hq'⟩
    rcases List.mem_cons.mp hr with rfl | hr
    · exact hlateWrite
    · exact h.alone hother r (List.mem_cons_of_mem _ hr)

/-! ### File operations -/

theorem perform_path (disk : Disk D) (next : State) (ok : Bool) (torn : Option D) (op : Op) :
    (disk.perform encode next ok torn op).1.path = disk.path ∨
      op = .rename ∧ (disk.perform encode next ok torn op).2 = true := by
  unfold Disk.perform
  split
  · split <;> exact .inl rfl
  · exact .inl rfl
  · exact .inl rfl
  · exact .inl rfl
  · split
    · exact .inr ⟨rfl, rfl⟩
    · exact .inl rfl

/-- Only a write and a rename touch the temporary file. -/
theorem perform_tmp (disk : Disk D) (next : State) (ok : Bool) (torn : Option D) {op : Op}
    (hwrite : op ≠ .write) (hrename : op ≠ .rename) :
    (disk.perform encode next ok torn op).1.tmp = disk.tmp := by
  unfold Disk.perform
  split
  · exact absurd rfl hwrite
  · rfl
  · rfl
  · rfl
  · exact absurd rfl hrename

/-- An operation that succeeds leaves the document where the next one, or the reader, looks for it. -/
theorem perform_staged {disk : Disk D} {next : State} {ok : Bool} {torn : Option D} {op : Op}
    (htmp : op ≠ .write → disk.tmp = some (encode next))
    (hok : (disk.perform encode next ok torn op).2 = true) :
    (if op = .rename then (disk.perform encode next ok torn op).1.path
      else (disk.perform encode next ok torn op).1.tmp) = some (encode next) := by
  by_cases hrename : op = .rename
  · subst hrename
    have htmp' := htmp (by simp)
    rw [if_pos rfl]
    unfold Disk.perform at hok ⊢
    simp only [htmp'] at hok ⊢
    match ok with
    | true => rfl
    | false => cases hok
  · rw [if_neg hrename]
    by_cases hwrite : op = .write
    · subst hwrite
      unfold Disk.perform at hok ⊢
      match ok with
      | true => rfl
      | false => cases hok
    · rw [perform_tmp disk next ok torn hwrite hrename]
      exact htmp hwrite

/-! ### The invariant -/

theorem Sound.begins (h : Sound encode decode s₀ sh (c :: others)) (hfree : sh.locked = false) {pc : Pc D}
    (hholds : pc.holds = true) (hlate : pc.lateRename = false)
    (hc : c.pc ≠ .succeeded) (hpc : pc ≠ .succeeded)
    (staged : Staged encode { sh with locked := true } { c with pc })
    (alone : pc.writes = true → ∀ q ∈ others, q.pc.lateWrite = false) :
    Sound encode decode s₀ { sh with locked := true } ({ c with pc } :: others) := by
  have hnobody := h.nobody hfree
  refine .of_one (fun q hq => hnobody q (List.mem_cons_of_mem _ hq))
    (fun q hq => h.noLateRename q (List.mem_cons_of_mem _ hq)) h.valid h.history
    (h.same_returned (returned_eq_none hc) (returned_eq_none hpc)) hholds.symm staged (fun _ => ?_) hlate alone
  apply h.loaded
  intro q hq
  by_contra hnot
  have hq' := Pc.holds_of_ahead (by simpa using hnot)
  rw [hnobody q hq] at hq'
  cases hq'

theorem Sound.course {m : Move D} (hserde : ∀ s, decode (encode s) = some s)
    (h : Sound encode decode s₀ sh (c :: others)) (kept : m.isDrop = true → c.pc.inRename = false)
    (alone : m.isAcquire = true → c.kind.isUpdate = true → ∀ q ∈ others, q.pc.lateWrite = false)
    (hcourse : Course encode decode sh c m sh' c') : Sound encode decode s₀ sh' (c' :: others) := by
  have hstaged := h.staged c List.mem_cons_self
  unfold Staged at hstaged
  cases hcourse with
  | quits hpc hend =>
    exact h.outsider (by rw [hpc]; rfl) (by rw [hpc]; simp) hend rfl (.inl rfl)
  | begins mutate hpc hkind hfree hvalid =>
    refine h.begins hfree rfl rfl (by rw [hpc]; simp) (by simp)
      ⟨⟨hvalid, mutate, hkind, rfl⟩, fun hwrite => absurd rfl hwrite⟩ fun _ => ?_
    exact alone rfl (by rw [hkind]; rfl)
  | reads hpc hkind hfree =>
    exact h.begins hfree rfl rfl (by rw [hpc]; simp) (by simp) hkind (fun hfalse => by cases hfalse)
  | executes op next ok torn hpc =>
    rw [hpc] at hstaged
    obtain ⟨hmade, htmp⟩ := hstaged
    have hholds : c.pc.holds = true := by rw [hpc]; rfl
    refine h.holder hholds (by simp) rfl rfl (h.nobody_else hholds).1 ⟨hmade, perform_staged htmp⟩
      (fun hbehind => ⟨by rw [hpc]; rfl, ?_⟩) rfl fun _ q hq => ?_
    · obtain hsame | ⟨rfl, hok⟩ := perform_path sh.disk next ok torn op
      · exact hsame
      · rw [hok] at hbehind
        cases hbehind
    · exact h.alone ⟨c, List.mem_cons_self, by rw [hpc]; rfl⟩ q (List.mem_cons_of_mem _ hq)
  | advances op op' next hpc hop =>
    rw [hpc] at hstaged
    obtain ⟨hmade, hfile⟩ := hstaged
    have hholds : c.pc.holds = true := by rw [hpc]; rfl
    have hrename : op ≠ .rename := by
      rintro rfl
      cases hop
    refine h.holder hholds (by simp) rfl rfl (h.nobody_else hholds).1 ⟨hmade, fun _ => ?_⟩
      (fun _ => ⟨?_, rfl⟩) rfl fun _ q hq => ?_
    · simpa [hrename] using hfile rfl
    · rw [hpc]
      unfold Pc.ahead
      split
      case h_1 heq =>
        cases heq
        exact absurd rfl hrename
      case h_2 => rfl
    · exact h.alone ⟨c, List.mem_cons_self, by rw [hpc]; rfl⟩ q (List.mem_cons_of_mem _ hq)
  | publishes next hpc =>
    rw [hpc] at hstaged
    obtain ⟨⟨hvalid, hmade⟩, hfile⟩ := hstaged
    exact h.publish (by rw [hpc]; rfl) hvalid (opens_of_path hserde (by simpa using hfile rfl) hvalid)
      (.inl hmade)
  | ends hholds hend hdrop =>
    have hpc' : ∀ pc : Pc D, pc = .failed ∨ pc = .dropped → pc.holds = false ∧ pc.lateRename = false ∧
        pc.writes = false ∧ pc ≠ .succeeded := by
      rintro pc (rfl | rfl) <;> exact ⟨rfl, rfl, rfl, by simp⟩
    obtain ⟨hfree, hlate, hwrites, hnot⟩ := hpc' _ hend
    refine h.holder hholds hnot rfl rfl hfree.symm (staged_of_not_holds hfree) (fun _ => ⟨?_, rfl⟩) hlate
      fun hfalse => absurd hfalse (by simp [hwrites])
    unfold Pc.ahead
    split
    case h_1 next hpc =>
      -- The rename is done: the call can only have been dropped here, which the condition excludes.
      have hno := kept (by rw [hdrop next hpc]; rfl)
      rw [hpc] at hno
      cases hno
    case h_2 => rfl
  | abandons op next hpc =>
    have hholds : c.pc.holds = true := by rw [hpc]; rfl
    have hno := kept rfl
    rw [hpc] at hno
    refine h.holder hholds (by simp) rfl rfl rfl (staged_of_not_holds rfl) (fun _ => ⟨by rw [hpc]; rfl, rfl⟩)
      ?_ (fun hfalse => by cases hfalse)
    match op, hno with
    | .write, _ => rfl
    | .restrictPermissions, _ => rfl
    | .open_, _ => rfl
    | .syncAll, _ => rfl
  | has_read content hpc hcontent =>
    rw [hpc] at hstaged
    have hholds : c.pc.holds = true := by rw [hpc]; rfl
    exact h.holder hholds (by simp) rfl rfl (h.nobody_else hholds).1 ⟨hstaged, hcontent⟩
      (fun _ => ⟨by rw [hpc]; rfl, rfl⟩) rfl (fun hfalse => by cases hfalse)
  | republishes content s hpc hstate =>
    rw [hpc] at hstaged
    obtain ⟨hkind, hcontent⟩ := hstaged
    have hholds : c.pc.holds = true := by rw [hpc]; rfl
    have hopens := opens_of_readState hcontent hstate
    have hloaded : opens decode sh.disk = some sh.published := by
      apply h.loaded
      intro q hq
      rcases List.mem_cons.mp hq with rfl | hq
      · rw [hpc]
        rfl
      · by_contra hnot
        have hq' := Pc.holds_of_ahead (by simpa using hnot)
        rw [(h.nobody_else hholds).2 q hq] at hq'
        cases hq'
    rw [hopens, Option.some_inj] at hloaded
    exact h.publish hholds (readState_valid hstate) hopens (.inr ⟨hkind, hloaded⟩)
  | late op next ok torn hpc =>
    have hrename : op ≠ .rename := by
      rintro rfl
      have hno := h.noLateRename c List.mem_cons_self
      rw [hpc] at hno
      cases hno
    refine h.outsider (by rw [hpc]; rfl) (by rw [hpc]; simp) (.inr rfl) ?_ ?_
    · obtain hsame | ⟨hop, -⟩ := perform_path sh.disk next ok torn op
      · exact hsame
      · exact absurd hop hrename
    · by_cases hwrite : op = .write
      · subst hwrite
        refine .inr fun q hq => ?_
        by_contra hnot
        have hno := h.alone ⟨q, List.mem_cons_of_mem _ hq, by simpa using hnot⟩ c List.mem_cons_self
        rw [hpc] at hno
        cases hno
      · exact .inl (perform_tmp sh.disk next ok torn hwrite hrename)

theorem Sound.step (hserde : ∀ s, decode (encode s) = some s) {w : Procs (Shared D) (Call D)}
    {l : ℕ × Move D} (h : Sound encode decode s₀ w.shared w.procs) (ok : Undisturbed w l) :
    Sound encode decode s₀ (step encode decode w l).shared (step encode decode w l).procs := by
  obtain hsame | ⟨c, sh', c', hc, hact, hstep⟩ := w.step_cases (act encode decode) l
  · rw [Store.step, hsame]
    exact h
  · rw [Store.step, hstep]
    have hmoved := (h.perm (perm_eraseIdx hc)).course hserde (ok.kept c hc)
      (fun hacquire hupdate q hq => ok.alone c hc hacquire hupdate q (List.mem_of_mem_eraseIdx hq))
      (act_course hact)
    exact hmoved.perm (set_perm_eraseIdx c' hc).symm

/-! ## Runs -/

/-- Mutations are only ever added to the log. -/
theorem log_prefix (w : Procs (Shared D) (Call D)) (ls : List (ℕ × Move D)) :
    w.shared.log <+: (run (step encode decode) w ls).shared.log := by
  induction ls generalizing w with
  | nil => exact List.prefix_rfl
  | cons l ls ih =>
    rw [run_cons]
    refine List.IsPrefix.trans ?_ (ih _)
    obtain hsame | ⟨c, sh', c', hc, hact, hstep⟩ := w.step_cases (act encode decode) l
    · have hlog : (Store.step encode decode w l).shared.log = w.shared.log :=
        congrArg (fun w => w.shared.log) hsame
      exact hlog ▸ List.prefix_rfl
    · rw [Store.step, hstep]
      have hpublish (s : State) : w.shared.log <+: (w.shared.publish c.kind s).log := by
        unfold Shared.publish
        match c.kind with
        | .update mutate => exact List.prefix_append _ _
        | .reload => exact List.prefix_rfl
      have hcourse := act_course hact
      generalize l.2 = m at hcourse
      cases hcourse with
      | publishes next hpc => exact hpublish next
      | republishes content s hpc hstate => exact hpublish s
      | quits => exact List.prefix_rfl
      | begins => exact List.prefix_rfl
      | reads => exact List.prefix_rfl
      | executes => exact List.prefix_rfl
      | advances => exact List.prefix_rfl
      | ends => exact List.prefix_rfl
      | abandons => exact List.prefix_rfl
      | has_read => exact List.prefix_rfl
      | late => exact List.prefix_rfl

theorem Sound.new {s : State} {disk : Disk D} (hopen : opens decode disk = some s) (calls : List Kind) :
    Sound encode decode s (opened s disk calls).shared (opened s disk calls).procs := by
  have hwaiting : ∀ c ∈ (opened s disk calls).procs, c.pc = .waiting := by
    intro c hc
    obtain ⟨kind, -, rfl⟩ := List.mem_map.mp hc
    rfl
  have hidle : ∀ c ∈ (opened s disk calls).procs, c.pc.holds = false := by
    intro c hc
    rw [hwaiting c hc]
    rfl
  constructor
  · unfold opens at hopen
    split at hopen
    · cases hopen
      exact (by decide : State.default.validate = .ok ())
    · exact readState_valid hopen
  · rfl
  · have hnone : (opened s disk calls).procs.filterMap Call.returned = [] := by
      rw [List.filterMap_eq_nil_iff]
      intro c hc
      exact returned_eq_none (by rw [hwaiting c hc]; simp)
    rw [hnone]
    exact List.Perm.refl _
  · apply total_eq_zero
    intro c hc
    simp [hidle c hc]
  · exact fun c hc => staged_of_not_holds (hidle c hc)
  · exact fun _ => hopen
  · intro c hc
    rw [hwaiting c hc]
    rfl
  · rintro - q hq
    rw [hwaiting q hq]
    rfl

theorem not_ahead_of_not_inProgress {pc : Pc D} (h : pc.inProgress = false) : pc.ahead = false := by
  unfold Pc.ahead
  split
  case h_1 => cases h
  case h_2 => rfl

/-! ### Without a condition -/

/-- The state an update is about to publish. -/
def Pc.document : Pc D → Option State
  | .pending _ next => some next
  | .finished _ next _ => some next
  | _ => none

/-- What is published, and what an update is about to publish, has been validated. -/
def Validated (sh : Shared D) (cs : List (Call D)) : Prop :=
  sh.published.validate = .ok () ∧ ∀ c ∈ cs, ∀ next ∈ c.pc.document, next.validate = .ok ()

theorem Validated.course {m : Move D} (h : Validated sh (c :: others))
    (hcourse : Course encode decode sh c m sh' c') : Validated sh' (c' :: others) := by
  obtain ⟨hpublished, hdocuments⟩ := h
  have hself := hdocuments c List.mem_cons_self
  suffices sh'.published.validate = .ok () ∧ ∀ next ∈ c'.pc.document, next.validate = .ok () by
    refine ⟨this.1, fun q hq => ?_⟩
    rcases List.mem_cons.mp hq with rfl | hq
    · exact this.2
    · exact hdocuments q (List.mem_cons_of_mem _ hq)
  cases hcourse with
  | quits hpc hend => exact ⟨hpublished, by rcases hend with rfl | rfl <;> simp [Pc.document]⟩
  | begins mutate hpc hkind hfree hvalid => exact ⟨hpublished, by simpa [Pc.document] using hvalid⟩
  | reads hpc hkind hfree => exact ⟨hpublished, by simp [Pc.document]⟩
  | executes op next ok torn hpc => exact ⟨hpublished, by simpa [Pc.document, hpc] using hself⟩
  | advances op op' next hpc hop => exact ⟨hpublished, by simpa [Pc.document, hpc] using hself⟩
  | publishes next hpc =>
    have hvalid : next.validate = .ok () := by simpa [Pc.document, hpc] using hself
    exact ⟨hvalid, by simp [Pc.document]⟩
  | ends hholds hend hdrop => exact ⟨hpublished, by rcases hend with rfl | rfl <;> simp [Pc.document]⟩
  | abandons op next hpc => exact ⟨hpublished, by simp [Pc.document]⟩
  | has_read content hpc hcontent => exact ⟨hpublished, by simp [Pc.document]⟩
  | republishes content s hpc hstate => exact ⟨readState_valid hstate, by simp [Pc.document]⟩
  | late op next ok torn hpc => exact ⟨hpublished, by simp [Pc.document]⟩

/-- **The published state is valid** in every state of every run, whatever fails or is dropped. -/
theorem published_valid {s : State} {disk : Disk D} (hvalid : s.validate = .ok ()) (calls : List Kind)
    (ls : List (ℕ × Move D)) :
    (run (step encode decode) (opened s disk calls) ls).shared.published.validate = .ok () := by
  have hinv : Validated (run (step encode decode) (opened s disk calls) ls).shared
      (run (step encode decode) (opened s disk calls) ls).procs := by
    apply run_invariant (I := fun w : Procs (Shared D) (Call D) => Validated w.shared w.procs)
    · intro w l hw
      obtain hsame | ⟨c, sh', c', hc, hact, hstep⟩ := w.step_cases (act encode decode) l
      · rw [Store.step, hsame]
        exact hw
      · rw [Store.step, hstep]
        have hbefore : Validated w.shared (c :: w.procs.eraseIdx l.1) :=
          ⟨hw.1, fun q hq => hw.2 q ((perm_eraseIdx hc).mem_iff.mpr hq)⟩
        obtain ⟨hpublished, hdocuments⟩ := hbefore.course (act_course hact)
        exact ⟨hpublished, fun q hq => hdocuments q ((set_perm_eraseIdx c' hc).mem_iff.mp hq)⟩
    · refine ⟨hvalid, fun c hc => ?_⟩
      obtain ⟨kind, -, rfl⟩ := List.mem_map.mp hc
      simp [Pc.document]
  exact hinv.1

/-! ### In an undisturbed run -/

/-- **Memory and disk agree.** In every state of every undisturbed run of any number of updates and
reloads the published state is valid and is what the updates that returned `Ok`, and nothing else, make of
the state the store was opened with, in an order that later steps only extend; and whenever no call is in
progress, opening the file gives the published state. -/
theorem store_agrees (encode : State → D) (decode : D → Option State)
    (hserde : ∀ s, decode (encode s) = some s) (s : State) (disk : Disk D)
    (hopen : opens decode disk = some s) (calls : List Kind) {ls ls' : List (ℕ × Move D)}
    (hrun : Along (step encode decode) Undisturbed (opened s disk calls) (ls ++ ls')) :
    let w := run (step encode decode) (opened s disk calls) ls
    let w' := run (step encode decode) (opened s disk calls) (ls ++ ls')
    w'.shared.published.validate = .ok () ∧
      ((∀ c ∈ w'.procs, c.pc.inProgress = false) →
        opens decode w'.shared.disk = some w'.shared.published) ∧
      w'.shared.published = w'.shared.log.foldl (fun s mutate => mutate s) s ∧
      w'.shared.log.Perm (w'.procs.filterMap Call.returned) ∧ w.shared.log <+: w'.shared.log := by
  intro w w'
  have hsound : Sound encode decode s w'.shared w'.procs := by
    apply hrun.invariant (I := fun w => Sound encode decode s w.shared w.procs)
    · exact fun w l hw ok => hw.step hserde ok
    · exact Sound.new hopen calls
  refine ⟨hsound.valid, fun hidle => ?_, hsound.history, hsound.returned, ?_⟩
  · apply hsound.loaded
    exact fun c hc => not_ahead_of_not_inProgress (hidle c hc)
  · have hsplit : w' = run (step encode decode) w ls' := run_append ..
    rw [hsplit]
    exact log_prefix w ls'

/-- An update that adds a secret. -/
def addSecret : Kind := .update fun s => { s with secrets := s.secrets.insert ['k'] ['v'] }

/-- A call takes the lock and makes all operations of `write_atomic` up to the last one. -/
def upToRename (i : ℕ) : List (ℕ × Move (Option State)) :=
  [(i, .acquire), (i, .execute true none), (i, .poll), (i, .execute true none), (i, .poll),
    (i, .execute true none), (i, .poll), (i, .execute true none), (i, .poll), (i, .execute true none)]

/-- An update that is let finish, one that is dropped early and a reload. -/
theorem store_agrees_after_update :
    let w := run (step some id) (opened State.default ⟨none, none⟩ [addSecret, addSecret, .reload])
      (upToRename 0 ++ [(0, .poll), (1, .acquire), (1, .drop), (1, .execute true none), (2, .acquire),
        (2, .execute true none), (2, .poll)])
    opens id w.shared.disk = some { State.default with secrets := SortedMap.empty.insert ['k'] ['v'] } := by
  intro w
  have hrun : Along (step some id) Undisturbed
      (opened State.default ⟨none, none⟩ [addSecret, addSecret, .reload])
      (upToRename 0 ++ [(0, .poll), (1, .acquire), (1, .drop), (1, .execute true none), (2, .acquire),
        (2, .execute true none), (2, .poll)]) := by decide
  have hagree := store_agrees some id (fun _ => rfl) State.default ⟨none, none⟩ rfl
    [addSecret, addSecret, .reload] hrun
  exact (hagree.2.1 (by decide)).trans (by decide)

/-- The claim that memory and disk agree whatever is dropped fails: the update is dropped when its rename
is done and it has not been told. -/
theorem not_store_agrees :
    ¬ ∀ (D : Type) (encode : State → D) (decode : D → Option State), (∀ s, decode (encode s) = some s) →
      ∀ (s : State) (disk : Disk D), opens decode disk = some s →
      ∀ (calls : List Kind) (ls : List (ℕ × Move D)),
      (∀ c ∈ (run (step encode decode) (opened s disk calls) ls).procs, c.pc.inProgress = false) →
      opens decode (run (step encode decode) (opened s disk calls) ls).shared.disk =
        some (run (step encode decode) (opened s disk calls) ls).shared.published := by
  intro hclaim
  have hagree := hclaim (Option State) some id (fun _ => rfl) State.default ⟨none, none⟩ rfl [addSecret]
    (upToRename 0 ++ [(0, .drop)]) (by decide)
  revert hagree
  decide

end Havuz.Store
