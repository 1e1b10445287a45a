import Havuz.Pool.Bounds

/-!
# Where the connections of a pool are

A connection of the pool is on its idle queue or in the hands of one task, until it is retired, which means that it
is sent to the closer. No move loses one or doubles one (`act_conserves`).
-/

namespace Havuz.Pool

open Lib

variable {κ : Type}

/-- The connection that a call in progress has in hand. -/
def Pc.inHand : Pc κ → List κ
  | .popped c => [c]
  | .fetched c => [c]
  | .opened c => [c]
  | .uncounted co => [co.conn]
  | .shelving c => [c]
  | .counted c => [c]
  | _ => []

/-- The connections that a task has. -/
def Task.inHand (t : Task κ) : List κ := (t.mine ++ t.held).map Checkout.conn ++ t.pc.inHand

/-- What `reap` retires. -/
def reapRetired (unfit tooIdle : κ → Bool) : ℕ → List κ → List κ
  | _, [] => []
  | budget, c :: rest =>
      if unfit c then c :: reapRetired unfit tooIdle budget rest
      else if tooIdle c ∧ 0 < budget then c :: reapRetired unfit tooIdle (budget - 1) rest
      else reapRetired unfit tooIdle budget rest

/-- What a move sends to the closer. -/
def retires (m : Move κ) (s : Inner κ) (t : Task κ) : List κ :=
  match t.pc, m with
  | .ready, .reap unfit tooIdle =>
      if t.warm.isNone then reapRetired unfit tooIdle (s.idle.length - s.minIdle) s.idle else []
  | .fetched c, .judge true => [c]
  | .uncounted co, .judge unfit => if co.discard || unfit || s.status.isDraining then [co.conn] else []
  -- `close_idle` pops them off the back
  | .sweeping, .go => s.idle.reverse
  | _, _ => []

/-- The connection that a move opens. -/
def Move.opens : Move κ → List κ
  | .connect (some c) => [c]
  | _ => []

variable [DecidableEq κ]

/-- `reap` keeps a connection or retires it. -/
theorem reapLoop_count (unfit tooIdle : κ → Bool) (budget : ℕ) (q : List κ) (c : κ) :
    (reapLoop unfit tooIdle budget q).1.count c + (reapRetired unfit tooIdle budget q).count c = q.count c := by
  induction q generalizing budget with
  | nil => rfl
  | cons d rest ih =>
      unfold reapLoop reapRetired
      split
      · have hrest := ih budget
        simp only [List.count_cons]
        omega
      · split
        · have hrest := ih (budget - 1)
          simp only [List.count_cons]
          omega
        · have hrest := ih budget
          simp only [List.count_cons]
          omega

/-- What a move keeps of a connection: it stays, comes or is retired. -/
def Conserves (m : Move κ) (s : Inner κ) (t : Task κ) (s' : Inner κ) (t' : Task κ) : Prop :=
  ∀ c, s'.idle.count c + t'.inHand.count c + (retires m s t).count c =
    s.idle.count c + t.inHand.count c + m.opens.count c

variable {m : Move κ} {s s' : Inner κ} {t t' : Task κ}

/-- A move within a call: the checkouts of the task stay as they are. -/
theorem Conserves.of_pc {p : Pc κ}
    (h : ∀ c, s'.idle.count c + p.inHand.count c + (retires m s t).count c =
      s.idle.count c + t.pc.inHand.count c + m.opens.count c) : Conserves m s t s' { t with pc := p } := by
  intro c
  have hc := h c
  simp only [Task.inHand, List.count_append] at hc ⊢
  omega

/-- The end of a call that got no connection. -/
theorem Conserves.of_miss (hidle : s'.idle = s.idle) (hpc : t.pc.inHand = []) (hretires : retires m s t = [])
    (hopens : m.opens = []) : Conserves m s t s' t.miss := by
  intro c
  simp only [hidle, hretires, hopens, Task.inHand, hpc]
  rfl

theorem Task.inHand_receive (co : Checkout κ) (t : Task κ) (c : κ) :
    (t.receive co).inHand.count c + t.pc.inHand.count c = t.inHand.count c + [co.conn].count c := by
  unfold receive
  split
  · simp [Task.inHand, Pc.inHand, List.count_append, List.count_cons]
    omega
  · simp [Task.inHand, Pc.inHand, List.count_append, List.count_cons]
    omega

/-- The end of a call that got the one it had in hand. -/
theorem Conserves.of_receive {c : κ} (hidle : s'.idle = s.idle) (hpc : t.pc.inHand = [c]) (hretires : retires m s t = [])
    (hopens : m.opens = []) : Conserves m s t s' (t.receive ⟨c, false⟩) := by
  intro d
  have hreceive := t.inHand_receive ⟨c, false⟩ d
  rw [hpc] at hreceive
  rw [hidle, hretires, hopens, List.count_nil, Nat.add_zero, Nat.add_zero]
  simp only at hreceive
  omega

theorem startAcquire_conserves (hpc : t.pc = .ready) (hretires : retires m s t = []) (hopens : m.opens = [])
    (h : startAcquire s t = (s', t')) : Conserves m s t s' t' := by
  unfold startAcquire at h
  split at h
  · cases h
    refine .of_pc fun c => ?_
    rw [hretires, hopens, hpc]
    rfl
  · cases h
    exact .of_miss rfl (by rw [hpc]; rfl) hretires hopens

theorem begin_conserves (hpc : t.pc = .ready) (hwarm : t.warm = none) (h : begin m s t = some (s', t')) :
    Conserves m s t s' t' := by
  unfold begin at h
  split at h
  case h_1 => exact startAcquire_conserves hpc (by simp [retires, hpc]) rfl (Option.some.inj h)
  case h_2 =>
    split at h
    · cases h
    · cases h
      exact fun c => by simp [retires, hpc, Task.inHand, Move.opens]
  case h_3 i =>
    split at h
    case h_1 => cases h
    case h_2 co hco =>
      cases h
      intro c
      have hmine := ((perm_eraseIdx hco).map Checkout.conn).count_eq c
      simp only [retires, hpc, Task.inHand, Pc.inHand, Move.opens, List.map_append, List.map_cons, List.count_append,
        List.count_cons, List.count_nil] at hmine ⊢
      omega
  case h_4 i =>
    split at h
    case h_1 => cases h
    case h_2 co hco =>
      cases h
      intro c
      have hold := ((perm_eraseIdx hco).map Checkout.conn).count_eq c
      have hnew := ((set_perm_eraseIdx { co with discard := true } hco).map Checkout.conn).count_eq c
      simp only [retires, hpc, Task.inHand, Pc.inHand, Move.opens, List.map_append, List.map_cons, List.count_append,
        List.count_nil] at hold hnew ⊢
      omega
  case h_5 unfit tooIdle =>
    cases h
    refine .of_pc fun c => ?_
    have hcount := reapLoop_count unfit tooIdle (s.idle.length - s.minIdle) s.idle c
    simp only [retires, hpc, hwarm, Pc.inHand, Move.opens, List.count_nil, Option.isNone_none, if_true]
    omega
  case h_6 =>
    cases h
    exact .of_pc fun c => by simp [retires, hpc, Pc.inHand, Move.opens]
  case h_7 =>
    cases h
    exact .of_pc fun c => by simp [retires, hpc, Pc.inHand, Move.opens]
  case h_8 =>
    cases h
    exact fun c => by simp [retires, hpc, Task.inHand, Move.opens]
  case h_9 =>
    cases h
    exact fun c => by simp [retires, hpc, Task.inHand, Move.opens]
  case h_10 => cases h

theorem warm_conserves {k : ℕ} (hpc : t.pc = .ready) (hm : retires m s t = []) (hopens : m.opens = [])
    (h : warm k s t = some (s', t')) : Conserves m s t s' t' := by
  unfold warm at h
  split at h
  case h_1 => exact startAcquire_conserves hpc hm hopens (Option.some.inj h)
  case h_2 =>
    cases h
    intro c
    rw [hm, hopens]
    rfl
  case h_3 co rest hheld =>
    cases h
    intro c
    simp only [hm, hopens, Task.inHand, hpc, hheld, Pc.inHand, List.map_append, List.map_cons, List.count_append,
      List.count_cons, List.count_nil]
    omega

/-- **No move loses a connection.** -/
theorem act_conserves (h : act m s t = some (s', t')) : Conserves m s t s' t' := by
  unfold act at h
  split at h
  case h_1 hpc =>
    split at h
    case h_1 hwarm => exact begin_conserves hpc hwarm h
    case h_2 =>
      split at h
      case h_1 => exact warm_conserves hpc (by simp [retires, hpc]) rfl h
      case h_2 => cases h
  case h_3 hpc =>
    split at h
    case isTrue =>
      cases h
      exact .of_pc fun c => by simp [retires, hpc, Pc.inHand, Move.opens]
    case isFalse =>
      split at h
      case isFalse => cases h
      case isTrue =>
        cases h
        exact .of_pc fun c => by simp [retires, hpc, Pc.inHand, Move.opens]
  case h_8 hpc =>
    cases h
    exact .of_miss rfl (by rw [hpc]; rfl) (by simp [retires, hpc]) rfl
  case h_9 hpc =>
    split at h
    case h_1 hempty =>
      cases h
      exact .of_pc fun c => by simp [retires, hpc, Pc.inHand, Move.opens]
    case h_2 c rest hidle =>
      cases h
      refine .of_pc fun d => ?_
      simp only [retires, hpc, hidle, Pc.inHand, Move.opens, List.count_cons, List.count_nil]
      omega
  case h_11 c unfit hpc =>
    split at h
    case isTrue hunfit =>
      cases h
      refine .of_pc fun d => ?_
      simp [retires, hpc, hunfit, Pc.inHand, Move.opens]
    case isFalse hunfit =>
      cases h
      exact .of_receive rfl (by rw [hpc]; rfl) (by simp [retires, hpc, hunfit]) rfl
  case h_15 c hpc =>
    cases h
    exact .of_receive rfl (by rw [hpc]; rfl) (by simp [retires, hpc]) rfl
  case h_16 hpc =>
    cases h
    exact .of_miss rfl (by rw [hpc]; rfl) (by simp [retires, hpc]) rfl
  case h_17 co unfit hpc =>
    split at h
    case isTrue hretires =>
      cases h
      refine .of_pc fun d => ?_
      simp only [retires, hpc, hretires, if_true, Pc.inHand, Move.opens, List.count_nil]
      omega
    case isFalse hkeeps =>
      cases h
      refine .of_pc fun d => ?_
      simp only [retires, hpc, if_neg hkeeps, Pc.inHand, Move.opens, List.count_nil]
  case h_19 c hpc =>
    cases h
    refine .of_pc fun d => ?_
    simp only [retires, hpc, Pc.inHand, Move.opens, List.count_append, List.count_nil]
  case h_22 hpc =>
    cases h
    refine .of_pc fun d => ?_
    simp only [retires, hpc, Pc.inHand, Move.opens, List.count_reverse, List.count_nil]
    omega
  case h_25 => cases h
  all_goals
    rename_i hpc
    cases h
    exact .of_pc fun d => by simp [retires, hpc, Pc.inHand, Move.opens]

end Havuz.Pool
