import Havuz.Lib.Run
import Havuz.Sql.Noise
import Havuz.Sql.Params

/-!
# A read-only session stays read-only

Reference: `actions_for_sql`, `defeats_read_only`, `enforce_read_only` and `delta` of `havuz-pg/src/params.rs`.

A text is asked two questions: whether it would let the session write again, and what it does to the parameters. The
first finds the keyword in the statement as it stands, the second in what is left of it without its end, so both have to
find the same one (`defeats_of_acts`). Where the first says no, the second has no action that touches the setting.
-/

namespace Havuz.Sql

open Lib

/-! ## Both questions look at the same text -/

theorem trimStart_trimStart (t : Text) : Text.trimStart (Text.trimStart t) = Text.trimStart t :=
  List.dropWhile_idempotent _ _

/-- The blanks behind a comment go with it. -/
theorem trimStart_behindComment {t rest : Text} (h : behindComment t = some rest) : Text.trimStart rest = rest := by
  unfold behindComment at h
  split at h
  case h_1 after _ =>
    cases h
    exact trimStart_trimStart _
  case h_2 =>
    split at h
    case h_1 after _ =>
      cases h
      cases Text.afterFirst ['*', '/'] after with
      | none => rfl
      | some rest => exact trimStart_trimStart rest
    case h_2 => cases h

/-- What is left has neither a blank nor a comment in front. -/
theorem stripLoop_stripped {fuel : ℕ} {t : Text} (hfuel : t.length ≤ fuel) (htrim : Text.trimStart t = t) :
    Text.trimStart (stripLeadingNoiseLoop fuel t) = stripLeadingNoiseLoop fuel t ∧
      behindComment (stripLeadingNoiseLoop fuel t) = none := by
  induction fuel generalizing t with
  | zero =>
      obtain rfl : t = [] := List.length_eq_zero_iff.mp (by omega)
      exact ⟨rfl, rfl⟩
  | succ fuel ih =>
      rw [stripLoop_succ]
      cases hcomment : behindComment t with
      | none => exact ⟨htrim, hcomment⟩
      | some rest =>
          have hless := behindComment_length hcomment
          exact ih (by omega) (trimStart_behindComment hcomment)

theorem strip_strip (t : Text) : stripLeadingNoise (stripLeadingNoise t) = stripLeadingNoise t := by
  obtain ⟨htrim, hcomment⟩ := stripLoop_stripped (trimStart_length t) (trimStart_trimStart t)
  exact strip_none htrim hcomment

theorem trimEnd_starts (t : Text) : Text.trimEnd t <+: t := by
  have hsuffix := List.reverse_prefix.mpr (List.dropWhile_suffix (l := t.reverse) isWhitespace)
  rwa [List.reverse_reverse] at hsuffix

theorem stripSuffixChar_starts (c : Char) (t : Text) : Text.stripSuffixChar c t <+: t := by
  unfold Text.stripSuffixChar
  split
  case h_1 d rest hreverse =>
    split_ifs with hd
    · have hcons := List.reverse_prefix.mpr (List.suffix_cons d rest)
      rwa [← hreverse, List.reverse_reverse] at hcons
    · exact List.prefix_rfl
  case h_2 => exact List.prefix_rfl

/-- The classified text is what is left of the statement, without its end. -/
theorem normalizeStatement_starts (s : Text) : normalizeStatement s <+: stripLeadingNoise s :=
  (trimEnd_starts _).trans ((stripSuffixChar_starts ';' _).trans (trimEnd_starts _))

theorem normalizeStatement_strip (s : Text) : normalizeStatement (stripLeadingNoise s) = normalizeStatement s := by
  rw [normalizeStatement, strip_strip, normalizeStatement]

theorem classifySet_strip (s : Text) : classifySet (stripLeadingNoise s) = classifySet s := by
  rw [classifySet, normalizeStatement_strip, classifySet]

/-- A word that something follows is the same word when more follows. -/
theorem takeWord_prefix {t u : Text} (h : t <+: u) (hrest : (takeWord t).2 ≠ []) : (takeWord u).1 = (takeWord t).1 := by
  obtain ⟨more, rfl⟩ := h
  have htrim : Text.trimStart t ≠ [] := fun hnil => hrest (by rw [takeWord, hnil]; rfl)
  have hshort : ¬ (Text.trimStart t).all (! endsWord ·) = true := fun hall =>
    hrest (List.dropWhile_eq_nil_iff.mpr (List.all_eq_true.mp hall))
  have hgrow : Text.trimStart (t ++ more) = Text.trimStart t ++ more := by
    rw [Text.trimStart, List.dropWhile_append]
    exact if_neg (by simpa [Text.trimStart] using htrim)
  show (Text.trimStart (t ++ more)).takeWhile (! endsWord ·) = _
  rw [hgrow, List.takeWhile_append, if_neg]
  · rfl
  · intro hlength
    exact hshort (List.all_eq_true.mpr (List.takeWhile_eq_self_iff.mp
      ((List.takeWhile_prefix _).eq_of_length hlength)))

/-! ## What a text may do to the setting -/

/-- An action that leaves the parameter `name` as it is. -/
def SetAction.Spares (name : Text) : SetAction → Prop
  | .track n _ => n ≠ name
  | .reset n => n ≠ name
  | .resetAll => False
  | .pin _ => True
  | .none => True

theorem applyAction_spares {name : Text} {a : SetAction} (h : a.Spares name) (m : ParamMap) :
    (applyAction m a).get name = m.get name := by
  cases a with
  | track n statement => rw [applyAction, SortedMap.get_insert, if_neg (Ne.symm h)]
  | reset n => rw [applyAction, SortedMap.get_erase, if_neg (Ne.symm h)]
  | resetAll => exact absurd h id
  | pin reason => rfl
  | none => rfl

theorem classifySetBody_nil (n : ℕ) (statement : Text) : classifySetBody (n + 1) statement [] = .pin .sessionParameter := rfl

theorem classifyResetBody_nil : classifyResetBody [] = .pin .sessionParameter := rfl

/-- A statement that is refused neither names the setting nor clears it. -/
theorem spares_of_not_defeats {s : Text} (h : statementDefeatsReadOnly s = false) : (classifySet s).Spares readOnlyGuc := by
  by_cases hquiet : (takeWord (normalizeStatement s)).2 = []
  · -- a keyword alone is no statement
    rw [classifySet]
    dsimp only
    rw [hquiet]
    split_ifs <;> trivial
  · have hword := takeWord_prefix (normalizeStatement_starts s) hquiet
    by_cases hkeyword : Text.toAsciiUppercase (takeWord (normalizeStatement s)).1 = "SET".toList ∨
        Text.toAsciiUppercase (takeWord (normalizeStatement s)).1 = "RESET".toList
    · rw [statementDefeatsReadOnly] at h
      dsimp only at h
      rw [hword, if_pos hkeyword, classifySet_strip] at h
      cases haction : classifySet s with
      | track name statement =>
          rw [haction] at h
          exact of_decide_eq_false h
      | reset name =>
          rw [haction] at h
          exact of_decide_eq_false h
      | resetAll =>
          rw [haction] at h
          cases h
      | pin reason => trivial
      | none => trivial
    · rw [not_or] at hkeyword
      rw [classifySet]
      dsimp only
      rw [if_neg hkeyword.1, if_neg hkeyword.2]
      split_ifs <;> trivial

theorem actions_spare {sql : Text} (h : defeatsReadOnly sql = false) : ∀ a ∈ actionsForSql sql, a.Spares readOnlyGuc := by
  have hactions : ∀ a ∈ ((splitStatements sql).map classifySet).filter (· ≠ .none), a.Spares readOnlyGuc := by
    intro a ha
    obtain ⟨s, hs, rfl⟩ := List.mem_map.mp (List.mem_of_mem_filter ha)
    exact spares_of_not_defeats (Bool.eq_false_iff.mpr (List.any_eq_false.mp h s hs))
  intro a ha
  rw [actionsForSql] at ha
  split_ifs at ha
  · exact hactions a ha
  · obtain rfl := List.mem_singleton.mp ha
    trivial
  · exact hactions a ha

/-! ## Runs -/

/-- What the relay does with the parameters of a client. -/
inductive ParamOp where
  /-- A text goes to the backend: its actions are staged. -/
  | stage (sql : Text)
  /-- The exchange went well. -/
  | commit
  /-- It did not. -/
  | discard
deriving DecidableEq, Repr

namespace ClientParams

def step (p : ClientParams) : ParamOp → ClientParams
  | .stage sql => (actionsForSql sql).foldl stage p
  | .commit => p.commitPending
  | .discard => p.discardPending

/-- The statement `enforce_read_only` asserts. -/
def readOnlyStatement : Text := "SET ".toList ++ readOnlyGuc ++ " = 'on'".toList

/-- The setting is wanted, and nothing that waits to be believed touches it. -/
structure ReadOnly (p : ClientParams) : Prop where
  desired : p.desired.get readOnlyGuc = some readOnlyStatement
  pending : ∀ a ∈ p.pending, a.Spares readOnlyGuc

theorem ReadOnly.stage {p : ClientParams} (h : p.ReadOnly) {a : SetAction} (ha : a.Spares readOnlyGuc) :
    (p.stage a).ReadOnly := by
  unfold ClientParams.stage
  split_ifs
  · exact h
  · refine ⟨h.desired, fun b hb => ?_⟩
    rcases List.mem_append.mp hb with hb | hb
    · exact h.pending b hb
    · rw [List.mem_singleton.mp hb]
      exact ha

theorem ReadOnly.stageAll {p : ClientParams} (h : p.ReadOnly) {actions : List SetAction}
    (ha : ∀ a ∈ actions, a.Spares readOnlyGuc) : (actions.foldl ClientParams.stage p).ReadOnly := by
  induction actions generalizing p with
  | nil => exact h
  | cons a actions ih =>
      exact ih (h.stage (ha a List.mem_cons_self)) fun b hb => ha b (List.mem_cons_of_mem a hb)

theorem ReadOnly.commit {p : ClientParams} (h : p.ReadOnly) : p.commitPending.ReadOnly := by
  refine ⟨?_, nofun⟩
  obtain ⟨desired, pending⟩ := p
  obtain ⟨hdesired, hpending⟩ := h
  dsimp only [commitPending] at hdesired hpending ⊢
  induction pending generalizing desired with
  | nil => exact hdesired
  | cons a pending ih =>
      refine ih (applyAction desired a) ?_ fun b hb => hpending b (List.mem_cons_of_mem a hb)
      rw [applyAction_spares (hpending a List.mem_cons_self), hdesired]

theorem ReadOnly.step {p : ClientParams} (h : p.ReadOnly) {op : ParamOp}
    (hop : ∀ sql, op = .stage sql → defeatsReadOnly sql = false) : (p.step op).ReadOnly := by
  cases op with
  | stage sql => exact h.stageAll (actions_spare (hop sql rfl))
  | commit => exact h.commit
  | discard => exact ⟨h.desired, nofun⟩

theorem readOnly_enforce {p : ClientParams} (h : p.pending = []) : p.enforceReadOnly.ReadOnly := by
  refine ⟨?_, fun a ha => ?_⟩
  · exact (SortedMap.get_insert _ _ _ _).trans (if_pos rfl)
  · rw [enforceReadOnly, h] at ha
    cases ha

theorem pending_seed (p : ClientParams) (key value : Text) : (p.seed key value).pending = p.pending := by
  unfold seed
  split_ifs <;> rfl

/-- A startup packet stages nothing. -/
theorem pending_fromStartup (params : List (Text × Text)) : (fromStartup params).pending = [] := by
  have hseeds : ∀ (kvs : List (Text × Text)) (p : ClientParams),
      (kvs.foldl (fun p kv => p.seed kv.1 kv.2) p).pending = p.pending := by
    intro kvs
    induction kvs with
    | nil => exact fun _ => rfl
    | cons kv kvs ih => exact fun p => (ih _).trans (pending_seed p kv.1 kv.2)
  have hkeys : ∀ (kvs : List (Text × Text)) (p : ClientParams),
      (kvs.foldl (fun p kv => p.seedStartup kv.1 kv.2) p).pending = p.pending := by
    intro kvs
    induction kvs with
    | nil => exact fun _ => rfl
    | cons kv kvs ih =>
        refine fun p => (ih _).trans ?_
        show (p.seedStartup kv.1 kv.2).pending = p.pending
        unfold seedStartup
        split_ifs
        · exact hseeds _ p
        · rfl
        · exact pending_seed p kv.1 kv.2
  exact hkeys params {}

/-- A backend without the statement is told it. -/
theorem mem_delta {p : ClientParams} {name statement : Text} (h : p.desired.get name = some statement)
    {applied : ParamMap} (happlied : applied.get name ≠ some statement) : statement ∈ p.delta applied := by
  refine List.mem_append_right _ (List.mem_map.mpr ⟨(name, statement), List.mem_filter.mpr ⟨?_, ?_⟩, rfl⟩)
  · exact SortedMap.mem_of_get h
  · exact decide_eq_true happlied

/-- **The read-only setting stays in force.** Whatever the client started with and whatever it sends that is not refused,
the setting is wanted on every backend, and a backend that has not got it is told it. -/
theorem read_only_stays (params : List (Text × Text)) (ops : List ParamOp)
    (h : ∀ sql, ParamOp.stage sql ∈ ops → defeatsReadOnly sql = false) :
    (run step (fromStartup params).enforceReadOnly ops).desired.get readOnlyGuc = some readOnlyStatement ∧
      ∀ applied : ParamMap, applied.get readOnlyGuc ≠ some readOnlyStatement →
        readOnlyStatement ∈ (run step (fromStartup params).enforceReadOnly ops).delta applied := by
  have hsteps : Along step (fun _ op => ∀ sql, op = .stage sql → defeatsReadOnly sql = false)
      (fromStartup params).enforceReadOnly ops := by
    refine Along.of_forall fun op hop _ sql hsql => h sql ?_
    rwa [← hsql]
  have hend := hsteps.invariant (I := ReadOnly) (fun _ _ hp hop => hp.step hop) (readOnly_enforce (pending_fromStartup params))
  exact ⟨hend.desired, fun applied => mem_delta hend.desired⟩

/-- A client that starts with the setting off and resets another one. -/
theorem read_only_stays_reset :
    (run step (fromStartup [("options".toList, "-c default_transaction_read_only=off".toList)]).enforceReadOnly
        [.stage "RESET search_path; SET x TO 1".toList, .commit]).desired.get readOnlyGuc = some readOnlyStatement :=
  (read_only_stays _ _ (by
    intro sql hsql
    simp only [List.mem_cons, ParamOp.stage.injEq, List.not_mem_nil, or_false, reduceCtorEq] at hsql
    subst hsql
    decide)).1

end ClientParams

end Havuz.Sql
