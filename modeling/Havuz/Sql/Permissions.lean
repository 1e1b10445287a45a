import Havuz.Sql.ReadOnly

/-!
# What replay must not carry

Reference: `NOT_A_PARAMETER`, `classify_set_body`, `from_startup`, `parse_options` and `delta` of `havuz-pg/src/params.rs`.

A `SET ROLE` pins, because replaying it would make a bug in the replay path a privilege leak. What is excluded is the
keyword, on one of three ways a parameter gets in: a startup packet names `role` like any other parameter, its `options`
name the keys the packet itself may not, and `session_authorization` can be set by its name. Everything else is kept out
(`replay_keeps_role`).
-/

namespace Havuz.Sql

open Lib

/-! ## What a statement tracks -/

/-- The parameters that are the permissions of a connection. -/
def permissionParameters : List Text := ["role".toList, "session_authorization".toList]

/-- The word that names the parameter behind `SET`, and what follows it. `SESSION` in front of it is noise. -/
def setTarget : Nat → Text → Text × Text
  | 0, _ => ([], [])
  | fuel + 1, rest =>
      let (first, afterFirst) := takeWord rest
      if Text.toAsciiUppercase first = "SESSION".toList then setTarget fuel afterFirst else (first, afterFirst)

/-- The statement is `SET [SESSION] name {= | TO} value`, with a value that can be replayed. -/
def assignsByName (name s : Text) : Bool :=
  let (keyword, rest) := takeWord (normalizeStatement s)
  let (first, afterFirst) := setTarget (rest.length + 1) rest
  Text.toAsciiUppercase keyword = "SET".toList && Text.toAsciiLowercase first = name &&
    (setValue afterFirst).any fun value =>
      !value.isEmpty && !hasPlaceholder value && !Text.eqIgnoreAsciiCase value "DEFAULT".toList

/-- The names of the spellings that do not name their parameter. -/
def spelledParameters : List Text := ["timezone".toList, "client_encoding".toList, "search_path".toList, "xmloption".toList]

theorem classifySetParameter_track {statement first afterFirst name stored : Text}
    (h : classifySetParameter statement first afterFirst = .track name stored) :
    name = Text.toAsciiLowercase (Text.toAsciiLowercase first) ∧ (setValue afterFirst).any (fun value =>
      !value.isEmpty && !hasPlaceholder value && !Text.eqIgnoreAsciiCase value "DEFAULT".toList) = true := by
  unfold classifySetParameter at h
  split at h
  · cases h
  · split at h
    · cases h
    · rename_i value hvalue
      split_ifs at h with hempty hplaceholder hdefault
      cases h
      refine ⟨rfl, ?_⟩
      rw [hvalue, Option.any_some, Bool.eq_false_iff.mpr hempty, Bool.eq_false_iff.mpr hplaceholder,
        Bool.eq_false_iff.mpr hdefault]
      rfl

/-- A statement that is tracked behind `SET` is one of the spellings, or it names its parameter, which is not `role`. -/
theorem classifySetBody_track {fuel : ℕ} {statement rest name stored : Text}
    (h : classifySetBody fuel statement rest = .track name stored) :
    name ∈ spelledParameters ∨
      Text.toAsciiUppercase (setTarget fuel rest).1 ≠ "ROLE".toList ∧
        name = Text.toAsciiLowercase (Text.toAsciiLowercase (setTarget fuel rest).1) ∧
        (setValue (setTarget fuel rest).2).any (fun value =>
          !value.isEmpty && !hasPlaceholder value && !Text.eqIgnoreAsciiCase value "DEFAULT".toList) = true := by
  induction fuel generalizing rest with
  | zero => cases h
  | succ fuel ih =>
      rw [classifySetBody] at h
      rw [setTarget]
      dsimp only at h ⊢
      split_ifs at h with hlocal hrole hconstraints hsession hauth hchar htime hnames hschema hxml
      · rw [if_pos hsession]
        exact ih h
      all_goals rw [if_neg hsession]
      · cases h
        exact .inl (by decide)
      · cases h
        exact .inl (by decide)
      · cases h
        exact .inl (by decide)
      · cases h
        exact .inl (by decide)
      · exact .inr ⟨hrole, classifySetParameter_track h⟩

/-- A statement that is tracked sets no permission, unless it sets `session_authorization` by its name. -/
theorem classifySet_track {s name stored : Text} (h : classifySet s = .track name stored)
    (hs : assignsByName "session_authorization".toList s = false) : name ∉ permissionParameters := by
  rw [classifySet] at h
  dsimp only at h
  split_ifs at h with hempty hset hreset
  · intro hname
    obtain hspelled | ⟨hrole, hlower, hvalue⟩ := classifySetBody_track h
    · simp only [spelledParameters, permissionParameters, List.mem_cons, List.not_mem_nil, or_false] at hspelled hname
      obtain rfl | rfl | rfl | rfl := hspelled <;> revert hname <;> decide
    · rw [Text.toAsciiLowercase_lowercase] at hlower
      simp only [permissionParameters, List.mem_cons, List.not_mem_nil, or_false] at hname
      obtain hname | hname := hname
      · -- the keyword `ROLE` pins
        refine hrole ?_
        rw [← Text.toAsciiUppercase_lowercase, ← hlower, hname]
        rfl
      · rw [assignsByName] at hs
        dsimp only at hs
        rw [hset, ← hlower, hname, hvalue] at hs
        exact absurd hs (by decide)
  · -- `RESET` tracks nothing
    unfold classifyResetBody at h
    dsimp only at h
    split_ifs at h

/-! ## What a text may do to the permissions -/

/-- An action that sets no permission. -/
def SetAction.KeepsRole : SetAction → Prop
  | .track name _ => name ∉ permissionParameters
  | _ => True

/-- No statement of the text sets `session_authorization` by its name, or the batch is refused because it rolls back. -/
def keepsRole (sql : Text) : Bool :=
  (splitStatements sql).any undoesTheBatch ||
    (splitStatements sql).all fun s => !assignsByName "session_authorization".toList s

theorem actions_keepRole {sql : Text} (h : keepsRole sql = true) : ∀ a ∈ actionsForSql sql, a.KeepsRole := by
  intro a ha
  rw [actionsForSql] at ha
  split_ifs at ha with hempty hundoes
  · rw [List.isEmpty_iff.mp hempty] at ha
    cases ha
  · rw [List.mem_singleton.mp ha]
    trivial
  · rw [keepsRole, Bool.eq_false_iff.mpr hundoes, Bool.false_or, List.all_eq_true] at h
    obtain ⟨s, hs, rfl⟩ := List.mem_map.mp (List.mem_of_mem_filter ha)
    have hquiet : assignsByName "session_authorization".toList s = false := by simpa using h s hs
    cases haction : classifySet s with
    | track name stored => exact classifySet_track haction hquiet
    | _ => trivial

namespace ClientParams

/-! ## What a startup packet may do -/

/-- The parameters a startup packet is not to set. -/
def notFromStartup : List Text := permissionParameters ++ notAParameter

/-- Every parameter of the startup packet may be set by it: the keys, and the keys inside `options`. A key that is no
name is dropped, and so are those that select the connection. -/
def startupKeeps (params : List (Text × Text)) : Bool :=
  params.all fun kv =>
    if Text.eqIgnoreAsciiCase kv.1 "options".toList then
      (parseOptions kv.2).all fun kv => !isParameterName kv.1 || !notFromStartup.contains (Text.toAsciiLowercase kv.1)
    else
      !isParameterName kv.1 || !permissionParameters.contains (Text.toAsciiLowercase kv.1)

/-- Every entry is one a startup packet may set. -/
def FromStartup (p : ClientParams) : Prop := ∀ e ∈ p.desired.entries, e.1 ∉ notFromStartup

theorem mem_insert {m : ParamMap} {name statement : Text} {e : Text × Text} (h : e ∈ (m.insert name statement).entries) :
    e = (name, statement) ∨ e ∈ m.entries := by
  have hget := SortedMap.get_of_mem h
  rw [SortedMap.get_insert] at hget
  split_ifs at hget with hname
  · exact .inl (Prod.ext hname (Option.some.inj hget).symm)
  · exact .inr (SortedMap.mem_of_get hget)

theorem FromStartup.seed {p : ClientParams} (h : p.FromStartup) {key value : Text}
    (hkey : isParameterName key = true → Text.toAsciiLowercase key ∉ notFromStartup) : (p.seed key value).FromStartup := by
  unfold ClientParams.seed
  split_ifs with hname
  · intro e he
    obtain rfl | he := mem_insert he
    · exact hkey hname
    · exact h e he
  · exact h

theorem FromStartup.seedAll {p : ClientParams} (h : p.FromStartup) {kvs : List (Text × Text)}
    (hkvs : ∀ kv ∈ kvs, isParameterName kv.1 = true → Text.toAsciiLowercase kv.1 ∉ notFromStartup) :
    (kvs.foldl (fun p kv => p.seed kv.1 kv.2) p).FromStartup := by
  induction kvs generalizing p with
  | nil => exact h
  | cons kv kvs ih =>
      exact ih (h.seed (hkvs kv List.mem_cons_self)) fun kv' hkv' => hkvs kv' (List.mem_cons_of_mem kv hkv')

/-- A key of the packet that is not skipped is none of those that select the connection. -/
theorem not_notAParameter {key : Text} (h : notAParameter.any (Text.eqIgnoreAsciiCase key) = false) :
    Text.toAsciiLowercase key ∉ notAParameter := by
  intro hmem
  have hany : notAParameter.any (Text.eqIgnoreAsciiCase key) = true := by
    refine List.any_eq_true.mpr ⟨_, hmem, ?_⟩
    rw [Text.eqIgnoreAsciiCase, Text.toAsciiLowercase_lowercase]
    exact beq_self_eq_true _
  rw [h] at hany
  cases hany

theorem fromStartup_keeps {params : List (Text × Text)} (h : startupKeeps params = true) : (fromStartup params).FromStartup := by
  have hkeys : ∀ (kvs : List (Text × Text)) (p : ClientParams), startupKeeps kvs = true → p.FromStartup →
      (kvs.foldl (fun p kv => p.seedStartup kv.1 kv.2) p).FromStartup := by
    intro kvs
    induction kvs with
    | nil => exact fun _ _ hp => hp
    | cons kv kvs ih =>
        intro p hkvs hp
        rw [startupKeeps, List.all_cons, Bool.and_eq_true] at hkvs
        obtain ⟨hkv, hrest⟩ := hkvs
        refine ih _ hrest ?_
        show (p.seedStartup kv.1 kv.2).FromStartup
        unfold seedStartup
        split_ifs at hkv ⊢ with hoptions hskip
        · refine hp.seedAll fun kv' hkv' hname => ?_
          have hkey := List.all_eq_true.mp hkv kv' hkv'
          simpa [hname] using hkey
        · exact hp
        · refine hp.seed fun hname => ?_
          rw [notFromStartup, List.mem_append, not_or]
          exact ⟨by simpa [hname] using hkv, not_notAParameter (Bool.eq_false_iff.mpr hskip)⟩
  exact hkeys params {} h fun e he => by cases he

/-! ## Runs -/

/-- Where the entries come from: a startup packet that may set them, or a text of the client. -/
structure Derived (ops : List ParamOp) (p : ClientParams) : Prop where
  desired : ∀ e ∈ p.desired.entries,
    e.1 ∉ notFromStartup ∨ ∃ sql, ParamOp.stage sql ∈ ops ∧ SetAction.track e.1 e.2 ∈ actionsForSql sql
  pending : ∀ a ∈ p.pending, ∃ sql, ParamOp.stage sql ∈ ops ∧ a ∈ actionsForSql sql

variable {ops : List ParamOp}

theorem derived_fromStartup {params : List (Text × Text)} (h : startupKeeps params = true) :
    (fromStartup params).Derived ops := by
  refine ⟨fun e he => .inl (fromStartup_keeps h e he), fun a ha => ?_⟩
  rw [pending_fromStartup] at ha
  cases ha

theorem Derived.enforce {p : ClientParams} (h : p.Derived ops) : p.enforceReadOnly.Derived ops := by
  refine ⟨fun e he => ?_, h.pending⟩
  obtain rfl | he := mem_insert he
  · exact .inl (by decide)
  · exact h.desired e he

theorem Derived.stageAll {p : ClientParams} (h : p.Derived ops) {actions : List SetAction}
    (ha : ∀ a ∈ actions, ∃ sql, ParamOp.stage sql ∈ ops ∧ a ∈ actionsForSql sql) :
    (actions.foldl ClientParams.stage p).Derived ops := by
  induction actions generalizing p with
  | nil => exact h
  | cons a actions ih =>
      refine ih ?_ fun b hb => ha b (List.mem_cons_of_mem a hb)
      unfold ClientParams.stage
      split_ifs
      · exact h
      · refine ⟨h.desired, fun b hb => ?_⟩
        rcases List.mem_append.mp hb with hb | hb
        · exact h.pending b hb
        · rw [List.mem_singleton.mp hb]
          exact ha a List.mem_cons_self

theorem Derived.commit {p : ClientParams} (h : p.Derived ops) : p.commitPending.Derived ops := by
  refine ⟨?_, nofun⟩
  obtain ⟨desired, pending⟩ := p
  obtain ⟨hdesired, hpending⟩ := h
  dsimp only [commitPending] at hdesired hpending ⊢
  induction pending generalizing desired with
  | nil => exact hdesired
  | cons a pending ih =>
      refine ih (applyAction desired a) (fun e he => ?_) fun b hb => hpending b (List.mem_cons_of_mem a hb)
      cases a with
      | track name stored =>
          obtain rfl | he := mem_insert he
          · exact .inr (hpending _ List.mem_cons_self)
          · exact hdesired e he
      | reset name => exact hdesired e (List.mem_of_mem_filter he)
      | resetAll => cases he
      | pin reason => exact hdesired e he
      | none => exact hdesired e he

theorem Derived.step {p : ClientParams} (h : p.Derived ops) {op : ParamOp} (hop : op ∈ ops) : (p.step op).Derived ops := by
  cases op with
  | stage sql => exact h.stageAll fun a ha => ⟨sql, hop, ha⟩
  | commit => exact h.commit
  | discard => exact ⟨h.desired, nofun⟩

/-- A generated statement resets what the backend had, or is that of an entry. -/
theorem mem_delta_cases {p : ClientParams} {applied : ParamMap} {s : Text} (h : s ∈ p.delta applied) :
    (∃ name ∈ applied.keys, s = "RESET ".toList ++ name) ∨ ∃ name, (name, s) ∈ p.desired.entries := by
  rcases List.mem_append.mp h with h | h
  · obtain ⟨name, hname, rfl⟩ := List.mem_map.mp h
    exact .inl ⟨name, List.mem_of_mem_filter hname, rfl⟩
  · obtain ⟨⟨name, s⟩, he, rfl⟩ := List.mem_map.mp h
    exact .inr ⟨name, List.mem_of_mem_filter he⟩

/-- The parameters of a client whose session is read-only or not. -/
def opened (params : List (Text × Text)) (readOnly : Bool) : ClientParams :=
  if readOnly then (fromStartup params).enforceReadOnly else fromStartup params

end ClientParams

end Havuz.Sql
