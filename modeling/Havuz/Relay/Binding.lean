import Havuz.Relay.Cache

/-!
# A Bind gets the client's own statement

A named statement is prepared under a name that is a digest of its text and parameter types, so
whatever a backend holds under that name is the same statement, whoever prepared it. The unnamed
statement is passed through, and is the client's own only as long as the client's `Parse` and `Bind`
meet the same backend in one checkout.
-/

namespace Havuz

open Lib Sql

variable {σ ι : Type} {sha256 : Bytes → Bytes} {srv : Server σ} {g : Group}
  {copying : σ → Prop} {find : σ → Bytes → Option (Bytes × Bytes)} {attentive : σ → Prop}
  {accepts : σ → Bytes → Bytes → Prop} {prepares : σ → Message → Prop} {K : Set (Bytes × Bytes)}

/-! ## What is asked for and what was sent -/

/-- The prepared statement a `Bind` or a `Describe` asks for. -/
def statementName (m : Message) : Option Bytes :=
  if m.tag = byte 'B' then (takeCstring m.body).bind fun p => (takeCstring p.2).map Prod.fst
  else if m.tag = byte 'D' then
    match m.body with
    | kind :: rest => if kind = byte 'S' then (takeCstring rest).map Prod.fst else none
    | [] => none
  else none

/-- What a message says about a client-side name, if it is a `Parse` of it. -/
def parseUnder (name : Bytes) (m : Message) : Option (Bytes × Bytes) :=
  if m.tag = byte 'P' then
    match ParseParts.decode m.body with
    | .ok p => if p.name = name then some (p.sql, p.paramTypes) else none
    | .error _ => none
  else none

/-- The most recent `Parse` under a name: query text and parameter types. -/
def lastParse (name : Bytes) (received : List Message) : Option (Bytes × Bytes) :=
  received.reverse.findSome? (parseUnder name)

theorem lastParse_append (name : Bytes) (received : List Message) (m : Message) :
    lastParse name (received ++ [m]) = (parseUnder name m).or (lastParse name received) := by
  simp [lastParse, List.findSome?_cons, Option.or]
  cases parseUnder name m <;> rfl

theorem parseUnder_of_ne {name : Bytes} {m : Message} (h : m.tag ≠ byte 'P') :
    parseUnder name m = none := by
  rw [parseUnder, if_neg h]

theorem parseUnder_ok {name : Bytes} {m : Message} {p : ParseParts} (h : m.tag = byte 'P')
    (hp : ParseParts.decode m.body = .ok p) :
    parseUnder name m = if p.name = name then some (p.sql, p.paramTypes) else none := by
  rw [parseUnder, if_pos h, hp]

/-- The statement a forwarded message asks for on the server is the client's own, if it is there. -/
def Own (find : σ → Bytes → Option (Bytes × Bytes)) (f : Forward σ) : Prop :=
  ∀ name, statementName f.msg = some name → ∃ n, statementName f.outgoing = some n ∧
    ∀ stmt, find f.server n = some stmt → lastParse name f.received = some stmt

/-- It is there. -/
def Found (find : σ → Bytes → Option (Bytes × Bytes)) (f : Forward σ) : Prop :=
  ∃ n stmt, statementName f.outgoing = some n ∧ find f.server n = some stmt

theorem statementName_bind {m : Message} {name : Bytes} (h : m.tag = byte 'B')
    (hname : bindStatementName m.body = .ok name) : statementName m = some name := by
  rw [statementName, if_pos h]
  unfold bindStatementName at hname
  split at hname
  case h_1 => cases hname
  case h_2 portal rest hportal =>
    split at hname
    case h_1 => cases hname
    case h_2 name' back hrest =>
      split at hname
      · cases hname
        simp [hportal, hrest]
      · cases hname

theorem statementName_describe {m : Message} {kind : UInt8} {name : Bytes} (h : m.tag = byte 'D')
    (htarget : describeTarget m.body = .ok (kind, name)) :
    statementName m = if kind = byte 'S' then some name else none := by
  obtain ⟨rest, back, hbody, hrest⟩ := describeTarget_ok htarget
  have hB : m.tag ≠ byte 'B' := by rw [h]; decide
  rw [statementName, if_neg hB, if_pos h, hbody]
  simp [hrest]

/-- The renamed message asks for the global name. -/
theorem statementName_renamed_bind {msg : Message} {name body global : Bytes}
    (h : msg.tag = byte 'B') (hname : bindStatementName msg.body = .ok name) (hglobal : 0 ∉ global)
    (hbody : replaceCstring msg.body 1 global = .ok body) :
    statementName ⟨msg.tag, body⟩ = some global := by
  obtain ⟨portal, rest, hportal, -, rfl⟩ := replaceCstring_bind hname hbody
  rw [statementName, if_pos h]
  simp only [takeCstring_append hportal, Option.bind_some, takeCstring_append hglobal,
    Option.map_some]

theorem statementName_renamed_describe {msg : Message} {name body global : Bytes}
    (h : msg.tag = byte 'D') (htarget : describeTarget msg.body = .ok (byte 'S', name))
    (hglobal : 0 ∉ global) (hbody : replaceCstring msg.body 0 global = .ok body) :
    statementName ⟨msg.tag, body⟩ = some global := by
  obtain ⟨rest, rfl⟩ := replaceCstring_target htarget hbody
  have hB : msg.tag ≠ byte 'B' := by rw [h]; decide
  rw [statementName, if_neg hB, if_pos h]
  simp only [if_true, takeCstring_append hglobal, Option.map_some]

/-! ## What a connection holds -/

/-- Every named statement on the server is the one its name is the digest of, and the cache has only
names that can be written on the wire. -/
structure OwnConn (sha256 : Bytes → Bytes) (find : σ → Bytes → Option (Bytes × Bytes))
    (K : Set (Bytes × Bytes)) (c : PgBackend σ) : Prop where
  digests : ∀ n stmt, n ≠ [] → find c.server n = some stmt →
    n = globalName sha256 stmt.1 stmt.2 ∧ stmt ∈ K
  names : ∀ n ∈ c.statements.present, n ≠ [] ∧ 0 ∉ n

/-- Statements were taken away at most. -/
def Shrinks (find : σ → Bytes → Option (Bytes × Bytes)) (s s' : σ) : Prop :=
  ∀ n, find s' n = find s n ∨ find s' n = none

theorem Shrinks.refl (s : σ) : Shrinks find s s := fun _ => .inl rfl

theorem Shrinks.trans {s s' s'' : σ} (h : Shrinks find s s') (h' : Shrinks find s' s'') :
    Shrinks find s s'' := by
  intro n
  rcases h' n with h' | h'
  · rw [h']
    exact h n
  · exact .inr h'

theorem OwnConn.shrink {c c' : PgBackend σ} (h : OwnConn sha256 find K c)
    (hserver : Shrinks find c.server c'.server)
    (hnames : ∀ n ∈ c'.statements.present, n ≠ [] ∧ 0 ∉ n) : OwnConn sha256 find K c' := by
  refine ⟨fun n stmt hn hfind => ?_, hnames⟩
  rcases hserver n with hsame | hnone
  · exact h.digests n stmt hn (hsame ▸ hfind)
  · rw [hnone] at hfind
    cases hfind

section Laws

variable (prep : Prepares srv find attentive accepts prepares)

include prep

theorem Prepares.other_shrinks {s s' : σ} {m : Message} {rs : List Message}
    (hw : srv.write s m = some (s', rs)) (hP : m.tag ≠ byte 'P') (hC : m.tag ≠ byte 'C')
    (hsql : m.tag = byte 'Q' ∨ m.tag = byte 'E' → ¬ prepares s m) : Shrinks find s s' := by
  intro n
  rcases prep.other hw hP hC hsql n with h | ⟨-, -, h⟩
  · exact .inl h
  · exact .inr h

theorem Prepares.close_shrinks {s s' : σ} {rest name back : Bytes} {rs : List Message}
    (hw : srv.write s ⟨byte 'C', byte 'S' :: rest⟩ = some (s', rs))
    (hname : takeCstring rest = some (name, back)) : Shrinks find s s' := by
  obtain ⟨hothers, hself, -, -⟩ := prep.close hw hname
  intro n
  by_cases hn : n = name
  · rw [hn]
    exact hself
  · exact .inl (hothers n hn)

/-- Closing a named statement out of band takes away at most that one. -/
theorem Prepares.closeStatement_shrinks {name : Bytes} {c c' : PgBackend σ}
    {res : Except ProtoError Unit} (hne : name ≠ []) (hname : 0 ∉ name)
    (h : c.closeStatement srv name = (res, c')) :
    Shrinks find c.server c'.server ∧ find c'.server [] = find c.server [] ∧
      c'.statements = c.statements := by
  obtain ⟨-, rfl, -⟩ | ⟨c₁, hclose, hrest⟩ := closeStatement_cases h
  · exact ⟨.refl _, rfl, rfl⟩
  obtain ⟨s₁, rs₁, hw₁, rfl⟩ := write_spec hclose
  have hshrinks := prep.close_shrinks hw₁ (takeCstring_append hname [])
  have hunnamed := (prep.close hw₁ (takeCstring_append hname [])).1 [] hne.symm
  obtain ⟨-, rfl, -⟩ | ⟨c₂, hflush, hrest⟩ := hrest
  · exact ⟨hshrinks, hunnamed, rfl⟩
  obtain ⟨s₂, rs₂, hw₂, rfl⟩ := write_spec hflush
  have hsame := prep.flush_find hw₂
  have hboth : Shrinks find c.server s₂ ∧ find s₂ [] = find c.server [] := by
    refine ⟨hshrinks.trans fun n => .inl (hsame n), ?_⟩
    rw [hsame]
    exact hunnamed
  obtain ⟨rfl, -⟩ | ⟨rfl, -⟩ := hrest
  · exact ⟨hboth.1, hboth.2, rfl⟩
  · exact ⟨hboth.1, hboth.2, rfl⟩

theorem OwnConn.freeName {name : Bytes} {c c' : PgBackend σ} {res : Except ProtoError Unit}
    (h : OwnConn sha256 find K c) (hfree : freeName srv name c = (res, c')) :
    OwnConn sha256 find K c' ∧ find c'.server [] = find c.server [] := by
  unfold Havuz.freeName at hfree
  split at hfree
  case isFalse =>
    cases hfree
    exact ⟨h, rfl⟩
  case isTrue hhas =>
    obtain ⟨hne, hplain⟩ := h.names name (by simpa [BackendStatements.has] using hhas)
    split at hfree
    case h_1 c₁ hclose =>
      cases hfree
      obtain ⟨hshrinks, hunnamed, hcache⟩ := prep.closeStatement_shrinks hne hplain hclose
      refine ⟨h.shrink hshrinks fun n hn => ?_, hunnamed⟩
      simp only [BackendStatements.present_remove, hcache] at hn
      exact h.names n (Finset.mem_of_mem_erase hn)
    case h_2 e c₁ hclose =>
      cases hfree
      obtain ⟨hshrinks, hunnamed, hcache⟩ := prep.closeStatement_shrinks hne hplain hclose
      exact ⟨h.shrink hshrinks fun n hn => h.names n (hcache ▸ hn), hunnamed⟩

omit prep in
/-- Recording a name that can be written keeps the cache writable. -/
theorem names_insert {b b' : BackendStatements} {name : Bytes} {evicted : Option Bytes}
    (h : ∀ n ∈ b.present, n ≠ [] ∧ 0 ∉ n) (hname : name ≠ [] ∧ 0 ∉ name)
    (hinsert : b.insert name = (b', evicted)) :
    (∀ n ∈ b'.present, n ≠ [] ∧ 0 ∉ n) ∧ ∀ old, evicted = some old → old ≠ [] ∧ 0 ∉ old := by
  have hcases := b.insert_cases name
  rw [hinsert] at hcases
  obtain ⟨hnone, hpresent⟩ | ⟨old, hold, hmem, -, -, hpresent⟩ := hcases
  · refine ⟨fun n hn => ?_, fun old ho => ?_⟩
    · rw [hpresent, Finset.mem_insert] at hn
      rcases hn with rfl | hn
      · exact hname
      · exact h n hn
    · have hnone : evicted = none := hnone
      rw [hnone] at ho
      cases ho
  · refine ⟨fun n hn => ?_, fun old' ho => ?_⟩
    · rw [hpresent, Finset.mem_insert] at hn
      rcases hn with rfl | hn
      · exact hname
      · exact h n (Finset.mem_of_mem_erase hn)
    · have hold : evicted = some old := hold
      cases hold.symm.trans ho
      exact h old hmem

/-- Making room for a `Parse` leaves what the server holds alone, but for what is closed. -/
theorem OwnConn.prepareParse {name : Bytes} {c c' : PgBackend σ} {res : Except ProtoError Unit}
    (h : OwnConn sha256 find K c) (hname : name ≠ [] ∧ 0 ∉ name)
    (hroom : prepareParse srv name c = (res, c')) :
    OwnConn sha256 find K c' ∧ find c'.server [] = find c.server [] := by
  unfold Havuz.prepareParse at hroom
  split at hroom
  case h_1 e c₁ hfree =>
    cases hroom
    exact h.freeName prep hfree
  case h_2 c₁ hfree =>
    obtain ⟨h₁, hunnamed₁⟩ := h.freeName prep hfree
    split at hroom
    case h_2 statements hinsert =>
      cases hroom
      exact ⟨h₁.shrink (.refl _) (names_insert h₁.names hname hinsert).1, hunnamed₁⟩
    case h_1 statements evicted hinsert =>
      obtain ⟨hnames, hold⟩ := names_insert h₁.names hname hinsert
      obtain ⟨hne, hplain⟩ := hold evicted rfl
      cases hclose : PgBackend.closeStatement srv evicted { c₁ with statements } with
      | mk res' c₂ =>
          rw [hclose] at hroom
          cases hroom
          obtain ⟨hshrinks, hunnamed, hcache⟩ := prep.closeStatement_shrinks hne hplain hclose
          have hcache : c₂.statements = statements := hcache
          exact ⟨h₁.shrink hshrinks fun n hn => hnames n (hcache ▸ hn), hunnamed.trans hunnamed₁⟩

/-- A replayed `Parse` puts the client's own statement under its digest, or changes nothing. -/
theorem OwnConn.replayParse {sql types : Bytes} {c c' : PgBackend σ}
    (h : OwnConn sha256 find K c) (hsql : 0 ∉ sql) (hK : (sql, types) ∈ K)
    (hreplay : c.replayParse srv (buildParse (globalName sha256 sql types) sql types)
      (globalName sha256 sql types) = (.ok (), c')) :
    OwnConn sha256 find K c' ∧ find c'.server [] = find c.server [] := by
  have hplain : 0 ∉ globalName sha256 sql types := zero_notMem_globalName sha256 sql types
  have hne : globalName sha256 sql types ≠ [] := (isHavuz_globalName sha256 sql types).ne_nil
  obtain ⟨c₁, c₂, hparse, hflush, -, hend⟩ := replayParse_ok hreplay
  obtain ⟨s₁, rs₁, hw₁, rfl⟩ := write_spec hparse
  obtain ⟨s₂, rs₂, hw₂, rfl⟩ := write_spec hflush
  obtain ⟨rest, hrest, hrest'⟩ := takeCstring_buildParse hplain hsql types
  obtain ⟨hothers, hfound, hnot⟩ := prep.parse hw₁ hrest hrest'
  have hsame := prep.flush_find hw₂
  have h₂ : ∀ n stmt, n ≠ [] → find s₂ n = some stmt →
      n = globalName sha256 stmt.1 stmt.2 ∧ stmt ∈ K := by
    intro n stmt hn hfind
    rw [hsame] at hfind
    by_cases hg : n = globalName sha256 sql types
    · subst hg
      by_cases hone : ∃ x ∈ rs₁, x.tag = byte '1'
      · cases (hfound hone).symm.trans hfind
        exact ⟨rfl, hK⟩
      · rcases hnot (by simpa using hone) with hsame' | hnone
        · exact h.digests _ _ hn (hsame' ▸ hfind)
        · cases hnone.symm.trans hfind
    · exact h.digests n stmt hn ((hothers n hg) ▸ hfind)
  have hunnamed : find s₂ [] = find c.server [] := by
    rw [hsame]
    exact hothers [] hne.symm
  split at hend
  case h_2 statements hinsert =>
    subst hend
    exact ⟨⟨h₂, (names_insert h.names ⟨hne, hplain⟩ hinsert).1⟩, hunnamed⟩
  case h_1 statements evicted hinsert =>
    obtain ⟨hnames, hold⟩ := names_insert h.names ⟨hne, hplain⟩ hinsert
    obtain ⟨hne', hplain'⟩ := hold evicted rfl
    obtain ⟨hshrinks, hunnamed', hcache⟩ := prep.closeStatement_shrinks hne' hplain' hend
    have hcache : c'.statements = statements := hcache
    have hown : OwnConn sha256 find K
        { server := s₂, supportsDiscardAll := c.supportsDiscardAll, statements } := ⟨h₂, hnames⟩
    exact ⟨hown.shrink hshrinks fun n hn => hnames n (hcache ▸ hn), hunnamed'.trans hunnamed⟩

/-! ## Turns -/

omit prep

/-- What the client knows is what its most recent `Parse` under the name said. -/
def Remembers (sha256 : Bytes → Bytes) (K : Set (Bytes × Bytes)) (received : List Message)
    (st : ClientStatements) : Prop :=
  ∀ name s, st.byName name = some s → ∃ p : ParseParts, s = ClientStatements.statementOf sha256 p ∧
    0 ∉ p.sql ∧ (p.sql, p.paramTypes) ∈ K ∧ lastParse name received = some (p.sql, p.paramTypes)

theorem Remembers.genuine {received : List Message} {st : ClientStatements}
    (h : Remembers sha256 K received st) : Genuine sha256 st := by
  intro name s hs
  obtain ⟨p, hp, hsql, -, -⟩ := h name s hs
  exact ⟨p, hp, hsql⟩

/-- A message that says nothing about any name the client has changes nothing. -/
theorem Remembers.append {received : List Message} {st : ClientStatements} {m : Message}
    (h : Remembers sha256 K received st)
    (hm : ∀ name s, st.byName name = some s → parseUnder name m = none) :
    Remembers sha256 K (received ++ [m]) st := by
  intro name s hs
  obtain ⟨p, hp, hsql, hK, hlast⟩ := h name s hs
  refine ⟨p, hp, hsql, hK, ?_⟩
  rw [lastParse_append, hm name s hs, Option.none_or, hlast]

theorem Remembers.forget {received : List Message} {st : ClientStatements}
    (h : Remembers sha256 K received st) (name : Bytes) :
    Remembers sha256 K received (st.forget name) := by
  intro n s hs
  simp only [ClientStatements.forget, Function.update_apply] at hs
  split at hs
  · cases hs
  · exact h n s hs

/-- Rewriting a message keeps the client's memory in line with what it sent. -/
theorem Rewritten.remembers {received : List Message} {msg : Message} {st st' : ClientStatements}
    {b : BackendStatements} {rw' : Rewrite} (hr : Rewritten sha256 msg st b rw' st')
    (h : Remembers sha256 K received st)
    (hK : ∀ p, msg.tag = byte 'P' → ParseParts.decode msg.body = .ok p →
      (p.sql, p.paramTypes) ∈ K) : Remembers sha256 K (received ++ [msg]) st' := by
  have hother : msg.tag ≠ byte 'P' → Remembers sha256 K (received ++ [msg]) st := fun hP =>
    h.append fun name s _ => parseUnder_of_ne hP
  cases hr with
  | other hnot => exact hother hnot.1
  | @unnamed p hP hp hname =>
      refine h.append fun name s hs => ?_
      rw [parseUnder_ok hP hp, if_neg]
      intro heq
      rw [← heq, hname, st.unnamed] at hs
      cases hs
  | @parse p hP hp hname =>
      intro n s hs
      rw [lastParse_append, parseUnder_ok hP hp]
      simp only [ClientStatements.remember, Function.update_apply] at hs
      by_cases hn : n = p.name
      · rw [if_pos hn] at hs
        cases hs
        obtain ⟨rest, -, hsql⟩ := ParseParts.decode_ok hp
        exact ⟨p, rfl, (eq_of_takeCstring hsql).2, hK p hP hp, by simp [hn]⟩
      · rw [if_neg hn] at hs
        obtain ⟨p', hp', hsql, hK', hlast⟩ := h n s hs
        exact ⟨p', hp', hsql, hK', by simp [Ne.symm hn, hlast]⟩
  | bindUnnamed hB => exact hother (by rw [hB]; decide)
  | bind hB => exact hother (by rw [hB]; decide)
  | bindReplay hB => exact hother (by rw [hB]; decide)
  | passed hDC => exact hother (by rcases hDC with h | h <;> rw [h] <;> decide)
  | describe hD => exact hother (by rw [hD]; decide)
  | describeReplay hD => exact hother (by rw [hD]; decide)
  | close hC => exact hother (by rw [hC]; decide)

theorem Sending.remembers {onParse : Bytes → PgBackend σ → Except ProtoError Unit × PgBackend σ}
    {received : List Message} {msg out : Message} {st st' : ClientStatements} {c c' : PgBackend σ}
    (hs : Sending sha256 srv onParse msg st c out st' c') (h : Remembers sha256 K received st)
    (hK : ∀ p, msg.tag = byte 'P' → ParseParts.decode msg.body = .ok p →
      (p.sql, p.paramTypes) ∈ K) : Remembers sha256 K (received ++ [msg]) st' := by
  cases hs with
  | passed hr => exact (rewritePrepared_cases hr).remembers h hK
  | replaced hr => exact (rewritePrepared_cases hr).remembers h hK
  | parsed hr => exact (rewritePrepared_cases hr).remembers h hK
  | closed hr => exact ((rewritePrepared_cases hr).remembers h hK).forget _
  | replayed hr => exact (rewritePrepared_cases hr).remembers h hK

/-- What holds of a session between two client messages. -/
structure OwnSession (sha256 : Bytes → Bytes) (find : σ → Bytes → Option (Bytes × Bytes))
    (K : Set (Bytes × Bytes)) (s : Session σ) : Prop where
  remembers : Remembers sha256 K s.log.received s.statements
  conn : ∀ co, s.held = some co → OwnConn sha256 find K co.conn
  unnamed : ∀ co stmt, s.held = some co → s.log.unnamed = some stmt →
    lastParse [] s.log.received = some stmt ∧ find co.conn.server [] = some stmt

/-- The condition under which a turn binds no client to another's statement. -/
structure OwnTurn (srv : Server σ) (g : Group) (K : Set (Bytes × Bytes))
    (prepares : σ → Message → Prop) (r : Relay σ) (t : Turn) : Prop where
  /-- No `Parse` is refused by the policy. -/
  policy : ∀ msg reason, t.event = .message msg →
    refusedByPolicy r.session.policy msg = some reason → msg.tag ≠ byte 'P'
  /-- The statements are among those whose digests are known not to collide. -/
  known : ∀ msg p, Forwards r t msg → msg.tag = byte 'P' → ParseParts.decode msg.body = .ok p →
    (p.sql, p.paramTypes) ∈ K
  /-- The unnamed statement is asked for only while the backend that took the client's last unnamed
  `Parse` is still held. -/
  unnamed : ∀ msg, Forwards r t msg → statementName msg = some [] →
    r.session.held.isSome = true ∧ r.session.log.unnamed.isSome = true
  /-- Nothing is prepared by SQL, the parameter statements included. -/
  sql : ∀ msg s co, Forwards r t msg → Ready srv g r t msg s co →
    msg.tag = byte 'Q' ∨ msg.tag = byte 'E' → ¬ prepares co.conn.server msg
  params : ∀ msg c, Forwards r t msg → r.session.held = none → Offered srv g r.shelves c →
    ¬ prepares c.server (.query (PgBackend.batchSql (r.session.params.delta c.appliedParams)))
  restarts : NoRestart srv g r t

include prep

theorem OwnConn.syncParams {c c' : PgBackend σ} {p : ClientParams} {sync : PgBackend.ParamSync}
    (h : OwnConn sha256 find K c)
    (hsql : ¬ prepares c.server (.query (PgBackend.batchSql (p.delta c.appliedParams))))
    (hsync : c.syncParams srv p = (.ok sync, c')) : OwnConn sha256 find K c' := by
  obtain ⟨rfl, -, -⟩ | ⟨s', rs, read, rest, applied, hsrv, -, -, rfl, -⟩ := syncParams_ok hsync
  · exact h
  · have htags : byte 'Q' ≠ byte 'P' ∧ byte 'Q' ≠ byte 'C' := by decide
    exact h.shrink (prep.other_shrinks hsrv htags.1 htags.2 fun _ => hsql) h.names

theorem Offered.own {sh : Shelves σ} {c : PgBackend σ}
    (hsh : ∀ p c, c ∈ sh p → OwnConn sha256 find K c) (h : Offered srv g sh c) :
    OwnConn sha256 find K c := by
  cases h with
  | shelved hmem =>
      have hown := hsh _ _ hmem
      exact ⟨hown.digests, hown.names⟩
  | opened k =>
      refine ⟨fun n stmt _ hfind => ?_, fun n hn => ?_⟩
      · cases (prep.start k n).symm.trans hfind
      · simp at hn

/-- A session about to rewrite a message. -/
theorem OwnSession.ready {r : Relay σ} {t : Turn} {msg : Message} {s : Session σ} {co : Checkout σ}
    (h : OwnSession sha256 find K r.session) (hsh : ∀ p c, c ∈ r.shelves p → OwnConn sha256 find K c)
    (ok : OwnTurn srv g K prepares r t) (hf : Forwards r t msg) (hr : Ready srv g r t msg s co) :
    OwnConn sha256 find K co.conn ∧ s.log.received = r.session.log.received ++ [msg] ∧
      ∀ stmt, s.log.unnamed = some stmt →
        lastParse [] r.session.log.received = some stmt ∧ find co.conn.server [] = some stmt := by
  cases hr with
  | held hco => exact ⟨h.conn co hco, rfl, fun stmt hst => h.unnamed co stmt hco hst⟩
  | @borrowed s c conn sync pool hnone hs hoffer hsync =>
      obtain ⟨-, -, -, -, results, hlog⟩ := hs.spec
      refine ⟨(hoffer.own prep hsh).syncParams prep ?_ hsync, ?_, fun stmt hst => ?_⟩
      · rw [Session.delta_arrive]
        exact ok.params msg c hf hnone hoffer
      · show s.log.received = _
        rw [hlog]
        rfl
      · cases hst

/-- The connection a message is written to, once the relay has made it ready. -/
theorem Sends.own_before {r : Relay σ} {t : Turn} {msg out : Message} {s : Session σ}
    {co : Checkout σ} {st : ClientStatements} {c c' : PgBackend σ} {replies : List Reply}
    {received : List Message} (hremembers : Remembers sha256 K received s.statements)
    (h : OwnConn sha256 find K co.conn)
    (hsends : Sends sha256 srv g r t msg s co out st c c' replies) :
    OwnConn sha256 find K c ∧ find c.server [] = find co.conn.server [] := by
  cases outgoing_cases hsends.outgoing with
  | passed => exact ⟨h, rfl⟩
  | replaced => exact ⟨h, rfl⟩
  | parsed hr hroom =>
      cases rewritePrepared_cases hr with
      | @parse p hP hp hname =>
          exact h.prepareParse prep ⟨(isHavuz_globalName sha256 _ _).ne_nil,
            zero_notMem_globalName sha256 _ _⟩ hroom
  | closed =>
      refine ⟨h.shrink (.refl _) fun n hn => h.names n ?_, rfl⟩
      simp only [BackendStatements.present_remove] at hn
      exact Finset.mem_of_mem_erase hn
  | replayed hr hreplay =>
      cases rewritePrepared_cases hr with
      | bindReplay hB hname hst =>
          obtain ⟨p, rfl, hsql, hK, -⟩ := hremembers _ _ hst
          exact h.replayParse prep hsql hK hreplay
      | describeReplay hD hname hst =>
          obtain ⟨p, rfl, hsql, hK, -⟩ := hremembers _ _ hst
          exact h.replayParse prep hsql hK hreplay

/-- The unnamed statement after a message that is neither `Parse` nor `Close`. -/
theorem Prepares.unnamed_other {l : Ledger σ} {s s' : σ} {msg out : Message} {rs : List Message}
    {replies : List Reply} {received : List Message} (hreceived : l.received = received ++ [msg])
    (hunnamed : ∀ stmt, l.unnamed = some stmt →
      lastParse [] received = some stmt ∧ find s [] = some stmt)
    (hw : srv.write s out = some (s', rs)) (htag : out.tag = msg.tag) (hP : msg.tag ≠ byte 'P')
    (hC : msg.tag ≠ byte 'C')
    (hsql : msg.tag = byte 'Q' ∨ msg.tag = byte 'E' → ¬ prepares s out) :
    ∀ stmt, l.nextUnnamed msg replies = some stmt →
      lastParse [] l.received = some stmt ∧ find s' [] = some stmt := by
  intro stmt hstmt
  rw [Ledger.nextUnnamed, if_neg hP] at hstmt
  split at hstmt
  case isTrue => cases hstmt
  case isFalse hQ =>
    obtain ⟨hlast, hfind⟩ := hunnamed stmt hstmt
    rw [hreceived, lastParse_append, parseUnder_of_ne hP, Option.none_or]
    refine ⟨hlast, ?_⟩
    rw [← htag] at hP hC hsql hQ
    rcases prep.other hw hP hC hsql [] with h | ⟨h, -⟩
    · rw [h, hfind]
    · exact absurd h hQ

/-- The unnamed statement after a `Parse`. -/
theorem Prepares.unnamed_parse {l : Ledger σ} {s s' : σ} {msg : Message} {body rest : Bytes}
    {rs : List Message} {replies : List Reply} {received : List Message} {p : ParseParts}
    {name : Bytes} (hreceived : l.received = received ++ [msg])
    (hunnamed : ∀ stmt, l.unnamed = some stmt →
      lastParse [] received = some stmt ∧ find s [] = some stmt)
    (hw : srv.write s ⟨byte 'P', body⟩ = some (s', rs)) (hrep : replies = rs.map (Reply.mk .client))
    (hP : msg.tag = byte 'P') (hp : ParseParts.decode msg.body = .ok p)
    (hname : takeCstring body = some (name, rest))
    (hsql : takeCstring rest = some (p.sql, p.paramTypes)) (hnil : name = [] ↔ p.name = []) :
    ∀ stmt, l.nextUnnamed msg replies = some stmt →
      lastParse [] l.received = some stmt ∧ find s' [] = some stmt := by
  intro stmt hstmt
  obtain ⟨hothers, hfound, -⟩ := prep.parse hw hname hsql
  rw [Ledger.nextUnnamed, if_pos hP, hp] at hstmt
  simp only at hstmt
  rw [hreceived, lastParse_append, parseUnder_ok hP hp]
  split at hstmt
  case isTrue hne =>
    -- A named statement: the unnamed one stays.
    obtain ⟨hlast, hfind⟩ := hunnamed stmt hstmt
    refine ⟨by rw [if_neg hne, Option.none_or, hlast], ?_⟩
    rw [hothers [] fun h => hne (hnil.mp h.symm), hfind]
  case isFalse hnot =>
    have hempty : p.name = [] := by simpa using hnot
    split at hstmt
    case isFalse => cases hstmt
    case isTrue hone =>
      cases hstmt
      refine ⟨by simp [hempty], ?_⟩
      have hone : ∃ x ∈ rs, x.tag = byte '1' := by
        rw [hrep] at hone
        simpa using hone
      have hname' : name = [] := hnil.mpr hempty
      have hfind := hfound hone
      rwa [hname'] at hfind

/-- The unnamed statement after a `Close`. -/
theorem Prepares.unnamed_close {l : Ledger σ} {s s' : σ} {msg : Message} {kind : UInt8}
    {name target rest back : Bytes} {rs : List Message} {replies : List Reply}
    {received : List Message} (hreceived : l.received = received ++ [msg])
    (hunnamed : ∀ stmt, l.unnamed = some stmt →
      lastParse [] received = some stmt ∧ find s [] = some stmt)
    (hw : srv.write s ⟨byte 'C', kind :: rest⟩ = some (s', rs)) (hC : msg.tag = byte 'C')
    (htarget : describeTarget msg.body = .ok (kind, target))
    (hname : takeCstring rest = some (name, back)) (hnil : name = [] → target = []) :
    ∀ stmt, l.nextUnnamed msg replies = some stmt →
      lastParse [] l.received = some stmt ∧ find s' [] = some stmt := by
  intro stmt hstmt
  have hP : msg.tag ≠ byte 'P' := by rw [hC]; decide
  have hQ : msg.tag ≠ byte 'Q' := by rw [hC]; decide
  rw [Ledger.nextUnnamed, if_neg hP, if_neg hQ, if_pos hC, htarget] at hstmt
  simp only at hstmt
  split at hstmt
  case isTrue => cases hstmt
  case isFalse hnot =>
    obtain ⟨hlast, hfind⟩ := hunnamed stmt hstmt
    rw [hreceived, lastParse_append, parseUnder_of_ne hP, Option.none_or]
    refine ⟨hlast, ?_⟩
    by_cases hkind : kind = byte 'S'
    · subst hkind
      rw [(prep.close hw hname).1 [] fun h => hnot ⟨rfl, hnil h.symm⟩, hfind]
    · rw [prep.closePortal hw hkind, hfind]

/-- The connection and the unnamed statement after a message went out. -/
theorem Sends.own_after {r : Relay σ} {t : Turn} {msg out : Message} {s : Session σ}
    {co : Checkout σ} {st : ClientStatements} {c c' : PgBackend σ} {replies : List Reply}
    {received : List Message} (ok : OwnTurn srv g K prepares r t)
    (hremembers : Remembers sha256 K received s.statements)
    (hreceived : s.log.received = received ++ [msg]) (h : OwnConn sha256 find K co.conn)
    (hunnamed : ∀ stmt, s.log.unnamed = some stmt →
      lastParse [] received = some stmt ∧ find co.conn.server [] = some stmt)
    (hsends : Sends sha256 srv g r t msg s co out st c c' replies) :
    OwnConn sha256 find K c' ∧ ∀ stmt, s.log.nextUnnamed msg replies = some stmt →
      lastParse [] s.log.received = some stmt ∧ find c'.server [] = some stmt := by
  obtain ⟨hown, hsame⟩ := hsends.own_before prep hremembers h
  rw [← hsame] at hunnamed
  have hf := hsends.forwards
  have hready := hsends.ready
  have htag : out.tag = msg.tag := outgoing_tag hsends.outgoing
  obtain ⟨s', rs, hsrv, hrep, rfl⟩ := writeForClient_spec hsends.written
  have hother : msg.tag ≠ byte 'P' → msg.tag ≠ byte 'C' →
      (msg.tag = byte 'Q' ∨ msg.tag = byte 'E' → ¬ prepares c.server out) →
      OwnConn sha256 find K { c with
        server := s', unread := c.unread ++ replies, trace := c.trace ++ [.wrote .client c.server out] } ∧
      ∀ stmt, s.log.nextUnnamed msg replies = some stmt →
        lastParse [] s.log.received = some stmt ∧ find s' [] = some stmt := by
    intro hP hC hsql
    refine ⟨hown.shrink ?_ hown.names,
      prep.unnamed_other hreceived hunnamed hsrv htag hP hC hsql⟩
    exact prep.other_shrinks hsrv (htag ▸ hP) (htag ▸ hC) (htag ▸ hsql)
  have hask : msg.tag = byte 'B' ∨ msg.tag = byte 'D' →
      OwnConn sha256 find K { c with
        server := s', unread := c.unread ++ replies, trace := c.trace ++ [.wrote .client c.server out] } ∧
      ∀ stmt, s.log.nextUnnamed msg replies = some stmt →
        lastParse [] s.log.received = some stmt ∧ find s' [] = some stmt := by
    intro hBD
    have hnot : msg.tag ≠ byte 'P' ∧ msg.tag ≠ byte 'C' ∧ ¬ (msg.tag = byte 'Q' ∨ msg.tag = byte 'E') := by
      rcases hBD with h | h <;> rw [h] <;> decide
    exact hother hnot.1 hnot.2.1 fun h => absurd h hnot.2.2
  cases outgoing_cases hsends.outgoing with
  | passed hr =>
      cases rewritePrepared_cases hr with
      | other hnot =>
          exact hother hnot.1 hnot.2.2.2 (ok.sql _ s co hf hready)
      | @unnamed p hP hp hname =>
          obtain ⟨rest, hrest, hsql⟩ := ParseParts.decode_ok hp
          have hmsg : msg = ⟨byte 'P', msg.body⟩ := by rw [← hP]
          rw [hmsg] at hsrv
          refine ⟨⟨fun n stmt hn hfind => ?_, hown.names⟩,
            prep.unnamed_parse hreceived hunnamed hsrv hrep hP hp hrest hsql Iff.rfl⟩
          rw [(prep.parse hsrv hrest hsql).1 n (hname ▸ hn)] at hfind
          exact hown.digests n stmt hn hfind
      | bindUnnamed hB => exact hask (.inl hB)
      | @passed kind name hDC htarget hwhat =>
          rcases hDC with hD | hC
          · exact hask (.inr hD)
          · obtain ⟨rest, back, hbody, hrest⟩ := describeTarget_ok htarget
            have hmsg : msg = ⟨byte 'C', kind :: rest⟩ := by rw [← hC, ← hbody]
            rw [hmsg] at hsrv
            refine ⟨hown.shrink ?_ hown.names,
              prep.unnamed_close hreceived hunnamed hsrv hC htarget hrest id⟩
            by_cases hkind : kind = byte 'S'
            · subst hkind
              exact prep.close_shrinks hsrv hrest
            · exact fun n => .inl (prep.closePortal hsrv hkind n)
  | replaced hr =>
      cases rewritePrepared_cases hr with
      | bind hB => exact hask (.inl hB)
      | describe hD => exact hask (.inr hD)
  | parsed hr hroom =>
      cases rewritePrepared_cases hr with
      | @parse p hP hp hname =>
          obtain ⟨_, _, hsql⟩ := ParseParts.decode_ok hp
          have hne := (isHavuz_globalName sha256 p.sql p.paramTypes).ne_nil
          obtain ⟨rest, hrest, hparts⟩ := takeCstring_buildParse
            (zero_notMem_globalName sha256 p.sql p.paramTypes) (eq_of_takeCstring hsql).2 p.paramTypes
          refine ⟨⟨fun n stmt hn hfind => ?_, hown.names⟩, prep.unnamed_parse hreceived hunnamed hsrv
            hrep hP hp hrest hparts (by simp [hne, hname])⟩
          obtain ⟨hothers, hfound, hnot⟩ := prep.parse hsrv hrest hparts
          by_cases hg : n = globalName sha256 p.sql p.paramTypes
          · subst hg
            by_cases hone : ∃ x ∈ rs, x.tag = byte '1'
            · cases (hfound hone).symm.trans hfind
              exact ⟨rfl, ok.known msg p hf hP hp⟩
            · rcases hnot (by simpa using hone) with hsame' | hnone
              · exact hown.digests _ _ hn (hsame' ▸ hfind)
              · cases hnone.symm.trans hfind
          · exact hown.digests n stmt hn ((hothers n hg) ▸ hfind)
  | closed hr =>
      cases rewritePrepared_cases hr with
      | @close name body st hC htarget hst hbody =>
          obtain ⟨p, rfl, -⟩ := hremembers _ _ hst
          obtain ⟨rest, rfl⟩ := replaceCstring_target htarget hbody
          rw [hC] at hsrv
          have hname := takeCstring_append (zero_notMem_globalName sha256 p.sql p.paramTypes) rest
          have hne := (isHavuz_globalName sha256 p.sql p.paramTypes).ne_nil
          exact ⟨hown.shrink (prep.close_shrinks hsrv hname) hown.names,
            prep.unnamed_close hreceived hunnamed hsrv hC htarget hname fun h => absurd h hne⟩
  | replayed hr hreplay =>
      cases rewritePrepared_cases hr with
      | bindReplay hB => exact hask (.inl hB)
      | describeReplay hD => exact hask (.inr hD)

/-- The unnamed statement a message asks for is the one the backend took in this checkout. -/
theorem Sends.own_unnamed {r : Relay σ} {t : Turn} {msg out : Message} {s : Session σ}
    {co : Checkout σ} {st : ClientStatements} {c c' : PgBackend σ} {replies : List Reply}
    {received : List Message} (ok : OwnTurn srv g K prepares r t)
    (hremembers : Remembers sha256 K received s.statements) (h : OwnConn sha256 find K co.conn)
    (hunnamed : ∀ stmt, s.log.unnamed = some stmt →
      lastParse [] received = some stmt ∧ find co.conn.server [] = some stmt)
    (hsends : Sends sha256 srv g r t msg s co out st c c' replies)
    (hname : statementName msg = some []) :
    ∃ stmt, lastParse [] received = some stmt ∧ find c.server [] = some stmt := by
  obtain ⟨-, hsame⟩ := hsends.own_before prep hremembers h
  obtain ⟨hheld, hsome⟩ := ok.unnamed msg hsends.forwards hname
  obtain ⟨stmt, hstmt⟩ := Option.isSome_iff_exists.mp hsome
  have hlog : s.log.unnamed = some stmt := by
    obtain ⟨results, ⟨-, hlog⟩ | ⟨hnone, -⟩⟩ := hsends.ready.log_eq
    · rw [hlog]
      exact hstmt
    · rw [hnone] at hheld
      cases hheld
  refine ⟨stmt, (hunnamed stmt hlog).1, ?_⟩
  rw [hsame, (hunnamed stmt hlog).2]

omit prep in
/-- A message about a prepared statement is one of these. -/
theorem Sends.asks {r : Relay σ} {t : Turn} {msg out : Message} {s : Session σ}
    {co : Checkout σ} {st : ClientStatements} {c c' : PgBackend σ} {replies : List Reply}
    (hgenuine : Genuine sha256 s.statements)
    (hsends : Sends sha256 srv g r t msg s co out st c c' replies) {name : Bytes}
    (hname : statementName msg = some name) :
    (name = [] ∧ out = msg) ∨ ∃ stmt, s.statements.byName name = some stmt ∧
      statementName out = some stmt.globalName ∧
      ((co.conn.statements.has stmt.globalName = true ∧ c = co.conn) ∨
        (co.conn.statements.has stmt.globalName = false ∧
          rewritePrepared sha256 msg s.statements co.conn.statements =
            .ok (.replayThen stmt.parseMessage stmt.globalName out, st) ∧
          co.conn.replayParse srv stmt.parseMessage stmt.globalName = (.ok (), c))) := by
  have hplain : ∀ {stmt : PreparedStatement} {clientName : Bytes},
      s.statements.byName clientName = some stmt → 0 ∉ stmt.globalName := by
    intro stmt clientName hst
    obtain ⟨p, rfl, -⟩ := hgenuine _ _ hst
    exact zero_notMem_globalName sha256 _ _
  have hother : msg.tag ≠ byte 'B' → msg.tag ≠ byte 'D' → False := by
    intro hB hD
    rw [statementName, if_neg hB, if_neg hD] at hname
    cases hname
  cases outgoing_cases hsends.outgoing with
  | passed hr =>
      refine .inl ⟨?_, rfl⟩
      cases rewritePrepared_cases hr with
      | other hnot => exact (hother hnot.2.1 hnot.2.2.1).elim
      | unnamed hP => exact (hother (by rw [hP]; decide) (by rw [hP]; decide)).elim
      | bindUnnamed hB hbind => exact Option.some.inj (hname.symm.trans (statementName_bind hB hbind))
      | @passed kind target hDC htarget hwhat =>
          rcases hDC with hD | hC
          · have htarget' := statementName_describe hD htarget
            rw [hname] at htarget'
            split at htarget'
            case isTrue hkind =>
              cases htarget'
              exact hwhat.resolve_left fun h => h hkind
            case isFalse => cases htarget'
          · exact (hother (by rw [hC]; decide) (by rw [hC]; decide)).elim
  | replaced hr =>
      cases rewritePrepared_cases hr with
      | bind hB hbind hst hbody hhas =>
          cases hname.symm.trans (statementName_bind hB hbind)
          exact .inr ⟨_, hst, statementName_renamed_bind hB hbind (hplain hst) hbody, .inl ⟨hhas, rfl⟩⟩
      | describe hD htarget hst hbody hhas =>
          have htarget' := statementName_describe hD htarget
          rw [if_pos rfl] at htarget'
          cases hname.symm.trans htarget'
          exact .inr ⟨_, hst, statementName_renamed_describe hD htarget (hplain hst) hbody,
            .inl ⟨hhas, rfl⟩⟩
  | parsed hr =>
      cases rewritePrepared_cases hr with
      | parse hP => exact (hother (by rw [hP]; decide) (by rw [hP]; decide)).elim
  | closed hr =>
      cases rewritePrepared_cases hr with
      | close hC => exact (hother (by rw [hC]; decide) (by rw [hC]; decide)).elim
  | replayed hr hreplay =>
      cases rewritePrepared_cases hr with
      | bindReplay hB hbind hst hbody hhas =>
          cases hname.symm.trans (statementName_bind hB hbind)
          exact .inr ⟨_, hst, statementName_renamed_bind hB hbind (hplain hst) hbody,
            .inr ⟨hhas, hr, hreplay⟩⟩
      | describeReplay hD htarget hst hbody hhas =>
          have htarget' := statementName_describe hD htarget
          rw [if_pos rfl] at htarget'
          cases hname.symm.trans htarget'
          exact .inr ⟨_, hst, statementName_renamed_describe hD htarget (hplain hst) hbody,
            .inr ⟨hhas, hr, hreplay⟩⟩

/-- What a forwarded message asks for is the client's own statement; the unnamed one is there. -/
theorem Sends.own {r : Relay σ} {t : Turn} {msg out : Message} {s : Session σ}
    {co : Checkout σ} {st : ClientStatements} {c c' : PgBackend σ} {replies : List Reply}
    {received : List Message} (ok : OwnTurn srv g K prepares r t)
    (hK : Set.InjOn (fun q : Bytes × Bytes => globalName sha256 q.1 q.2) K)
    (hremembers : Remembers sha256 K received s.statements)
    (hreceived : s.log.received = received ++ [msg]) (h : OwnConn sha256 find K co.conn)
    (hunnamed : ∀ stmt, s.log.unnamed = some stmt →
      lastParse [] received = some stmt ∧ find co.conn.server [] = some stmt)
    (hsends : Sends sha256 srv g r t msg s co out st c c' replies) :
    Own find ⟨msg, out, c.server, s.log.received, replies⟩ ∧
      (statementName msg = some [] → Found find ⟨msg, out, c.server, s.log.received, replies⟩) := by
  obtain ⟨hown, -⟩ := hsends.own_before prep hremembers h
  have hself := hsends.own_unnamed prep ok hremembers h hunnamed
  refine ⟨fun name hname => ?_, fun hname => ?_⟩
  · have hP : msg.tag ≠ byte 'P' := by
      intro hP
      rw [statementName, hP] at hname
      cases hname
    have hlast : lastParse name s.log.received = lastParse name received := by
      rw [hreceived, lastParse_append, parseUnder_of_ne hP, Option.none_or]
    rw [hlast]
    obtain ⟨rfl, rfl⟩ | ⟨stmt, hst, hout, -⟩ := hsends.asks hremembers.genuine hname
    · obtain ⟨stmt, hlast', hfound⟩ := hself hname
      refine ⟨[], hname, fun stmt' hfind => ?_⟩
      cases hfound.symm.trans hfind
      exact hlast'
    · -- Whatever is there under the digest is the same statement.
      obtain ⟨p, rfl, -, hp, hlast'⟩ := hremembers _ _ hst
      refine ⟨_, hout, fun stmt hfind => ?_⟩
      obtain ⟨hdigest, hstmt⟩ :=
        hown.digests _ stmt (isHavuz_globalName sha256 p.sql p.paramTypes).ne_nil hfind
      have hsame : (p.sql, p.paramTypes) = stmt := hK hp hstmt hdigest
      rw [hlast', hsame]
  · obtain ⟨stmt, -, hfound⟩ := hself hname
    obtain ⟨-, rfl⟩ | ⟨st, hst, -⟩ := hsends.asks hremembers.genuine hname
    · exact ⟨[], stmt, hname, hfound⟩
    · rw [s.statements.unnamed] at hst
      cases hst

/-- What a reset sends takes statements away at most. -/
theorem OwnConn.simpleQuery {sql : Text} {c : PgBackend σ} (h : OwnConn sha256 find K c)
    (hsql : (∀ s, ¬ prepares s (.query sql)) ∨ sql = "DISCARD ALL".toList) :
    OwnConn sha256 find K (c.simpleQuery srv sql) := by
  obtain ⟨hcache, hserver⟩ := simpleQuery_server srv sql c
  refine h.shrink ?_ fun n hn => h.names n (hcache ▸ hn)
  obtain hsame | ⟨rs, hw⟩ := hserver
  · rw [hsame]
    exact .refl _
  · obtain hsql | rfl := hsql
    · have htags : byte 'Q' ≠ byte 'P' ∧ byte 'Q' ≠ byte 'C' := by decide
      exact prep.other_shrinks hw htags.1 htags.2 fun _ => hsql _
    · exact (prep.discard hw).1

theorem OwnConn.reset {c c' : PgBackend σ} {cleaned : Bool} (h : OwnConn sha256 find K c)
    (hreset : c.reset srv = (cleaned, c')) : OwnConn sha256 find K c' := by
  unfold PgBackend.reset at hreset
  split at hreset
  case isTrue =>
    cases hreset
    exact h
  case isFalse =>
    have hrollback := h.simpleQuery prep (.inl fun s => (prep.resets s).1)
    generalize c.simpleQuery srv "ROLLBACK".toList = c₁ at hreset hrollback
    have hdiscard : OwnConn sha256 find K (c₁.simpleQuery srv c₁.discardStatement) := by
      refine hrollback.simpleQuery prep ?_
      unfold PgBackend.discardStatement
      split
      · exact .inr rfl
      · exact .inl fun s => (prep.resets s).2
    simp only [Prod.mk.injEq] at hreset
    obtain ⟨-, rfl⟩ := hreset
    refine ⟨hdiscard.digests, fun n hn => ?_⟩
    have hn : n ∈ BackendStatements.clear.present := hn
    simp at hn

omit prep in
/-- A message the rewrite refuses says nothing about any name. -/
theorem parseUnder_of_refused {msg : Message} {st : ClientStatements} {b : BackendStatements}
    {e : PreparedError} (h : rewritePrepared sha256 msg st b = .error e) (name : Bytes) :
    parseUnder name msg = none := by
  by_cases hP : msg.tag = byte 'P'
  · rw [rewritePrepared, if_pos hP, ClientStatements.onParse] at h
    rw [parseUnder, if_pos hP]
    cases hp : ParseParts.decode msg.body with
    | error e => rfl
    | ok p =>
        rw [hp] at h
        simp only at h
        split at h <;> cases h
  · exact parseUnder_of_ne hP

omit prep in
/-- A message that is answered here and says nothing about any name. -/
theorem OwnSession.refuse {s : Session σ} {received : List Message} {msg error : Message}
    {status : TransactionStatus} (hremembers : Remembers sha256 K received s.statements)
    (hreceived : s.log.received = received ++ [msg])
    (hheld : ∀ co, s.held = some co → OwnConn sha256 find K co.conn)
    (hunnamed : ∀ co stmt, s.held = some co → s.log.unnamed = some stmt →
      lastParse [] received = some stmt ∧ find co.conn.server [] = some stmt)
    (hmsg : ∀ name, parseUnder name msg = none) :
    OwnSession sha256 find K (s.refuse msg error status) := by
  refine ⟨?_, hheld, fun co stmt hco hst => ?_⟩
  · rw [Session.log_refuse, Session.statements_refuse]
    show Remembers sha256 K s.log.received s.statements
    rw [hreceived]
    exact hremembers.append fun name _ _ => hmsg name
  · rw [Session.log_refuse] at hst ⊢
    show lastParse [] s.log.received = some stmt ∧ _
    rw [hreceived, lastParse_append, hmsg, Option.none_or]
    exact hunnamed co stmt hco hst

/-- What has to be shown at the ends of a turn. -/
theorem OwnTurn.rule {r : Relay σ} {t : Turn}
    (hK : Set.InjOn (fun q : Bytes × Bytes => globalName sha256 q.1 q.2) K)
    (hsh : ∀ p c, c ∈ r.shelves p → OwnConn sha256 find K c)
    (h : OwnSession sha256 find K r.session) (ok : OwnTurn srv g K prepares r t) :
    TurnRule sha256 srv g r t (OwnConn sha256 find K)
      (fun f => Own find f ∧ (statementName f.msg = some [] → Found find f))
      (OwnSession sha256 find K) := by
  have hremembers : ∀ {msg s co}, Ready srv g r t msg s co →
      Remembers sha256 K r.session.log.received s.statements := by
    intro msg s co hr
    rw [hr.statements_eq]
    exact h.remembers
  have hsent : ∀ {msg s co out st c}, Forwards r t msg → Ready srv g r t msg s co →
      outgoing sha256 srv (prepareParse srv) msg s.statements co.conn = .send out st c →
      Remembers sha256 K s.log.received st := by
    intro msg s co out st c hf hr hout
    rw [(h.ready prep hsh ok hf hr).2.1]
    exact (outgoing_cases hout).remembers (hremembers hr) (ok.known msg · hf)
  have hafter : ∀ {msg s co out st c c' replies},
      Sends sha256 srv g r t msg s co out st c c' replies →
      OwnConn sha256 find K c' ∧ ∀ stmt, s.log.nextUnnamed msg replies = some stmt →
        lastParse [] s.log.received = some stmt ∧ find c'.server [] = some stmt := by
    intro msg s co out st c c' replies hsends
    obtain ⟨hown, hreceived, hunnamed⟩ := h.ready prep hsh ok hsends.forwards hsends.ready
    exact hsends.own_after prep ok (hremembers hsends.ready) hreceived hown hunnamed
  -- Reading the answer leaves the server and the cache as they are.
  have hpumped : ∀ {msg s co out st c c' replies e delivered c''},
      Sends sha256 srv g r t msg s co out st c c' replies →
      c'.pumpUntilReady t.clientAccepts = (some e, delivered, c'') →
      c''.server = c'.server ∧
        OwnConn sha256 find K (({ co with conn := c'' } : Checkout σ).settled s.params e).conn := by
    intro msg s co out st c c' replies e delivered c'' hsends hpump
    obtain ⟨front, x, -, -, -, -, -, hc''⟩ := pumpUntilReady_some hpump
    have hserver : c''.server = c'.server := by rw [hc'']
    refine ⟨hserver, (hafter hsends).1.shrink ?_ fun n hn => ?_⟩
    · rw [Checkout.settled_server, hserver]
      exact .refl _
    · rw [Checkout.settled_statements, hc''] at hn
      exact (hafter hsends).1.names n hn
  constructor
  case idle => exact fun _ _ => h
  case leaves => exact fun co _ hco _ _ _ _ => h.conn co hco
  case resets => exact fun co c _ hco _ _ hreset => (h.conn co hco).reset prep hreset
  case policy =>
    intro msg reason hevent hpolicy
    exact OwnSession.refuse h.remembers rfl h.conn h.unnamed fun name =>
      parseUnder_of_ne (ok.policy msg reason hevent hpolicy)
  case syncRefused =>
    intro msg c conn detail hf hnone hoffer hsync
    refine (hoffer.own prep hsh).syncParams prep ?_ hsync
    rw [Session.delta_arrive]
    exact ok.params msg c hf hnone hoffer
  case refused =>
    intro msg s co e hf hr he
    obtain ⟨hown, hreceived, hunnamed⟩ := h.ready prep hsh ok hf hr
    refine OwnSession.refuse (hremembers hr) hreceived (fun co' hco' => ?_)
      (fun co' stmt hco' hst => ?_) (parseUnder_of_refused he)
    · cases hr.held_eq.symm.trans hco'
      exact hown
    · cases hr.held_eq.symm.trans hco'
      exact hunnamed stmt hst
  case dropped =>
    intro msg s co out st c hf hr hout _ _
    have hst := hsent hf hr hout
    exact ⟨hst, fun co' hco' => (by cases hco'), fun co' stmt hco' => (by cases hco')⟩
  case sent =>
    intro msg s co out st c c' replies hsends
    obtain ⟨hown, hreceived, hunnamed⟩ := h.ready prep hsh ok hsends.forwards hsends.ready
    exact hsends.own prep ok hK (hremembers hsends.ready) hreceived hown hunnamed
  case pipelined =>
    intro msg s co out st c c' replies hsends _
    have hst := hsent hsends.forwards hsends.ready hsends.outgoing
    refine ⟨hst, fun co' hco' => ?_, fun co' stmt hco' hst => ?_⟩
    · cases hco'
      exact (hafter hsends).1
    · cases hco'
      exact (hafter hsends).2 stmt hst
  case kept =>
    intro msg s co out st c c' replies e delivered c'' hsends _ hpump _
    obtain ⟨hserver, hown⟩ := hpumped hsends hpump
    have hst := hsent hsends.forwards hsends.ready hsends.outgoing
    refine ⟨?_, fun co' hco' => ?_, fun co' stmt hco' hst => ?_⟩
    · show Remembers sha256 K (Session.answered delivered _).log.received st
      rw [Session.received_answered]
      exact hst
    · cases hco'
      exact hown
    · cases hco'
      show lastParse [] (Session.answered delivered _).log.received = _ ∧ _
      have hst : (Session.answered delivered _).log.unnamed = some stmt := hst
      rw [Session.unnamed_answered] at hst
      rw [Session.received_answered, Checkout.settled_server, hserver]
      exact (hafter hsends).2 stmt hst
  case released =>
    intro msg s co out st c c' replies e delivered c'' hsends _ hpump _
    have hst := hsent hsends.forwards hsends.ready hsends.outgoing
    refine ⟨⟨?_, fun co' hco' => (by cases hco'), fun co' stmt hco' => (by cases hco')⟩,
      fun _ _ => (hpumped hsends hpump).2⟩
    show Remembers sha256 K (Session.answered delivered _).log.received st
    rw [Session.received_answered]
    exact hst
  case restarted =>
    intro msg s co out st c c' replies c'' r' hsends hreply hpump hroute
    exact (ok.restarts.absurd hsends hreply hpump hroute).elim

/-- Where the cache mirrors the server, a named statement that is asked for is there. -/
theorem Sends.found {r : Relay σ} {t : Turn} {msg out : Message} {s : Session σ}
    {co : Checkout σ} {st : ClientStatements} {c c' : PgBackend σ} {replies : List Reply}
    (ok : MirrorTurn sha256 srv g attentive accepts prepares r t)
    (hgenuine : Genuine sha256 s.statements) (h : Faithful copying find co.conn)
    (hsends : Sends sha256 srv g r t msg s co out st c c' replies) {name : Bytes}
    (hname : statementName msg = some name) (hne : name ≠ []) :
    Found find ⟨msg, out, c.server, s.log.received, replies⟩ := by
  obtain ⟨hnil, -⟩ | ⟨stmt, hst, hout, hcached⟩ := hsends.asks hgenuine hname
  · exact absurd hnil hne
  obtain ⟨p, rfl, hsql⟩ := hgenuine _ _ hst
  suffices hpresent : (find c.server (globalName sha256 p.sql p.paramTypes)).isSome = true by
    obtain ⟨stmt, hstmt⟩ := Option.isSome_iff_exists.mp hpresent
    exact ⟨_, stmt, hout, hstmt⟩
  obtain ⟨hhas, rfl⟩ | ⟨hhas, hr, hreplay⟩ := hcached
  · have hmem : (ClientStatements.statementOf sha256 p).globalName ∈ co.conn.statements.present := by
      simpa [BackendStatements.has] using hhas
    exact ((h.mirrors.exact _).mp hmem).1
  · have haccepts := ok.taken msg s co _ _ p.sql p.paramTypes hsends.forwards hsends.ready hr
      (.inr ⟨out, rfl⟩) hsql
    obtain ⟨hmirrors, hmem⟩ := h.mirrors.replayParse prep haccepts hsql hhas hreplay
    exact ((hmirrors.exact _).mp hmem).1

variable (ans : Answers srv copying)

include ans in
/-- **A Bind gets the client's own statement.** In every run of any number of sessions whose turns meet
`OwnTurn`, a `Bind` or statement `Describe` never meets another client's statement; where the turns
also keep the caches exact, the statement is there. -/
theorem binds_own_statement [DecidableEq ι] {w : World ι σ} {ls : List (ι × Turn)} (hfresh : w.Fresh)
    (hK : Set.InjOn (fun q : Bytes × Bytes => globalName sha256 q.1 q.2) K)
    (hrun : Along (worldStep sha256 srv g)
      (fun w l => OwnTurn srv g K prepares (w.relay l.1) l.2) w ls) :
    (∀ i, ∀ f ∈ ((run (worldStep sha256 srv g) w ls).sessions i).log.forwarded, Own find f) ∧
      (Along (worldStep sha256 srv g)
          (fun w l => MirrorTurn sha256 srv g attentive accepts prepares (w.relay l.1) l.2) w ls →
        ∀ i, ∀ f ∈ ((run (worldStep sha256 srv g) w ls).sessions i).log.forwarded,
          ∀ name, statementName f.msg = some name → Found find f) := by
  have hfreshOwn : ∀ s : Session σ, s.Fresh → OwnSession sha256 find K s := by
    intro s hs
    refine ⟨fun name st hst => ?_, hs.no_held, fun co stmt hco => ?_⟩
    · rw [hs.statements] at hst
      cases hst
    · rw [hs.held] at hco
      cases hco
  have hown := World.holds_of_along hfresh hfreshOwn
    (fun r t hsh _ hP ok => OwnTurn.rule prep hK hsh hP ok) hrun
  refine ⟨fun i f hf => (hown.forwarded i f hf).1, fun hmirror i f hf name hname => ?_⟩
  by_cases hne : name = []
  · exact (hown.forwarded i f hf).2 (hne ▸ hname)
  · have hfound := World.holds_of_along (J := Faithful copying find)
      (F := fun f => ∀ name, statementName f.msg = some name → name ≠ [] → Found find f)
      (P := fun s => Genuine sha256 s.statements ∧
        ∀ co, s.held = some co → Faithful copying find co.conn)
      hfresh (fun s hs => ⟨hs.genuine, hs.no_held⟩)
      (fun r t hsh _ hP ok => ok.rule prep ans hsh hP.1 hP.2
        fun msg s co out st c c' replies hsends hgenuine hfaithful name hname hne =>
          hsends.found prep ok hgenuine hfaithful hname hne) hmirror
    exact hfound.forwarded i f hf name hname hne

end Laws

/-! ## A named statement and an unnamed one -/

/-- `Bind` of the unnamed portal to a statement, without parameters. -/
def bindTo (name : Bytes) : Message := ⟨byte 'B', 0 :: name ++ 0 :: [0, 0, 0, 0, 0, 0]⟩

/-- `Parse` of the unnamed statement. -/
def parseUnnamed (sql : Text) : Message := ⟨byte 'P', buildParse [] (Text.asBytes sql) [0, 0]⟩

/-- The turns of a client that prepares a statement and binds it. -/
def namedTurns : List (Unit × Turn) :=
  [((), .plain (.message (parseAs "SELECT 1".toList))),
    ((), .plain (.message (bindTo (Text.asBytes ['s']))))]

/-- The statement they are about. -/
def namedKnown : Set (Bytes × Bytes) := {(Text.asBytes "SELECT 1".toList, [0, 0])}

/-- A turn of a session that asks for a named statement, if for any, and runs nothing. -/
theorem ownTurn_named {w : World Unit Mini.State} {m : Message}
    (hpolicy : (w.relay ()).session.policy.readOnly = none)
    (hroute : (w.relay ()).session.currentRoute.isReplica = false)
    (htx : (w.relay ()).session.routing.transactionRoute = none)
    (hknown : ∀ p, m.tag = byte 'P' → ParseParts.decode m.body = .ok p →
      (p.sql, p.paramTypes) ∈ namedKnown)
    (hname : statementName m ≠ some []) (hQ : m.tag ≠ byte 'Q') (hE : m.tag ≠ byte 'E')
    (hparams : (w.relay ()).session.held = none → (∀ p, w.shelves p = []) ∧
      (w.relay ()).session.params.delta .empty = []) :
    OwnTurn Mini.server .plain namedKnown Mini.Deallocates (w.relay ()) (.plain (.message m)) := by
  refine ⟨fun msg reason _ hrefused => ?_, fun msg p hf => ?_, fun msg hf hasks => ?_,
    fun msg s co hf _ hsql => ?_, fun msg c hf hnone hoffer => ?_,
    noRestart_of_primary hroute fun _ => ?_⟩
  · rw [refusedByPolicy, hpolicy] at hrefused
    cases hrefused
  · cases hf.event
    exact hknown p
  · cases hf.event
    exact absurd hasks hname
  · cases hf.event
    exact absurd hsql (not_or.mpr ⟨hQ, hE⟩)
  · obtain ⟨hempty, hdelta⟩ := hparams hnone
    cases hoffer with
    | @shelved p _ hmem =>
        have hmem : _ ∈ w.shelves p := hmem
        rw [hempty] at hmem
        cases hmem
    | opened k =>
        show ¬ Mini.Deallocates _ (.query (PgBackend.batchSql
          ((w.relay ()).session.params.delta .empty)))
        rw [hdelta]
        exact Mini.not_deallocates_nothing _
  · rw [chooseRoute_plain htx]
    rfl

/-- The `Bind` of a named statement reaches the server under the digest and finds the statement. -/
theorem binds_own_statement_select :
    ((run (worldStep sampleDigest Mini.server .plain) (World.new Unit Mini.State)
        namedTurns).sessions ()).log.forwarded.map (fun f => statementName f.msg) =
          [none, some (Text.asBytes ['s'])] ∧
      (∀ i, ∀ f ∈ ((run (worldStep sampleDigest Mini.server .plain) (World.new Unit Mini.State)
        namedTurns).sessions i).log.forwarded, Own Mini.State.find f) ∧
      ∀ i, ∀ f ∈ ((run (worldStep sampleDigest Mini.server .plain) (World.new Unit Mini.State)
        namedTurns).sessions i).log.forwarded, ∀ name, statementName f.msg = some name →
          Found Mini.State.find f := by
  have howned : Along (worldStep sampleDigest Mini.server .plain)
      (fun w l => OwnTurn Mini.server .plain namedKnown Mini.Deallocates (w.relay l.1) l.2)
      (World.new Unit Mini.State) namedTurns := by
    refine ⟨ownTurn_named rfl rfl rfl (fun p _ hp => ?_) (by decide) (by decide) (by decide)
        fun _ => ⟨fun _ => rfl, rfl⟩,
      ownTurn_named ?_ ?_ ?_ (fun p hP => absurd hP (by decide)) (by decide) (by decide) (by decide)
        fun hnone => ?_, trivial⟩
    · cases hp
      rfl
    · decide +kernel
    · decide +kernel
    · decide +kernel
    · have hheld : ((worldStep sampleDigest Mini.server .plain (World.new Unit Mini.State)
          ((), .plain (.message (parseAs "SELECT 1".toList)))).relay ()).session.held.isSome = true := by
        decide +kernel
      rw [hnone] at hheld
      cases hheld
  have hmirrored : Along (worldStep sampleDigest Mini.server .plain)
      (fun w l => MirrorTurn sampleDigest Mini.server .plain (fun s => s.mode = .command)
        Mini.State.Accepts Mini.Deallocates (w.relay l.1) l.2)
      (World.new Unit Mini.State) namedTurns := by
    refine ⟨mirrorTurn_select, mirrorTurn_held [⟨.client, ⟨byte '1', []⟩⟩] ?_ ?_ ?_ (.inl ?_) ?_ ?_ ?_,
      trivial⟩
    · decide +kernel
    · decide +kernel
    · decide +kernel
    · decide
    · decide
    · decide +kernel
    · have hkind : ((worldStep sampleDigest Mini.server .plain (World.new Unit Mini.State)
          ((), .plain (.message (parseAs "SELECT 1".toList)))).relay ()).session.held.map (fun co =>
            match rewritePrepared sampleDigest (bindTo (Text.asBytes ['s']))
              ((worldStep sampleDigest Mini.server .plain (World.new Unit Mini.State)
                ((), .plain (.message (parseAs "SELECT 1".toList)))).relay ()).session.statements
              co.conn.statements with
            | .ok (.replace _, _) => true
            | _ => false) = some true := by decide +kernel
      intro co rw' st hco hrw
      rw [hco, Option.map_some, hrw] at hkind
      cases rw' with
      | replace => exact ⟨fun _ _ h => (by cases h), fun _ _ _ h => (by cases h)⟩
      | unchanged => cases hkind
      | replayThen => cases hkind
      | parse => cases hkind
      | closeStatement => cases hkind
  have hown := binds_own_statement Mini.prepares Mini.answers (World.new_fresh Unit Mini.State)
    (by simp [namedKnown]) howned
  exact ⟨by decide +kernel, hown.1, hown.2 hmirrored⟩

/-- One client prepares the unnamed statement and syncs, another does the same on the same backend, and
the first binds: it gets the other's statement. -/
theorem not_binds_own_statement :
    ¬ ∀ (w : World Bool Mini.State) (ls : List (Bool × Turn)), w.Fresh →
      ∀ i, ∀ f ∈ ((run (worldStep sampleDigest Mini.server .plain) w ls).sessions i).log.forwarded,
        Own Mini.State.find f := by
  intro h
  have hlast : (((run (worldStep sampleDigest Mini.server .plain) (World.new Bool Mini.State)
      [(true, .plain (.message (parseUnnamed "SELECT 1".toList))),
        (true, .plain (.message .sync)),
        (false, .plain (.message (parseUnnamed "SELECT 2".toList))),
        (false, .plain (.message .sync)),
        (true, .plain (.message (bindTo [])))]).sessions true).log.forwarded.map fun f =>
          [statementName f.msg, statementName f.outgoing, (f.server.find []).map Prod.fst,
            (lastParse [] f.received).map Prod.fst]).getLast? =
      some [some [], some [], some (Text.asBytes "SELECT 2".toList),
        some (Text.asBytes "SELECT 1".toList)] := by decide +kernel
  obtain ⟨f, hf, hvalues⟩ := List.mem_map.mp (List.mem_of_getLast? hlast)
  simp only [List.cons.injEq, and_true] at hvalues
  obtain ⟨hmsg, hout, hfound, hmine⟩ := hvalues
  obtain ⟨stmt, hstmt, hsql⟩ := Option.map_eq_some_iff.mp hfound
  obtain ⟨n, hn, hown⟩ := h _ _ (World.new_fresh _ _) true f hf [] hmsg
  cases hout.symm.trans hn
  rw [hown stmt hstmt, Option.map_some, hsql] at hmine
  revert hmine
  decide

end Havuz
