import Havuz.Relay.Queue
import Havuz.Server.Mini

/-!
# The statement cache and the server

`BackendStatements` is written when a `Parse` or a `Close` goes out, before the server has answered.
It mirrors what the server holds (`Mirrors`) as long as the server takes every `Parse` and reads every
`Close`; a `Parse` that is rejected or skipped leaves a name in the cache that the server does not
have.
-/

namespace Havuz

open Lib Sql

variable {σ ι : Type} {sha256 : Bytes → Bytes} {srv : Server σ} {g : Group}
  {copying : σ → Prop} {find : σ → Bytes → Option (Bytes × Bytes)} {attentive : σ → Prop}
  {accepts : σ → Bytes → Bytes → Prop} {prepares : σ → Message → Prop}

/-- The names in the cache are the pooler's statements on the server. -/
def PgBackend.CacheExact (find : σ → Bytes → Option (Bytes × Bytes)) (c : PgBackend σ) : Prop :=
  ∀ n, n ∈ c.statements.present ↔ (find c.server n).isSome = true ∧ IsHavuz n

/-- The cache mirrors the server, and every name it may have to close can be written on the wire. -/
structure Mirrors (find : σ → Bytes → Option (Bytes × Bytes)) (c : PgBackend σ) : Prop where
  exact : c.CacheExact find
  plain : ∀ n ∈ c.statements.present, 0 ∉ n

/-- Every statement the client knows is one that its own `Parse` made. -/
def Genuine (sha256 : Bytes → Bytes) (st : ClientStatements) : Prop :=
  ∀ name s, st.byName name = some s →
    ∃ p : ParseParts, s = ClientStatements.statementOf sha256 p ∧ 0 ∉ p.sql

theorem Session.Fresh.genuine {s : Session σ} (h : s.Fresh) : Genuine sha256 s.statements := by
  intro name st hst
  rw [h.statements] at hst
  cases hst

theorem Genuine.forget {st : ClientStatements} (h : Genuine sha256 st) (name : Bytes) :
    Genuine sha256 (st.forget name) := by
  intro n s hs
  simp only [ClientStatements.forget, Function.update_apply] at hs
  split at hs
  · cases hs
  · exact h n s hs

/-- A rewrite remembers what the client's `Parse` says, and nothing else. -/
theorem Rewritten.genuine {msg : Message} {st st' : ClientStatements} {b : BackendStatements}
    {rw' : Rewrite} (h : Rewritten sha256 msg st b rw' st') (hst : Genuine sha256 st) :
    Genuine sha256 st' := by
  cases h with
  | @parse p htag hp hname =>
      intro n s hs
      simp only [ClientStatements.remember, Function.update_apply] at hs
      split at hs
      · cases hs
        obtain ⟨rest, -, hsql⟩ := ParseParts.decode_ok hp
        exact ⟨p, rfl, (eq_of_takeCstring hsql).2⟩
      · exact hst n s hs
  | other => exact hst
  | unnamed => exact hst
  | bindUnnamed => exact hst
  | bind => exact hst
  | bindReplay => exact hst
  | passed => exact hst
  | describe => exact hst
  | describeReplay => exact hst
  | close => exact hst

theorem Sending.genuine {onParse : Bytes → PgBackend σ → Except ProtoError Unit × PgBackend σ}
    {msg out : Message} {st st' : ClientStatements} {c c' : PgBackend σ}
    (h : Sending sha256 srv onParse msg st c out st' c') (hst : Genuine sha256 st) :
    Genuine sha256 st' := by
  cases h with
  | passed hr => exact (rewritePrepared_cases hr).genuine hst
  | replaced hr => exact (rewritePrepared_cases hr).genuine hst
  | parsed hr => exact (rewritePrepared_cases hr).genuine hst
  | closed hr => exact ((rewritePrepared_cases hr).genuine hst).forget _
  | replayed hr => exact (rewritePrepared_cases hr).genuine hst

/-! ## What the relay writes on its own account -/

section Laws

variable (prep : Prepares srv find attentive accepts prepares)

/-- The server took the name away and goes on as before. -/
structure Freed (find : σ → Bytes → Option (Bytes × Bytes)) (attentive : σ → Prop)
    (accepts : σ → Bytes → Bytes → Prop) (name : Bytes) (s s' : σ) : Prop where
  gone : find s' name = none
  others : ∀ n, n ≠ name → find s' n = find s n
  attentive : attentive s'
  accepts : ∀ sql types, accepts s sql types → accepts s' sql types

include prep in
theorem Prepares.flush_find {s s' : σ} {rs : List Message}
    (hw : srv.write s .flush = some (s', rs)) (n : Bytes) : find s' n = find s n := by
  have hnot : Message.flush.tag ≠ byte 'Q' ∧ Message.flush.tag ≠ byte 'E' := by decide
  rcases prep.other hw (by decide) (by decide) (fun h => by simp [hnot] at h) n with h | ⟨h, -⟩
  · exact h
  · exact absurd h hnot.1

include prep in
/-- Closing a statement out of band takes it away, or the connection is dead. -/
theorem Prepares.closeStatement {name : Bytes} {c c' : PgBackend σ}
    {res : Except ProtoError Unit} (hname : 0 ∉ name) (hc : attentive c.server)
    (h : c.closeStatement srv name = (res, c')) :
    c'.statements = c.statements ∧
      (Freed find attentive accepts name c.server c'.server ∨
        (res ≠ .ok () ∧ ∀ m, srv.write c'.server m = none)) := by
  obtain ⟨hdead, rfl, hres⟩ | ⟨c₁, hclose, hrest⟩ := closeStatement_cases h
  · exact ⟨rfl, .inr ⟨hres, prep.dead (write_none hdead)⟩⟩
  obtain ⟨s₁, rs₁, hw₁, rfl⟩ := write_spec hclose
  obtain ⟨hothers, -, hgone, haccepts⟩ := prep.close hw₁ (takeCstring_append hname [])
  obtain ⟨hdead, rfl, hres⟩ | ⟨c₂, hflush, hrest⟩ := hrest
  · exact ⟨rfl, .inr ⟨hres, prep.dead (write_none hdead)⟩⟩
  obtain ⟨s₂, rs₂, hw₂, rfl⟩ := write_spec hflush
  obtain ⟨hattentive, hkeeps⟩ := prep.flush hw₂ rfl
  have hfreed : Freed find attentive accepts name c.server s₂ := by
    refine ⟨?_, fun n hn => ?_, hattentive (hgone hc).2,
      fun sql types hacc => hkeeps _ _ (haccepts _ _ hacc)⟩
    · rw [prep.flush_find hw₂]
      exact (hgone hc).1
    · rw [prep.flush_find hw₂]
      exact hothers n hn
  obtain ⟨rfl, -⟩ | ⟨rfl, -⟩ := hrest
  · exact ⟨rfl, .inl hfreed⟩
  · exact ⟨rfl, .inl hfreed⟩

include prep in
/-- Freeing a name of the pooler's leaves the cache exact and the name free. -/
theorem Mirrors.freeName {sql types : Bytes} {c c' : PgBackend σ}
    (h : Mirrors find c) (hacc : accepts c.server sql types)
    (hfree : freeName srv (globalName sha256 sql types) c = (.ok (), c')) :
    Mirrors find c' ∧ find c'.server (globalName sha256 sql types) = none ∧
      accepts c'.server sql types := by
  have hname : IsHavuz (globalName sha256 sql types) := isHavuz_globalName sha256 sql types
  unfold Havuz.freeName at hfree
  split at hfree
  case isFalse hhas =>
    cases hfree
    refine ⟨h, ?_, hacc⟩
    have hnot : globalName sha256 sql types ∉ c.statements.present := by
      simpa [BackendStatements.has] using hhas
    rw [h.exact] at hnot
    simpa [hname] using hnot
  case isTrue hhas =>
    split at hfree
    case h_2 => cases hfree
    case h_1 c₁ hclose =>
      cases hfree
      obtain ⟨hcache, hfreed | ⟨hres, -⟩⟩ := prep.closeStatement
        (zero_notMem_globalName sha256 sql types) (prep.attentive_of_accepts hacc) hclose
      · refine ⟨⟨fun n => ?_, fun n hn => ?_⟩, hfreed.gone, hfreed.accepts _ _ hacc⟩
        · simp only [BackendStatements.present_remove, Finset.mem_erase, hcache]
          by_cases hn : n = globalName sha256 sql types
          · simp [hn, hfreed.gone]
          · rw [hfreed.others n hn, h.exact]
            simp [hn]
        · simp only [BackendStatements.present_remove, hcache] at hn
          exact h.plain n (Finset.mem_of_mem_erase hn)
      · exact absurd rfl hres

/-- The cache is one name ahead of the server, which would take it. -/
structure Ahead (find : σ → Bytes → Option (Bytes × Bytes)) (accepts : σ → Bytes → Bytes → Prop)
    (name sql types : Bytes) (c : PgBackend σ) : Prop where
  exact : ∀ n, n ∈ c.statements.present ↔ (find c.server n).isSome = true ∧ IsHavuz n ∨ n = name
  plain : ∀ n ∈ c.statements.present, 0 ∉ n
  free : find c.server name = none
  accepts : accepts c.server sql types

include prep in
/-- Making room for a client's `Parse`. -/
theorem Mirrors.prepareParse {sql types : Bytes} {c c' : PgBackend σ}
    (h : Mirrors find c) (hacc : accepts c.server sql types)
    (hroom : prepareParse srv (globalName sha256 sql types) c = (.ok (), c')) :
    Ahead find accepts (globalName sha256 sql types) sql types c' ∨
      ∀ m, srv.write c'.server m = none := by
  have hplain : 0 ∉ globalName sha256 sql types := zero_notMem_globalName sha256 sql types
  unfold Havuz.prepareParse at hroom
  split at hroom
  case h_1 => cases hroom
  case h_2 c₁ hfree =>
    obtain ⟨h₁, hnone, hacc₁⟩ := h.freeName prep hacc hfree
    have hcases := c₁.statements.insert_cases (globalName sha256 sql types)
    split at hroom
    case h_2 statements hinsert =>
      rw [hinsert] at hcases
      cases hroom
      obtain ⟨-, hpresent⟩ | ⟨old, hold, -⟩ := hcases
      · refine .inl ⟨fun n => ?_, fun n hn => ?_, hnone, hacc₁⟩
        · rw [hpresent, Finset.mem_insert, h₁.exact, or_comm]
        · rw [hpresent, Finset.mem_insert] at hn
          rcases hn with rfl | hn
          · exact hplain
          · exact h₁.plain n hn
      · cases hold
    case h_1 statements evicted hinsert =>
      rw [hinsert] at hcases
      obtain ⟨hold, -⟩ | ⟨old, hold, hmem, hne, -, hpresent⟩ := hcases
      · cases hold
      cases hold
      have hattentive : attentive ({ c₁ with statements } : PgBackend σ).server :=
        prep.attentive_of_accepts hacc₁
      cases hclose : PgBackend.closeStatement srv evicted { c₁ with statements } with
      | mk res c₂ =>
      rw [hclose] at hroom
      cases hroom
      obtain ⟨hcache, hfreed | ⟨-, hdead⟩⟩ :=
        prep.closeStatement (h₁.plain evicted hmem) hattentive hclose
      · -- The oldest name went to make room, here and on the server.
        refine .inl ⟨fun n => ?_, fun n hn => ?_, ?_, hfreed.accepts _ _ hacc₁⟩
        · rw [hcache, hpresent, Finset.mem_insert, Finset.mem_erase]
          by_cases hn : n = evicted
          · simp [hn, hne, hfreed.gone]
          · rw [hfreed.others n hn, h₁.exact]
            simp [hn, or_comm]
        · rw [hcache, hpresent, Finset.mem_insert, Finset.mem_erase] at hn
          rcases hn with rfl | ⟨-, hn⟩
          · exact hplain
          · exact h₁.plain n hn
        · rw [hfreed.others _ hne.symm]
          exact hnone
      · exact .inr hdead

include prep in
/-- The server takes the `Parse` the cache is ahead with. -/
theorem Ahead.written {name sql types body : Bytes} {c c' : PgBackend σ} {s' : σ}
    {rs : List Message} (h : Ahead find accepts name sql types c) (hname : IsHavuz name)
    (hbody : ∃ rest, takeCstring body = some (name, rest) ∧ takeCstring rest = some (sql, types))
    (hw : srv.write c.server ⟨byte 'P', body⟩ = some (s', rs)) (hserver : c'.server = s')
    (hcache : c'.statements = c.statements) : Mirrors find c' := by
  obtain ⟨rest, hrest, hsql⟩ := hbody
  obtain ⟨hone, -⟩ := prep.accepted h.accepts hw hrest hsql h.free
  obtain ⟨hothers, hfound, -⟩ := prep.parse hw hrest hsql
  refine ⟨fun n => ?_, fun n hn => h.plain n (hcache ▸ hn)⟩
  rw [hcache, h.exact, hserver]
  by_cases hn : n = name
  · simp [hn, hfound hone, hname]
  · rw [hothers n hn]
    simp [hn]

include prep in
/-- The server reads a `Close` of a statement the cache just forgot. -/
theorem Mirrors.closed {name rest : Bytes} {c c' : PgBackend σ} {s' : σ} {rs : List Message}
    (h : Mirrors find c) (hname : 0 ∉ name) (hc : attentive c.server)
    (hw : srv.write c.server ⟨byte 'C', byte 'S' :: (name ++ 0 :: rest)⟩ = some (s', rs))
    (hserver : c'.server = s') (hcache : c'.statements = c.statements.remove name) :
    Mirrors find c' := by
  obtain ⟨hothers, -, hgone, -⟩ := prep.close hw (takeCstring_append hname rest)
  refine ⟨fun n => ?_, fun n hn => ?_⟩
  · rw [hcache, BackendStatements.present_remove, Finset.mem_erase, h.exact, hserver]
    by_cases hn : n = name
    · simp [hn, (hgone hc).1]
    · rw [hothers n hn]
      simp [hn]
  · rw [hcache, BackendStatements.present_remove] at hn
    exact h.plain n (Finset.mem_of_mem_erase hn)

include prep in
/-- A replayed `Parse` the server takes is recorded, and what it displaced is closed. -/
theorem Mirrors.replayParse {sql types : Bytes} {c c' : PgBackend σ}
    (h : Mirrors find c) (hacc : accepts c.server sql types) (hsql : 0 ∉ sql)
    (hhas : c.statements.has (globalName sha256 sql types) = false)
    (hreplay : c.replayParse srv (buildParse (globalName sha256 sql types) sql types)
      (globalName sha256 sql types) = (.ok (), c')) :
    Mirrors find c' ∧ globalName sha256 sql types ∈ c'.statements.present := by
  have hname : IsHavuz (globalName sha256 sql types) := isHavuz_globalName sha256 sql types
  have hplain : 0 ∉ globalName sha256 sql types := zero_notMem_globalName sha256 sql types
  have hnew : globalName sha256 sql types ∉ c.statements.present := by
    simpa [BackendStatements.has] using hhas
  have hfree : find c.server (globalName sha256 sql types) = none := by
    rw [h.exact] at hnew
    simpa [hname] using hnew
  obtain ⟨c₁, c₂, hparse, hflush, -, hend⟩ := replayParse_ok hreplay
  obtain ⟨s₁, rs₁, hw₁, rfl⟩ := write_spec hparse
  obtain ⟨s₂, rs₂, hw₂, rfl⟩ := write_spec hflush
  obtain ⟨rest, hrest, hrest'⟩ := takeCstring_buildParse hplain hsql types
  obtain ⟨hone, hattentive⟩ := prep.accepted hacc hw₁ hrest hrest' hfree
  obtain ⟨hothers, hfound, -⟩ := prep.parse hw₁ hrest hrest'
  have hattentive₂ : attentive s₂ := (prep.flush hw₂ rfl).1 hattentive
  -- What the server holds once the replayed statement is there.
  have hheld : ∀ n, (find s₂ n).isSome = true ∧ IsHavuz n ↔
      n ∈ c.statements.present ∨ n = globalName sha256 sql types := by
    intro n
    rw [prep.flush_find hw₂]
    by_cases hn : n = globalName sha256 sql types
    · simp [hn, hfound hone, hname]
    · show (find s₁ n).isSome = true ∧ IsHavuz n ↔ _
      rw [hothers n hn, h.exact]
      simp [hn]
  have hcases := c.statements.insert_cases (globalName sha256 sql types)
  split at hend
  case h_2 statements hinsert =>
    have hinsert : c.statements.insert (globalName sha256 sql types) = (statements, none) := hinsert
    rw [hinsert] at hcases
    subst hend
    obtain ⟨-, hpresent⟩ | ⟨old, hold, -⟩ := hcases
    · refine ⟨⟨fun n => ?_, fun n hn => ?_⟩, ?_⟩
      · show n ∈ statements.present ↔ (find s₂ n).isSome = true ∧ IsHavuz n
        rw [hheld, hpresent, Finset.mem_insert, or_comm]
      · have hn : n ∈ statements.present := hn
        rw [hpresent, Finset.mem_insert] at hn
        rcases hn with rfl | hn
        · exact hplain
        · exact h.plain n hn
      · show _ ∈ statements.present
        rw [hpresent]
        exact Finset.mem_insert_self _ _
    · cases hold
  case h_1 statements evicted hinsert =>
    have hinsert : c.statements.insert (globalName sha256 sql types) = (statements, some evicted) :=
      hinsert
    rw [hinsert] at hcases
    obtain ⟨hold, -⟩ | ⟨old, hold, hmem, hne, -, hpresent⟩ := hcases
    · cases hold
    cases hold
    obtain ⟨hcache, hfreed | ⟨hres, -⟩⟩ := prep.closeStatement (h.plain evicted hmem) (by exact hattentive₂) hend
    · refine ⟨⟨fun n => ?_, fun n hn => ?_⟩, ?_⟩
      · rw [hcache, hpresent, Finset.mem_insert, Finset.mem_erase]
        by_cases hn : n = evicted
        · simp [hn, hne, hfreed.gone]
        · rw [hfreed.others n hn]
          show _ ↔ (find s₂ n).isSome = true ∧ IsHavuz n
          rw [hheld]
          simp [hn, or_comm]
      · rw [hcache, hpresent, Finset.mem_insert, Finset.mem_erase] at hn
        rcases hn with rfl | ⟨-, hn⟩
        · exact hplain
        · exact h.plain n hn
      · rw [hcache, hpresent]
        exact Finset.mem_insert_self _ _
    · exact absurd rfl hres

/-! ## Turns -/

/-- What is known of a connection between two client messages, and on a shelf. -/
structure Faithful (copying : σ → Prop) (find : σ → Bytes → Option (Bytes × Bytes))
    (c : PgBackend σ) : Prop where
  quiet : Quiet c.unread
  still : ¬ copying c.server
  mirrors : Mirrors find c

/-- The condition under which a turn keeps the cache exact. -/
structure MirrorTurn (sha256 : Bytes → Bytes) (srv : Server σ) (g : Group) (attentive : σ → Prop)
    (accepts : σ → Bytes → Bytes → Prop) (prepares : σ → Message → Prop) (r : Relay σ) (t : Turn) :
    Prop where
  /-- The client speaks the extended protocol. -/
  extended : ∀ msg, Forwards r t msg → isExtended msg.tag = true ∨ msg.tag = byte 'S'
  /-- The server takes every `Parse` written to it, the client's and the replayed ones. -/
  taken : ∀ msg s co rw' st sql types, Forwards r t msg → Ready srv g r t msg s co →
    rewritePrepared sha256 msg s.statements co.conn.statements = .ok (rw', st) →
    (rw' = .parse (globalName sha256 sql types)
        ⟨byte 'P', buildParse (globalName sha256 sql types) sql types⟩ ∨
      ∃ m, rw' = .replayThen (buildParse (globalName sha256 sql types) sql types)
        (globalName sha256 sql types) m) → 0 ∉ sql →
    accepts co.conn.server sql types
  /-- The server reads every `Close`. -/
  closes : ∀ msg s co, Forwards r t msg → Ready srv g r t msg s co → msg.tag = byte 'C' →
    attentive co.conn.server
  /-- Nothing is prepared or deallocated by SQL, the parameter statements included. -/
  sql : ∀ msg s co, Forwards r t msg → Ready srv g r t msg s co → msg.tag = byte 'E' →
    ¬ prepares co.conn.server msg
  params : ∀ msg c, Forwards r t msg → r.session.held = none → Offered srv g r.shelves c →
    ¬ prepares c.server (.query (PgBackend.batchSql (r.session.params.delta c.appliedParams)))
  /-- No Sync comes while the start of a COPY is unread. -/
  copies : ∀ msg s co, Forwards r t msg → Ready srv g r t msg s co → CopyWaits co.conn.unread →
    msg.tag ≠ byte 'S'
  /-- A session that ends pinned or inside a transaction can be cleaned with `DISCARD ALL`, or has
  nothing prepared. -/
  resets : Exits r t → ∀ co, r.session.held = some co →
    (r.session.state.pin.isSome || r.session.state.inTransaction) = true →
    co.conn.supportsDiscardAll = true ∨ co.conn.statements.present = ∅
  restarts : NoRestart srv g r t

variable (ans : Answers srv copying)

/-- A message that touches no named statement leaves a mirrored cache mirrored. -/
theorem Mirrors.unaffected {c c' : PgBackend σ} (h : Mirrors find c)
    (hcache : c'.statements = c.statements)
    (hfind : ∀ n, n ≠ [] → find c'.server n = find c.server n) : Mirrors find c' := by
  refine ⟨fun n => ?_, fun n hn => h.plain n (hcache ▸ hn)⟩
  rw [hcache, h.exact]
  by_cases hn : IsHavuz n
  · rw [hfind n hn.ne_nil]
  · simp [hn]

include prep in
/-- A message that prepares and deallocates nothing leaves every named statement alone. -/
theorem Prepares.named {s s' : σ} {m : Message} {rs : List Message}
    (hw : srv.write s m = some (s', rs)) (hP : m.tag ≠ byte 'P') (hC : m.tag ≠ byte 'C')
    (hsql : m.tag = byte 'Q' ∨ m.tag = byte 'E' → ¬ prepares s m) {n : Bytes} (hn : n ≠ []) :
    find s' n = find s n := by
  rcases prep.other hw hP hC hsql n with hsame | ⟨-, hnil, -⟩
  · exact hsame
  · exact absurd hnil hn

include prep ans in
/-- Carrying the client's parameters over. -/
theorem Faithful.syncParams {c c' : PgBackend σ} {p : ClientParams} {sync : PgBackend.ParamSync}
    (h : Faithful copying find c)
    (hsql : ¬ prepares c.server (.query (PgBackend.batchSql (p.delta c.appliedParams))))
    (hsync : c.syncParams srv p = (.ok sync, c')) : Faithful copying find c' := by
  obtain rfl | ⟨s', rs, status, applied, trace, hsrv, -, hstill, rfl, -⟩ :=
    h.quiet.syncParams ans hsync
  · exact h
  · refine ⟨Quiet.nil, hstill, h.mirrors.unaffected rfl fun n hn => ?_⟩
    have htags : byte 'Q' ≠ byte 'P' ∧ byte 'Q' ≠ byte 'C' := by decide
    exact prep.named hsrv htags.1 htags.2 (fun _ => hsql) hn

include prep ans in
theorem Offered.faithful {sh : Shelves σ} {c : PgBackend σ}
    (hsh : ∀ p c, c ∈ sh p → Faithful copying find c) (h : Offered srv g sh c) :
    Faithful copying find c := by
  cases h with
  | shelved hmem =>
      have hf := hsh _ _ hmem
      exact ⟨hf.quiet, hf.still, hf.mirrors.exact, hf.mirrors.plain⟩
  | opened k =>
      refine ⟨Quiet.nil, ans.start k, fun n => ?_, fun n hn => ?_⟩
      · simp [prep.start k n]
      · simp at hn

include prep ans in
theorem Ready.faithful {r : Relay σ} {t : Turn} {msg : Message} {s : Session σ} {co : Checkout σ}
    (hsh : ∀ p c, c ∈ r.shelves p → Faithful copying find c)
    (hheld : ∀ co, r.session.held = some co → Faithful copying find co.conn)
    (ok : MirrorTurn sha256 srv g attentive accepts prepares r t) (hf : Forwards r t msg)
    (h : Ready srv g r t msg s co) : Faithful copying find co.conn := by
  cases h with
  | held hco => exact hheld co hco
  | @borrowed s c conn sync pool hnone hs hoffer hsync =>
      refine (hoffer.faithful prep ans hsh).syncParams prep ans ?_ hsync
      rw [Session.delta_arrive]
      exact ok.params msg c hf hnone hoffer

include prep in
/-- The cache after a message went out. -/
theorem Sends.mirrors {r : Relay σ} {t : Turn} {msg out : Message} {s : Session σ}
    {co : Checkout σ} {st : ClientStatements} {c c' : PgBackend σ} {replies : List Reply}
    (ok : MirrorTurn sha256 srv g attentive accepts prepares r t)
    (hgenuine : Genuine sha256 s.statements) (h : Mirrors find co.conn)
    (hsends : Sends sha256 srv g r t msg s co out st c c' replies) : Mirrors find c' := by
  have hf := hsends.forwards
  have hready := hsends.ready
  have htag : out.tag = msg.tag := outgoing_tag hsends.outgoing
  obtain ⟨s', rs, hsrv, -, rfl⟩ := writeForClient_spec hsends.written
  -- `Bind` and `Describe` run no SQL that prepares.
  have hasks : ∀ {c : PgBackend σ}, Mirrors find c → srv.write c.server out = some (s', rs) →
      msg.tag = byte 'B' ∨ msg.tag = byte 'D' → ∀ n, n ≠ [] → find s' n = find c.server n := by
    intro c _ hw hask n hn
    have hnot : out.tag ≠ byte 'P' ∧ out.tag ≠ byte 'C' ∧ out.tag ≠ byte 'Q' ∧ out.tag ≠ byte 'E' := by
      rw [htag]
      rcases hask with h | h <;> rw [h] <;> decide
    exact prep.named hw hnot.1 hnot.2.1 (fun h => by simp [hnot] at h) hn
  cases outgoing_cases hsends.outgoing with
  | passed hr =>
      refine h.unaffected rfl fun n hn => ?_
      cases rewritePrepared_cases hr with
      | other hother =>
          refine prep.named hsrv hother.1 hother.2.2.2 (fun hrun => ?_) hn
          have hE : msg.tag = byte 'E' := by
            rcases ok.extended _ hf with hext | hS
            · simpa [isExtended, hother] using hext
            · rw [hS] at hrun
              exact absurd hrun (by decide)
          exact ok.sql _ s co hf hready hE
      | @unnamed p hP hp hname =>
          obtain ⟨rest, hrest, hsql⟩ := ParseParts.decode_ok hp
          have hmsg : msg = ⟨byte 'P', msg.body⟩ := by rw [← hP]
          rw [hmsg] at hsrv
          exact (prep.parse hsrv hrest hsql).1 n (hname ▸ hn)
      | bindUnnamed hB => exact hasks h hsrv (.inl hB) n hn
      | @passed kind name hDC htarget hwhat =>
          rcases hDC with hD | hC
          · exact hasks h hsrv (.inr hD) n hn
          · obtain ⟨rest, back, hbody, hrest⟩ := describeTarget_ok htarget
            have hmsg : msg = ⟨byte 'C', kind :: rest⟩ := by rw [← hC, ← hbody]
            rw [hmsg] at hsrv
            by_cases hkind : kind = byte 'S'
            · subst hkind
              have hnil : name = [] := hwhat.resolve_left fun h => h rfl
              exact (prep.close hsrv hrest).1 n (hnil ▸ hn)
            · exact prep.closePortal hsrv hkind n
  | replaced hr =>
      refine h.unaffected rfl fun n hn => ?_
      cases rewritePrepared_cases hr with
      | bind hB => exact hasks h hsrv (.inl hB) n hn
      | describe hD => exact hasks h hsrv (.inr hD) n hn
  | parsed hr hroom =>
      cases rewritePrepared_cases hr with
      | @parse p hP hp hname =>
          obtain ⟨rest, -, hsql⟩ := ParseParts.decode_ok hp
          have hacc := ok.taken msg s co _ _ p.sql p.paramTypes hf hready hr (.inl rfl)
            (eq_of_takeCstring hsql).2
          rcases h.prepareParse prep hacc hroom with hahead | hdead
          · exact hahead.written prep (isHavuz_globalName sha256 _ _)
              (takeCstring_buildParse (zero_notMem_globalName sha256 _ _)
                (eq_of_takeCstring hsql).2 _) hsrv rfl rfl
          · rw [hdead] at hsrv
            cases hsrv
  | closed hr =>
      cases rewritePrepared_cases hr with
      | @close name body st hC htarget hst hbody =>
          obtain ⟨p, rfl, -⟩ := hgenuine _ _ hst
          obtain ⟨rest, rfl⟩ := replaceCstring_target htarget hbody
          rw [hC] at hsrv
          exact h.closed prep (zero_notMem_globalName sha256 _ _) (ok.closes msg s co hf hready hC)
            hsrv rfl rfl
  | replayed hr hreplay =>
      have htaken := fun sql types => ok.taken msg s co _ _ sql types hf hready hr
      cases rewritePrepared_cases hr with
      | @bindReplay name body st hB hname hst hbody hhas =>
          obtain ⟨p, rfl, hsql⟩ := hgenuine _ _ hst
          have hm := (h.replayParse prep (htaken _ _ (.inr ⟨_, rfl⟩) hsql) hsql hhas hreplay).1
          exact hm.unaffected rfl (hasks hm hsrv (.inl hB))
      | @describeReplay name body st hD hname hst hbody hhas =>
          obtain ⟨p, rfl, hsql⟩ := hgenuine _ _ hst
          have hm := (h.replayParse prep (htaken _ _ (.inr ⟨_, rfl⟩) hsql) hsql hhas hreplay).1
          exact hm.unaffected rfl (hasks hm hsrv (.inr hD))

include prep ans in
/-- A connection the session goes on with after a message that is not a Sync. -/
theorem Sends.faithful {r : Relay σ} {t : Turn} {msg out : Message} {s : Session σ}
    {co : Checkout σ} {st : ClientStatements} {c c' : PgBackend σ} {replies : List Reply}
    (ok : MirrorTurn sha256 srv g attentive accepts prepares r t)
    (hgenuine : Genuine sha256 s.statements) (h : Faithful copying find co.conn)
    (hsends : Sends sha256 srv g r t msg s co out st c c' replies)
    (hreply : expectsReply msg = false) : Faithful copying find c' := by
  have hsync : isSyncPoint out.tag = false := by
    rw [outgoing_tag hsends.outgoing, ← expectsReply_eq, hreply]
  have hmirrors := hsends.mirrors prep ok hgenuine h.mirrors
  obtain ⟨s', rs, hsrv, hrep, rfl⟩ := writeForClient_spec hsends.written
  obtain ⟨hq, hstill, -⟩ := (outgoing_asides hsends.outgoing).quiet ans h.quiet h.still
  refine ⟨hq.append (by rw [hrep]; exact ans.quiet_replies hsrv hsync hstill _), ?_, hmirrors⟩
  intro hcopying
  rcases ans.copying_step hsrv hcopying with hbefore | ⟨hQ, -⟩
  · exact hstill hbefore
  · rw [hQ] at hsync
    exact absurd hsync (by decide)

include prep ans in
/-- The same after a Sync whose answer was pumped through. -/
theorem Sends.faithful_pumped {r : Relay σ} {t : Turn} {msg out : Message} {s : Session σ}
    {co : Checkout σ} {st : ClientStatements} {c c' c'' : PgBackend σ}
    {replies delivered : List Reply} {e : ExchangeEnd} (p : ClientParams)
    (ok : MirrorTurn sha256 srv g attentive accepts prepares r t)
    (hgenuine : Genuine sha256 s.statements) (h : Faithful copying find co.conn)
    (hsends : Sends sha256 srv g r t msg s co out st c c' replies)
    (hreply : expectsReply msg = true)
    (hpump : c'.pumpUntilReady t.clientAccepts = (some e, delivered, c'')) :
    Faithful copying find (({ co with conn := c'' } : Checkout σ).settled p e).conn := by
  have hmirrors := hsends.mirrors prep ok hgenuine h.mirrors
  have hsync : isSyncPoint msg.tag = true := by rw [← expectsReply_eq, hreply]
  obtain ⟨rfl, rfl, rfl⟩ := outgoing_syncPoint hsync hsends.outgoing
  have hS : out.tag = byte 'S' := by
    rcases ok.extended _ hsends.forwards with hext | hS
    · simp only [isSyncPoint, Bool.or_eq_true, decide_eq_true_eq] at hsync
      rcases hsync with (h | h) | h
      · rw [h] at hext
        exact absurd hext (by decide)
      · exact h
      · rw [h] at hext
        exact absurd hext (by decide)
    · exact hS
  have hwaits : ¬ CopyWaits co.conn.unread := fun hw =>
    ok.copies _ s co hsends.forwards hsends.ready hw hS
  obtain ⟨hunread, hserver, -⟩ := ans.pump_drains h.quiet hwaits hsends.written hpump
  obtain ⟨front, x, -, -, -, -, -, hc''⟩ := pumpUntilReady_some hpump
  obtain ⟨s', rs, hsrv, -, hc'⟩ := writeForClient_spec hsends.written
  refine ⟨?_, ?_, hmirrors.unaffected ?_ fun n _ => ?_⟩
  · rw [Checkout.settled_unread, hunread]
    exact Quiet.nil
  · rw [Checkout.settled_server, hserver, hc']
    intro hcopying
    rcases ans.copying_step hsrv hcopying with hbefore | ⟨hQ, -⟩
    · exact h.still hbefore
    · rw [hS] at hQ
      exact absurd hQ (by decide)
  · rw [Checkout.settled_statements, hc'']
  · rw [Checkout.settled_server, hserver]

include prep ans in
/-- A reset that reports the connection cleaned leaves the empty cache exact. -/
theorem Faithful.reset {c c' : PgBackend σ} (h : Faithful copying find c)
    (hclean : c.supportsDiscardAll = true ∨ c.statements.present = ∅)
    (hreset : c.reset srv = (true, c')) : Faithful copying find c' := by
  unfold PgBackend.reset at hreset
  split at hreset
  case isTrue => cases hreset
  case isFalse =>
    simp only [Prod.mk.injEq, Bool.not_eq_true'] at hreset
    obtain ⟨hb, rfl⟩ := hreset
    generalize hc₁ : c.simpleQuery srv "ROLLBACK".toList = c₁ at hb ⊢
    generalize hc₂ : c₁.simpleQuery srv c₁.discardStatement = c₂ at hb ⊢
    have hb₁ : c₁.broken = false := (simpleQuery_cases hc₂ hb).1
    obtain ⟨s₁, rs₁, st₁, hw₁, -, -, hs₁, hu₁, hd₁, -⟩ := ans.simpleQuery_fit h.quiet hc₁ hb₁
    obtain ⟨s₂, rs₂, st₂, hw₂, hE₂, hz₂, hs₂, hu₂, -, -⟩ :=
      ans.simpleQuery_fit (by rw [hu₁]; exact Quiet.nil) hc₂ hb
    have htags : byte 'Q' ≠ byte 'P' ∧ byte 'Q' ≠ byte 'C' := by decide
    have hnothing : ∀ n, IsHavuz n → find s₂ n = none := by
      intro n hn
      by_cases hd : c.supportsDiscardAll = true
      · rw [PgBackend.discardStatement, hd₁, if_pos hd] at hw₂
        exact (prep.discard hw₂).2 hE₂ ⟨st₂, hz₂⟩ n
      · -- `RESET ALL` leaves what is prepared alone, and that is nothing.
        have hempty : find c.server n = none := by
          have hnot : n ∉ c.statements.present := by rw [hclean.resolve_left hd]; simp
          rw [h.mirrors.exact] at hnot
          simpa [hn] using hnot
        rw [PgBackend.discardStatement, hd₁, if_neg hd] at hw₂
        rw [prep.named hw₂ htags.1 htags.2 (fun _ => (prep.resets _).2) hn.ne_nil, hs₁,
          prep.named hw₁ htags.1 htags.2 (fun _ => (prep.resets _).1) hn.ne_nil, hempty]
    refine ⟨?_, ?_, fun n => ?_, fun n hn => ?_⟩
    · show Quiet c₂.unread
      rw [hu₂]
      exact Quiet.nil
    · show ¬ copying c₂.server
      rw [hs₂]
      exact ans.ready_copying hw₂ _ hz₂ rfl
    · show n ∈ BackendStatements.clear.present ↔ (find c₂.server n).isSome = true ∧ IsHavuz n
      rw [hs₂]
      constructor
      · intro hn
        simp at hn
      · rintro ⟨hsome, hn⟩
        rw [hnothing n hn] at hsome
        cases hsome
    · have hn : n ∈ BackendStatements.clear.present := hn
      simp at hn

include prep ans in
/-- What has to be shown at the ends of a turn. -/
theorem MirrorTurn.rule {r : Relay σ} {t : Turn} {F : Forward σ → Prop}
    (hsh : ∀ p c, c ∈ r.shelves p → Faithful copying find c)
    (hgenuine : Genuine sha256 r.session.statements)
    (hheld : ∀ co, r.session.held = some co → Faithful copying find co.conn)
    (ok : MirrorTurn sha256 srv g attentive accepts prepares r t)
    (hF : ∀ msg s co out st c c' replies, Sends sha256 srv g r t msg s co out st c c' replies →
      Genuine sha256 s.statements → Faithful copying find co.conn →
      F ⟨msg, out, c.server, s.log.received, replies⟩) :
    TurnRule sha256 srv g r t (Faithful copying find) F
      (fun s => Genuine sha256 s.statements ∧
        ∀ co, s.held = some co → Faithful copying find co.conn) := by
  have hready : ∀ {msg s co}, Forwards r t msg → Ready srv g r t msg s co →
      Genuine sha256 s.statements ∧ Faithful copying find co.conn := by
    intro msg s co hf hr
    refine ⟨?_, hr.faithful prep ans hsh hheld ok hf⟩
    rw [hr.statements_eq]
    exact hgenuine
  have hsent : ∀ {msg s co out st c c' replies},
      Sends sha256 srv g r t msg s co out st c c' replies → Genuine sha256 st := fun hsends =>
    (outgoing_cases hsends.outgoing).genuine (hready hsends.forwards hsends.ready).1
  constructor
  case idle => exact fun _ _ => ⟨hgenuine, hheld⟩
  case leaves => exact fun co _ hco _ _ _ _ => hheld co hco
  case resets =>
    exact fun co c hexits hco hkept _ hreset =>
      (hheld co hco).reset prep ans (ok.resets hexits co hco hkept) hreset
  case policy =>
    intro msg reason hevent hpolicy
    refine ⟨?_, fun co hco => ?_⟩
    · rw [Session.statements_refuse, Session.statements_receive]
      exact hgenuine
    · rw [Session.held_refuse, Session.held_receive] at hco
      exact hheld co hco
  case syncRefused =>
    intro msg c conn detail hf hnone hoffer hsync
    refine (hoffer.faithful prep ans hsh).syncParams prep ans ?_ hsync
    rw [Session.delta_arrive]
    exact ok.params msg c hf hnone hoffer
  case refused =>
    intro msg s co e hf hr he
    obtain ⟨hst, hfaithful⟩ := hready hf hr
    refine ⟨?_, fun co' hco' => ?_⟩
    · rw [Session.statements_refuse]
      exact hst
    · rw [Session.held_refuse, hr.held_eq] at hco'
      cases hco'
      exact hfaithful
  case dropped =>
    intro msg s co out st c hf hr hout hw hroute
    refine ⟨?_, fun co' hco' => ?_⟩
    · exact (outgoing_cases hout).genuine (hready hf hr).1
    · cases hco'
  case sent =>
    intro msg s co out st c c' replies hsends
    obtain ⟨hst, hfaithful⟩ := hready hsends.forwards hsends.ready
    exact hF msg s co out st c c' replies hsends hst hfaithful
  case pipelined =>
    intro msg s co out st c c' replies hsends hreply
    obtain ⟨hst, hfaithful⟩ := hready hsends.forwards hsends.ready
    refine ⟨hsent hsends, fun co' hco' => ?_⟩
    cases hco'
    exact hsends.faithful prep ans ok hst hfaithful hreply
  case kept =>
    intro msg s co out st c c' replies e delivered c'' hsends hreply hpump _
    obtain ⟨hst, hfaithful⟩ := hready hsends.forwards hsends.ready
    refine ⟨hsent hsends, fun co' hco' => ?_⟩
    cases hco'
    exact hsends.faithful_pumped prep ans _ ok hst hfaithful hreply hpump
  case released =>
    intro msg s co out st c c' replies e delivered c'' hsends hreply hpump _
    obtain ⟨hst, hfaithful⟩ := hready hsends.forwards hsends.ready
    refine ⟨⟨hsent hsends, fun co' hco' => (by cases hco')⟩, fun _ _ => ?_⟩
    exact hsends.faithful_pumped prep ans _ ok hst hfaithful hreply hpump
  case restarted =>
    intro msg s co out st c c' replies c'' r' hsends hreply hpump hroute
    exact (ok.restarts.absurd hsends hreply hpump hroute).elim

include prep ans in
/-- **The statement cache mirrors the server.** In every run of any number of sessions whose turns meet
`MirrorTurn`, the cache of every connection on a shelf names exactly the pooler's statements that its
server holds. -/
theorem cache_exact [DecidableEq ι] {w : World ι σ} {ls : List (ι × Turn)} (hfresh : w.Fresh)
    (hrun : Along (worldStep sha256 srv g)
      (fun w l => MirrorTurn sha256 srv g attentive accepts prepares (w.relay l.1) l.2) w ls) :
    ∀ p c, c ∈ (run (worldStep sha256 srv g) w ls).shelves p → c.CacheExact find := by
  have hinv : (run (worldStep sha256 srv g) w ls).Holds (Faithful copying find) (fun _ => True)
      (fun s => Genuine sha256 s.statements ∧
        ∀ co, s.held = some co → Faithful copying find co.conn) := by
    refine World.holds_of_along hfresh (fun s hs => ⟨hs.genuine, hs.no_held⟩) ?_ hrun
    · intro r t hsh _ hP ok
      exact ok.rule prep ans hsh hP.1 hP.2 fun _ _ _ _ _ _ _ _ _ _ _ => trivial
  exact fun p c hc => (hinv.shelves p c hc).mirrors.exact

end Laws

/-! ## A `Parse` that is taken and one that is not -/

/-- SHA-256 of the two statements below, with no parameter types. -/
def sampleDigest (input : Bytes) : Bytes :=
  if input = Text.asBytes "SELECT 1".toList ++ [0] ++ [0, 0] then
    [177, 4, 46, 225, 172, 53, 239, 13, 173, 100, 214, 196, 248, 111, 64, 179,
      48, 154, 17, 246, 25, 97, 140, 189, 167, 170, 186, 196, 17, 54, 38, 83]
  else if input = Text.asBytes "FAIL".toList ++ [0] ++ [0, 0] then
    [96, 251, 191, 71, 143, 186, 191, 66, 214, 234, 59, 14, 218, 203, 54, 119,
      209, 30, 54, 187, 171, 107, 176, 25, 81, 28, 197, 41, 129, 223, 57, 159]
  else []

/-- `Parse` under the name `s`. -/
def parseAs (sql : Text) : Message :=
  ⟨byte 'P', buildParse (Text.asBytes ['s']) (Text.asBytes sql) [0, 0]⟩

/-- `Execute` of the unnamed portal, without a row limit. -/
def executeUnnamed : Message := ⟨byte 'E', [0, 0, 0, 0, 0]⟩

/-- The first `Parse` of a new session is taken. -/
theorem mirrorTurn_select :
    MirrorTurn sampleDigest Mini.server .plain (fun s => s.mode = .command) Mini.State.Accepts
      Mini.Deallocates ((World.new Unit Mini.State).relay ())
      (.plain (.message (parseAs "SELECT 1".toList))) := by
  have hopened : ∀ {msg s co}, Ready Mini.server .plain ((World.new Unit Mini.State).relay ())
      (.plain (.message (parseAs "SELECT 1".toList))) msg s co → ∃ k, co.conn =
        { server := Mini.server.start k, supportsDiscardAll := true } := fun hr =>
    hr.opened rfl (fun _ => rfl) rfl
  refine ⟨fun msg hf => ?_, fun msg s co rw' st sql types hf hr hrw hparse hsql => ?_,
    fun msg s co hf hr hC => ?_, fun msg s co hf hr hE => ?_, fun msg c hf _ hoffer => ?_,
    fun msg s co hf hr hw => ?_, fun hexits => ?_, noRestart_of_primary rfl fun _ => rfl⟩
  · cases hf.event
    exact .inl (by decide)
  · obtain ⟨k, hco⟩ := hopened hr
    cases hf.event
    have hp : rewritePrepared sampleDigest (parseAs "SELECT 1".toList) s.statements
        co.conn.statements = .ok (.parse (globalName sampleDigest (Text.asBytes "SELECT 1".toList)
          [0, 0]) ⟨byte 'P', buildParse (globalName sampleDigest (Text.asBytes "SELECT 1".toList)
            [0, 0]) (Text.asBytes "SELECT 1".toList) [0, 0]⟩, _) := rfl
    rw [hp] at hrw
    cases hrw
    rw [hco]
    refine ⟨rfl, fun h => (by cases h), ?_⟩
    obtain hparse | ⟨m, hparse⟩ := hparse
    · simp only [Rewrite.parse.injEq, Message.mk.injEq, true_and] at hparse
      rw [← hparse.1] at hparse
      obtain ⟨rfl, -⟩ := buildParse_inj (zero_notMem_globalName _ _ _) (by decide) hsql hparse.2
      decide
    · cases hparse
  · cases hf.event
    exact absurd hC (by decide)
  · cases hf.event
    exact absurd hE (by decide)
  · cases hoffer with
    | shelved hmem => cases hmem
    | opened k => exact Mini.not_deallocates_nothing _
  · obtain ⟨k, hco⟩ := hopened hr
    rw [hco] at hw
    exact absurd hw not_copyWaits_nil
  · exact absurd hexits.2 (by decide)

/-- A message that parses, replays and closes nothing, on a backend held for the session whose replies
do not start a COPY. -/
theorem mirrorTurn_held {w : World Unit Mini.State} {m : Message} (unread : List Reply)
    (hheld : ((w.relay ()).session.held.map fun co => co.conn.unread) = some unread)
    (hroute : (w.relay ()).session.currentRoute.isReplica = false)
    (htx : (w.relay ()).session.routing.transactionRoute = none)
    (hext : (isExtended m.tag = true ∧ m.tag ≠ byte 'C' ∧ m.tag ≠ byte 'E') ∨ m.tag = byte 'S')
    (hunread : ∀ x ∈ unread, opensCopy x.msg = false) (hstays : classify m ≠ .terminate)
    (hrewrite : ∀ co rw' st, (w.relay ()).session.held = some co →
      rewritePrepared sampleDigest m (w.relay ()).session.statements co.conn.statements = .ok (rw', st) →
      (∀ name p, rw' ≠ .parse name p) ∧ ∀ p name p', rw' ≠ .replayThen p name p') :
    MirrorTurn sampleDigest Mini.server .plain (fun s => s.mode = .command) Mini.State.Accepts
      Mini.Deallocates (w.relay ()) (.plain (.message m)) := by
  obtain ⟨co₁, hco₁, hunread₁⟩ := Option.map_eq_some_iff.mp hheld
  have hready : ∀ {msg s co}, Ready Mini.server .plain (w.relay ()) (.plain (.message m)) msg s co →
      co = co₁ := by
    intro msg s co hr
    obtain ⟨results, ⟨hco, -⟩ | ⟨hnone, -⟩⟩ := hr.log_eq
    · exact Option.some.inj (hco.symm.trans hco₁)
    · exact absurd (hco₁.symm.trans hnone) (by simp)
  refine ⟨fun msg hf => ?_, fun msg s co rw' st sql types hf hr hrw hparse hsql => ?_,
    fun msg s co hf hr hC => ?_, fun msg s co hf hr hE => ?_, fun msg c hf hnone hoffer => ?_,
    fun msg s co hf hr hw => ?_, fun hexits => ?_, noRestart_of_primary hroute fun _ => ?_⟩
  · cases hf.event
    exact hext.imp And.left id
  · cases hf.event
    rw [hr.statements_eq] at hrw
    obtain ⟨hnoparse, hnoreplay⟩ := hrewrite co rw' st (hready hr ▸ hco₁) hrw
    rcases hparse with hparse | ⟨m', hparse⟩
    · exact absurd hparse (hnoparse _ _)
    · exact absurd hparse (hnoreplay _ _ _)
  · cases hf.event
    rcases hext with ⟨-, hnot, -⟩ | hS
    · exact absurd hC hnot
    · rw [hS] at hC
      exact absurd hC (by decide)
  · cases hf.event
    rcases hext with ⟨-, -, hnot⟩ | hS
    · exact absurd hE hnot
    · rw [hS] at hE
      exact absurd hE (by decide)
  · exact absurd (hco₁.symm.trans hnone) (by simp)
  · obtain rfl := hready hr
    rw [hunread₁] at hw
    obtain ⟨x, hx, hopens⟩ := hw
    rw [hunread x hx] at hopens
    cases hopens
  · exact absurd hexits.2 hstays
  · rw [chooseRoute_plain htx]
    rfl

/-- A named statement and its Sync: the connection on the shelf has one name in its cache. -/
theorem cache_exact_select :
    ((run (worldStep sampleDigest Mini.server .plain) (World.new Unit Mini.State)
        [((), .plain (.message (parseAs "SELECT 1".toList))), ((), .plain (.message .sync))]).shelves
          none).map (fun c => c.statements.present.card) = [1] ∧
      ∀ p c, c ∈ (run (worldStep sampleDigest Mini.server .plain) (World.new Unit Mini.State)
        [((), .plain (.message (parseAs "SELECT 1".toList))), ((), .plain (.message .sync))]).shelves
          p → c.CacheExact Mini.State.find := by
  refine ⟨by decide +kernel, cache_exact Mini.prepares Mini.answers (World.new_fresh _ _)
    ⟨mirrorTurn_select, mirrorTurn_held [⟨.client, ⟨byte '1', []⟩⟩] ?_ ?_ ?_ (.inr rfl) ?_
      (by decide) ?_, trivial⟩⟩
  · decide +kernel
  · decide +kernel
  · decide +kernel
  · decide
  · intro co rw' st _ hrw
    cases hrw
    exact ⟨fun _ _ h => (by cases h), fun _ _ _ h => (by cases h)⟩

/-- A `Parse` the server rejects stays in the cache. -/
theorem not_cache_exact :
    ¬ ∀ (w : World Unit Mini.State) (ls : List (Unit × Turn)), w.Fresh →
      ∀ p c, c ∈ (run (worldStep sampleDigest Mini.server .plain) w ls).shelves p →
        c.CacheExact Mini.State.find := by
  intro h
  have hleft : ((run (worldStep sampleDigest Mini.server .plain) (World.new Unit Mini.State)
      [((), .plain (.message (parseAs "FAIL".toList))), ((), .plain (.message .sync))]).shelves
        none).map (fun c => (decide (globalName sampleDigest (Text.asBytes "FAIL".toList) [0, 0] ∈
          c.statements.present), c.server.prepared)) = [(true, [])] := by decide +kernel
  obtain ⟨c, hc, hcache⟩ := List.map_eq_singleton_iff.mp hleft
  simp only [Prod.mk.injEq, decide_eq_true_eq] at hcache
  have hexact := h _ _ (World.new_fresh _ _) none c (by rw [hc]; exact List.mem_singleton_self c)
  have hsome := ((hexact _).mp hcache.1).1
  rw [Mini.State.find, hcache.2] at hsome
  cases hsome

end Havuz
