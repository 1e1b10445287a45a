import Havuz.Shovel.Model

/-!
# Where the scanner and the server are

The scanner that looks for the goodbye reads the same bytes as the server, in chunks cut anywhere. It is
always where the server is: in the message the server has not got in full (`FrameScanner.Tracks`). So a
client that said goodbye left the server with whole messages, or without a server (`Shovel.framed_run`).
-/

namespace Havuz

open Lib

variable {σ : Type}

/-! ## Requests -/

namespace ByteStream

variable {srv : Server σ} {st : ByteStream σ}

theorem feed_append (st : ByteStream σ) (bs bs' : Bytes) :
    st.feed srv (bs ++ bs') = (st.feed srv bs).feed srv bs' :=
  List.foldl_append

theorem feed_of_closed (hclosed : st.closed = true) (bs : Bytes) : st.feed srv bs = st := by
  induction bs with
  | nil => rfl
  | cons b bs ih =>
      have hb : st.feedByte srv b = st := by rw [feedByte, if_pos hclosed]
      rw [feed, List.foldl_cons, hb]
      exact ih

/-- Bytes that do not complete a request are kept. -/
theorem feed_short (hopen : st.closed = false) {bs : Bytes}
    (h : frameOf (st.unfinished ++ bs) = .short) :
    st.feed srv bs = { st with unfinished := st.unfinished ++ bs } := by
  induction bs using List.reverseRecOn with
  | nil => rw [List.append_nil]; rfl
  | append_singleton bs b ih =>
      rw [← List.append_assoc] at h ⊢
      rw [feed_append, ih (frameOf_short_left h)]
      simp only [feed, List.foldl_cons, List.foldl_nil, feedByte, hopen, Bool.false_eq_true, if_false, h]

/-- The byte after them decides. -/
theorem feed_concat (hopen : st.closed = false) {bs : Bytes}
    (h : frameOf (st.unfinished ++ bs) = .short) (b : UInt8) :
    st.feed srv (bs ++ [b]) =
      match frameOf (st.unfinished ++ (bs ++ [b])) with
      | .short => { st with unfinished := st.unfinished ++ (bs ++ [b]) }
      | .message m => st.deliver srv m
      | .bad => { st with unfinished := st.unfinished ++ bs, closed := true } := by
  rw [feed_append, feed_short hopen h, ← List.append_assoc]
  simp only [feed, List.foldl_cons, List.foldl_nil, feedByte, hopen, Bool.false_eq_true, if_false]
  cases frameOf (st.unfinished ++ bs ++ [b]) with
  | short => rfl
  | bad => rfl
  | message m =>
      simp only [deliver, ← hopen]

theorem deliver_unfinished (m : Message) : (st.deliver srv m).unfinished = [] := by
  unfold deliver
  split <;> rfl

theorem deliver_of_write {m : Message} {server : σ} {rs : List Message}
    (h : srv.write st.server m = some (server, rs)) :
    st.deliver srv m =
      { st with server, unfinished := [], unread := st.unread ++ rs.flatMap Message.encode } := by
  rw [deliver, h]

theorem deliver_of_dead {m : Message} (h : srv.write st.server m = none) :
    st.deliver srv m = { st with unfinished := [], closed := true } := by
  rw [deliver, h]

/-- A whole request is delivered. -/
theorem feed_encode (hopen : st.closed = false) (hwhole : st.unfinished = []) {m : Message}
    (hfits : m.Fits) : st.feed srv m.encode = st.deliver srv m := by
  obtain hnil | ⟨p, b, hp⟩ := List.eq_nil_or_concat m.encode
  · cases hnil
  · rw [List.concat_eq_append] at hp
    have hshort : frameOf (st.unfinished ++ p) = .short := by
      rw [hwhole, List.nil_append]
      exact frameOf_encode_left hfits hp
    rw [hp, feed_concat hopen hshort, ← hp, hwhole, List.nil_append, frameOf_encode hfits]

end ByteStream

/-! ## The scanner and the server -/

namespace FrameScanner

/-- The scanner at the end of the bytes `p` of a message that is not complete. -/
def of (p : Bytes) : FrameScanner :=
  if p.length < headerLen then ⟨0, p⟩ else ⟨headerLen + bodyLen p - p.length, []⟩

theorem of_header {p : Bytes} (h : p.length < headerLen) : of p = ⟨0, p⟩ := if_pos h

theorem of_body {p : Bytes} (h : headerLen ≤ p.length) :
    of p = ⟨headerLen + bodyLen p - p.length, []⟩ := if_neg (by omega)

/-- The scanner is where the server is: in the message the server has not got in full, which is no
goodbye. After a length that is none the server is gone and the scanner may be anywhere. -/
structure Tracks (sc : FrameScanner) (st : ByteStream σ) : Prop where
  carried : 0 < sc.remaining → sc.carried = []
  length_lt : sc.carried.length < headerLen
  here : st.closed = false → sc = of st.unfinished ∧ frameOf st.unfinished = .short ∧
    st.unfinished.head? ≠ some (byte 'X')

variable {srv : Server σ} {sc : FrameScanner} {st : ByteStream σ}

theorem tracks_start (hwhole : st.unfinished = []) : Tracks {} st := by
  refine ⟨fun _ => rfl, by decide, fun _ => ?_⟩
  rw [hwhole]
  exact ⟨rfl, rfl, nofun⟩

theorem tracks_closed {n : Nat} (hclosed : st.closed = true) : Tracks ⟨n, []⟩ st :=
  ⟨fun _ => rfl, Nat.zero_lt_succ 4, fun hopen => by rw [hclosed] at hopen; cases hopen⟩

/-- Bytes that do not complete a message. -/
theorem tracks_short (hopen : st.closed = false) {bs : Bytes}
    (h : frameOf (st.unfinished ++ bs) = .short)
    (hgoodbye : (st.unfinished ++ bs).head? ≠ some (byte 'X')) :
    Tracks (of (st.unfinished ++ bs)) (st.feed srv bs) := by
  rw [ByteStream.feed_short hopen h]
  by_cases hlt : (st.unfinished ++ bs).length < headerLen
  · refine ⟨fun hbody => ?_, ?_, fun _ => ⟨rfl, h, hgoodbye⟩⟩
    · rw [of_header hlt] at hbody
      exact absurd hbody (Nat.lt_irrefl 0)
    · rw [of_header hlt]
      exact hlt
  · have hof := of_body (Nat.le_of_not_lt hlt)
    refine ⟨fun _ => ?_, ?_, fun _ => ⟨rfl, h, hgoodbye⟩⟩
    all_goals rw [hof]
    exact Nat.zero_lt_succ 4

/-- Bytes up to the end of a message at most. The header is complete before them or with them. -/
theorem tracks_feed (hopen : st.closed = false) (hshort : frameOf st.unfinished = .short) {bs : Bytes}
    (hbs : bs ≠ []) (hheader : headerLen ≤ (st.unfinished ++ bs).length)
    (hend : (st.unfinished ++ bs).length ≤ headerLen + bodyLen (st.unfinished ++ bs))
    (hnew : st.unfinished.length < headerLen → (st.unfinished ++ bs).length = headerLen)
    (hgoodbye : (st.unfinished ++ bs).head? ≠ some (byte 'X')) :
    Tracks ⟨headerLen + bodyLen (st.unfinished ++ bs) - (st.unfinished ++ bs).length, []⟩
      (st.feed srv bs) := by
  obtain hnil | ⟨front, b, hfront⟩ := List.eq_nil_or_concat bs
  · exact absurd hnil hbs
  rw [List.concat_eq_append] at hfront
  have hlen : (st.unfinished ++ bs).length = (st.unfinished ++ front).length + 1 := by
    rw [hfront, List.length_append, List.length_append, List.length_append, List.length_singleton]
    omega
  -- All but the last byte leave the message incomplete.
  have hbefore : frameOf (st.unfinished ++ front) = .short := by
    by_cases hp : (st.unfinished ++ front).length < headerLen
    · exact frameOf_of_lt hp
    · have hold : headerLen ≤ st.unfinished.length := by
        by_contra hlt
        have := hnew (by omega)
        omega
      have hbad := ((frameOf_short_iff hold).mp hshort).1
      have hbody := bodyLen_append hold bs
      rw [frameOf_short_iff (by omega), declared_append hold, bodyLen_append hold]
      exact ⟨hbad, by omega⟩
  have hfeed : st.feed srv (front ++ [b]) = _ := ByteStream.feed_concat hopen hbefore b
  rw [← hfront] at hfeed
  cases hframe : frameOf (st.unfinished ++ bs) with
  | short =>
      rw [← of_body hheader]
      exact tracks_short hopen hframe hgoodbye
  | bad =>
      rw [hfeed, hframe]
      exact tracks_closed rfl
  | message m =>
      have hdone : headerLen + bodyLen (st.unfinished ++ bs) - (st.unfinished ++ bs).length = 0 := by
        unfold frameOf at hframe
        split_ifs at hframe
        omega
      rw [hfeed, hframe, hdone]
      exact tracks_start (ByteStream.deliver_unfinished m)

/-- In the middle of a body. -/
theorem Tracks.skip (h : Tracks sc st) (hremaining : 0 < sc.remaining) {bs : Bytes} (hbs : bs ≠ [])
    (hend : bs.length ≤ sc.remaining) :
    Tracks ⟨sc.remaining - bs.length, []⟩ (st.feed srv bs) := by
  by_cases hclosed : st.closed = true
  · rw [ByteStream.feed_of_closed hclosed]
    exact tracks_closed hclosed
  · have hopen : st.closed = false := Bool.eq_false_iff.mpr hclosed
    obtain ⟨hof, hshort, hgoodbye⟩ := h.here hopen
    have hheader : headerLen ≤ st.unfinished.length := by
      by_contra hlt
      rw [hof, of_header (by omega)] at hremaining
      exact Nat.lt_irrefl 0 hremaining
    have hleft : sc.remaining = headerLen + bodyLen st.unfinished - st.unfinished.length := by
      rw [hof, of_body hheader]
    have hhead : (st.unfinished ++ bs).head? = st.unfinished.head? := by
      rw [List.head?_append_of_ne_nil]
      exact List.ne_nil_of_length_pos (by rw [headerLen] at hheader; omega)
    have hfeed : Tracks _ (st.feed srv bs) := tracks_feed hopen hshort hbs
      (by rw [List.length_append]; omega) (by rw [List.length_append, bodyLen_append hheader]; omega) (fun hlt => by omega)
      (by rw [hhead]; exact hgoodbye)
    rw [bodyLen_append hheader, List.length_append, Nat.sub_add_eq, ← hleft] at hfeed
    exact hfeed

/-- Outside a body, what is carried is what the server has. -/
theorem Tracks.header (h : Tracks sc st) (hremaining : ¬ 0 < sc.remaining)
    (hopen : st.closed = false) :
    sc.carried = st.unfinished ∧ st.unfinished.length < headerLen ∧ frameOf st.unfinished = .short ∧
      st.unfinished.head? ≠ some (byte 'X') := by
  obtain ⟨hof, hshort, hgoodbye⟩ := h.here hopen
  have hlt : st.unfinished.length < headerLen := by
    by_contra hge
    have hleft := ((frameOf_short_iff (by omega)).mp hshort).2
    rw [hof, of_body (by omega)] at hremaining
    exact hremaining (by dsimp only; omega)
  exact ⟨by rw [hof, of_header hlt], hlt, hshort, hgoodbye⟩

/-- A header goes on. -/
theorem Tracks.carry (h : Tracks sc st) (hremaining : ¬ 0 < sc.remaining) {bs : Bytes}
    (hlen : (sc.carried ++ bs).length < headerLen)
    (hgoodbye : (sc.carried ++ bs).head? ≠ some (byte 'X')) :
    Tracks { sc with carried := sc.carried ++ bs } (st.feed srv bs) := by
  by_cases hclosed : st.closed = true
  · rw [ByteStream.feed_of_closed hclosed]
    exact ⟨fun hlt => absurd hlt hremaining, hlen, fun hopen => by rw [hclosed] at hopen; cases hopen⟩
  · have hopen : st.closed = false := Bool.eq_false_iff.mpr hclosed
    obtain ⟨hcarried, -⟩ := h.header hremaining hopen
    obtain ⟨remaining, carried⟩ := sc
    obtain rfl : remaining = 0 := by
      dsimp only at hremaining
      omega
    dsimp only at hcarried hlen hgoodbye ⊢
    rw [hcarried] at hlen hgoodbye ⊢
    rw [← of_header hlen]
    exact tracks_short hopen (frameOf_of_lt hlen) hgoodbye

/-- A header is complete. -/
theorem Tracks.complete (h : Tracks sc st) (hremaining : ¬ 0 < sc.remaining) {bs : Bytes}
    (hbs : bs ≠ []) (hlen : (sc.carried ++ bs).length = headerLen)
    (hgoodbye : (sc.carried ++ bs).head? ≠ some (byte 'X')) :
    Tracks ⟨bodyLen (sc.carried ++ bs), []⟩ (st.feed srv bs) := by
  by_cases hclosed : st.closed = true
  · rw [ByteStream.feed_of_closed hclosed]
    exact tracks_closed hclosed
  · have hopen : st.closed = false := Bool.eq_false_iff.mpr hclosed
    obtain ⟨hcarried, -, hshort, -⟩ := h.header hremaining hopen
    rw [hcarried] at hlen hgoodbye ⊢
    have hfeed : Tracks _ (st.feed srv bs) :=
      tracks_feed hopen hshort hbs (by omega) (by omega) (fun _ => hlen) hgoodbye
    rwa [hlen, Nat.add_sub_cancel_left] at hfeed

/-- A goodbye that is found lies ahead. -/
theorem scanLoop_offset {fuel : Nat} {sc sc' : FrameScanner} {buf : Bytes} {pos off : Nat}
    (hcarried : sc.carried = []) (h : scanLoop fuel sc buf pos = (some off, sc')) : pos ≤ off := by
  induction fuel generalizing sc buf pos with
  | zero => cases h
  | succ fuel ih =>
      cases buf with
      | nil => cases h
      | cons b buf =>
          rw [scanLoop] at h
          simp only [hcarried, List.length_nil, Nat.lt_irrefl, if_false] at h
          split_ifs at h
          · have := ih rfl h
            omega
          · cases h
            exact Nat.le_refl _
          · cases h
          · have := ih rfl h
            omega

/-- What a scan of `buf` from `pos` on says: without a goodbye the scanner is where the server is; with
one, the server has whole messages once it has what comes before. -/
structure Found (srv : Server σ) (st : ByteStream σ) (buf : Bytes) (pos : Nat)
    (found : Option Nat × FrameScanner) : Prop where
  tracks : found.1 = none → Tracks found.2 (st.feed srv buf)
  whole : ∀ off, found.1 = some off → (st.feed srv (buf.take (off - pos))).closed = true ∨
    (pos ≤ off ∧ (st.feed srv (buf.take (off - pos))).unfinished = [])

/-- A round of the loop that takes `k` bytes off. -/
theorem Found.more {buf : Bytes} {pos k : Nat} {found : Option Nat × FrameScanner}
    (h : Found srv (st.feed srv (buf.take k)) (buf.drop k) (pos + k) found)
    (hahead : ∀ off, found.1 = some off → pos + k ≤ off) : Found srv st buf pos found := by
  refine ⟨fun hnone => ?_, fun off hoff => ?_⟩
  · have htracks := h.tracks hnone
    rwa [← ByteStream.feed_append, List.take_append_drop] at htracks
  · have hle := hahead off hoff
    have htake : buf.take (off - pos) = buf.take k ++ (buf.drop k).take (off - (pos + k)) := by
      rw [← List.take_add, show k + (off - (pos + k)) = off - pos by omega]
    rw [htake, ByteStream.feed_append]
    exact (h.whole off hoff).imp_right fun hwhole => ⟨by omega, hwhole.2⟩

/-- The round that completes a header. -/
theorem found_carried {fuel : Nat} {b : UInt8} {buf : Bytes} {pos : Nat} (htracks : Tracks sc st)
    (hremaining : ¬ 0 < sc.remaining) (hcarried : 0 < sc.carried.length)
    (hmore : ∀ {n k : Nat}, 0 < k → Tracks ⟨n, []⟩ (st.feed srv ((b :: buf).take k)) →
      Found srv st (b :: buf) pos (scanLoop fuel ⟨n, []⟩ ((b :: buf).drop k) (pos + k))) :
    Found srv st (b :: buf) pos
      (let take := min (headerLen - sc.carried.length) (b :: buf).length
       let header := sc.carried ++ (b :: buf).take take
       if header.length < headerLen then (none, { sc with carried := header })
       else if header.head? = some (byte 'X') then (some 0, { sc with carried := [] })
       else scanLoop fuel ⟨bodyLen header, []⟩ ((b :: buf).drop take) (pos + take)) := by
  have hshort := htracks.length_lt
  have hhead : ∀ bs, (sc.carried ++ bs).head? = sc.carried.head? := fun bs =>
    List.head?_append_of_ne_nil _ (List.ne_nil_of_length_pos hcarried)
  dsimp only
  generalize htake : min (headerLen - sc.carried.length) (b :: buf).length = take
  have hpos : 0 < take := by
    rw [← htake, List.length_cons]
    omega
  have hlength : ((b :: buf).take take).length = take := by
    rw [List.length_take]
    omega
  by_cases hgoodbye : sc.carried.head? = some (byte 'X')
  · -- Only a scanner that lost the server carries a goodbye.
    have hclosed : st.closed = true := by
      by_contra hopen
      have hheader := htracks.header hremaining (Bool.eq_false_iff.mpr hopen)
      exact hheader.2.2.2 (by rw [← hheader.1]; exact hgoodbye)
    split_ifs with hlen
    · refine ⟨fun _ => ⟨fun h => absurd h hremaining, hlen, fun hopen => ?_⟩, nofun⟩
      rw [ByteStream.feed_of_closed hclosed, hclosed] at hopen
      cases hopen
    · refine ⟨nofun, fun off _ => .inl ?_⟩
      rw [ByteStream.feed_of_closed hclosed]
      exact hclosed
    · exact absurd ((hhead _).trans hgoodbye) ‹_›
  · rw [← hhead ((b :: buf).take take)] at hgoodbye
    split_ifs with hlen
    · refine ⟨fun _ => ?_, nofun⟩
      have hall : (b :: buf).take take = b :: buf := by
        refine List.take_of_length_le ?_
        rw [List.length_append, hlength] at hlen
        omega
      rw [hall] at hlen hgoodbye ⊢
      exact htracks.carry hremaining hlen hgoodbye
    · refine hmore hpos (htracks.complete hremaining (List.ne_nil_of_length_pos (by omega)) ?_ hgoodbye)
      rw [List.length_append, hlength] at hlen ⊢
      omega

theorem scanLoop_found {fuel : Nat} {buf : Bytes} {pos : Nat} (htracks : Tracks sc st)
    (hfuel : buf.length ≤ fuel) : Found srv st buf pos (scanLoop fuel sc buf pos) := by
  induction fuel generalizing sc st buf pos with
  | zero =>
      obtain rfl : buf = [] := List.length_eq_zero_iff.mp (by omega)
      exact ⟨fun _ => htracks, nofun⟩
  | succ fuel ih =>
      cases buf with
      | nil => exact ⟨fun _ => htracks, nofun⟩
      | cons b buf =>
          have hmore : ∀ {n k : Nat}, 0 < k → Tracks ⟨n, []⟩ (st.feed srv ((b :: buf).take k)) →
              Found srv st (b :: buf) pos (scanLoop fuel ⟨n, []⟩ ((b :: buf).drop k) (pos + k)) := by
            intro n k hk htracks'
            refine (ih htracks' ?_).more fun off hoff => ?_
            · rw [List.length_drop]
              omega
            · have hfound : scanLoop fuel ⟨n, []⟩ ((b :: buf).drop k) (pos + k) = (some off, _) :=
                Prod.ext hoff rfl
              exact scanLoop_offset rfl hfound
          rw [scanLoop]
          by_cases hremaining : 0 < sc.remaining
          · have hskip : min sc.remaining (b :: buf).length =
                ((b :: buf).take (min sc.remaining (b :: buf).length)).length := by
              rw [List.length_take]
              omega
            have hpos : 0 < min sc.remaining (b :: buf).length := by
              rw [List.length_cons]
              omega
            rw [if_pos hremaining, htracks.carried hremaining]
            refine hmore hpos ?_
            have hnext : Tracks _ (st.feed srv ((b :: buf).take (min sc.remaining (b :: buf).length))) :=
              htracks.skip hremaining (List.ne_nil_of_length_pos (by omega)) (by omega)
            rwa [← hskip] at hnext
          · rw [if_neg hremaining]
            by_cases hcarried : 0 < sc.carried.length
            · rw [if_pos hcarried]
              exact found_carried htracks hremaining hcarried hmore
            · rw [if_neg hcarried]
              obtain hnil : sc.carried = [] := List.length_eq_zero_iff.mp (by omega)
              split_ifs with hgoodbye hlen
              · refine ⟨nofun, fun off hoff => ?_⟩
                cases hoff
                rw [Nat.sub_self]
                by_cases hclosed : st.closed = true
                · exact .inl hclosed
                · have hwhole := (htracks.header hremaining (Bool.eq_false_iff.mpr hclosed)).1
                  exact .inr ⟨Nat.le_refl _, by rw [← hnil, hwhole]; rfl⟩
              · refine ⟨fun _ => ?_, nofun⟩
                have hnext : Tracks _ (st.feed srv (b :: buf)) := htracks.carry hremaining
                  (by rw [hnil]; exact hlen) (by rw [hnil]; exact fun h => hgoodbye (Option.some.inj h))
                rwa [hnil] at hnext
              · refine hmore (by decide) ?_
                have hheader : ((b :: buf).take headerLen).length = headerLen := by
                  rw [List.length_take]
                  omega
                have hnext : Tracks _ (st.feed srv ((b :: buf).take headerLen)) :=
                  htracks.complete hremaining (List.cons_ne_nil _ _)
                  (by rw [hnil]; exact hheader)
                  (by rw [hnil]; exact fun h => hgoodbye (Option.some.inj h))
                rwa [hnil] at hnext

end FrameScanner

/-! ## The relay -/

namespace Shovel

variable {srv : Server σ} {r : Shovel σ}

/-- While the relay runs, its scanner is where the server is; a client that said goodbye left whole
messages. -/
structure Framed (r : Shovel σ) : Prop where
  tracks : r.ending = none → r.scanner.Tracks r.stream
  terminated : r.stats.clientTerminated = true →
    r.ending ≠ none ∧ (r.stream.closed = true ∨ r.stream.unfinished = [])

theorem framed_onClient (h : r.Framed) (hrun : r.ending = none) (chunk : Bytes) (cut : Option Nat) :
    (r.onClient srv chunk cut).Framed := by
  have hstays : ¬ r.stats.clientTerminated = true := fun hterm => (h.terminated hterm).1 hrun
  have hfound : FrameScanner.Found srv r.stream chunk 0 (r.scanner.scan chunk) :=
    FrameScanner.scanLoop_found (h.tracks hrun) (Nat.le_refl _)
  unfold onClient
  rcases hscan : r.scanner.scan chunk with ⟨found, scanner⟩
  rw [hscan] at hfound
  cases found with
  | none =>
      cases cut with
      | none => exact ⟨fun _ => hfound.tracks rfl, fun hterm => absurd hterm hstays⟩
      | some k => exact ⟨nofun, fun hterm => absurd hterm hstays⟩
  | some offset =>
      have hwhole := hfound.whole offset rfl
      rw [Nat.sub_zero] at hwhole
      dsimp only
      by_cases hoffset : 0 < offset
      · rw [if_pos hoffset]
        cases cut with
        | none =>
            simp only [forward, hrun, Option.isSome_none, Bool.false_eq_true, if_false]
            exact ⟨nofun, fun _ => ⟨nofun, hwhole.imp_right And.right⟩⟩
        | some k =>
            simp only [forward, Option.isSome_some, if_true]
            exact ⟨nofun, fun hterm => absurd hterm hstays⟩
      · obtain rfl : offset = 0 := by omega
        simp only [Nat.lt_irrefl, hrun, Option.isSome_none, Bool.false_eq_true, if_false]
        exact ⟨nofun, fun _ => ⟨nofun, hwhole.imp_right And.right⟩⟩

theorem framed_onBackend (h : r.Framed) (hrun : r.ending = none) (n : Nat) (taken : Bool) :
    (r.onBackend n taken).Framed := by
  have hstays : ¬ r.stats.clientTerminated = true := fun hterm => (h.terminated hterm).1 hrun
  have htracks := h.tracks hrun
  unfold onBackend
  split_ifs
  · exact ⟨nofun, fun hterm => absurd hterm hstays⟩
  · exact h
  · exact ⟨fun _ => ⟨htracks.carried, htracks.length_lt, htracks.here⟩, fun hterm => absurd hterm hstays⟩
  · exact ⟨nofun, fun hterm => absurd hterm hstays⟩

theorem framed_step (h : r.Framed) (e : ShovelEvent) : (r.step srv e).Framed := by
  cases hrun : r.ending with
  | some ending =>
      have hstep : r.step srv e = r := if_pos (by rw [hrun]; rfl)
      rw [hstep]
      exact h
  | none =>
      have hstays : ¬ r.stats.clientTerminated = true := fun hterm => (h.terminated hterm).1 hrun
      unfold step
      rw [hrun]
      cases e with
      | kick => exact ⟨nofun, fun hterm => absurd hterm hstays⟩
      | client chunk cut =>
          cases chunk with
          | nil => exact ⟨nofun, fun hterm => absurd hterm hstays⟩
          | cons b chunk => exact framed_onClient h hrun (b :: chunk) cut
      | clientFailed => exact ⟨nofun, fun hterm => absurd hterm hstays⟩
      | backend n taken => exact framed_onBackend h hrun n taken
      | backendFailed => exact ⟨nofun, fun hterm => absurd hterm hstays⟩

/-- However the chunks of the two directions interleave. -/
theorem framed_run {stream : ByteStream σ} (hwhole : stream.unfinished = [])
    (events : List ShovelEvent) : (run (step srv) (start stream) events).Framed :=
  have hstart : (start stream).Framed := ⟨fun _ => FrameScanner.tracks_start hwhole, nofun⟩
  run_invariant (I := Framed) (fun _ e h => framed_step h e) hstart events

end Shovel

end Havuz
