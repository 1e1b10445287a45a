import Havuz.Server
import Havuz.Wire

/-!
# Session mode: the byte shovel and the reset

Reference: `session_relay_inner` and `FrameScanner` of `havuz-pg/src/relay.rs`, `simple_query` and `reset`
of `havuz-pg/src/backend.rs`, `Checkout::recycle` of `havuz-pool/src/pool.rs`, and the session-mode branch
of `PgFamily::serve` in `havuz-pg/src/family.rs`.

In session mode the relay copies chunks of bytes and does not know where a reply ends, so here the
connection is a stream of bytes: what the server has got of a request it has not got in full, and what it
sent that was not read. The server behind it is the one of the message-level model. The spans that a
trace observes while bytes go by decide nothing and are left out.
-/

namespace Havuz

open Lib Sql

variable {σ : Type}

/-! ## A connection as a stream of bytes -/

/-- The two directions of a connection to a server. -/
structure ByteStream (σ : Type) where
  server : σ
  /-- What the server has of a request that is not complete. -/
  unfinished : Bytes := []
  /-- What the server sent and nobody has read. -/
  unread : Bytes := []
  /-- The server hung up. What it had sent can still be read. -/
  closed : Bool := false
deriving DecidableEq

namespace ByteStream

variable (srv : Server σ)

/-- The server has a request in full. -/
def deliver (m : Message) (st : ByteStream σ) : ByteStream σ :=
  match srv.write st.server m with
  | none => { st with unfinished := [], closed := true }
  | some (server, rs) =>
      { st with server, unfinished := [], unread := st.unread ++ rs.flatMap Message.encode }

/-- One byte reaches the server. It hangs up on a length that is none. -/
def feedByte (st : ByteStream σ) (b : UInt8) : ByteStream σ :=
  if st.closed then st
  else
    match frameOf (st.unfinished ++ [b]) with
    | .short => { st with unfinished := st.unfinished ++ [b] }
    | .message m => st.deliver srv m
    | .bad => { st with closed := true }

/-- Some bytes reach the server. -/
def feed (st : ByteStream σ) (bs : Bytes) : ByteStream σ := bs.foldl (feedByte srv) st

end ByteStream

/-! ## Finding the goodbye -/

/-- `FrameScanner`. -/
structure FrameScanner where
  /-- Body bytes still to be skipped in the message being traversed. -/
  remaining : Nat := 0
  /-- Header bytes carried over when a chunk ended mid-header. -/
  carried : Bytes := []
deriving DecidableEq, Repr

namespace FrameScanner

/-- The loop of `FrameScanner::scan`. `buf` is the chunk from `pos` on; each round takes at least one
byte off it. -/
def scanLoop : Nat → FrameScanner → Bytes → Nat → Option Nat × FrameScanner
  | 0, sc, _, _ => (none, sc)
  | _ + 1, sc, [], _ => (none, sc)
  | fuel + 1, sc, b :: buf, pos =>
      if 0 < sc.remaining then
        let skip := min sc.remaining (b :: buf).length
        scanLoop fuel { sc with remaining := sc.remaining - skip } ((b :: buf).drop skip) (pos + skip)
      else if 0 < sc.carried.length then
        let take := min (headerLen - sc.carried.length) (b :: buf).length
        let header := sc.carried ++ (b :: buf).take take
        if header.length < headerLen then (none, { sc with carried := header })
        else if header.head? = some (byte 'X') then (some 0, { sc with carried := [] })
        else scanLoop fuel ⟨bodyLen header, []⟩ ((b :: buf).drop take) (pos + take)
      else if b = byte 'X' then (some pos, sc)
      else if (b :: buf).length < headerLen then (none, { sc with carried := b :: buf })
      else
        scanLoop fuel ⟨bodyLen ((b :: buf).take headerLen), []⟩ ((b :: buf).drop headerLen) (pos + headerLen)

/-- Feed a chunk; the offset at which a `Terminate` message starts. -/
def scan (sc : FrameScanner) (buf : Bytes) : Option Nat × FrameScanner := scanLoop buf.length sc buf 0

end FrameScanner

/-! ## The relay -/

/-- `RelayStats`. -/
structure RelayStats where
  toClient : Nat := 0
  toBackend : Nat := 0
  /-- The client said goodbye properly. -/
  clientTerminated : Bool := false
  backendClosed : Bool := false
  kicked : Bool := false
deriving DecidableEq, Repr

/-- How `session_relay_inner` returns. -/
inductive RelayEnd where
  | ok
  | failed
deriving DecidableEq, Repr

/-- The state of `session_relay_inner`. -/
structure Shovel (σ : Type) where
  stream : ByteStream σ
  scanner : FrameScanner := {}
  stats : RelayStats := {}
  ending : Option RelayEnd := none
deriving DecidableEq

/-- Which branch of the loop fires. -/
inductive ShovelEvent where
  | kick
  /-- A read from the client; of no bytes at the end of its stream. `cut` is how many bytes the backend's
  socket takes before it fails, if it does. -/
  | client (chunk : Bytes) (cut : Option Nat)
  | clientFailed
  /-- A read of at most `n + 1` bytes from the backend. `taken` is whether the client's socket takes
  them. -/
  | backend (n : Nat) (taken : Bool)
  | backendFailed
deriving DecidableEq, Repr

namespace Shovel

/-- The relay at its start. -/
def start (stream : ByteStream σ) : Shovel σ := { stream }

variable (srv : Server σ)

/-- Write some bytes to the backend. -/
def forward (r : Shovel σ) (bs : Bytes) (cut : Option Nat) : Shovel σ :=
  match cut with
  | none =>
      { r with
        stream := r.stream.feed srv bs
        stats := { r.stats with toBackend := r.stats.toBackend + bs.length } }
  | some k => { r with stream := r.stream.feed srv (bs.take k), ending := some .failed }

/-- A chunk from the client. Everything before a goodbye is forwarded, the goodbye is not. -/
def onClient (r : Shovel σ) (chunk : Bytes) (cut : Option Nat) : Shovel σ :=
  match r.scanner.scan chunk with
  | (some offset, scanner) =>
      let r := { r with scanner }
      let r := if 0 < offset then r.forward srv (chunk.take offset) cut else r
      if r.ending.isSome then r
      else { r with stats := { r.stats with clientTerminated := true }, ending := some .ok }
  | (none, scanner) => { r with scanner }.forward srv chunk cut

/-- A read from the backend. Without anything to read it returns only if the backend hung up. -/
def onBackend (r : Shovel σ) (n : Nat) (taken : Bool) : Shovel σ :=
  if r.stream.unread = [] then
    if r.stream.closed then
      { r with stats := { r.stats with backendClosed := true }, ending := some .ok }
    else r
  else
    let chunk := r.stream.unread.take (n + 1)
    let r := { r with stream := { r.stream with unread := r.stream.unread.drop (n + 1) } }
    if taken then { r with stats := { r.stats with toClient := r.stats.toClient + chunk.length } }
    else { r with ending := some .failed }

/-- One round of the loop of `session_relay_inner`, until it has returned. -/
def step (r : Shovel σ) (e : ShovelEvent) : Shovel σ :=
  if r.ending.isSome then r
  else
    match e with
    | .kick => { r with stats := { r.stats with kicked := true }, ending := some .ok }
    | .client [] _ => { r with ending := some .ok }
    | .client chunk cut => r.onClient srv chunk cut
    | .backend n taken => r.onBackend n taken
    | .clientFailed | .backendFailed => { r with ending := some .failed }

end Shovel

/-! ## The reset -/

/-- `ResetOutcome`. -/
inductive ResetOutcome where
  | cleaned
  | discard
deriving DecidableEq, Repr

/-- How the reading of `simple_query` goes. -/
inductive DrainResult where
  /-- `ReadyForQuery` was read. -/
  | ready (rest : Bytes)
  /-- An error was read, or the read failed. -/
  | failed (rest : Bytes)
  | waits
deriving DecidableEq, Repr

/-- The loop of `simple_query`. Each round takes a message off. -/
def drainLoop : Nat → Bytes → DrainResult
  | 0, _ => .waits
  | fuel + 1, bs =>
      match Message.read bs with
      | .waits => .waits
      | .failed => .failed bs
      | .message m rest =>
          if m.tag = byte 'Z' then .ready rest
          else if m.tag = byte 'E' then .failed rest
          else drainLoop fuel rest

def drain (bs : Bytes) : DrainResult := drainLoop (bs.length + 1) bs

/-- `PgBackend` over a byte stream. -/
structure StreamBackend (σ : Type) where
  stream : ByteStream σ
  broken : Bool := false
  supportsDiscardAll : Bool
  statements : BackendStatements := .clear
  appliedParams : ParamMap := .empty
deriving DecidableEq

namespace StreamBackend

variable (srv : Server σ)

/-- `PgBackend::simple_query`. `none` is a read that never returns. -/
def simpleQuery (sql : Text) (cut : Option Nat) (b : StreamBackend σ) : Option (StreamBackend σ) :=
  if b.broken then some b
  else
    match cut with
    | some k =>
        some { b with stream := b.stream.feed srv ((Message.query sql).encode.take k), broken := true }
    | none =>
        let stream := b.stream.feed srv (Message.query sql).encode
        match drain stream.unread with
        | .ready rest => some { b with stream := { stream with unread := rest } }
        | .failed rest => some { b with stream := { stream with unread := rest }, broken := true }
        | .waits => if stream.closed then some { b with stream, broken := true } else none

/-- The statement that returns a connection to its defaults. -/
def discardStatement (b : StreamBackend σ) : Text :=
  if b.supportsDiscardAll then "DISCARD ALL".toList else "RESET ALL".toList

/-- `PgBackend::reset`, with where the writes of its two queries are cut. -/
def reset (cuts : Option Nat × Option Nat) (b : StreamBackend σ) :
    Option (ResetOutcome × StreamBackend σ) :=
  if b.broken then some (.discard, b)
  else
    match b.simpleQuery srv "ROLLBACK".toList cuts.1 with
    | none => none
    | some b =>
        match b.simpleQuery srv b.discardStatement cuts.2 with
        | none => none
        | some b =>
            let b := { b with statements := .clear, appliedParams := .empty }
            some (if b.broken then .discard else .cleaned, b)

end StreamBackend

/-- `Checkout`, of one backend. -/
structure SessionCheckout (σ : Type) where
  conn : StreamBackend σ
  discard : Bool := false
deriving DecidableEq

/-- `Checkout::recycle`. -/
def SessionCheckout.recycle (srv : Server σ) (cuts : Option Nat × Option Nat) (c : SessionCheckout σ) :
    Option (ResetOutcome × SessionCheckout σ) :=
  match c.conn.reset srv cuts with
  | none => none
  | some (.discard, conn) => some (.discard, ⟨conn, true⟩)
  | some (.cleaned, conn) => some (.cleaned, { c with conn })

/-- What `PgFamily::serve` does when the relay has returned. -/
def Shovel.release (srv : Server σ) (cuts : Option Nat × Option Nat) (c : SessionCheckout σ)
    (r : Shovel σ) : Option (ResetOutcome × SessionCheckout σ) :=
  let c := { c with conn := { c.conn with stream := r.stream } }
  match r.ending with
  | none => none
  | some .ok =>
      if r.stats.backendClosed || r.stats.kicked then { c with discard := true }.recycle srv cuts
      else c.recycle srv cuts
  | some .failed => { c with discard := true }.recycle srv cuts

end Havuz
