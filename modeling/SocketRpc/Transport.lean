import SocketRpc.Failure
/-!
Byte streams seen as message sockets: reading whatever has arrived up to a chunk, and writing a
message however the stream takes it.
-/

namespace SocketRpc

inductive Arrival where
  | data (bs : Bytes)
  | ended
  | failure (e : IoError)
deriving Repr, DecidableEq

/-- The answer to a read; without an octet it is the end of the stream. -/
abbrev Chunk := Except Failure (Option Bytes)

def chunkLimit (size : Nat) : Nat := if size = 0 then 1 else size

def chunkOf (bs : Bytes) : Chunk := .ok (if bs = [] then none else some bs)

def readChunk (size : Nat) : List Arrival → Option Chunk × List Arrival
  | [] => (none, [])
  | .ended :: rest => (some (.ok none), .ended :: rest)
  | .failure e :: rest => (some (.error (.io e)), rest)
  | .data bs :: rest =>
    let n := chunkLimit size
    let left := bs.drop n
    (some (chunkOf (bs.take n)), if left = [] then rest else .data left :: rest)

inductive SinkAnswer where
  /-- so many octets are taken, or all if there are fewer -/
  | accept (n : Nat)
  | failure (e : Failure)
  | flushed
deriving Repr, DecidableEq

structure Outgoing where
  left : Bytes
deriving Repr, DecidableEq

namespace Outgoing

def ofText (s : String) : Outgoing := ⟨Utf8.ofText s⟩

inductive Step where
  | more (o : Outgoing)
  | done (r : Except Failure Unit)

def step (o : Outgoing) : SinkAnswer → Step
  | .accept n =>
    if o.left = [] then .more o
    else if n = 0 then .done (.error (.io ⟨.writeZero, none⟩))
    else .more ⟨o.left.drop n⟩
  | .failure e => .done (.error e)
  | .flushed => if o.left = [] then .done (.ok ()) else .more o

def run : Outgoing → List SinkAnswer → Step
  | o, [] => .more o
  | o, a :: rest =>
    match o.step a with
    | .more o => run o rest
    | r => r

def taken (o : Outgoing) : SinkAnswer → Bytes
  | .accept n => o.left.take n
  | _ => []

end Outgoing

/-- A peer that is gone already does not make closing fail. -/
def closeOutcome : Option IoError → Except Failure Unit
  | none => .ok ()
  | some e => if e.kind = .notConnected then .ok () else .error (.io e)

end SocketRpc
