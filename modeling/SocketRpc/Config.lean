import SocketRpc.Failure
import SocketRpc.Backoff
namespace SocketRpc

inductive FaultPolicy where
  | strict
  | lenient
deriving Repr, DecidableEq

def FaultPolicy.display : FaultPolicy → String
  | strict => "strict"
  | lenient => "lenient"

structure Config where
  requestTimeoutMs : Nat := 10000
  maxConnectionRetries : Nat := 5
  backoffBaseMs : Nat := 1750
  backoffMultiplier : Binary64 := .ofBits 0x3FFC000000000000
  backoffMaxMs : Nat := 60000
  silenceListenerFaults : Bool := false
  readChunkSize : Nat := 4096
deriving Repr, DecidableEq

namespace Config

def defaultReadChunk : Nat := 4096

def wrapMillis (d : Duration) : Nat := d.millis % 18446744073709551616

def objection (c : Config) : Option Failure :=
  if c.maxConnectionRetries = 0 then some (.other "max_connection_retries must be at least 1")
  else if c.requestTimeoutMs = 0 then some (.other "request_timeout_ms must be positive")
  else if !c.backoffMultiplier.isFinite || c.backoffMultiplier.ltOne then
    some (.other "backoff_multiplier must be finite and >= 1.0")
  else if c.backoffMaxMs < c.backoffBaseMs then
    some (.other "backoff_max_ms must be >= backoff_base_ms")
  else if c.readChunkSize = 0 then some (.other "read_chunk_size must be positive")
  else none

def validate (c : Config) : Except Failure Config :=
  match c.objection with
  | some e => .error e
  | none => .ok c

def requestTimeout (c : Config) : Duration := .ofMillis c.requestTimeoutMs

def backoff (c : Config) : Backoff where
  base := .ofMillis c.backoffBaseMs
  multiplier := c.backoffMultiplier
  cap := .ofMillis c.backoffMaxMs
  maxAttempts := c.maxConnectionRetries

def policy (c : Config) : FaultPolicy := if c.silenceListenerFaults then .lenient else .strict

def withRequestTimeout (c : Config) (d : Duration) : Config := { c with requestTimeoutMs := wrapMillis d }

def withMaxConnectionRetries (c : Config) (n : Nat) : Config := { c with maxConnectionRetries := n }

def withBackoff (c : Config) (base : Duration) (multiplier : Binary64) : Config :=
  { c with backoffBaseMs := wrapMillis base, backoffMultiplier := multiplier }

def withPolicy (c : Config) (p : FaultPolicy) : Config :=
  { c with silenceListenerFaults := p = .lenient }

def toValue (c : Config) : Json.Value :=
  .object [("request_timeout_ms", .ofNat c.requestTimeoutMs),
    ("max_connection_retries", .ofNat c.maxConnectionRetries),
    ("backoff_base_ms", .ofNat c.backoffBaseMs),
    ("backoff_multiplier", .number (.real c.backoffMultiplier)),
    ("backoff_max_ms", .ofNat c.backoffMaxMs),
    ("silence_listener_task_exceptions", .bool c.silenceListenerFaults),
    ("read_chunk_size", .ofNat c.readChunkSize)]

def encode (c : Config) : String := c.toValue.compact

structure Draft where
  requestTimeoutMs : Option Nat := none
  maxConnectionRetries : Option Nat := none
  backoffBaseMs : Option Nat := none
  backoffMultiplier : Option Binary64 := none
  backoffMaxMs : Option Nat := none
  silenceListenerFaults : Option Bool := none
  readChunkSize : Option Nat := none

def word64 (name : String) : Json.Decoder Nat := .natural 18446744073709551615 name

def record : Json.Record Draft Config where
  name := "ProviderConfig"
  start := {}
  fields := [
    .of "request_timeout_ms" (word64 "u64") Draft.requestTimeoutMs
      (fun a d => { d with requestTimeoutMs := some a }) true,
    .of "max_connection_retries" (.natural 4294967295 "u32") Draft.maxConnectionRetries
      (fun a d => { d with maxConnectionRetries := some a }) true,
    .of "backoff_base_ms" (word64 "u64") Draft.backoffBaseMs
      (fun a d => { d with backoffBaseMs := some a }) true,
    .of "backoff_multiplier" .real Draft.backoffMultiplier
      (fun a d => { d with backoffMultiplier := some a }) true,
    .of "backoff_max_ms" (word64 "u64") Draft.backoffMaxMs
      (fun a d => { d with backoffMaxMs := some a }) true,
    .of "silence_listener_task_exceptions" .bool Draft.silenceListenerFaults
      (fun a d => { d with silenceListenerFaults := some a }) true,
    .of "read_chunk_size" (word64 "usize") Draft.readChunkSize
      (fun a d => { d with readChunkSize := some a }) true]
  build d :=
    let c : Config := {}
    .ok {
      requestTimeoutMs := d.requestTimeoutMs.getD c.requestTimeoutMs
      maxConnectionRetries := d.maxConnectionRetries.getD c.maxConnectionRetries
      backoffBaseMs := d.backoffBaseMs.getD c.backoffBaseMs
      backoffMultiplier := d.backoffMultiplier.getD c.backoffMultiplier
      backoffMaxMs := d.backoffMaxMs.getD c.backoffMaxMs
      silenceListenerFaults := d.silenceListenerFaults.getD c.silenceListenerFaults
      readChunkSize := d.readChunkSize.getD c.readChunkSize }

def ofText (bs : Bytes) : Except Failure Config := do
  let c ← (record.decoder.parse bs).mapError .deserialization
  c.validate

def ofFile (content : Option Bytes) : Except Failure Config :=
  match content with
  | none => .error (.io .noSuchFile)
  | some bs => if (Utf8.decode? bs).isSome then ofText bs else .error (.io .notUtf8)

end Config

end SocketRpc
