import SocketRpc.Json.Reader
/-!
Back-to-back JSON values in a stream without delimiters. What has arrived and is not yet a whole
value stays pending.
-/

namespace SocketRpc

/-- Blanks between messages: the four of JSON and the form feed. -/
def isGap (b : UInt8) : Bool := Json.Reader.isBlank b || b = 12

/-- Octets at the front of a buffer that no continuation turns into a message. -/
structure Malformed where
  offset : Nat
  flaw : Json.Flaw
deriving Repr, DecidableEq

def Malformed.message (m : Malformed) : String :=
  "malformed message at buffer offset " ++ toString m.offset ++ ": " ++ m.flaw.message

structure Framer where
  pending : Bytes := []
deriving Repr, DecidableEq

namespace Framer

def push (f : Framer) (chunk : Bytes) : Framer := ⟨f.pending ++ chunk⟩

def reset (_ : Framer) : Framer := {}

def skipGap (bs : Bytes) : Bytes := bs.dropWhile isGap

def isDelimited (b : UInt8) : Bool := b = 34 || b = 91 || b = 123

/-- What may stand directly behind a number or a word. -/
def mayFollow : Bytes → Bool
  | [] => true
  | b :: _ =>
    Json.Reader.isBlank b || b = 34 || b = 91 || b = 93 || b = 123 || b = 125 || b = 44 || b = 58

/-- One message from the front of the buffer; nothing while it is incomplete. -/
def next (f : Framer) : Except Malformed (Option Json.Value) × Framer :=
  match skipGap f.pending with
  | [] => (.ok none, {})
  | b :: rest =>
    match Json.readValue Json.Reader.maxDepth (b :: rest) with
    | .ok (v, left) =>
      if isDelimited b || mayFollow left then (.ok (some v), ⟨left⟩)
      else (.error ⟨rest.length + 1 - left.length, .trailing⟩, ⟨b :: rest⟩)
    | .error flaw => (if flaw.isEnd then .ok none else .error ⟨0, flaw⟩, ⟨b :: rest⟩)

def take : Nat → Framer → List Json.Value × Option Malformed × Framer
  | 0, f => ([], none, f)
  | n + 1, f =>
    match f.next with
    | (.ok (some v), g) =>
      let (vs, m, h) := take n g
      (v :: vs, m, h)
    | (.ok none, g) => ([], none, g)
    | (.error m, g) => ([], some m, g)

def messages (f : Framer) : List Json.Value × Option Malformed × Framer :=
  take (f.pending.length + 1) f

def drain (f : Framer) : Except Malformed (List Json.Value) × Framer :=
  match f.messages with
  | (vs, none, g) => (.ok vs, g)
  | (_, some m, g) => (.error m, g)

end Framer

end SocketRpc
