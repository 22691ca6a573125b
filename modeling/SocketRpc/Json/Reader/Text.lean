import SocketRpc.Json.Problem
import SocketRpc.Text.Utf8
namespace SocketRpc.Json

inductive EscapeScan where
  | none
  | slash
  | hex (high : Option Nat) (seen : Bytes)
  /-- a leading surrogate, which needs another escape -/
  | pairSlash (high : Nat)
  | pairMark (high : Nat)
deriving Repr, DecidableEq

structure TextScan where
  rev : Bytes := []
  escape : EscapeScan := .none
deriving Repr, DecidableEq

namespace TextScan

def hexValue? (b : UInt8) : Option Nat :=
  if 48 ≤ b && b ≤ 57 then some (b.toNat - 48)
  else if 97 ≤ b && b ≤ 102 then some (b.toNat - 87)
  else if 65 ≤ b && b ≤ 70 then some (b.toNat - 55)
  else Option.none

def hexNumber? : Bytes → Option Nat
  | [] => some 0
  | b :: rest => do return (← hexNumber? rest) * 16 + (← hexValue? b)

def plainEscape? (b : UInt8) : Option UInt8 :=
  if b = 34 || b = 92 || b = 47 then some b
  else if b = 98 then some 8
  else if b = 102 then some 12
  else if b = 110 then some 10
  else if b = 114 then some 13
  else if b = 116 then some 9
  else Option.none

inductive Step where
  | more (s : TextScan)
  | done (text : String)
  | fail (f : Flaw)
deriving Repr, DecidableEq

def push (s : TextScan) (b : UInt8) : TextScan := { rev := b :: s.rev }

def pushNumber (s : TextScan) (n : Nat) : TextScan :=
  { rev := (Utf8.encodeChar (Char.ofNat n)).reverse ++ s.rev }

def isLeading (n : Nat) : Bool := 0xD800 ≤ n && n < 0xDC00
def isTrailing (n : Nat) : Bool := 0xDC00 ≤ n && n < 0xE000

def unescape (s : TextScan) (high : Option Nat) (n : Nat) : Step :=
  match high with
  | Option.none =>
    if isTrailing n then .fail .loneSurrogate
    else if isLeading n then .more { s with escape := .pairSlash n }
    else .more (s.pushNumber n)
  | some h =>
    if isTrailing n then .more (s.pushNumber ((h - 0xD800) * 1024 + (n - 0xDC00) + 0x10000))
    else .fail .loneSurrogate

def step (s : TextScan) (b : UInt8) : Step :=
  match s.escape with
  | .none =>
    if b = 34 then
      match Utf8.toText? s.rev.reverse with
      | some t => .done t
      | Option.none => .fail .notUnicode
    else if b = 92 then .more { s with escape := .slash }
    else if b < 32 then .fail .controlCharacter
    else .more (s.push b)
  | .slash =>
    if b = 117 then .more { s with escape := .hex Option.none [] }
    else
      match plainEscape? b with
      | some c => .more (s.push c)
      | Option.none => .fail .badEscape
  | .hex high seen =>
    if seen.length < 3 then .more { s with escape := .hex high (b :: seen) }
    else
      match hexNumber? (b :: seen) with
      | some n => s.unescape high n
      | Option.none => .fail .badEscape
  | .pairSlash high => if b = 92 then .more { s with escape := .pairMark high } else .fail .endOfEscape
  | .pairMark high =>
    if b = 117 then .more { s with escape := .hex (some high) [] } else .fail .endOfEscape

end TextScan

end SocketRpc.Json
