import SocketRpc.Number.Binary64
namespace SocketRpc

structure Duration where
  nanos : Nat
deriving Repr, DecidableEq

namespace Duration

def perSecond : Nat := 1000000000
def perMilli : Nat := 1000000

def limit : Nat := 18446744073709551616 * perSecond

def ofParts (seconds nanos : Nat) : Duration := ⟨seconds * perSecond + nanos⟩
def ofMillis (ms : Nat) : Duration := ⟨ms * perMilli⟩

def seconds (d : Duration) : Nat := d.nanos / perSecond
def subsecond (d : Duration) : Nat := d.nanos % perSecond
def millis (d : Duration) : Nat := d.nanos / perMilli

def millisUp (d : Duration) : Nat := (d.nanos + (perMilli - 1)) / perMilli

def toSeconds (d : Duration) : Binary64 :=
  (Binary64.ofNat d.seconds).addMagnitudes (Binary64.ofNat d.subsecond / Binary64.ofNat perSecond)

def ofSeconds? : Binary64 → Option Duration
  | .finite negative units =>
    let n := roundDiv (units * perSecond) Binary64.one
    if negative && 0 < units then none
    else if n < limit then some ⟨n⟩
    else none
  | _ => none

def min (a b : Duration) : Duration := if b.nanos < a.nanos then b else a

def fraction (places n : Nat) : List Char :=
  let ds := Nat.toDigits 10 n
  let ds := List.replicate (places - ds.length) '0' ++ ds
  (ds.reverse.dropWhile (· = '0')).reverse

def decimal (whole places rest : Nat) (unit : String) : String :=
  let tail := if rest = 0 then "" else "." ++ String.ofList (fraction places rest)
  toString whole ++ tail ++ unit

def text (d : Duration) : String :=
  if perSecond ≤ d.nanos then decimal d.seconds 9 d.subsecond "s"
  else if perMilli ≤ d.nanos then decimal (d.nanos / perMilli) 6 (d.nanos % perMilli) "ms"
  else if 1000 ≤ d.nanos then decimal (d.nanos / 1000) 3 (d.nanos % 1000) "µs"
  else decimal d.nanos 0 0 "ns"

end Duration

end SocketRpc
