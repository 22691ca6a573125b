import SocketRpc.Json.Problem
import SocketRpc.Text.Utf8
/-!
Numbers read one octet at a time. Digits gather in a significand of 64 bits; once another digit
would overflow it, digits are dropped, those before the point counting towards the exponent.
-/

namespace SocketRpc.Json

def isDigit (b : UInt8) : Bool := 48 ≤ b && b ≤ 57

def digitOf (b : UInt8) : Nat := b.toNat - 48

def isExponentMark (b : UInt8) : Bool := b = 101 || b = 69

inductive NumberScan where
  | sign
  | zero
  | whole (n : Nat)
  | long (n dropped : Nat)
  | point (n : Nat) (e : Int)
  | fraction (n : Nat) (e : Int)
  | longFraction (n : Nat) (e : Int)
  | mark (n : Nat) (e : Int)
  | markSign (n : Nat) (e : Int) (negative : Bool)
  | exponent (n : Nat) (e : Int) (negative : Bool) (x : Nat)
  /-- an exponent so small, or a significand so zero, that the number is zero -/
  | vanished
deriving Repr, DecidableEq

namespace NumberScan

def significandLimit : Nat := 18446744073709551615
def exponentLimit : Nat := 2147483647

inductive Step where
  | more (s : NumberScan)
  | ended
  | fail (f : Flaw)
deriving Repr, DecidableEq

def afterFraction (n : Nat) (e : Int) (b : UInt8) : Step :=
  if isExponentMark b then .more (.mark n e) else .ended

def afterWhole (n : Nat) (e : Int) (b : UInt8) : Step :=
  if b = 46 then .more (.point n e) else afterFraction n e b

def addFraction (n : Nat) (e : Int) (b : UInt8) : NumberScan :=
  let m := n * 10 + digitOf b
  if significandLimit < m then .longFraction n e else .fraction m (e - 1)

def step : NumberScan → UInt8 → Step
  | sign, b =>
    if b = 48 then .more .zero
    else if isDigit b then .more (.whole (digitOf b))
    else .fail .badNumber
  | zero, b => if isDigit b then .fail .badNumber else afterWhole 0 0 b
  | whole n, b =>
    if isDigit b then
      let m := n * 10 + digitOf b
      .more (if significandLimit < m then .long n 1 else .whole m)
    else afterWhole n 0 b
  | long n k, b => if isDigit b then .more (.long n (k + 1)) else afterWhole n k b
  | point n e, b => if isDigit b then .more (addFraction n e b) else .fail .badNumber
  | fraction n e, b => if isDigit b then .more (addFraction n e b) else afterFraction n e b
  | longFraction n e, b => if isDigit b then .more (.longFraction n e) else afterFraction n e b
  | mark n e, b =>
    if b = 43 then .more (.markSign n e false)
    else if b = 45 then .more (.markSign n e true)
    else if isDigit b then .more (.exponent n e false (digitOf b))
    else .fail .badNumber
  | markSign n e s, b =>
    if isDigit b then .more (.exponent n e s (digitOf b)) else .fail .badNumber
  | exponent n e s x, b =>
    if isDigit b then
      let y := x * 10 + digitOf b
      if exponentLimit < y then
        if n ≠ 0 ∧ s = false then .fail .numberRange else .more .vanished
      else .more (.exponent n e s y)
    else .ended
  | vanished, b => if isDigit b then .more .vanished else .ended

def isComplete : NumberScan → Bool
  | sign | point _ _ | mark _ _ | markSign _ _ _ => false
  | _ => true

def powerOfTen (n : Nat) : Binary64 := .ofNat (Nat.pow 10 n)

def shrink : Nat → Binary64 → Binary64
  | 0, f => f
  | k + 1, f => if f.isZero then f else shrink k (f / powerOfTen 308)

def assemble (n : Nat) (e : Int) : Except Flaw Binary64 :=
  let f := Binary64.ofNat n
  if 308 < e then
    if f.isZero then .ok f else .error .numberRange
  else if 0 ≤ e then
    let g := f * powerOfTen e.toNat
    if g.isInfinite then .error .numberRange else .ok g
  else
    let k := ((-e).toNat - 1) / 308
    let f := shrink k f
    if f.isZero then .ok f else .ok (f / powerOfTen ((-e).toNat - 308 * k))

def signed (negative : Bool) (f : Binary64) : Number := .real (if negative then -f else f)

def ofParts (negative : Bool) (n : Nat) (e : Int) : Except Flaw Number :=
  (assemble n e).map (signed negative)

def ofWhole (negative : Bool) (n : Nat) : Number :=
  if negative = false then .integer n
  else if n = 0 ∨ 9223372036854775808 < n then signed true (.ofNat n)
  else .integer (-n)

def result (negative : Bool) : NumberScan → Except Flaw Number
  | zero => .ok (ofWhole negative 0)
  | whole n => .ok (ofWhole negative n)
  | long n k => ofParts negative n k
  | fraction n e | longFraction n e => ofParts negative n e
  | exponent n e s x => ofParts negative n (if s then e - x else e + x)
  | vanished => .ok (signed negative .zero)
  | _ => .error .badNumber

end NumberScan

end SocketRpc.Json
