import SocketRpc.Number.Rounding
/-!
Double precision numbers in exact arithmetic. A finite magnitude is a whole number of units, one
unit being the smallest positive double, so that equal numbers are equal values.
-/

namespace SocketRpc

inductive Binary64 where
  | nan
  | infinite (negative : Bool)
  | finite (negative : Bool) (units : Nat)
deriving Repr, DecidableEq

namespace Binary64

def one : Nat := 1 <<< 1074

def limit : Nat := 1 <<< 2098

def excess (units : Nat) : Nat := units.log2 + 1 - 53

def roundUnits (num den : Nat) : Nat :=
  let s := excess (num / den)
  roundDiv num (den <<< s) <<< s

def ofQuotient (negative : Bool) (num den : Nat) : Binary64 :=
  let u := roundUnits num den
  if u < limit then .finite negative u else .infinite negative

def zero : Binary64 := .finite false 0

def ofNat (n : Nat) : Binary64 := ofQuotient false (n * one) 1

def ofInt (i : Int) : Binary64 := ofQuotient (i < 0) (i.natAbs * one) 1

def ofBits (bits : UInt64) : Binary64 :=
  let n := bits.toNat
  let negative := n / 9223372036854775808 = 1
  let exponent := n / 4503599627370496 % 2048
  let fraction := n % 4503599627370496
  if exponent = 2047 then
    if fraction = 0 then .infinite negative else .nan
  else if exponent = 0 then .finite negative fraction
  else .finite negative ((4503599627370496 + fraction) <<< (exponent - 1))

def signBit (negative : Bool) : Nat := if negative then 9223372036854775808 else 0

/-- The word of a number; of all the words for `nan` the quiet one. -/
def toBits : Binary64 → UInt64
  | nan => 0x7FF8000000000000
  | infinite s => (signBit s + 0x7FF0000000000000).toUInt64
  | finite s u =>
    let magnitude :=
      if u < 4503599627370496 then u
      else
        let shift := u.log2 - 52
        shift * 4503599627370496 + (u >>> shift)
    (signBit s + magnitude).toUInt64

def neg : Binary64 → Binary64
  | nan => .nan
  | infinite s => .infinite !s
  | finite s u => .finite (!s) u

def mul : Binary64 → Binary64 → Binary64
  | nan, _ | _, nan => .nan
  | infinite s, infinite t => .infinite (s != t)
  | infinite s, finite t u | finite t u, infinite s => if u = 0 then .nan else .infinite (s != t)
  | finite s u, finite t v => ofQuotient (s != t) (u * v) one

def div : Binary64 → Binary64 → Binary64
  | nan, _ | _, nan => .nan
  | infinite _, infinite _ => .nan
  | infinite s, finite t _ => .infinite (s != t)
  | finite s _, infinite t => .finite (s != t) 0
  | finite s u, finite t v =>
    if v = 0 then if u = 0 then .nan else .infinite (s != t)
    else ofQuotient (s != t) (u * one) v

def addMagnitudes : Binary64 → Binary64 → Binary64
  | nan, _ | _, nan => .nan
  | infinite _, _ | _, infinite _ => .infinite false
  | finite _ u, finite _ v => ofQuotient false (u + v) 1

def isZero : Binary64 → Bool
  | finite _ u => u = 0
  | _ => false

def isFinite : Binary64 → Bool
  | finite _ _ => true
  | _ => false

def isInfinite : Binary64 → Bool
  | infinite _ => true
  | _ => false

def ltOne : Binary64 → Bool
  | nan => false
  | infinite s => s
  | finite s u => s || u < one

def powFrom (result base : Binary64) (e : Nat) : Binary64 :=
  let result := if e % 2 = 1 then result.mul base else result
  if h : e / 2 = 0 then result
  else powFrom result (base.mul base) (e / 2)
termination_by e
decreasing_by omega

def pow (base : Binary64) (e : Nat) : Binary64 := powFrom (ofNat 1) base e

instance : Neg Binary64 := ⟨neg⟩
instance : Mul Binary64 := ⟨mul⟩
instance : Div Binary64 := ⟨div⟩

end Binary64

end SocketRpc
