import SocketRpc.Number.Binary64
/-!
The fewest decimal digits that read back as a given double, and of those the nearest to it.
-/

namespace SocketRpc.Shortest

structure Decimal where
  digits : Nat
  exponent : Int
deriving Repr, DecidableEq

def digitCount (n : Nat) : Nat := (Nat.toDigits 10 n).length

def leading (units : Nat) : Int :=
  (digitCount (units * Nat.pow 10 324 / Binary64.one) : Int) - 325

/-- Numbers to be compared are multiplied by `scale`, which makes whole every decimal in question. -/
def scale : Nat := Nat.pow 10 400

def scaled (d : Decimal) : Nat := d.digits * Nat.pow 10 (d.exponent + 400).toNat * Binary64.one

/-- The ends of the interval of reals that round to a magnitude, times four. -/
def bounds (units : Nat) : Nat × Nat :=
  let ulp := 1 <<< Binary64.excess units
  let below := if units = 4503599627370496 * ulp ∧ 1 < ulp then ulp else 2 * ulp
  (4 * units - below, 4 * units + 2 * ulp)

def readsBack (units : Nat) (d : Decimal) : Bool :=
  let (lo, hi) := bounds units
  let x := 4 * scaled d
  let even := (units >>> Binary64.excess units) % 2 = 0
  if even then lo * scale ≤ x && x ≤ hi * scale else lo * scale < x && x < hi * scale

def neighbours (units : Nat) (exponent : Int) : Decimal × Decimal :=
  let step := Nat.pow 10 (exponent + 400).toNat * Binary64.one
  let n := units * scale / step
  (⟨n, exponent⟩, ⟨n + 1, exponent⟩)

def nearest (units : Nat) (low high : Decimal) : Decimal :=
  let x := units * scale
  let down := x - scaled low
  let up := scaled high - x
  if down < up then low
  else if up < down then high
  else if low.digits % 2 = 0 then low else high

def ofExponent? (units : Nat) (exponent : Int) : Option Decimal :=
  let (low, high) := neighbours units exponent
  match readsBack units low && 0 < low.digits, readsBack units high with
  | true, true => some (nearest units low high)
  | true, false => some low
  | false, true => some high
  | false, false => none

def search (units : Nat) (top : Int) : Nat → Nat → Decimal
  | 0, n => (neighbours units (top - n)).1
  | more + 1, n =>
    match ofExponent? units (top - n) with
    | some d => d
    | none => search units top more (n + 1)

def decimal (units : Nat) : Decimal := search units (leading units) 17 0

def scientific (units : Nat) : List Char × Int :=
  let d := decimal units
  let ds := Nat.toDigits 10 d.digits
  let first := d.exponent + ds.length - 1
  ((ds.reverse.dropWhile (· = '0')).reverse, first)

end SocketRpc.Shortest
