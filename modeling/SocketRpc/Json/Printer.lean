import SocketRpc.Json.Value
import SocketRpc.Number.Shortest
/-! JSON text of a value: the compact form without blanks and the indented form. -/

namespace SocketRpc.Json

/-- Decimals whose leading digit has an exponent in this range are written without `e`. -/
def positional (exponent : Int) : Bool := -5 ≤ exponent && exponent ≤ 15

def zeros (n : Nat) : List Char := List.replicate n '0'

def realChars (digits : List Char) (exponent : Int) : List Char :=
  if positional exponent then
    if exponent < 0 then '0' :: '.' :: zeros (-exponent - 1).toNat ++ digits
    else
      let n := exponent.toNat + 1
      if digits.length ≤ n then digits ++ zeros (n - digits.length) ++ ['.', '0']
      else digits.take n ++ '.' :: digits.drop n
  else
    let mantissa := match digits with
      | d :: e :: rest => d :: '.' :: e :: rest
      | ds => ds
    let sign := if exponent < 0 then '-' else '+'
    mantissa ++ 'e' :: sign :: Nat.toDigits 10 exponent.natAbs

namespace Number

def chars : Number → List Char
  | .integer i => if i < 0 then '-' :: Nat.toDigits 10 i.natAbs else Nat.toDigits 10 i.natAbs
  | .real (.finite negative units) =>
    let body := if units = 0 then ['0', '.', '0']
      else realChars (Shortest.scientific units).1 (Shortest.scientific units).2
    if negative then '-' :: body else body
  | .real _ => "null".toList

end Number

def hexDigit (n : Nat) : Char := if n < 10 then Char.ofNat (48 + n) else Char.ofNat (87 + n)

def escapeChar (c : Char) : List Char :=
  if c = '"' then ['\\', '"']
  else if c = '\\' then ['\\', '\\']
  else if c = '\n' then ['\\', 'n']
  else if c = '\r' then ['\\', 'r']
  else if c = '\t' then ['\\', 't']
  else if c.toNat = 8 then ['\\', 'b']
  else if c.toNat = 12 then ['\\', 'f']
  else if c.toNat < 32 then ['\\', 'u', '0', '0', hexDigit (c.toNat / 16), hexDigit (c.toNat % 16)]
  else [c]

def quoteChars (s : String) : List Char := '"' :: s.toList.flatMap escapeChar ++ ['"']

namespace Value

mutual

def chars : Value → List Char
  | null => "null".toList
  | bool true => "true".toList
  | bool false => "false".toList
  | number n => n.chars
  | text s => quoteChars s
  | array [] => ['[', ']']
  | array (v :: rest) => '[' :: v.chars ++ restItems rest
  | object [] => ['{', '}']
  | object ((k, v) :: rest) => '{' :: quoteChars k ++ ':' :: v.chars ++ restMembers rest

def restItems : List Value → List Char
  | [] => [']']
  | v :: rest => ',' :: v.chars ++ restItems rest

def restMembers : List (String × Value) → List Char
  | [] => ['}']
  | (k, v) :: rest => ',' :: quoteChars k ++ ':' :: v.chars ++ restMembers rest

end

def compact (v : Value) : String := String.ofList v.chars

def indent (depth : Nat) : List Char := '\n' :: List.replicate (2 * depth) ' '

mutual

def prettyChars (depth : Nat) : Value → List Char
  | array [] => ['[', ']']
  | array (v :: rest) =>
    '[' :: indent (depth + 1) ++ v.prettyChars (depth + 1) ++ prettyRestItems depth rest
  | object [] => ['{', '}']
  | object ((k, v) :: rest) =>
    '{' :: indent (depth + 1) ++ quoteChars k ++ ':' :: ' ' :: v.prettyChars (depth + 1) ++
      prettyRestMembers depth rest
  | v => v.chars

def prettyRestItems (depth : Nat) : List Value → List Char
  | [] => indent depth ++ [']']
  | v :: rest => ',' :: indent (depth + 1) ++ v.prettyChars (depth + 1) ++ prettyRestItems depth rest

def prettyRestMembers (depth : Nat) : List (String × Value) → List Char
  | [] => indent depth ++ ['}']
  | (k, v) :: rest =>
    ',' :: indent (depth + 1) ++ quoteChars k ++ ':' :: ' ' :: v.prettyChars (depth + 1) ++
      prettyRestMembers depth rest

end

def pretty (v : Value) : String := String.ofList (v.prettyChars 0)

end Value

end SocketRpc.Json
