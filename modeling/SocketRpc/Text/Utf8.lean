/-! Text as octets: the encoding of a character sequence and its partial inverse. -/

namespace SocketRpc

abbrev Bytes := List UInt8

namespace Utf8

def encodeChar (c : Char) : Bytes :=
  let n := c.toNat
  if n < 0x80 then [n.toUInt8]
  else if n < 0x800 then [(0xC0 + n / 64).toUInt8, (0x80 + n % 64).toUInt8]
  else if n < 0x10000 then
    [(0xE0 + n / 4096).toUInt8, (0x80 + n / 64 % 64).toUInt8, (0x80 + n % 64).toUInt8]
  else
    [(0xF0 + n / 262144).toUInt8, (0x80 + n / 4096 % 64).toUInt8, (0x80 + n / 64 % 64).toUInt8,
      (0x80 + n % 64).toUInt8]

def encode (cs : List Char) : Bytes := cs.flatMap encodeChar

def isTail (b : UInt8) : Bool := 0x80 ≤ b && b < 0xC0

def tail (b : UInt8) : Nat := b.toNat % 64

def decode? : Bytes → Option (List Char)
  | [] => some []
  | a :: rest =>
    if a < 0x80 then (decode? rest).map (Char.ofNat a.toNat :: ·)
    else
      match rest with
      | [] => none
      | b :: rest =>
        if !isTail b then none
        else if 0xC2 ≤ a && a < 0xE0 then
          (decode? rest).map (Char.ofNat (a.toNat % 32 * 64 + tail b) :: ·)
        else
          match rest with
          | [] => none
          | c :: rest =>
            if !isTail c then none
            else if 0xE0 ≤ a && a < 0xF0 then
              let n := a.toNat % 16 * 4096 + tail b * 64 + tail c
              if n < 0x800 || (0xD800 ≤ n && n < 0xE000) then none
              else (decode? rest).map (Char.ofNat n :: ·)
            else
              match rest with
              | [] => none
              | d :: rest =>
                if !isTail d then none
                else if 0xF0 ≤ a && a < 0xF5 then
                  let n := a.toNat % 8 * 262144 + tail b * 4096 + tail c * 64 + tail d
                  if n < 0x10000 || 0x110000 ≤ n then none
                  else (decode? rest).map (Char.ofNat n :: ·)
                else none

def ofText (s : String) : Bytes := encode s.toList

def toText? (bs : Bytes) : Option String := (decode? bs).map String.ofList

end Utf8

end SocketRpc
