import SocketRpc.Json.Reader
/-!
Values passed over without being kept: the grammar is checked, but neither depth nor the range of
numbers nor the meaning of texts.
-/

namespace SocketRpc.Json

abbrev IsObject := Bool

inductive NumberSkim where
  | sign
  | zero
  | whole
  | point
  | fraction
  | mark
  | markSign
  | exponent
deriving Repr, DecidableEq

namespace NumberSkim

def afterFraction (b : UInt8) : Option NumberSkim := if isExponentMark b then some .mark else none

def afterWhole (b : UInt8) : Option NumberSkim := if b = 46 then some .point else afterFraction b

def digitElse (b : UInt8) (s : NumberSkim) : Except Flaw (Option NumberSkim) :=
  if isDigit b then .ok (some s) else .error .badNumber

/-- Nothing where the number has ended before the octet. -/
def step : NumberSkim → UInt8 → Except Flaw (Option NumberSkim)
  | sign, b => if b = 48 then .ok (some zero) else digitElse b whole
  | zero, b => if isDigit b then .error .badNumber else .ok (afterWhole b)
  | whole, b => .ok (if isDigit b then some whole else afterWhole b)
  | point, b => digitElse b fraction
  | fraction, b => .ok (if isDigit b then some fraction else afterFraction b)
  | mark, b => if b = 43 || b = 45 then .ok (some markSign) else digitElse b exponent
  | markSign, b => digitElse b exponent
  | exponent, b => .ok (if isDigit b then some exponent else none)

def isComplete : NumberSkim → Bool
  | zero | whole | fraction | exponent => true
  | _ => false

end NumberSkim

inductive TextSkim where
  | plain
  | slash
  | hex (seen : Bytes)
deriving Repr, DecidableEq

def TextSkim.step : TextSkim → UInt8 → Except Flaw (Option TextSkim)
  | plain, b =>
    if b = 34 then .ok none
    else if b = 92 then .ok (some slash)
    else if b < 32 then .error .controlCharacter
    else .ok (some plain)
  | slash, b =>
    if b = 117 then .ok (some (hex []))
    else if (TextScan.plainEscape? b).isSome then .ok (some plain)
    else .error .badEscape
  | hex seen, b =>
    if seen.length < 3 then .ok (some (hex (b :: seen)))
    else if (TextScan.hexNumber? (b :: seen)).isSome then .ok (some plain)
    else .error .badEscape

inductive SkimMode where
  | value
  | firstItem
  | firstKey
  | key
  | colon
  | after
  | word (rest : Bytes)
  | number (s : NumberSkim)
  | text (s : TextSkim)
  | keyText (s : TextSkim)
deriving Repr, DecidableEq

structure Skimmer where
  mode : SkimMode := .value
  stack : List IsObject := []
deriving Repr, DecidableEq

namespace Skimmer

inductive Step where
  | more (s : Skimmer)
  | done (used : Bool)
  | fail (f : Flaw)
deriving Repr, DecidableEq

def close : List IsObject → Step
  | [] => .done true
  | stack => .more { mode := .after, stack }

def begin (stack : List IsObject) (b : UInt8) : Step :=
  let go (mode : SkimMode) : Step := .more { mode, stack }
  if b = 34 then go (.text .plain)
  else if b = 91 then .more { mode := .firstItem, stack := false :: stack }
  else if b = 123 then .more { mode := .firstKey, stack := true :: stack }
  else if b = 45 then go (.number .sign)
  else if b = 48 then go (.number .zero)
  else if isDigit b then go (.number .whole)
  else if b = 110 then go (.word (Utf8.ofText "ull"))
  else if b = 116 then go (.word (Utf8.ofText "rue"))
  else if b = 102 then go (.word (Utf8.ofText "alse"))
  else .fail .noValue

def separate (stack : List IsObject) (b : UInt8) : Step :=
  match stack with
  | [] => .done false
  | isObject :: rest =>
    if Reader.isBlank b then .more { mode := .after, stack }
    else if b = 44 then .more { mode := if isObject then .key else .value, stack }
    else if b = (if isObject then 125 else 93) then close rest
    else .fail (if isObject then .objectSeparator else .listSeparator)

def key (s : Skimmer) (b : UInt8) : Step :=
  if b = 34 then .more { s with mode := .keyText .plain } else .fail .keyNotText

def step (s : Skimmer) (b : UInt8) : Step :=
  match s.mode with
  | .value => if Reader.isBlank b then .more s else begin s.stack b
  | .firstItem =>
    if Reader.isBlank b then .more s
    else if b = 93 then close s.stack.tail
    else begin s.stack b
  | .firstKey =>
    if Reader.isBlank b then .more s
    else if b = 125 then close s.stack.tail
    else s.key b
  | .key => if Reader.isBlank b then .more s else s.key b
  | .colon =>
    if Reader.isBlank b then .more s
    else if b = 58 then .more { s with mode := .value }
    else .fail .noColon
  | .after => separate s.stack b
  | .word rest =>
    match rest with
    | [] => .fail .badWord
    | c :: rest =>
      if b ≠ c then .fail .badWord
      else if rest = [] then close s.stack
      else .more { s with mode := .word rest }
  | .number n =>
    match n.step b with
    | .ok (some n) => .more { s with mode := .number n }
    | .ok none => separate s.stack b
    | .error f => .fail f
  | .text t =>
    match t.step b with
    | .ok (some t) => .more { s with mode := .text t }
    | .ok none => close s.stack
    | .error f => .fail f
  | .keyText t =>
    match t.step b with
    | .ok (some t) => .more { s with mode := .keyText t }
    | .ok none => .more { s with mode := .colon }
    | .error f => .fail f

def endOf : List IsObject → Flaw
  | true :: _ => .endOfObject
  | _ => .endOfList

def finish (s : Skimmer) : Option Flaw :=
  match s.mode with
  | .value | .word _ => some .endOfValue
  | .firstItem | .after => some (endOf s.stack)
  | .firstKey | .key | .colon => some .endOfObject
  | .number n =>
    if n.isComplete then if s.stack = [] then none else some (endOf s.stack) else some .badNumber
  | .text _ | .keyText _ => some .endOfText

def run (s : Skimmer) : Bytes → Except Flaw Bytes
  | [] =>
    match s.finish with
    | none => .ok []
    | some f => .error f
  | b :: rest =>
    match s.step b with
    | .more s => run s rest
    | .done true => .ok rest
    | .done false => .ok (b :: rest)
    | .fail f => .error f

end Skimmer

def skipValue (bs : Bytes) : Except Flaw Bytes := Skimmer.run {} bs

end SocketRpc.Json
