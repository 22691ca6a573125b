import SocketRpc.Json.Reader.Number
import SocketRpc.Json.Reader.Text
/-!
JSON text read one octet at a time: a machine with a stack of open containers. The octets behind a
value stay unread, and a text that ends too early is told from one that no continuation can mend.
-/

namespace SocketRpc.Json

inductive Frame where
  | array (rev : List Value)
  | object (members : List (String × Value)) (key : String)
deriving Repr, DecidableEq

inductive Mode where
  | value
  | firstItem
  | item
  | firstKey
  | key
  | colon
  | after
  | word (rest : Bytes) (v : Value)
  | number (negative : Bool) (s : NumberScan)
  | text (s : TextScan)
  | keyText (s : TextScan)
deriving Repr, DecidableEq

structure Reader where
  mode : Mode := .value
  stack : List Frame := []
deriving Repr, DecidableEq

namespace Reader

inductive Step where
  | more (r : Reader)
  /-- the value is complete; `used` tells whether the octet belongs to it -/
  | done (v : Value) (used : Bool)
  | fail (f : Flaw)
deriving Repr, DecidableEq

def isBlank (b : UInt8) : Bool := b = 32 || b = 10 || b = 9 || b = 13

def maxDepth : Nat := 127

def deliver (v : Value) : List Frame → Step
  | [] => .done v true
  | .array rev :: stack => .more { mode := .after, stack := .array (v :: rev) :: stack }
  | .object members key :: stack =>
    .more { mode := .after, stack := .object (insertMember key v members) "" :: stack }

def openFrame (room : Nat) (frame : Frame) (mode : Mode) (stack : List Frame) : Step :=
  if room ≤ stack.length then .fail .tooDeep else .more { mode, stack := frame :: stack }

def begin (room : Nat) (stack : List Frame) (b : UInt8) : Step :=
  let go (mode : Mode) : Step := .more { mode, stack }
  if b = 34 then go (.text {})
  else if b = 91 then openFrame room (.array []) .firstItem stack
  else if b = 123 then openFrame room (.object [] "") .firstKey stack
  else if b = 45 then go (.number true .sign)
  else if b = 48 then go (.number false .zero)
  else if isDigit b then go (.number false (.whole (digitOf b)))
  else if b = 110 then go (.word (Utf8.ofText "ull") .null)
  else if b = 116 then go (.word (Utf8.ofText "rue") (.bool true))
  else if b = 102 then go (.word (Utf8.ofText "alse") (.bool false))
  else .fail .noValue

def separate (stack : List Frame) (b : UInt8) : Step :=
  match stack with
  | [] => .fail .trailing
  | .array rev :: rest =>
    if isBlank b then .more { mode := .after, stack }
    else if b = 44 then .more { mode := .item, stack }
    else if b = 93 then deliver (.array rev.reverse) rest
    else .fail .listSeparator
  | .object members _ :: rest =>
    if isBlank b then .more { mode := .after, stack }
    else if b = 44 then .more { mode := .key, stack }
    else if b = 125 then deliver (.object members) rest
    else .fail .objectSeparator

def named (key : String) : List Frame → List Frame
  | .object members _ :: stack => .object members key :: stack
  | stack => stack

def endNumber (stack : List Frame) (v : Value) (b : UInt8) : Step :=
  match deliver v stack with
  | .more r => separate r.stack b
  | _ => .done v false

def step (room : Nat) (r : Reader) (b : UInt8) : Step :=
  match r.mode with
  | .value => if isBlank b then .more r else begin room r.stack b
  | .firstItem =>
    if isBlank b then .more r
    else if b = 93 then deliver (.array []) r.stack.tail
    else begin room r.stack b
  | .item =>
    if isBlank b then .more r
    else if b = 93 then .fail .trailingComma
    else begin room r.stack b
  | .firstKey =>
    if isBlank b then .more r
    else if b = 34 then .more { r with mode := .keyText {} }
    else if b = 125 then deliver (.object []) r.stack.tail
    else .fail .keyNotText
  | .key =>
    if isBlank b then .more r
    else if b = 34 then .more { r with mode := .keyText {} }
    else if b = 125 then .fail .trailingComma
    else .fail .keyNotText
  | .colon =>
    if isBlank b then .more r
    else if b = 58 then .more { r with mode := .value }
    else .fail .noColon
  | .after => separate r.stack b
  | .word rest v =>
    match rest with
    | [] => .fail .badWord
    | c :: rest =>
      if b ≠ c then .fail .badWord
      else if rest = [] then deliver v r.stack
      else .more { r with mode := .word rest v }
  | .number negative s =>
    match s.step b with
    | .more s => .more { r with mode := .number negative s }
    | .fail f => .fail f
    | .ended =>
      match s.result negative with
      | .error f => .fail f
      | .ok n => endNumber r.stack (.number n) b
  | .text s =>
    match s.step b with
    | .more s => .more { r with mode := .text s }
    | .fail f => .fail f
    | .done t => deliver (.text t) r.stack
  | .keyText s =>
    match s.step b with
    | .more s => .more { r with mode := .keyText s }
    | .fail f => .fail f
    | .done t => .more { mode := .colon, stack := named t r.stack }

def endOf : List Frame → Flaw
  | [] => .endOfValue
  | .array _ :: _ => .endOfList
  | .object _ _ :: _ => .endOfObject

def finish (r : Reader) : Except Flaw Value :=
  match r.mode with
  | .value | .item | .key | .word _ _ => .error .endOfValue
  | .firstItem | .firstKey | .colon | .after => .error (endOf r.stack)
  | .number negative s =>
    if s.isComplete then
      match s.result negative with
      | .error f => .error f
      | .ok n => if r.stack = [] then .ok (.number n) else .error (endOf r.stack)
    else .error .endOfValue
  | .text _ | .keyText _ => .error .endOfText

def run (room : Nat) (r : Reader) : Bytes → Except Flaw (Value × Bytes)
  | [] => r.finish.map (·, [])
  | b :: rest =>
    match r.step room b with
    | .more r => run room r rest
    | .done v true => .ok (v, rest)
    | .done v false => .ok (v, b :: rest)
    | .fail f => .error f

end Reader

def skipBlanks (bs : Bytes) : Bytes := bs.dropWhile Reader.isBlank

def readValue (room : Nat) (bs : Bytes) : Except Flaw (Value × Bytes) := Reader.run room {} bs

def parse (bs : Bytes) : Except Flaw Value := do
  let (v, rest) ← readValue Reader.maxDepth bs
  if skipBlanks rest = [] then .ok v else .error .trailing

end SocketRpc.Json
