import SocketRpc.Json.Skimmer
/-!
Typed reading of JSON, from a value or directly from text. From text the first offence counts,
whether it is against the grammar or against the wanted form.
-/

namespace SocketRpc.Json

structure Decoder (α : Type) where
  ofValue : Value → Except Mismatch α
  /-- `room` is the number of containers that may still be opened. -/
  ofText : (room : Nat) → Bytes → Except Problem (α × Bytes)

def flawed {α : Type} (r : Except Flaw α) : Except Problem α := r.mapError .flaw

def mismatched {α : Type} (r : Except Mismatch α) : Except Problem α := r.mapError .mismatch

def readFound (bs : Bytes) : Except Flaw (Found × Bytes) :=
  match skipBlanks bs with
  | [] => .error .endOfValue
  | b :: rest =>
    if b = 91 then .ok (.array, b :: rest)
    else if b = 123 then .ok (.object, b :: rest)
    else (readValue Reader.maxDepth (b :: rest)).map fun (v, left) => (Found.ofValue v, left)

namespace Decoder

variable {α : Type}

def scalar (accept : Found → Except Mismatch α) : Decoder α where
  ofValue v := accept (Found.ofValue v)
  ofText _ bs := do
    let (found, rest) ← flawed (readFound bs)
    let a ← mismatched (accept found)
    return (a, rest)

def text : Decoder String :=
  scalar fun
    | .text s => .ok s
    | found => .error (.wrongType found "a string")

def bool : Decoder Bool :=
  scalar fun
    | .bool b => .ok b
    | found => .error (.wrongType found "a boolean")

def integer (low high : Int) (name : String) : Decoder Int :=
  scalar fun
    | .number (.integer i) => if low ≤ i ∧ i ≤ high then .ok i else .error (.wrongValue i name)
    | found => .error (.wrongType found name)

def natural (high : Nat) (name : String) : Decoder Nat :=
  let d := integer 0 high name
  { ofValue := fun v => (d.ofValue v).map Int.toNat
    ofText := fun room bs => (d.ofText room bs).map fun (i, rest) => (i.toNat, rest) }

def real : Decoder Binary64 :=
  scalar fun
    | .number (.integer i) => .ok (.ofInt i)
    | .number (.real x) => .ok x
    | found => .error (.wrongType found "f64")

def value : Decoder Value where
  ofValue := .ok
  ofText room bs := flawed (readValue room bs)

def ofValueOnly (f : Value → Except Mismatch α) : Decoder α where
  ofValue := f
  ofText room bs := do
    let (v, rest) ← flawed (readValue room bs)
    let a ← mismatched (f v)
    return (a, rest)

def optional (d : Decoder α) : Decoder (Option α) where
  ofValue
    | .null => .ok none
    | v => (d.ofValue v).map some
  ofText room bs :=
    match skipBlanks bs with
    | 110 :: rest => (flawed (readValue room (110 :: rest))).map fun (_, left) => (none, left)
    | rest => (d.ofText room rest).map fun (a, left) => (some a, left)

def values : Decoder (List Value) where
  ofValue
    | .array vs => .ok vs
    | v => .error (.wrongType (Found.ofValue v) "a sequence")
  ofText room bs := do
    match ← flawed (readFound bs) with
    | (.array, rest) =>
      match ← flawed (readValue room rest) with
      | (.array vs, left) => return (vs, left)
      | (v, _) => mismatched (.error (.wrongType (Found.ofValue v) "a sequence"))
    | (found, _) => mismatched (.error (.wrongType found "a sequence"))

def parse (d : Decoder α) (bs : Bytes) : Except Problem α := do
  let (a, rest) ← d.ofText Reader.maxDepth bs
  if skipBlanks rest = [] then return a else .error (.flaw .trailing)

end Decoder

def readColon (bs : Bytes) : Except Flaw Bytes :=
  match skipBlanks bs with
  | [] => .error .endOfObject
  | b :: rest => if b = 58 then .ok rest else .error .noColon

def seekKey (first : Bool) (bs : Bytes) : Except Flaw (Bool × Bytes) :=
  match skipBlanks bs with
  | [] => .error .endOfObject
  | b :: rest =>
    if b = 125 then .ok (false, rest)
    else if first then
      if b = 34 then .ok (true, b :: rest) else .error .keyNotText
    else if b = 44 then
      match skipBlanks rest with
      | [] => .error .endOfValue
      | c :: more =>
        if c = 34 then .ok (true, c :: more)
        else if c = 125 then .error .trailingComma
        else .error .keyNotText
    else .error .objectSeparator

/-- The start of the next item, or nothing at the closing bracket, which stays unread. -/
def seekItem (first : Bool) (bs : Bytes) : Except Flaw (Option Bytes) :=
  match skipBlanks bs with
  | [] => .error .endOfList
  | b :: rest =>
    if b = 93 then .ok none
    else if first then .ok (some (b :: rest))
    else if b = 44 then
      match skipBlanks rest with
      | [] => .error .endOfValue
      | c :: more => if c = 93 then .error .trailingComma else .ok (some (c :: more))
    else .error .listSeparator

def closeList (bs : Bytes) : Except Flaw Bytes :=
  match skipBlanks bs with
  | [] => .error .endOfList
  | b :: rest =>
    if b = 93 then .ok rest
    else if b = 44 ∧ (skipBlanks rest).head? = some 93 then .error .trailingComma
    else .error .trailing

section members

variable {σ : Type}

def readMembersWithin (handle : String → σ → Bytes → Except Problem (σ × Bytes)) :
    Nat → Bool → σ → Bytes → Except Problem (σ × Bytes)
  | 0, _, _, _ => .error (.flaw .endOfObject)
  | n + 1, first, s, bs => do
    match ← flawed (seekKey first bs) with
    | (false, rest) => return (s, rest)
    | (true, quoted) =>
      match ← flawed (readValue Reader.maxDepth quoted) with
      | (.text k, rest) =>
        let (s, rest) ← handle k s rest
        readMembersWithin handle n false s rest
      | _ => .error (.flaw .keyNotText)

def readMembers (handle : String → σ → Bytes → Except Problem (σ × Bytes)) (s : σ) (bs : Bytes) :
    Except Problem (σ × Bytes) :=
  readMembersWithin handle (bs.length + 1) true s bs

end members

structure Field (σ : Type) where
  name : String
  isSet : σ → Bool
  setValue : Value → σ → Except Mismatch σ
  setText : Nat → Bytes → σ → Except Problem (σ × Bytes)
  mayLack : Bool

def Field.of {σ α : Type} (name : String) (d : Decoder α) (get : σ → Option α) (set : α → σ → σ)
    (mayLack : Bool) : Field σ where
  name
  isSet s := (get s).isSome
  setValue v s := (d.ofValue v).map (set · s)
  setText room bs s := (d.ofText room bs).map fun (a, rest) => (set a s, rest)
  mayLack

/-- An object with known fields, or the list of their values in order; other members are ignored. -/
structure Record (σ α : Type) where
  name : String
  fields : List (Field σ)
  start : σ
  build : σ → Except Mismatch α

namespace Record

variable {σ α : Type}

def field? (r : Record σ α) (k : String) : Option (Field σ) := r.fields.find? (·.name = k)

def wanted (r : Record σ α) : String := "struct " ++ r.name

def tooShort (r : Record σ α) (i : Nat) : Mismatch :=
  .wrongLength i (r.wanted ++ " with " ++ toString r.fields.length ++
    (if r.fields.length = 1 then " element" else " elements"))

def ofMembers (r : Record σ α) : List (String × Value) → σ → Except Mismatch σ
  | [], s => .ok s
  | (k, v) :: rest, s =>
    match r.field? k with
    | none => r.ofMembers rest s
    | some f => do
      if f.isSet s then .error (.duplicateField f.name)
      else r.ofMembers rest (← f.setValue v s)

def ofItems (r : Record σ α) : List (Field σ) → Nat → List Value → σ → Except Mismatch (σ × List Value)
  | [], _, vs, s => .ok (s, vs)
  | f :: fs, i, [], s => if f.mayLack then r.ofItems fs (i + 1) [] s else .error (r.tooShort i)
  | f :: fs, i, v :: vs, s => do r.ofItems fs (i + 1) vs (← f.setValue v s)

def ofValue (r : Record σ α) : Value → Except Mismatch α
  | .object members => do r.build (← r.ofMembers members r.start)
  | .array vs => do
    let (s, left) ← r.ofItems r.fields 0 vs r.start
    let a ← r.build s
    if left = [] then return a else .error (.wrongLength vs.length "fewer elements in array")
  | v => .error (.wrongType (Found.ofValue v) r.wanted)

def member (r : Record σ α) (room : Nat) (k : String) (s : σ) (bs : Bytes) :
    Except Problem (σ × Bytes) :=
  match r.field? k with
  | none => do
    let rest ← flawed (skipValue (← flawed (readColon bs)))
    return (s, rest)
  | some f => do
    if f.isSet s then .error (.mismatch (.duplicateField f.name))
    else f.setText room (← flawed (readColon bs)) s

def itemsText (r : Record σ α) (room : Nat) : List (Field σ) → Nat → σ → Bytes →
    Except Problem (σ × Bytes)
  | [], _, s, bs => .ok (s, bs)
  | f :: fs, i, s, bs => do
    match ← flawed (seekItem (i = 0) bs) with
    | none => if f.mayLack then r.itemsText room fs (i + 1) s bs else .error (.mismatch (r.tooShort i))
    | some rest =>
      let (s, rest) ← f.setText room rest s
      r.itemsText room fs (i + 1) s rest

def ofText (r : Record σ α) (room : Nat) (bs : Bytes) : Except Problem (α × Bytes) := do
  match ← flawed (readFound bs) with
  | (.object, rest) =>
    if room = 0 then .error (.flaw .tooDeep)
    let (s, rest) ← readMembers (r.member (room - 1)) r.start rest.tail
    let a ← mismatched (r.build s)
    return (a, rest)
  | (.array, rest) =>
    if room = 0 then .error (.flaw .tooDeep)
    let (s, rest) ← r.itemsText (room - 1) r.fields 0 r.start rest.tail
    let a ← mismatched (r.build s)
    let rest ← flawed (closeList rest)
    return (a, rest)
  | (found, _) => mismatched (.error (.wrongType found r.wanted))

def decoder (r : Record σ α) : Decoder α where
  ofValue := r.ofValue
  ofText := r.ofText

end Record

def require {α : Type} (name : String) : Option α → Except Mismatch α
  | some a => .ok a
  | none => .error (.missingField name)

def Decoder.texts : Decoder (List (String × String)) where
  ofValue
    | .object members => do
      let entries ← members.mapM fun (k, v) => do return (k, ← Decoder.text.ofValue v)
      return entries
    | v => .error (.wrongType (Found.ofValue v) "a map")
  ofText room bs := do
    match ← flawed (readFound bs) with
    | (.object, rest) =>
      if room = 0 then .error (.flaw .tooDeep)
      readMembers (fun k s bs => do
        let (t, rest) ← Decoder.text.ofText room (← flawed (readColon bs))
        return (insertMember k t s, rest)) [] rest.tail
    | (found, _) => mismatched (.error (.wrongType found "a map"))

end SocketRpc.Json
