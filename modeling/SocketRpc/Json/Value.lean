import SocketRpc.Number.Binary64
/-! JSON values. The members of an object are kept in increasing order of their keys. -/

namespace SocketRpc.Json

/-- Whole numbers of 64 bits keep their exact value, all others are doubles. -/
inductive Number where
  | integer (i : Int)
  | real (x : Binary64)
deriving Repr, DecidableEq

inductive Value where
  | null
  | bool (b : Bool)
  | number (n : Number)
  | text (s : String)
  | array (items : List Value)
  | object (members : List (String × Value))
deriving Repr, Inhabited

/-- Puts a member in its place; a later member replaces an earlier one of the same key. -/
def insertMember {α : Type} (k : String) (v : α) : List (String × α) → List (String × α)
  | [] => [(k, v)]
  | (j, w) :: rest =>
    if k < j then (k, v) :: (j, w) :: rest
    else if k = j then (k, v) :: rest
    else (j, w) :: insertMember k v rest

def findMember {α : Type} (k : String) : List (String × α) → Option α
  | [] => none
  | (j, w) :: rest => if j = k then some w else findMember k rest

namespace Value

mutual

def beq : Value → Value → Bool
  | null, null => true
  | bool a, bool b => a == b
  | number a, number b => a == b
  | text a, text b => a == b
  | array a, array b => beqItems a b
  | object a, object b => beqMembers a b
  | _, _ => false

def beqItems : List Value → List Value → Bool
  | [], [] => true
  | a :: as, b :: bs => beq a b && beqItems as bs
  | _, _ => false

def beqMembers : List (String × Value) → List (String × Value) → Bool
  | [], [] => true
  | (j, a) :: as, (k, b) :: bs => j == k && beq a b && beqMembers as bs
  | _, _ => false

end

mutual

theorem beq_iff : ∀ a b : Value, beq a b = true ↔ a = b
  | null, b => by cases b <;> simp [beq]
  | bool a, b => by cases b <;> simp [beq]
  | number a, b => by cases b <;> simp [beq]
  | text a, b => by cases b <;> simp [beq]
  | array a, b => by cases b <;> simp [beq, beqItems_iff a]
  | object a, b => by cases b <;> simp [beq, beqMembers_iff a]

theorem beqItems_iff : ∀ a b : List Value, beqItems a b = true ↔ a = b
  | [], b => by cases b <;> simp [beqItems]
  | a :: as, b => by cases b <;> simp [beqItems, beq_iff a, beqItems_iff as]

theorem beqMembers_iff : ∀ a b : List (String × Value), beqMembers a b = true ↔ a = b
  | [], b => by cases b <;> simp [beqMembers]
  | (j, a) :: as, b => by
    cases b with
    | nil => simp [beqMembers]
    | cons e bs => obtain ⟨k, b⟩ := e; simp [beqMembers, beq_iff a, beqMembers_iff as, and_assoc]

end

instance : DecidableEq Value := fun a b => decidable_of_iff _ (beq_iff a b)

def get? (v : Value) (k : String) : Option Value :=
  match v with
  | object members => findMember k members
  | _ => none

def text? : Value → Option String
  | text s => some s
  | _ => none

def ofNat (n : Nat) : Value := number (.integer n)

def ofMembers (members : List (String × Value)) : Value :=
  object (members.foldl (fun acc e => insertMember e.1 e.2 acc) [])

end Value

end SocketRpc.Json
