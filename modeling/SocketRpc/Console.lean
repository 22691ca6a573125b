namespace SocketRpc

inductive Line where
  | out (s : String)
  | err (s : String)
deriving Repr, DecidableEq

def Line.out? : Line → Option String
  | out s => some s
  | err _ => none

def Line.err? : Line → Option String
  | out _ => none
  | err s => some s

/-- How the steps of a script say what is to be written and ask for the time; `α` answers them, and a
script ends with a `ρ`. -/
structure Terminal (χ α ρ : Type) where
  print : Line → χ
  clock : χ
  time : α → Nat
  report : List Line → ρ

end SocketRpc
