namespace SocketRpc

structure Path where
  chars : List Char
deriving Repr, DecidableEq

namespace Path

def ofText (s : String) : Path := ⟨s.toList⟩

def text (p : Path) : String := String.ofList p.chars

def isAbsolute (p : Path) : Bool := p.chars.head? = some '/'

def join (p q : Path) : Path :=
  if q.isAbsolute then q
  else if p.chars = [] ∨ p.chars.getLast? = some '/' then ⟨p.chars ++ q.chars⟩
  else ⟨p.chars ++ '/' :: q.chars⟩

def dropIdle : List Char → List Char
  | '/' :: rest => dropIdle rest
  | '.' :: '/' :: rest => dropIdle rest
  | ['.'] => []
  | cs => cs

def trimIdle (cs : List Char) : List Char := (dropIdle (dropIdle cs).reverse).reverse

def belowHome? (p : Path) : Option Path :=
  match p.chars with
  | ['~'] => some ⟨[]⟩
  | '~' :: '/' :: rest => some ⟨trimIdle rest⟩
  | _ => none

structure Place where
  home : Option Path
  cwd : Path

/-- An empty home directory counts as none. -/
def Place.knownHome (w : Place) : Option Path := w.home.filter fun h => h.chars ≠ []

def expand (w : Place) (p : Path) : Path :=
  match p.belowHome?, w.knownHome with
  | some rest, some home => home.join rest
  | _, _ => p

def resolve (w : Place) (p : Path) : Path := w.cwd.join (p.expand w)

def gethSocket : String := "geth.ipc"

def defaultSocket? (w : Place) : Option Path :=
  w.knownHome.map fun h => (h.join (ofText ".ethereum")).join (ofText gethSocket)

end Path

end SocketRpc
