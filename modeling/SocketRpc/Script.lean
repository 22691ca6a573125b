import SocketRpc.Provider.Run
/-!
What a caller does with a provider, one operation after another: scoped connections, which always
end, and loops that reconnect.
-/

namespace SocketRpc

open Provider (Operation Reply)

inductive Exit (ρ : Type) where
  | value (a : ρ)
  | again
  | error (e : Failure)
  | panic

/-- Besides operations of the provider there are steps of the caller's own, given as `χ` and answered
by an `α`. -/
inductive Script (χ α ρ : Type) where
  | exit (r : Exit ρ)
  | operate (op : Operation) (k : Except Failure Reply → Script χ α ρ)
  | operateWithin (ms : Nat) (op : Operation) (k : Option (Except Failure Reply) → Script χ α ρ)
  | aside (x : χ) (k : α → Script χ α ρ)
  | attempt (body : Script χ α ρ) (k : Exit ρ → Script χ α ρ)
  /-- the bodies from the `n`-th on, each over a live connection -/
  | rounds (body : Nat → Script χ α ρ) (n : Nat)

namespace Script

variable {χ α ρ : Type}

def value (a : ρ) : Script χ α ρ := .exit (.value a)
def error (e : Failure) : Script χ α ρ := .exit (.error e)

def afterScope (r : Exit ρ) : Script χ α ρ := .operate .disconnect fun _ => .exit r

def withConnection (body : Script χ α ρ) : Script χ α ρ :=
  .operate .connect fun
    | .error e => .error e
    | .ok _ => .attempt body afterScope

/-- What follows a round: the socket is given up after a connection failure, and only a failure that
is neither of the connection nor transient ends the loop. -/
def afterRound (body : Nat → Script χ α ρ) (n : Nat) : Exit ρ → Script χ α ρ
  | .value a => .value a
  | .again => .rounds body (n + 1)
  | .error e =>
    if e.isConnection then .operate .disconnect fun _ => .rounds body (n + 1)
    else if e.isTransient then .rounds body (n + 1)
    else .error e
  | .panic => .exit .panic

def round (body : Nat → Script χ α ρ) (n : Nat) : Script χ α ρ :=
  .operate .ensureConnected fun
    | .error e => .error e
    | .ok _ => .attempt (body n) (afterRound body n)

def run (body : Nat → Script χ α ρ) : Script χ α ρ := .rounds body 0

structure Connections where
  running : Bool := true

def Connections.next (s : Connections)
    (k : Option (Except Failure Unit) → Connections → Script χ α ρ) : Script χ α ρ :=
  if s.running then
    .operate .ensureConnected fun
      | .ok _ => k (some (.ok ())) s
      | .error e => k (some (.error e)) { running := false }
  else k none s

/-- One step towards an operation, an own step or the end; `frames` are what follows the bodies
entered. Nothing where the head of the script needs an answer, or where the script is over. -/
def enter? (s : Script χ α ρ) (frames : List (Exit ρ → Script χ α ρ)) :
    Option (Script χ α ρ × List (Exit ρ → Script χ α ρ)) :=
  match s, frames with
  | .exit r, f :: fs => some (f r, fs)
  | .attempt body k, fs => some (body, k :: fs)
  | .rounds body n, fs => some (round body n, fs)
  | _, _ => none

def operation? : Script χ α ρ → Option (Operation × (Except Failure Reply → Script χ α ρ))
  | .operate op k => some (op, k)
  | .operateWithin _ op k => some (op, fun r => k (some r))
  | _ => none

end Script

structure Caller (χ α ρ : Type) where
  code : Script χ α ρ
  frames : List (Exit ρ → Script χ α ρ) := []
  call : Option CallId := none

namespace Caller

variable {χ α ρ : Type}

def goOn (t : Caller χ α ρ) (code : Script χ α ρ) : Caller χ α ρ := { t with code, call := none }

/-- What a caller does of its own accord, and what the provider hears of it. Nothing where it waits for the
result of its call or for an answer, or where the script is over. -/
def next? (t : Caller χ α ρ) (p : Provider) : Option (Option Provider.Event × Caller χ α ρ) :=
  match t.code.operation?, t.call with
  | some (op, _), none => some (some (.call op), { t with call := some p.nextCall })
  | some (_, k), some c => (p.result? c).map fun r => (some (.collect c), t.goOn (k r))
  | none, _ => (t.code.enter? t.frames).map fun (code, frames) => (none, { t with code, frames })

end Caller

end SocketRpc
