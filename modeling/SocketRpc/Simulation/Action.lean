import SocketRpc.Console
import SocketRpc.Script
import SocketRpc.Simulation.Node
namespace SocketRpc.Simulation

open Provider (Operation Reply)

structure Replan where
  opens : Option (List OpenPlan) := none
  writes : Option (List WritePlan) := none
  closes : Option (List (Option IoError)) := none
  rules : Option (Table String (List Item)) := none

def Replan.apply (r : Replan) (p : Plans) : Plans where
  opens := r.opens.getD p.opens
  writes := r.writes.getD p.writes
  closes := r.closes.getD p.closes
  rules := r.rules.getD p.rules

inductive Aside where
  | settle
  | sleep (ms : Nat)
  | send (items : List Item) (s : Option SocketId)
  | replan (r : Replan)
  | pop (id : RequestId)
  | tryNext (s : SubscriptionId)
  | pending (s : SubscriptionId)
  | describe
  | print (l : Line)
  | clock
  | enter
  | entered

inductive Answer where
  | reply (r : Reply)
  | pending
  | description (e : Endpoint) (timeoutMs : Nat)
deriving Repr, DecidableEq

inductive Action where
  | operate (op : Operation)
  | operateWithin (ms : Nat) (op : Operation)
  | aside (x : Aside)
  | raise (e : Failure)
  | panic
  | leave

inductive Report where
  | answer (a : Answer)
  | answers (l : List Answer)
  | failure (e : Failure)
  | panic
  | exhausted
  | finished
  | counted (bodies : Nat) (r : Report)
  | sequence (l : List Report)
  | lines (l : List Line)

abbrev Code := Script Aside Answer Report

def Report.ofExit : Exit Report → Report
  | .value r => r
  | .again => .finished
  | .error e => .failure e
  | .panic => .panic

def Action.andThen (a : Action) (k : Except Failure Answer → Code) : Code :=
  match a with
  | .operate op => .operate op fun r => k (r.map .reply)
  | .operateWithin ms op => .operateWithin ms op fun
    | some r => k (r.map .reply)
    | none => k (.ok .pending)
  | .aside x => .aside x fun a => k (.ok a)
  | .raise e => k (.error e)
  | .panic => .exit .panic
  | .leave => k (.ok (.reply .nothing))

/-- Actions in turn up to the first that fails; behind each, all others come to rest. The ending is
told whether the body leaves its loop. -/
def body (ending : Bool → List Answer → Code) : List Answer → List Action → Code
  | done, [] => ending false done
  | done, .leave :: _ => ending true done
  | done, a :: rest => a.andThen fun
    | .ok x => .aside .settle fun _ => body ending (done ++ [x]) rest
    | .error e => .error e

def plainBody (l : List Action) : Code := body (fun _ done => .value (.answers done)) [] l

def loopBody (bodies : List (List Action)) (n : Nat) : Code :=
  .aside .enter fun _ =>
    match bodies[n]? with
    | none => .value .exhausted
    | some l => body (fun leaves done => if leaves then .value (.answers done) else .exit .again) [] l

def stream (s : Script.Connections) (done : List Report) : List (List Action) → Code
  | [] => .value (.sequence done)
  | l :: rest => s.next fun
    | none, _ => .value (.sequence (done ++ [.finished]))
    | some (.error e), s => stream s (done ++ [.failure e]) rest
    | some (.ok _), s => .attempt (plainBody l) fun
      | .panic => .exit .panic
      | r => stream s (done ++ [.ofExit r]) rest

inductive Step where
  | action (a : Action)
  | withConnection (l : List Action)
  | run (bodies : List (List Action))
  | connections (bodies : List (List Action))

def Step.code : Step → Code
  | .action a => a.andThen fun
    | .ok x => .value (.answer x)
    | .error e => .error e
  | .withConnection l => .withConnection (plainBody l)
  | .run bodies => .attempt (.run (loopBody bodies)) fun
    | .panic => .exit .panic
    | r => .aside .entered fun
      | .reply (.natural n) => .value (.counted n (.ofExit r))
      | _ => .exit r
  | .connections bodies => stream {} [] bodies

def terminal : Terminal Aside Answer Report where
  print := .print
  clock := .clock
  time
    | .reply (.natural n) => n
    | _ => 0
  report := .lines

end SocketRpc.Simulation
