import SocketRpc.Simulation.Action
/-!
One processor shared by the tasks of callers and the listeners of a provider, and a clock that moves
only when all of them wait.
-/

namespace SocketRpc

open Provider (Phase Note Event)

namespace Simulation

abbrev TaskId := Nat

structure Task extends Caller Aside Answer Report where
  tag : String := ""
  limit : Option Nat := none
  entered : Nat := 0

def Task.goOn (t : Task) (code : Code) : Task := { t with toCaller := t.toCaller.goOn code, limit := none }

def Task.due (t : Task) (now : Nat) : Option Nat :=
  match t.code, t.call with
  | .operateWithin ms _ _, none => some (now + ms)
  | _, _ => none

def Task.report? (t : Task) : Option Report :=
  match t.code, t.frames with
  | .exit r, [] => some (.ofExit r)
  | _, _ => none

def Task.isSettling (t : Task) : Bool :=
  match t.code with
  | .aside .settle _ => true
  | _ => false

inductive Runner where
  | task (t : TaskId)
  | listener (l : ListenerId)
deriving Repr, DecidableEq

/-- The task of the caller that is waited for; all others are in the background. -/
def foreground : TaskId := 0

structure Opening where
  ready : Nat
  plan : OpenPlan

end Simulation

open Simulation

structure Simulation where
  provider : Provider
  node : Node := {}
  tasks : Table TaskId Task := {}
  nextTask : TaskId := foreground + 1
  openings : Table CallId Opening := {}
  running : Option TaskId := none
  ready : List Runner := []
  /-- those who gave way, the last one first -/
  yielded : List Runner := []
  foregroundReady : Bool := false
  printed : List Line := []

namespace Simulation

def wake (s : Simulation) (r : Runner) : Simulation :=
  if r = .task foreground then { s with foregroundReady := true }
  else if r ∈ s.ready then s
  else { s with ready := s.ready ++ [r] }

def suspendedAt (s : Simulation) (f : Phase → Bool) : List Runner :=
  s.provider.calls.entries.flatMap fun (c, call) =>
    if f call.phase then
      (s.tasks.entries.filter fun e => e.2.call = some c).map fun e => .task e.1
    else []

def listenerAt (s : Simulation) (l : ListenerId) (f : Provider.Listener → Bool) : List Runner :=
  match s.provider.listeners.get? l with
  | some li => if f li then [.listener l] else []
  | none => []

def concerned (s : Simulation) : Note → List Runner
  | .answered t => s.suspendedAt fun
    | .awaiting d _ => d.ticket = t
    | _ => false
  | .notified => s.suspendedAt fun
    | .reading _ _ => true
    | _ => false
  | .granted c => (s.tasks.entries.filter fun e => e.2.call = some c).map fun e => .task e.1
  | .spawned l => [.listener l]
  | .swapped l => s.listenerAt l fun li => li.phase = .reading || li.phase = .orphaned
  | .aborted l => s.listenerAt l fun li => !li.isFinished
  | .resumed _ => s.suspendedAt fun
    | .handing _ _ _ => true
    | _ => false
  | .ended l => s.suspendedAt fun
    | .joining j _ => j = l
    | .handing _ _ _ => true
    | _ => false
  | _ => []

def heed (s : Simulation) : Simulation :=
  s.provider.notes.foldl (fun s n => (s.concerned n).foldl wake s)
    { s with provider := { s.provider with notes := [] } }

def apply (s : Simulation) (e : Event) : Simulation := { s with provider := s.provider.step e }.heed

def now (s : Simulation) : Nat := s.provider.now

def stir (s : Simulation) (socket : SocketId) : Simulation :=
  s.provider.listeners.entries.foldl (fun s (l, li) =>
    if li.reader = socket && li.phase = .reading then s.wake (.listener l) else s) s

def writerOf (s : Simulation) : SocketId := (s.provider.slot.map Provider.Connection.writer).getD 0

def open? (s : Simulation) (c : CallId) : Option Simulation :=
  match s.openings.get? c with
  | none =>
    let (plan, node) := s.node.takeOpen
    let node := node.see (.opening s.now plan.failure.isNone s.provider.state)
    some { s with node, openings := s.openings.set c { ready := s.now + plan.delayMs, plan } }
  | some o =>
    if o.ready ≤ s.now then
      let s := { s with openings := s.openings.erase c }
      match o.plan.failure with
      | some e => some (s.apply (.opened c (.error e)))
      | none =>
        some ({ s with node := s.node.send s.provider.nextSocket none o.plan.greet }.apply
          (.opened c (.ok ())))
    else none

def close (s : Simulation) (c : CallId) (socket : SocketId) : Simulation :=
  let (_, node) := s.node.close socket s.provider.state
  ({ s with node }.stir socket).apply (.closed c)

def write (s : Simulation) (c : CallId) (r : Request) (out : Outgoing) : Simulation :=
  let socket := s.writerOf
  let (plan, node) := s.node.takeWrite
  let s := { s with node := node.receive socket r.encode (some r) plan }.stir socket
  (plan.answers out.left.length).foldl (fun s a => s.apply (.sink c a)) s

def passable (p : Provider) (c : CallId) : Phase → Bool
  | .start => true
  | .locking _ => p.lock.holder = some c
  | .joining l _ => p.isFinished l
  | .pausing wake _ => wake ≤ p.now
  | .handing _ _ _ =>
    match p.slot.bind fun conn => p.listeners.get? conn.listener with
    | some li => li.isFinished || li.replacement.isNone
    | none => true
  | .awaiting d started =>
    (p.correlator.receive d.ticket).1 ≠ .empty || started + p.config.requestTimeoutMs ≤ p.now
  | .reading sub epoch => (p.correlator.nextNotification sub epoch).1.isSome
  | _ => false

def drive (s : Simulation) (c : CallId) : Option Simulation :=
  match s.provider.phaseOf c with
  | none => none
  | some ph =>
    match ph with
    | .opening _ | .resetOpening _ _ => s.open? c
    | .closing conn _ => some (s.close c conn.writer)
    | .resetClosing _ _ => some (s.close c s.writerOf)
    | .writing d out _ => some (s.write c d.request out)
    | _ => if passable s.provider c ph then some (s.apply (.turn c)) else none

def setTask (s : Simulation) (t : TaskId) (task : Task) : Simulation :=
  { s with tasks := s.tasks.set t task }

def dropCall (s : Simulation) (c : CallId) : Simulation :=
  { s with openings := s.openings.erase c }.apply (.drop c)

def instant (s : Simulation) : Aside → Answer × Simulation
  | .send items socket =>
    if s.provider.nextSocket = 0 then (.reply (.flag false), s)
    else
      let socket := socket.getD (s.provider.nextSocket - 1)
      if socket < s.provider.nextSocket then
        (.reply (.flag true), { s with node := s.node.send socket none items }.stir socket)
      else (.reply (.flag false), s)
  | .replan r => (.reply .nothing, { s with node := { s.node with plans := r.apply s.node.plans } })
  | .pop id =>
    match (s.provider.correlator.pop id.key).1 with
    | some r => (.reply (.response r), s.apply (.pop id.key))
    | none => (.reply .nothing, s)
  | .tryNext sub =>
    match s.provider.correlator.popSubscription sub with
    | (some v, _) => (.reply (.value v), s.apply (.take sub))
    | (none, _) => (.reply .nothing, s)
  | .pending sub => (.reply (.natural (s.provider.correlator.pending sub)), s)
  | .describe => (.description s.provider.endpoint s.provider.config.requestTimeoutMs, s)
  | .print l => (.reply .nothing, { s with printed := s.printed ++ [l] })
  | .clock => (.reply (.natural s.now), s)
  | _ => (.reply .nothing, s)

def answer? (s : Simulation) (t : TaskId) (task : Task) (x : Aside) (k : Answer → Code) : Option Simulation :=
  match x with
  | .settle => none
  | .sleep ms =>
    match task.limit with
    | none => some (s.setTask t { task with limit := some (s.now + ms) })
    | some due => if due ≤ s.now then some (s.setTask t (task.goOn (k (.reply .nothing)))) else none
  | .enter => some (s.setTask t { task.goOn (k (.reply .nothing)) with entered := task.entered + 1 })
  | .entered => some (s.setTask t (task.goOn (k (.reply (.natural task.entered)))))
  | x =>
    let (a, s) := s.instant x
    some (s.setTask t (task.goOn (k a)))

def pursue? (s : Simulation) (t : TaskId) (task : Task) (c : CallId) : Option Simulation :=
  match s.drive c, task.code with
  | some s, _ => some s
  | none, .operateWithin _ _ k =>
    if task.limit.any (· ≤ s.now) then some ((s.dropCall c).setTask t (task.goOn (k none))) else none
  | none, _ => none

def move? (s : Simulation) (t : TaskId) (task : Task) : Option Simulation :=
  match task.next? s.provider, task.call, task.code with
  | some (e, caller), _, _ =>
    some ((e.elim s s.apply).setTask t { task with toCaller := caller, limit := task.due s.now })
  | none, some c, _ => s.pursue? t task c
  | none, none, .aside x k => s.answer? t task x k
  | none, none, _ => none

def giveWay (s : Simulation) (l : ListenerId) : Simulation :=
  { s with yielded := .listener l :: s.yielded }

def phaseOfListener (s : Simulation) (l : ListenerId) : Option Provider.ListenerPhase :=
  (s.provider.listeners.get? l).map Provider.Listener.phase

/-- Lets a listener run until it waits, and have one read at most. -/
def listen (s : Simulation) (l : ListenerId) : Simulation :=
  let s := s.apply (.listen l)
  let s : Simulation :=
    match s.provider.listeners.get? l with
    | some li =>
      if li.phase = .reading then
        match s.node.read s.provider.config.readChunkSize li.reader with
        | (some chunk, node) => { s with node }.apply (.arrive l chunk)
        | (none, _) => s
      else s
    | none => s
  if s.phaseOfListener l = some .resting then s.giveWay l else s

def isWaitedFor (s : Simulation) : Bool :=
  match s.tasks.get? foreground with
  | some task => task.report?.isNone
  | none => false

def settle? (s : Simulation) : Option Simulation :=
  let settling := s.tasks.entries.filter fun e => e.2.isSettling
  if settling.isEmpty then none
  else some (settling.foldl (fun s (t, task) =>
    match task.code with
    | .aside .settle k => (s.setTask t (task.goOn (k (.reply .nothing)))).wake (.task t)
    | _ => s) s)

def wakeTimes (s : Simulation) (task : Task) : List Nat :=
  let own := task.limit.toList
  match task.call with
  | none => own
  | some c =>
    own ++ ((s.openings.get? c).map Opening.ready).toList ++
      match s.provider.phaseOf c with
      | some (.pausing wake _) => [wake]
      | some (.awaiting _ started) => [started + s.provider.config.requestTimeoutMs]
      | _ => []

def elapse? (s : Simulation) : Option Simulation :=
  let times := s.tasks.entries.map fun (t, task) => (t, s.wakeTimes task)
  match (times.flatMap Prod.snd).min? with
  | none => none
  | some next =>
    let due := times.filter fun e => e.2.any (· ≤ next)
    some (due.foldl (fun s e => s.wake (.task e.1)) (s.apply (.elapse (next - s.now))))

def next? (s : Simulation) : Option Simulation :=
  match s.running, s.ready with
  | some t, _ =>
    some (((s.tasks.get? t).bind (s.move? t)).getD { s with running := none })
  | none, .task t :: rest => some { s with ready := rest, running := some t }
  | none, .listener l :: rest => some ({ s with ready := rest }.listen l)
  | none, [] =>
    let rested := { s with ready := s.yielded, yielded := [] }
    if s.foregroundReady then
      some { rested with foregroundReady := false, running := some foreground }
    else if s.yielded ≠ [] then some rested
    else
      match s.settle? with
      | some s => some s
      | none => if s.isWaitedFor then s.elapse? else none

def run : Nat → Simulation → Simulation
  | 0, s => s
  | n + 1, s =>
    match s.next? with
    | some s => run n s
    | none => s

def patience : Nat := 100000000

def settleAll (s : Simulation) : Simulation := s.run patience

end Simulation

end SocketRpc
