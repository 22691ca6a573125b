import SocketRpc.Simulation.Schedule
namespace SocketRpc.Simulation

inductive Command where
  | perform (step : Step)
  | spawn (tag : String) (a : Action)
  | abort (tag : String)

structure Outcome where
  report : Option Report
  seen : List Sighting
  finished : List (String × Report)

def done : Report := .answer (.reply .nothing)

def drain (s : Simulation) : List Sighting × Simulation :=
  (s.node.seen, { s with node := { s.node with seen := [] } })

def reap (s : Simulation) : List (String × Report) × Simulation :=
  (s.tasks.entries.filterMap fun e => e.2.report?.map fun r => (e.2.tag, r),
    { s with tasks := ⟨s.tasks.entries.filter fun e => e.2.report?.isNone⟩ })

def conclude (s : Simulation) (report : Option Report) : Outcome × Simulation :=
  let (finished, s) := s.reap
  let (seen, s) := s.drain
  ({ report, seen, finished }, s)

def perform (s : Simulation) (code : Code) : Option Report × Simulation :=
  let s := ((s.setTask foreground { code }).wake (.task foreground)).settleAll
  let report := (s.tasks.get? foreground).bind Task.report?
  (report, { s with tasks := s.tasks.erase foreground })

def spawn (s : Simulation) (tag : String) (a : Action) : Simulation :=
  let t := s.nextTask
  { s.setTask t { tag, code := (Step.action a).code } with nextTask := t + 1 }.wake (.task t)

def abort (s : Simulation) (tag : String) : Bool × Simulation :=
  match s.tasks.entries.reverse.find? fun e => e.2.tag = tag with
  | none => (false, s)
  | some (t, task) =>
    let s := { s with tasks := s.tasks.erase t }
    (true, match task.call with
      | some c => s.dropCall c
      | none => s)

def command (s : Simulation) : Command → Outcome × Simulation
  | .perform step =>
    let (report, s) := s.perform step.code
    s.conclude report
  | .spawn tag a => (s.spawn tag a).settleAll.conclude (some done)
  | .abort tag =>
    let (b, s) := s.abort tag
    s.settleAll.conclude (some (.answer (.reply (.flag b))))

def new (endpoint : Endpoint) (config : Config) (node : Node) : Simulation :=
  { provider := Provider.new endpoint config, node }

end SocketRpc.Simulation
