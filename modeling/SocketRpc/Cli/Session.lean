import SocketRpc.Cli.Job
import SocketRpc.Simulation.Session
namespace SocketRpc.Cli

structure Transcript where
  lines : List Line
  exit : Option Nat
deriving Repr, DecidableEq

namespace Transcript

def ofComplaint (c : Complaint) : Transcript := ⟨[.err c.line], some 1⟩

def ofReport (lines : List Line) : Option Simulation.Report → Transcript
  | none => ⟨lines, none⟩
  | some (.lines rest) => ⟨lines ++ rest, some 0⟩
  | some (.failure e) => ⟨lines ++ [.err (Complaint.failure e).line], some 1⟩
  | some _ => ⟨lines, some 0⟩

end Transcript

def Plan.perform (p : Plan) (node : Simulation.Node) : Transcript :=
  let s := Simulation.new p.endpoint p.settings.provider node
  let (report, s) := s.perform (p.job.script Simulation.terminal p.endpoint)
  .ofReport s.printed report

def run (w : Surroundings) (nodeAt : Endpoint → Simulation.Node) (args : List String) : Transcript :=
  match Invocation.ofArgs args with
  | .bare => ⟨usage.map .out, some 1⟩
  | .help => ⟨usage.map .out, some 0⟩
  | .version => ⟨[.out title], some 0⟩
  | .unknown word => ⟨.err ("Unknown command: " ++ word) :: usage.map .out, some 1⟩
  | .job kind args =>
    match kind.plan w args with
    | .error c => .ofComplaint c
    | .ok plan => plan.perform (nodeAt plan.endpoint)

end SocketRpc.Cli
