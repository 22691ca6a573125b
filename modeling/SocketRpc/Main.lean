import SocketRpc.Cli.Session
/-!
The command line. It opens no sockets of its own: to a command that gets as far as connecting, a
local socket refuses the connection and the network is out of reach.
-/

namespace SocketRpc.Cli

def ioErrorOf : IO.Error → IoError
  | .noFileOrDirectory _ _ _ => .noSuchFile
  | e => ⟨.other, some (toString e)⟩

def readFile (path : String) : IO (Except IoError Bytes) := do
  try
    return .ok (← IO.FS.readBinFile path).toList
  catch e => return .error (ioErrorOf e)

def isThere (path : String) : IO Bool := do
  match ← readFile path with
  | .error e => return e.kind ≠ .notFound
  | .ok _ => return true

def refusalAt (e : Endpoint) : IO Failure := do
  if e.kind = (Endpoint.webSocket "").kind then
    return (Endpoint.webSocketObjection e.address).getD (.io .networkUnreachable)
  else if ← isThere e.address then return .io .refused
  else return .io .noSuchFile

def write : Line → IO Unit
  | .out s => IO.println s
  | .err s => IO.eprintln s

def surroundingsOf (args : List String) : IO Surroundings := do
  let home := (← IO.getEnv "HOME").map Path.ofText
  let cwd := Path.ofText (← IO.currentDir).toString
  let content ← match flag? "--config" args with
    | some path => readFile path
    | none => pure (.error .noSuchFile)
  return { place := { home, cwd }, read := fun _ => content }

end SocketRpc.Cli

open SocketRpc Cli

def main (args : List String) : IO UInt32 := do
  let w ← surroundingsOf args
  let refusal ← match endpointOf w.place args with
    | .ok e => refusalAt e
    | .error _ => pure .notConnected
  let t := run w (fun _ => { refusal := some refusal }) args
  t.lines.forM write
  return (t.exit.getD 1).toUInt32
