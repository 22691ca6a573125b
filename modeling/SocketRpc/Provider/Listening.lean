import SocketRpc.Provider.State
/-!
The listener of a connection: it reads chunks, cuts them into messages and leaves these with the
correlator, until its provider lets go or a fault ends it.
-/

namespace SocketRpc.Provider

def endListener (p : Provider) (l : ListenerId) (r : ListenerEnd) : Provider :=
  (p.setListener l fun li => { li with phase := .finished r }).note (.ended l)

def noteDeposit (p : Provider) : Except Failure Deposit → Provider
  | .ok (.delivered t) => p.note (.answered t)
  | .ok (.queued _) => p.note .notified
  | _ => p

def leave (p : Provider) (l : ListenerId) (v : Json.Value) : Except Failure Deposit × Provider :=
  let (r, k) := p.correlator.deposit v (isPush v)
  (r, ({ p with correlator := k }.note (.deposited l v r)).noteDeposit r)

/-- Whether a message is merely skipped for being refused in this way. -/
def isSkipped : Failure → Bool
  | .deserialization _ | .invalidMessage _ => true
  | _ => false

def depositAll (p : Provider) (l : ListenerId) : List Json.Value → Provider × Option Failure
  | [] => (p, none)
  | v :: rest =>
    match p.leave l v with
    | (.ok _, p) => depositAll p l rest
    | (.error e, p) => if isSkipped e then depositAll p l rest else (p, some e)

/-- A failed read or a duplicate response. -/
def fault (p : Provider) (l : ListenerId) (e : Failure) : Provider :=
  match p.config.policy with
  | .strict => ((p.dismissing fun c => c.fail e.message).publish .disconnected).endListener l (.failed e)
  | .lenient => p.setListener l fun li => { li with framer := {}, phase := .resting }

def takeChunk (p : Provider) (l : ListenerId) (framer : Framer) (chunk : Bytes) : Provider :=
  let (vs, bad, left) := (framer.push chunk).messages
  match p.depositAll l vs with
  | (p, some e) => p.fault l e
  | (p, none) =>
    p.setListener l fun li =>
      { li with framer := if bad.isSome then {} else left, phase := .resting }

def orphan (p : Provider) (l : ListenerId) : Provider :=
  ((p.dismissing Correlator.closeByPeer).publish .disconnected).setListener l fun li =>
    { li with phase := .orphaned }

def arrive (p : Provider) (l : ListenerId) (chunk : Chunk) : Provider :=
  match p.listeners.get? l with
  | none => p
  | some li =>
    match li.phase, li.replacement, li.released, li.aborted with
    | .reading, none, false, false =>
      match chunk with
      | .error e => p.fault l e
      | .ok none => p.orphan l
      | .ok (some bs) => p.takeChunk l li.framer bs
    | _, _, _, _ => p

def resume (p : Provider) (l : ListenerId) (s : SocketId) : Provider :=
  let p := p.setListener l fun li =>
    { li with reader := s, framer := {}, replacement := none, phase := .resting }
  let p := { p with correlator := p.correlator.reopen }.note (.resumed l)
  if p.state = .connected then p else p.publish .connected

def listen (p : Provider) (l : ListenerId) : Provider :=
  match p.listeners.get? l with
  | none => p
  | some li =>
    if li.isFinished then p
    else if li.aborted then p.endListener l .cancelled
    else
      match li.phase, li.replacement, li.released with
      | .starting, _, _ => p.setListener l fun li => { li with phase := .resting }
      | _, some s, _ => p.resume l s
      | _, none, true => p.endListener l .released
      | .resting, none, false => p.setListener l fun li => { li with phase := .reading }
      | _, none, false => p

def spawn (p : Provider) (s : SocketId) : Provider :=
  let l := p.nextListener
  { p with
    listeners := p.listeners.set l { reader := s }
    slot := some { writer := s, listener := l }
    nextListener := l + 1 }.note (.spawned l)

def letGo (p : Provider) (l : ListenerId) : Provider :=
  (p.setListener l fun li => { li with released := true }).note (.swapped l)

def abortListener (p : Provider) (l : ListenerId) : Provider :=
  (p.setListener l fun li => { li with aborted := true }).note (.aborted l)

end SocketRpc.Provider
