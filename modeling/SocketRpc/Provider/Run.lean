import SocketRpc.Provider.Calling
/-!
Runs of a provider: its steps are the turns of calls and listeners and the answers of sockets, in any
order.
-/

namespace SocketRpc.Provider

inductive Event where
  | call (op : Operation)
  | turn (c : CallId)
  | listen (l : ListenerId)
  | arrive (l : ListenerId) (chunk : Chunk)
  | opened (c : CallId) (r : Except Failure Unit)
  | closed (c : CallId)
  | sink (c : CallId) (a : SinkAnswer)
  | collect (c : CallId)
  | drop (c : CallId)
  | pop (k : CacheKey)
  | take (s : SubscriptionId)
  | elapse (ms : Nat)

def newCall (p : Provider) (op : Operation) : Provider :=
  { p with calls := p.calls.set p.nextCall { op }, nextCall := p.nextCall + 1 }

def result? (p : Provider) (c : CallId) : Option (Except Failure Reply) :=
  match p.phaseOf c with
  | some (.done r) => some r
  | _ => none

def collect (p : Provider) (c : CallId) : Provider :=
  match p.result? c with
  | some _ => { p with calls := p.calls.erase c }
  | none => p

def step (p : Provider) : Event → Provider
  | .call op => p.newCall op
  | .turn c => p.turn c
  | .listen l => p.listen l
  | .arrive l chunk => p.arrive l chunk
  | .opened c r => p.opened c r
  | .closed c => p.closed c
  | .sink c a => p.sink c a
  | .collect c => p.collect c
  | .drop c => p.drop c
  | .pop k => { p with correlator := (p.correlator.pop k).2 }.note (.popped k (p.correlator.pop k).1)
  | .take s => { p with correlator := (p.correlator.popSubscription s).2 }
  | .elapse ms => { p with now := p.now + ms }

def steps (p : Provider) (es : List Event) : Provider := es.foldl step p

def new (endpoint : Endpoint) (config : Config) : Provider := { endpoint, config }

inductive Reachable (endpoint : Endpoint) (config : Config) : Provider → Prop where
  | new : Reachable endpoint config (new endpoint config)
  | step {p : Provider} (e : Event) : Reachable endpoint config p → Reachable endpoint config (p.step e)

theorem Reachable.steps {endpoint : Endpoint} {config : Config} {p : Provider}
    (h : Reachable endpoint config p) (es : List Event) : Reachable endpoint config (p.steps es) := by
  induction es generalizing p with
  | nil => exact h
  | cons e es ih => exact ih (h.step e)

end SocketRpc.Provider
