import ClyServer.Net.ServerSteps

/-!
# The server and the rounds of its loops

The same server as in `ClyServer.Net.Teardown`, with every loop followed through
its round: poll, one `handleEvent` after the other for the channels poll reported,
the swap of the functors, one functor after the other. A step is one of these, of
any loop, so that the loops interleave in every way; the user's calls come from
any thread at any time.

`Place` is where a loop's thread is. Its `handling` list pairs the channels still
to be handled with what poll reported for them; `activeChannels` of the loop keeps
all of them to the end of the round.
-/

namespace ClyServer.Net

open ClyServer.Lib

namespace TcpServer

/-- A loop's record replaced. -/
def setLoop (s : TcpServer) (l : LoopId) (loop : EventLoop Source Functor) : TcpServer :=
  { s with loops := Function.update s.loops l loop }

/-- `Acceptor::handleRead()`, for what accept(2) returned. -/
def acceptorHandleRead (s : TcpServer) (connfd : Int) : Checked TcpServer :=
  if connfd ≥ 0 then s.newConnection connfd else .error .fatalLog

/-- What the system calls of a handler return. -/
structure Outcome where
  connfd : Int
  read : ReadResult
  write : WriteResult
  deriving DecidableEq, Repr

/-- `handleEvent` of a channel that is active on thread `t`. The acceptor's channel
has a read callback only. -/
def handleChannel (s : TcpServer) (t : LoopId) (outcome : Outcome) :
    LoopChannel (Source × Events) → Checked TcpServer
  | .wakeupChannel => return s.setLoop t (s.loops t).handleRead
  | .other (.acceptChannel, revents) =>
    if .read ∈ Channel.dispatch revents then s.acceptorHandleRead outcome.connfd else return s
  | .other (.conn c, revents) => s.handleEvent t c revents outcome.read outcome.write

end TcpServer

/-- An active channel without what was reported. -/
def channelOf : LoopChannel (Source × Events) → LoopChannel Source
  | .wakeupChannel => .wakeupChannel
  | .other (source, _) => .other source

/-- The server, and where the thread of each loop is. -/
structure ServerLoops where
  server : TcpServer
  place : LoopId → Place (Source × Events) Functor

namespace ServerLoops

/-- A server just started, its loops in poll. -/
def start (name : Bytes) (numLoops : Nat) : ServerLoops where
  server := .init name numLoops
  place := fun _ => .polling

/-- What can happen next. -/
inductive Label where
  | pollReturn (l : LoopId) (active : List (LoopChannel (Source × Events)))
  | handle (l : LoopId) (outcome : TcpServer.Outcome)
  | endHandling (l : LoopId)
  | swap (l : LoopId)
  | execute (l : LoopId)
  | endFunctors (l : LoopId)
  | send (t : LoopId) (c : ConnId) (message : Message) (result : WriteResult)
  | shutdown (t : LoopId) (c : ConnId)
  | forceClose (t : LoopId) (c : ConnId)
  deriving DecidableEq, Repr

/-- Poll of a loop may report a channel of that loop that asks for events. -/
def mayReport (s : TcpServer) (l : LoopId) : LoopChannel (Source × Events) → Bool
  | .wakeupChannel => 0 < (s.loops l).wakeupCounter
  | .other (.acceptChannel, _) => l = TcpServer.base
  | .other (.conn c, revents) =>
    match s.conns c with
    | some conn => conn.loop = l && conn.tcp.channel.events ≠ 0 &&
        Reportable conn.tcp.channel.events revents
    | none => false

/-- The labels a state allows. Poll reports a channel at most once. -/
def enabled (s : ServerLoops) : Label → Bool
  | .pollReturn l active =>
    l ≤ s.server.numLoops && s.place l = .polling && active.all (mayReport s.server l) &&
      (active.map channelOf).Nodup
  | .handle l _ =>
    match s.place l with
    | .handling (_ :: _) _ => true
    | _ => false
  | .endHandling l => s.place l = .handling [] false
  | .swap l => s.place l = .swapping
  | .execute l =>
    match s.place l with
    | .calling (_ :: _) _ => true
    | _ => false
  | .endFunctors l => s.place l = .calling [] false
  | .send _ c .. => (s.server.conns c).isSome
  | .shutdown _ c => (s.server.conns c).isSome
  | .forceClose _ c => (s.server.conns c).isSome

/-- A step within a round: the loop's record and the place of its thread. -/
def advance (s : ServerLoops) (l : LoopId) (loop : EventLoop Source Functor)
    (place : Place (Source × Events) Functor) : ServerLoops where
  server := s.server.setLoop l loop
  place := Function.update s.place l place

/-- The step of a label, from a state that allows it. -/
def step (s : ServerLoops) : Label → Checked ServerLoops
  | .pollReturn l active =>
    return s.advance l ((s.server.loops l).startHandling (active.map channelOf))
      (.handling active false)
  | .handle l outcome =>
    match s.place l with
    | .handling (ch :: rest) _ => do
      let current := s.server.setLoop l ((s.server.loops l).setCurrent (channelOf ch))
      let server ← current.handleChannel l outcome ch
      return ⟨server, Function.update s.place l (.handling rest false)⟩
    | _ => return s
  | .endHandling l =>
    return s.advance l (s.server.loops l).endHandling.startFunctors .swapping
  | .swap l =>
    let (batch, loop) := (s.server.loops l).swapFunctors
    return s.advance l loop (.calling batch false)
  | .execute l =>
    match s.place l with
    | .calling (f :: rest) _ => do
      let server ← s.server.call l f
      return ⟨server, Function.update s.place l (.calling rest false)⟩
    | _ => return s
  | .endFunctors l => return s.advance l (s.server.loops l).endFunctors.startPoll .polling
  | .send t c message result => do
    let server ← s.server.send t c message result
    return { s with server }
  | .shutdown t c => do
    let server ← s.server.shutdown t c
    return { s with server }
  | .forceClose t c => do
    let server ← s.server.forceClose t c
    return { s with server }

def system : System ServerLoops Label Fault where
  enabled := fun s l => s.enabled l
  step := step

instance (s : ServerLoops) (l : Label) : Decidable (system.enabled s l) :=
  inferInstanceAs (Decidable (s.enabled l = true))

end ServerLoops

end ClyServer.Net
