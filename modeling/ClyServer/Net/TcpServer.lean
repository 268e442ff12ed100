import ClyServer.Net.EventLoop
import ClyServer.Net.TcpConnection

/-!
# The server (`net/TcpServer.cpp`, `net/EventLoopThreadPool.cpp`)

The server, its connections and its loops in one state. Loop 0 is the base loop,
loop `i + 1` the `i`-th of the pool, and a loop's thread has the loop's number: a
function that the source runs on some thread takes that thread, so that
`runInLoop` knows whether to call or to queue. A connection is known by the value
of `nextConnId_` it was made with.

A connection's `closeCallbacks`, `removals`, `destroysQueued` and `destroys` count
how often its `closeCallback_` was invoked, `removeConnectionInLoop` ran for it,
`connectDestroyed` was queued for it and ran. `changes` is the history of what changed
the poll set of a loop: which operation, on which thread, and whether the loop of
the connection was handling events then. The callbacks of the user do nothing
here; what they may call are the functions `send`, `shutdown` and `forceClose`.
-/

namespace ClyServer.Net

abbrev LoopId := Nat

abbrev ConnId := Nat

/-- The functors the server and its connections queue. -/
inductive Functor where
  | connectEstablished (c : ConnId)
  | removeConnectionInLoop (c : ConnId)
  | connectDestroyed (c : ConnId)
  | forceCloseInLoop (c : ConnId)
  | shutdownInLoop (c : ConnId)
  deriving DecidableEq, Repr

/-- The channels of the server's loops: the acceptor's and those of connections. -/
inductive Source where
  | acceptChannel
  | conn (c : ConnId)
  deriving DecidableEq, Repr

/-- A connection as the server made it, and the four counts. -/
structure Connection where
  name : Bytes
  loop : LoopId
  tcp : TcpConnection
  closeCallbacks : Nat
  removals : Nat
  destroysQueued : Nat
  destroys : Nat
  deriving DecidableEq, Repr

/-- The operations that change the poll set of a connection's loop. -/
inductive PollChange where
  | connectEstablished | handleClose | connectDestroyed
  deriving DecidableEq, Repr

/-- One of them carried out: for which connection, on which thread, and whether
the connection's loop was handling events. -/
structure Change where
  op : PollChange
  conn : ConnId
  thread : LoopId
  handling : Bool
  deriving DecidableEq, Repr

structure TcpServer where
  name : Bytes
  /-- `loops_.size()` of the pool. -/
  numLoops : Nat
  next : Nat
  nextConnId : Nat
  connections : Bytes → Option ConnId
  conns : ConnId → Option Connection
  loops : LoopId → EventLoop Source Functor
  changes : List Change

namespace TcpServer

/-- The base loop, `loop_`. -/
def base : LoopId := 0

/-- A server that has been started, with `numLoops` loops in its pool. -/
def init (name : Bytes) (numLoops : Nat) : TcpServer where
  name := name
  numLoops := numLoops
  next := 0
  nextConnId := 1
  connections := fun _ => none
  conns := fun _ => none
  loops := fun _ => .init
  changes := []

/-- The connection behind a pointer. -/
def findConn (s : TcpServer) (c : ConnId) : Checked Connection :=
  match s.conns c with
  | some conn => return conn
  | none => .error .nullPointer

def setConn (s : TcpServer) (c : ConnId) (conn : Connection) : TcpServer :=
  { s with conns := Function.update s.conns c (some conn) }

/-- `queueInLoop(cb)` of loop `l`, called on thread `t`. -/
def queueInLoop (s : TcpServer) (t l : LoopId) (cb : Functor) : TcpServer :=
  { s with loops := Function.update s.loops l ((s.loops l).queueInLoop (t = l) cb) }

/-- The functors waiting in each loop. -/
def queues (s : TcpServer) (l : LoopId) : List Functor := (s.loops l).pendingFunctors

/-- A change of the poll set of the connection's loop, noted. -/
def note (s : TcpServer) (op : PollChange) (c : ConnId) (conn : Connection) (t : LoopId) :
    TcpServer :=
  { s with changes := s.changes ++ [⟨op, c, t, (s.loops conn.loop).eventHandling⟩] }

/-! ## Functors and what they call -/

/-- `TcpConnection::connectEstablished()`. -/
def connectEstablished (s : TcpServer) (t : LoopId) (c : ConnId) : Checked TcpServer := do
  let conn ← s.findConn c
  let tcp ← conn.tcp.connectEstablished
  return (s.setConn c { conn with tcp }).note .connectEstablished c conn t

/-- `TcpConnection::connectDestroyed()`: `channel_->remove()`, through
`EventLoop::removeChannel` of the connection's loop. -/
def connectDestroyed (s : TcpServer) (t : LoopId) (c : ConnId) : Checked TcpServer := do
  let conn ← s.findConn c
  (s.loops conn.loop).checkRemove (.conn c)
  let channel := { conn.tcp.channel with addedToLoop := false }
  let s := s.setConn c { conn with
    tcp := { conn.tcp with channel }, destroys := conn.destroys + 1 }
  return s.note .connectDestroyed c conn t

/-- `removeConnectionInLoop(conn)`. The functor it queues goes to the base loop. -/
def removeConnectionInLoop (s : TcpServer) (t : LoopId) (c : ConnId) : Checked TcpServer := do
  let conn ← s.findConn c
  let n := if (s.connections conn.name).isSome then 1 else 0
  let s := { s with connections := Function.update s.connections conn.name none }
  check (n = 1) .removeConnectionInLoop
  let s := s.setConn c { conn with
    removals := conn.removals + 1, destroysQueued := conn.destroysQueued + 1 }
  return s.queueInLoop t base (.connectDestroyed c)

/-- `removeConnection(conn)`, the `closeCallback_` of every connection. -/
def removeConnection (s : TcpServer) (t : LoopId) (c : ConnId) : Checked TcpServer :=
  if t = base then s.removeConnectionInLoop t c
  else return s.queueInLoop t base (.removeConnectionInLoop c)

/-- `TcpConnection::handleClose()`. -/
def handleClose (s : TcpServer) (t : LoopId) (c : ConnId) : Checked TcpServer := do
  let conn ← s.findConn c
  let tcp ← conn.tcp.handleClose
  let s := (s.setConn c { conn with tcp, closeCallbacks := conn.closeCallbacks + 1 }).note
    .handleClose c conn t
  s.removeConnection t c

/-- `TcpConnection::forceCloseInLoop()`. -/
def forceCloseInLoop (s : TcpServer) (t : LoopId) (c : ConnId) : Checked TcpServer := do
  let conn ← s.findConn c
  if conn.tcp.state = .kConnected ∨ conn.tcp.state = .kDisconnecting then s.handleClose t c
  else return s

/-- `TcpConnection::shutdownInLoop()`. -/
def shutdownInLoop (s : TcpServer) (c : ConnId) : Checked TcpServer := do
  let conn ← s.findConn c
  return s.setConn c { conn with tcp := conn.tcp.shutdownInLoop }

/-- A functor called on thread `t`. -/
def call (s : TcpServer) (t : LoopId) : Functor → Checked TcpServer
  | .connectEstablished c => s.connectEstablished t c
  | .removeConnectionInLoop c => s.removeConnectionInLoop t c
  | .connectDestroyed c => s.connectDestroyed t c
  | .forceCloseInLoop c => s.forceCloseInLoop t c
  | .shutdownInLoop c => s.shutdownInLoop c

/-! ## Accepting -/

/-- `EventLoopThreadPool::getNextLoop()`, on a pool that has been started. -/
def getNextLoop (s : TcpServer) : LoopId × TcpServer :=
  if s.numLoops = 0 then (base, s)
  else (s.next + 1, { s with next := if s.next + 1 ≥ s.numLoops then 0 else s.next + 1 })

/-- The name of the connection with a number: `name_` and `"connection-%d"`. -/
def connName (name : Bytes) (id : Nat) : Bytes := name ++ (ascii "connection-" ++ decimal id)

/-- `newConnection(sockfd, peerAddr)`, on the base loop's thread. -/
def newConnection (s : TcpServer) (sockfd : Int) : Checked TcpServer := do
  let (ioloop, s) := s.getNextLoop
  let c := s.nextConnId
  let name := connName s.name c
  let tcp ← TcpConnection.init sockfd
  let s := { s with
    nextConnId := c + 1
    conns := Function.update s.conns c (some ⟨name, ioloop, tcp, 0, 0, 0, 0⟩)
    connections := Function.update s.connections name (some c) }
  if ioloop = base then s.connectEstablished base c
  else return s.queueInLoop base ioloop (.connectEstablished c)

/-! ## Events -/

/-- `TcpConnection::handleRead(receiveTime)`, for what `readFd` returned. -/
def handleRead (s : TcpServer) (t : LoopId) (c : ConnId) : ReadResult → Checked TcpServer
  | .bytes => return s
  | .eof => s.handleClose t c
  | .failed => .error .fatalLog

/-- `TcpConnection::handleWrite()`, for what write(2) returned. -/
def handleWrite (s : TcpServer) (c : ConnId) (result : WriteResult) : Checked TcpServer := do
  let conn ← s.findConn c
  let tcp ← conn.tcp.handleWrite result
  return s.setConn c { conn with tcp }

/-- A callback of a connection's channel. `handleError` logs and does nothing else. -/
def callback (s : TcpServer) (t : LoopId) (c : ConnId) (read : ReadResult) (write : WriteResult) :
    Channel.Callback → Checked TcpServer
  | .close => s.handleClose t c
  | .error => return s
  | .read => s.handleRead t c read
  | .write => s.handleWrite c write

/-- `Channel::handleEvent` of a connection's channel. -/
def handleEvent (s : TcpServer) (t : LoopId) (c : ConnId) (revents : Events) (read : ReadResult)
    (write : WriteResult) : Checked TcpServer :=
  (Channel.dispatch revents).foldlM (fun s cb => s.callback t c read write cb) s

/-! ## Calls of the user -/

/-- `TcpConnection::send`, on thread `t`. -/
def send (s : TcpServer) (t : LoopId) (c : ConnId) (message : Message) (result : WriteResult) :
    Checked TcpServer := do
  let conn ← s.findConn c
  let tcp ← conn.tcp.sendMessage (t = conn.loop) message result
  return s.setConn c { conn with tcp }

/-- `TcpConnection::shutdown()`, on thread `t`. -/
def shutdown (s : TcpServer) (t : LoopId) (c : ConnId) : Checked TcpServer := do
  let conn ← s.findConn c
  let (tcp, run) := conn.tcp.shutdown
  let s := s.setConn c { conn with tcp }
  if run then
    if t = conn.loop then s.shutdownInLoop c
    else return s.queueInLoop t conn.loop (.shutdownInLoop c)
  else return s

/-- `TcpConnection::forceClose()`, on thread `t`. -/
def forceClose (s : TcpServer) (t : LoopId) (c : ConnId) : Checked TcpServer := do
  let conn ← s.findConn c
  let (tcp, queue) := conn.tcp.forceClose
  let s := s.setConn c { conn with tcp }
  if queue then return s.queueInLoop t conn.loop (.forceCloseInLoop c)
  else return s

end TcpServer

end ClyServer.Net
