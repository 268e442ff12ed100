import ClyServer.Net.ConnectorRetries
import ClyServer.Net.CallbackPairs

/-!
# The client (`net/TcpClient.h`, `net/TcpClient.cc`)

A client has a connector and at most one connection at a time, `connection_`. The connector
hands it a socket, of which it makes a connection; when that closes the client forgets it, queues
its destruction and, if it is to retry, restarts the connector. What `restart` relies on, and does
not check, is that the connector is connected then: the client has to see to it.

A connection is known by its place in the order in which they were made. The connector's own
functors and timers are those of its model, and the connections' functors are with the client;
which of them comes next is open. Names, addresses and the user's callbacks are not part of the
state, and the destructor is left out.
-/

namespace ClyServer.Net

open ClyServer.Lib ClyServer.Lib.System

/-- The functors of the client's connections. -/
inductive ClientFunctor where
  | connectDestroyed (c : Nat)
  | forceCloseInLoop (c : Nat)
  | shutdownInLoop (c : Nat)
  deriving DecidableEq, Repr

/-- The faults of the connector and of connections, and the client's own assertion
`connection_ == conn`. -/
inductive ClientFault where
  | fault (e : Fault)
  | removeConnection
  deriving DecidableEq, Repr

/-- A call out of the client. -/
def checked {α : Type} : Checked α → Except ClientFault α
  | .ok a => .ok a
  | .error e => .error (.fault e)

structure TcpClient where
  connector : Connector
  retry : Bool
  connect_ : Bool
  connection : Option Nat
  /-- The connections that were made. -/
  conns : List TcpConnection
  pendingFunctors : List ClientFunctor
  /-- Those for which `connectDestroyed` has run. -/
  destroyed : List Nat
  deriving DecidableEq, Repr

namespace TcpClient

/-- `TcpClient(loop, serverAddr, nameArg)`. -/
def init : TcpClient where
  connector := .init
  retry := false
  connect_ := true
  connection := none
  conns := []
  pendingFunctors := []
  destroyed := []

def findConn (s : TcpClient) (c : Nat) : Except ClientFault TcpConnection :=
  match s.conns[c]? with
  | some tcp => return tcp
  | none => .error (.fault .nullPointer)

def setConn (s : TcpClient) (c : Nat) (tcp : TcpConnection) : TcpClient :=
  { s with conns := s.conns.set c tcp }

def queueInLoop (s : TcpClient) (cb : ClientFunctor) : TcpClient :=
  { s with pendingFunctors := s.pendingFunctors ++ [cb] }

/-- `newConnection(sockfd)`. -/
def newConnection (s : TcpClient) (sockfd : Int) : Except ClientFault TcpClient := do
  let tcp ← checked (TcpConnection.init sockfd)
  let s := { s with connection := some s.conns.length }
  let tcp ← checked tcp.connectEstablished
  return { s with conns := s.conns ++ [tcp] }

/-- The connector takes a step, and `newConnectionCallback_` is called for the socket it hands
on. -/
def drive (s : TcpClient) (l : Connector.Label) : Except ClientFault TcpClient := do
  let connector ← checked (s.connector.step l)
  let sockets := connector.handed.drop s.connector.handed.length
  sockets.foldlM newConnection { s with connector }

/-- `connect()`. -/
def connect (s : TcpClient) (isInLoopThread : Bool) (a : SocketAnswers) :
    Except ClientFault TcpClient :=
  { s with connect_ := true }.drive (.start isInLoopThread a)

/-- `stop()`. -/
def stop (s : TcpClient) : Except ClientFault TcpClient :=
  { s with connect_ := false }.drive .stop

/-- `removeConnection(conn)`, the `closeCallback_` of every connection. -/
def removeConnection (s : TcpClient) (c : Nat) (a : SocketAnswers) :
    Except ClientFault TcpClient :=
  if s.connection = some c then
    let s := { s with connection := none }.queueInLoop (.connectDestroyed c)
    if s.retry && s.connect_ then s.drive (.restart a) else return s
  else .error .removeConnection

/-! ## Connections -/

/-- `TcpConnection::handleClose()`. -/
def handleClose (s : TcpClient) (c : Nat) (a : SocketAnswers) : Except ClientFault TcpClient := do
  let tcp ← s.findConn c
  let tcp ← checked tcp.handleClose
  (s.setConn c tcp).removeConnection c a

/-- `TcpConnection::forceCloseInLoop()`. -/
def forceCloseInLoop (s : TcpClient) (c : Nat) (a : SocketAnswers) :
    Except ClientFault TcpClient := do
  let tcp ← s.findConn c
  if tcp.state = .kConnected ∨ tcp.state = .kDisconnecting then s.handleClose c a else return s

/-- `TcpConnection::connectDestroyed()`. The loop handles no events while it runs functors, so
that `removeChannel` lets it through. -/
def connectDestroyed (s : TcpClient) (c : Nat) : Except ClientFault TcpClient := do
  let tcp ← s.findConn c
  let channel := { tcp.channel with addedToLoop := false }
  return { s.setConn c { tcp with channel } with destroyed := s.destroyed ++ [c] }

def shutdownInLoop (s : TcpClient) (c : Nat) : Except ClientFault TcpClient := do
  let tcp ← s.findConn c
  return s.setConn c tcp.shutdownInLoop

/-- A functor of the queue is run. -/
def runFunctor (s : TcpClient) (cb : ClientFunctor) (a : SocketAnswers) :
    Except ClientFault TcpClient :=
  let s := { s with pendingFunctors := s.pendingFunctors.erase cb }
  match cb with
  | .connectDestroyed c => s.connectDestroyed c
  | .forceCloseInLoop c => s.forceCloseInLoop c a
  | .shutdownInLoop c => s.shutdownInLoop c

/-- A callback of a connection's channel. -/
def callback (s : TcpClient) (c : Nat) (read : ReadResult) (write : WriteResult)
    (a : SocketAnswers) : Channel.Callback → Except ClientFault TcpClient
  | .close => s.handleClose c a
  | .error => return s
  | .read =>
    match read with
    | .bytes => return s
    | .eof => s.handleClose c a
    | .failed => .error (.fault .fatalLog)
  | .write => do
    let tcp ← s.findConn c
    let tcp ← checked (tcp.handleWrite write)
    return s.setConn c tcp

/-- `Channel::handleEvent` of a connection's channel. -/
def handleEvent (s : TcpClient) (c : Nat) (revents : Events) (read : ReadResult)
    (write : WriteResult) (a : SocketAnswers) : Except ClientFault TcpClient :=
  (Channel.dispatch revents).foldlM (fun s cb => s.callback c read write a cb) s

/-- `TcpConnection::send`. -/
def send (s : TcpClient) (c : Nat) (isInLoopThread : Bool) (message : Message)
    (result : WriteResult) : Except ClientFault TcpClient := do
  let tcp ← s.findConn c
  let tcp ← checked (tcp.sendMessage isInLoopThread message result)
  return s.setConn c tcp

/-- `TcpConnection::shutdown()`. -/
def shutdown (s : TcpClient) (c : Nat) (isInLoopThread : Bool) : Except ClientFault TcpClient := do
  let tcp ← s.findConn c
  let (tcp, run) := tcp.shutdown
  let s := s.setConn c tcp
  if run then
    if isInLoopThread then s.shutdownInLoop c
    else return s.queueInLoop (.shutdownInLoop c)
  else return s

/-- `TcpConnection::forceClose()`. -/
def forceClose (s : TcpClient) (c : Nat) : Except ClientFault TcpClient := do
  let tcp ← s.findConn c
  let (tcp, queue) := tcp.forceClose
  let s := s.setConn c tcp
  if queue then return s.queueInLoop (.forceCloseInLoop c) else return s

/-- `disconnect()`. -/
def disconnect (s : TcpClient) (isInLoopThread : Bool) : Except ClientFault TcpClient :=
  let s := { s with connect_ := false }
  match s.connection with
  | some c => s.shutdown c isInLoopThread
  | none => return s

/-! ## Runs -/

/-- What can happen to a client: calls of its own functions, what the loop does for its
connector and its connections, and calls of the functions of a connection. -/
inductive Label where
  | connect (isInLoopThread : Bool) (a : SocketAnswers)
  | disconnect (isInLoopThread : Bool)
  | stop
  | enableRetry
  | connector (l : Connector.Label)
  | functor (cb : ClientFunctor) (a : SocketAnswers)
  | event (c : Nat) (revents : Events) (read : ReadResult) (write : WriteResult)
      (a : SocketAnswers)
  | send (c : Nat) (isInLoopThread : Bool) (message : Message) (result : WriteResult)
  | shutdown (c : Nat) (isInLoopThread : Bool)
  | forceClose (c : Nat)
  deriving DecidableEq, Repr

/-- What the loop does for a connector. -/
def ofLoop : Connector.Label → Bool
  | .fire _ _ | .functor _ _ | .event _ _ => true
  | .start _ _ | .stop | .restart _ => false

/-- Poll may report a connection that asks for events. -/
def mayReport (s : TcpClient) (c : Nat) (revents : Events) : Bool :=
  match s.conns[c]? with
  | some tcp => tcp.channel.events ≠ 0 && Reportable tcp.channel.events revents
  | none => false

def Enabled (s : TcpClient) : Label → Prop
  | .connect _ _ | .disconnect _ | .stop | .enableRetry => True
  | .connector l => ofLoop l = true ∧ s.connector.Possible l
  | .functor cb _ => cb ∈ s.pendingFunctors
  | .event c revents _ _ _ => s.mayReport c revents = true
  | .send c _ _ _ | .shutdown c _ | .forceClose c => c < s.conns.length

instance (s : TcpClient) : (l : Label) → Decidable (s.Enabled l)
  | .connect _ _ | .disconnect _ | .stop | .enableRetry => .isTrue trivial
  | .connector l => inferInstanceAs (Decidable (ofLoop l = true ∧ s.connector.Possible l))
  | .functor cb _ => inferInstanceAs (Decidable (cb ∈ s.pendingFunctors))
  | .event c revents _ _ _ => inferInstanceAs (Decidable (s.mayReport c revents = true))
  | .send c _ _ _ | .shutdown c _ | .forceClose c =>
    inferInstanceAs (Decidable (c < s.conns.length))

def step (s : TcpClient) : Label → Except ClientFault TcpClient
  | .connect isInLoopThread a => s.connect isInLoopThread a
  | .disconnect isInLoopThread => s.disconnect isInLoopThread
  | .stop => s.stop
  | .enableRetry => return { s with retry := true }
  | .connector l => s.drive l
  | .functor cb a => s.runFunctor cb a
  | .event c revents read write a => s.handleEvent c revents read write a
  | .send c isInLoopThread message result => s.send c isInLoopThread message result
  | .shutdown c isInLoopThread => s.shutdown c isInLoopThread
  | .forceClose c => s.forceClose c

def system : System TcpClient Label ClientFault where
  enabled := Enabled
  step := step

instance (s : TcpClient) (l : Label) : Decidable (system.enabled s l) :=
  inferInstanceAs (Decidable (s.Enabled l))

end TcpClient

end ClyServer.Net
