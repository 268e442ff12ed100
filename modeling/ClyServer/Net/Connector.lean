import ClyServer.Lib.System
import ClyServer.Net.Channel
import ClyServer.Net.SocketsOps

/-!
# The connector (`net/Connector.h`, `net/Connector.cpp`)

A connector makes one connection to a server: it creates a socket, begins to connect
it, waits on a channel for the end of that, and then hands the socket on or closes it
and tries again later. Three things it leaves to the loop for later: the start of
another attempt (`runAfter`), the stop (`queueInLoop`), and the destruction of a channel
inside of whose `handleEvent` it may be (`queueInLoop`).

The state has the members of the class, what it left with the loop, and its sockets.
A socket is named by its place in the order of creation, not by its descriptor, which
the kernel gives again once it was closed. Which of the functors and timers that were
left with the loop comes next is open; `runAfter` is not in the repository, and nothing
more is assumed of it.
-/

namespace ClyServer.Net

open ClyServer.Lib

/-- The errors of connect(2) the code tells apart. -/
inductive ConnectErrno where
  | EINPROGRESS | EINTR | EISCONN
  | EAGAIN | EADDRINUSE | EADDRNOTAVAIL | ECONNREFUSED | ENETUNREACH
  | EACCES | EPERM | EAFNOSUPPORT | EALREADY | EBADF | EFAULT | ENOTSOCK
  | other (code : Int)
  deriving DecidableEq, Repr

/-- What the system calls of one step answer, each of which is made at most once in it: whether
socket(2) succeeds, how connect(2) ends, whether close(2) fails, what `getSocketError` returns,
and whether the two addresses of the socket can be had and are the same. -/
structure SocketAnswers where
  socket : Bool
  connect : Option ConnectErrno
  closeFails : Bool
  socketError : Int
  addresses : Bool
  sameAddress : Bool
  deriving DecidableEq, Repr

/-- The answers of an attempt that goes well: connect(2) is in progress, and then there is no
error. -/
def SocketAnswers.inProgress : SocketAnswers where
  socket := true
  connect := some .EINPROGRESS
  closeFails := false
  socketError := 0
  addresses := true
  sameAddress := false

/-- `Connector::States`. -/
inductive ConnectorState where
  | kDisconnected | kConnecting | kConnected
  deriving DecidableEq, Repr

/-- What a connector gives to `queueInLoop`. -/
inductive ConnectorFunctor where
  | startInLoop | stopInLoop | resetChannel
  deriving DecidableEq, Repr

structure Connector where
  connect_ : Bool
  state : ConnectorState
  channel : Option Channel
  retryDelayMs : Nat
  /-- The functors in the loop's queue. -/
  pendingFunctors : List ConnectorFunctor
  /-- The delays of the retries that are scheduled. -/
  timers : List Nat
  /-- The sockets that were created, closed, and handed to `newConnectionCallback_`. -/
  created : List Int
  closed : List Int
  handed : List Int
  deriving DecidableEq, Repr

namespace Connector

def kMaxRetryDelayMs : Nat := 30 * 1000

def kInitRetryDelayMs : Nat := 500

/-- `Connector(loop, serverAddr)`. -/
def init : Connector where
  connect_ := false
  state := .kDisconnected
  channel := none
  retryDelayMs := kInitRetryDelayMs
  pendingFunctors := []
  timers := []
  created := []
  closed := []
  handed := []

/-- `loop_->queueInLoop(cb)`. -/
def queueInLoop (c : Connector) (cb : ConnectorFunctor) : Connector :=
  { c with pendingFunctors := c.pendingFunctors ++ [cb] }

/-- `sockets::close(sockfd)`. -/
def close (c : Connector) (a : SocketAnswers) (sockfd : Int) : Checked Connector := do
  sockets.close a.closeFails
  return { c with closed := c.closed ++ [sockfd] }

/-- `retry(sockfd)`. -/
def retry (c : Connector) (a : SocketAnswers) (sockfd : Int) : Checked Connector := do
  let c ← c.close a sockfd
  let c := { c with state := .kDisconnected }
  if c.connect_ then
    return { c with timers := c.timers ++ [c.retryDelayMs]
                    retryDelayMs := min (c.retryDelayMs * 2) kMaxRetryDelayMs }
  else return c

/-- `connecting(sockfd)`: the channel is made and `enableWriting()` puts it in the loop. -/
def connecting (c : Connector) (sockfd : Int) : Checked Connector := do
  let c := { c with state := .kConnecting }
  check (c.channel = none) .connecting
  let channel := Channel.init sockfd
  return { c with channel := some { channel with
    events := Channel.enableWriting channel.events, addedToLoop := true } }

/-- `removeAndResetChannel()`. -/
def removeAndResetChannel (c : Connector) : Checked (Connector × Int) :=
  match c.channel with
  | none => .error .nullPointer
  | some channel =>
    let channel := { channel with
      events := Channel.disableAll channel.events, addedToLoop := false }
    return ({ c with channel := some channel }.queueInLoop .resetChannel, channel.fd)

/-- `resetChannel()`. -/
def resetChannel (c : Connector) : Connector := { c with channel := none }

/-- `connect()`. -/
def connect (c : Connector) (a : SocketAnswers) : Checked Connector := do
  sockets.createNonblockingOrDie a.socket
  let sockfd : Int := c.created.length
  let c := { c with created := c.created ++ [sockfd] }
  match a.connect with
  | none | some .EINPROGRESS | some .EINTR | some .EISCONN => c.connecting sockfd
  | some .EAGAIN | some .EADDRINUSE | some .EADDRNOTAVAIL | some .ECONNREFUSED
  | some .ENETUNREACH => c.retry a sockfd
  | some .EACCES | some .EPERM | some .EAFNOSUPPORT | some .EALREADY | some .EBADF
  | some .EFAULT | some .ENOTSOCK => do
    LOG_SYSERR
    c.close a sockfd
  | some (.other _) => do
    LOG_SYSERR
    c.close a sockfd

/-- `startInLoop()`. -/
def startInLoop (c : Connector) (a : SocketAnswers) : Checked Connector := do
  check (c.state = .kDisconnected) .startInLoop
  if c.connect_ then c.connect a else return c

/-- `start()`, by the loop's thread or another one. -/
def start (c : Connector) (isInLoopThread : Bool) (a : SocketAnswers) : Checked Connector :=
  let c := { c with connect_ := true }
  if isInLoopThread then c.startInLoop a else return c.queueInLoop .startInLoop

/-- `stop()`. -/
def stop (c : Connector) : Connector := { c with connect_ := false }.queueInLoop .stopInLoop

/-- `stopInLoop()`. -/
def stopInLoop (c : Connector) (a : SocketAnswers) : Checked Connector :=
  if c.state = .kConnecting then do
    let c := { c with state := .kDisconnected }
    let (c, sockfd) ← c.removeAndResetChannel
    c.retry a sockfd
  else return c

/-- `restart()`. -/
def restart (c : Connector) (a : SocketAnswers) : Checked Connector :=
  { c with state := .kDisconnected, retryDelayMs := kInitRetryDelayMs,
           connect_ := true }.startInLoop a

/-- `handleWrite()`, the channel's write callback. -/
def handleWrite (c : Connector) (a : SocketAnswers) : Checked Connector :=
  if c.state = .kConnecting then do
    let (c, sockfd) ← c.removeAndResetChannel
    if a.socketError ≠ 0 then c.retry a sockfd
    else
      let selfConnect ← sockets.isSelfConnect a.addresses a.sameAddress
      if selfConnect then c.retry a sockfd
      else
        let c := { c with state := .kConnected }
        if c.connect_ then return { c with handed := c.handed ++ [sockfd] }
        else c.close a sockfd
  else do
    check (c.state = .kDisconnected) .handleWrite
    return c

/-- `handleError()`, its error callback. -/
def handleError (c : Connector) (a : SocketAnswers) : Checked Connector := do
  LOG_ERROR
  if c.state = .kConnecting then
    let (c, sockfd) ← c.removeAndResetChannel
    c.retry a sockfd
  else return c

/-- The callbacks set in the channel; the other two are empty. -/
def callback (a : SocketAnswers) (c : Connector) : Channel.Callback → Checked Connector
  | .write => c.handleWrite a
  | .error => c.handleError a
  | .close | .read => return c

/-- `handleEvent` of the channel. -/
def handleEvent (c : Connector) (a : SocketAnswers) (revents : Events) : Checked Connector :=
  (Channel.dispatch revents).foldlM (callback a) c

/-- A functor of the loop's queue is run. -/
def runFunctor (c : Connector) (a : SocketAnswers) (cb : ConnectorFunctor) : Checked Connector :=
  let c := { c with pendingFunctors := c.pendingFunctors.erase cb }
  match cb with
  | .startInLoop => c.startInLoop a
  | .stopInLoop => c.stopInLoop a
  | .resetChannel => return c.resetChannel

/-- A scheduled retry fires. -/
def fire (c : Connector) (a : SocketAnswers) (delay : Nat) : Checked Connector :=
  { c with timers := c.timers.erase delay }.startInLoop a

/-! ## Runs -/

/-- What can happen to a connector. -/
inductive Label where
  | start (isInLoopThread : Bool) (a : SocketAnswers)
  | stop
  | restart (a : SocketAnswers)
  | fire (delay : Nat) (a : SocketAnswers)
  | functor (cb : ConnectorFunctor) (a : SocketAnswers)
  | event (revents : Events) (a : SocketAnswers)
  deriving DecidableEq, Repr

/-- When it can happen: functors and timers that were left with the loop, and events poll can
report of a channel that is in it. -/
def Possible (c : Connector) : Label → Prop
  | .start _ _ | .stop | .restart _ => True
  | .fire delay _ => delay ∈ c.timers
  | .functor cb _ => cb ∈ c.pendingFunctors
  | .event revents _ =>
    ∃ channel ∈ c.channel, channel.addedToLoop = true ∧ Reportable channel.events revents

instance (c : Connector) : (l : Label) → Decidable (c.Possible l)
  | .start _ _ | .stop | .restart _ => .isTrue trivial
  | .fire delay _ => inferInstanceAs (Decidable (delay ∈ c.timers))
  | .functor cb _ => inferInstanceAs (Decidable (cb ∈ c.pendingFunctors))
  | .event revents _ => inferInstanceAs (Decidable (∃ channel ∈ c.channel,
      channel.addedToLoop = true ∧ Reportable channel.events revents))

def step (c : Connector) : Label → Checked Connector
  | .start isInLoopThread a => c.start isInLoopThread a
  | .stop => return c.stop
  | .restart a => c.restart a
  | .fire delay a => c.fire a delay
  | .functor cb a => c.runFunctor a cb
  | .event revents a => c.handleEvent a revents

/-- A connector whose owner keeps to `allowed`. -/
def system (allowed : Connector → Label → Prop) : System Connector Label Fault where
  enabled c l := c.Possible l ∧ allowed c l
  step := step

instance {allowed : Connector → Label → Prop} [∀ c l, Decidable (allowed c l)] (c : Connector)
    (l : Label) : Decidable ((system allowed).enabled c l) := inferInstanceAs (Decidable (_ ∧ _))

/-- `TcpClient` restarts a connector only when it is connected. -/
def Owner (c : Connector) : Label → Prop
  | .restart _ => c.state = .kConnected
  | _ => True

instance (c : Connector) : (l : Label) → Decidable (c.Owner l)
  | .restart _ => inferInstanceAs (Decidable (c.state = .kConnected))
  | .start _ _ | .stop | .fire _ _ | .functor _ _ | .event _ _ => .isTrue trivial

end Connector

end ClyServer.Net
