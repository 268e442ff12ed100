import ClyServer.Lib.System
import ClyServer.Net.SocketsOps
import ClyServer.Net.TcpConnection

/-!
# One connection and everything that happens to it

A connection from `connectEstablished` on: the calls of the user from any thread,
each at once, the events poll reports for its channel and the functors queued for
it, in any order. The handlers are cut at their callbacks, so that a call made
inside a callback is a step like any other: `parts` has what is left of the
handler that runs, and while there is something left no other event or functor of
the loop comes.

`reading` is `reading_`. `calls` is the history of the calls on the socket that
write or half-close, each with the `state_` it was made in. A failed assertion and
a log record of level FATAL end the run, and the outcome keeps the connection as
it was then.
-/

namespace ClyServer.Net

open ClyServer.Lib

/-- The functors a connection queues, and the server for it. -/
inductive ConnTask where
  | shutdownInLoop
  | forceCloseInLoop
  | startReadInLoop
  | stopReadInLoop
  | connectDestroyed
  deriving DecidableEq, Repr

/-- What is left of a handler: callbacks of the channel, the rest of `handleClose`
and of `handleWrite` behind the user's callback. -/
inductive HandlerPart where
  | callback (cb : Channel.Callback)
  | closeCallback
  | writeCompleted
  deriving DecidableEq, Repr

/-- The calls on the socket that matter here. -/
inductive SocketCall where
  | write
  | shutdownWrite
  deriving DecidableEq, Repr

structure LiveConnection where
  tcp : TcpConnection
  reading : Bool
  tasks : List ConnTask
  parts : List HandlerPart
  calls : List (SocketCall × StateE)
  deriving DecidableEq, Repr

/-- How a step ends: with the connection, or with what ended the process and the
connection as it was. -/
abbrev Ending := Except (Fault × LiveConnection) LiveConnection

/-- The connection at the end, either way. -/
def Ending.last : Ending → LiveConnection
  | .ok s => s
  | .error (_, s) => s

namespace LiveConnection

/-- A connection just established. -/
def start (tcp : TcpConnection) : LiveConnection where
  tcp := tcp
  reading := true
  tasks := []
  parts := []
  calls := []

/-- A part that may end the process, and what comes after it. -/
def attempt {α : Type} (s : LiveConnection) (x : Checked α) (next : α → Ending) : Ending :=
  match x with
  | .ok a => next a
  | .error e => .error (e, s)

def record (s : LiveConnection) (call : SocketCall) : LiveConnection :=
  { s with calls := s.calls ++ [(call, s.tcp.state)] }

def queue (s : LiveConnection) (task : ConnTask) : LiveConnection :=
  { s with tasks := s.tasks ++ [task] }

/-- `runInLoop(task)`, for whether the caller is the loop's thread. -/
def runInLoop (s : LiveConnection) (isInLoopThread : Bool) (task : ConnTask)
    (run : LiveConnection → Ending) : Ending :=
  if isInLoopThread then run s else .ok (s.queue task)

/-! ## The loop's side -/

/-- `shutdownInLoop()`, for whether shutdown(2) fails. -/
def shutdownInLoop (s : LiveConnection) (failed : Bool) : Ending :=
  if s.tcp.channel.isWriting then .ok s
  else
    let s := { s.record .shutdownWrite with tcp := s.tcp.shutdownInLoop }
    s.attempt (sockets.shutdownWrite failed) fun _ => .ok s

/-- `startReadInLoop()`. It does not look at `state_`. -/
def startReadInLoop (s : LiveConnection) : LiveConnection :=
  if !s.reading || !s.tcp.channel.isReading then
    { s with tcp := s.tcp.setInterest Channel.enableReading, reading := true }
  else s

/-- `stopReadInLoop()`. -/
def stopReadInLoop (s : LiveConnection) : LiveConnection :=
  if s.reading || s.tcp.channel.isReading then
    { s with tcp := s.tcp.setInterest Channel.disableReading, reading := false }
  else s

/-- `handleClose()` up to its connection callback. -/
def handleClose (s : LiveConnection) : Ending :=
  s.attempt s.tcp.handleClose fun tcp =>
    .ok { s with tcp, parts := .closeCallback :: s.parts }

/-- `forceCloseInLoop()`. -/
def forceCloseInLoop (s : LiveConnection) : Ending :=
  if s.tcp.state = .kConnected ∨ s.tcp.state = .kDisconnecting then s.handleClose else .ok s

/-- `connectDestroyed()`: `channel_->remove()`. -/
def connectDestroyed (s : LiveConnection) : LiveConnection :=
  { s with tcp := { s.tcp with channel := { s.tcp.channel with addedToLoop := false } } }

/-- `handleRead(receiveTime)` up to its message callback. -/
def handleRead (s : LiveConnection) : ReadResult → Ending
  | .bytes => .ok s
  | .eof => s.handleClose
  | .failed => s.attempt LOG_SYSERR fun _ => .ok s

/-- `handleWrite()` up to its write-complete callback. -/
def handleWrite (s : LiveConnection) (result : WriteResult) : Ending :=
  if s.tcp.channel.isWriting then
    let s := s.record .write
    match result with
    | .accepted (n + 1) => s.attempt (s.tcp.outputBuffer.retrieve (n + 1)) fun outputBuffer =>
      let tcp := { s.tcp with
        accepted := s.tcp.accepted ++ s.tcp.outputBuffer.readable.take (n + 1), outputBuffer }
      if outputBuffer.readableBytes = 0 then
        .ok { s with tcp := tcp.setInterest Channel.disableWriting
                     parts := .writeCompleted :: s.parts }
      else .ok { s with tcp }
    | _ => s.attempt LOG_SYSERR fun _ => .ok s
  else .ok s

/-- The next part of the handler that runs. -/
def handle (s : LiveConnection) (read : ReadResult) (write : WriteResult) (failed : Bool) :
    HandlerPart → Ending
  | .callback .close => s.handleClose
  | .callback .error => .ok s
  | .callback .read => s.handleRead read
  | .callback .write => s.handleWrite write
  | .closeCallback => .ok (s.queue .connectDestroyed)
  | .writeCompleted =>
    if s.tcp.state = .kDisconnecting then s.shutdownInLoop failed else .ok s

/-- A functor executed. -/
def call (s : LiveConnection) (failed : Bool) : ConnTask → Ending
  | .shutdownInLoop => s.shutdownInLoop failed
  | .forceCloseInLoop => s.forceCloseInLoop
  | .startReadInLoop => .ok s.startReadInLoop
  | .stopReadInLoop => .ok s.stopReadInLoop
  | .connectDestroyed => .ok s.connectDestroyed

/-! ## Calls of the user -/

/-- Whether `send` gets as far as write(2). -/
def sendWrites (s : LiveConnection) (isInLoopThread : Bool) : Bool :=
  s.tcp.state = .kConnected && isInLoopThread && !s.tcp.channel.isWriting &&
    s.tcp.outputBuffer.readableBytes = 0

/-- `send`, of any kind. -/
def send (s : LiveConnection) (isInLoopThread : Bool) (message : Message) (result : WriteResult) :
    Ending :=
  let s := if s.sendWrites isInLoopThread then s.record .write else s
  s.attempt (s.tcp.sendMessage isInLoopThread message result) fun tcp => .ok { s with tcp }

/-- `shutdown()`, for whether shutdown(2) fails if it is called at once. -/
def shutdown (s : LiveConnection) (isInLoopThread failed : Bool) : Ending :=
  let (tcp, run) := s.tcp.shutdown
  let s := { s with tcp }
  if run then s.runInLoop isInLoopThread .shutdownInLoop fun s => s.shutdownInLoop failed
  else .ok s

/-- `forceClose()`. -/
def forceClose (s : LiveConnection) : LiveConnection :=
  let (tcp, run) := s.tcp.forceClose
  let s := { s with tcp }
  if run then s.queue .forceCloseInLoop else s

/-- `startRead()`. -/
def startRead (s : LiveConnection) (isInLoopThread : Bool) : Ending :=
  s.runInLoop isInLoopThread .startReadInLoop fun s => .ok s.startReadInLoop

/-- `stopRead()`. -/
def stopRead (s : LiveConnection) (isInLoopThread : Bool) : Ending :=
  s.runInLoop isInLoopThread .stopReadInLoop fun s => .ok s.stopReadInLoop

/-! ## Steps -/

/-- What can happen next. -/
inductive Label where
  | send (isInLoopThread : Bool) (message : Message) (result : WriteResult)
  | shutdown (isInLoopThread failed : Bool)
  | forceClose
  | startRead (isInLoopThread : Bool)
  | stopRead (isInLoopThread : Bool)
  | pollEvent (revents : Events)
  | handle (read : ReadResult) (write : WriteResult) (failed : Bool)
  | runTask (failed : Bool)
  deriving DecidableEq, Repr

/-- The labels a state allows. Poll reports a channel that asks for events. -/
def enabled (s : LiveConnection) : Label → Bool
  | .pollEvent revents =>
    s.parts.isEmpty && s.tcp.channel.events ≠ 0 && Reportable s.tcp.channel.events revents
  | .handle .. => !s.parts.isEmpty
  | .runTask _ => s.parts.isEmpty && !s.tasks.isEmpty
  | _ => true

def step (s : LiveConnection) : Label → Ending
  | .send isInLoopThread message result => s.send isInLoopThread message result
  | .shutdown isInLoopThread failed => s.shutdown isInLoopThread failed
  | .forceClose => .ok s.forceClose
  | .startRead isInLoopThread => s.startRead isInLoopThread
  | .stopRead isInLoopThread => s.stopRead isInLoopThread
  | .pollEvent revents => .ok { s with parts := (Channel.dispatch revents).map .callback }
  | .handle read write failed =>
    match s.parts with
    | [] => .ok s
    | part :: rest => { s with parts := rest }.handle read write failed part
  | .runTask failed =>
    match s.tasks with
    | [] => .ok s
    | task :: rest => { s with tasks := rest }.call failed task

def system : System LiveConnection Label (Fault × LiveConnection) where
  enabled := fun s l => s.enabled l
  step := step

instance (s : LiveConnection) (l : Label) : Decidable (system.enabled s l) :=
  inferInstanceAs (Decidable (s.enabled l = true))

/-- A connection on descriptor 5, as `connectEstablished` leaves it. -/
def established : TcpConnection where
  state := .kConnected
  channel := ⟨5, POLLIN, 0, -1, true⟩
  outputBuffer := ⟨List.replicate 1032 0, 8, 8⟩
  accepted := []
  halfCloses := []

theorem established_eq :
    TcpConnection.init 5 >>= TcpConnection.connectEstablished = .ok established := by
  decide +kernel

end LiveConnection

end ClyServer.Net
