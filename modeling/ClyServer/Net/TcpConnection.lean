import ClyServer.Net.Buffer
import ClyServer.Net.Channel

/-!
# A connection (`net/TcpConnection.h`, `net/TcpConnection.cpp`)

The connection's own state and what its member functions do to it. Where a
function hands work to the loop or calls back the server it says so in its
answer, and whoever drives the connection acts on it: a queue of functors in
`ClyServer.Net.Sending`, the server in `ClyServer.Net.TcpServer`.

A system call's result is a parameter. What write(2) accepted is kept in
`accepted`, and `halfCloses` has, for each `shutdownWrite()`, what was in the
output buffer at that moment. `LOG_SYSERR` makes a record of level FATAL, so it
ends the process; `assertInLoopThread` logs with `LOG_FATAL`, which does not. The
user's callbacks, the input buffer and the addresses are not part of the record.
-/

namespace ClyServer.Net

/-- `TcpConnection::StateE`. -/
inductive StateE where
  | kDisconnected | kConnecting | kConnected | kDisconnecting
  deriving DecidableEq, Repr

/-- The errors of write(2) the code tells apart. -/
inductive Errno where
  | EWOULDBLOCK | EPIPE | ECONNRESET | other
  deriving DecidableEq, Repr

/-- What write(2) returned. -/
inductive WriteResult where
  | accepted (n : Nat)
  | failed (errno : Errno)
  deriving DecidableEq, Repr

/-- What `readFd` returned. -/
inductive ReadResult where
  | bytes
  | eof
  | failed
  deriving DecidableEq, Repr

structure TcpConnection where
  state : StateE
  channel : Channel
  outputBuffer : Buffer
  accepted : Bytes
  halfCloses : List Bytes
  deriving DecidableEq, Repr

/-- A `size_t` as the `int` it is converted to. -/
def toInt (size : Nat) : Int := (BitVec.ofNat 32 size).toInt

/-- An `int` as the `size_t` it is converted to. -/
def toSizeT (len : Int) : Nat := (BitVec.ofInt 64 len).toNat

/-- What a caller of `send` hands over: `len` bytes, a string or a buffer.
`behind` is what memory holds behind a string's bytes. -/
inductive Message where
  | data (bytes : Bytes)
  | string (bytes behind : Bytes)
  | buffer (buf : Buffer)
  deriving DecidableEq, Repr

namespace Message

/-- The message. -/
def bytes : Message → Bytes
  | data bytes => bytes
  | string bytes _ => bytes
  | buffer buf => buf.readable

/-- What memory holds from the message's first byte on. -/
def memory : Message → Bytes
  | data bytes => bytes
  | string bytes behind => bytes ++ behind
  | buffer buf => buf.readable

/-- The length `sendInLoop` is called with. `send(const string&)` goes through an
`int`; `send(const void*, int)` is given one. -/
def length : Message → Nat
  | data bytes => bytes.length
  | string bytes _ => toSizeT (toInt bytes.length)
  | buffer buf => buf.readableBytes

end Message

namespace TcpConnection

/-- `TcpConnection::TcpConnection`. -/
def init (sockfd : Int) : Checked TcpConnection := do
  let outputBuffer ← Buffer.init Buffer.kInitialSize
  return {
    state := .kConnecting
    channel := .init sockfd
    outputBuffer
    accepted := []
    halfCloses := [] }

def setState (c : TcpConnection) (s : StateE) : TcpConnection := { c with state := s }

/-- A change of the channel's interest, and `update()`. -/
def setInterest (c : TcpConnection) (change : Events → Events) : TcpConnection :=
  { c with channel := { c.channel with
      events := change c.channel.events, addedToLoop := true } }

/-- `connectEstablished()` up to its callback. -/
def connectEstablished (c : TcpConnection) : Checked TcpConnection := do
  check (c.state = .kConnecting) .connectEstablished
  return (c.setState .kConnected).setInterest Channel.enableReading

/-- `sendInLoop(message, len)`, for what memory holds at `message`. What is not
written directly is not kept: the code that would buffer it is commented out. -/
def sendInLoop (c : TcpConnection) (memory : Bytes) (result : WriteResult) :
    Checked TcpConnection :=
  if c.state = .kDisconnected then return c
  else if !c.channel.isWriting && c.outputBuffer.readableBytes = 0 then
    match result with
    | .accepted n => return { c with accepted := c.accepted ++ memory.take n }
    | .failed errno => if errno ≠ .EWOULDBLOCK then .error .fatalLog else return c
  else return c

/-- `send(const void* data, int len)`. The branch for another thread is commented
out. -/
def send (c : TcpConnection) (isInLoopThread : Bool) (memory : Bytes) (result : WriteResult) :
    Checked TcpConnection :=
  if c.state = .kConnected then
    if isInLoopThread then c.sendInLoop memory result else return c
  else return c

/-- `send(const string& message)`. -/
def sendString (c : TcpConnection) (isInLoopThread : Bool) (message behind : Bytes)
    (result : WriteResult) : Checked TcpConnection :=
  c.send isInLoopThread (message ++ behind) result

/-- `send(Buffer* buf)`: the connection and the buffer. -/
def sendBuffer (c : TcpConnection) (isInLoopThread : Bool) (buf : Buffer) (result : WriteResult) :
    Checked (TcpConnection × Buffer) := do
  if c.state = .kConnected then
    if isInLoopThread then
      let c ← c.sendInLoop buf.readable result
      return (c, buf.retrieveAll)
    else return (c, buf)
  else return (c, buf)

/-- One of the three, by what is sent. -/
def sendMessage (c : TcpConnection) (isInLoopThread : Bool) (message : Message)
    (result : WriteResult) : Checked TcpConnection :=
  match message with
  | .data bytes => c.send isInLoopThread bytes result
  | .string bytes behind => c.sendString isInLoopThread bytes behind result
  | .buffer buf => do
    let (c, _) ← c.sendBuffer isInLoopThread buf result
    return c

/-- The three sends differ in what they read the message from. -/
theorem sendMessage_eq (c : TcpConnection) (isInLoopThread : Bool) (message : Message)
    (result : WriteResult) :
    c.sendMessage isInLoopThread message result = c.send isInLoopThread message.memory result := by
  cases message with
  | data bytes => rfl
  | string bytes behind => rfl
  | buffer buf =>
    simp only [sendMessage, sendBuffer, send, Message.memory]
    by_cases hstate : c.state = .kConnected
    · cases isInLoopThread with
      | false => simp [hstate]
      | true =>
        simp only [hstate, if_true]
        cases c.sendInLoop buf.readable result with
        | error e => rfl
        | ok c' => rfl
    · simp [hstate]

/-- `shutdownInLoop()`. -/
def shutdownInLoop (c : TcpConnection) : TcpConnection :=
  if c.channel.isWriting then c
  else { c with halfCloses := c.halfCloses ++ [c.outputBuffer.readable] }

/-- `shutdown()` up to its `runInLoop`, and whether it gets there. -/
def shutdown (c : TcpConnection) : TcpConnection × Bool :=
  if c.state = .kConnected then (c.setState .kDisconnecting, true) else (c, false)

/-- `forceClose()` up to its `queueInLoop`, and whether it gets there. -/
def forceClose (c : TcpConnection) : TcpConnection × Bool :=
  if c.state = .kConnected ∨ c.state = .kDisconnecting then (c.setState .kDisconnecting, true)
  else (c, false)

/-- `handleClose()` up to its callbacks. -/
def handleClose (c : TcpConnection) : Checked TcpConnection := do
  check (c.state = .kConnected ∨ c.state = .kDisconnecting) .handleClose
  return (c.setState .kDisconnected).setInterest Channel.disableAll

/-- `handleWrite()`. -/
def handleWrite (c : TcpConnection) (result : WriteResult) : Checked TcpConnection :=
  if c.channel.isWriting then
    match result with
    | .accepted (n + 1) => do
      let outputBuffer ← c.outputBuffer.retrieve (n + 1)
      let c := { c with
        accepted := c.accepted ++ c.outputBuffer.readable.take (n + 1), outputBuffer }
      if c.outputBuffer.readableBytes = 0 then
        let c := c.setInterest Channel.disableWriting
        return if c.state = .kDisconnecting then c.shutdownInLoop else c
      else return c
    | _ => .error .fatalLog
  else return c

end TcpConnection

end ClyServer.Net
