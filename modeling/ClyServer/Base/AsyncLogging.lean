import ClyServer.Base.FixedBuffer
import ClyServer.Lib.System

/-!
# The asynchronous logger (`base/AsyncLogging.h`, `base/AsyncLogging.cpp`)

Producers append lines to `currentBuffer_` under the mutex; the logging thread
takes the filled buffers over under the same mutex, writes them out and gives two
of them back. A `unique_ptr` is an `Option`: moving out of it leaves `none`, and
going through `none` is a fault.

`threadFunc` is cut at its `while`, at its mutex, at its wait, after its swap and
at each `output.append`; between these it touches nothing another thread can see.
The size of the buffers is a parameter, `kLargeBuffer` in the source.
-/

namespace ClyServer

open ClyServer.Lib

/-- `BufferPtr`. -/
abbrev BufferPtr (SIZE : Nat) := Option (FixedBuffer SIZE)

/-- The members that producers and the logging thread share. -/
structure AsyncLogging (SIZE : Nat) where
  running : Bool
  currentBuffer : BufferPtr SIZE
  nextBuffer : BufferPtr SIZE
  buffers : List (BufferPtr SIZE)

/-- Where the logging thread is: not started, at its `while`, at its mutex, in
`wait_for`, after the swap, before writing the buffer with the index given (or
past the last one), or returned. -/
inductive LoggingPlace where
  | idle
  | test
  | locking
  | waiting
  | swapped
  | writing (i : Nat)
  | returned
  deriving DecidableEq, Repr

/-- The shared members, the locals of `threadFunc`, and what it has done with the
buffers: `written` are the contents handed to `output.append`, `notices` the
texts about dropped buffers handed to it, and `dropped` the contents of those. -/
structure LoggingThread (SIZE : Nat) where
  log : AsyncLogging SIZE
  place : LoggingPlace
  newBuffer1 : BufferPtr SIZE
  newBuffer2 : BufferPtr SIZE
  writeLog : List (BufferPtr SIZE)
  written : List Bytes
  notices : List Bytes
  dropped : List Bytes

theorem length_zeros (SIZE : Nat) : (List.replicate SIZE (0 : UInt8)).length = SIZE :=
  List.length_replicate

/-- `new Buffer` and `bzero()`. What the memory held before makes no difference. -/
def zeroed (SIZE : Nat) : FixedBuffer SIZE :=
  (FixedBuffer.new (List.replicate SIZE 0) (length_zeros SIZE)).bzero

/-- The bytes a pointer's buffer would hand over. -/
def contentsOf {SIZE : Nat} (p : BufferPtr SIZE) : Bytes := (p.map FixedBuffer.contents).getD []

namespace AsyncLogging

variable {SIZE : Nat}

/-- `AsyncLogging::AsyncLogging`. -/
def init (SIZE : Nat) : AsyncLogging SIZE where
  running := false
  currentBuffer := some (zeroed SIZE)
  nextBuffer := some (zeroed SIZE)
  buffers := []

/-- `append(logline, len)`. `fresh` is a buffer as `new Buffer` would make it, in
whatever memory it finds. -/
def append (log : AsyncLogging SIZE) (logline : Bytes) (fresh : FixedBuffer SIZE) :
    Checked (AsyncLogging SIZE) :=
  match log.currentBuffer with
  | none => .error .nullPointer
  | some current =>
    if logline.length < current.avail then
      return { log with currentBuffer := some (current.append logline) }
    else
      let buffers := log.buffers ++ [some current]
      match log.nextBuffer with
      | some next =>
        return { log with currentBuffer := some (next.append logline), nextBuffer := none, buffers }
      | none => return { log with currentBuffer := some (fresh.append logline), buffers }

end AsyncLogging

namespace LoggingThread

variable {SIZE : Nat}

/-- Nothing appended and the thread not started. -/
def init (SIZE : Nat) : LoggingThread SIZE where
  log := .init SIZE
  place := .idle
  newBuffer1 := none
  newBuffer2 := none
  writeLog := []
  written := []
  notices := []
  dropped := []

/-- `start()`: `running_` is set and `threadFunc` makes its two buffers. -/
def start (s : LoggingThread SIZE) : LoggingThread SIZE :=
  { s with
    log := { s.log with running := true }
    place := .test
    newBuffer1 := some (zeroed SIZE)
    newBuffer2 := some (zeroed SIZE) }

/-- `stop()` up to its `join`. -/
def stop (s : LoggingThread SIZE) : LoggingThread SIZE :=
  { s with log := { s.log with running := false } }

/-- A pointer to an empty buffer: `p && p->length() == 0`. -/
def isEmptyBuffer (p : BufferPtr SIZE) : Bool :=
  match p with
  | some b => b.length = 0
  | none => false

/-- The test of the `while` and the assertions behind it. -/
def test (s : LoggingThread SIZE) : Checked (LoggingThread SIZE) := do
  if s.log.running then
    check (isEmptyBuffer s.newBuffer1) .newBuffer1
    check (isEmptyBuffer s.newBuffer2) .newBuffer2
    check (s.writeLog = []) .writeLogEmpty
    return { s with place := .locking }
  else return { s with place := .returned }

/-- The rest of the locked block, after its wait: the current buffer goes to the
end of `buffers_`, which is swapped with the empty `WriteLog`, and the two
producers' buffers are replaced as far as they are gone. -/
def swapBuffers (s : LoggingThread SIZE) : LoggingThread SIZE :=
  let buffers := s.log.buffers ++ [s.log.currentBuffer]
  let log := { s.log with currentBuffer := s.newBuffer1, buffers := s.writeLog }
  match s.log.nextBuffer with
  | some _ => { s with log, newBuffer1 := none, writeLog := buffers, place := .swapped }
  | none =>
    { s with
      log := { log with nextBuffer := s.newBuffer2 }
      newBuffer1 := none
      newBuffer2 := none
      writeLog := buffers
      place := .swapped }

/-- The locked block up to its wait. -/
def lock (s : LoggingThread SIZE) : LoggingThread SIZE :=
  if s.log.buffers = [] then { s with place := .waiting } else s.swapBuffers

/-- The text about dropped buffers, for a formatted time. -/
def droppedMessage (time : Bytes) (count : Nat) : Bytes :=
  ascii "Dropped log messages at " ++ time ++ ascii ", " ++ decimal count ++
    ascii " larger buffers\n"

/-- After the swap: with more than 25 buffers at hand all but two are dropped. -/
def overload (s : LoggingThread SIZE) (time : Bytes) : LoggingThread SIZE :=
  if s.writeLog.length > 25 then
    { s with
      place := .writing 0
      writeLog := s.writeLog.take 2
      notices := s.notices ++ [droppedMessage time (s.writeLog.length - 2)]
      dropped := s.dropped ++ (s.writeLog.drop 2).map contentsOf }
  else { s with place := .writing 0 }

/-- `output.append(buffer->data(), buffer->length())` for the next buffer. -/
def write (s : LoggingThread SIZE) (i : Nat) : Checked (LoggingThread SIZE) :=
  match s.writeLog[i]? with
  | some (some b) =>
    return { s with place := .writing (i + 1), written := s.written ++ [b.contents] }
  | some none => .error .nullPointer
  | none => .error .outOfRange

/-- One refill: a pointer that is null is given the last buffer of `WriteLog`,
reset. -/
def refill (p : BufferPtr SIZE) (writeLog : List (BufferPtr SIZE)) :
    Checked (BufferPtr SIZE × List (BufferPtr SIZE)) :=
  match p with
  | some b => return (some b, writeLog)
  | none => do
    check (writeLog ≠ []) .writeLogRefill
    match writeLog.getLast? with
    | some (some b) => return (some b.reset, writeLog.dropLast)
    | _ => .error .nullPointer

/-- From the end of the writing to the `while`: `WriteLog` is cut to two, the two
spare buffers are refilled from it and it is cleared. -/
def recycle (s : LoggingThread SIZE) : Checked (LoggingThread SIZE) := do
  let writeLog := if s.writeLog.length > 2 then s.writeLog.take 2 else s.writeLog
  let (newBuffer1, writeLog) ← refill s.newBuffer1 writeLog
  let (newBuffer2, _) ← refill s.newBuffer2 writeLog
  return { s with place := .test, newBuffer1, newBuffer2, writeLog := [] }

/-- What can happen next: a producer's append, `start` and `stop`, and the steps
of the thread. -/
inductive Label (SIZE : Nat) where
  | append (logline : Bytes) (fresh : FixedBuffer SIZE)
  | start
  | stop
  | test
  | lock
  | wake
  | overload (time : Bytes)
  | write
  | recycle

/-- The labels a state allows. A line fits in an empty buffer, and a buffer just
allocated is empty. -/
def Enabled (s : LoggingThread SIZE) : Label SIZE → Prop
  | .append logline fresh => logline.length < SIZE ∧ fresh.cur = 0
  | .start => s.place = .idle
  | .stop => True
  | .test => s.place = .test
  | .lock => s.place = .locking
  | .wake => s.place = .waiting
  | .overload _ => s.place = .swapped
  | .write => ∃ i, s.place = .writing i ∧ i < s.writeLog.length
  | .recycle => s.place = .writing s.writeLog.length

def step (s : LoggingThread SIZE) : Label SIZE → Checked (LoggingThread SIZE)
  | .append logline fresh => do
    let log ← s.log.append logline fresh
    return { s with log }
  | .start => return s.start
  | .stop => return s.stop
  | .test => s.test
  | .lock => return s.lock
  | .wake => return s.swapBuffers
  | .overload time => return s.overload time
  | .write =>
    match s.place with
    | .writing i => s.write i
    | _ => return s
  | .recycle => s.recycle

/-- The logger with any number of producers. -/
def system (SIZE : Nat) : System (LoggingThread SIZE) (Label SIZE) Fault where
  enabled := Enabled
  step := step

end LoggingThread

end ClyServer
