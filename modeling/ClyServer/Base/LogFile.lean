import ClyServer.Base.FileUtil
import ClyServer.Lib.System

/-!
# The log file (`base/LogFile.h`, `base/LogFile.cpp`)

A log goes to one file at a time. A new one is opened when the current one has more
than `rollSize_` bytes or, looked at once in `checkEveryN_` lines, when it is another
day; but never twice in one second. The clock is read where the source reads it: once
for the day and once more in `getLogFileName`, and it may go on in between.

The mutex makes calls of `append` follow each other; `flush()` changes nothing that is
modelled.
-/

namespace ClyServer

open ClyServer.Lib

/-- What the names of log files are made of besides the clock: the text `strftime` makes
of a time, what `gethostname` answers, and the process. -/
structure LogFileEnvironment where
  timebuf : Int → Bytes
  gethostname : Option Bytes
  getpid : Nat

/-- `hostname()`. -/
def hostname (env : LogFileEnvironment) : Bytes :=
  match env.gethostname with
  | some name => name.take 255
  | none => ascii "unknownhost"

structure LogFile where
  basename : Bytes
  rollSize : Int
  flushInterval : Int
  checkEveryN : Int
  count : Int
  startOfPeriod : Int
  lastRoll : Int
  lastFlush : Int
  file : Option AppendFile

namespace LogFile

def kRollPerSeconds : Int := 60 * 60 * 24

/-- `getLogFileName(basename, &now)`, when the clock reads `now`. -/
def getLogFileName (env : LogFileEnvironment) (basename : Bytes) (now : Int) : Bytes :=
  basename ++ env.timebuf now ++ hostname env ++ ascii "." ++ decimal env.getpid ++ ascii ".log"

/-- `now / kRollPerSeconds_ * kRollPerSeconds_`. -/
def periodOf (now : Int) : Int := now.tdiv kRollPerSeconds * kRollPerSeconds

/-- `rollFile()`, when the clock reads `now`; `opened` is whether `fopen` succeeds. -/
def rollFile (env : LogFileEnvironment) (f : LogFile) (now : Int) (opened : Bool) :
    Checked (LogFile × Bool) := do
  let filename := getLogFileName env f.basename now
  let start := periodOf now
  if now > f.lastRoll then
    let file ← AppendFile.new filename opened
    return ({ f with lastRoll := now, lastFlush := now, startOfPeriod := start,
                     file := some file }, true)
  else return (f, false)

/-- `LogFile(basename, rollSize, threadSafe, flushInterval, checkEveryN)`. -/
def new (env : LogFileEnvironment) (basename : Bytes) (rollSize flushInterval checkEveryN : Int)
    (now : Int) (opened : Bool) : Checked LogFile := do
  check (47 ∉ basename) .logFile
  let f : LogFile :=
    { basename, rollSize, flushInterval, checkEveryN, count := 0, startOfPeriod := 0,
      lastRoll := 0, lastFlush := 0, file := none }
  let (f, _) ← f.rollFile env now opened
  return f

/-- A call of `append`: the line, the results of its writes, the time at which they are made,
and what the clock reads when it is asked the first and the second time. -/
structure Call where
  logline : Bytes
  results : List WriteResult
  time : Int
  now : Int
  later : Int
  opened : Bool

/-- `append_unlocked(logline, len)`, and whether a file was opened. -/
def appendUnlocked (env : LogFileEnvironment) (f : LogFile) (c : Call) :
    Checked (LogFile × Bool) := do
  match f.file with
  | none => .error .nullPointer
  | some file =>
    let file ← file.append c.logline c.results
    let f := { f with file := some file }
    if (file.writtenBytes : Int) > f.rollSize then f.rollFile env c.now c.opened
    else
      let f := { f with count := f.count + 1 }
      if f.count ≥ f.checkEveryN then
        let f := { f with count := 0 }
        let thisPeriod := periodOf c.now
        if thisPeriod ≠ f.startOfPeriod then f.rollFile env c.later c.opened
        else if c.now - f.lastFlush > f.flushInterval then
          return ({ f with lastFlush := c.now }, false)
        else return (f, false)
      else return (f, false)

end LogFile

/-! ## Runs -/

/-- A file of the log: when it was opened, and when each of its lines was written. -/
structure FileRecord where
  opened : Int
  lines : List Int

/-- A line written to a file. -/
def FileRecord.add (r : FileRecord) (time : Int) : FileRecord :=
  { r with lines := r.lines ++ [time] }

/-- A log, the time, and the files it has written. -/
structure LogHistory where
  log : LogFile
  clock : Int
  closed : List FileRecord
  current : FileRecord

namespace LogHistory

/-- A log just constructed, when the clock read `now`. -/
def start (log : LogFile) (now : Int) : LogHistory := ⟨log, now, [], ⟨now, []⟩⟩

/-- The calls that can come next where files can be opened and written: the clock does not
go back. -/
def Enabled (s : LogHistory) (c : LogFile.Call) : Prop :=
  s.clock ≤ c.time ∧ c.time ≤ c.now ∧ c.now ≤ c.later ∧ c.opened = true ∧
    AppendFile.Succeed c.logline.length c.results

/-- The files after a line was written: the line went to the current one, whether or not a new
one was opened after it. -/
def record (s : LogHistory) (c : LogFile.Call) (log : LogFile) (rolled : Bool) : LogHistory :=
  let current := s.current.add c.time
  if rolled then ⟨log, c.later, s.closed ++ [current], ⟨log.lastRoll, []⟩⟩
  else ⟨log, c.later, s.closed, current⟩

def step (env : LogFileEnvironment) (s : LogHistory) (c : LogFile.Call) : Checked LogHistory := do
  let (log, rolled) ← s.log.appendUnlocked env c
  return s.record c log rolled

def system (env : LogFileEnvironment) : System LogHistory LogFile.Call Fault where
  enabled := Enabled
  step := step env

end LogHistory

end ClyServer
