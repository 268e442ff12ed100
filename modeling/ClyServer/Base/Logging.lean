import ClyServer.Base.Types

/-!
# The logger (`base/Logging.h`, `base/Logging.cpp`)

A log statement makes a `Logger`, writes into its stream and destroys it at the
end of the statement; the destructor hands the line on and calls `abort` if the
level is FATAL. Which statements end the process is therefore decided by the
argument their macro gives the constructor. The three macros that leave the level
to the constructor pass it `toAbort`, and `LOG_FATAL` passes false where
`LOG_SYSERR` passes true.
-/

namespace ClyServer

/-- `Logger::LogLevel`. -/
inductive LogLevel where
  | TRACE | DEBUG | INFO | WARN | ERROR | FATAL
  deriving DecidableEq, Repr

/-- A `Logger`, less its stream. -/
structure Logger where
  level : LogLevel
  deriving DecidableEq, Repr

namespace Logger

/-- `Logger(file, line, level)`. -/
def ofLevel (level : LogLevel) : Logger := ⟨level⟩

/-- `Logger(file, line, toAbort)`. -/
def ofAbort (toAbort : Bool) : Logger := ⟨if toAbort then .FATAL else .ERROR⟩

/-- `~Logger()`, after the line was handed on. -/
def destroy (l : Logger) : Checked Unit :=
  if l.level = .FATAL then .error .fatalLog else .ok ()

theorem destroy_ofAbort (toAbort : Bool) :
    (ofAbort toAbort).destroy = if toAbort then .error .fatalLog else .ok () := by
  cases toAbort <;> rfl

end Logger

def LOG_ERROR : Checked Unit := (Logger.ofLevel .ERROR).destroy

def LOG_FATAL : Checked Unit := (Logger.ofAbort false).destroy

def LOG_SYSERR : Checked Unit := (Logger.ofAbort true).destroy

def LOG_SYSFATAL : Checked Unit := (Logger.ofAbort true).destroy

@[simp] theorem LOG_ERROR_eq : LOG_ERROR = .ok () := rfl

/-- `LOG_FATAL` does not end the process. -/
@[simp] theorem LOG_FATAL_eq : LOG_FATAL = .ok () := Logger.destroy_ofAbort false

/-- `LOG_SYSERR` does. -/
@[simp] theorem LOG_SYSERR_eq : LOG_SYSERR = .error .fatalLog := Logger.destroy_ofAbort true

@[simp] theorem LOG_SYSFATAL_eq : LOG_SYSFATAL = .error .fatalLog := Logger.destroy_ofAbort true

end ClyServer
