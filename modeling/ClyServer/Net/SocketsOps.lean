import ClyServer.Base.Logging

/-!
# Calls on sockets (`net/SocketsOps.cpp`)

What `accept`, `close`, `shutdownWrite` and the others do when the system call
behind them failed: they log it. Whether the process goes on after that is the
logger's affair (`ClyServer.Base.Logging`).
-/

namespace ClyServer.Net

/-- The errors of accept4 the code tells apart. -/
inductive AcceptErrno where
  | EAGAIN | ECONNABORTED | EINTR | EPROTO | EPERM | EMFILE
  | EBADF | EFAULT | EINVAL | ENFILE | ENOBUFS | ENOMEM | ENOTSOCK | EOPNOTSUPP
  | other (code : Int)
  deriving DecidableEq, Repr

/-- The errors after which the `switch` of `sockets::accept` goes on. -/
def AcceptErrno.recoverable : AcceptErrno → Bool
  | EAGAIN | ECONNABORTED | EINTR | EPROTO | EPERM | EMFILE => true
  | _ => false

namespace sockets

/-- `sockets::createNonblockingOrDie`, for whether socket(2) succeeded. -/
def createNonblockingOrDie (created : Bool) : Checked Unit :=
  if created then return () else LOG_SYSFATAL

/-- `sockets::accept`, after accept4 failed. -/
def accept (errno : AcceptErrno) : Checked Unit := do
  LOG_SYSERR
  if errno.recoverable then return () else LOG_FATAL

/-- `sockets::close`, for whether close(2) failed. -/
def close (failed : Bool) : Checked Unit := if failed then LOG_SYSERR else return ()

/-- `sockets::shutdownWrite`, for whether shutdown(2) failed. -/
def shutdownWrite (failed : Bool) : Checked Unit := if failed then LOG_SYSERR else return ()

/-- `sockets::isSelfConnect`, for whether getsockname(2) and getpeername(2) succeeded, and
whether they gave the same address. -/
def isSelfConnect (named same : Bool) : Checked Bool := do
  if ¬ named then LOG_SYSERR
  return same

end sockets

end ClyServer.Net
