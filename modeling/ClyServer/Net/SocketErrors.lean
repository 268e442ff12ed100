import ClyServer.Net.ServerLoops
import ClyServer.Net.SocketsOps

/-!
# Errors of system calls

The sites at which the server finds that a system call failed, with the log
statements they make. Those that mean to go on log with `LOG_SYSERR`, which ends
the process; those that mean to end it log with `LOG_FATAL`, which does not. The
only failure the server survives is a direct write that would block, because it
is not logged; and an error of accept4 that is not to be survived is not, because
`sockets::accept` logs every error with `LOG_SYSERR` first (`siteOk_iff`).

Where the model of the server has a result for the failed call, the site is what
it does (`handleRead_failed`, `send_failed`, `handleWrite_failed`).
-/

namespace ClyServer.Net

open ClyServer.Lib

/-- The sites: a negative readv in `handleRead`, a failed write in `sendInLoop` and
in `handleWrite`, a failed close, a failed shutdown, a failed accept4, and a call
that is not made on the loop's thread. -/
inductive ErrorSite where
  | readv (c : ConnId) (errno : Int)
  | write (c : ConnId) (errno : Errno)
  | writeReady (c : ConnId) (errno : Errno)
  | close (fd : Int)
  | shutdown (c : ConnId)
  | accept (errno : AcceptErrno)
  | abortNotInLoopThread (l : LoopId)
  deriving DecidableEq, Repr

namespace ErrorSite

/-- The connection the failed call was made for. -/
def conn? : ErrorSite → Option ConnId
  | readv c _ => some c
  | write c _ => some c
  | writeReady c _ => some c
  | shutdown c => some c
  | _ => none

/-- The sites that log with `LOG_FATAL`. -/
def fatal : ErrorSite → Bool
  | accept errno => !errno.recoverable
  | abortNotInLoopThread _ => true
  | _ => false

/-- A direct write that would block, and an error of accept4 that is not to be
survived. -/
def Meets : ErrorSite → Prop
  | write _ errno => errno = .EWOULDBLOCK
  | accept errno => errno.recoverable = false
  | _ => False

/-- The sites the process survives: the one that is not logged, and the one that
is logged with `LOG_FATAL` alone. -/
def survived : ErrorSite → Bool
  | write _ errno => errno = .EWOULDBLOCK
  | abortNotInLoopThread _ => true
  | _ => false

end ErrorSite

namespace TcpServer

/-- What the code does from the failed call on. -/
def failAt (s : TcpServer) : ErrorSite → Checked TcpServer
  | .readv _ _ => do
    LOG_SYSERR
    -- handleError
    LOG_ERROR
    return s
  | .write _ errno => do
    if errno ≠ .EWOULDBLOCK then LOG_SYSERR
    return s
  | .writeReady _ _ => do
    LOG_SYSERR
    return s
  | .close _ => do
    sockets.close true
    return s
  | .shutdown c => do
    sockets.shutdownWrite true
    s.shutdownInLoop c
  | .accept errno => do
    sockets.accept errno
    -- Acceptor::handleRead
    LOG_SYSERR
    return s
  | .abortNotInLoopThread _ => do
    LOG_FATAL
    return s

/-- The call is one the code makes in this state. -/
def Issued (s : TcpServer) : ErrorSite → Prop
  | .readv c _ => ∃ conn, s.conns c = some conn
  | .write c _ => ∃ conn, s.conns c = some conn ∧ conn.tcp.state = .kConnected ∧
      conn.tcp.channel.isWriting = false ∧ conn.tcp.outputBuffer.readableBytes = 0
  | .writeReady c _ => ∃ conn, s.conns c = some conn ∧ conn.tcp.channel.isWriting = true
  | .shutdown c => ∃ conn, s.conns c = some conn ∧ conn.tcp.channel.isWriting = false
  | _ => True

/-- A site that logs with `LOG_FATAL` ends the process; any other leaves it
running, with all other connections as they were. -/
def SiteOk (s : TcpServer) (site : ErrorSite) : Prop :=
  if site.fatal then s.failAt site = .error .fatalLog
  else ∃ s', s.failAt site = .ok s' ∧ ∀ d, site.conn? ≠ some d → s'.conns d = s.conns d

/-! ## The sites are the server's -/

section Server

variable {s : TcpServer} {c : ConnId} {conn : Connection}

theorem handleRead_failed (s : TcpServer) (t : LoopId) (c : ConnId) (errno : Int) :
    s.handleRead t c .failed = s.failAt (.readv c errno) := by
  rw [failAt, LOG_SYSERR_eq]
  rfl

theorem send_failed {errno : Errno} (hissued : s.Issued (.write c errno))
    (hconn : s.conns c = some conn) (message : Message) :
    s.send conn.loop c message (.failed errno) = s.failAt (.write c errno) := by
  obtain ⟨conn', hconn', hstate, hwriting, hempty⟩ := hissued
  cases hconn.symm.trans hconn'
  have hsend : conn.tcp.sendMessage true message (.failed errno) =
      if errno ≠ .EWOULDBLOCK then .error .fatalLog else .ok conn.tcp := by
    rw [TcpConnection.sendMessage_eq]
    simp [TcpConnection.send, TcpConnection.sendInLoop, hstate, hwriting, hempty]
  rw [send, findConn_of_some hconn, ok_bind, decide_eq_true rfl, hsend, failAt]
  by_cases herrno : errno = .EWOULDBLOCK
  · simp [herrno, setConn_self hconn]
  · simp only [ne_eq, herrno, not_false_eq_true, if_true, LOG_SYSERR_eq]
    rfl

theorem handleWrite_failed {errno : Errno} (hissued : s.Issued (.writeReady c errno)) :
    s.handleWrite c (.failed errno) = s.failAt (.writeReady c errno) := by
  obtain ⟨conn, hconn, hwriting⟩ := hissued
  rw [handleWrite, findConn_of_some hconn, ok_bind, failAt, LOG_SYSERR_eq]
  simp only [TcpConnection.handleWrite, hwriting, if_true]
  rfl

/-- A failed accept4 ends the process whatever its error. -/
theorem accept_failed (s : TcpServer) (errno : AcceptErrno) {connfd : Int} (h : connfd < 0) :
    s.acceptorHandleRead connfd = s.failAt (.accept errno) := by
  rw [acceptorHandleRead, if_neg (by omega), failAt, sockets.accept, LOG_SYSERR_eq]
  rfl

end Server

/-! ## Which sites do what they mean to -/

/-- What becomes of the server at a site. -/
theorem failAt_eq (s : TcpServer) (site : ErrorSite) :
    s.failAt site = if site.survived then .ok s else .error .fatalLog := by
  cases site with
  | readv c errno => rfl
  | write c errno =>
    by_cases herrno : errno = .EWOULDBLOCK
    · simp [failAt, ErrorSite.survived, herrno]
    · simp [failAt, ErrorSite.survived, herrno, error_bind]
  | writeReady c errno => rfl
  | close fd => rfl
  | shutdown c => rfl
  | accept errno => rfl
  | abortNotInLoopThread l => rfl

/-- **Exactly the failures that are handled as they are meant to be.** In every
state of the server, a failed call leaves the server running with all other
connections unchanged (or, where the code logs with `LOG_FATAL`, ends the
process) if and only if it is a direct write that would block or an accept4 whose
error is not to be survived. -/
theorem siteOk_iff (s : TcpServer) (site : ErrorSite) : s.SiteOk site ↔ site.Meets := by
  unfold SiteOk
  rw [failAt_eq]
  cases site with
  | write c errno =>
    by_cases herrno : errno = .EWOULDBLOCK
    · simp [ErrorSite.fatal, ErrorSite.Meets, ErrorSite.survived, herrno]
    · simp [ErrorSite.fatal, ErrorSite.Meets, ErrorSite.survived, herrno]
  | accept errno =>
    cases hrec : errno.recoverable with
    | true => simp [ErrorSite.fatal, ErrorSite.Meets, ErrorSite.survived, hrec]
    | false => simp [ErrorSite.fatal, ErrorSite.Meets, ErrorSite.survived, hrec]
  | _ => simp [ErrorSite.fatal, ErrorSite.Meets, ErrorSite.survived]

end TcpServer

namespace ServerLoops

/-- A connection accepted by a server without a pool. -/
def acceptOne : List Label :=
  [.pollReturn 0 [.other (.acceptChannel, POLLIN)], .handle 0 ⟨5, .bytes, .accepted 0⟩]

/-- In the state it leads to, a readv of the connection that is interrupted ends the
process and so does a connection that was aborted before it was accepted, while a
call on the wrong thread does not. -/
theorem acceptOne_sites :
    ∃ s, system.Run (start [] 0) acceptOne (.ok s) ∧
      s.server.Issued (.readv 1 4) ∧ ¬ s.server.SiteOk (.readv 1 4) ∧
      ¬ s.server.SiteOk (.accept .ECONNABORTED) ∧
      ¬ s.server.SiteOk (.abortNotInLoopThread 0) := by
  obtain ⟨s, hrun, hconn⟩ : ∃ s, system.Run (start [] 0) acceptOne (.ok s) ∧
      (s.server.conns 1).isSome = true := System.run_of_reaches (by decide +kernel)
  refine ⟨s, hrun, Option.isSome_iff_exists.mp hconn, ?_, ?_, ?_⟩
  · intro h
    obtain ⟨s', hs', _⟩ := h
    cases hs'
  · intro h
    obtain ⟨s', hs', _⟩ := h
    cases hs'
  · intro h
    cases h

end ServerLoops

end ClyServer.Net
