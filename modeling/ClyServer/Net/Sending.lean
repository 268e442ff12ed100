import ClyServer.Lib.System
import ClyServer.Net.BufferQueue
import ClyServer.Net.TcpConnection

/-!
# Sending on one connection

The calls of `send` and `shutdown` on a connection that has been established,
from its loop's thread or another one, the write-ready events on its channel and
the functors queued for it, in any order and with any results of write(2). The
code that would keep what a direct write leaves over, and the code that would
carry a message of another thread over to the loop, are commented out: nothing is
ever held, and what is not accepted at once is lost. `lossless_iff` says that
this is all that goes wrong: sending is a lossless FIFO in exactly the runs in
which every message that is not empty is sent from the loop's thread and accepted
whole.
-/

namespace ClyServer.Net

open ClyServer.Lib

/-- What the calls leave queued on the loop. -/
inductive ConnFunctor where
  | shutdownInLoop
  deriving DecidableEq, Repr

/-- The bytes a queued functor holds for sending. -/
def ConnFunctor.message : ConnFunctor → Bytes
  | shutdownInLoop => []

/-- A connection, its functors in the loop's queue, and the messages given to
`send` while it was connected. -/
structure Sending where
  conn : TcpConnection
  functors : List ConnFunctor
  messages : List Bytes

namespace Sending

/-- What can happen next. -/
inductive Label where
  | send (isInLoopThread : Bool) (message : Message) (result : WriteResult)
  | shutdown (isInLoopThread : Bool)
  | writeReady (result : WriteResult)
  | runFunctor
  deriving DecidableEq, Repr

/-- What write(2) may answer when it is asked to write `len` bytes of a memory: any
count of bytes that are asked for and are there, or `EWOULDBLOCK`. -/
def Allowed (len : Nat) (memory : Bytes) : WriteResult → Prop
  | .accepted n => n ≤ len ∧ n ≤ memory.length
  | .failed errno => errno = .EWOULDBLOCK

/-- The labels a state allows. -/
def Enabled (s : Sending) : Label → Prop
  | .send _ message result => Allowed message.length message.memory result
  | .shutdown _ => True
  | .writeReady result =>
    Allowed s.conn.outputBuffer.readableBytes s.conn.outputBuffer.readable result
  | .runFunctor => s.functors ≠ []

def step (s : Sending) : Label → Checked Sending
  | .send isInLoopThread message result => do
    let conn ← s.conn.sendMessage isInLoopThread message result
    let messages := if s.conn.state = .kConnected then s.messages ++ [message.bytes] else s.messages
    return { s with conn, messages }
  | .shutdown isInLoopThread =>
    let (conn, run) := s.conn.shutdown
    if run then
      if isInLoopThread then return { s with conn := conn.shutdownInLoop }
      else return { s with conn, functors := s.functors ++ [.shutdownInLoop] }
    else return { s with conn }
  | .writeReady result => do
    let conn ← s.conn.handleWrite result
    return { s with conn }
  | .runFunctor =>
    match s.functors with
    | .shutdownInLoop :: rest => return { s with conn := s.conn.shutdownInLoop, functors := rest }
    | [] => return s

def system : System Sending Label Fault where
  enabled := Enabled
  step := step

/-- A connection just established, with nothing sent. -/
def start (conn : TcpConnection) : Sending := ⟨conn, [], []⟩

/-- What is still held for sending: the output buffer, then the queued functors. -/
def held (s : Sending) : Bytes :=
  s.conn.outputBuffer.readable ++ (s.functors.map ConnFunctor.message).flatten

/-- Nothing is lost, duplicated or reordered, and no half-close came while
something was held. -/
structure Lossless (s : Sending) : Prop where
  kept : s.conn.accepted ++ s.held = s.messages.flatten
  halfClosed : ∀ b ∈ s.conn.halfCloses, b = []

/-- The step delivers what it is given: if it is a send on a connection that is
connected, and not of an empty message, it is made on the loop's thread and
write(2) accepts the whole of it. -/
def Delivers (s : Sending) : Label → Prop
  | .send isInLoopThread message result => s.conn.state = .kConnected → message.bytes ≠ [] →
      isInLoopThread = true ∧ result = .accepted message.bytes.length
  | _ => True

/-! ## Nothing is ever held -/

/-- The output buffer is empty and the channel does not ask for write-ready
events. -/
structure Idle (c : TcpConnection) : Prop where
  empty : c.outputBuffer.readable = []
  unread : c.outputBuffer.readableBytes = 0
  quiet : c.channel.isWriting = false
  halfClosed : ∀ b ∈ c.halfCloses, b = []

theorem held_eq_nil {s : Sending} (h : Idle s.conn) : s.held = [] := by
  have hfunctors : (s.functors.map ConnFunctor.message).flatten = [] := by
    rw [List.flatten_eq_nil_iff]
    intro b hb
    obtain ⟨f, _, rfl⟩ := List.mem_map.mp hb
    cases f
    rfl
  rw [held, h.empty, hfunctors]
  rfl

/-- With nothing held, a state is lossless when the kernel has what was sent. -/
theorem lossless_iff_accepted {s : Sending} (h : Idle s.conn) :
    s.Lossless ↔ s.conn.accepted = s.messages.flatten := by
  constructor
  · intro hl
    have hkept := hl.kept
    rwa [held_eq_nil h, List.append_nil] at hkept
  · intro haccepted
    refine ⟨?_, h.halfClosed⟩
    rw [held_eq_nil h, List.append_nil, haccepted]

/-- A new connection, established, is connected and idle. -/
theorem established_spec (fd : Int) :
    ∃ conn, TcpConnection.init fd >>= TcpConnection.connectEstablished = .ok conn ∧
      conn.state = .kConnected ∧ Idle conn ∧ conn.accepted = [] := by
  obtain ⟨b, hb, hwf, hempty, _⟩ := Buffer.init_spec Buffer.kInitialSize
  have hunread : b.readableBytes = 0 := by
    rw [← hwf.length_readable, hempty]
    rfl
  have hquiet : (Channel.enableReading 0).any Channel.kWriteEvent = false := by decide
  refine ⟨⟨.kConnected, ⟨fd, Channel.enableReading 0, 0, -1, true⟩, b, [], []⟩, ?_, rfl,
    ⟨hempty, hunread, hquiet, fun _ h => nomatch h⟩, rfl⟩
  rw [TcpConnection.init, hb]
  rfl

theorem idle_of_established {fd : Int} {conn : TcpConnection}
    (h : TcpConnection.init fd >>= TcpConnection.connectEstablished = .ok conn) :
    Idle conn ∧ conn.accepted = [] := by
  obtain ⟨conn', hconn', _, hidle⟩ := established_spec fd
  cases hconn'.symm.trans h
  exact hidle

theorem Idle.shutdownInLoop {c : TcpConnection} (h : Idle c) : Idle c.shutdownInLoop where
  empty := by simp [TcpConnection.shutdownInLoop, h.quiet, h.empty]
  unread := by simp [TcpConnection.shutdownInLoop, h.quiet, h.unread]
  quiet := by simp [TcpConnection.shutdownInLoop, h.quiet]
  halfClosed := by
    simp only [TcpConnection.shutdownInLoop, h.quiet, Bool.false_eq_true, if_false]
    intro b hb
    rcases List.mem_append.mp hb with hb | hb
    · exact h.halfClosed b hb
    · rw [List.mem_singleton.mp hb]
      exact h.empty

theorem accepted_shutdownInLoop (c : TcpConnection) : c.shutdownInLoop.accepted = c.accepted := by
  unfold TcpConnection.shutdownInLoop
  split <;> rfl

/-! ## What a step delivers -/

/-- The message a step hands to a connected connection. -/
def offered (c : TcpConnection) : Label → List Bytes
  | .send _ message _ => if c.state = .kConnected then [message.bytes] else []
  | _ => []

/-- The bytes the kernel accepts in a step. -/
def delivered (c : TcpConnection) : Label → Bytes
  | .send true message (.accepted n) =>
    if c.state = .kConnected then message.memory.take n else []
  | _ => []

theorem delivered_elsewhere (c : TcpConnection) (message : Message) (result : WriteResult) :
    delivered c (.send false message result) = [] := rfl

theorem delivered_failed (c : TcpConnection) (isInLoopThread : Bool) (message : Message)
    (errno : Errno) : delivered c (.send isInLoopThread message (.failed errno)) = [] := by
  cases isInLoopThread <;> rfl

theorem delivered_unconnected {c : TcpConnection} (h : c.state ≠ .kConnected) (l : Label) :
    delivered c l = [] := by
  unfold delivered
  split
  · rw [if_neg h]
  · rfl

/-- A send on an idle connection: what the kernel takes is all that changes. -/
theorem sendMessage_spec {c : TcpConnection} (h : Idle c) (isInLoopThread : Bool)
    {message : Message} {result : WriteResult}
    (hallowed : Allowed message.length message.memory result) :
    c.sendMessage isInLoopThread message result = .ok { c with
      accepted := c.accepted ++ delivered c (.send isInLoopThread message result) } := by
  rw [TcpConnection.sendMessage_eq, TcpConnection.send]
  by_cases hstate : c.state = .kConnected
  · have hopen : c.state ≠ .kDisconnected := by simp [hstate]
    cases isInLoopThread with
    | false => simp only [if_pos hstate, delivered, List.append_nil]; rfl
    | true =>
      cases result with
      | accepted n =>
        simp [TcpConnection.sendInLoop, hstate, h.quiet, h.unread, delivered]
      | failed errno =>
        have herrno : errno = .EWOULDBLOCK := hallowed
        simp only [if_pos hstate, TcpConnection.sendInLoop, if_neg hopen, h.quiet, h.unread,
          herrno, delivered, List.append_nil]
        rfl
  · rw [if_neg hstate, delivered_unconnected hstate, List.append_nil]
    rfl

/-- One step: nothing faults, nothing is held, the message offered is noted and
the kernel has what was delivered. -/
theorem step_spec {s : Sending} (h : Idle s.conn) {l : Label} (hen : s.Enabled l) :
    ∃ u, s.step l = .ok u ∧ Idle u.conn ∧
      u.conn.accepted = s.conn.accepted ++ delivered s.conn l ∧
      u.messages = s.messages ++ offered s.conn l := by
  cases l with
  | send isInLoopThread message result =>
    let conn := { s.conn with
      accepted := s.conn.accepted ++ delivered s.conn (.send isInLoopThread message result) }
    refine ⟨⟨conn, s.functors, s.messages ++ offered s.conn (.send isInLoopThread message result)⟩,
      ?_, ⟨h.empty, h.unread, h.quiet, h.halfClosed⟩, rfl, rfl⟩
    simp only [step, sendMessage_spec h isInLoopThread hen, ok_bind, pure_eq_ok]
    by_cases hstate : s.conn.state = .kConnected <;> simp [hstate, offered, conn]
  | shutdown isInLoopThread =>
    by_cases hstate : s.conn.state = .kConnected
    · have hidle : Idle (s.conn.setState .kDisconnecting) :=
        ⟨h.empty, h.unread, h.quiet, h.halfClosed⟩
      cases isInLoopThread with
      | false =>
        refine ⟨⟨s.conn.setState .kDisconnecting, s.functors ++ [.shutdownInLoop], s.messages⟩, ?_,
          hidle, (List.append_nil _).symm, (List.append_nil _).symm⟩
        simp [step, TcpConnection.shutdown, hstate]
      | true =>
        refine ⟨⟨(s.conn.setState .kDisconnecting).shutdownInLoop, s.functors, s.messages⟩, ?_,
          hidle.shutdownInLoop, ?_, (List.append_nil _).symm⟩
        · simp [step, TcpConnection.shutdown, hstate]
        · rw [accepted_shutdownInLoop]
          exact (List.append_nil _).symm
    · refine ⟨s, ?_, h, (List.append_nil _).symm, (List.append_nil _).symm⟩
      simp [step, TcpConnection.shutdown, hstate]
  | writeReady result =>
    refine ⟨s, ?_, h, (List.append_nil _).symm, (List.append_nil _).symm⟩
    simp [step, TcpConnection.handleWrite, h.quiet]
  | runFunctor =>
    cases hfunctors : s.functors with
    | nil => exact absurd hfunctors hen
    | cons f rest =>
      cases f
      refine ⟨⟨s.conn.shutdownInLoop, rest, s.messages⟩, ?_, h.shutdownInLoop, ?_,
        (List.append_nil _).symm⟩
      · simp [step, hfunctors]
      · rw [accepted_shutdownInLoop]
        exact (List.append_nil _).symm

/-- The message is what its memory starts with. -/
theorem memory_take (message : Message) :
    message.memory.take message.bytes.length = message.bytes := by
  cases message with
  | data bytes => exact List.take_length
  | string bytes behind => exact List.take_left
  | buffer buf => exact List.take_length

/-- Of an empty message nothing can be accepted. -/
theorem memory_take_of_empty {message : Message} (h : message.bytes = []) {n : Nat}
    (hn : n ≤ message.length) : message.memory.take n = [] := by
  cases message with
  | data bytes =>
    rw [Message.memory, show bytes = [] from h, List.take_nil]
  | string bytes behind =>
    have hlen : (Message.string bytes behind).length = 0 := by
      rw [Message.length, show bytes = [] from h]
      decide
    rw [hlen] at hn
    rw [Nat.le_zero.mp hn, List.take_zero]
  | buffer buf =>
    rw [Message.memory, show buf.readable = [] from h, List.take_nil]

/-- Of the bytes that are there, the message is accepted when its length is. -/
theorem memory_take_eq_iff {message : Message} {n : Nat} (hn : n ≤ message.memory.length) :
    message.memory.take n = message.bytes ↔ n = message.bytes.length := by
  constructor
  · intro h
    rw [← h, List.length_take, Nat.min_eq_left hn]
  · rintro rfl
    exact memory_take message

/-- What is delivered is what was offered exactly when the step delivers. -/
theorem delivered_eq_offered_iff {s : Sending} {l : Label} (hen : s.Enabled l) :
    delivered s.conn l = (offered s.conn l).flatten ↔ s.Delivers l := by
  cases l with
  | send isInLoopThread message result =>
    by_cases hstate : s.conn.state = .kConnected
    · have hoffered : (offered s.conn (.send isInLoopThread message result)).flatten =
          message.bytes := by simp [offered, hstate]
      have hdelivers : s.Delivers (.send isInLoopThread message result) ↔ (message.bytes ≠ [] →
          isInLoopThread = true ∧ result = .accepted message.bytes.length) :=
        ⟨fun h => h hstate, fun h _ => h⟩
      rw [hoffered, hdelivers]
      cases isInLoopThread with
      | false =>
        rw [delivered_elsewhere, eq_comm]
        exact ⟨fun hnil hne => absurd hnil hne, fun h => Decidable.byContradiction fun hne =>
          absurd (h hne).1 Bool.false_ne_true⟩
      | true =>
        cases result with
        | failed errno =>
          rw [delivered_failed, eq_comm]
          exact ⟨fun hnil hne => absurd hnil hne, fun h => Decidable.byContradiction fun hne =>
            nomatch (h hne).2⟩
        | accepted n =>
          obtain ⟨hlen, hmem⟩ : n ≤ message.length ∧ n ≤ message.memory.length := hen
          rw [delivered, if_pos hstate, memory_take_eq_iff hmem]
          by_cases hempty : message.bytes = []
          · have hnil := memory_take_of_empty hempty hlen
            have hzero : n = 0 := by
              have hlength := congrArg List.length hnil
              rw [List.length_take, Nat.min_eq_left hmem] at hlength
              exact hlength
            simp [hempty, hzero]
          · simp [hempty]
    · have hoffered : (offered s.conn (.send isInLoopThread message result)).flatten = [] := by
        simp [offered, hstate]
      rw [hoffered, delivered_unconnected hstate]
      exact ⟨fun _ h => absurd h hstate, fun _ => rfl⟩
  | shutdown isInLoopThread => exact ⟨fun _ => trivial, fun _ => rfl⟩
  | writeReady result => exact ⟨fun _ => trivial, fun _ => rfl⟩
  | runFunctor => exact ⟨fun _ => trivial, fun _ => rfl⟩

/-! ## Runs -/

section Runs

variable {fd : Int} {conn : TcpConnection}

/-- The account of a run: nothing is held, whatever happens. -/
theorem run_idle (hconn : TcpConnection.init fd >>= TcpConnection.connectEstablished = .ok conn)
    {ls : List Label} {r : Checked Sending} (h : system.Run (start conn) ls r) :
    ∃ s, r = .ok s ∧ Idle s.conn := by
  apply h.total (I := fun _ s => Idle s.conn) (idle_of_established hconn).1
  intro _ s l hs hen
  obtain ⟨u, hu, hidle, _⟩ := step_spec hs hen
  exact ⟨u, hu, hidle⟩

/-- A step from a lossless state ends in one exactly when it delivers. -/
theorem step_lossless_iff {s u : Sending} (h : Idle s.conn) (hs : s.Lossless) {l : Label}
    (hen : s.Enabled l) (hstep : s.step l = .ok u) : u.Lossless ↔ s.Delivers l := by
  obtain ⟨u', hu', hidle, haccepted, hmessages⟩ := step_spec h hen
  cases hstep.symm.trans hu'
  rw [lossless_iff_accepted hidle, haccepted, hmessages, List.flatten_append,
    (lossless_iff_accepted h).mp hs, List.append_cancel_left_eq, delivered_eq_offered_iff hen]

/-- Every state the run passes through is lossless. -/
def LosslessRun (conn : TcpConnection) (ls : List Label) : Prop :=
  ∀ pre s, pre <+: ls → system.Run (start conn) pre (.ok s) → s.Lossless

/-- Every step of the run delivers what it is given. -/
def DeliveringRun (conn : TcpConnection) (ls : List Label) : Prop :=
  ∀ pre l s, pre ++ [l] <+: ls → system.Run (start conn) pre (.ok s) → s.Delivers l

/-- **Exactly when sending is a lossless FIFO.** On a connection just established,
with any sends and shutdowns from any threads, write-ready events and queued
functors in any order and any results of write(2): no step faults, and what the
kernel accepted followed by what is held is in every state the messages in call
order, with no half-close while something is held, if and only if every message
that is not empty was sent from the loop's thread and accepted whole. -/
theorem lossless_iff (hconn : TcpConnection.init fd >>= TcpConnection.connectEstablished = .ok conn)
    {ls : List Label} {r : Checked Sending} (h : system.Run (start conn) ls r) :
    (∃ s, r = .ok s) ∧ (LosslessRun conn ls ↔ DeliveringRun conn ls) := by
  obtain ⟨s, rfl, _⟩ := run_idle hconn h
  refine ⟨⟨s, rfl⟩, fun hlossless pre l t hpre hrun => ?_, fun hdelivers pre t hpre hrun => ?_⟩
  · obtain ⟨t', ht', hidle⟩ := run_idle hconn hrun
    cases ht'
    obtain ⟨t', hrun', hen⟩ := h.taken hpre
    cases hrun.unique hrun'
    obtain ⟨u, hu, _⟩ := step_spec hidle hen
    have hbefore := hlossless pre t ((List.prefix_append pre [l]).trans hpre) hrun
    have hafter := hlossless (pre ++ [l]) u hpre (hu ▸ .snoc hrun hen)
    exact (step_lossless_iff hidle hbefore hen hu).mp hafter
  · have hstart : (start conn).Lossless := by
      obtain ⟨hidle, haccepted⟩ := idle_of_established hconn
      exact (lossless_iff_accepted hidle).mpr haccepted
    apply System.Run.along hstart ?_ hpre hrun
    intro pre l t u hpre hrun hbefore hen hstep
    obtain ⟨t', ht', hidle⟩ := run_idle hconn hrun
    cases ht'
    exact (step_lossless_iff hidle hbefore hen hstep).mpr (hdelivers pre l t hpre hrun)

end Runs

/-- A message accepted whole and then a half-close: the run is lossless. -/
theorem lossless_whole : ∃ conn r,
    TcpConnection.init 7 >>= TcpConnection.connectEstablished = .ok conn ∧
    system.Run (start conn) [.send true (.data (ascii "hello")) (.accepted 5), .shutdown true] r ∧
    LosslessRun conn [.send true (.data (ascii "hello")) (.accepted 5), .shutdown true] := by
  obtain ⟨conn, hconn, _, hidle, _⟩ := established_spec 7
  have hen : (start conn).Enabled (.send true (.data (ascii "hello")) (.accepted 5)) := by
    constructor <;> decide
  obtain ⟨u, hu, hidle', _⟩ := step_spec (s := start conn) hidle hen
  obtain ⟨v, hv, _⟩ := step_spec (s := u) (l := .shutdown true) hidle' trivial
  have hrun : system.Run (start conn)
      [.send true (.data (ascii "hello")) (.accepted 5), .shutdown true] (.ok v) :=
    .cons hen hu (.cons trivial hv .nil)
  refine ⟨conn, _, hconn, hrun, (lossless_iff hconn hrun).2.mpr fun pre l s hpre _ => ?_⟩
  have hmem := hpre.subset (List.mem_append_right pre (List.mem_singleton_self l))
  rcases List.mem_pair.mp hmem with rfl | rfl
  · exact fun _ _ => ⟨rfl, rfl⟩
  · trivial

/-- A message of five bytes of which write(2) accepts two: the other three are
gone. -/
theorem lossless_short_fails : ∃ conn s,
    TcpConnection.init 7 >>= TcpConnection.connectEstablished = .ok conn ∧
    system.Run (start conn) [.send true (.data (ascii "hello")) (.accepted 2)] (.ok s) ∧
    ¬ s.Lossless := by
  obtain ⟨conn, hconn, hstate, hidle, haccepted⟩ := established_spec 7
  have hen : (start conn).Enabled (.send true (.data (ascii "hello")) (.accepted 2)) := by
    constructor <;> decide
  obtain ⟨u, hu, hidle', hacc, hmsg⟩ := step_spec (s := start conn) hidle hen
  refine ⟨conn, u, hconn, .cons hen hu .nil, fun h => ?_⟩
  have hkept := (lossless_iff_accepted hidle').mp h
  rw [hacc, hmsg] at hkept
  simp only [start, haccepted, delivered, offered, hstate, if_true] at hkept
  revert hkept
  decide

end Sending

end ClyServer.Net
