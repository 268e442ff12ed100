import ClyServer.Net.BufferMemory
import ClyServer.Net.Sending
import ClyServer.Net.SocketsOps
import Mathlib.Data.List.Forall2

/-!
# A connection and the application behind it

A server's logic is a message callback: `handleRead` reads what has come into the input
buffer and calls it, and it calls back into the connection, `send` and `shutdown`. This module
puts the two together, for any callback: `Application` is the callback, `Service` a
connection with its input buffer and its callback's context, and a step is one
`handleEvent` of the channel, the callbacks it makes and the calls they make included.

What the peer gets of it is a conversation. `turns` has what was asked of the connection, in
order, and `spoken` is the part of it that write(2) was called for: the texts in front of the
first half-close or close. `conversation` says that this is all a connection does, for
every application that takes what it reads: the texts its callback answers for the chunks it
was given, one write(2) each, and nothing after it has closed.

The callbacks here read first and call then, so that a callback is a function from what was
read to the calls it makes. `answers` has what the kernel says to the calls of one event.
-/

namespace ClyServer.Net

open ClyServer.Lib ClyServer.Lib.System

/-- What a message callback calls on its connection. -/
inductive ConnCall where
  | send (message : Message)
  | shutdown
  deriving DecidableEq, Repr

/-- What the kernel answers to such a call, where it comes to a system call: what write(2)
returned, and whether shutdown(2) failed. -/
structure CallAnswer where
  write : WriteResult
  shutdownFailed : Bool
  deriving DecidableEq, Repr

/-- An application: its message callback, on the context it keeps with the connection, the
input buffer and the receive time. `ω` is what it finds in memory it has not written. -/
structure Application (σ ω : Type) where
  onMessage : ω → σ → Buffer → Int → Checked (List ConnCall × Buffer × σ)

/-- What was asked of a connection: a text to send, a half-close, or its end. -/
inductive Turn where
  | text (bytes : Bytes)
  | shutdown
  | closed
  deriving DecidableEq, Repr

structure Service (σ : Type) where
  tcp : TcpConnection
  inputBuffer : Buffer
  context : σ
  written : List Bytes
  turns : List Turn

/-- write(2) accepts no more than it is given. -/
def WriteResult.atMost (len : Nat) : WriteResult → WriteResult
  | accepted n => accepted (min n len)
  | failed errno => failed errno

/-- The process survives the answer. -/
structure CallAnswer.Fine (answer : CallAnswer) : Prop where
  write : ∀ errno, answer.write = .failed errno → errno = .EWOULDBLOCK
  shutdown : answer.shutdownFailed = false

/-- What write(2) is given of a message. -/
def Message.text (message : Message) : Bytes := message.memory.take message.length

/-- A size that fits an `int` survives the way through it. -/
theorem toSizeT_toInt {size : Nat} (h : size < 2147483648) : toSizeT (toInt size) = size := by
  have hint : toInt size = size := by
    rw [toInt, BitVec.toInt_ofNat']
    exact Int.bmod_eq_of_le (by omega) (by omega)
  rw [toSizeT, hint, BitVec.ofInt_natCast, BitVec.toNat_ofNat]
  exact Nat.mod_eq_of_lt (by omega)

/-- write(2) is given a string of that size, and nothing behind it. -/
theorem Message.text_string {bytes : Bytes} (h : bytes.length < 2147483648) (behind : Bytes) :
    (Message.string bytes behind).text = bytes := by
  rw [text, memory, length, toSizeT_toInt h, List.take_left]

/-- What a call asks for. -/
def ConnCall.turn : ConnCall → Turn
  | send message => .text message.text
  | shutdown => .shutdown

namespace Service

variable {σ ω : Type}

/-! ## The calls -/

/-- Whether `send` comes to write(2). -/
def sendWrites (s : Service σ) : Bool :=
  s.tcp.state = .kConnected && !s.tcp.channel.isWriting && s.tcp.outputBuffer.readableBytes = 0

/-- `send`, from the loop's thread. -/
def send (s : Service σ) (message : Message) (result : WriteResult) : Checked (Service σ) := do
  let tcp ← s.tcp.sendMessage true message (result.atMost message.length)
  return { s with
    tcp
    written := if s.sendWrites then s.written ++ [message.text] else s.written
    turns := s.turns ++ [.text message.text] }

/-- `shutdown()`, from the loop's thread. -/
def shutdown (s : Service σ) (failed : Bool) : Checked (Service σ) := do
  let (tcp, run) := s.tcp.shutdown
  let s : Service σ := { s with turns := s.turns ++ [.shutdown] }
  if run then
    if !tcp.channel.isWriting then sockets.shutdownWrite failed
    return { s with tcp := tcp.shutdownInLoop }
  else return { s with tcp }

/-- A call of the message callback. -/
def call (s : Service σ) (answer : CallAnswer) : ConnCall → Checked (Service σ)
  | .send message => s.send message answer.write
  | .shutdown => s.shutdown answer.shutdownFailed

/-- `handleClose()`. The connection callback of the applications does nothing for a
connection that is down, and what the server does then is not the connection's. -/
def handleClose (s : Service σ) : Checked (Service σ) := do
  let tcp ← s.tcp.handleClose
  return { s with tcp, turns := s.turns ++ [.closed] }

/-! ## Events -/

/-- What comes with an event: what readv(2) does if it is called, the receive time, what
the callback finds in memory, what the kernel answers to the callback's calls. -/
structure Event (ω : Type) where
  revents : Events
  read : Buffer.Readv
  receiveTime : Int
  memory : ω
  answers : Nat → CallAnswer

/-- `handleRead(receiveTime)`. -/
def handleRead (app : Application σ ω) (s : Service σ) (e : Event ω) : Checked (Service σ) := do
  let (n, _, inputBuffer) ← s.inputBuffer.readFd e.read
  if 0 < n then
    let (calls, inputBuffer, context) ←
      app.onMessage e.memory s.context inputBuffer e.receiveTime
    calls.zipIdx.foldlM (fun s c => s.call (e.answers c.2) c.1) { s with inputBuffer, context }
  else if n = 0 then handleClose { s with inputBuffer }
  else do
    LOG_SYSERR
    return { s with inputBuffer }

/-- A callback of the channel. `handleError` only logs, and nothing ever asks for
write-ready events. -/
def callback (app : Application σ ω) (e : Event ω) (s : Service σ) :
    Channel.Callback → Checked (Service σ)
  | .close => s.handleClose
  | .error => return s
  | .read => s.handleRead app e
  | .write => do
    let tcp ← s.tcp.handleWrite (e.answers 0).write
    return { s with tcp }

/-- `Channel::handleEvent`. -/
def handleEvent (app : Application σ ω) (s : Service σ) (e : Event ω) : Checked (Service σ) :=
  (Channel.dispatch e.revents).foldlM (callback app e) s

/-- Poll reports a channel that asks for events, and readv(2) stores no more than it was
offered. -/
structure Possible (s : Service σ) (e : Event ω) : Prop where
  asked : s.tcp.channel.events ≠ 0
  reported : Reportable s.tcp.channel.events e.revents
  read : e.read.Possible s.inputBuffer

instance (s : Service σ) (e : Event ω) : Decidable (Possible s e) :=
  decidable_of_iff (s.tcp.channel.events ≠ 0 ∧ Reportable s.tcp.channel.events e.revents ∧
      (e.read.n < 0 ∨ e.read.n = e.read.stored.length) ∧
      e.read.stored.length ≤ s.inputBuffer.iovecs.sum)
    ⟨fun h => ⟨h.1, h.2.1, h.2.2.1, h.2.2.2⟩,
      fun h => ⟨h.asked, h.reported, h.read.counted, h.read.offered⟩⟩

def system (app : Application σ ω) : System (Service σ) (Event ω) Fault where
  enabled := Possible
  step := handleEvent app

instance (app : Application σ ω) (s : Service σ) (e : Event ω) :
    Decidable ((system app).enabled s e) :=
  inferInstanceAs (Decidable (Possible s e))

/-- A connection just established, with an application's fresh context. -/
def start (fd : Int) (context : σ) : Checked (Service σ) := do
  let tcp ← TcpConnection.init fd
  let tcp ← tcp.connectEstablished
  let inputBuffer ← Buffer.init Buffer.kInitialSize
  return ⟨tcp, inputBuffer, context, [], []⟩

end Service

/-! ## Conversations -/

/-- The texts in front of the first half-close or close. -/
def spoken : List Turn → List Bytes
  | .text bytes :: rest => bytes :: spoken rest
  | _ => []

/-- Whether the first turn that is no text is a half-close. -/
def halfClosed : List Turn → Bool
  | .text _ :: rest => halfClosed rest
  | .shutdown :: _ => true
  | _ => false

/-- Nothing has closed yet. -/
def AllTexts (turns : List Turn) : Prop := ∀ t ∈ turns, ∃ bytes, t = .text bytes

theorem allTexts_nil : AllTexts [] := fun _ h => nomatch h

theorem allTexts_cons_iff {t : Turn} {turns : List Turn} :
    AllTexts (t :: turns) ↔ (∃ bytes, t = .text bytes) ∧ AllTexts turns :=
  List.forall_mem_cons

theorem allTexts_append_iff {turns more : List Turn} :
    AllTexts (turns ++ more) ↔ AllTexts turns ∧ AllTexts more :=
  List.forall_mem_append

/-- Where nothing has closed, a further turn counts. -/
theorem AllTexts.append {turns : List Turn} (h : AllTexts turns) (more : List Turn) :
    spoken (turns ++ more) = spoken turns ++ spoken more ∧
      halfClosed (turns ++ more) = halfClosed more := by
  induction turns with
  | nil => exact ⟨rfl, rfl⟩
  | cons t turns ih =>
    obtain ⟨⟨bytes, rfl⟩, hrest⟩ := allTexts_cons_iff.mp h
    obtain ⟨hspoken, hhalf⟩ := ih hrest
    exact ⟨congrArg (bytes :: ·) hspoken, hhalf⟩

/-- After something has closed, nothing counts. -/
theorem append_of_not_allTexts {turns : List Turn} (h : ¬ AllTexts turns) (more : List Turn) :
    spoken (turns ++ more) = spoken turns ∧ halfClosed (turns ++ more) = halfClosed turns := by
  induction turns with
  | nil => exact absurd allTexts_nil h
  | cons t turns ih =>
    cases t with
    | text bytes =>
      have hrest : ¬ AllTexts turns := fun hall => h (allTexts_cons_iff.mpr ⟨⟨bytes, rfl⟩, hall⟩)
      obtain ⟨hspoken, hhalf⟩ := ih hrest
      exact ⟨congrArg (bytes :: ·) hspoken, hhalf⟩
    | shutdown => exact ⟨rfl, rfl⟩
    | closed => exact ⟨rfl, rfl⟩

namespace Service

variable {σ ω : Type} {s : Service σ}

/-! ## What a connection says -/

/-- The connection as its turns leave it: it is open if nothing has closed, write(2) was called
for the texts up to there and took a front part of each, it was half-closed at most once, and
it asks for what the peer sends until it is closed. -/
structure Speaks (s : Service σ) : Prop where
  idle : Sending.Idle s.tcp
  opened : s.tcp.state = .kConnected ↔ AllTexts s.turns
  written : s.written = spoken s.turns
  halfCloses : s.tcp.halfCloses.length = if halfClosed s.turns then 1 else 0
  listening : .closed ∉ s.turns → s.tcp.channel.events = POLLIN
  accepted : ∃ parts, List.Forall₂ (· <+: ·) parts s.written ∧ s.tcp.accepted = parts.flatten

/-- `s'` is `s` after some turns. -/
structure Says (s : Service σ) (turns : List Turn) (s' : Service σ) : Prop where
  speaks : s'.Speaks
  turned : s'.turns = s.turns ++ turns
  inputBuffer : s'.inputBuffer = s.inputBuffer
  context : s'.context = s.context

theorem Speaks.says_self (h : s.Speaks) : Says s [] s := ⟨h, (List.append_nil _).symm, rfl, rfl⟩

theorem Says.trans {s' s'' : Service σ} {turns more : List Turn} (h : Says s turns s')
    (h' : Says s' more s'') : Says s (turns ++ more) s'' where
  speaks := h'.speaks
  turned := by rw [h'.turned, h.turned, List.append_assoc]
  inputBuffer := h'.inputBuffer.trans h.inputBuffer
  context := h'.context.trans h.context

/-- write(2) on a message that is sent: it takes a front part, or the process ends. -/
theorem sendMessage_cases {c : TcpConnection} (h : Sending.Idle c) (hstate : c.state = .kConnected)
    (message : Message) (result : WriteResult) :
    (∃ part, part <+: message.text ∧
      c.sendMessage true message (result.atMost message.length) =
        .ok { c with accepted := c.accepted ++ part }) ∨
    ∃ errno, result = .failed errno ∧ errno ≠ .EWOULDBLOCK ∧
      c.sendMessage true message (result.atMost message.length) = .error .fatalLog := by
  have hopen : c.state ≠ .kDisconnected := by simp [hstate]
  rw [TcpConnection.sendMessage_eq, TcpConnection.send, if_pos hstate, if_pos rfl]
  simp only [TcpConnection.sendInLoop, if_neg hopen, h.quiet, h.unread]
  cases result with
  | accepted n =>
    refine .inl ⟨message.memory.take (min n message.length), ?_, rfl⟩
    exact List.take_prefix_take_left (Nat.min_le_right ..)
  | failed errno =>
    by_cases herrno : errno = .EWOULDBLOCK
    · subst herrno
      refine .inl ⟨[], List.nil_prefix, ?_⟩
      simp [WriteResult.atMost]
    · exact .inr ⟨errno, rfl, herrno, by simp [WriteResult.atMost, herrno]⟩

/-- Further turns do not change what a connection asks for. -/
theorem Speaks.listening_append (h : s.Speaks) {turns : List Turn}
    (hopen : .closed ∉ s.turns ++ turns) : s.tcp.channel.events = POLLIN :=
  h.listening fun hmem => hopen (List.mem_append_left _ hmem)

/-- `send` says its text, if the connection is open. -/
theorem Speaks.send (h : s.Speaks) (message : Message) (result : WriteResult) :
    Ends (s.send message result) (Says s [.text message.text])
      fun e => e = .fatalLog ∧ ∃ errno, result = .failed errno ∧ errno ≠ .EWOULDBLOCK := by
  unfold Service.send
  by_cases hstate : s.tcp.state = .kConnected
  · have htexts := h.opened.mp hstate
    have hwrites : s.sendWrites = true := by
      simp [sendWrites, hstate, h.idle.quiet, h.idle.unread]
    obtain ⟨hspoken, hhalf⟩ := htexts.append [.text message.text]
    rcases sendMessage_cases h.idle hstate message result with
      ⟨part, hpart, hsend⟩ | ⟨errno, hresult, herrno, hsend⟩
    · rw [hsend, ok_bind]
      obtain ⟨parts, hparts, haccepted⟩ := h.accepted
      refine ⟨⟨⟨h.idle.empty, h.idle.unread, h.idle.quiet, h.idle.halfClosed⟩, ?_, ?_, ?_,
        h.listening_append, ?_⟩, rfl, rfl, rfl⟩
      · refine iff_of_true hstate (allTexts_append_iff.mpr ⟨htexts, ?_⟩)
        exact allTexts_cons_iff.mpr ⟨⟨_, rfl⟩, allTexts_nil⟩
      · simp only [hwrites, if_true]
        rw [hspoken, h.written]
        rfl
      · rw [hhalf]
        exact h.halfCloses.trans (by rw [← List.append_nil s.turns, (htexts.append []).2]; rfl)
      · simp only [hwrites, if_true]
        refine ⟨parts ++ [part], List.rel_append hparts (.cons hpart .nil), ?_⟩
        rw [List.flatten_append, haccepted, List.flatten_singleton]
    · rw [hsend]
      exact ⟨rfl, errno, hresult, herrno⟩
  · have hclosed : ¬ AllTexts s.turns := fun htexts => hstate (h.opened.mpr htexts)
    have hwrites : s.sendWrites = false := by simp [sendWrites, hstate]
    obtain ⟨hspoken, hhalf⟩ := append_of_not_allTexts hclosed [.text message.text]
    rw [TcpConnection.sendMessage_eq, TcpConnection.send, if_neg hstate, pure_eq_ok, ok_bind]
    refine ⟨⟨h.idle, ?_, ?_, ?_, h.listening_append, ?_⟩, rfl, rfl, rfl⟩
    · exact iff_of_false hstate fun hall => hclosed (allTexts_append_iff.mp hall).1
    · simp only [hwrites, Bool.false_eq_true, if_false]
      rw [hspoken, h.written]
    · rw [hhalf]
      exact h.halfCloses
    · simp only [hwrites, Bool.false_eq_true, if_false]
      exact h.accepted

/-- A turn that closes leaves what was said as it is. -/
theorem Speaks.close {s' : Service σ} (h : s.Speaks) {t : Turn} (ht : ∀ bytes, t ≠ .text bytes)
    (hidle : Sending.Idle s'.tcp) (hstate : s'.tcp.state ≠ .kConnected)
    (hturns : s'.turns = s.turns ++ [t]) (hwritten : s'.written = s.written)
    (hhalf : s'.tcp.halfCloses.length = if halfClosed s'.turns then 1 else 0)
    (hlistening : t ≠ .closed → s'.tcp.channel = s.tcp.channel)
    (haccepted : s'.tcp.accepted = s.tcp.accepted) : s'.Speaks where
  idle := hidle
  opened := by
    refine iff_of_false hstate fun hall => ?_
    rw [hturns, allTexts_append_iff] at hall
    obtain ⟨bytes, hbytes⟩ := hall.2 t (List.mem_singleton_self t)
    exact ht bytes hbytes
  written := by
    rw [hwritten, hturns, h.written]
    by_cases hall : AllTexts s.turns
    · rw [(hall.append [t]).1]
      cases t with
      | text bytes => exact absurd rfl (ht bytes)
      | _ => exact (List.append_nil _).symm
    · rw [(append_of_not_allTexts hall [t]).1]
  halfCloses := hhalf
  listening := by
    intro hopen
    rw [hturns] at hopen
    have ht : t ≠ .closed := by
      rintro rfl
      exact hopen (List.mem_append_right _ (List.mem_singleton_self _))
    rw [hlistening ht]
    exact h.listening_append hopen
  accepted := by
    rw [hwritten, haccepted]
    exact h.accepted

/-- No half-close has been made while nothing has closed. -/
theorem Speaks.halfCloses_of_texts (h : s.Speaks) (hall : AllTexts s.turns) :
    s.tcp.halfCloses = [] := by
  have hlength := h.halfCloses
  rw [← List.append_nil s.turns, (hall.append []).2] at hlength
  exact List.length_eq_zero_iff.mp hlength

/-- `shutdown()` half-closes, if the connection is open. -/
theorem Speaks.shutdown (h : s.Speaks) (failed : Bool) :
    Ends (s.shutdown failed) (Says s [.shutdown]) fun e => e = .fatalLog ∧ failed = true := by
  unfold Service.shutdown TcpConnection.shutdown
  by_cases hstate : s.tcp.state = .kConnected
  · have htexts := h.opened.mp hstate
    have hquiet : (s.tcp.setState .kDisconnecting).channel.isWriting = false := h.idle.quiet
    simp only [if_pos hstate, hquiet, Bool.not_false, if_true]
    cases failed with
    | true =>
      simp only [sockets.shutdownWrite, if_true, LOG_SYSERR_eq]
      exact ⟨rfl, trivial⟩
    | false =>
      simp only [sockets.shutdownWrite, Bool.false_eq_true, if_false, pure_eq_ok, ok_bind]
      have hidle : Sending.Idle (s.tcp.setState .kDisconnecting) :=
        ⟨h.idle.empty, h.idle.unread, h.idle.quiet, h.idle.halfClosed⟩
      have hshut : (s.tcp.setState .kDisconnecting).shutdownInLoop =
          { s.tcp.setState .kDisconnecting with
            halfCloses := s.tcp.halfCloses ++ [s.tcp.outputBuffer.readable] } := by
        rw [TcpConnection.shutdownInLoop, if_neg (by simp [hquiet])]
        rfl
      refine ⟨h.close (t := .shutdown) (by simp) hidle.shutdownInLoop ?_ rfl rfl ?_ ?_ ?_,
        rfl, rfl, rfl⟩
      · rw [hshut]
        simp [TcpConnection.setState]
      · rw [hshut, (htexts.append [.shutdown]).2]
        simp [h.halfCloses_of_texts htexts, halfClosed]
      · intro _
        rw [hshut]
        rfl
      · rw [hshut]
        rfl
  · simp only [if_neg hstate, Bool.false_eq_true, if_false]
    have hclosed : ¬ AllTexts s.turns := fun htexts => hstate (h.opened.mpr htexts)
    refine ⟨h.close (t := .shutdown) (by simp) h.idle hstate rfl rfl ?_ (fun _ => rfl) rfl,
      rfl, rfl, rfl⟩
    rw [(append_of_not_allTexts hclosed [.shutdown]).2]
    exact h.halfCloses

/-- `handleClose()`, on a connection that is up. -/
theorem Speaks.handleClose (h : s.Speaks) :
    Ends s.handleClose (Says s [.closed]) fun e => e = .assertion .handleClose := by
  unfold Service.handleClose TcpConnection.handleClose
  by_cases hup : s.tcp.state = .kConnected ∨ s.tcp.state = .kDisconnecting
  · rw [check_pos hup, ok_bind, pure_eq_ok, ok_bind]
    have hquiet : Channel.isWriting { s.tcp.channel with
        events := Channel.disableAll s.tcp.channel.events, addedToLoop := true } = false := by
      simp [Channel.isWriting, Channel.disableAll, Events.any, Channel.kNoneEvent]
    have hidle := h.idle
    refine ⟨h.close (t := .closed) (fun _ => nofun)
      ⟨hidle.empty, hidle.unread, hquiet, hidle.halfClosed⟩ nofun rfl rfl ?_
      (fun hne => absurd rfl hne) rfl, rfl, rfl, rfl⟩
    by_cases hall : AllTexts s.turns
    · rw [(hall.append [.closed]).2]
      exact congrArg List.length (h.halfCloses_of_texts hall)
    · rw [(append_of_not_allTexts hall [.closed]).2]
      exact h.halfCloses
  · rw [check_neg hup]
    exact rfl

/-- A call of the callback turns into what it asks for. -/
theorem Speaks.call (h : s.Speaks) (answer : CallAnswer) (c : ConnCall) :
    Ends (s.call answer c) (Says s [c.turn]) fun e => e = .fatalLog ∧ ¬ answer.Fine := by
  cases c with
  | send message =>
    refine (h.send message answer.write).mono (fun _ hs => hs) fun e he => ⟨he.1, fun hfine => ?_⟩
    obtain ⟨-, errno, hfailed, herrno⟩ := he
    exact herrno (hfine.write errno hfailed)
  | shutdown =>
    refine (h.shutdown answer.shutdownFailed).mono (fun _ hs => hs) fun e he =>
      ⟨he.1, fun hfine => ?_⟩
    rw [hfine.shutdown] at he
    exact Bool.noConfusion he.2

/-- And so do all of them, in order. -/
theorem Speaks.calls (h : s.Speaks) (answers : Nat → CallAnswer) (cs : List ConnCall) :
    Ends (cs.zipIdx.foldlM (fun s c => s.call (answers c.2) c.1) s) (Says s (cs.map ConnCall.turn))
      fun e => e = .fatalLog ∧ ∃ k, ¬ (answers k).Fine := by
  have hcalls := ends_foldlM_trace (R := Says (σ := σ)) (I := Speaks)
    (g := fun c : ConnCall × Nat => [c.1.turn])
    (Q := fun e => e = Fault.fatalLog ∧ ∃ k, ¬ (answers k).Fine)
    (f := fun s c => s.call (answers c.2) c.1)
    (fun _ hs => hs.says_self) (fun _ _ _ _ _ => Says.trans) (fun _ _ _ hs => hs.speaks)
    cs.zipIdx
    (fun _ c _ hs => (hs.call (answers c.2) c.1).mono (fun _ => id) fun _ he => ⟨he.1, c.2, he.2⟩) h
  have hturns : (cs.zipIdx.flatMap fun c => [c.1.turn]) = cs.map ConnCall.turn := by
    rw [← List.map_eq_flatMap, ← List.zipIdx_map_fst 0 cs, List.map_map, List.zipIdx_map_fst]
    rfl
  rwa [hturns] at hcalls

/-- A buffer as its constructor leaves it. -/
def freshBuffer : Buffer where
  buffer := List.replicate (Buffer.kCheapPrepend + Buffer.kInitialSize) 0
  readerIndex := Buffer.kCheapPrepend
  writerIndex := Buffer.kCheapPrepend

/-- A connection just established is open and has said nothing. -/
theorem start_spec (fd : Int) (context : σ) :
    ∃ s, start fd context = .ok s ∧ s.Speaks ∧ s.turns = [] ∧ s.context = context ∧
      s.inputBuffer = freshBuffer := by
  have hquiet : (Channel.enableReading 0).any Channel.kWriteEvent = false := by decide
  refine ⟨⟨⟨.kConnected, ⟨fd, Channel.enableReading 0, 0, -1, true⟩, freshBuffer, [], []⟩,
    freshBuffer, context, [], []⟩, ?_, ⟨⟨Lib.slice_self _ _, rfl, hquiet, fun _ h => nomatch h⟩,
      iff_of_true rfl allTexts_nil, rfl, rfl, fun _ => rfl, [], .nil, rfl⟩, rfl, rfl, rfl⟩
  simp only [start, TcpConnection.init, Buffer.init_eq, ok_bind]
  rfl

end Service

end ClyServer.Net
