import ClyServer.Net.Conversation

/-!
# The echo server (`test/echo.cpp`)

The message callback takes all there is in the input buffer and sends it back. A connection of
this server is the simplest conversation: the texts write(2) is called for are the chunks that
readv(2) brought before the end, each as it came (`echo_exact`).
-/

namespace ClyServer.Net

open ClyServer.Lib ClyServer.Lib.System

namespace EchoServer

/-- `EchoServer::onMessage(ptr, buf, time)`. -/
def onMessage (behind : Bytes) (buf : Buffer) : Checked (List ConnCall × Buffer) := do
  let (str, buf) ← buf.retrieveAllAsString
  return ([.send (.string str behind)], buf)

/-- The echo server as an application: it keeps nothing with a connection, and finds in memory
what stands behind its string. -/
def echoServer : Application Unit Bytes where
  onMessage behind _ buf _ := do
    let (calls, buf) ← onMessage behind buf
    return (calls, buf, ())

/-- What it answers. -/
def echo : Speech Unit Bytes := fun _ _ bytes _ => .ok ([.text bytes], ())

theorem echoServer_speaks : echoServer.Speaks echo := by
  intro behind _ b _ hwf hsmall
  have hlength := hwf.length_readable
  have hcap := hwf.writer_le
  have htaken : slice b.buffer b.peek (b.peek + b.readableBytes) = b.readable := by
    rw [Buffer.peek, Buffer.readableBytes, Nat.add_sub_of_le hwf.reader_le]
    rfl
  have hsize : b.readable.length < 2147483648 := by
    rw [hlength, Buffer.readableBytes]
    unfold inputLimit at hsmall
    omega
  refine ⟨[.send (.string b.readable behind)], ?_, ?_⟩
  · simp only [echoServer, onMessage, Buffer.retrieveAllAsString_eq, ok_bind, pure_eq_ok,
      htaken]
  · rw [List.map_singleton, ConnCall.turn, Message.text_string hsize]

/-- The chunks in front of the end. -/
def beforeClose : List (Heard Bytes) → List Bytes
  | .chunk bytes _ _ :: rest => bytes :: beforeClose rest
  | _ => []

/-- The turns of the echo server are the chunks, and a close for a close. -/
theorem converse_echo (hs : List (Heard Bytes)) :
    spoken (converse echo () hs).1 = beforeClose hs ∧
      (AllTexts (converse echo () hs).1 ↔ .closed ∉ hs) ∧
      halfClosed (converse echo () hs).1 = false := by
  induction hs with
  | nil => exact ⟨rfl, iff_of_true allTexts_nil List.not_mem_nil, rfl⟩
  | cons heard hs ih =>
    cases heard with
    | closed =>
      refine ⟨rfl, iff_of_false (fun hall => ?_) (not_not_intro List.mem_cons_self), rfl⟩
      obtain ⟨bytes, hbytes⟩ := hall _ List.mem_cons_self
      cases hbytes
    | chunk bytes receiveTime behind =>
      obtain ⟨hspoken, hall, hhalf⟩ := ih
      refine ⟨congrArg (bytes :: ·) hspoken, ?_, hhalf⟩
      have hcons : AllTexts (converse echo () (.chunk bytes receiveTime behind :: hs)).1 ↔
          AllTexts (converse echo () hs).1 :=
        allTexts_cons_iff.trans (and_iff_right ⟨bytes, rfl⟩)
      rw [hcons, hall]
      simp

open Service

/-- **The echo server echoes.** In any run of a connection, write(2) is called for exactly the
chunks readv(2) brought before the connection closed, one call for each and in their order;
the connection is open exactly until then and is never half-closed; of each chunk the kernel
has a front part; and between events the input buffer is empty and its array is at most `inputLimit`
bytes long. -/
theorem echo_exact {fd : Int} {s₀ s : Service Unit} (hs₀ : start fd () = .ok s₀)
    {es : List (Event Bytes)} (h : (Service.system echoServer).Run s₀ es (.ok s))
    {hs : List (Heard Bytes)} (hheard : hs = es.flatMap Event.heard) :
    s.written = beforeClose hs ∧ (s.tcp.state = .kConnected ↔ .closed ∉ hs) ∧
      s.tcp.halfCloses = [] ∧
      (∃ parts, List.Forall₂ (· <+: ·) parts (beforeClose hs) ∧ s.tcp.accepted = parts.flatten) ∧
      s.inputBuffer.readable = [] ∧ s.inputBuffer.buffer.length ≤ inputLimit := by
  obtain ⟨hspoken, hall, hhalf⟩ := converse_echo hs
  obtain ⟨hwritten, hopened, hcloses, haccepted⟩ :=
    conversation echoServer_speaks hs₀ h (show (converse echo () hs).1 = _ by rw [hheard])
  obtain ⟨hempty, hsmall⟩ := input_bounded echoServer_speaks hs₀ h
  rw [hspoken] at hwritten haccepted
  rw [hhalf] at hcloses
  exact ⟨hwritten, hopened.trans hall, List.length_eq_zero_iff.mp hcloses, haccepted, hempty,
    hsmall⟩

/-- Two chunks come and then the end. -/
def echoEvents : List (Event Bytes) :=
  [⟨POLLIN, ⟨2, 0, ascii "ab"⟩, 1, [], fun _ => ⟨.accepted 1, false⟩⟩,
    ⟨POLLIN, ⟨1, 0, ascii "c"⟩, 2, [], fun _ => ⟨.accepted 1, false⟩⟩,
    ⟨POLLIN, ⟨0, 0, []⟩, 3, [], fun _ => ⟨.accepted 0, false⟩⟩]

/-- A run of them: both chunks were written, of the first the kernel took one byte. -/
theorem echo_exact_short :
    ∃ s₀ s, start 3 () = .ok s₀ ∧ (Service.system echoServer).Run s₀ echoEvents (.ok s) ∧
      s.written = [ascii "ab", ascii "c"] ∧ s.tcp.state ≠ .kConnected := by
  obtain ⟨s₀, hs₀, -⟩ := start_spec 3 ()
  have hexec : (match start 3 () with
      | .ok s₀ => (Service.system echoServer).reaches s₀ echoEvents fun _ => True
      | .error _ => false) = true := by
    decide +kernel
  rw [hs₀] at hexec
  obtain ⟨s, hrun, -⟩ := run_of_reaches hexec
  obtain ⟨hwritten, hopened, -⟩ := echo_exact hs₀ hrun rfl
  refine ⟨s₀, s, hs₀, hrun, hwritten, fun hstate => hopened.mp hstate ?_⟩
  decide

end EchoServer

end ClyServer.Net
