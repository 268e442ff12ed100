import ClyServer.Net.Service

/-!
# A connection is a conversation

An application that takes what it reads is a function from chunks to turns, and its
connection is that function and nothing else: what write(2) is called for, in any run, is what
the function answers to the chunks heard, cut at the first turn that closes
(`conversation`). The buffers, the system calls and their failures, and the states of the
connection are gone from the statement. Between events the input buffer is then empty, and its
array stays below a fixed size (`input_bounded`).
-/

namespace ClyServer.Net

open ClyServer.Lib ClyServer.Lib.System

variable {σ ω : Type}

/-- What a connection hears: bytes that came together, with their receive time and what the
callback finds in memory, or its end. -/
inductive Heard (ω : Type) where
  | chunk (bytes : Bytes) (receiveTime : Int) (memory : ω)
  | closed
  deriving DecidableEq

/-- What a callback of the channel hears. -/
def Service.Event.heardBy (e : Service.Event ω) : Channel.Callback → List (Heard ω)
  | .close => [.closed]
  | .read =>
    if 0 < e.read.n then [.chunk e.read.stored e.receiveTime e.memory]
    else if e.read.n = 0 then [.closed] else []
  | _ => []

/-- What is heard in an event. -/
def Service.Event.heard (e : Service.Event ω) : List (Heard ω) :=
  (Channel.dispatch e.revents).flatMap e.heardBy

/-- An application as a function: the turns it answers to a chunk, and its context after it. -/
abbrev Speech (σ ω : Type) := ω → σ → Bytes → Int → Checked (List Turn × σ)

/-- The turns answered to what is heard, and the context or the fault it ends in. -/
def converse (speech : Speech σ ω) (context : σ) : List (Heard ω) → List Turn × Checked σ
  | [] => ([], .ok context)
  | .closed :: rest =>
    (.closed :: (converse speech context rest).1, (converse speech context rest).2)
  | .chunk bytes receiveTime memory :: rest =>
    match speech memory context bytes receiveTime with
    | .error e => ([], .error e)
    | .ok (turns, context') =>
      (turns ++ (converse speech context' rest).1, (converse speech context' rest).2)

theorem converse_append (speech : Speech σ ω) {context context' : σ} {hs : List (Heard ω)}
    (h : (converse speech context hs).2 = .ok context') (more : List (Heard ω)) :
    converse speech context (hs ++ more) =
      ((converse speech context hs).1 ++ (converse speech context' more).1,
        (converse speech context' more).2) := by
  induction hs generalizing context with
  | nil =>
    cases h
    rfl
  | cons heard hs ih =>
    cases heard with
    | closed =>
      simp only [List.cons_append, converse] at h ⊢
      rw [ih h]
    | chunk bytes receiveTime memory =>
      simp only [List.cons_append, converse] at h ⊢
      cases hspeech : speech memory context bytes receiveTime with
      | error e =>
        rw [hspeech] at h
        cases h
      | ok answer =>
        rw [hspeech] at h
        simp only at h ⊢
        rw [ih h, List.append_assoc]

/-- The array of an input buffer that is emptied after each read stays within this. -/
def inputLimit : Nat := 131079

/-- The application answers as `speech` does, and leaves the input buffer empty. -/
def Application.Speaks (app : Application σ ω) (speech : Speech σ ω) : Prop :=
  ∀ memory context (b : Buffer) receiveTime, b.Wf → b.buffer.length ≤ inputLimit →
    match speech memory context b.readable receiveTime with
    | .error e => app.onMessage memory context b receiveTime = .error e
    | .ok (turns, context') => ∃ calls,
        app.onMessage memory context b receiveTime = .ok (calls, b.retrieveAll, context') ∧
        calls.map ConnCall.turn = turns

/-! ## The input buffer -/

/-- An input buffer between events. -/
structure AtRest (b : Buffer) : Prop where
  reader : b.readerIndex = Buffer.kCheapPrepend
  writer : b.writerIndex = Buffer.kCheapPrepend
  cheap : Buffer.kCheapPrepend ≤ b.buffer.length
  small : b.buffer.length ≤ inputLimit

theorem AtRest.wf {b : Buffer} (h : AtRest b) : b.Wf :=
  ⟨Nat.le_of_eq (h.reader.trans h.writer.symm), h.writer ▸ h.cheap, h.cheap⟩

theorem AtRest.readable {b : Buffer} (h : AtRest b) : b.readable = [] := by
  rw [Buffer.readable, h.reader, h.writer]
  exact slice_self _ _

theorem atRest_retrieveAll {b : Buffer} (hwf : b.Wf) (hsmall : b.buffer.length ≤ inputLimit) :
    AtRest b.retrieveAll := ⟨rfl, rfl, hwf.cheap_le, hsmall⟩

theorem atRest_fresh : AtRest Service.freshBuffer := by
  refine ⟨rfl, rfl, ?_, ?_⟩
  · rw [Service.freshBuffer, List.length_replicate]
    exact Nat.le_add_right ..
  · rw [Service.freshBuffer, List.length_replicate]
    decide

/-- A read into a buffer at rest: it holds what was read, and its array is still small. -/
theorem AtRest.readFd {b : Buffer} (h : AtRest b) {r : Buffer.Readv} (hr : r.Possible b) :
    ∃ saved b', b.readFd r = .ok (r.n, saved, b') ∧ b'.Wf ∧ b'.buffer.length ≤ inputLimit ∧
      (0 ≤ r.n → b'.readable = r.stored) := by
  obtain ⟨saved, b', hb', hle, hcap, hread, -⟩ :=
    Buffer.readFd_agrees h.wf.reader_le h.wf.writer_le hr
  have hgrows := Buffer.readFd_grows h.wf.ordered hr hb'
  refine ⟨saved, b', hb', ⟨hle, hcap, Nat.le_trans h.cheap hgrows.le⟩, ?_, fun hn => ?_⟩
  · have hoffered := hr.offered
    have hwriter := h.writer
    have hsmall := h.small
    unfold Buffer.kCheapPrepend at hwriter
    unfold inputLimit at hsmall ⊢
    rcases hgrows with hsame | ⟨hfew, -, hgrown⟩
    · omega
    · unfold Buffer.iovecs Buffer.extraSize Buffer.writableBytes at hoffered
      unfold Buffer.writableBytes at hfew
      split at hoffered
      · simp only [List.sum_cons, List.sum_nil] at hoffered
        omega
      · simp only [List.sum_cons, List.sum_nil] at hoffered
        omega
  · rw [(hread hn).1, h.readable, List.nil_append]

/-- A read that brings nothing leaves the buffer at rest. -/
theorem AtRest.readFd_nothing {b : Buffer} (h : AtRest b) {r : Buffer.Readv}
    (hn : ¬ 0 < r.n) : ∃ saved b', b.readFd r = .ok (r.n, saved, b') ∧ AtRest b' := by
  obtain ⟨-, hsize⟩ := Buffer.overwrite_keeps h.wf.ordered
    (show (r.stored.take b.writableBytes).length ≤ b.writableBytes from List.length_take_le ..)
  have hcheap := h.cheap
  have hsmall := h.small
  rw [← hsize] at hcheap hsmall
  unfold Buffer.readFd
  dsimp only
  by_cases hneg : r.n < 0
  · rw [if_pos hneg]
    exact ⟨_, _, rfl, h.reader, h.writer, hcheap, hsmall⟩
  · have hzero : r.n.toNat = 0 := by omega
    rw [if_neg hneg, hzero, if_pos (Nat.zero_le _)]
    exact ⟨_, _, rfl, h.reader, h.writer, hcheap, hsmall⟩

/-! ## Events -/

namespace Service

variable {app : Application σ ω} {speech : Speech σ ω} {s : Service σ}

/-- `s'` is `s` after what was heard: it said what `speech` answers to it, and is at rest. -/
structure Heeds (speech : Speech σ ω) (s : Service σ) (hs : List (Heard ω)) (s' : Service σ) :
    Prop where
  speaks : s'.Speaks
  rest : AtRest s'.inputBuffer
  turned : s'.turns = s.turns ++ (converse speech s.context hs).1
  context : (converse speech s.context hs).2 = .ok s'.context

theorem Speaks.heeds_self (h : s.Speaks) (hrest : AtRest s.inputBuffer) : Heeds speech s [] s :=
  ⟨h, hrest, (List.append_nil _).symm, rfl⟩

theorem Heeds.trans {s' s'' : Service σ} {hs more : List (Heard ω)} (h : Heeds speech s hs s')
    (h' : Heeds speech s' more s'') : Heeds speech s (hs ++ more) s'' where
  speaks := h'.speaks
  rest := h'.rest
  turned := by
    rw [h'.turned, h.turned, converse_append speech h.context, List.append_assoc]
  context := by
    rw [converse_append speech h.context]
    exact h'.context

/-- A close is heard as one. -/
theorem Says.heeds_closed {s' : Service σ} (h : Says s [.closed] s')
    (hrest : AtRest s.inputBuffer) : Heeds speech s [.closed] s' where
  speaks := h.speaks
  rest := h.inputBuffer ▸ hrest
  turned := h.turned
  context := by
    rw [h.context]
    rfl

/-- The message callback on a chunk: the connection says what the application answers, or
the application faults, or the kernel refuses a call. -/
theorem Speaks.handleRead_chunk (h : s.Speaks) (happ : app.Speaks speech)
    (hrest : AtRest s.inputBuffer) {e : Event ω} (hr : e.read.Possible s.inputBuffer)
    (hn : 0 < e.read.n) :
    Ends (s.handleRead app e) (Heeds speech s (e.heardBy .read)) fun fault =>
      (fault = .fatalLog ∧ ∃ k, ¬ (e.answers k).Fine) ∨
        speech e.memory s.context e.read.stored e.receiveTime = .error fault := by
  obtain ⟨saved, b, hb, hwf, hsmall, hread⟩ := hrest.readFd hr
  have hanswer := happ e.memory s.context b e.receiveTime hwf hsmall
  rw [hread (Int.le_of_lt hn)] at hanswer
  unfold handleRead
  rw [hb, ok_bind]
  simp only [if_pos hn]
  cases hspeech : speech e.memory s.context e.read.stored e.receiveTime with
  | error fault =>
    rw [hspeech] at hanswer
    rw [hanswer]
    exact .inr rfl
  | ok answer =>
    rw [hspeech] at hanswer
    obtain ⟨calls, hcalls, hturns⟩ := hanswer
    rw [hcalls, ok_bind]
    have hspeaks : Speaks { s with inputBuffer := b.retrieveAll, context := answer.2 } :=
      ⟨h.idle, h.opened, h.written, h.halfCloses, h.listening, h.accepted⟩
    refine (hspeaks.calls e.answers calls).mono (fun s' hs' => ?_) fun fault hfault => .inl hfault
    have hheard : converse speech s.context (e.heardBy .read) = (answer.1, .ok answer.2) := by
      simp [Event.heardBy, if_pos hn, converse, hspeech]
    refine ⟨hs'.speaks, ?_, ?_, ?_⟩
    · rw [hs'.inputBuffer]
      exact atRest_retrieveAll hwf hsmall
    · rw [hs'.turned, hturns, hheard]
    · rw [hheard, hs'.context]

/-- `handleRead`, whatever readv(2) does. -/
theorem Speaks.handleRead (h : s.Speaks) (happ : app.Speaks speech) (hrest : AtRest s.inputBuffer)
    {e : Event ω} (hr : e.read.Possible s.inputBuffer) :
    Ends (s.handleRead app e) (Heeds speech s (e.heardBy .read)) fun _ => True := by
  by_cases hn : 0 < e.read.n
  · exact (h.handleRead_chunk happ hrest hr hn).mono (fun _ => id) fun _ _ => trivial
  · obtain ⟨saved, b, hb, hrest'⟩ := hrest.readFd_nothing (r := e.read) hn
    have hspeaks : Speaks { s with inputBuffer := b } :=
      ⟨h.idle, h.opened, h.written, h.halfCloses, h.listening, h.accepted⟩
    unfold Service.handleRead
    rw [hb, ok_bind]
    simp only [if_neg hn]
    by_cases hzero : e.read.n = 0
    · have hheard : e.heardBy .read = [.closed] := by
        simp only [Event.heardBy, if_neg hn, if_pos hzero]
      rw [if_pos hzero, hheard]
      refine hspeaks.handleClose.mono (fun s' hs' => ?_) fun _ _ => trivial
      exact ⟨hs'.speaks, hs'.inputBuffer ▸ hrest', hs'.turned, by rw [hs'.context]; rfl⟩
    · rw [if_neg hzero, LOG_SYSERR_eq]
      trivial

/-- A callback of the channel. -/
theorem Speaks.callback (h : s.Speaks) (happ : app.Speaks speech) (hrest : AtRest s.inputBuffer)
    {e : Event ω} {cb : Channel.Callback} (hr : cb = .read → e.read.Possible s.inputBuffer) :
    Ends (Service.callback app e s cb) (fun s' => Heeds speech s (e.heardBy cb) s' ∧
      (cb ≠ .read → s'.inputBuffer = s.inputBuffer)) fun _ => True := by
  cases cb with
  | close =>
    refine h.handleClose.mono (fun s' hs' => ⟨hs'.heeds_closed hrest, fun _ => hs'.inputBuffer⟩)
      fun _ _ => trivial
  | error => exact ⟨h.heeds_self hrest, fun _ => rfl⟩
  | read =>
    exact (h.handleRead happ hrest (hr rfl)).mono (fun _ hs' => ⟨hs', fun hne => absurd rfl hne⟩)
      fun _ _ => trivial
  | write =>
    have hquiet : s.tcp.handleWrite (e.answers 0).write = .ok s.tcp := by
      simp [TcpConnection.handleWrite, h.idle.quiet]
    unfold Service.callback
    rw [hquiet]
    exact ⟨h.heeds_self hrest, fun _ => rfl⟩

/-- Callbacks one after the other, the read among them at most once. -/
theorem Speaks.callbacks (h : s.Speaks) (happ : app.Speaks speech) (hrest : AtRest s.inputBuffer)
    {e : Event ω} {cbs : List Channel.Callback} (honce : cbs.count .read ≤ 1)
    (hr : .read ∈ cbs → e.read.Possible s.inputBuffer) :
    Ends (cbs.foldlM (Service.callback app e) s) (Heeds speech s (cbs.flatMap e.heardBy))
      fun _ => True := by
  induction cbs generalizing s with
  | nil => exact h.heeds_self hrest
  | cons cb cbs ih =>
    rw [List.foldlM_cons, List.flatMap_cons]
    have hfirst := h.callback happ hrest fun hcb => hr (hcb ▸ List.mem_cons_self)
    refine hfirst.bind fun s' hs' => ?_
    obtain ⟨hheeds, hbuffer⟩ := hs'
    have hlater : .read ∈ cbs → e.read.Possible s'.inputBuffer := by
      intro hmem
      have hcb : cb ≠ .read := by
        rintro rfl
        rw [List.count_cons_self] at honce
        have hcount := List.count_pos_iff.mpr hmem
        omega
      rw [hbuffer hcb]
      exact hr (List.mem_cons_of_mem cb hmem)
    have hrest' : cbs.count .read ≤ 1 := Nat.le_trans List.count_le_count_cons honce
    exact (ih hheeds.speaks hheeds.rest hrest' hlater).mono (fun s'' hs'' => hheeds.trans hs'')
      fun _ _ => trivial

/-- One event. -/
theorem Speaks.handleEvent (h : s.Speaks) (happ : app.Speaks speech)
    (hrest : AtRest s.inputBuffer) {e : Event ω} (hr : e.read.Possible s.inputBuffer) :
    Ends (s.handleEvent app e) (Heeds speech s e.heard) fun _ => True := by
  have honce : (Channel.dispatch e.revents).count .read ≤ 1 := by
    unfold Channel.dispatch
    simp only [List.count_append]
    split <;> split <;> split <;> split <;> simp
  exact h.callbacks happ hrest honce fun _ => hr

/-- A chunk that arrives at a connection that is not closed: the event can happen, and where the
application answers and the kernel refuses no call, the connection goes on. -/
theorem Speaks.hears_chunk (h : s.Speaks) (happ : app.Speaks speech)
    (hrest : AtRest s.inputBuffer) (hopen : .closed ∉ s.turns) {e : Event ω}
    (hrevents : e.revents = POLLIN) (hn : e.read.n = e.read.stored.length) (hpos : 0 < e.read.n)
    (hsize : e.read.stored.length ≤ Buffer.extraSize) (hfine : ∀ k, (e.answers k).Fine)
    {turns : List Turn} {context : σ}
    (hspeech : speech e.memory s.context e.read.stored e.receiveTime = .ok (turns, context)) :
    s.Possible e ∧ ∃ s', s.handleEvent app e = .ok s' ∧ Heeds speech s e.heard s' ∧
      s'.turns = s.turns ++ turns ∧ s'.context = context := by
  have hevents := h.listening hopen
  have hoffered : Buffer.extraSize ≤ s.inputBuffer.iovecs.sum := by
    unfold Buffer.iovecs
    split
    · simp only [List.sum_cons, List.sum_nil]
      omega
    · simp only [List.sum_cons, List.sum_nil]
      omega
  have hr : e.read.Possible s.inputBuffer := ⟨.inr hn, Nat.le_trans hsize hoffered⟩
  refine ⟨⟨?_, ?_, hr⟩, ?_⟩
  · rw [hevents]
    decide
  · rw [hevents, hrevents]
    decide
  have hdispatch : Channel.dispatch e.revents = [.read] := by
    rw [hrevents]
    decide
  have hevent : s.handleEvent app e = s.handleRead app e := by
    rw [Service.handleEvent, hdispatch]
    exact bind_pure _
  have hheard : e.heard = [.chunk e.read.stored e.receiveTime e.memory] := by
    simp only [Event.heard, hdispatch, List.flatMap_singleton, Event.heardBy, if_pos hpos]
  have hchunk := h.handleRead_chunk happ hrest hr hpos
  have hanswer : converse speech s.context e.heard = (turns, .ok context) := by
    rw [hheard]
    simp [converse, hspeech]
  cases hresult : s.handleRead app e with
  | error fault =>
    rw [hresult] at hchunk
    rcases hchunk with ⟨-, k, hnot⟩ | hfault
    · exact absurd (hfine k) hnot
    · rw [hspeech] at hfault
      cases hfault
  | ok s' =>
    rw [hresult] at hchunk
    have hheeds : Heeds speech s e.heard s' := by
      rw [hheard]
      simp only [Event.heardBy, if_pos hpos] at hchunk
      exact hchunk
    refine ⟨s', hevent.trans hresult, hheeds, ?_, ?_⟩
    · rw [hheeds.turned, hanswer]
    · have hcontext := hheeds.context
      rw [hanswer] at hcontext
      exact (Except.ok.inj hcontext).symm

/-- A run of events. -/
theorem run_heeds (happ : app.Speaks speech) {fd : Int} {context : σ} {s₀ : Service σ}
    (hs₀ : start fd context = .ok s₀) {es : List (Event ω)}
    (h : (system app).Run s₀ es (.ok s)) : Heeds speech s₀ (es.flatMap Event.heard) s := by
  obtain ⟨_, hstart, hspeaks, -, -, hbuffer⟩ := start_spec fd context
  cases hstart.symm.trans hs₀
  refine h.history (I := fun es s => Heeds speech s₀ (es.flatMap Event.heard) s)
    (hspeaks.heeds_self (hbuffer ▸ atRest_fresh)) ?_
  intro es t e u ht hen hstep
  have hevent := ht.speaks.handleEvent happ ht.rest hen.read
  rw [show t.handleEvent app e = .ok u from hstep] at hevent
  rw [List.flatMap_append, List.flatMap_singleton]
  exact ht.trans hevent

/-- **A connection is its application's conversation.** Whatever is read, however the kernel
answers: in every state a connection reaches, write(2) has been called for exactly the texts its
application answers to the chunks heard, one call each and in order, up to the first turn that
closes; the connection is open exactly if nothing has closed, it was half-closed once if the
first thing to close was a `shutdown`, and otherwise never; and of each text the kernel has a
front part. -/
theorem conversation (happ : app.Speaks speech) {fd : Int} {context : σ} {s₀ : Service σ}
    (hs₀ : start fd context = .ok s₀) {es : List (Event ω)}
    (h : (system app).Run s₀ es (.ok s)) {turns : List Turn}
    (hturns : turns = (converse speech context (es.flatMap Event.heard)).1) :
    s.written = spoken turns ∧ (s.tcp.state = .kConnected ↔ AllTexts turns) ∧
      s.tcp.halfCloses.length = (if halfClosed turns then 1 else 0) ∧
      ∃ parts, List.Forall₂ (· <+: ·) parts (spoken turns) ∧ s.tcp.accepted = parts.flatten := by
  have hheeds := run_heeds happ hs₀ h
  obtain ⟨_, hstart, -, hnone, hcontext, -⟩ := start_spec fd context
  cases hstart.symm.trans hs₀
  have hsame : s.turns = turns := by
    rw [hheeds.turned, hnone, hcontext, List.nil_append, hturns]
  have hspeaks := hheeds.speaks
  refine ⟨hsame ▸ hspeaks.written, hsame ▸ hspeaks.opened, hsame ▸ hspeaks.halfCloses, ?_⟩
  rw [← hsame, ← hspeaks.written]
  exact hspeaks.accepted

/-- **Bounded input.** The input buffer of a connection whose application takes what it reads
is empty between events, and its array never exceeds `inputLimit` bytes, whatever the peer
sends. -/
theorem input_bounded (happ : app.Speaks speech) {fd : Int} {context : σ} {s₀ : Service σ}
    (hs₀ : start fd context = .ok s₀) {es : List (Event ω)}
    (h : (system app).Run s₀ es (.ok s)) :
    s.inputBuffer.readable = [] ∧ s.inputBuffer.buffer.length ≤ inputLimit := by
  have hrest := (run_heeds happ hs₀ h).rest
  exact ⟨hrest.readable, hrest.small⟩

end Service

end ClyServer.Net
