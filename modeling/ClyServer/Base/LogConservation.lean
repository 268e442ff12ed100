import ClyServer.Base.AsyncLogging

/-!
# What is appended is what is written

The logger's buffers rotate: filled ones go from producers to the thread, two of
the written ones come back as spares. `Wf` is what keeps that going (no pointer
is null where it is used, spares are empty), and with it no step faults. A
`Ledger` is the lines appended so far, grouped by the buffer they went to, in the
order of the appends; `Ledger.Fits` says where each group is now. Both are kept
by every step, in any interleaving, and `log_conserved` reads them off.
-/

namespace ClyServer

open ClyServer.Lib

namespace LoggingThread

variable {SIZE : Nat}

/-! ## The rotation of the buffers -/

/-- A buffer that is there and holds nothing. -/
def Spare (p : BufferPtr SIZE) : Prop := ∃ b, p = some b ∧ b.cur = 0

/-- A list of buffers that are all there. -/
def Present (ps : List (BufferPtr SIZE)) : Prop := ∀ p ∈ ps, ∃ b, p = some b

/-- The thread's locals at each place: two spares and nothing to write before the
swap, and after it no spare less than `WriteLog` can refill. -/
def LocalsOk (newBuffer1 newBuffer2 : BufferPtr SIZE) (writeLog : List (BufferPtr SIZE)) :
    LoggingPlace → Prop
  | .idle => writeLog = []
  | .test | .locking | .waiting => Spare newBuffer1 ∧ Spare newBuffer2 ∧ writeLog = []
  | .swapped | .writing _ => newBuffer1 = none ∧ Present writeLog ∧
      (Spare newBuffer2 ∧ 1 ≤ writeLog.length ∨ newBuffer2 = none ∧ 2 ≤ writeLog.length)
  | .returned => True

/-- No pointer is null where it is used, and spares are empty. -/
structure Wf (s : LoggingThread SIZE) : Prop where
  current : ∃ b, s.log.currentBuffer = some b
  next : s.log.nextBuffer = none ∧ s.log.buffers ≠ [] ∨ Spare s.log.nextBuffer
  buffers : Present s.log.buffers
  locals : LocalsOk s.newBuffer1 s.newBuffer2 s.writeLog s.place

theorem wf_init : (init SIZE).Wf where
  current := ⟨_, rfl⟩
  next := .inr ⟨_, rfl, rfl⟩
  buffers := fun _ h => nomatch h
  locals := rfl

/-- An append: into the current buffer if it has room, else into a spare or a new
one after the current one is queued. -/
theorem append_spec {log : AsyncLogging SIZE} {current fresh : FixedBuffer SIZE} {logline : Bytes}
    (hcurrent : log.currentBuffer = some current)
    (hnext : log.nextBuffer = none ∨ Spare log.nextBuffer) (hline : logline.length < SIZE)
    (hfresh : fresh.cur = 0) :
    (∃ b, log.append logline fresh = .ok { log with currentBuffer := some b } ∧
      b.contents = current.contents ++ logline) ∨
    ∃ b, log.append logline fresh = .ok { log with
        currentBuffer := some b, nextBuffer := none, buffers := log.buffers ++ [some current] } ∧
      b.contents = logline := by
  unfold AsyncLogging.append
  rw [hcurrent]
  by_cases hroom : logline.length < current.avail
  · exact .inl ⟨_, by simp only [if_pos hroom, pure_eq_ok], FixedBuffer.contents_append hroom⟩
  · have hempty : ∀ b : FixedBuffer SIZE, b.cur = 0 → (b.append logline).contents = logline :=
      fun b hb => by
        rw [FixedBuffer.contents_append (FixedBuffer.lt_avail hb hline),
          FixedBuffer.contents_eq_nil hb, List.nil_append]
    refine .inr ?_
    rcases hnext with hnone | ⟨b, hb, hcur⟩
    · refine ⟨_, ?_, hempty fresh hfresh⟩
      simp only [if_neg hroom, hnone, pure_eq_ok]
    · refine ⟨_, ?_, hempty b hcur⟩
      simp only [if_neg hroom, hb, pure_eq_ok]

/-! ### The thread's steps -/

theorem Spare.isEmptyBuffer {p : BufferPtr SIZE} (h : Spare p) : isEmptyBuffer p = true := by
  obtain ⟨b, rfl, hb⟩ := h
  simp [LoggingThread.isEmptyBuffer, FixedBuffer.length, hb]

theorem spare_zeroed : Spare (some (zeroed SIZE)) := ⟨_, rfl, rfl⟩

/-- Behind the `while` the assertions hold. -/
theorem test_spec {s : LoggingThread SIZE} (h : s.Wf) (hplace : s.place = .test) :
    s.test = .ok { s with place := if s.log.running then .locking else .returned } := by
  have hlocals := h.locals
  rw [hplace] at hlocals
  obtain ⟨h₁, h₂, hwl⟩ := hlocals
  by_cases hrun : s.log.running = true
  · simp only [test, hrun, if_true, check_pos h₁.isEmptyBuffer, check_pos h₂.isEmptyBuffer,
      check_pos hwl, ok_bind, pure_eq_ok]
  · simp only [test, if_neg hrun, pure_eq_ok]

/-- The swap: `buffers_` and the current buffer are the thread's now, and the
producers have a spare for each buffer they are without. -/
theorem Wf.swapBuffers {s : LoggingThread SIZE} (h : s.Wf)
    (hspares : Spare s.newBuffer1 ∧ Spare s.newBuffer2 ∧ s.writeLog = []) :
    s.swapBuffers.Wf ∧ s.swapBuffers.place = .swapped ∧
      s.swapBuffers.writeLog = s.log.buffers ++ [s.log.currentBuffer] ∧
      s.swapBuffers.log.buffers = [] ∧ Spare s.swapBuffers.log.currentBuffer ∧
      s.swapBuffers.written = s.written ∧ s.swapBuffers.dropped = s.dropped := by
  obtain ⟨h₁, h₂, hwl⟩ := hspares
  have hpresent : Present (s.log.buffers ++ [s.log.currentBuffer]) := by
    intro p hp
    rcases List.mem_append.mp hp with hp | hp
    · exact h.buffers p hp
    · rw [List.mem_singleton.mp hp]
      exact h.current
  obtain ⟨b₁, hb₁, hcur₁⟩ := h₁
  have hnil : Present ([] : List (BufferPtr SIZE)) := fun _ hp => nomatch hp
  unfold LoggingThread.swapBuffers
  rw [hwl]
  rcases h.next with ⟨hnone, hne⟩ | hspare
  · rw [hnone]
    refine ⟨⟨⟨b₁, hb₁⟩, .inr h₂, hnil, rfl, hpresent, .inr ⟨rfl, ?_⟩⟩, rfl, rfl, rfl,
      ⟨b₁, hb₁, hcur₁⟩, rfl, rfl⟩
    have hpos := List.length_pos_iff.mpr hne
    rw [List.length_append, List.length_singleton]
    omega
  · obtain ⟨b, hb, hcur⟩ := hspare
    rw [hb]
    refine ⟨⟨⟨b₁, hb₁⟩, .inr ⟨b, hb, hcur⟩, hnil, rfl, hpresent, .inl ⟨h₂, ?_⟩⟩, rfl, rfl, rfl,
      ⟨b₁, hb₁, hcur₁⟩, rfl, rfl⟩
    rw [List.length_append, List.length_singleton]
    omega

theorem Wf.overload {s : LoggingThread SIZE} (h : s.Wf) (hplace : s.place = .swapped)
    (time : Bytes) : (s.overload time).Wf := by
  have hlocals := h.locals
  rw [hplace] at hlocals
  obtain ⟨h₁, hpresent, h₂⟩ := hlocals
  unfold LoggingThread.overload
  by_cases hover : s.writeLog.length > 25
  · rw [if_pos hover]
    refine ⟨h.current, h.next, h.buffers, h₁, fun p hp => hpresent p (List.mem_of_mem_take hp), ?_⟩
    have hlen : (s.writeLog.take 2).length = 2 := by
      rw [List.length_take]
      omega
    rcases h₂ with ⟨hspare, _⟩ | ⟨hnone, _⟩
    · exact .inl ⟨hspare, by rw [hlen]; omega⟩
    · exact .inr ⟨hnone, Nat.le_of_eq hlen.symm⟩
  · rw [if_neg hover]
    exact ⟨h.current, h.next, h.buffers, h₁, hpresent, h₂⟩

/-- A buffer that is there is written, and the thread is at the next one. -/
theorem write_spec {s : LoggingThread SIZE} (h : s.Wf) {i : Nat} (hplace : s.place = .writing i)
    (hi : i < s.writeLog.length) :
    s.write i = .ok { s with
      place := .writing (i + 1)
      written := s.written ++ [contentsOf (s.writeLog.get ⟨i, hi⟩)] } := by
  have hlocals := h.locals
  rw [hplace] at hlocals
  obtain ⟨b, hb⟩ := hlocals.2.1 (s.writeLog.get ⟨i, hi⟩) (List.get_mem ..)
  have hget : s.writeLog[i]? = some (some b) := by
    rw [List.getElem?_eq_getElem hi]
    exact congrArg some hb
  simp only [write, hget, hb, pure_eq_ok]
  rfl

/-- A refill from a list that is not empty, of buffers that are there. -/
theorem refill_spec {p : BufferPtr SIZE} {writeLog : List (BufferPtr SIZE)}
    (hpresent : Present writeLog) (hp : Spare p ∨ p = none ∧ writeLog ≠ []) :
    ∃ q rest, refill p writeLog = .ok (q, rest) ∧ Spare q ∧ Present rest ∧
      (p = none → rest.length = writeLog.length - 1) ∧ (p ≠ none → rest = writeLog) := by
  rcases hp with ⟨b, rfl, hb⟩ | ⟨rfl, hne⟩
  · exact ⟨some b, writeLog, rfl, ⟨b, rfl, hb⟩, hpresent, fun h => (nomatch h), fun _ => rfl⟩
  · obtain ⟨b, hb⟩ := hpresent _ (List.getLast_mem hne)
    have hlast : writeLog.getLast? = some (some b) := by
      rw [List.getLast?_eq_some_getLast hne, hb]
    refine ⟨some b.reset, writeLog.dropLast, ?_, ⟨_, rfl, rfl⟩,
      fun q hq => hpresent q ((List.dropLast_sublist writeLog).mem hq),
      fun _ => List.length_dropLast .., fun h => absurd rfl h⟩
    simp only [refill, check_pos hne, ok_bind, hlast, pure_eq_ok]

/-- After the writing both spares are there again. -/
theorem recycle_spec {s : LoggingThread SIZE} (h : s.Wf) {i : Nat} (hplace : s.place = .writing i) :
    ∃ b₁ b₂, s.recycle = .ok { s with
        place := .test, newBuffer1 := b₁, newBuffer2 := b₂, writeLog := [] } ∧
      Spare b₁ ∧ Spare b₂ := by
  have hlocals := h.locals
  rw [hplace] at hlocals
  obtain ⟨h₁, hpresent, h₂⟩ := hlocals
  obtain ⟨wl, hwl, hwlPresent, hwlLen⟩ : ∃ wl,
      wl = (if s.writeLog.length > 2 then s.writeLog.take 2 else s.writeLog) ∧
      Present wl ∧ wl.length = min 2 s.writeLog.length := by
    refine ⟨_, rfl, ?_, ?_⟩
    · split
      · exact fun p hp => hpresent p (List.mem_of_mem_take hp)
      · exact hpresent
    · split
      · rw [List.length_take]
      · omega
  have hwlNe : wl ≠ [] := by
    rw [← List.length_pos_iff, hwlLen]
    rcases h₂ with ⟨_, hlen⟩ | ⟨_, hlen⟩ <;> omega
  obtain ⟨b₁, rest, hrefill₁, hspare₁, hrest, hrestLen, _⟩ :=
    refill_spec hwlPresent (.inr ⟨h₁, hwlNe⟩)
  have hsecond : Spare s.newBuffer2 ∨ s.newBuffer2 = none ∧ rest ≠ [] := by
    rcases h₂ with ⟨hspare, _⟩ | ⟨hnone, hlen⟩
    · exact .inl hspare
    · refine .inr ⟨hnone, ?_⟩
      rw [← List.length_pos_iff, hrestLen h₁, hwlLen]
      omega
  obtain ⟨b₂, rest', hrefill₂, hspare₂, _⟩ := refill_spec hrest hsecond
  refine ⟨b₁, b₂, ?_, hspare₁, hspare₂⟩
  simp only [recycle, ← hwl, hrefill₁, ok_bind, hrefill₂, pure_eq_ok]

/-! ## Where the lines are -/

/-- Lines that went to one buffer, and whether the buffer was kept. -/
structure Block where
  lines : List Bytes
  kept : Bool

/-- What the buffer of a block held. -/
def Block.bytes (b : Block) : Bytes := b.lines.flatten

/-- The buffers of `WriteLog` not yet written. -/
def unwritten (s : LoggingThread SIZE) : List (BufferPtr SIZE) :=
  match s.place with
  | .swapped => s.writeLog
  | .writing i => s.writeLog.drop i
  | _ => []

theorem unwritten_of_swapped {s : LoggingThread SIZE} (h : s.place = .swapped) :
    s.unwritten = s.writeLog := by
  rw [unwritten, h]

theorem unwritten_of_writing {s : LoggingThread SIZE} {i : Nat} (h : s.place = .writing i) :
    s.unwritten = s.writeLog.drop i := by
  rw [unwritten, h]

/-- The line a label appends. -/
def Label.line? : Label SIZE → Option Bytes
  | append logline _ => some logline
  | _ => none

/-! ### What a step of the thread can do -/

/-- The steps that append nothing, each with where it is taken from and what it
leaves. -/
inductive ThreadStep (s : LoggingThread SIZE) : Label SIZE → LoggingThread SIZE → Prop
  | start (hplace : s.place = .idle) : ThreadStep s .start s.start
  | stop : ThreadStep s .stop s.stop
  | enter (hplace : s.place = .test) (hrun : s.log.running = true)
      (hspares : Spare s.newBuffer1 ∧ Spare s.newBuffer2 ∧ s.writeLog = []) :
      ThreadStep s .test { s with place := .locking }
  | leave (hplace : s.place = .test) (hrun : s.log.running = false) :
      ThreadStep s .test { s with place := .returned }
  | wait (hplace : s.place = .locking)
      (hspares : Spare s.newBuffer1 ∧ Spare s.newBuffer2 ∧ s.writeLog = []) :
      ThreadStep s .lock { s with place := .waiting }
  | swap {l : Label SIZE} (hplace : s.place = .locking ∨ s.place = .waiting)
      (hspares : Spare s.newBuffer1 ∧ Spare s.newBuffer2 ∧ s.writeLog = [])
      (hnone : s.unwritten = []) : ThreadStep s l s.swapBuffers
  | overload (time : Bytes) (hplace : s.place = .swapped) :
      ThreadStep s (.overload time) (s.overload time)
  | write {i : Nat} (hplace : s.place = .writing i) (hi : i < s.writeLog.length) :
      ThreadStep s .write { s with
        place := .writing (i + 1)
        written := s.written ++ [contentsOf (s.writeLog.get ⟨i, hi⟩)] }
  | recycle {b₁ b₂ : BufferPtr SIZE} (hplace : s.place = .writing s.writeLog.length)
      (hspare₁ : Spare b₁) (hspare₂ : Spare b₂) :
      ThreadStep s .recycle { s with
        place := .test, newBuffer1 := b₁, newBuffer2 := b₂, writeLog := [] }

/-- With its pointers in order the thread never faults, and each of its steps is
one of these. -/
theorem threadStep {s : LoggingThread SIZE} (hwf : s.Wf) {l : Label SIZE} (hen : s.Enabled l)
    (hline : l.line? = none) : ∃ u, s.step l = .ok u ∧ ThreadStep s l u := by
  have hlocals := hwf.locals
  cases l with
  | append logline fresh => cases hline
  | start => exact ⟨_, rfl, .start hen⟩
  | stop => exact ⟨_, rfl, .stop⟩
  | test =>
    have hplace : s.place = .test := hen
    rw [hplace] at hlocals
    refine ⟨_, test_spec hwf hplace, ?_⟩
    cases hrun : s.log.running with
    | true => exact .enter hplace hrun hlocals
    | false => exact .leave hplace hrun
  | lock =>
    have hplace : s.place = .locking := hen
    rw [hplace] at hlocals
    refine ⟨_, rfl, ?_⟩
    unfold LoggingThread.lock
    split
    · exact .wait hplace hlocals
    · exact .swap (.inl hplace) hlocals (by rw [unwritten, hplace])
  | wake =>
    have hplace : s.place = .waiting := hen
    rw [hplace] at hlocals
    exact ⟨_, rfl, .swap (.inr hplace) hlocals (by rw [unwritten, hplace])⟩
  | overload time => exact ⟨_, rfl, .overload time hen⟩
  | write =>
    obtain ⟨i, hplace, hi⟩ := hen
    refine ⟨_, ?_, .write hplace hi⟩
    simp only [step, hplace]
    exact write_spec hwf hplace hi
  | recycle =>
    obtain ⟨b₁, b₂, hrecycle, hspare₁, hspare₂⟩ := recycle_spec hwf hen
    exact ⟨_, hrecycle, .recycle hen hspare₁ hspare₂⟩

/-- All lines appended, by the buffer they went to: buffers written or dropped,
buffers to be written, buffers dropped from behind these, buffers in `buffers_`,
and the current one. -/
structure Ledger where
  settled : List Block
  unwritten : List (List Bytes)
  cut : List (List Bytes)
  queued : List (List Bytes)
  current : List Bytes

/-- The ledger's blocks in the order of the appends. -/
def Ledger.blocks (g : Ledger) : List Block :=
  g.settled ++ g.unwritten.map (⟨·, true⟩) ++ g.cut.map (⟨·, false⟩) ++
    g.queued.map (⟨·, true⟩) ++ [⟨g.current, true⟩]

/-- The ledger accounts for the lines, and each part of it for a part of the state. -/
structure Ledger.Fits (g : Ledger) (lines : List Bytes) (s : LoggingThread SIZE) : Prop where
  lines : g.blocks.flatMap Block.lines = lines
  written : (g.settled.filter (·.kept)).map Block.bytes = s.written
  dropped : (g.settled.filter (!·.kept)).map Block.bytes ++ g.cut.map List.flatten = s.dropped
  unwritten : g.unwritten.map List.flatten = s.unwritten.map contentsOf
  cut : s.place = .swapped → g.cut = []
  queued : g.queued.map List.flatten = s.log.buffers.map contentsOf
  current : g.current.flatten = contentsOf s.log.currentBuffer

theorem flatMap_lines_map (l : List (List Bytes)) (kept : Bool) :
    (l.map (Block.mk · kept)).flatMap Block.lines = l.flatten := by
  rw [List.flatMap_map, List.flatMap_def, List.map_id']

/-- A filter by the flag keeps all of the blocks flagged alike, or none. -/
theorem filter_map_blocks (l : List (List Bytes)) {kept : Bool} {p : Block → Bool}
    (hp : ∀ ls, p ⟨ls, kept⟩ = true) :
    (l.map (Block.mk · kept)).filter p = l.map (Block.mk · kept) := by
  rw [List.filter_eq_self]
  intro b hb
  obtain ⟨ls, _, rfl⟩ := List.mem_map.mp hb
  exact hp ls

theorem filter_map_blocks_nil (l : List (List Bytes)) {kept : Bool} {p : Block → Bool}
    (hp : ∀ ls, p ⟨ls, kept⟩ = false) : (l.map (Block.mk · kept)).filter p = [] := by
  rw [List.filter_eq_nil_iff]
  intro b hb
  obtain ⟨ls, _, rfl⟩ := List.mem_map.mp hb
  simp [hp ls]

theorem map_bytes_map (l : List (List Bytes)) (kept : Bool) :
    (l.map (Block.mk · kept)).map Block.bytes = l.map List.flatten := by
  rw [List.map_map]
  rfl

theorem Ledger.flatMap_blocks (g : Ledger) :
    g.blocks.flatMap Block.lines = g.settled.flatMap Block.lines ++ g.unwritten.flatten ++
      g.cut.flatten ++ g.queued.flatten ++ g.current := by
  simp only [blocks, List.flatMap_append, flatMap_lines_map, List.flatMap_singleton]

theorem fits_init : Ledger.Fits ⟨[], [], [], [], []⟩ [] (init SIZE) where
  lines := rfl
  written := rfl
  dropped := rfl
  unwritten := rfl
  cut := fun _ => rfl
  queued := rfl
  current := (FixedBuffer.contents_eq_nil rfl).symm

section Steps

variable {g : Ledger} {lines : List Bytes} {s : LoggingThread SIZE}

/-- A step that writes nothing, drops nothing and leaves the producers' buffers
as they are. -/
theorem Ledger.Fits.quiet (h : g.Fits lines s) {u : LoggingThread SIZE}
    (hwritten : u.written = s.written) (hdropped : u.dropped = s.dropped)
    (hunwritten : u.unwritten = s.unwritten) (hplace : u.place ≠ .swapped)
    (hbuffers : u.log.buffers = s.log.buffers)
    (hcurrent : u.log.currentBuffer = s.log.currentBuffer) : g.Fits lines u where
  lines := h.lines
  written := h.written.trans hwritten.symm
  dropped := h.dropped.trans hdropped.symm
  unwritten := by rw [hunwritten, h.unwritten]
  cut := fun heq => absurd heq hplace
  queued := by rw [hbuffers, h.queued]
  current := by rw [hcurrent, h.current]

/-- A line is the last of the current buffer's. -/
theorem Ledger.Fits.appendRoom (h : g.Fits lines s) {log : AsyncLogging SIZE} {logline : Bytes}
    (hbuffers : log.buffers = s.log.buffers)
    (hcurrent : contentsOf log.currentBuffer = contentsOf s.log.currentBuffer ++ logline) :
    Fits { g with current := g.current ++ [logline] } (lines ++ [logline]) { s with log } where
  lines := by
    rw [← h.lines, flatMap_blocks, flatMap_blocks]
    simp only [List.append_assoc]
  written := h.written
  dropped := h.dropped
  unwritten := h.unwritten
  cut := h.cut
  queued := by rw [hbuffers, h.queued]
  current := by rw [hcurrent, List.flatten_append, h.current, List.flatten_singleton]

/-- The current buffer is queued, and a new one begins with the lines given. -/
theorem Ledger.Fits.appendFull (h : g.Fits lines s) {log : AsyncLogging SIZE} {new : List Bytes}
    (hbuffers : log.buffers = s.log.buffers ++ [s.log.currentBuffer])
    (hcurrent : contentsOf log.currentBuffer = new.flatten) :
    Fits { g with queued := g.queued ++ [g.current], current := new } (lines ++ new)
      { s with log } where
  lines := by
    rw [← h.lines, flatMap_blocks, flatMap_blocks]
    simp only [List.flatten_append, List.flatten_singleton, List.append_assoc]
  written := h.written
  dropped := h.dropped
  unwritten := h.unwritten
  cut := h.cut
  queued := by
    rw [hbuffers, List.map_append, List.map_append, h.queued, List.map_singleton,
      List.map_singleton, h.current]
  current := hcurrent.symm

/-- The swap: what was dropped is settled, and what the producers had is to be
written. -/
theorem Ledger.Fits.swap (h : g.Fits lines s) {u : LoggingThread SIZE}
    (hnone : s.unwritten = []) (hplace : u.place = .swapped)
    (hwriteLog : u.writeLog = s.log.buffers ++ [s.log.currentBuffer])
    (hbuffers : u.log.buffers = []) (hcurrent : Spare u.log.currentBuffer)
    (hwritten : u.written = s.written) (hdropped : u.dropped = s.dropped) :
    Fits ⟨g.settled ++ g.cut.map (⟨·, false⟩), g.queued ++ [g.current], [], [], []⟩ lines u where
  lines := by
    have hnil : g.unwritten = [] := by
      have := h.unwritten
      rw [hnone] at this
      exact List.map_eq_nil_iff.mp this
    rw [← h.lines, flatMap_blocks, flatMap_blocks, hnil]
    simp only [List.flatMap_append, flatMap_lines_map, List.flatten_append, List.flatten_singleton,
      List.flatten_nil, List.append_nil, List.append_assoc]
  written := by
    rw [hwritten, ← h.written, List.filter_append, filter_map_blocks_nil _ fun _ => rfl,
      List.append_nil]
  dropped := by
    rw [hdropped, ← h.dropped, List.filter_append, filter_map_blocks _ fun _ => rfl,
      List.map_append, map_bytes_map, List.map_nil, List.append_nil]
  unwritten := by
    rw [unwritten_of_swapped hplace, hwriteLog, List.map_append, List.map_append, h.queued,
      List.map_singleton, List.map_singleton, h.current]
  cut := fun _ => rfl
  queued := by rw [hbuffers]; rfl
  current := by
    obtain ⟨b, hb, hcur⟩ := hcurrent
    rw [hb]
    exact (FixedBuffer.contents_eq_nil hcur).symm

/-- Overload: all but the first two blocks to be written are cut. -/
theorem Ledger.Fits.overload (h : g.Fits lines s) (hplace : s.place = .swapped) (time : Bytes) :
    ∃ g : Ledger, g.Fits lines (s.overload time) := by
  have hcut := h.cut hplace
  have hunwritten : g.unwritten.map List.flatten = s.writeLog.map contentsOf := by
    rw [h.unwritten, unwritten_of_swapped hplace]
  unfold LoggingThread.overload
  by_cases hover : s.writeLog.length > 25
  · rw [if_pos hover]
    refine ⟨⟨g.settled, g.unwritten.take 2, g.unwritten.drop 2, g.queued, g.current⟩,
      ?_, h.written, ?_, ?_, fun heq => (nomatch heq), h.queued, h.current⟩
    · rw [← h.lines, flatMap_blocks, flatMap_blocks, hcut, List.append_assoc (g.settled.flatMap _),
        ← List.flatten_append, List.take_append_drop, List.flatten_nil, List.append_nil]
    · have hdropped := h.dropped
      rw [hcut, List.map_nil, List.append_nil] at hdropped
      rw [hdropped, List.map_drop, hunwritten, List.map_drop]
    · rw [List.map_take, hunwritten, unwritten_of_writing rfl, List.drop_zero, List.map_take]
  · rw [if_neg hover]
    refine ⟨g, h.lines, h.written, h.dropped, ?_, fun heq => (nomatch heq), h.queued, h.current⟩
    rw [hunwritten, unwritten_of_writing rfl, List.drop_zero]

/-- A buffer written: its block is settled. -/
theorem Ledger.Fits.write (h : g.Fits lines s) {i : Nat} (hplace : s.place = .writing i)
    (hi : i < s.writeLog.length) :
    ∃ g : Ledger, g.Fits lines { s with
      place := .writing (i + 1)
      written := s.written ++ [contentsOf (s.writeLog.get ⟨i, hi⟩)] } := by
  have hunwritten : g.unwritten.map List.flatten =
      contentsOf (s.writeLog.get ⟨i, hi⟩) :: (s.writeLog.drop (i + 1)).map contentsOf := by
    rw [h.unwritten, unwritten_of_writing hplace]
    simp only [List.drop_eq_getElem_cons hi, List.map_cons, List.get_eq_getElem]
  obtain ⟨first, rest, hsplit, hfirst, hrest⟩ := List.map_eq_cons_iff.mp hunwritten
  refine ⟨⟨g.settled ++ [⟨first, true⟩], rest, g.cut, g.queued, g.current⟩, ?_, ?_, ?_, hrest,
    fun heq => (nomatch heq), h.queued, h.current⟩
  · rw [← h.lines, flatMap_blocks, flatMap_blocks, hsplit]
    simp only [List.flatMap_append, List.flatMap_singleton, List.flatten_cons, List.append_assoc]
  · rw [List.filter_append, List.map_append, h.written]
    simp [Block.bytes, hfirst]
  · rw [← h.dropped, List.filter_append]
    simp

end Steps

/-! ## Every step -/

/-- The invariant of a run: the buffers rotate and the ledger fits. -/
def Inv (lines : List Bytes) (s : LoggingThread SIZE) : Prop :=
  s.Wf ∧ ∃ g : Ledger, g.Fits lines s

/-- The current buffer queued, and another one in its place. -/
theorem Wf.appendFull {s : LoggingThread SIZE} (h : s.Wf) (current b : FixedBuffer SIZE) :
    Wf { s with log := { s.log with
      currentBuffer := some b
      nextBuffer := none
      buffers := s.log.buffers ++ [some current] } } where
  current := ⟨b, rfl⟩
  next := .inl ⟨rfl, List.append_ne_nil_of_right_ne_nil _ (List.cons_ne_nil _ _)⟩
  buffers := by
    intro p hp
    rcases List.mem_append.mp hp with hp | hp
    · exact h.buffers p hp
    · exact ⟨current, List.mem_singleton.mp hp⟩
  locals := h.locals

theorem append_inv {s : LoggingThread SIZE} {lines : List Bytes} (h : s.Inv lines)
    {logline : Bytes} {fresh : FixedBuffer SIZE} (hline : logline.length < SIZE)
    (hfresh : fresh.cur = 0) :
    ∃ u, s.step (.append logline fresh) = .ok u ∧ u.Inv (lines ++ [logline]) := by
  obtain ⟨hwf, g, hfits⟩ := h
  obtain ⟨current, hcurrent⟩ := hwf.current
  have hnext : s.log.nextBuffer = none ∨ Spare s.log.nextBuffer := hwf.next.imp_left (·.1)
  have hcontents : contentsOf s.log.currentBuffer = current.contents := by
    rw [hcurrent]
    rfl
  rcases append_spec hcurrent hnext hline hfresh with ⟨b, happend, hb⟩ | ⟨b, happend, hb⟩
  · refine ⟨{ s with log := { s.log with currentBuffer := some b } },
      by simp only [step, happend, ok_bind, pure_eq_ok],
      ⟨⟨b, rfl⟩, hwf.next, hwf.buffers, hwf.locals⟩, _, hfits.appendRoom rfl ?_⟩
    rw [hcontents]
    exact hb
  · refine ⟨{ s with log := { s.log with
        currentBuffer := some b, nextBuffer := none, buffers := s.log.buffers ++ [some current] } },
      by simp only [step, happend, ok_bind, pure_eq_ok],
      hwf.appendFull current b, _, hfits.appendFull ?_ ?_⟩
    · rw [hcurrent]
    · rw [List.flatten_singleton]
      exact hb

/-- The steps that append nothing keep the buffers rotating. -/
theorem ThreadStep.wf {s u : LoggingThread SIZE} {l : Label SIZE} (hstep : ThreadStep s l u)
    (hwf : s.Wf) : u.Wf := by
  have hlocals := hwf.locals
  cases hstep with
  | start hplace =>
    rw [hplace] at hlocals
    exact ⟨hwf.current, hwf.next, hwf.buffers, spare_zeroed, spare_zeroed, hlocals⟩
  | stop => exact ⟨hwf.current, hwf.next, hwf.buffers, hwf.locals⟩
  | enter _ _ hspares | wait _ hspares => exact ⟨hwf.current, hwf.next, hwf.buffers, hspares⟩
  | leave _ _ => exact ⟨hwf.current, hwf.next, hwf.buffers, trivial⟩
  | swap _ hspares _ => exact (hwf.swapBuffers hspares).1
  | overload time hplace => exact hwf.overload hplace time
  | write hplace hi =>
    rw [hplace] at hlocals
    exact ⟨hwf.current, hwf.next, hwf.buffers, hlocals⟩
  | recycle _ hspare₁ hspare₂ =>
    exact ⟨hwf.current, hwf.next, hwf.buffers, hspare₁, hspare₂, rfl⟩

/-- The steps that append nothing keep the account. -/
theorem ThreadStep.inv {s u : LoggingThread SIZE} {l : Label SIZE} (hstep : ThreadStep s l u)
    {lines : List Bytes} (h : s.Inv lines) : u.Inv lines := by
  obtain ⟨hwf, g, hfits⟩ := h
  refine ⟨hstep.wf hwf, ?_⟩
  cases hstep with
  | start hplace =>
    refine ⟨g, hfits.quiet rfl rfl ?_ (fun heq => nomatch heq) rfl rfl⟩
    simp [unwritten, hplace, LoggingThread.start]
  | stop =>
    exact ⟨g, hfits.lines, hfits.written, hfits.dropped, hfits.unwritten, hfits.cut, hfits.queued,
      hfits.current⟩
  | enter hplace _ _ | leave hplace _ | wait hplace _ =>
    exact ⟨g, hfits.quiet rfl rfl (by simp [unwritten, hplace]) (fun heq => nomatch heq) rfl rfl⟩
  | swap _ hspares hnone =>
    obtain ⟨_, hplace, hwriteLog, hbuffers, hcurrent, hwritten, hdropped⟩ :=
      hwf.swapBuffers hspares
    exact ⟨_, hfits.swap hnone hplace hwriteLog hbuffers hcurrent hwritten hdropped⟩
  | overload time hplace => exact hfits.overload hplace time
  | write hplace hi => exact hfits.write hplace hi
  | recycle hplace _ _ =>
    refine ⟨g, hfits.quiet rfl rfl ?_ (fun heq => nomatch heq) rfl rfl⟩
    simp [unwritten, hplace]

/-- **No step faults, and every step keeps the account.** -/
theorem step_inv {s : LoggingThread SIZE} {lines : List Bytes} (h : s.Inv lines)
    {l : Label SIZE} (hen : s.Enabled l) :
    ∃ u, s.step l = .ok u ∧ u.Inv (lines ++ l.line?.toList) := by
  cases hline : l.line? with
  | none =>
    obtain ⟨u, hu, hstep⟩ := threadStep h.1 hen hline
    rw [Option.toList_none, List.append_nil]
    exact ⟨u, hu, hstep.inv h⟩
  | some logline =>
    cases l with
    | append logline fresh =>
      cases hline
      exact append_inv h hen.1 hen.2
    | _ => cases hline

/-! ## Runs -/

/-- The lines appended in a run, in order. -/
def linesOf (ls : List (Label SIZE)) : List Bytes := ls.filterMap Label.line?

theorem linesOf_snoc (ls : List (Label SIZE)) (l : Label SIZE) :
    linesOf (ls ++ [l]) = linesOf ls ++ l.line?.toList := by
  rw [linesOf, List.filterMap_append]
  congr 1

theorem run_inv {ls : List (Label SIZE)} {r : Checked (LoggingThread SIZE)}
    (h : (system SIZE).Run (init SIZE) ls r) : ∃ s, r = .ok s ∧ s.Inv (linesOf ls) := by
  refine h.total (I := fun ls s => s.Inv (linesOf ls)) ⟨wf_init, _, fits_init⟩
    fun ls s l hs hen => ?_
  rw [linesOf_snoc]
  exact step_inv hs hen

/-- In no state the run passes through does the thread stand after its swap with
more than 25 buffers. -/
def NeverOverloaded (ls : List (Label SIZE)) : Prop :=
  ∀ pre s, pre <+: ls → (system SIZE).Run (init SIZE) pre (.ok s) → s.place = .swapped →
    s.writeLog.length ≤ 25

/-- Only overload drops. -/
theorem step_dropped {s u : LoggingThread SIZE} (hwf : s.Wf) {l : Label SIZE} (hen : s.Enabled l)
    (h : s.step l = .ok u) :
    u.dropped = s.dropped ∨ s.place = .swapped ∧ 25 < s.writeLog.length := by
  cases hline : l.line? with
  | some logline =>
    cases l with
    | append logline fresh =>
      obtain ⟨log, _, hu⟩ := bind_eq_ok.mp h
      cases hu
      exact .inl rfl
    | _ => cases hline
  | none =>
    obtain ⟨v, hv, hstep⟩ := threadStep hwf hen hline
    cases h.symm.trans hv
    cases hstep with
    | swap _ hspares _ => exact .inl (hwf.swapBuffers hspares).2.2.2.2.2.2
    | overload time hplace =>
      by_cases hover : s.writeLog.length > 25
      · exact .inr ⟨hplace, hover⟩
      · rw [LoggingThread.overload, if_neg hover]
        exact .inl rfl
    | _ => exact .inl rfl

theorem dropped_eq_nil {ls : List (Label SIZE)} {s : LoggingThread SIZE}
    (h : (system SIZE).Run (init SIZE) ls (.ok s)) (hnever : NeverOverloaded ls) :
    s.dropped = [] := by
  refine (h.history (I := fun ls s => (system SIZE).Run (init SIZE) ls (.ok s) ∧
    (NeverOverloaded ls → s.dropped = [])) ⟨.nil, fun _ => rfl⟩ ?_).2 hnever
  intro ls t l u ⟨hrun, hdropped⟩ hen hstep
  refine ⟨hstep ▸ .snoc hrun hen, fun hnever => ?_⟩
  obtain ⟨t', ht', hwf, _⟩ := run_inv hrun
  cases ht'
  have hprev : t.dropped = [] :=
    hdropped fun pre s hpre => hnever pre s (hpre.trans (List.prefix_append ls [l]))
  rcases step_dropped hwf hen hstep with hsame | ⟨hplace, hover⟩
  · rw [hsame, hprev]
  · have hle := hnever ls t (List.prefix_append ls [l]) hrun hplace
    omega

/-- The blocks kept and the blocks dropped, read off a ledger. -/
theorem Ledger.Fits.accounts {g : Ledger} {lines : List Bytes} {s : LoggingThread SIZE}
    (h : g.Fits lines s) :
    (g.blocks.filter (·.kept)).map Block.bytes = s.written ++ s.unwritten.map contentsOf ++
        s.log.buffers.map contentsOf ++ [contentsOf s.log.currentBuffer] ∧
      (g.blocks.filter (!·.kept)).map Block.bytes = s.dropped := by
  constructor
  · have hkept : ∀ l : List (List Bytes), (l.map (Block.mk · true)).filter (·.kept) =
        l.map (Block.mk · true) := fun l => filter_map_blocks l fun _ => rfl
    have hcut : (g.cut.map (Block.mk · false)).filter (·.kept) = [] :=
      filter_map_blocks_nil _ fun _ => rfl
    rw [← h.written, ← h.unwritten, ← h.queued, ← h.current]
    simp only [blocks, List.filter_append, List.map_append, hkept, hcut, map_bytes_map,
      List.append_nil]
    rfl
  · have hkept : ∀ l : List (List Bytes), (l.map (Block.mk · true)).filter (!·.kept) = [] :=
      fun l => filter_map_blocks_nil l fun _ => rfl
    have hcut : (g.cut.map (Block.mk · false)).filter (!·.kept) = g.cut.map (Block.mk · false) :=
      filter_map_blocks _ fun _ => rfl
    rw [← h.dropped]
    simp only [blocks, List.filter_append, List.map_append, hkept, hcut, map_bytes_map,
      List.append_nil]
    simp

/-- Blocks that are all kept hold the lines, all of them and in order. -/
theorem bytes_eq_lines {blocks : List Block} (h : (blocks.filter (!·.kept)).map Block.bytes = []) :
    ((blocks.filter (·.kept)).map Block.bytes).flatten = (blocks.flatMap Block.lines).flatten := by
  have hall : blocks.filter (·.kept) = blocks := by
    rw [List.filter_eq_self]
    intro b hb
    have hnone := List.filter_eq_nil_iff.mp (List.map_eq_nil_iff.mp h) b hb
    simpa using hnone
  rw [hall, List.flatMap_def, List.flatten_flatten, List.map_map]
  rfl

/-- **What is appended is written, buffer by buffer and in order.** In every
interleaving of appends with the steps of the logging thread no step faults, and
in every state reached the lines appended so far can be grouped into blocks of
whole lines, in the order of the appends, such that the blocks kept are exactly
the buffers written, then those of `WriteLog` not yet written, then `buffers_`,
then the current one, and the other blocks are the buffers removed by the
overload branch. In runs where no swap yields more than 25 buffers there are none
of these, and what was and will be written is the lines, byte for byte. -/
theorem log_conserved {ls : List (Label SIZE)} {r : Checked (LoggingThread SIZE)}
    (h : (system SIZE).Run (init SIZE) ls r) :
    ∃ s, r = .ok s ∧ ∃ blocks : List Block,
      blocks.flatMap Block.lines = linesOf ls ∧
      (blocks.filter (·.kept)).map Block.bytes = s.written ++ s.unwritten.map contentsOf ++
        s.log.buffers.map contentsOf ++ [contentsOf s.log.currentBuffer] ∧
      (blocks.filter (!·.kept)).map Block.bytes = s.dropped ∧
      (NeverOverloaded ls → s.dropped = [] ∧
        (s.written ++ s.unwritten.map contentsOf ++ s.log.buffers.map contentsOf ++
          [contentsOf s.log.currentBuffer]).flatten = (linesOf ls).flatten) := by
  obtain ⟨s, rfl, _, g, hfits⟩ := run_inv h
  obtain ⟨hkept, hdropped⟩ := hfits.accounts
  refine ⟨s, rfl, g.blocks, hfits.lines, hkept, hdropped, fun hnever => ?_⟩
  have hnil := dropped_eq_nil h hnever
  refine ⟨hnil, ?_⟩
  rw [← hkept, ← hfits.lines]
  exact bytes_eq_lines (hdropped.trans hnil)

/-- Buffers of four bytes and two lines of two: the second line needs a buffer of
its own, and with the first one written, the account is in three places. -/
theorem log_conserved_small :
    ∃ s, (system 4).Run (init 4) [.append [97, 98] (zeroed 4), .append [99, 100] (zeroed 4),
        .start, .test, .lock, .append [101] (zeroed 4), .overload [], .write] (.ok s) ∧
      s.written = [[97, 98]] ∧ s.unwritten.map contentsOf = [[99, 100]] ∧
      contentsOf s.log.currentBuffer = [101] ∧
      ∃ blocks : List Block, blocks.flatMap Block.lines = [[97, 98], [99, 100], [101]] ∧
        (blocks.filter (·.kept)).map Block.bytes = [[97, 98], [99, 100], [101]] := by
  have hrun : ∃ s, (system 4).Run (init 4) [.append [97, 98] (zeroed 4),
        .append [99, 100] (zeroed 4), .start, .test, .lock, .append [101] (zeroed 4), .overload [],
        .write] (.ok s) ∧
      s.written = [[97, 98]] ∧ s.unwritten.map contentsOf = [[99, 100]] ∧
      s.log.buffers = [] ∧ contentsOf s.log.currentBuffer = [101] :=
    ⟨_, .cons ⟨by decide, rfl⟩ rfl <| .cons ⟨by decide, rfl⟩ rfl <| .cons rfl rfl <|
      .cons rfl rfl <| .cons rfl rfl <| .cons ⟨by decide, rfl⟩ rfl <| .cons rfl rfl <|
      .cons ⟨0, rfl, by decide⟩ rfl .nil, rfl, rfl, rfl, rfl⟩
  obtain ⟨s, hrun, hwritten, hunwritten, hbuffers, hcurrent⟩ := hrun
  obtain ⟨s', hs', blocks, hlines, hkept, _⟩ := log_conserved hrun
  cases hs'
  refine ⟨s, hrun, hwritten, hunwritten, hcurrent, blocks, hlines, ?_⟩
  rw [hkept, hwritten, hunwritten, hbuffers, hcurrent]
  rfl

end LoggingThread

end ClyServer
