import ClyServer.Base.LogConservation
import Mathlib.Data.List.Flatten

/-!
# Stopping the logger (`AsyncLogging::stop`, `Thread::join`)

`stop()` clears `running_`, wakes the thread up and joins it. The thread reads
`running_` at its `while` only: if it stands between that test and its swap, the
swap is still to come and takes over all that was appended; if it stands anywhere
else, it goes on to the test and returns, and what the producers appended since the
last swap stays where it is.

Here producers append lines of any length. A line is stored only if it is shorter
than a buffer, since `FixedBuffer::append` leaves a byte free; one of exactly a
buffer's length is lost like a longer one.

The proof is by counting bytes: what the thread has taken over (`handed`) and what
is with the producers (`pending`) together are the lines stored, and each step
either leaves `handed` or is a swap, which adds all that is `pending`.
-/

namespace ClyServer

open ClyServer.Lib

/-! ## The logger and its `stop` -/

/-- The thread stands between its test and its swap. -/
def LoggingPlace.beforeSwap : LoggingPlace → Bool
  | locking | waiting => true
  | _ => false

/-- The logger, `joined_` of its thread, and whether `stop()` has returned. -/
structure AsyncLogger (SIZE : Nat) where
  thread : LoggingThread SIZE
  joined : Bool
  stopped : Bool

namespace AsyncLogger

variable {SIZE : Nat}

def init (SIZE : Nat) : AsyncLogger SIZE where
  thread := .init SIZE
  joined := false
  stopped := false

/-- What can happen next: a call or a step of the thread, or `pthread_join` and
with it `stop()` returns. -/
inductive Label (SIZE : Nat) where
  | run (l : LoggingThread.Label SIZE)
  | join

/-- The labels a state allows. A line may have any length. -/
def Enabled (s : AsyncLogger SIZE) : Label SIZE → Prop
  | .run (.append _ fresh) => fresh.cur = 0
  | .run l => s.thread.Enabled l
  | .join => s.joined = true ∧ s.thread.place = .returned

/-- `stop()` up to its `pthread_join`: `Thread::join` asserts that the thread was
started and was not joined before. -/
def stop (s : AsyncLogger SIZE) : Checked (AsyncLogger SIZE) := do
  let thread := s.thread.stop
  check (thread.place ≠ .idle) .join
  check (s.joined = false) .join
  return { s with thread, joined := true }

def step (s : AsyncLogger SIZE) : Label SIZE → Checked (AsyncLogger SIZE)
  | .run .stop => s.stop
  | .run l => do
    let thread ← s.thread.step l
    return { s with thread }
  | .join => return { s with stopped := true }

/-- The logger with any number of producers. -/
def system (SIZE : Nat) : System (AsyncLogger SIZE) (Label SIZE) Fault where
  enabled := Enabled
  step := step

/-- The line a label appends. -/
def Label.line? : Label SIZE → Option Bytes
  | run l => l.line?
  | join => none

/-- The lines appended in a run, in order. -/
def linesOf (ls : List (Label SIZE)) : List Bytes := ls.filterMap Label.line?

/-- The lines a buffer has room for. -/
def fitting (SIZE : Nat) (lines : List Bytes) : List Bytes := lines.filter (·.length < SIZE)

end AsyncLogger

namespace LoggingThread

variable {SIZE : Nat}

/-! ## Lines too long for a buffer -/

theorem append_eq_self {b : FixedBuffer SIZE} {buf : Bytes} (h : ¬ buf.length < SIZE) :
    b.append buf = b := by
  have havail : ¬ buf.length < b.avail := by
    unfold FixedBuffer.avail
    omega
  rw [FixedBuffer.append, dif_neg havail]

/-- The current buffer is queued, and an empty one takes its place. -/
theorem appendLong_spec {log : AsyncLogging SIZE} {current fresh : FixedBuffer SIZE}
    {logline : Bytes} (hcurrent : log.currentBuffer = some current)
    (hnext : log.nextBuffer = none ∨ Spare log.nextBuffer) (hline : ¬ logline.length < SIZE)
    (hfresh : fresh.cur = 0) :
    ∃ b, log.append logline fresh = .ok { log with
        currentBuffer := some b, nextBuffer := none, buffers := log.buffers ++ [some current] } ∧
      b.cur = 0 := by
  have hroom : ¬ logline.length < current.avail := by
    unfold FixedBuffer.avail
    omega
  unfold AsyncLogging.append
  rw [hcurrent]
  rcases hnext with hnone | ⟨b, hb, hcur⟩
  · refine ⟨fresh, ?_, hfresh⟩
    simp only [if_neg hroom, hnone, append_eq_self hline, pure_eq_ok]
  · refine ⟨b, ?_, hcur⟩
    simp only [if_neg hroom, hb, append_eq_self hline, pure_eq_ok]

theorem appendLong_inv {s : LoggingThread SIZE} {lines : List Bytes} (h : s.Inv lines)
    {logline : Bytes} {fresh : FixedBuffer SIZE} (hline : ¬ logline.length < SIZE)
    (hfresh : fresh.cur = 0) :
    ∃ u, s.step (.append logline fresh) = .ok u ∧ u.Inv lines := by
  obtain ⟨hwf, g, hfits⟩ := h
  obtain ⟨current, hcurrent⟩ := hwf.current
  have hnext : s.log.nextBuffer = none ∨ Spare s.log.nextBuffer := hwf.next.imp_left (·.1)
  obtain ⟨b, happend, hb⟩ := appendLong_spec hcurrent hnext hline hfresh
  let log := { s.log with
    currentBuffer := some b, nextBuffer := none, buffers := s.log.buffers ++ [some current] }
  have hafter : Ledger.Fits { g with queued := g.queued ++ [g.current], current := [] }
      (lines ++ []) { s with log } :=
    hfits.appendFull (by rw [hcurrent]) (FixedBuffer.contents_eq_nil hb)
  rw [List.append_nil] at hafter
  exact ⟨_, by simp only [step, happend, ok_bind, pure_eq_ok], hwf.appendFull current b, _, hafter⟩

end LoggingThread

namespace AsyncLogger

variable {SIZE : Nat}

theorem linesOf_append (ls ls' : List (Label SIZE)) :
    linesOf (ls ++ ls') = linesOf ls ++ linesOf ls' := List.filterMap_append ..

theorem fitting_append (lines lines' : List Bytes) :
    fitting SIZE (lines ++ lines') = fitting SIZE lines ++ fitting SIZE lines' :=
  List.filter_append ..

/-- What a step can do to the thread: nothing when `stop()` returns, an append, or a
step of the thread. -/
inductive Steps (s : AsyncLogger SIZE) : Label SIZE → AsyncLogger SIZE → Prop
  | join (hplace : s.thread.place = .returned) : Steps s .join { s with stopped := true }
  | append {logline : Bytes} {fresh : FixedBuffer SIZE} {log : AsyncLogging SIZE}
      (hfresh : fresh.cur = 0) (hlog : s.thread.log.append logline fresh = .ok log) :
      Steps s (.run (.append logline fresh)) { s with thread := { s.thread with log } }
  | thread {l : LoggingThread.Label SIZE} {u : AsyncLogger SIZE} (hline : l.line? = none)
      (hthread : LoggingThread.ThreadStep s.thread l u.thread) (hstopped : u.stopped = s.stopped) :
      Steps s (.run l) u

/-- A call or a step of the thread does to the thread what it did before. -/
theorem step_run {s u : AsyncLogger SIZE} {l : LoggingThread.Label SIZE}
    (h : s.step (.run l) = .ok u) : s.thread.step l = .ok u.thread ∧ u.stopped = s.stopped := by
  cases l with
  | stop =>
    obtain ⟨_, _, h⟩ := bind_eq_ok.mp h
    obtain ⟨_, _, h⟩ := bind_eq_ok.mp h
    cases h
    exact ⟨rfl, rfl⟩
  | _ =>
    obtain ⟨thread, hthread, hu⟩ := bind_eq_ok.mp h
    cases hu
    exact ⟨hthread, rfl⟩

theorem enabled_run {s : AsyncLogger SIZE} {l : LoggingThread.Label SIZE} (hline : l.line? = none)
    (h : s.Enabled (.run l)) : s.thread.Enabled l := by
  cases l with
  | append logline fresh => cases hline
  | _ => exact h

theorem steps {s u : AsyncLogger SIZE} (hwf : s.thread.Wf) {l : Label SIZE} (hen : s.Enabled l)
    (h : s.step l = .ok u) : Steps s l u := by
  cases l with
  | join =>
    cases h
    exact .join hen.2
  | run l =>
    cases hline : l.line? with
    | none =>
      obtain ⟨hthread, hstopped⟩ := step_run h
      obtain ⟨v, hv, hstep⟩ := LoggingThread.threadStep hwf (enabled_run hline hen) hline
      cases hthread.symm.trans hv
      exact .thread hline hstep hstopped
    | some logline =>
      cases l with
      | append logline fresh =>
        obtain ⟨thread, hthread, hu⟩ := bind_eq_ok.mp h
        obtain ⟨log, hlog, hlog'⟩ := bind_eq_ok.mp hthread
        cases hlog'
        cases hu
        exact .append hen hlog
      | _ => cases hline

/-- Every step keeps the account of the lines stored. -/
theorem Steps.inv {s u : AsyncLogger SIZE} {l : Label SIZE} (h : Steps s l u)
    {lines : List Bytes} (hinv : s.thread.Inv lines) :
    u.thread.Inv (lines ++ fitting SIZE (linesOf [l])) := by
  cases h with
  | join _ =>
    have hnone : linesOf [(.join : Label SIZE)] = [] := rfl
    rwa [hnone, fitting, List.filter_nil, List.append_nil]
  | @append logline fresh log hfresh hlog =>
    have hline : linesOf [(.run (.append logline fresh) : Label SIZE)] = [logline] := rfl
    have hstep : s.thread.step (.append logline fresh) = .ok { s.thread with log } := by
      simp only [LoggingThread.step, hlog, ok_bind, pure_eq_ok]
    rw [hline, fitting]
    by_cases hfit : logline.length < SIZE
    · obtain ⟨v, hv, hafter⟩ := LoggingThread.append_inv hinv hfit hfresh
      cases hstep.symm.trans hv
      rwa [List.filter_cons_of_pos (by simpa using hfit)]
    · obtain ⟨v, hv, hafter⟩ := LoggingThread.appendLong_inv hinv hfit hfresh
      cases hstep.symm.trans hv
      rwa [List.filter_cons_of_neg (by simpa using hfit), List.filter_nil, List.append_nil]
  | @thread l _ hline hthread _ =>
    have hnone : linesOf [(.run l : Label SIZE)] = [] := List.filterMap_cons_none hline
    rw [hnone, fitting, List.filter_nil, List.append_nil]
    exact hthread.inv hinv

end AsyncLogger

/-! ## Counting bytes -/

namespace LoggingThread

variable {SIZE : Nat}

/-- The bytes the thread has taken over: written, dropped, or to be written. -/
def handed (s : LoggingThread SIZE) : Nat :=
  s.written.flatten.length + s.dropped.flatten.length +
    (s.unwritten.map contentsOf).flatten.length

/-- The bytes that are still with the producers. -/
def pending (s : LoggingThread SIZE) : Nat :=
  (s.log.buffers.map contentsOf).flatten.length + (contentsOf s.log.currentBuffer).length

/-- Kept or not, the blocks hold the bytes of their lines. -/
theorem length_blocks (blocks : List Block) :
    (blocks.flatMap Block.lines).flatten.length =
      ((blocks.filter (·.kept)).map Block.bytes).flatten.length +
        ((blocks.filter (!·.kept)).map Block.bytes).flatten.length := by
  induction blocks with
  | nil => rfl
  | cons b rest ih =>
    rw [List.flatMap_cons, List.flatten_append, List.length_append, ih]
    obtain ⟨lines, kept⟩ := b
    cases kept with
    | true =>
      simp only [List.filter_cons, if_true, List.map_cons, List.flatten_cons, List.length_append,
        Block.bytes, Bool.not_true, Bool.false_eq_true, if_false]
      omega
    | false =>
      simp only [List.filter_cons, if_true, List.map_cons, List.flatten_cons, List.length_append,
        Block.bytes, Bool.not_false, Bool.false_eq_true, if_false]
      omega

/-- The bytes of the lines stored are with the thread or with the producers. -/
theorem Inv.account {s : LoggingThread SIZE} {lines : List Bytes} (h : s.Inv lines) :
    s.handed + s.pending = lines.flatten.length := by
  obtain ⟨_, g, hfits⟩ := h
  obtain ⟨hkept, hdropped⟩ := hfits.accounts
  rw [← hfits.lines, length_blocks, hkept, hdropped, handed, pending]
  simp only [List.flatten_append, List.length_append, List.flatten_singleton]
  omega

theorem handed_eq {s u : LoggingThread SIZE} (hwritten : u.written = s.written)
    (hdropped : u.dropped = s.dropped) (hunwritten : u.unwritten = s.unwritten) :
    u.handed = s.handed := by
  rw [handed, hwritten, hdropped, hunwritten, handed]

/-- A swap takes over all that is with the producers. -/
theorem handed_swapBuffers {s : LoggingThread SIZE} (h : s.Wf)
    (hspares : Spare s.newBuffer1 ∧ Spare s.newBuffer2 ∧ s.writeLog = [])
    (hnone : s.unwritten = []) :
    s.swapBuffers.handed = s.handed + s.pending ∧ s.swapBuffers.place = .swapped := by
  obtain ⟨_, hplace, hwriteLog, _, _, hwritten, hdropped⟩ := h.swapBuffers hspares
  refine ⟨?_, hplace⟩
  rw [handed, handed, pending, hwritten, hdropped, unwritten_of_swapped hplace, hwriteLog, hnone]
  simp only [List.map_append, List.map_singleton, List.flatten_append, List.flatten_singleton,
    List.length_append, List.map_nil, List.flatten_nil, List.length_nil]
  omega

/-- Overload moves bytes from what is to be written to what is dropped. -/
theorem handed_overload {s : LoggingThread SIZE} (hplace : s.place = .swapped) (time : Bytes) :
    (s.overload time).handed = s.handed := by
  unfold overload
  by_cases hover : s.writeLog.length > 25
  · rw [if_pos hover, handed, handed, unwritten_of_swapped hplace, unwritten_of_writing rfl]
    have hsplit : (s.writeLog.map contentsOf).flatten.length =
        ((s.writeLog.take 2).map contentsOf).flatten.length +
          ((s.writeLog.drop 2).map contentsOf).flatten.length := by
      rw [← List.length_append, ← List.flatten_append, ← List.map_append, List.take_append_drop]
    simp only [List.flatten_append, List.length_append, List.drop_zero, hsplit]
    omega
  · rw [if_neg hover]
    exact handed_eq rfl rfl (by rw [unwritten_of_swapped hplace, unwritten_of_writing rfl]; rfl)

/-- Writing moves bytes from what is to be written to what is. -/
theorem handed_write {s : LoggingThread SIZE} {i : Nat} (hplace : s.place = .writing i)
    (hi : i < s.writeLog.length) :
    handed { s with
      place := .writing (i + 1)
      written := s.written ++ [contentsOf (s.writeLog.get ⟨i, hi⟩)] } = s.handed := by
  rw [handed, handed, unwritten_of_writing hplace, unwritten_of_writing rfl,
    List.drop_eq_getElem_cons hi]
  simp only [List.flatten_append, List.length_append, List.map_cons, List.flatten_cons,
    List.flatten_nil, List.length_nil, List.get_eq_getElem]
  omega

/-- How a stopped logger goes on: the thread keeps what it has and stays on its side
of the swap, or it swaps. -/
structure Onward (s u : LoggingThread SIZE) : Prop where
  running : u.log.running = false
  started : u.place ≠ .idle
  handed : u.place.beforeSwap = s.place.beforeSwap ∧ u.handed = s.handed ∨
    s.place.beforeSwap = true ∧ u.place.beforeSwap = false ∧ u.handed = s.handed + s.pending

theorem onward_swap {s : LoggingThread SIZE} (hwf : s.Wf) (hrun : s.log.running = false)
    (hspares : Spare s.newBuffer1 ∧ Spare s.newBuffer2 ∧ s.writeLog = [])
    (hnone : s.unwritten = []) (hbefore : s.place.beforeSwap = true) :
    Onward s s.swapBuffers := by
  obtain ⟨hhanded, hplace⟩ := handed_swapBuffers hwf hspares hnone
  refine ⟨?_, ?_, .inr ⟨hbefore, ?_, hhanded⟩⟩
  · unfold swapBuffers
    split <;> exact hrun
  · rw [hplace]
    decide
  · rw [hplace]
    rfl

/-- A step of the thread in a logger that was stopped. -/
theorem ThreadStep.onward {s u : LoggingThread SIZE} {l : Label SIZE} (h : ThreadStep s l u)
    (hwf : s.Wf) (hrun : s.log.running = false) (hstarted : s.place ≠ .idle) : Onward s u := by
  cases h with
  | start hplace => exact absurd hplace hstarted
  | stop => exact ⟨rfl, hstarted, .inl ⟨rfl, rfl⟩⟩
  | enter _ hrunning _ =>
    rw [hrun] at hrunning
    cases hrunning
  | leave hplace _ =>
    refine ⟨hrun, by rintro ⟨⟩, .inl ⟨by rw [hplace]; rfl, handed_eq rfl rfl ?_⟩⟩
    simp [unwritten, hplace]
  | wait hplace _ =>
    refine ⟨hrun, by rintro ⟨⟩, .inl ⟨by rw [hplace]; rfl, handed_eq rfl rfl ?_⟩⟩
    simp [unwritten, hplace]
  | swap hplace hspares hnone =>
    have hbefore : s.place.beforeSwap = true := by
      rcases hplace with hplace | hplace <;>
      · rw [hplace]
        rfl
    exact onward_swap hwf hrun hspares hnone hbefore
  | overload time hplace =>
    have hafter : (s.overload time).place = .writing 0 ∧ (s.overload time).log = s.log := by
      unfold LoggingThread.overload
      split <;> exact ⟨rfl, rfl⟩
    refine ⟨by rw [hafter.2, hrun], ?_, .inl ⟨?_, handed_overload hplace time⟩⟩
    · rw [hafter.1]
      rintro ⟨⟩
    · rw [hafter.1, hplace]
      rfl
  | write hplace hi =>
    exact ⟨hrun, by rintro ⟨⟩, .inl ⟨by rw [hplace]; rfl, handed_write hplace hi⟩⟩
  | recycle hplace _ _ =>
    refine ⟨hrun, by rintro ⟨⟩, .inl ⟨by rw [hplace]; rfl, handed_eq rfl rfl ?_⟩⟩
    simp [unwritten, hplace]

/-- An append in a logger that was stopped. -/
theorem onward_append {s : LoggingThread SIZE} (hrun : s.log.running = false)
    (hstarted : s.place ≠ .idle) {logline : Bytes} {fresh : FixedBuffer SIZE}
    {log : AsyncLogging SIZE} (hlog : s.log.append logline fresh = .ok log) :
    Onward s { s with log } := by
  refine ⟨?_, hstarted, .inl ⟨rfl, rfl⟩⟩
  unfold AsyncLogging.append at hlog
  split at hlog
  · cases hlog
  · split at hlog
    · cases hlog
      exact hrun
    · split at hlog <;>
      · cases hlog
        exact hrun

/-- A thread that has returned does not come back. -/
theorem ThreadStep.returned {s u : LoggingThread SIZE} {l : Label SIZE} (h : ThreadStep s l u)
    (hreturned : s.place = .returned) : u.place = .returned := by
  cases h with
  | stop => exact hreturned
  | swap hplace _ _ =>
    rcases hplace with hplace | hplace <;> cases hreturned.symm.trans hplace
  | start hplace => cases hreturned.symm.trans hplace
  | enter hplace _ _ => cases hreturned.symm.trans hplace
  | leave _ _ => rfl
  | wait hplace _ => cases hreturned.symm.trans hplace
  | overload time hplace => cases hreturned.symm.trans hplace
  | write hplace _ => cases hreturned.symm.trans hplace
  | recycle hplace _ _ => cases hreturned.symm.trans hplace

/-! ## Room in the buffers -/

/-- A buffer with a byte free, or none. -/
def Roomy (p : BufferPtr SIZE) : Prop := ∀ b, p = some b → b.cur < SIZE

theorem Spare.roomy {p : BufferPtr SIZE} (hsize : 0 < SIZE) (h : Spare p) : Roomy p := by
  rintro b rfl
  obtain ⟨b', hb', hcur⟩ := h
  cases hb'
  omega

theorem Roomy.contents {p : BufferPtr SIZE} (hsize : 0 < SIZE) (h : Roomy p) :
    (contentsOf p).length < SIZE := by
  cases p with
  | none => exact hsize
  | some b =>
    have hcur : b.cur ≤ b.data.length := by
      rw [b.length_data]
      exact b.cur_le
    show (slice b.data 0 b.cur).length < SIZE
    rw [length_slice hcur]
    have := h b rfl
    omega

/-- An append leaves a byte free. -/
theorem cur_append_lt {b : FixedBuffer SIZE} (h : b.cur < SIZE) (buf : Bytes) :
    (b.append buf).cur < SIZE := by
  unfold FixedBuffer.append
  split
  · rename_i hroom
    unfold FixedBuffer.avail at hroom
    show b.cur + buf.length < SIZE
    omega
  · exact h

/-- No buffer is ever full, and none was that is written or dropped. -/
structure NeverFull (s : LoggingThread SIZE) : Prop where
  current : Roomy s.log.currentBuffer
  buffers : ∀ p ∈ s.log.buffers, Roomy p
  writeLog : ∀ p ∈ s.writeLog, Roomy p
  written : ∀ bytes ∈ s.written, bytes.length < SIZE
  dropped : ∀ bytes ∈ s.dropped, bytes.length < SIZE

theorem neverFull_init (hsize : 0 < SIZE) : (init SIZE).NeverFull where
  current := spare_zeroed.roomy hsize
  buffers := fun _ h => nomatch h
  writeLog := fun _ h => nomatch h
  written := fun _ h => nomatch h
  dropped := fun _ h => nomatch h

theorem NeverFull.append (hsize : 0 < SIZE) {s : LoggingThread SIZE} (h : s.NeverFull)
    (hwf : s.Wf) {logline : Bytes} {fresh : FixedBuffer SIZE} (hfresh : fresh.cur = 0)
    {log : AsyncLogging SIZE} (hlog : s.log.append logline fresh = .ok log) :
    NeverFull { s with log } := by
  obtain ⟨current, hcurrent⟩ := hwf.current
  have hqueued : ∀ p ∈ s.log.buffers ++ [some current], Roomy p := by
    intro p hp
    rcases List.mem_append.mp hp with hp | hp
    · exact h.buffers p hp
    · rw [List.mem_singleton.mp hp, ← hcurrent]
      exact h.current
  have hstored : ∀ b : FixedBuffer SIZE, b.cur < SIZE → Roomy (some (b.append logline)) := by
    intro b hb b' hb'
    cases hb'
    exact cur_append_lt hb logline
  unfold AsyncLogging.append at hlog
  rw [hcurrent] at hlog
  dsimp only at hlog
  split at hlog
  · cases hlog
    exact ⟨hstored current (h.current current hcurrent), h.buffers, h.writeLog, h.written,
      h.dropped⟩
  · split at hlog
    · rename_i next hnext
      cases hlog
      have hspare : Spare s.log.nextBuffer :=
        hwf.next.resolve_left fun hnone => by rw [hnone.1] at hnext; cases hnext
      exact ⟨hstored next (hspare.roomy hsize next hnext), hqueued, h.writeLog, h.written,
        h.dropped⟩
    · cases hlog
      exact ⟨hstored fresh (by omega), hqueued, h.writeLog, h.written, h.dropped⟩

theorem NeverFull.swapBuffers (hsize : 0 < SIZE) {s : LoggingThread SIZE} (h : s.NeverFull)
    (hwf : s.Wf) (hspares : Spare s.newBuffer1 ∧ Spare s.newBuffer2 ∧ s.writeLog = []) :
    s.swapBuffers.NeverFull := by
  obtain ⟨_, _, hwriteLog, hbuffers, hcurrent, hwritten, hdropped⟩ := hwf.swapBuffers hspares
  refine ⟨hcurrent.roomy hsize, ?_, ?_, ?_, ?_⟩
  · rw [hbuffers]
    exact fun _ hp => nomatch hp
  · rw [hwriteLog]
    intro p hp
    rcases List.mem_append.mp hp with hp | hp
    · exact h.buffers p hp
    · rw [List.mem_singleton.mp hp]
      exact h.current
  · rw [hwritten]
    exact h.written
  · rw [hdropped]
    exact h.dropped

theorem NeverFull.overload (hsize : 0 < SIZE) {s : LoggingThread SIZE} (h : s.NeverFull)
    (time : Bytes) : (s.overload time).NeverFull := by
  unfold LoggingThread.overload
  split
  · refine ⟨h.current, h.buffers, fun p hp => h.writeLog p (List.mem_of_mem_take hp), h.written, ?_⟩
    intro bytes hbytes
    rcases List.mem_append.mp hbytes with hbytes | hbytes
    · exact h.dropped bytes hbytes
    · obtain ⟨p, hp, rfl⟩ := List.mem_map.mp hbytes
      exact (h.writeLog p (List.mem_of_mem_drop hp)).contents hsize
  · exact ⟨h.current, h.buffers, h.writeLog, h.written, h.dropped⟩

theorem NeverFull.write (hsize : 0 < SIZE) {s : LoggingThread SIZE} (h : s.NeverFull) {i : Nat}
    (hi : i < s.writeLog.length) :
    NeverFull { s with
      place := .writing (i + 1)
      written := s.written ++ [contentsOf (s.writeLog.get ⟨i, hi⟩)] } := by
  refine ⟨h.current, h.buffers, h.writeLog, ?_, h.dropped⟩
  intro bytes hbytes
  rcases List.mem_append.mp hbytes with hbytes | hbytes
  · exact h.written bytes hbytes
  · rw [List.mem_singleton.mp hbytes]
    exact (h.writeLog _ (List.get_mem ..)).contents hsize

theorem ThreadStep.neverFull (hsize : 0 < SIZE) {s u : LoggingThread SIZE} {l : Label SIZE}
    (hstep : ThreadStep s l u) (h : s.NeverFull) (hwf : s.Wf) : u.NeverFull := by
  cases hstep with
  | swap _ hspares _ => exact h.swapBuffers hsize hwf hspares
  | overload time _ => exact h.overload hsize time
  | write _ hi => exact h.write hsize hi
  | recycle _ _ _ =>
    exact ⟨h.current, h.buffers, fun _ hp => absurd hp List.not_mem_nil, h.written, h.dropped⟩
  | _ => exact ⟨h.current, h.buffers, h.writeLog, h.written, h.dropped⟩

/-! ## What it is to be drained -/

/-- Of two beginnings of one list, the one with at least as many bytes has all lines
of the other one that are not empty. -/
theorem sublist_of_prefixes {taken before lines : List Bytes} (htaken : taken <+: lines)
    (hbefore : before <+: lines) (hle : before.flatten.length ≤ taken.flatten.length) :
    (before.filter (0 < ·.length)).Sublist taken := by
  rcases List.prefix_or_prefix_of_prefix htaken hbefore with ⟨rest, rfl⟩ | hprefix
  · have hempty : rest.filter (0 < ·.length) = [] := by
      rw [List.flatten_append, List.length_append] at hle
      rw [List.filter_eq_nil_iff]
      intro line hline
      have hpart := (List.sublist_flatten_of_mem hline).length_le
      rw [decide_eq_true_eq]
      omega
    rw [List.filter_append, hempty, List.append_nil]
    exact List.filter_sublist
  · exact List.filter_sublist.trans hprefix.sublist

/-- The buffers written and the buffers removed by the overload branch can be cut
into lines that were appended, among them every line of `before` that has bytes
and is not longer than a buffer. -/
def Drained (before lines : List Bytes) (s : LoggingThread SIZE) : Prop :=
  ∃ blocks : List Block,
    (blocks.flatMap Block.lines).Sublist lines ∧
    (blocks.filter (·.kept)).map Block.bytes = s.written ∧
    (blocks.filter (!·.kept)).map Block.bytes = s.dropped ∧
    (before.filter fun line => 0 < line.length ∧ line.length ≤ SIZE).Sublist
      (blocks.flatMap Block.lines)

theorem handed_of_returned {s : LoggingThread SIZE} (hplace : s.place = .returned) :
    s.handed = s.written.flatten.length + s.dropped.flatten.length := by
  rw [handed, unwritten, hplace]
  rfl

/-- When the thread has returned, the blocks settled are what it wrote and dropped. -/
theorem Inv.settled {s : LoggingThread SIZE} {lines : List Bytes} (h : s.Inv lines)
    (hplace : s.place = .returned) :
    ∃ blocks : List Block, blocks.flatMap Block.lines <+: lines ∧
      (blocks.filter (·.kept)).map Block.bytes = s.written ∧
      (blocks.filter (!·.kept)).map Block.bytes = s.dropped := by
  obtain ⟨_, g, hfits⟩ := h
  have hnone : g.unwritten = [] := by
    have := hfits.unwritten
    rw [unwritten, hplace] at this
    exact List.map_eq_nil_iff.mp this
  refine ⟨g.settled ++ g.cut.map (⟨·, false⟩), ?_, ?_, ?_⟩
  · rw [← hfits.lines, Ledger.flatMap_blocks, hnone, List.flatMap_append, flatMap_lines_map]
    exact ⟨g.queued.flatten ++ g.current, by simp⟩
  · rw [List.filter_append, filter_map_blocks_nil _ fun _ => rfl, List.append_nil]
    exact hfits.written
  · rw [List.filter_append, filter_map_blocks _ fun _ => rfl, List.map_append, map_bytes_map]
    exact hfits.dropped

/-- No block of what was written or dropped has a line that would fill a buffer. -/
theorem NeverFull.line {s : LoggingThread SIZE} (h : s.NeverFull) {blocks : List Block}
    (hwritten : (blocks.filter (·.kept)).map Block.bytes = s.written)
    (hdropped : (blocks.filter (!·.kept)).map Block.bytes = s.dropped) {line : Bytes}
    (hline : line ∈ blocks.flatMap Block.lines) : line.length < SIZE := by
  obtain ⟨b, hb, hmem⟩ := List.mem_flatMap.mp hline
  have hpart : line.length ≤ b.bytes.length := (List.sublist_flatten_of_mem hmem).length_le
  have hblock : b.bytes.length < SIZE := by
    cases hkept : b.kept with
    | true =>
      apply h.written
      rw [← hwritten]
      exact List.mem_map_of_mem (List.mem_filter.mpr ⟨hb, hkept⟩)
    | false =>
      apply h.dropped
      rw [← hdropped]
      exact List.mem_map_of_mem (List.mem_filter.mpr ⟨hb, by rw [hkept]; rfl⟩)
  omega

end LoggingThread

namespace AsyncLogger

variable {SIZE : Nat}

open LoggingThread (Drained)

/-- The lines of `before` that have bytes and are not longer than a buffer, if none
is exactly as long. -/
theorem filter_before {before : List Bytes} (hexact : ∀ line ∈ before, line.length ≠ SIZE) :
    (before.filter fun line => 0 < line.length ∧ line.length ≤ SIZE) =
      (fitting SIZE before).filter (0 < ·.length) := by
  rw [fitting, List.filter_filter]
  apply List.filter_congr
  intro line hline
  have hne := hexact line hline
  rw [← Bool.decide_and, decide_eq_decide]
  constructor <;> intro h <;> omega

/-- A logger whose thread has returned is drained of the lines of `before` if and
only if the thread took over as many bytes as they have and none of them is of
exactly a buffer's length. -/
theorem drained_iff_handed (hsize : 0 < SIZE) {s : LoggingThread SIZE} {before after : List Bytes}
    (hinv : s.Inv (fitting SIZE (before ++ after))) (hfull : s.NeverFull)
    (hplace : s.place = .returned) :
    Drained before (before ++ after) s ↔
      (fitting SIZE before).flatten.length ≤ s.handed ∧ ∀ line ∈ before, line.length ≠ SIZE := by
  constructor
  · rintro ⟨blocks, _, hwritten, hdropped, hbefore⟩
    have hexact : ∀ line ∈ before, line.length ≠ SIZE := by
      intro line hline heq
      have hmem : line ∈ before.filter fun line => 0 < line.length ∧ line.length ≤ SIZE :=
        List.mem_filter.mpr ⟨hline, by rw [decide_eq_true_eq]; omega⟩
      have hlt := hfull.line hwritten hdropped (hbefore.mem hmem)
      omega
    refine ⟨?_, hexact⟩
    have hbytes : (fitting SIZE before).flatten.length =
        ((fitting SIZE before).filter (0 < ·.length)).flatten.length := by
      simp only [List.length_pos_iff, List.flatten_filter_ne_nil]
    rw [LoggingThread.handed_of_returned hplace, ← hwritten, ← hdropped,
      ← LoggingThread.length_blocks, hbytes, ← filter_before hexact]
    exact hbefore.flatten.length_le
  · rintro ⟨hle, hexact⟩
    obtain ⟨blocks, hlines, hwritten, hdropped⟩ := hinv.settled hplace
    refine ⟨blocks, ?_, hwritten, hdropped, ?_⟩
    · exact hlines.sublist.trans List.filter_sublist
    · rw [filter_before hexact]
      refine LoggingThread.sublist_of_prefixes hlines ?_ ?_
      · rw [fitting_append]
        exact List.prefix_append ..
      · rwa [LoggingThread.length_blocks, hwritten, hdropped,
          ← LoggingThread.handed_of_returned hplace]

/-! ## Runs -/

/-- What holds of every state reached: the account of the lines stored, room in the
buffers, and `stop()` returns only when the thread has. -/
structure Sound (lines : List Bytes) (s : AsyncLogger SIZE) : Prop where
  inv : s.thread.Inv (fitting SIZE lines)
  neverFull : s.thread.NeverFull
  stopped : s.stopped = true → s.thread.place = .returned

theorem sound_init (hsize : 0 < SIZE) : Sound [] (init SIZE) where
  inv := ⟨LoggingThread.wf_init, _, LoggingThread.fits_init⟩
  neverFull := LoggingThread.neverFull_init hsize
  stopped := fun h => nomatch h

theorem sound_step (hsize : 0 < SIZE) {s u : AsyncLogger SIZE} {lines : List Bytes}
    (h : s.Sound lines) {l : Label SIZE} (hen : s.Enabled l) (hstep : s.step l = .ok u) :
    u.Sound (lines ++ linesOf [l]) := by
  have hsteps := steps h.inv.1 hen hstep
  have hinv := hsteps.inv h.inv
  rw [← fitting_append] at hinv
  cases hsteps with
  | join hplace => exact ⟨hinv, h.neverFull, fun _ => hplace⟩
  | append hfresh hlog => exact ⟨hinv, h.neverFull.append hsize h.inv.1 hfresh hlog, h.stopped⟩
  | thread _ hthread hstopped =>
    refine ⟨hinv, hthread.neverFull hsize h.neverFull h.inv.1, fun hstop => ?_⟩
    rw [hstopped] at hstop
    exact hthread.returned (h.stopped hstop)

theorem run_sound (hsize : 0 < SIZE) {ls : List (Label SIZE)} {s : AsyncLogger SIZE}
    (h : (system SIZE).Run (init SIZE) ls (.ok s)) : s.Sound (linesOf ls) := by
  refine h.history (I := fun ls s => s.Sound (linesOf ls)) (sound_init hsize) ?_
  intro ls t l u ht hen hstep
  rw [linesOf_append]
  exact sound_step hsize ht hen hstep

/-- After `stop()` was called: a thread before its swap takes over at least what was
stored until then, and one that is not keeps what it has. -/
structure After (s : AsyncLogger SIZE) (bytes : Nat) (t : AsyncLogger SIZE) : Prop where
  running : t.thread.log.running = false
  started : t.thread.place ≠ .idle
  before : s.thread.place.beforeSwap = true →
    t.thread.place.beforeSwap = true ∨ bytes ≤ t.thread.handed
  behind : s.thread.place.beforeSwap = false →
    t.thread.place.beforeSwap = false ∧ t.thread.handed = s.thread.handed

/-- What a step does to the thread goes on from what is known of it. -/
theorem After.onward {s t u : AsyncLogger SIZE} {bytes : Nat} {lines : List Bytes}
    (h : s.After bytes t) (hinv : t.thread.Inv lines) (hbytes : bytes ≤ lines.flatten.length)
    (honward : t.thread.Onward u.thread) : s.After bytes u := by
  refine ⟨honward.running, honward.started, ?_, ?_⟩
  · intro hs
    rcases honward.handed with ⟨hplace, hhanded⟩ | ⟨_, _, hhanded⟩
    · rw [hplace, hhanded]
      exact h.before hs
    · have haccount := hinv.account
      right
      omega
  · intro hs
    obtain ⟨hplace, hsame⟩ := h.behind hs
    rcases honward.handed with ⟨hkept, hhanded⟩ | ⟨hbefore, _, _⟩
    · exact ⟨hkept.trans hplace, hhanded.trans hsame⟩
    · rw [hplace] at hbefore
      cases hbefore

theorem after_step {s t u : AsyncLogger SIZE} {bytes : Nat} {lines : List Bytes}
    (h : s.After bytes t) (hinv : t.thread.Inv lines) (hbytes : bytes ≤ lines.flatten.length)
    {l : Label SIZE} (hen : t.Enabled l) (hstep : t.step l = .ok u) : s.After bytes u := by
  cases steps hinv.1 hen hstep with
  | join _ => exact ⟨h.running, h.started, h.before, h.behind⟩
  | append _ hlog =>
    exact h.onward hinv hbytes (LoggingThread.onward_append h.running h.started hlog)
  | thread _ hthread _ =>
    exact h.onward hinv hbytes (hthread.onward hinv.1 h.running h.started)

/-- The thread comes in time for what is stored when `stop()` is called: it is yet
to swap, or there is nothing with the producers. -/
def InTime (s : AsyncLogger SIZE) : Prop :=
  s.thread.place.beforeSwap = true ∨ s.thread.pending = 0

/-- A call of `stop()` that gets to its `pthread_join`. -/
theorem stop_spec {s t : AsyncLogger SIZE} (h : s.step (.run .stop) = .ok t) :
    s.thread.place ≠ .idle ∧ t.thread = s.thread.stop := by
  obtain ⟨_, hstarted, h⟩ := bind_eq_ok.mp h
  obtain ⟨_, _, h⟩ := bind_eq_ok.mp h
  cases h
  refine ⟨fun hidle => ?_, rfl⟩
  have hnot : ¬ s.thread.stop.place ≠ .idle := not_not.mpr hidle
  rw [check_neg hnot] at hstarted
  cases hstarted

theorem after_stop {s t : AsyncLogger SIZE} (h : s.step (.run .stop) = .ok t) (bytes : Nat) :
    s.After bytes t := by
  obtain ⟨hstarted, hthread⟩ := stop_spec h
  refine ⟨by rw [hthread]; rfl, by rwa [hthread], ?_, ?_⟩
  · intro hbefore
    rw [hthread]
    exact .inl hbefore
  · intro hbehind
    rw [hthread]
    exact ⟨hbehind, rfl⟩

theorem run_after (hsize : 0 < SIZE) {before after : List (Label SIZE)} {s t u : AsyncLogger SIZE}
    (hs : (system SIZE).Run (init SIZE) before (.ok s)) (ht : s.step (.run .stop) = .ok t)
    (hu : (system SIZE).Run t after (.ok u)) :
    u.Sound (linesOf before ++ linesOf after) ∧
      s.After (fitting SIZE (linesOf before)).flatten.length u := by
  have hsound := sound_step hsize (run_sound hsize hs) (l := .run .stop) trivial ht
  refine hu.history (I := fun ls v => v.Sound (linesOf before ++ linesOf ls) ∧
    s.After (fitting SIZE (linesOf before)).flatten.length v) ⟨hsound, after_stop ht _⟩ ?_
  intro ls v l w hv hen hstep
  obtain ⟨hv, hafter⟩ := hv
  refine ⟨?_, after_step hafter hv.inv ?_ hen hstep⟩
  · rw [linesOf_append, ← List.append_assoc]
    exact sound_step hsize hv hen hstep
  · rw [fitting_append, List.flatten_append, List.length_append]
    omega

/-- Once the thread has returned after a `stop()`, it has taken over what had been
stored by then if and only if `stop()` was called in time. -/
theorem handed_iff_inTime {s u : AsyncLogger SIZE} {lines : List Bytes} (hs : s.Sound lines)
    (hafter : s.After (fitting SIZE lines).flatten.length u)
    (hplace : u.thread.place = .returned) :
    (fitting SIZE lines).flatten.length ≤ u.thread.handed ↔ s.InTime := by
  have haccount := hs.inv.account
  have hreturned : u.thread.place.beforeSwap = false := by
    rw [hplace]
    rfl
  cases hside : s.thread.place.beforeSwap with
  | true =>
    have hle := (hafter.before hside).resolve_left (by rw [hreturned]; decide)
    exact ⟨fun _ => .inl hside, fun _ => hle⟩
  | false =>
    obtain ⟨_, hsame⟩ := hafter.behind hside
    rw [hsame]
    constructor
    · intro hle
      right
      omega
    · rintro (hbefore | hpending)
      · rw [hside] at hbefore
        cases hbefore
      · omega

/-- **Exactly when stopping drains.** In every interleaving of appends, `start`,
`stop` and the steps of the thread, once `stop()` has returned: every line whose
append came before `stop()` was called has been handed to the output or removed
by the overload branch, unless it was longer than a buffer, if and only if the
thread stood between its test and its swap when `stop()` was called, or nothing
was with the producers then, and no such line was exactly as long as a buffer. -/
theorem drained_iff (hsize : 0 < SIZE) {before after : List (Label SIZE)} {u : AsyncLogger SIZE}
    (h : (system SIZE).Run (init SIZE) (before ++ .run .stop :: after) (.ok u))
    (hstopped : u.stopped = true) :
    Drained (linesOf before) (linesOf (before ++ .run .stop :: after)) u.thread ↔
      (∀ s, (system SIZE).Run (init SIZE) before (.ok s) → s.InTime) ∧
        ∀ line ∈ linesOf before, line.length ≠ SIZE := by
  obtain ⟨s, hs, hrest⟩ := System.run_append_ok_iff.mp h
  obtain ⟨t, _, ht, hu⟩ := System.run_cons_ok_iff.mp hrest
  obtain ⟨hsound, hafter⟩ := run_after hsize hs ht hu
  have hplace := hsound.stopped hstopped
  have hlines : linesOf (before ++ .run .stop :: after) = linesOf before ++ linesOf after :=
    linesOf_append before (.run .stop :: after)
  have hintime : (∀ s, (system SIZE).Run (init SIZE) before (.ok s) → s.InTime) ↔ s.InTime := by
    constructor
    · intro hall
      exact hall s hs
    · intro hone s' hs'
      cases hs.unique hs'
      exact hone
  rw [hlines, drained_iff_handed hsize hsound.inv hsound.neverFull hplace,
    handed_iff_inTime (run_sound hsize hs) hafter hplace, hintime]

/-! ## A run of each kind -/

/-- The thread waits when the line is appended and `stop()` is called. -/
def waiting : List (Label 4) :=
  [.run .start, .run .test, .run .lock, .run (.append [97] (zeroed 4))]

/-- It swaps, writes, and returns at its test. -/
def finishing : List (Label 4) :=
  [.run .wake, .run (.overload []), .run .write, .run .recycle, .run .test, .join]

/-- The line is written before `stop()` returns. -/
theorem drained_waiting :
    ∃ u, (system 4).Run (init 4) (waiting ++ .run .stop :: finishing) (.ok u) ∧
      u.stopped = true ∧ u.thread.written = [[97]] ∧ Drained [[97]] [[97]] u.thread := by
  obtain ⟨s, hs, hplace⟩ : ∃ s, (system 4).Run (init 4) waiting (.ok s) ∧
      s.thread.place = .waiting :=
    ⟨_, .cons rfl rfl <| .cons rfl rfl <| .cons rfl rfl <| .cons rfl rfl .nil, rfl⟩
  obtain ⟨u, hu, hstopped, hwritten⟩ :
      ∃ u, (system 4).Run (init 4) (waiting ++ .run .stop :: finishing) (.ok u) ∧
        u.stopped = true ∧ u.thread.written = [[97]] :=
    ⟨_, .cons rfl rfl <| .cons rfl rfl <| .cons rfl rfl <| .cons rfl rfl <| .cons trivial rfl <|
      .cons rfl rfl <| .cons rfl rfl <| .cons ⟨0, rfl, by decide⟩ rfl <| .cons rfl rfl <|
      .cons rfl rfl <| .cons ⟨rfl, rfl⟩ rfl .nil, rfl, rfl⟩
  refine ⟨u, hu, hstopped, hwritten, (drained_iff (by decide) hu hstopped).mpr ⟨?_, ?_⟩⟩
  · intro s' hs'
    cases hs.unique hs'
    left
    rw [hplace]
    rfl
  · decide

/-- A line appended and `stop()` called before the thread's first test. -/
def early (SIZE : Nat) : List (Label SIZE) :=
  [.run .start, .run (.append [97] (zeroed SIZE))]

theorem run_early (hsize : 1 < SIZE) :
    ∃ s, (system SIZE).Run (init SIZE) (early SIZE) (.ok s) ∧ s.joined = false ∧
      s.thread.place = .test ∧ s.thread.pending = 1 ∧ s.thread.written = [] ∧
      s.thread.dropped = [] := by
  obtain ⟨b, happend, hcontents⟩ : ∃ b, (LoggingThread.init SIZE).start.log.append [97]
      (zeroed SIZE) = .ok { (LoggingThread.init SIZE).start.log with currentBuffer := some b } ∧
      b.contents = [97] := by
    have hroom : [97].length < (zeroed SIZE).avail := hsize
    refine ⟨(zeroed SIZE).append [97], if_pos hroom, ?_⟩
    rw [FixedBuffer.contents_append hroom, FixedBuffer.contents_eq_nil rfl, List.nil_append]
  refine ⟨⟨{ (LoggingThread.init SIZE).start with
      log := { (LoggingThread.init SIZE).start.log with currentBuffer := some b } }, false, false⟩,
    .cons rfl rfl <| .cons rfl ?_ .nil, rfl, rfl, ?_, rfl, rfl⟩
  · simp only [system, step, LoggingThread.step]
    rw [show (init SIZE).thread.start.log.append [97] (zeroed SIZE) = _ from happend]
    rfl
  · show 0 + b.contents.length = 1
    rw [hcontents]
    rfl

/-- The thread finds `running_` cleared and returns: `stop()` has returned, nothing
was written, and the line is lost. -/
theorem drained_early_fails :
    ∃ u, (system kLargeBuffer).Run (init kLargeBuffer)
        (early kLargeBuffer ++ .run .stop :: [.run .test, .join]) (.ok u) ∧
      u.stopped = true ∧ u.thread.written = [] ∧ u.thread.dropped = [] ∧
      ¬ Drained [[97]] [[97]] u.thread := by
  have hsize : 1 < kLargeBuffer := by decide
  obtain ⟨s, hs, hjoined, hplace, hpending, hwritten, hdropped⟩ := run_early hsize
  have hstop : s.step (.run .stop) = .ok { s with thread := s.thread.stop, joined := true } := by
    have hstarted : s.thread.stop.place ≠ .idle := by
      show s.thread.place ≠ .idle
      rw [hplace]
      decide
    simp only [step, stop, check_pos hstarted, check_pos hjoined, ok_bind, pure_eq_ok]
  have htest : step { s with thread := s.thread.stop, joined := true } (.run .test) =
      .ok { s with thread := { s.thread.stop with place := .returned }, joined := true } := by
    simp only [step, LoggingThread.step]
    rfl
  have hrun : (system kLargeBuffer).Run (init kLargeBuffer)
      (early kLargeBuffer ++ .run .stop :: [.run .test, .join]) (.ok ⟨_, true, true⟩) :=
    System.run_append_ok_iff.mpr ⟨s, hs, .cons trivial hstop <| .cons hplace htest <|
      .cons ⟨rfl, rfl⟩ rfl .nil⟩
  refine ⟨_, hrun, rfl, hwritten, hdropped, fun hdrained => ?_⟩
  obtain ⟨hintime, _⟩ := (drained_iff (Nat.zero_lt_of_lt hsize) hrun rfl).mp hdrained
  rcases hintime s hs with hbefore | hnone
  · rw [hplace] at hbefore
    cases hbefore
  · omega

end AsyncLogger

end ClyServer
