import ClyServer.Base.LogConservation

/-!
# The logger never runs out of buffers

Four buffers go round: two with the producers and two spares with the logging thread.
A swap gives away one spare, and the second one only if the producers are without
their next buffer. Then they have filled a buffer since the last swap, so there are
two buffers in `WriteLog` and as many to refill from as were given away; the overload
branch and the resize leave two. That is `Wf`, and `recycling_never_dry` says what
follows for lines of any length, those too long for a buffer included.

Buffers have no identity here. `intoCurrent` and `intoNext` say which pointer a label
moves to `currentBuffer_` and `nextBuffer_`, and `Takes` ties them to what the step
leaves there.
-/

namespace ClyServer

open ClyServer.Lib

namespace LoggingThread

variable {SIZE : Nat}

/-- The labels a state allows when lines may have any length. -/
def AnyEnabled (s : LoggingThread SIZE) : Label SIZE → Prop
  | .append _ fresh => fresh.cur = 0
  | l => s.Enabled l

/-- The logger with any number of producers and lines of any length. -/
def anyLines (SIZE : Nat) : System (LoggingThread SIZE) (Label SIZE) Fault where
  enabled := AnyEnabled
  step := step

/-! ## Which buffer goes where -/

/-- The pointer a label moves to `currentBuffer_`, if it moves one there. -/
def intoCurrent (s : LoggingThread SIZE) : Label SIZE → Option (BufferPtr SIZE)
  | .append logline fresh =>
    match s.log.currentBuffer with
    | some current =>
      if logline.length < current.avail then none else some (s.log.nextBuffer.or (some fresh))
    | none => none
  | .lock => if s.log.buffers = [] then none else some s.newBuffer1
  | .wake => some s.newBuffer1
  | _ => none

/-- The pointer a label moves to `nextBuffer_`, if it moves one there. -/
def intoNext (s : LoggingThread SIZE) : Label SIZE → Option (BufferPtr SIZE)
  | .lock => if s.log.buffers = [] ∨ s.log.nextBuffer.isSome then none else some s.newBuffer2
  | .wake => if s.log.nextBuffer.isSome then none else some s.newBuffer2
  | _ => none

/-- What a label stores in the current buffer. -/
def Label.fill : Label SIZE → FixedBuffer SIZE → FixedBuffer SIZE
  | append logline _, b => b.append logline
  | _, b => b

/-- A step and the buffers it takes: the current buffer is the one moved there, or the
one that was there, with the line stored in it; the next buffer is what it was, given
away, or the one moved there; and what is moved is empty. -/
structure Takes (s : LoggingThread SIZE) (l : Label SIZE) (u : LoggingThread SIZE) : Prop where
  current : u.log.currentBuffer = ((s.intoCurrent l).getD s.log.currentBuffer).map l.fill
  next : u.log.nextBuffer = s.log.nextBuffer ∨ u.log.nextBuffer = none ∨
    s.intoNext l = some u.log.nextBuffer
  empty : ∀ p, s.intoCurrent l = some p ∨ s.intoNext l = some p → Spare p

/-- `WriteLog` when the refills begin: `resize(2)` if it is longer. -/
def resized (writeLog : List (BufferPtr SIZE)) : List (BufferPtr SIZE) :=
  if writeLog.length > 2 then writeLog.take 2 else writeLog

theorem resized_eq_take (writeLog : List (BufferPtr SIZE)) :
    resized writeLog = writeLog.take 2 := by
  unfold resized
  split
  · rfl
  · rw [List.take_of_length_le (by omega)]

/-- Both refills find a buffer: `WriteLog` has one if the first spare is gone, and has
one after the first refill if the second is. -/
structure Refills (s : LoggingThread SIZE) : Prop where
  first : s.newBuffer1 = none → resized s.writeLog ≠ []
  second : s.newBuffer2 = none → ∀ q rest,
    refill s.newBuffer1 (resized s.writeLog) = .ok (q, rest) → rest ≠ []

/-! ## Producers -/

/-- An append takes the spare next buffer or a new one when the current one is full. -/
theorem Wf.append {s : LoggingThread SIZE} (h : s.Wf) (logline : Bytes)
    {fresh : FixedBuffer SIZE} (hfresh : fresh.cur = 0) :
    ∃ u, s.step (.append logline fresh) = .ok u ∧ u.Wf ∧ s.Takes (.append logline fresh) u := by
  obtain ⟨current, hcurrent⟩ := h.current
  by_cases hroom : logline.length < current.avail
  · have hinto : s.intoCurrent (.append logline fresh) = none := by
      simp only [intoCurrent, hcurrent, if_pos hroom]
    refine ⟨{ s with log := { s.log with currentBuffer := some (current.append logline) } }, ?_,
      ⟨⟨_, rfl⟩, h.next, h.buffers, h.locals⟩, ?_, .inl rfl, fun p hp => ?_⟩
    · simp only [step, AsyncLogging.append, hcurrent, if_pos hroom, ok_bind, pure_eq_ok]
    · rw [hinto, Option.getD_none, hcurrent]
      rfl
    · rw [hinto] at hp
      rcases hp with hp | hp
      · cases hp
      · cases hp
  · -- the buffer that takes the current one's place
    obtain ⟨b, hb, hempty⟩ : ∃ b, s.log.nextBuffer.or (some fresh) = some b ∧ b.cur = 0 := by
      rcases h.next with ⟨hnone, _⟩ | ⟨b, hb, hcur⟩
      · exact ⟨fresh, by rw [hnone]; rfl, hfresh⟩
      · exact ⟨b, by rw [hb]; rfl, hcur⟩
    have hinto : s.intoCurrent (.append logline fresh) = some (some b) := by
      simp only [intoCurrent, hcurrent, if_neg hroom, hb]
    refine ⟨_, ?_, h.appendFull current (b.append logline), ?_, .inr (.inl rfl), fun p hp => ?_⟩
    · simp only [step, AsyncLogging.append, hcurrent, if_neg hroom]
      cases hnext : s.log.nextBuffer with
      | none =>
        rw [hnext] at hb
        cases hb
        rfl
      | some next =>
        rw [hnext] at hb
        cases hb
        rfl
    · rw [hinto]
      rfl
    · rcases hp with hp | hp
      · rw [hinto] at hp
        cases hp
        exact ⟨b, rfl, hempty⟩
      · cases hp

/-! ## The thread -/

/-- The swap takes spares. -/
theorem takes_swap {s : LoggingThread SIZE} {l : Label SIZE} (hfill : l.fill = id)
    (hspares : Spare s.newBuffer1 ∧ Spare s.newBuffer2 ∧ s.writeLog = [])
    (hcurrent : s.intoCurrent l = some s.newBuffer1)
    (hnext : s.intoNext l = if s.log.nextBuffer.isSome then none else some s.newBuffer2) :
    s.Takes l s.swapBuffers := by
  refine ⟨?_, ?_, fun p hp => ?_⟩
  · rw [hcurrent, hfill, Option.getD_some, Option.map_id]
    unfold LoggingThread.swapBuffers
    split <;> rfl
  · rw [hnext]
    unfold LoggingThread.swapBuffers
    split
    · exact .inl rfl
    · rename_i hnone
      rw [hnone]
      exact .inr (.inr rfl)
  · rcases hp with hp | hp
    · rw [hcurrent] at hp
      cases hp
      exact hspares.1
    · rw [hnext] at hp
      split at hp
      · cases hp
      · cases hp
        exact hspares.2.1

/-- A step that leaves the producers' buffers alone takes none. -/
theorem takes_none {s u : LoggingThread SIZE} {l : Label SIZE} (hfill : l.fill = id)
    (hcurrent : s.intoCurrent l = none) (hnext : s.intoNext l = none)
    (hsame : u.log.currentBuffer = s.log.currentBuffer ∧ u.log.nextBuffer = s.log.nextBuffer) :
    s.Takes l u := by
  refine ⟨?_, .inl hsame.2, fun p hp => ?_⟩
  · rw [hcurrent, hfill, Option.getD_none, Option.map_id]
    exact hsame.1
  · rw [hcurrent, hnext] at hp
    rcases hp with hp | hp
    · cases hp
    · cases hp

/-- The thread's steps keep the buffers going round, and move empty ones only. -/
theorem Wf.thread {s : LoggingThread SIZE} (h : s.Wf) {l : Label SIZE} (hen : s.Enabled l)
    (hline : l.line? = none) : ∃ u, s.step l = .ok u ∧ u.Wf ∧ s.Takes l u := by
  have hlocals := h.locals
  obtain ⟨u, hu, hstep⟩ := threadStep h hen hline
  refine ⟨u, hu, hstep.wf h, ?_⟩
  cases l with
  | append logline fresh => cases hline
  | start | stop =>
    cases hu
    exact takes_none rfl rfl rfl ⟨rfl, rfl⟩
  | test =>
    cases hu.symm.trans (test_spec h hen)
    exact takes_none rfl rfl rfl ⟨rfl, rfl⟩
  | lock =>
    cases hu
    have hplace : s.place = .locking := hen
    rw [hplace] at hlocals
    by_cases hnil : s.log.buffers = []
    · have hwait : s.lock = { s with place := .waiting } := if_pos hnil
      rw [hwait]
      exact takes_none rfl (if_pos hnil) (if_pos (.inl hnil)) ⟨rfl, rfl⟩
    · have hswap : s.lock = s.swapBuffers := if_neg hnil
      rw [hswap]
      exact takes_swap rfl hlocals (if_neg hnil) (by simp [intoNext, hnil])
  | wake =>
    cases hu
    have hplace : s.place = .waiting := hen
    rw [hplace] at hlocals
    exact takes_swap rfl hlocals rfl rfl
  | overload time =>
    cases hu
    refine takes_none rfl rfl rfl ?_
    unfold LoggingThread.overload
    split
    · exact ⟨rfl, rfl⟩
    · exact ⟨rfl, rfl⟩
  | write =>
    obtain ⟨i, hplace, hi⟩ := hen
    have hwrite : s.write i = .ok u := by simpa only [step, hplace] using hu
    cases hwrite.symm.trans (write_spec h hplace hi)
    exact takes_none rfl rfl rfl ⟨rfl, rfl⟩
  | recycle =>
    obtain ⟨b₁, b₂, hrecycle, _⟩ := recycle_spec h hen
    cases hu.symm.trans hrecycle
    exact takes_none rfl rfl rfl ⟨rfl, rfl⟩

/-- Every step keeps the buffers going round, and moves empty ones only. -/
theorem Wf.step {s : LoggingThread SIZE} (h : s.Wf) {l : Label SIZE} (hen : s.AnyEnabled l) :
    ∃ u, s.step l = .ok u ∧ u.Wf ∧ s.Takes l u := by
  cases l with
  | append logline fresh => exact h.append logline hen
  | _ => exact h.thread hen rfl

theorem anyLines_wf {ls : List (Label SIZE)} {r : Checked (LoggingThread SIZE)}
    (h : (anyLines SIZE).Run (init SIZE) ls r) : ∃ s, r = .ok s ∧ s.Wf := by
  apply h.total (I := fun _ => Wf) wf_init
  intro _ s l hs hen
  obtain ⟨u, hu, hwf, _⟩ := hs.step hen
  exact ⟨u, hu, hwf⟩

/-- Behind the writing there are as many buffers as were given away. -/
theorem Wf.refills {s : LoggingThread SIZE} (h : s.Wf) {i : Nat} (hplace : s.place = .writing i) :
    s.Refills := by
  have hlocals := h.locals
  rw [hplace] at hlocals
  obtain ⟨h₁, hpresent, h₂⟩ := hlocals
  have hlen : (s.writeLog.take 2).length = min 2 s.writeLog.length := List.length_take
  have hne : s.writeLog.take 2 ≠ [] := by
    rw [← List.length_pos_iff, hlen]
    rcases h₂ with ⟨_, hone⟩ | ⟨_, htwo⟩ <;> omega
  rw [← resized_eq_take] at hlen hne
  refine ⟨fun _ => hne, fun hnone q rest hrefill => ?_⟩
  have hpresent' : Present (resized s.writeLog) := by
    rw [resized_eq_take]
    exact fun p hp => hpresent p (List.mem_of_mem_take hp)
  obtain ⟨q', rest', hrefill', _, _, hrest, _⟩ := refill_spec hpresent' (.inr ⟨h₁, hne⟩)
  cases hrefill.symm.trans hrefill'
  rcases h₂ with ⟨⟨b, hb, _⟩, _⟩ | ⟨_, htwo⟩
  · rw [hnone] at hb
    cases hb
  · rw [← List.length_pos_iff, hrest h₁, hlen]
    omega

/-- **The recycling never runs dry.** In every interleaving of appends, of lines of any
length, with the steps of the logging thread no pointer that is followed is null and
no assertion fails. In every state reached the current buffer is there; if the next
one is not, some buffer is queued; at the head of the loop both spares are there and
empty and `WriteLog` is empty; at each refill `WriteLog` has a buffer left. And
whatever comes next, a buffer that it takes into `currentBuffer_` or `nextBuffer_` is
empty when it is taken. -/
theorem recycling_never_dry {ls : List (Label SIZE)} {r : Checked (LoggingThread SIZE)}
    (h : (anyLines SIZE).Run (init SIZE) ls r) :
    ∃ s, r = .ok s ∧ (∃ b, s.log.currentBuffer = some b) ∧
      (s.log.nextBuffer = none → s.log.buffers ≠ []) ∧
      (s.place = .test → Spare s.newBuffer1 ∧ Spare s.newBuffer2 ∧ s.writeLog = []) ∧
      (∀ i, s.place = .writing i → s.Refills) ∧
      ∀ l, s.AnyEnabled l → ∃ u, s.step l = .ok u ∧ s.Takes l u := by
  obtain ⟨s, hr, hwf⟩ := anyLines_wf h
  refine ⟨s, hr, hwf.current, fun hnone => ?_, fun hplace => ?_, fun i => hwf.refills,
    fun l hen => ?_⟩
  · rcases hwf.next with ⟨_, hne⟩ | ⟨b, hb, _⟩
    · exact hne
    · rw [hnone] at hb
      cases hb
  · have hlocals := hwf.locals
    rw [hplace] at hlocals
    exact hlocals
  · obtain ⟨u, hu, _, htakes⟩ := hwf.step hen
    exact ⟨u, hu, htakes⟩

/-- Buffers of four bytes, and two lines too long for any: both rotate the buffers, the
second one with none left to take, and the thread is back at the head of its loop
with two spares. -/
theorem recycling_never_dry_long :
    ∃ s, (anyLines 4).Run (init 4) [.append [97, 98, 99, 100, 101] (zeroed 4),
        .append [97, 98, 99, 100, 101] (zeroed 4), .start, .test, .lock, .overload [], .write,
        .write, .write, .recycle] (.ok s) ∧
      s.place = .test ∧ Spare s.newBuffer1 ∧ Spare s.newBuffer2 ∧
      ∃ u, s.step (.append [97] (zeroed 4)) = .ok u := by
  have hrun : ∃ s, (anyLines 4).Run (init 4) [.append [97, 98, 99, 100, 101] (zeroed 4),
        .append [97, 98, 99, 100, 101] (zeroed 4), .start, .test, .lock, .overload [], .write,
        .write, .write, .recycle] (.ok s) ∧ s.place = .test :=
    ⟨_, .cons rfl rfl <| .cons rfl rfl <| .cons rfl rfl <| .cons rfl rfl <| .cons rfl rfl <|
      .cons rfl rfl <| .cons ⟨0, rfl, by decide⟩ rfl <| .cons ⟨1, rfl, by decide⟩ rfl <|
      .cons ⟨2, rfl, by decide⟩ rfl <| .cons rfl rfl .nil, rfl⟩
  obtain ⟨s, hrun, hplace⟩ := hrun
  obtain ⟨s', hs', _, _, htest, _, hnext⟩ := recycling_never_dry hrun
  cases hs'
  obtain ⟨h₁, h₂, _⟩ := htest hplace
  obtain ⟨u, hu, _⟩ := hnext (.append [97] (zeroed 4)) rfl
  exact ⟨s, hrun, hplace, h₁, h₂, u, hu⟩

end LoggingThread

end ClyServer
