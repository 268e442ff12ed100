import ClyServer.Base.LogFile
import Mathlib.Data.Int.Order.Basic

/-!
# When the log file rolls

Two conditions open a new file, and one keeps it from being opened. The lines a file
still gets after its day are bounded because each of them counts: a line either opens
a new file because the old one is too large (after the day that cannot be refused) or
moves the counter on, and at the end of the counter the day is looked at. So the
invariant is that the late lines of the current file are at most `count_`.
-/

namespace ClyServer

open ClyServer.Lib

/-! ## Days -/

namespace LogFile

variable {env : LogFileEnvironment} {f : LogFile} {c : Call}

theorem periodOf_eq {now : Int} (h : 0 ≤ now) : periodOf now = now / 86400 * 86400 := by
  rw [periodOf, Int.tdiv_eq_ediv_of_nonneg h]
  rfl

/-- A time lies in its day. -/
theorem periodOf_spec {now : Int} (h : 0 ≤ now) :
    periodOf now ≤ now ∧ now < periodOf now + kRollPerSeconds := by
  rw [periodOf_eq h, kRollPerSeconds]
  omega

/-- A later time is of the same day exactly if that day has not ended. -/
theorem periodOf_eq_iff {now later : Int} (h : 0 ≤ now) (hle : now ≤ later) :
    periodOf later = periodOf now ↔ later < periodOf now + kRollPerSeconds := by
  rw [periodOf_eq h, periodOf_eq (Int.le_trans h hle), kRollPerSeconds]
  omega

/-! ## A call -/

/-- The log with a new file, opened when the clock read `now`. -/
def rolled (env : LogFileEnvironment) (f : LogFile) (now : Int) : LogFile :=
  { f with lastRoll := now, lastFlush := now, startOfPeriod := periodOf now,
           file := some ⟨getLogFileName env f.basename now, 0⟩ }

theorem rollFile_later {now : Int} (h : now > f.lastRoll) :
    f.rollFile env now true = .ok (f.rolled env now, true) := by
  rw [rollFile, if_pos h]
  rfl

theorem rollFile_refused {now : Int} (opened : Bool) (h : ¬ now > f.lastRoll) :
    f.rollFile env now opened = .ok (f, false) := by
  rw [rollFile, if_neg h]
  rfl

/-- What a call can do once its line is in the file: one case for each way through
`append_unlocked`. -/
inductive Outcome (env : LogFileEnvironment) (f : LogFile) (c : Call) : LogFile → Bool → Prop
  | full (file : AppendFile) (hlarge : (file.writtenBytes : Int) > f.rollSize)
      (hlater : c.now > f.lastRoll) :
      Outcome env f c ({ f with file := some file }.rolled env c.now) true
  | refused (file : AppendFile) (hlarge : (file.writtenBytes : Int) > f.rollSize)
      (hsame : c.now ≤ f.lastRoll) : Outcome env f c { f with file := some file } false
  | counted (file : AppendFile) (hsmall : (file.writtenBytes : Int) ≤ f.rollSize)
      (hcount : f.count + 1 < f.checkEveryN) :
      Outcome env f c { f with file := some file, count := f.count + 1 } false
  | nextDay (file : AppendFile) (hday : periodOf c.now ≠ f.startOfPeriod)
      (hlater : c.later > f.lastRoll) :
      Outcome env f c ({ f with file := some file, count := 0 }.rolled env c.later) true
  | nextDayRefused (file : AppendFile) (hday : periodOf c.now ≠ f.startOfPeriod)
      (hsame : c.later ≤ f.lastRoll) :
      Outcome env f c { f with file := some file, count := 0 } false
  | sameDay (file : AppendFile) (lastFlush : Int) (hsmall : (file.writtenBytes : Int) ≤ f.rollSize)
      (hday : periodOf c.now = f.startOfPeriod) :
      Outcome env f c { f with file := some file, count := 0, lastFlush := lastFlush } false

/-- A call that can write and open files returns, in one of these ways. -/
theorem appendUnlocked_outcome (env : LogFileEnvironment) {file : AppendFile}
    (hfile : f.file = some file)
    (hresults : AppendFile.Succeed c.logline.length c.results) (hopened : c.opened = true) :
    ∃ f' b, f.appendUnlocked env c = .ok (f', b) ∧ Outcome env f c f' b := by
  generalize hwritten : ({ file with
    writtenBytes := file.writtenBytes + c.logline.length } : AppendFile) = written
  simp only [appendUnlocked, hfile, file.append_succeed hresults, ok_bind, hopened, pure_eq_ok,
    hwritten]
  by_cases hlarge : (written.writtenBytes : Int) > f.rollSize
  · rw [if_pos hlarge]
    by_cases hlater : c.now > f.lastRoll
    · exact ⟨_, _, rollFile_later hlater, .full written hlarge hlater⟩
    · exact ⟨_, _, rollFile_refused true hlater, .refused written hlarge (Int.not_lt.mp hlater)⟩
  rw [if_neg hlarge]
  by_cases hcount : f.count + 1 ≥ f.checkEveryN
  · rw [if_pos hcount]
    by_cases hday : periodOf c.now ≠ f.startOfPeriod
    · rw [if_pos hday]
      by_cases hlater : c.later > f.lastRoll
      · exact ⟨_, _, rollFile_later hlater, .nextDay written hday hlater⟩
      · exact ⟨_, _, rollFile_refused true hlater,
          .nextDayRefused written hday (Int.not_lt.mp hlater)⟩
    · rw [if_neg hday]
      split
      · exact ⟨_, _, rfl, .sameDay written c.now (Int.not_lt.mp hlarge) (not_not.mp hday)⟩
      · exact ⟨_, _, rfl, .sameDay written f.lastFlush (Int.not_lt.mp hlarge) (not_not.mp hday)⟩
  · rw [if_neg hcount]
    exact ⟨_, _, rfl, .counted written (Int.not_lt.mp hlarge) (Int.not_le.mp hcount)⟩

end LogFile

/-! ## What holds between calls -/

namespace FileRecord

/-- The first second after the day in which a file was opened. -/
def dayEnd (r : FileRecord) : Int := LogFile.periodOf r.opened + LogFile.kRollPerSeconds

/-- How many lines a file got after its day. -/
def late (r : FileRecord) : Nat := r.lines.countP fun t => r.dayEnd ≤ t

theorem late_add_le (r : FileRecord) (t : Int) : (r.add t).late ≤ r.late + 1 := by
  unfold late add
  rw [List.countP_append]
  exact Nat.add_le_add_left List.countP_le_length _

theorem late_eq_zero {r : FileRecord} (h : ∀ t ∈ r.lines, t < r.dayEnd) : r.late = 0 := by
  rw [late, List.countP_eq_zero]
  intro t ht hlate
  exact absurd (h t ht) (Int.not_lt.mpr (of_decide_eq_true hlate))

end FileRecord

namespace LogHistory

/-- The files of a log in the order they were opened. -/
def files (s : LogHistory) : List FileRecord := s.closed ++ [s.current]

/-- What a log keeps between calls. -/
structure Rolls (checkEveryN : Int) (s : LogHistory) : Prop where
  count_nonneg : 0 ≤ s.log.count
  count_lt : s.log.count < checkEveryN
  period : s.log.startOfPeriod = LogFile.periodOf s.log.lastRoll
  current : s.current.opened = s.log.lastRoll
  increasing : (s.files.map FileRecord.opened).Pairwise (· < ·)
  late : ∀ r ∈ s.files, (r.late : Int) ≤ checkEveryN

/-- And what it takes to keep it: the clock has been read, and the late lines of the current
file are counted by `count_`. -/
structure Inv (rollSize checkEveryN : Int) (s : LogHistory) : Prop where
  rollSize_eq : s.log.rollSize = rollSize
  checkEveryN_eq : s.log.checkEveryN = checkEveryN
  file : ∃ file, s.log.file = some file
  count_nonneg : 0 ≤ s.log.count
  count_lt : s.log.count < checkEveryN
  period : s.log.startOfPeriod = LogFile.periodOf s.log.lastRoll
  lastRoll_pos : 0 < s.log.lastRoll
  lastRoll_le : s.log.lastRoll ≤ s.clock
  current : s.current.opened = s.log.lastRoll
  lines_le : ∀ t ∈ s.current.lines, t ≤ s.clock
  increasing : (s.files.map FileRecord.opened).Pairwise (· < ·)
  late_current : (s.current.late : Int) ≤ s.log.count
  late_closed : ∀ r ∈ s.closed, (r.late : Int) ≤ checkEveryN

variable {env : LogFileEnvironment} {rollSize checkEveryN : Int} {s : LogHistory}
  {c : LogFile.Call}

theorem Inv.rolls (h : s.Inv rollSize checkEveryN) : s.Rolls checkEveryN where
  count_nonneg := h.count_nonneg
  count_lt := h.count_lt
  period := h.period
  current := h.current
  increasing := h.increasing
  late := by
    intro r hr
    rcases List.mem_append.mp hr with hclosed | hcurrent
    · exact h.late_closed r hclosed
    · rw [List.mem_singleton.mp hcurrent]
      have hlate := h.late_current
      have hlt := h.count_lt
      omega

/-- A line written before the day has ended leaves no line late. -/
theorem Inv.late_add (h : s.Inv rollSize checkEveryN) (hclock : s.clock ≤ c.time)
    (hday : c.time < s.current.dayEnd) : (s.current.add c.time).late = 0 := by
  apply FileRecord.late_eq_zero
  intro t ht
  change t < s.current.dayEnd
  rcases List.mem_append.mp ht with hold | hnew
  · have := h.lines_le t hold
    omega
  · rw [List.mem_singleton.mp hnew]
    exact hday

theorem Inv.late_add_le (h : s.Inv rollSize checkEveryN) :
    ((s.current.add c.time).late : Int) ≤ s.log.count + 1 := by
  have hstep := s.current.late_add_le c.time
  have hlate := h.late_current
  omega

/-- A call that opens no file: it has to leave the late lines counted. -/
theorem Inv.keep (h : s.Inv rollSize checkEveryN) (hen : s.Enabled c) {log : LogFile}
    (hsame : log.rollSize = s.log.rollSize ∧ log.checkEveryN = s.log.checkEveryN ∧
      log.startOfPeriod = s.log.startOfPeriod ∧ log.lastRoll = s.log.lastRoll)
    (hfile : ∃ file, log.file = some file) (hcount : 0 ≤ log.count)
    (hlt : log.count < checkEveryN) (hlate : ((s.current.add c.time).late : Int) ≤ log.count) :
    (s.record c log false).Inv rollSize checkEveryN := by
  obtain ⟨hclock, hnow, hlater, -⟩ := hen
  obtain ⟨hsize, hevery, hperiod, hroll⟩ := hsame
  have hle := h.lastRoll_le
  refine
    { rollSize_eq := hsize.trans h.rollSize_eq
      checkEveryN_eq := hevery.trans h.checkEveryN_eq
      file := hfile
      count_nonneg := hcount
      count_lt := hlt
      period := by
        change log.startOfPeriod = LogFile.periodOf log.lastRoll
        rw [hperiod, hroll, h.period]
      lastRoll_pos := hroll.symm ▸ h.lastRoll_pos
      lastRoll_le := ?_
      current := h.current.trans hroll.symm
      lines_le := ?_
      increasing := ?_
      late_current := hlate
      late_closed := h.late_closed }
  · change log.lastRoll ≤ c.later
    omega
  · intro t ht
    change t ≤ c.later
    rcases List.mem_append.mp ht with hold | hnew
    · have := h.lines_le t hold
      omega
    · rw [List.mem_singleton.mp hnew]
      omega
  · have hinc := h.increasing
    simp only [files, List.map_append, List.map_singleton] at hinc ⊢
    exact hinc

/-- A call that opens a file at `now`: the file it closes has one more line. -/
theorem Inv.roll (h : s.Inv rollSize checkEveryN) {log : LogFile} {now : Int}
    (hlater : now > s.log.lastRoll) (hnow : now ≤ c.later) (hcount : 0 ≤ log.count)
    (hlt : log.count < checkEveryN)
    (hsame : log.rollSize = s.log.rollSize ∧ log.checkEveryN = s.log.checkEveryN) :
    (s.record c (log.rolled env now) true).Inv rollSize checkEveryN := by
  refine
    { rollSize_eq := hsame.1.trans h.rollSize_eq
      checkEveryN_eq := hsame.2.trans h.checkEveryN_eq
      file := ⟨_, rfl⟩
      count_nonneg := hcount
      count_lt := hlt
      period := rfl
      lastRoll_pos := Int.lt_trans h.lastRoll_pos hlater
      lastRoll_le := hnow
      current := rfl
      lines_le := ?_
      increasing := ?_
      late_current := hcount
      late_closed := ?_ }
  · intro t ht
    cases ht
  · have hinc := h.increasing
    have hfiles : (s.record c (log.rolled env now) true).files.map FileRecord.opened =
        s.files.map FileRecord.opened ++ [now] := by
      simp [files, record, FileRecord.add, LogFile.rolled]
    rw [hfiles]
    refine List.pairwise_append.mpr ⟨hinc, List.pairwise_singleton _ _, ?_⟩
    rw [files, List.map_append, List.map_singleton, h.current] at hinc ⊢
    intro x hx y hy
    rw [List.mem_singleton.mp hy]
    rcases List.mem_append.mp hx with hclosed | hcurrent
    · have hbefore := (List.pairwise_append.mp hinc).2.2 x hclosed _ (List.mem_singleton_self _)
      exact Int.lt_trans hbefore hlater
    · rw [List.mem_singleton.mp hcurrent]
      exact hlater
  · intro r hr
    rcases List.mem_append.mp hr with hold | hnew
    · exact h.late_closed r hold
    · rw [List.mem_singleton.mp hnew]
      have hlate := h.late_add_le (c := c)
      have hlt := h.count_lt
      omega

/-- The size of the current file after a call: within the bound, unless the roll it attempted
came in the second of the last one. -/
def Bounded (rollSize : Int) (c : LogFile.Call) (s : LogHistory) : Prop :=
  ∃ file, s.log.file = some file ∧
    ((file.writtenBytes : Int) ≤ rollSize ∨ c.now = s.log.lastRoll)

/-- **A call** returns and keeps the invariant. -/
theorem Inv.step (hsize : 0 ≤ rollSize) (h : s.Inv rollSize checkEveryN) (hen : s.Enabled c) :
    ∃ s', step env s c = .ok s' ∧ s'.Inv rollSize checkEveryN ∧ s'.Bounded rollSize c := by
  obtain ⟨hclock, htime, hlater, hopened, hresults⟩ := id hen
  obtain ⟨file, hfile⟩ := h.file
  obtain ⟨log, rolled, hcall, houtcome⟩ :=
    LogFile.appendUnlocked_outcome env hfile hresults hopened
  have hpos := h.lastRoll_pos
  have hroll := h.lastRoll_le
  have hnonneg := h.count_nonneg
  have hcount := h.count_lt
  have hlate := h.late_add_le (c := c)
  have hrollSize := h.rollSize_eq
  have hday : s.current.dayEnd = LogFile.periodOf s.log.lastRoll + LogFile.kRollPerSeconds := by
    rw [FileRecord.dayEnd, h.current]
  refine ⟨s.record c log rolled, by rw [LogHistory.step, hcall]; rfl, ?_⟩
  cases houtcome with
  | full file hlarge hlater' =>
    exact ⟨h.roll hlater' hlater hnonneg hcount ⟨rfl, rfl⟩, _, rfl, .inl hsize⟩
  | refused file hlarge hsame =>
    -- The second of the last roll is in the day of the file.
    have hearly := (LogFile.periodOf_spec (show 0 ≤ s.log.lastRoll by omega)).2
    have hzero := h.late_add hclock (by omega)
    refine ⟨h.keep hen ⟨rfl, rfl, rfl, rfl⟩ ⟨_, rfl⟩ hnonneg hcount ?_, _, rfl, .inr ?_⟩
    · change ((s.current.add c.time).late : Int) ≤ s.log.count
      omega
    · change c.now = s.log.lastRoll
      omega
  | counted file hsmall hmore =>
    have hevery := h.checkEveryN_eq
    refine ⟨h.keep hen ⟨rfl, rfl, rfl, rfl⟩ ⟨_, rfl⟩ ?_ ?_ hlate, _, rfl,
      .inl (hrollSize ▸ hsmall)⟩
    · change 0 ≤ s.log.count + 1
      omega
    · change s.log.count + 1 < checkEveryN
      omega
  | nextDay file hday' hlater' =>
    have hevery : 0 < checkEveryN := by omega
    exact ⟨h.roll hlater' (Int.le_refl _) (Int.le_refl 0) hevery ⟨rfl, rfl⟩, _, rfl, .inl hsize⟩
  | nextDayRefused file hday' hsame =>
    -- On another day the clock is past the last roll.
    rw [h.period, ne_eq, LogFile.periodOf_eq_iff (by omega) (by omega)] at hday'
    have hearly := (LogFile.periodOf_spec (show 0 ≤ s.log.lastRoll by omega)).2
    omega
  | sameDay file lastFlush hsmall hday' =>
    rw [h.period, LogFile.periodOf_eq_iff (by omega) (by omega)] at hday'
    have hzero := h.late_add hclock (by omega)
    have hevery : 0 < checkEveryN := by omega
    have hnone : ((s.current.add c.time).late : Int) ≤ 0 := by omega
    exact ⟨h.keep hen ⟨rfl, rfl, rfl, rfl⟩ ⟨_, rfl⟩ (Int.le_refl 0) hevery hnone, _, rfl,
      .inl (hrollSize ▸ hsmall)⟩

/-- A log that was constructed, when the clock read `now`, has its first file. -/
theorem inv_start {basename : Bytes} {flushInterval now : Int} {opened : Bool} {f : LogFile}
    (hnew : LogFile.new env basename rollSize flushInterval checkEveryN now opened = .ok f)
    (hevery : 1 ≤ checkEveryN) (hnow : 0 < now) : (start f now).Inv rollSize checkEveryN := by
  obtain ⟨_, -, hroll⟩ := bind_eq_ok.mp hnew
  obtain ⟨⟨g, b⟩, hroll, hf⟩ := bind_eq_ok.mp hroll
  cases hf
  rw [LogFile.rollFile, if_pos hnow] at hroll
  obtain ⟨file, hfile, hg⟩ := bind_eq_ok.mp hroll
  cases hg
  exact
    { rollSize_eq := rfl
      checkEveryN_eq := rfl
      file := ⟨_, rfl⟩
      count_nonneg := Int.le_refl 0
      count_lt := hevery
      period := rfl
      lastRoll_pos := hnow
      lastRoll_le := Int.le_refl now
      current := rfl
      lines_le := by simp [start]
      increasing := List.pairwise_singleton _ _
      late_current := Int.le_refl 0
      late_closed := by simp [start] }

/-- **Rolling.** For every log that was constructed and every sequence of calls with a clock that
does not go back: no call faults; between calls `count_` is in its range, `startOfPeriod_` is the
day of `lastRoll_`, the files were opened at increasing times, and none got more than
`checkEveryN_` lines after its day; and after a call the current file is within `rollSize_` or
the roll was attempted in the second of the last one. -/
theorem log_rolls {basename : Bytes} {flushInterval now : Int} {opened : Bool} {f : LogFile}
    (hnew : LogFile.new env basename rollSize flushInterval checkEveryN now opened = .ok f)
    (hsize : 0 ≤ rollSize) (hevery : 1 ≤ checkEveryN) (hnow : 0 < now) :
    (∀ cs r, (system env).Run (start f now) cs r → ∃ s, r = .ok s ∧ s.Rolls checkEveryN) ∧
    ∀ cs c r, (system env).Run (start f now) (cs ++ [c]) r →
      ∃ s, r = .ok s ∧ s.Bounded rollSize c := by
  have hrun : ∀ cs r, (system env).Run (start f now) cs r →
      ∃ s, r = .ok s ∧ s.Inv rollSize checkEveryN := by
    intro cs r h
    refine h.total (I := fun _ s => s.Inv rollSize checkEveryN) (inv_start hnew hevery hnow) ?_
    intro _ s c hinv hen
    obtain ⟨s', hs', hinv', -⟩ := hinv.step hsize hen
    exact ⟨s', hs', hinv'⟩
  constructor
  · intro cs r h
    obtain ⟨s, hs, hinv⟩ := hrun cs r h
    exact ⟨s, hs, hinv.rolls⟩
  · intro cs c r h
    obtain ⟨t, ht, hen, rfl⟩ := System.run_snoc_iff.mp h
    obtain ⟨t', ht', hinv⟩ := hrun cs _ ht
    cases ht'
    obtain ⟨s, hs, -, hbounded⟩ := hinv.step hsize hen
    exact ⟨s, hs, hbounded⟩

/-- A log of at most three bytes a file that looks at the day with every line. Four bytes in the
second of its construction do not roll it, one more in the next second does, and so does a line
on the next day. -/
theorem log_rolls_twice :
    let env : LogFileEnvironment := ⟨fun _ => [], none, 7⟩
    let f : LogFile := .rolled env ⟨ascii "a", 3, 3, 1, 0, 0, 0, 0, none⟩ 1
    let c₁ : LogFile.Call := ⟨ascii "abcd", [⟨4, false⟩], 1, 1, 1, true⟩
    let c₂ : LogFile.Call := ⟨ascii "e", [⟨1, false⟩], 1, 2, 2, true⟩
    let c₃ : LogFile.Call := ⟨ascii "f", [⟨1, false⟩], 86400, 86400, 86401, true⟩
    ∃ s, (system env).Run (start f 1) [c₁, c₂, c₃] (.ok s) ∧
      s.files = [⟨1, [1, 1]⟩, ⟨2, [86400]⟩, ⟨86401, []⟩] ∧ s.Rolls 1 ∧ s.Bounded 3 c₃ := by
  intro env f c₁ c₂ c₃
  have hnew : LogFile.new env (ascii "a") 3 3 1 1 true = .ok f := rfl
  obtain ⟨hrolls, hbounded⟩ := log_rolls hnew (by decide) (by decide) (by decide)
  have hwrites₁ : AppendFile.Succeed c₁.logline.length c₁.results := ⟨by decide, by decide⟩
  have hwrites₂ : AppendFile.Succeed c₂.logline.length c₂.results := ⟨by decide, by decide⟩
  have hwrites₃ : AppendFile.Succeed c₃.logline.length c₃.results := ⟨by decide, by decide⟩
  have hrun : ∃ s, (system env).Run (start f 1) ([c₁, c₂] ++ [c₃]) (.ok s) ∧
      s.files = [⟨1, [1, 1]⟩, ⟨2, [86400]⟩, ⟨86401, []⟩] :=
    ⟨_, .cons ⟨by decide, by decide, by decide, rfl, hwrites₁⟩ rfl <|
      .cons ⟨by decide, by decide, by decide, rfl, hwrites₂⟩ rfl <|
      .cons ⟨by decide, by decide, by decide, rfl, hwrites₃⟩ rfl .nil, rfl⟩
  obtain ⟨s, hrun, hfiles⟩ := hrun
  obtain ⟨s₁, hs₁, hroll⟩ := hrolls _ _ hrun
  cases hs₁
  obtain ⟨s₂, hs₂, hbound⟩ := hbounded _ c₃ _ hrun
  cases hs₂
  exact ⟨s, hrun, hfiles, hroll, hbound⟩

end LogHistory

end ClyServer
