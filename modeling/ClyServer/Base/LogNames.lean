import ClyServer.Base.LogRolling
import ClyServer.Lib.Calendar

/-!
# The names of log files

A log file is opened for appending, so two rolls to one name would put the lines of two
periods into one file. The name has the second in it, in UTC, and a file is opened only in a
later second than the last, so the names of the files of a log are all different; and while
years have four digits their order as texts is the order they were opened in (`names_ascend`).
-/

namespace ClyServer

open ClyServer.Lib

namespace LogFile

/-- What `strftime` makes of `".%Y%m%d-%H%M%S."` and the time `gmtime_r` makes of a clock that
reads at least zero. -/
def timebuf (now : Int) : Bytes :=
  ascii "." ++ (dateTime now.toNat).text (ascii "-") [] ++ ascii "."

example : timebuf 1700000000 = ascii ".20231114-221320." := by decide +kernel

/-- Different seconds have different texts. -/
theorem timebuf_inj {now now' : Int} (h : 0 ≤ now) (h' : 0 ≤ now')
    (heq : timebuf now = timebuf now') : now = now' := by
  have htext := List.append_cancel_left (List.append_cancel_right heq)
  obtain ⟨hyear, hfields⟩ :=
    DateTime.text_inj _ _ (dateTime_inRange _) (dateTime_inRange _) htext
  have hyear : (dateTime now.toNat).year = (dateTime now'.toNat).year := decimal_injective hyear
  -- neither date is before the other, so neither second is
  have hlt := dateTime_before_iff now.toNat now'.toNat
  have hgt := dateTime_before_iff now'.toNat now.toNat
  unfold DateTime.Before at hlt hgt
  omega

/-- The first second of the year 10000. -/
def yearTenThousand : Int := 253402300800

/-- Before that texts are ordered as the seconds. -/
theorem timebuf_lt_iff {now now' : Int} (h : 0 ≤ now ∧ now < yearTenThousand)
    (h' : 0 ≤ now' ∧ now' < yearTenThousand) : timebuf now < timebuf now' ↔ now < now' := by
  unfold yearTenThousand at h h'
  have hyear := dateTime_year (show now.toNat < 253402300800 by omega)
  have hyear' := dateTime_year (show now'.toNat < 253402300800 by omega)
  have hlength : ((dateTime now.toNat).text (ascii "-") []).length =
      ((dateTime now'.toNat).text (ascii "-") []).length := by
    rw [DateTime.length_text _ _ (by omega), DateTime.length_text _ _ (by omega)]
  rw [timebuf, timebuf, append_right_lt_iff _ (by simp [hlength]), append_left_lt_iff,
    DateTime.text_lt_iff _ _ (dateTime_inRange _) (dateTime_inRange _) (by omega) (by omega),
    dateTime_before_iff]
  omega

theorem length_timebuf {now : Int} (h : 0 ≤ now ∧ now < yearTenThousand) :
    (timebuf now).length = 17 := by
  unfold yearTenThousand at h
  have hyear := dateTime_year (show now.toNat < 253402300800 by omega)
  have hone : (ascii ".").length = 1 := rfl
  have hdash : (ascii "-").length = 1 := rfl
  rw [timebuf, List.length_append, List.length_append, DateTime.length_text _ _ (by omega), hone,
    hdash]
  rfl

/-- The name of the file that is opened when the clock reads `now`. -/
theorem getLogFileName_lt_iff {env : LogFileEnvironment} (henv : env.timebuf = timebuf)
    (basename : Bytes) {now now' : Int} (h : 0 ≤ now ∧ now < yearTenThousand)
    (h' : 0 ≤ now' ∧ now' < yearTenThousand) :
    getLogFileName env basename now < getLogFileName env basename now' ↔ now < now' := by
  have hlength : (timebuf now).length = (timebuf now').length := by
    rw [length_timebuf h, length_timebuf h']
  unfold getLogFileName
  rw [henv, append_right_lt_iff _ (by simp [hlength]), append_right_lt_iff _ (by simp [hlength]),
    append_right_lt_iff _ (by simp [hlength]), append_right_lt_iff _ (by simp [hlength]),
    append_left_lt_iff, timebuf_lt_iff h h']

theorem getLogFileName_inj {env : LogFileEnvironment} (henv : env.timebuf = timebuf)
    (basename : Bytes) {now now' : Int} (h : 0 ≤ now) (h' : 0 ≤ now')
    (heq : getLogFileName env basename now = getLogFileName env basename now') : now = now' := by
  unfold getLogFileName at heq
  have heq := List.append_cancel_right (List.append_cancel_right (List.append_cancel_right
    (List.append_cancel_right heq)))
  rw [henv] at heq
  exact timebuf_inj h h' (List.append_cancel_left heq)

/-- The name of the file a log has open. -/
def fileName (f : LogFile) : Option Bytes := f.file.map AppendFile.filename

variable {env : LogFileEnvironment} {f f' : LogFile} {c : Call}

/-- A call leaves the name of the file, or opens one with the name of its second. -/
inductive Renames (env : LogFileEnvironment) (f f' : LogFile) : Bool → Prop
  | kept (hroll : f'.lastRoll = f.lastRoll) (hname : f'.fileName = f.fileName) :
      Renames env f f' false
  | rolled (hname : f'.fileName = some (getLogFileName env f.basename f'.lastRoll)) :
      Renames env f f' true

theorem rollFile_renames {now : Int} {opened b : Bool}
    (h : f.rollFile env now opened = .ok (f', b)) :
    f'.basename = f.basename ∧ Renames env f f' b := by
  unfold rollFile at h
  split at h
  · obtain ⟨file, hfile, h⟩ := bind_eq_ok.mp h
    cases h
    unfold AppendFile.new at hfile
    obtain ⟨_, -, hfile⟩ := bind_eq_ok.mp hfile
    cases hfile
    exact ⟨rfl, .rolled rfl⟩
  · cases h
    exact ⟨rfl, .kept rfl rfl⟩

theorem append_filename {file file' : AppendFile} {logline : Bytes} {results : List WriteResult}
    (h : file.append logline results = .ok file') : file'.filename = file.filename := by
  unfold AppendFile.append at h
  split at h
  · cases h
    rfl
  · cases h

theorem appendUnlocked_renames {b : Bool} (h : f.appendUnlocked env c = .ok (f', b)) :
    f'.basename = f.basename ∧ Renames env f f' b := by
  unfold appendUnlocked at h
  split at h
  · cases h
  · rename_i file hfile
    obtain ⟨file', happend, h⟩ := bind_eq_ok.mp h
    have hname : (some file').map AppendFile.filename = f.fileName := by
      rw [fileName, hfile, Option.map_some, Option.map_some, append_filename happend]
    -- a roll finds the log as the line left it
    have hroll : ∀ {g : LogFile} {now : Int}, g.rollFile env now c.opened = .ok (f', b) →
        g.basename = f.basename → g.lastRoll = f.lastRoll → g.file = some file' →
        f'.basename = f.basename ∧ Renames env f f' b := by
      intro g now hr hbase hlast hg
      obtain ⟨hbase', hrenames⟩ := rollFile_renames hr
      refine ⟨hbase'.trans hbase, ?_⟩
      cases hrenames with
      | kept hk hn => exact .kept (hk.trans hlast) (hn.trans ((congrArg _ hg).trans hname))
      | rolled hn => exact .rolled (hbase ▸ hn)
    dsimp only at h
    split at h
    · exact hroll h rfl rfl rfl
    · split at h
      · split at h
        · exact hroll h rfl rfl rfl
        · split at h
          · cases h
            exact ⟨rfl, .kept rfl hname⟩
          · cases h
            exact ⟨rfl, .kept rfl hname⟩
      · cases h
        exact ⟨rfl, .kept rfl hname⟩

end LogFile

/-- The environment of a process. -/
def LogFileEnvironment.ofProcess (gethostname : Option Bytes) (getpid : Nat) :
    LogFileEnvironment := ⟨LogFile.timebuf, gethostname, getpid⟩

namespace LogHistory

variable {env : LogFileEnvironment} {s s' : LogHistory} {c : LogFile.Call}

/-- The names of the files of a log, in the order they were opened. -/
def names (env : LogFileEnvironment) (s : LogHistory) : List Bytes :=
  s.files.map fun r => LogFile.getLogFileName env s.log.basename r.opened

/-- The open file has the name of its second, and all were opened after the clock began. -/
structure Named (env : LogFileEnvironment) (basename : Bytes) (s : LogHistory) : Prop where
  base : s.log.basename = basename
  current : s.log.fileName = some (LogFile.getLogFileName env basename s.current.opened)
  opened_pos : ∀ r ∈ s.files, 0 < r.opened

theorem Named.step {basename : Bytes} (h : s.Named env basename)
    (hs' : LogHistory.step env s c = .ok s') (hroll : 0 < s'.log.lastRoll) :
    s'.Named env basename := by
  obtain ⟨⟨log, rolled⟩, hcall, hs'⟩ := bind_eq_ok.mp hs'
  cases hs'
  obtain ⟨hbase, hrenames⟩ := LogFile.appendUnlocked_renames hcall
  have hpos : 0 < s.current.opened := h.opened_pos _ (List.mem_append_right _ (by simp))
  have hclosed : ∀ r ∈ s.closed, 0 < r.opened := fun r hr =>
    h.opened_pos r (List.mem_append_left _ hr)
  cases hrenames with
  | kept hlast hname =>
    refine ⟨hbase.trans h.base, hname.trans h.current, ?_⟩
    intro r hr
    rcases List.mem_append.mp hr with hold | hnew
    · exact hclosed r hold
    · rw [List.mem_singleton.mp hnew]
      exact hpos
  | rolled hname =>
    refine ⟨hbase.trans h.base, h.base ▸ hname, ?_⟩
    intro r hr
    rcases List.mem_append.mp hr with hold | hnew
    · rcases List.mem_append.mp hold with hold | hlast
      · exact hclosed r hold
      · rw [List.mem_singleton.mp hlast]
        exact hpos
    · rw [List.mem_singleton.mp hnew]
      exact hroll

variable {basename : Bytes} {rollSize flushInterval checkEveryN now : Int} {opened : Bool}
  {f : LogFile}

theorem named_start
    (hnew : LogFile.new env basename rollSize flushInterval checkEveryN now opened = .ok f)
    (hnow : 0 < now) : (start f now).Named env basename := by
  obtain ⟨_, -, hroll⟩ := bind_eq_ok.mp hnew
  obtain ⟨⟨g, b⟩, hroll, hf⟩ := bind_eq_ok.mp hroll
  cases hf
  rw [LogFile.rollFile, if_pos hnow] at hroll
  obtain ⟨file, hfile, hg⟩ := bind_eq_ok.mp hroll
  cases hg
  unfold AppendFile.new at hfile
  obtain ⟨_, -, hfile⟩ := bind_eq_ok.mp hfile
  cases hfile
  exact ⟨rfl, rfl, by simpa [files, start] using hnow⟩

/-- A run keeps what rolling keeps, and the names. -/
theorem run_named
    (hnew : LogFile.new env basename rollSize flushInterval checkEveryN now opened = .ok f)
    (hsize : 0 ≤ rollSize) (hevery : 1 ≤ checkEveryN) (hnow : 0 < now) {cs : List LogFile.Call}
    (h : (system env).Run (start f now) cs (.ok s)) :
    s.Inv rollSize checkEveryN ∧ s.Named env basename := by
  refine h.history (I := fun _ s => s.Inv rollSize checkEveryN ∧ s.Named env basename)
    ⟨inv_start hnew hevery hnow, named_start hnew hnow⟩ ?_
  intro _ t c u ht hen hstep
  obtain ⟨u', hu', hinv, -⟩ := ht.1.step hsize hen
  cases hu'.symm.trans hstep
  exact ⟨hinv, ht.2.step hstep hinv.lastRoll_pos⟩

/-- A property of two seconds in order is one of two names in order. -/
theorem Named.pairwise (h : s.Named env basename)
    (hinc : (s.files.map FileRecord.opened).Pairwise (· < ·)) {R : Bytes → Bytes → Prop}
    (hR : ∀ t ∈ s.files.map FileRecord.opened, ∀ t' ∈ s.files.map FileRecord.opened, t < t' →
      R (LogFile.getLogFileName env basename t) (LogFile.getLogFileName env basename t')) :
    (s.names env).Pairwise R := by
  have hnames : s.names env =
      (s.files.map FileRecord.opened).map (LogFile.getLogFileName env basename) := by
    rw [names, h.base, List.map_map]
    rfl
  rw [hnames, List.pairwise_map]
  exact hinc.imp_of_mem fun hmem hmem' hlt => hR _ hmem _ hmem' hlt

theorem Named.pos (h : s.Named env basename) : ∀ t ∈ s.files.map FileRecord.opened, 0 < t := by
  intro t ht
  obtain ⟨r, hr, rfl⟩ := List.mem_map.mp ht
  exact h.opened_pos r hr

theorem Named.nodup (henv : env.timebuf = LogFile.timebuf) (h : s.Named env basename)
    (hinc : (s.files.map FileRecord.opened).Pairwise (· < ·)) : (s.names env).Nodup := by
  refine h.pairwise hinc fun t ht t' ht' hlt heq => ?_
  have hpos := h.pos t ht
  have hpos' := h.pos t' ht'
  have hsame := LogFile.getLogFileName_inj henv basename (by omega) (by omega) heq
  omega

/-- **No log file is opened twice.** For every log that was constructed and every sequence of
calls with a clock that does not go back: the names of the files are all different, the open file
has the last of them, and before the year 10000 they ascend as texts, so that a directory listing
shows the files in the order they were written. -/
theorem names_ascend {gethostname : Option Bytes} {getpid : Nat}
    (hnew : LogFile.new (.ofProcess gethostname getpid) basename rollSize flushInterval checkEveryN
      now opened = .ok f)
    (hsize : 0 ≤ rollSize) (hevery : 1 ≤ checkEveryN) (hnow : 0 < now) {cs : List LogFile.Call}
    (h : (system (.ofProcess gethostname getpid)).Run (start f now) cs (.ok s)) :
    (s.names (.ofProcess gethostname getpid)).Nodup ∧
      s.log.fileName = (s.names (.ofProcess gethostname getpid)).getLast? ∧
      (s.clock < LogFile.yearTenThousand →
        (s.names (.ofProcess gethostname getpid)).Pairwise (· < ·)) := by
  obtain ⟨hinv, hnamed⟩ := run_named hnew hsize hevery hnow h
  refine ⟨hnamed.nodup rfl hinv.increasing, ?_, fun hclock => ?_⟩
  · rw [hnamed.current, names, files, List.map_append, List.map_singleton,
      List.getLast?_append, hnamed.base]
    rfl
  · have hle : ∀ t ∈ s.files.map FileRecord.opened, t ≤ s.clock := by
      intro t ht
      have hlast := hinv.lastRoll_le
      rw [files, List.map_append, List.map_singleton] at ht
      have hinc := hinv.increasing
      rw [files, List.map_append, List.map_singleton] at hinc
      rcases List.mem_append.mp ht with hclosed | hcurrent
      · have hbefore := (List.pairwise_append.mp hinc).2.2 t hclosed _ (List.mem_singleton_self _)
        rw [hinv.current] at hbefore
        omega
      · rw [List.mem_singleton.mp hcurrent, hinv.current]
        exact hlast
    refine hnamed.pairwise hinv.increasing fun t ht t' ht' hlt => ?_
    have h₁ := hnamed.pos t ht
    have h₂ := hle t ht
    have h₃ := hnamed.pos t' ht'
    have h₄ := hle t' ht'
    exact (LogFile.getLogFileName_lt_iff rfl basename ⟨by omega, by omega⟩
      ⟨by omega, by omega⟩).mpr hlt

/-- A log of three bytes a file rolls in the second after its construction. -/
theorem names_ascend_next :
    let env : LogFileEnvironment := .ofProcess none 7
    let f : LogFile := .rolled env ⟨ascii "a", 3, 3, 1024, 0, 0, 0, 0, none⟩ 1700000000
    let c : LogFile.Call :=
      ⟨ascii "abcd", [⟨4, false⟩], 1700000001, 1700000001, 1700000001, true⟩
    ∃ s, (system env).Run (start f 1700000000) [c] (.ok s) ∧
      s.names env = [ascii "a.20231114-221320.unknownhost.7.log",
        ascii "a.20231114-221321.unknownhost.7.log"] ∧
      (s.names env).Nodup ∧ (s.names env).Pairwise (· < ·) := by
  intro env f c
  have hnew : LogFile.new env (ascii "a") 3 3 1024 1700000000 true = .ok f := rfl
  have hwrites : AppendFile.Succeed c.logline.length c.results := ⟨by decide, by decide⟩
  have hen : (start f 1700000000).Enabled c :=
    ⟨by decide, Int.le_refl _, Int.le_refl _, rfl, hwrites⟩
  have hrun : (system env).Run (start f 1700000000) ([] ++ [c]) _ := .snoc .nil hen
  obtain ⟨s, hs⟩ : ∃ s, (system env).step (start f 1700000000) c = .ok s := ⟨_, rfl⟩
  rw [hs] at hrun
  obtain ⟨hnodup, -, hascend⟩ := names_ascend hnew (by decide) (by decide) (by decide) hrun
  cases hs
  exact ⟨_, hrun, by decide +kernel, hnodup, hascend (by decide)⟩

end LogHistory

end ClyServer
