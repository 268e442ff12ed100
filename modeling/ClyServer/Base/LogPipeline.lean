import ClyServer.Base.LogConservation
import ClyServer.Base.LogNames
import Mathlib.Data.List.Flatten

/-!
# From `append` to the files (`base/AsyncLogging.cpp`, `base/LogFile.cpp`)

The logging thread has a `LogFile` of its own, makes it when it begins, and appends to it each
buffer it writes and a notice for buffers it drops. A buffer goes into one file whole, and rolls
only come between two of them, so a roll never cuts a line: the files of a log, in the order of
their names, hold the lines that were appended, each line whole in one file, and nothing else
but the notices (`log_files`). The module puts the two models together and reads this off what
each keeps: the ledger of the thread, and the names of the file.
-/

namespace ClyServer

open ClyServer.Lib

/-- What is in a log file: text of the log (the contents of a buffer, or a line of it), or a
notice about dropped buffers. -/
inductive OutText where
  | log (bytes : Bytes)
  | notice (bytes : Bytes)
  deriving DecidableEq, Repr

namespace OutText

def bytes : OutText → Bytes
  | log bytes => bytes
  | notice bytes => bytes

def log? : OutText → Option Bytes
  | log bytes => some bytes
  | notice _ => none

def notice? : OutText → Option Bytes
  | log _ => none
  | notice bytes => some bytes

end OutText

/-- A file and what was appended to it. -/
structure OutFile where
  name : Bytes
  texts : List OutText

def OutFile.contents (f : OutFile) : Bytes := f.texts.flatMap OutText.bytes

/-- The `output` of `threadFunc`: the log file and all files it has had. -/
structure LogOutput where
  history : LogHistory
  closed : List OutFile
  current : OutFile

/-- The arguments of `AsyncLogging` that go to its `LogFile`, which has the defaults for the other
ones. -/
structure LogArgs where
  basename : Bytes
  rollSize : Int

namespace LogOutput

def flushInterval : Int := 3

def checkEveryN : Int := 1024

/-- `LogFile output(basename, rollSize, false)`, when the clock reads `now`. -/
def new (env : LogFileEnvironment) (args : LogArgs) (now : Int) (opened : Bool) :
    Checked LogOutput := do
  let log ← LogFile.new env args.basename args.rollSize flushInterval checkEveryN now opened
  return ⟨.start log now, [], ⟨log.fileName.getD [], []⟩⟩

/-- `output.append(text)`. -/
def append (env : LogFileEnvironment) (o : LogOutput) (text : OutText) (c : LogFile.Call) :
    Checked LogOutput := do
  let c := { c with logline := text.bytes }
  let (log, rolled) ← o.history.log.appendUnlocked env c
  let current := { o.current with texts := o.current.texts ++ [text] }
  let history := o.history.record c log rolled
  if rolled then return ⟨history, o.closed ++ [current], ⟨log.fileName.getD [], []⟩⟩
  else return ⟨history, o.closed, current⟩

/-- The files in the order they were opened. -/
def files (o : LogOutput) : List OutFile := o.closed ++ [o.current]

/-- All that was appended. -/
def texts (o : LogOutput) : List OutText := o.files.flatMap OutFile.texts

end LogOutput

/-- The logger and its file. -/
structure LogPipeline (SIZE : Nat) where
  thread : LoggingThread SIZE
  output : Option LogOutput

namespace LogPipeline

variable {SIZE : Nat}

def init (SIZE : Nat) : LogPipeline SIZE := ⟨.init SIZE, none⟩

/-- A step of the logger, with what the clock and the writes do if it comes to the file. -/
structure Label (SIZE : Nat) where
  action : LoggingThread.Label SIZE
  call : LogFile.Call

/-- What a step of the thread appends to the file. -/
def appends (s : LoggingThread SIZE) : LoggingThread.Label SIZE → Option OutText
  | .overload time =>
    if s.writeLog.length > 25 then
      some (.notice (LoggingThread.droppedMessage time (s.writeLog.length - 2)))
    else none
  | .write =>
    match s.place with
    | .writing i => some (.log (contentsOf (s.writeLog.getD i none)))
    | _ => none
  | _ => none

/-- What a step does to the file: it is made when the thread begins. -/
def stepOutput (env : LogFileEnvironment) (args : LogArgs) (s : LogPipeline SIZE)
    (l : Label SIZE) : Checked (Option LogOutput) :=
  match l.action with
  | .start => some <$> LogOutput.new env args l.call.now l.call.opened
  | action =>
    match appends s.thread action, s.output with
    | some text, some o => some <$> o.append env text l.call
    | some _, none => .error .nullPointer
    | none, output => return output

def step (env : LogFileEnvironment) (args : LogArgs) (s : LogPipeline SIZE) (l : Label SIZE) :
    Checked (LogPipeline SIZE) := do
  let thread ← s.thread.step l.action
  let output ← s.stepOutput env args l
  return ⟨thread, output⟩

/-- Files can be opened and written, and the clock does not go back. -/
def FileEnabled (s : LogPipeline SIZE) (l : Label SIZE) : Prop :=
  match l.action with
  | .start => 0 < l.call.now ∧ l.call.opened = true
  | action =>
    match appends s.thread action, s.output with
    | some text, some o => o.history.Enabled { l.call with logline := text.bytes }
    | _, _ => True

def Enabled (s : LogPipeline SIZE) (l : Label SIZE) : Prop :=
  s.thread.Enabled l.action ∧ s.FileEnabled l

instance (t : LoggingThread SIZE) : (l : LoggingThread.Label SIZE) → Decidable (t.Enabled l)
  | .append _ _ => inferInstanceAs (Decidable (_ ∧ _))
  | .start | .test | .lock | .wake | .overload _ | .recycle => inferInstanceAs (Decidable (_ = _))
  | .stop => inferInstanceAs (Decidable True)
  | .write =>
    match hplace : t.place with
    | .writing i =>
      decidable_of_iff (i < t.writeLog.length)
        ⟨fun hi => ⟨i, hplace, hi⟩, fun ⟨_, hj, hlt⟩ => by cases hplace.symm.trans hj; exact hlt⟩
    | .idle | .test | .locking | .waiting | .swapped | .returned =>
      .isFalse fun ⟨_, hj, _⟩ => nomatch hplace.symm.trans hj

instance (s : LogHistory) (c : LogFile.Call) : Decidable (s.Enabled c) :=
  inferInstanceAs (Decidable (_ ∧ _ ∧ _ ∧ _ ∧ (∀ r ∈ c.results, r.error = false) ∧ _ ≤ _))

instance (s : LogPipeline SIZE) (l : Label SIZE) : Decidable (s.FileEnabled l) := by
  unfold FileEnabled
  split
  · infer_instance
  · split <;> infer_instance

instance (s : LogPipeline SIZE) (l : Label SIZE) : Decidable (s.Enabled l) :=
  inferInstanceAs (Decidable (_ ∧ _))

/-- The logger with any number of producers, and its files. -/
def system (SIZE : Nat) (env : LogFileEnvironment) (args : LogArgs) :
    System (LogPipeline SIZE) (Label SIZE) Fault where
  enabled := Enabled
  step := step env args

instance (env : LogFileEnvironment) (args : LogArgs) (s : LogPipeline SIZE) (l : Label SIZE) :
    Decidable ((system SIZE env args).enabled s l) :=
  inferInstanceAs (Decidable (s.Enabled l))

end LogPipeline

/-! ## The file -/

namespace LogOutput

variable {env : LogFileEnvironment} {args : LogArgs} {o : LogOutput}

/-- What the file keeps: how it rolls, and that its files have the names of their seconds. -/
structure Inv (env : LogFileEnvironment) (args : LogArgs) (o : LogOutput) : Prop where
  rolls : o.history.Inv args.rollSize checkEveryN
  named : o.history.Named env args.basename
  names : o.files.map OutFile.name = o.history.names env

theorem new_spec (env : LogFileEnvironment) (hbase : 47 ∉ args.basename) {now : Int}
    (hnow : 0 < now) :
    ∃ o, new env args now true = .ok o ∧ o.Inv env args ∧ o.texts = [] := by
  obtain ⟨f, hf⟩ : ∃ f, LogFile.new env args.basename args.rollSize flushInterval checkEveryN now
      true = .ok f := by
    simp only [LogFile.new, check_pos hbase, ok_bind, pure_eq_ok]
    rw [LogFile.rollFile_later (by exact hnow)]
    exact ⟨_, rfl⟩
  have hrolls := LogHistory.inv_start hf (by decide) hnow
  have hnamed := LogHistory.named_start hf hnow
  refine ⟨⟨.start f now, [], ⟨f.fileName.getD [], []⟩⟩, ?_, ⟨hrolls, hnamed, ?_⟩, rfl⟩
  · rw [new, hf]
    rfl
  · have hname : f.fileName = some (LogFile.getLogFileName env args.basename now) := hnamed.current
    have hbase : f.basename = args.basename := hnamed.base
    simp only [files, LogHistory.names, LogHistory.files, LogHistory.start, hname, hbase,
      List.nil_append, List.map_singleton, Option.getD_some]

/-- A text goes to the end of the current file, whether or not a new one is opened after it. -/
theorem append_spec (hsize : 0 ≤ args.rollSize) (h : o.Inv env args) {text : OutText}
    {c : LogFile.Call} (hen : o.history.Enabled { c with logline := text.bytes }) :
    ∃ o', o.append env text c = .ok o' ∧ o'.Inv env args ∧ o'.texts = o.texts ++ [text] := by
  obtain ⟨history, hstep, hrolls, -⟩ : ∃ s', LogHistory.step env o.history _ = .ok s' ∧
      s'.Inv args.rollSize checkEveryN ∧ _ := h.rolls.step hsize hen
  have hnamed := h.named.step hstep hrolls.lastRoll_pos
  obtain ⟨⟨log, rolled⟩, hcall, hhistory⟩ := bind_eq_ok.mp hstep
  cases hhistory
  have hnames := h.names
  simp only [files, LogHistory.names, LogHistory.files, List.map_append, List.map_singleton,
    h.named.base] at hnames
  obtain ⟨hclosed, hcurrent⟩ := List.append_inj' hnames rfl
  cases rolled with
  | true =>
    have hbase : log.basename = args.basename := hnamed.base
    have hname : log.fileName = some (LogFile.getLogFileName env args.basename log.lastRoll) :=
      hnamed.current
    refine ⟨_, by rw [append, hcall]; rfl, ⟨hrolls, hnamed, ?_⟩, ?_⟩
    · simp only [files, LogHistory.names, LogHistory.files, LogHistory.record, FileRecord.add,
        List.map_append, List.map_singleton, hbase, hclosed, hcurrent, hname, if_true,
        Option.getD_some]
    · simp [texts, files]
  | false =>
    have hbase : log.basename = args.basename := hnamed.base
    refine ⟨_, by rw [append, hcall]; rfl, ⟨hrolls, hnamed, ?_⟩, ?_⟩
    · simp only [files, LogHistory.names, LogHistory.files, LogHistory.record, FileRecord.add,
        List.map_append, List.map_singleton, hbase, hclosed, hcurrent, Bool.false_eq_true, if_false]
    · simp [texts, files]

end LogOutput

/-! ## The thread and the file -/

namespace LogPipeline

variable {SIZE : Nat} {env : LogFileEnvironment} {args : LogArgs} {s : LogPipeline SIZE}

/-- What a step of the thread appends is what it says it has written, and no step but the first
finds the thread idle or leaves it so. -/
theorem step_appends {t u : LoggingThread SIZE} (hwf : t.Wf) {l : LoggingThread.Label SIZE}
    (hen : t.Enabled l) (h : t.step l = .ok u) :
    u.written = t.written ++ ((appends t l).bind OutText.log?).toList ∧
      u.notices = t.notices ++ ((appends t l).bind OutText.notice?).toList ∧
      (l ≠ .start → (u.place = .idle ↔ t.place = .idle)) := by
  cases hline : l.line? with
  | some logline =>
    cases l with
    | append logline fresh =>
      obtain ⟨log, -, hu⟩ := bind_eq_ok.mp h
      cases hu
      simp [appends]
    | _ => cases hline
  | none =>
    obtain ⟨v, hv, hstep⟩ := LoggingThread.threadStep hwf hen hline
    cases h.symm.trans hv
    cases hstep with
    | start hplace => simp [appends, LoggingThread.start]
    | stop => simp [appends, LoggingThread.stop]
    | enter hplace _ _ | leave hplace _ | wait hplace _ => simp [appends, hplace]
    | swap hplace hspares hnone =>
      obtain ⟨-, hswapped, -, -, -, hwritten, -⟩ := hwf.swapBuffers hspares
      have hnotices : t.swapBuffers.notices = t.notices := by
        unfold LoggingThread.swapBuffers
        split <;> rfl
      have hnothing : appends t l = none := by
        rcases hplace with hplace | hplace <;> cases l <;> simp [appends, hplace, hspares.2.2]
      have hawake : t.place ≠ .idle := by
        rcases hplace with hplace | hplace <;> simp [hplace]
      simp [hwritten, hnotices, hnothing, hswapped, hawake]
    | overload time hplace =>
      unfold LoggingThread.overload
      by_cases hover : t.writeLog.length > 25
      · simp [appends, hover, hplace, OutText.log?, OutText.notice?]
      · simp [appends, hover, hplace]
    | write hplace hi =>
      simp [appends, hplace, OutText.log?, OutText.notice?, List.getElem?_eq_getElem hi]
    | recycle hplace _ _ => simp [appends, hplace]

/-- An idle thread has nothing to append. -/
theorem appends_idle {t : LoggingThread SIZE} (h : t.place = .idle)
    {l : LoggingThread.Label SIZE} (hen : t.Enabled l) : appends t l = none := by
  cases l with
  | overload time => exact nomatch h.symm.trans hen
  | write =>
    obtain ⟨i, hplace, -⟩ := hen
    exact nomatch h.symm.trans hplace
  | _ => rfl

/-- What is kept: the thread takes steps of its own, before the first of them there is no file,
and then what was appended to the file is what the thread says it has written. -/
structure Inv (env : LogFileEnvironment) (args : LogArgs) (ls : List (Label SIZE))
    (s : LogPipeline SIZE) : Prop where
  run : (LoggingThread.system SIZE).Run (.init SIZE) (ls.map Label.action) (.ok s.thread)
  idle : s.output = none →
    s.thread.place = .idle ∧ s.thread.written = [] ∧ s.thread.notices = []
  output : ∀ o, s.output = some o → s.thread.place ≠ .idle ∧ o.Inv env args ∧
    o.texts.filterMap OutText.log? = s.thread.written ∧
    o.texts.filterMap OutText.notice? = s.thread.notices

theorem inv_init : (init SIZE).Inv env args [] where
  run := .nil
  idle := fun _ => ⟨rfl, rfl, rfl⟩
  output := nofun

/-- **No step faults, and every step keeps what is kept.** -/
theorem Inv.step (hbase : 47 ∉ args.basename) (hsize : 0 ≤ args.rollSize)
    {ls : List (Label SIZE)} (h : s.Inv env args ls) {l : Label SIZE} (hen : s.Enabled l) :
    ∃ s', s.step env args l = .ok s' ∧ s'.Inv env args (ls ++ [l]) := by
  obtain ⟨hthread, hfile⟩ := hen
  obtain ⟨t, ht, hinv⟩ := LoggingThread.run_inv h.run
  cases ht
  obtain ⟨u, hu, -⟩ := LoggingThread.step_inv hinv hthread
  obtain ⟨hwritten, hnotices, hidle⟩ := step_appends hinv.1 hthread hu
  have hrun : (LoggingThread.system SIZE).Run (.init SIZE) ((ls ++ [l]).map Label.action)
      (.ok u) := by
    rw [List.map_append, List.map_singleton, ← hu]
    exact .snoc h.run hthread
  suffices houtput : ∃ output, s.stepOutput env args l = .ok output ∧
      Inv env args (ls ++ [l]) ⟨u, output⟩ by
    obtain ⟨output, houtput, hinv'⟩ := houtput
    refine ⟨⟨u, output⟩, ?_, hinv'⟩
    rw [LogPipeline.step, hu, ok_bind, houtput]
    rfl
  unfold stepOutput
  unfold FileEnabled at hfile
  split
  · next haction =>
    -- the thread was idle, so nothing was written yet
    rw [haction] at hfile
    obtain ⟨hnow, hopened⟩ := hfile
    rw [haction] at hthread hu hwritten hnotices
    cases hu
    have hnone : s.output = none := by
      rw [Option.eq_none_iff_forall_ne_some]
      intro o ho
      exact (h.output o ho).1 hthread
    obtain ⟨-, hnil, hnil'⟩ := h.idle hnone
    obtain ⟨o, ho, hoinv, htexts⟩ := LogOutput.new_spec env hbase hnow
    refine ⟨some o, by rw [hopened, ho]; rfl, hrun, nofun, ?_⟩
    rintro _ ⟨⟩
    refine ⟨nofun, hoinv, ?_, ?_⟩
    · rw [htexts, hwritten, hnil]
      rfl
    · rw [htexts, hnotices, hnil']
      rfl
  · next haction =>
    have hidle := hidle haction
    cases happends : appends s.thread l.action with
    | none =>
      rw [happends] at hwritten hnotices
      simp only [Option.bind_none, Option.toList_none, List.append_nil] at hwritten hnotices
      refine ⟨s.output, rfl, hrun, ?_, ?_⟩
      · rw [hidle, hwritten, hnotices]
        exact h.idle
      · rw [ne_eq, hidle, hwritten, hnotices]
        exact h.output
    | some text =>
      cases houtput : s.output with
      | none => exact nomatch happends.symm.trans (appends_idle (h.idle houtput).1 hthread)
      | some o =>
        obtain ⟨hawake, hoinv, hlogs, hnotes⟩ := h.output o houtput
        simp only [happends, houtput] at hfile
        obtain ⟨o', ho', hoinv', htexts⟩ := LogOutput.append_spec hsize hoinv hfile
        refine ⟨some o', by simp only [ho']; rfl, hrun, nofun, ?_⟩
        rintro _ ⟨⟩
        rw [happends] at hwritten hnotices
        refine ⟨fun hplace => hawake (hidle.mp hplace), hoinv', ?_, ?_⟩
        · rw [htexts, hwritten, List.filterMap_append, hlogs]
          rfl
        · rw [htexts, hnotices, List.filterMap_append, hnotes]
          rfl

theorem run_inv (hbase : 47 ∉ args.basename) (hsize : 0 ≤ args.rollSize)
    {ls : List (Label SIZE)} {r : Checked (LogPipeline SIZE)}
    (h : (system SIZE env args).Run (init SIZE) ls r) : ∃ s, r = .ok s ∧ s.Inv env args ls :=
  h.total (I := fun ls s => s.Inv env args ls) inv_init fun _ _ _ hs hen =>
    hs.step hbase hsize hen

end LogPipeline

/-! ## The lines in the files -/

/-- Texts of the log, each of whole lines, can be cut into these. -/
theorem texts_cut {texts : List OutText} {groups : List (List Bytes)}
    (h : texts.filterMap OutText.log? = groups.map List.flatten) :
    ∃ entries : List OutText, texts.flatMap OutText.bytes = entries.flatMap OutText.bytes ∧
      entries.filterMap OutText.log? = groups.flatten ∧
      entries.filterMap OutText.notice? = texts.filterMap OutText.notice? := by
  induction texts generalizing groups with
  | nil =>
    have hnone : groups = [] := List.map_eq_nil_iff.mp h.symm
    exact ⟨[], rfl, by rw [hnone]; rfl, rfl⟩
  | cons text texts ih =>
    cases text with
    | notice bytes =>
      obtain ⟨entries, hbytes, hlogs, hnotices⟩ := ih h
      refine ⟨.notice bytes :: entries, ?_, hlogs, ?_⟩
      · rw [List.flatMap_cons, List.flatMap_cons, hbytes]
      · exact congrArg (bytes :: ·) hnotices
    | log bytes =>
      change bytes :: texts.filterMap OutText.log? = groups.map List.flatten at h
      obtain ⟨lines, groups, rfl, hlines, hgroups⟩ := List.map_eq_cons_iff.mp h.symm
      obtain ⟨entries, hbytes, hlogs, hnotices⟩ := ih hgroups.symm
      refine ⟨lines.map .log ++ entries, ?_, ?_, ?_⟩
      · rw [List.flatMap_cons, List.flatMap_append, hbytes, List.flatMap_map, OutText.bytes,
          ← hlines, List.flatten_eq_flatMap]
        rfl
      · rw [List.filterMap_append, List.filterMap_map, hlogs, List.flatten_cons]
        congr 1
        exact List.filterMap_some
      · rw [List.filterMap_append, List.filterMap_map, hnotices, List.filterMap_cons_none rfl]
        have hnone : lines.filterMap (OutText.notice? ∘ OutText.log) = [] := by
          rw [List.filterMap_eq_nil_iff]
          intro line _
          rfl
        rw [hnone, List.nil_append]

/-- And so, file by file, can what is in the files. -/
theorem files_cut {files : List OutFile} {groups : List (List Bytes)}
    (h : (files.flatMap OutFile.texts).filterMap OutText.log? = groups.map List.flatten) :
    ∃ entries : List (List OutText),
      files.map OutFile.contents = entries.map (·.flatMap OutText.bytes) ∧
      entries.flatten.filterMap OutText.log? = groups.flatten ∧
      entries.flatten.filterMap OutText.notice? =
        (files.flatMap OutFile.texts).filterMap OutText.notice? := by
  induction files generalizing groups with
  | nil =>
    have hnone : groups = [] := List.map_eq_nil_iff.mp h.symm
    exact ⟨[], rfl, by rw [hnone]; rfl, rfl⟩
  | cons file files ih =>
    rw [List.flatMap_cons, List.filterMap_append] at h
    obtain ⟨first, rest, rfl, hfirst, hrest⟩ := List.map_eq_append_iff.mp h.symm
    obtain ⟨entry, hbytes, hlogs, hnotices⟩ := texts_cut hfirst.symm
    obtain ⟨entries, hfiles, hlogs', hnotices'⟩ := ih hrest.symm
    refine ⟨entry :: entries, ?_, ?_, ?_⟩
    · rw [List.map_cons, List.map_cons, hfiles, OutFile.contents, hbytes]
    · rw [List.flatten_cons, List.filterMap_append, hlogs, hlogs', List.flatten_append]
    · rw [List.flatten_cons, List.filterMap_append, hnotices, hnotices', List.flatMap_cons,
        List.filterMap_append]

namespace LoggingThread

variable {SIZE : Nat}

/-- The buffers written are groups of whole lines, in the order of the appends; if none was
dropped, no line is left out before the last of them, and the others are in memory. -/
theorem Ledger.Fits.groups {g : Ledger} {lines : List Bytes} {s : LoggingThread SIZE}
    (h : g.Fits lines s) :
    ∃ groups : List (List Bytes), groups.map List.flatten = s.written ∧
      groups.flatten.Sublist lines ∧
      (s.dropped = [] → ∃ rest, groups.flatten ++ rest = lines ∧
        rest.flatten = (s.unwritten.map contentsOf).flatten ++
          (s.log.buffers.map contentsOf).flatten ++ contentsOf s.log.currentBuffer) := by
  have hlines := h.lines
  rw [g.flatMap_blocks] at hlines
  refine ⟨(g.settled.filter (·.kept)).map Block.lines, ?_, ?_, fun hnone => ?_⟩
  · rw [List.map_map, ← h.written]
    rfl
  · rw [← hlines, ← List.flatMap_def, List.append_assoc, List.append_assoc, List.append_assoc]
    exact (List.filter_sublist.flatMap _).trans (List.sublist_append_left ..)
  · have hdropped := h.dropped
    rw [hnone, List.append_eq_nil_iff, List.map_eq_nil_iff, List.map_eq_nil_iff] at hdropped
    obtain ⟨hkept, hcut⟩ := hdropped
    have hall : g.settled.filter (·.kept) = g.settled := by
      rw [List.filter_eq_self]
      intro b hb
      simpa using List.filter_eq_nil_iff.mp hkept b hb
    refine ⟨g.unwritten.flatten ++ g.queued.flatten ++ g.current, ?_, ?_⟩
    · rw [← hlines, hall, hcut, List.flatMap_def]
      simp only [List.flatten_nil, List.append_nil, List.append_assoc]
    · rw [List.flatten_append, List.flatten_append, List.flatten_flatten, List.flatten_flatten,
        h.unwritten, h.queued, h.current]

end LoggingThread

namespace LogPipeline

variable {SIZE : Nat}

/-- **The files of a log hold its lines.** However producers and the logging thread take turns,
and whenever the clock makes the file roll, no step faults, no two files have one name, and the
files can be cut into whole lines and notices: the notices are those about dropped buffers, and
the lines are lines that were appended, in that order. If no buffer was dropped they are the
first lines that were appended, and the rest of these is in the buffers in memory. -/
theorem log_files {gethostname : Option Bytes} {getpid : Nat} {args : LogArgs}
    (hbase : 47 ∉ args.basename) (hsize : 0 ≤ args.rollSize) {ls : List (Label SIZE)}
    {r : Checked (LogPipeline SIZE)}
    (h : (system SIZE (.ofProcess gethostname getpid) args).Run (init SIZE) ls r) :
    ∃ s, r = .ok s ∧ ∀ o, s.output = some o →
      (o.files.map OutFile.name).Nodup ∧
      ∃ entries : List (List OutText),
        o.files.map OutFile.contents = entries.map (·.flatMap OutText.bytes) ∧
        entries.flatten.filterMap OutText.notice? = s.thread.notices ∧
        (entries.flatten.filterMap OutText.log?).Sublist
          (LoggingThread.linesOf (ls.map Label.action)) ∧
        (s.thread.dropped = [] → ∃ rest,
          entries.flatten.filterMap OutText.log? ++ rest =
            LoggingThread.linesOf (ls.map Label.action) ∧
          rest.flatten = (s.thread.unwritten.map contentsOf).flatten ++
            (s.thread.log.buffers.map contentsOf).flatten ++
            contentsOf s.thread.log.currentBuffer) := by
  obtain ⟨s, rfl, hinv⟩ := run_inv hbase hsize h
  refine ⟨s, rfl, fun o ho => ?_⟩
  obtain ⟨-, hoinv, hlogs, hnotices⟩ := hinv.output o ho
  obtain ⟨t, ht, -, g, hfits⟩ := LoggingThread.run_inv hinv.run
  cases ht
  obtain ⟨groups, hwritten, hsub, hrest⟩ := hfits.groups
  obtain ⟨entries, hcontents, hlines, hnotes⟩ := files_cut (hlogs.trans hwritten.symm)
  rw [← hlines] at hsub hrest
  refine ⟨?_, entries, hcontents, hnotes.trans hnotices, hsub, hrest⟩
  rw [hoinv.names]
  exact hoinv.named.nodup rfl hoinv.rolls.increasing

/-- Two lines of a log, and their files in the second they were written in and the one before. -/
def twoLines : List (Label 4) :=
  let call (now : Int) : LogFile.Call := ⟨[], [⟨2, false⟩], now, now, now, true⟩
  [⟨.append (ascii "ab") (zeroed 4), call 0⟩, ⟨.append (ascii "cd") (zeroed 4), call 0⟩,
    ⟨.start, call 1700000000⟩, ⟨.test, call 0⟩, ⟨.lock, call 0⟩, ⟨.overload [], call 0⟩,
    ⟨.write, call 1700000001⟩, ⟨.write, call 1700000001⟩]

/-- With files of one byte a roll comes between the two. -/
theorem log_files_rolled :
    let env : LogFileEnvironment := .ofProcess none 7
    ∃ s, (system 4 env ⟨ascii "a", 1⟩).Run (init 4) twoLines (.ok s) ∧
      ∃ o, s.output = some o ∧
        o.files.map (fun f => (f.name, f.contents)) =
          [(ascii "a.20231114-221320.unknownhost.7.log", ascii "ab"),
            (ascii "a.20231114-221321.unknownhost.7.log", ascii "cd")] ∧
        (o.files.map OutFile.name).Nodup ∧
        ∃ entries : List (List OutText),
          o.files.map OutFile.contents = entries.map (·.flatMap OutText.bytes) ∧
          ∃ rest, entries.flatten.filterMap OutText.log? ++ rest = [ascii "ab", ascii "cd"] ∧
            rest.flatten = [] := by
  intro env
  have hexec : (system 4 env ⟨ascii "a", 1⟩).reaches (init 4) twoLines (fun s =>
      s.thread.dropped = [] ∧ (s.thread.unwritten.map contentsOf).flatten ++
          (s.thread.log.buffers.map contentsOf).flatten ++
          contentsOf s.thread.log.currentBuffer = [] ∧
        s.output.map (fun o => o.files.map fun f => (f.name, f.contents)) = some
        [(ascii "a.20231114-221320.unknownhost.7.log", ascii "ab"),
          (ascii "a.20231114-221321.unknownhost.7.log", ascii "cd")]) = true := by
    decide +kernel
  obtain ⟨s, hrun, hdropped, hmemory, hfiles⟩ := System.run_of_reaches hexec
  obtain ⟨o, ho, hfiles⟩ := Option.map_eq_some_iff.mp hfiles
  obtain ⟨t, ht, hlog⟩ := log_files (by decide) (by decide) hrun
  cases ht
  obtain ⟨hnodup, entries, hcontents, -, -, hrest⟩ := hlog o ho
  obtain ⟨rest, hlines, hbytes⟩ := hrest hdropped
  exact ⟨s, hrun, o, ho, hfiles, hnodup, entries, hcontents, rest, hlines, hbytes.trans hmemory⟩

end LogPipeline

end ClyServer
