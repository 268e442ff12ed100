import ClyServer.Base.LogInsertion
import ClyServer.Base.Logging

/-!
# Log records (`Logger::Impl`)

A log statement makes a `Logger`, whose constructor streams the time, the level and
for some levels an error or a function's name; the statement streams its values; and
`~Logger` streams where the record comes from and a newline and hands the bytes on.
All of it goes through the one buffer of the stream, `finish()` included, so whether a
record ends in a newline is decided by the bytes left when it ends. `record_ends_iff`
is the exact condition, and `record_unended` a record without a newline.
-/

namespace ClyServer

open ClyServer.Lib

/-- `strrchr(s, c)`: the position of the last `c`. -/
def strrchr (s : Bytes) (c : UInt8) : Option Nat :=
  (s.reverse.findIdx? (· = c)).map fun i => s.length - 1 - i

/-- `Logger::SourceFile`: the bytes that `data_` and `size_` delimit. -/
structure SourceFile where
  data : Bytes

/-- The constructors of `SourceFile`: what is behind the last slash. The size is that
of the array less the bytes skipped, or `strlen` of what is left, which is the same. -/
def SourceFile.ofName (name : CString) : SourceFile :=
  match strrchr name.bytes 47 with
  | some slash => ⟨name.bytes.drop (slash + 1)⟩
  | none => ⟨name.bytes⟩

/-- `LogLevelName`. -/
def LogLevelName : LogLevel → Bytes
  | .TRACE => ascii "TRACE "
  | .DEBUG => ascii "DEBUG "
  | .INFO => ascii "INFO  "
  | .WARN => ascii "WARN  "
  | .ERROR => ascii "ERROR "
  | .FATAL => ascii "FATAL "

/-- `T(str, len)`. -/
def T (str : Bytes) (len : Nat) : Checked Insertion := do
  check (str.length = len) .T
  return .append str

/-- The fields of `std::tm` that a record shows. -/
structure Tm where
  tm_year : Int32
  tm_mon : Int32
  tm_mday : Int32
  tm_hour : Int32
  tm_min : Int32
  tm_sec : Int32

/-- What a record takes from outside: the memory its stream finds, the time as
`gmtime` gives it, and the texts of errors. -/
structure LogEnvironment where
  memory : { data : Bytes // data.length = kSmallBuffer }
  now : Tm
  strerror : Int32 → CString

/-- The arguments of the constructors of `Logger` besides the place in the source:
none, a level, a level and a function, or `toAbort` with `errno`. -/
inductive LoggerArgs where
  | plain
  | level (level : LogLevel)
  | function (level : LogLevel) (func : Option CString)
  | abort (toAbort : Bool) (errno : Int32)

/-- `Logger::Impl`. -/
structure LogRecord where
  stream : LogStream
  level : LogLevel
  line : Int32
  basename : SourceFile

namespace LogRecord

/-- What `formatTime()` streams. -/
def timeFields (now : Tm) : List Insertion :=
  [.integer (.int (now.tm_year + 1900)), .char 45, .integer (.int (now.tm_mon + 1)), .char 45,
    .integer (.int now.tm_mday), .char 32, .integer (.int now.tm_hour), .char 58,
    .integer (.int now.tm_min), .char 58, .integer (.int now.tm_sec), .char 32]

/-- `formatTime()`. -/
def formatTime (stream : LogStream) (now : Tm) : Checked LogStream :=
  stream.insertAll (timeFields now)

/-- What is streamed about an error. -/
def errnoFields (env : LogEnvironment) (savedErrno : Int32) : List Insertion :=
  [.cstring (some (env.strerror savedErrno)), .cstring (some ⟨ascii " (errno=", by decide⟩),
    .integer (.int savedErrno), .cstring (some ⟨ascii ")", by decide⟩)]

/-- `Impl::Impl(level, savedErrno, file, line)`. -/
def init (env : LogEnvironment) (level : LogLevel) (savedErrno : Int32) (file : SourceFile)
    (line : Int32) : Checked LogRecord := do
  let stream ← formatTime (.init env.memory) env.now
  let name ← T (LogLevelName level) 6
  let stream ← stream.insert name
  let stream ←
    if savedErrno ≠ 0 then stream.insertAll (errnoFields env savedErrno) else pure stream
  return ⟨stream, level, line, file⟩

/-- Values streamed into a record. -/
def insertAll (r : LogRecord) (values : List Insertion) : Checked LogRecord := do
  let stream ← r.stream.insertAll values
  return { r with stream }

/-- The constructors of `Logger`. -/
def construct (env : LogEnvironment) (file : SourceFile) (line : Int32) :
    LoggerArgs → Checked LogRecord
  | .plain => init env .INFO 0 file line
  | .level level => init env level 0 file line
  | .function level func => do
    let r ← init env level 0 file line
    r.insertAll [.cstring func, .char 32]
  | .abort toAbort errno => init env (if toAbort then .FATAL else .ERROR) errno file line

/-- What `finish()` streams. -/
def finishing (r : LogRecord) : List Insertion :=
  [.cstring (some ⟨ascii " - ", by decide⟩), .append r.basename.data, .char 59,
    .integer (.int r.line), .char 10]

/-- `finish()`. -/
def finish (r : LogRecord) : Checked LogRecord := r.insertAll r.finishing

/-- `~Logger()`: the bytes handed to `g_output`, and whether the process goes on. -/
def destroy (r : LogRecord) : Checked (Bytes × Checked Unit) := do
  let r ← r.finish
  return (r.stream.buffer.contents, (Logger.ofLevel r.level).destroy)

/-- A log statement up to its end: a `Logger` made, and values streamed. -/
def statement (env : LogEnvironment) (name : CString) (line : Int32) (args : LoggerArgs)
    (values : List Insertion) : Checked LogRecord := do
  let r ← construct env (.ofName name) line args
  r.insertAll values

/-! ## No record faults -/

/-- A byte of the record's buffer is free. -/
def Open (r : LogRecord) : Prop := r.stream.contents.length < kSmallBuffer

theorem insertAll_spec (r : LogRecord) (values : List Insertion) :
    ∃ r', r.insertAll values = .ok r' ∧ r'.level = r.level ∧ r'.basename = r.basename ∧
      r'.stream.contents = values.foldl accept r.stream.contents := by
  obtain ⟨stream, hstream, hcontents⟩ := r.stream.insertAll_spec values
  refine ⟨{ r with stream }, ?_, rfl, rfl, hcontents⟩
  simp only [insertAll, hstream, ok_bind, pure_eq_ok]

theorem Open.insertAll {r : LogRecord} (h : r.Open) (values : List Insertion) :
    ∃ r', r.insertAll values = .ok r' ∧ r'.Open := by
  obtain ⟨r', hr', _, _, hcontents⟩ := r.insertAll_spec values
  refine ⟨r', hr', ?_⟩
  rw [Open, hcontents]
  exact length_foldl_accept_lt h values

theorem T_logLevelName (level : LogLevel) :
    T (LogLevelName level) 6 = .ok (.append (LogLevelName level)) := by
  cases level <;> rfl

/-- A record as it is constructed: what was streamed, level and file in place. -/
theorem init_spec (env : LogEnvironment) (level : LogLevel) (savedErrno : Int32)
    (file : SourceFile) (line : Int32) :
    ∃ r, init env level savedErrno file line = .ok r ∧ r.Open ∧ r.basename = file ∧
      (savedErrno = 0 → r.stream.contents =
        accept ((timeFields env.now).foldl accept []) (.append (LogLevelName level))) := by
  obtain ⟨s₁, hs₁, hcontents₁⟩ := (LogStream.init env.memory).insertAll_spec (timeFields env.now)
  obtain ⟨s₂, hs₂, hcontents₂⟩ := s₁.insert_spec (.append (LogLevelName level))
  rw [hcontents₁, LogStream.contents_init] at hcontents₂
  have hopen : s₂.contents.length < kSmallBuffer := by
    rw [hcontents₂]
    exact length_accept_lt (length_foldl_accept_lt (by decide) _) _
  by_cases herrno : savedErrno = 0
  · refine ⟨⟨s₂, level, line, file⟩, ?_, hopen, rfl, fun _ => hcontents₂⟩
    simp only [init, formatTime, hs₁, ok_bind, T_logLevelName, hs₂,
      if_neg (not_not_intro herrno), pure_eq_ok]
  · obtain ⟨s₃, hs₃, hcontents₃⟩ := s₂.insertAll_spec (errnoFields env savedErrno)
    refine ⟨⟨s₃, level, line, file⟩, ?_, ?_, rfl, fun h => absurd h herrno⟩
    · simp only [init, formatTime, hs₁, ok_bind, T_logLevelName, hs₂, if_pos herrno, hs₃,
        pure_eq_ok]
    · rw [Open, hcontents₃]
      exact length_foldl_accept_lt hopen _

theorem construct_spec (env : LogEnvironment) (file : SourceFile) (line : Int32)
    (args : LoggerArgs) : ∃ r, construct env file line args = .ok r ∧ r.Open := by
  cases args with
  | plain =>
    obtain ⟨r, hr, hopen, _⟩ := init_spec env .INFO 0 file line
    exact ⟨r, hr, hopen⟩
  | level level =>
    obtain ⟨r, hr, hopen, _⟩ := init_spec env level 0 file line
    exact ⟨r, hr, hopen⟩
  | function level func =>
    obtain ⟨r, hr, hopen, _⟩ := init_spec env level 0 file line
    obtain ⟨r', hr', hopen'⟩ := hopen.insertAll [.cstring func, .char 32]
    exact ⟨r', by simp only [construct, hr, ok_bind, hr'], hopen'⟩
  | abort toAbort errno =>
    obtain ⟨r, hr, hopen, _⟩ := init_spec env (if toAbort then .FATAL else .ERROR) errno file line
    exact ⟨r, hr, hopen⟩

theorem statement_spec (env : LogEnvironment) (name : CString) (line : Int32)
    (args : LoggerArgs) (values : List Insertion) :
    ∃ r, statement env name line args values = .ok r ∧ r.Open := by
  obtain ⟨r, hr, hopen⟩ := construct_spec env (.ofName name) line args
  obtain ⟨r', hr', hopen'⟩ := hopen.insertAll values
  exact ⟨r', by simp only [statement, hr, ok_bind, hr'], hopen'⟩

theorem destroy_eq (r : LogRecord) :
    r.destroy = .ok (r.finishing.foldl accept r.stream.contents,
      (Logger.ofLevel r.level).destroy) := by
  obtain ⟨r', hr', hlevel, _, hcontents⟩ := r.insertAll_spec r.finishing
  rw [← hcontents, ← hlevel]
  simp only [destroy, finish, hr', ok_bind, pure_eq_ok]
  rfl

/-! ## The end of a record -/

/-- What is left of `room` bytes after a text of `n` was taken, or not. -/
def left (room n : Nat) : Nat := if n < room then room - n else room

/-- The condition under which a record ends in a newline, on the bytes left, the
contents and the file name when `~Logger` begins. Behind " - " and the file name,
each of which may have been left out, three bytes are left: for the semicolon, the
newline and the one that stays free. Or a newline is there anyway: the last byte of a
full buffer, or of a file name that fills it. -/
def EndsWhole (avail : Nat) (contents basename : Bytes) : Prop :=
  3 ≤ left (left avail 3) basename.length ∨
    avail = 1 ∧ contents.getLast? = some 10 ∨
    basename.length + 1 = left avail 3 ∧ basename.getLast? = some 10

instance (avail : Nat) (contents basename : Bytes) :
    Decidable (EndsWhole avail contents basename) :=
  inferInstanceAs (Decidable (_ ∨ _ ∨ _))

theorem accept_text {contents : Bytes} {v : Insertion} (hnum : v.isNumeric = false) :
    accept contents v =
      if v.text.length < kSmallBuffer - contents.length then contents ++ v.text else contents := by
  rw [accept]
  simp only [Insertion.admitted_text hnum]

/-- What is left after a text was streamed. -/
theorem left_accept {contents : Bytes} {v : Insertion} (hnum : v.isNumeric = false) :
    kSmallBuffer - (accept contents v).length =
      left (kSmallBuffer - contents.length) v.text.length := by
  rw [accept_text hnum, left]
  split
  · rw [List.length_append, Nat.sub_sub]
  · rfl

/-- A number leaves room for a character exactly if there was room for one. -/
theorem room_integer (contents : Bytes) (v : Integer) :
    1 < kSmallBuffer - (accept contents (.integer v)).length ↔
      1 < kSmallBuffer - contents.length := by
  have hlen : (Insertion.integer v).text.length ≤ 20 :=
    length_integerText_le v.value_bounds.1 v.value_bounds.2
  rw [accept]
  simp only [Insertion.admitted_numeric (v := .integer v) rfl, kMaxNumericSize]
  split
  · rw [List.length_append]
    omega
  · rfl

/-- Without the room a number asks for, it is left out. -/
theorem accept_integer_eq_self {contents : Bytes} (h : kSmallBuffer - contents.length < 48)
    (v : Integer) : accept contents (.integer v) = contents := by
  rw [accept]
  simp only [Insertion.admitted_numeric (v := .integer v) rfl, kMaxNumericSize]
  rw [if_neg (Nat.not_le.mpr h)]

/-- Contents with one byte left and a newline at the end: a text leaves such contents if
they were so before and it is not taken, or if it ends so itself and fits exactly. -/
theorem full_accept {contents : Bytes} {v : Insertion} (hnum : v.isNumeric = false) :
    (kSmallBuffer - (accept contents v).length = 1 ∧ (accept contents v).getLast? = some 10) ↔
      kSmallBuffer - contents.length = 1 ∧ contents.getLast? = some 10 ∨
      v.text.length + 1 = kSmallBuffer - contents.length ∧ v.text.getLast? = some 10 := by
  rw [left_accept hnum, accept_text hnum, left]
  by_cases hfits : v.text.length < kSmallBuffer - contents.length
  · rw [if_pos hfits, if_pos hfits]
    by_cases hnil : v.text = []
    · rw [hnil] at hfits ⊢
      simp
    · have hpos := List.length_pos_iff.mpr hnil
      rw [List.getLast?_append, Option.or_of_isSome (by simpa using hnil)]
      constructor
      · rintro ⟨hone, hlast⟩
        exact .inr ⟨by omega, hlast⟩
      · rintro (⟨hone, _⟩ | ⟨hexact, hlast⟩)
        · omega
        · exact ⟨by omega, hlast⟩
  · rw [if_neg hfits, if_neg hfits]
    constructor
    · exact .inl
    · rintro (hfull | ⟨hexact, _⟩)
      · exact hfull
      · omega

/-- The last three: with three bytes left the newline is taken; with two the semicolon
is the last that is; with one nothing is. -/
theorem last_three_ends_iff {contents : Bytes} (h : contents.length < kSmallBuffer)
    (line : Int32) :
    (accept (accept (accept contents (.char 59)) (.integer (.int line))) (.char 10)).getLast? =
        some 10 ↔
      3 ≤ kSmallBuffer - contents.length ∨
        kSmallBuffer - contents.length = 1 ∧ contents.getLast? = some 10 := by
  have hsemi : kSmallBuffer - (accept contents (.char 59)).length =
      left (kSmallBuffer - contents.length) 1 := left_accept rfl
  have hnewline : ∀ c : Bytes, accept c (.char 10) =
      if 1 < kSmallBuffer - c.length then c ++ [10] else c := fun c => accept_text rfl
  rw [hnewline]
  simp only [room_integer]
  by_cases hthree : 3 ≤ kSmallBuffer - contents.length
  · have hroom : 1 < kSmallBuffer - (accept contents (.char 59)).length := by
      rw [hsemi, left, if_pos (by omega)]
      omega
    rw [if_pos hroom, List.getLast?_concat]
    exact iff_of_true rfl (.inl hthree)
  · have hroom : ¬ 1 < kSmallBuffer - (accept contents (.char 59)).length := by
      rw [hsemi, left]
      split <;> omega
    rw [if_neg hroom, accept_integer_eq_self (by omega)]
    by_cases htwo : 1 < kSmallBuffer - contents.length
    · have hlast : accept contents (.char 59) = contents ++ [59] :=
        (accept_text rfl).trans (if_pos htwo)
      rw [hlast, List.getLast?_concat]
      refine iff_of_false (by decide) ?_
      rintro (hthree' | ⟨hone, _⟩) <;> omega
    · have hsame : accept contents (.char 59) = contents := (accept_text rfl).trans (if_neg htwo)
      rw [hsame]
      constructor
      · exact fun hlast => .inr ⟨by omega, hlast⟩
      · rintro (hthree' | ⟨_, hlast⟩)
        · exact absurd hthree' hthree
        · exact hlast

/-- The record ends in a newline exactly if the newline found room, or nothing did and one
was there before. -/
theorem finishing_ends_iff (r : LogRecord) (h : r.Open) :
    (r.finishing.foldl accept r.stream.contents).getLast? = some 10 ↔
      EndsWhole r.stream.buffer.avail r.stream.contents r.basename.data := by
  obtain ⟨dash, hdash, hnum, htext⟩ : ∃ dash : Insertion,
      r.finishing = [dash, .append r.basename.data, .char 59, .integer (.int r.line), .char 10] ∧
      dash.isNumeric = false ∧ dash.text = [32, 45, 32] := ⟨_, rfl, rfl, rfl⟩
  have hname : (Insertion.append r.basename.data).isNumeric = false := rfl
  have htextName : (Insertion.append r.basename.data).text = r.basename.data := rfl
  have hopen := length_accept_lt (length_accept_lt h dash) (.append r.basename.data)
  have hlast := last_three_ends_iff hopen r.line
  -- " - " does not end in a newline
  have hspace : ¬ (dash.text.length + 1 = kSmallBuffer - r.stream.contents.length ∧
      dash.text.getLast? = some 10) := by
    rw [htext]
    exact fun hdash => absurd hdash.2 (by decide)
  rw [full_accept hname, full_accept hnum, or_iff_left hspace, left_accept hname,
    left_accept hnum, htext, htextName] at hlast
  rw [EndsWhole, LogStream.avail_eq, hdash, List.foldl_cons, List.foldl_cons, List.foldl_cons,
    List.foldl_cons, List.foldl_cons, List.foldl_nil]
  exact hlast

/-- **When a record is a line.** For any constructor, any place in the source and any
values streamed, nothing faults before the record is handed on, and the bytes that
`~Logger` hands to `g_output` end in a newline exactly if the room left when it
begins is as `EndsWhole` says. -/
theorem record_ends_iff (env : LogEnvironment) (name : CString) (line : Int32)
    (args : LoggerArgs) (values : List Insertion) :
    ∃ r out, statement env name line args values = .ok r ∧
      r.destroy = .ok (out, (Logger.ofLevel r.level).destroy) ∧
      (out.getLast? = some 10 ↔
        EndsWhole r.stream.buffer.avail r.stream.contents r.basename.data) := by
  obtain ⟨r, hr, hopen⟩ := statement_spec env name line args values
  exact ⟨r, _, hr, r.destroy_eq, r.finishing_ends_iff hopen⟩

/-- Eight o'clock on the first day, as `formatTime` has it for the first second. -/
def firstSecond : LogEnvironment where
  memory := ⟨List.replicate kSmallBuffer 0, List.length_replicate⟩
  now := ⟨70, 0, 1, 8, 0, 0⟩
  strerror := fun _ => ⟨[], List.not_mem_nil⟩

/-- A record with a string of 3978 bytes: it fills the buffer up to its last byte, and
nothing that `finish()` streams is taken. -/
theorem record_unended :
    ∃ r out, statement firstSecond ⟨ascii "a.cpp", by decide⟩ 1 (.level .WARN)
        [.string (List.replicate 3978 120)] = .ok r ∧
      r.destroy = .ok (out, (Logger.ofLevel r.level).destroy) ∧ out.getLast? ≠ some 10 := by
  obtain ⟨r, hr, hopen, hfile, hcontents⟩ :=
    init_spec firstSecond .WARN 0 (.ofName ⟨ascii "a.cpp", by decide⟩) 1
  have hstart : r.stream.contents = ascii "1970-1-1 8:0:0 WARN  " := by
    rw [hcontents rfl]
    decide
  obtain ⟨r', hr', _, hfile', hcontents'⟩ := r.insertAll_spec [.string (List.replicate 3978 120)]
  have hend : r'.stream.contents =
      ascii "1970-1-1 8:0:0 WARN  " ++ List.replicate 3978 120 := by
    have hfits : (List.replicate 3978 (120 : UInt8)).length <
        kSmallBuffer - (ascii "1970-1-1 8:0:0 WARN  ").length := by
      rw [List.length_replicate]
      decide
    rw [hcontents', hstart, List.foldl_cons, List.foldl_nil, accept_text rfl]
    exact if_pos hfits
  have hlen : r'.stream.contents.length = 3999 := by
    rw [hend, List.length_append, List.length_replicate]
    rfl
  have hopen' : r'.Open := by
    rw [Open, hlen]
    decide
  refine ⟨r', _, ?_, r'.destroy_eq, ?_⟩
  · simp only [statement, construct, hr, ok_bind, hr']
  · rw [Ne, r'.finishing_ends_iff hopen', LogStream.avail_eq, hlen, hend, hfile', hfile]
    have hlast : (ascii "1970-1-1 8:0:0 WARN  " ++ List.replicate 3978 120).getLast? =
        some 120 := by
      rw [List.getLast?_append, List.getLast?_replicate, if_neg (by decide)]
      rfl
    rw [EndsWhole, hlast]
    decide

end LogRecord

end ClyServer
