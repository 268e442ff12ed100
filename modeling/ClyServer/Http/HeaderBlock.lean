import ClyServer.Http.RoundTrip

/-!
# The header block

What the loop of `parseRequest` does where headers are expected: it takes lines
off the buffer, one `addHeader` each, up to the first complete line that has no
colon. On a block that a client wrote to the rules that is the empty line, and
`parseRequest_block` says what the header map is then.

The loop does not look whether the line without a colon is empty. Any such line
ends the block, and what it said is lost: `onlyBlankEnds_iff`.
-/

namespace ClyServer.Http

open ClyServer.Lib ClyServer.Net ClyServer.Net.Buffer

/-- Lines written out, each with its CRLF. -/
def joinLines (lines : List Bytes) : Bytes := lines.flatMap (· ++ kCRLF)

/-- A complete line of a header block: no CRLF in it, and a colon. -/
structure FieldLine (line : Bytes) : Prop where
  crlf : ¬ kCRLF <:+: line
  colon : 58 ∈ line

/-- `text` is what the line holds behind its first colon, and `field` what it holds
in front of it. -/
structure Holds (line field text : Bytes) : Prop where
  split : line = field ++ 58 :: text
  colon : 58 ∉ field

/-- `value` is `text` less the white space at both ends. -/
structure TrimmedFrom (text value : Bytes) : Prop where
  around : ∃ front back, text = front ++ value ++ back ∧ (∀ c ∈ front, isspace c) ∧
    ∀ c ∈ back, isspace c
  trimmed : Trimmed value

/-! ## Lines -/

theorem joinLines_cons (line : Bytes) (lines : List Bytes) (rest : Bytes) :
    joinLines (line :: lines) ++ rest = line ++ (kCRLF ++ (joinLines lines ++ rest)) := by
  simp [joinLines]

theorem joinLines_concat (lines : List Bytes) (line rest : Bytes) :
    joinLines (lines ++ [line]) ++ rest = joinLines lines ++ (line ++ (kCRLF ++ rest)) := by
  simp [joinLines]

/-- Every line has its CRLF, so there are fewer lines than bytes. -/
theorem length_le_joinLines (lines : List Bytes) : lines.length ≤ (joinLines lines).length := by
  induction lines with
  | nil => exact Nat.zero_le _
  | cons line lines ih =>
    have hcons := congrArg List.length (joinLines_cons line lines [])
    simp only [List.length_append, List.length_nil, kCRLF, List.length_cons] at hcons ⊢
    omega

/-- A line cut off, exactly. -/
theorem cutLine_eq_some_iff {bytes line rest : Bytes} :
    cutLine bytes = some (line, rest) ↔ bytes = line ++ (kCRLF ++ rest) ∧ ¬ kCRLF <:+: line := by
  constructor
  · intro h
    obtain ⟨i, hi, heq⟩ := Option.map_eq_some_iff.mp h
    obtain ⟨⟨tail, htail⟩, hle⟩ := search_spec hi
    cases heq
    refine ⟨?_, search_first (by decide) hi⟩
    have hrest : bytes.drop (i + 2) = tail := by
      rw [← List.drop_drop, ← htail]
      rfl
    rw [hrest, htail, List.take_append_drop]
  · rintro ⟨rfl, hline⟩
    exact cutLine_append hline rest

/-- Lines taken off the same bytes down to the same rest are the same lines. -/
theorem joinLines_inj {lines lines' : List Bytes} {rest : Bytes}
    (hlines : ∀ l ∈ lines, ¬ kCRLF <:+: l) (hlines' : ∀ l ∈ lines', ¬ kCRLF <:+: l)
    (h : joinLines lines ++ rest = joinLines lines' ++ rest) : lines = lines' := by
  induction lines generalizing lines' with
  | nil =>
    have hlen := length_le_joinLines lines'
    have hzero := congrArg List.length h
    simp only [joinLines, List.flatMap_nil, List.nil_append, List.length_append] at hzero hlen
    exact (List.length_eq_zero_iff.mp (by omega)).symm
  | cons line lines ih =>
    cases lines' with
    | nil =>
      have hlen := length_le_joinLines (line :: lines)
      have hzero := congrArg List.length h
      simp only [joinLines, List.flatMap_nil, List.nil_append, List.length_append,
        List.length_cons] at hzero hlen
      omega
    | cons line' lines' =>
      rw [List.forall_mem_cons] at hlines hlines'
      rw [joinLines_cons, joinLines_cons] at h
      have hcut := cutLine_append hlines.1 (joinLines lines ++ rest)
      rw [h, cutLine_append hlines'.1] at hcut
      obtain ⟨rfl, hrest⟩ := Prod.mk.inj (Option.some.inj hcut)
      rw [ih hlines.2 hlines'.2 hrest.symm]

/-- Any bytes begin with field lines, and behind them there is no complete line, or
one without a colon. -/
theorem exists_fieldLines (bytes : Bytes) :
    ∃ lines tail, bytes = joinLines lines ++ tail ∧ (∀ l ∈ lines, FieldLine l) ∧
      (cutLine tail = none ∨ ∃ line rest, cutLine tail = some (line, rest) ∧ 58 ∉ line) := by
  induction hlen : bytes.length using Nat.strongRecOn generalizing bytes with
  | ind n ih =>
    cases hcut : cutLine bytes with
    | none => exact ⟨[], bytes, rfl, fun _ h => (nomatch h), .inl hcut⟩
    | some p =>
      obtain ⟨line, rest⟩ := p
      by_cases hcolon : 58 ∈ line
      · obtain ⟨hbytes, hline⟩ := cutLine_eq_some_iff.mp hcut
        have hshort := cutLine_length hcut
        obtain ⟨lines, tail, hrest, hlines, htail⟩ := ih rest.length (by omega) rest rfl
        refine ⟨line :: lines, tail, ?_, List.forall_mem_cons.mpr ⟨⟨hline, hcolon⟩, hlines⟩, htail⟩
        rw [joinLines_cons, ← hrest, hbytes]
      · exact ⟨[], bytes, rfl, fun _ h => (nomatch h), .inr ⟨line, rest, hcut, hcolon⟩⟩

theorem FieldLine.holds {line : Bytes} (h : FieldLine line) :
    ∃ field text, splitFirst 58 line = some (field, text) ∧ Holds line field text := by
  cases hsplit : splitFirst 58 line with
  | none => exact absurd h.colon (splitFirst_eq_none_iff.mp hsplit)
  | some p =>
    obtain ⟨field, text⟩ := p
    obtain ⟨heq, hcolon⟩ := splitFirst_eq_some_iff.mp hsplit
    exact ⟨field, text, rfl, heq, hcolon⟩

/-! ## The header map -/

/-- The loops of `addHeader` take all white space off both ends. -/
theorem trimmedFrom_trim (text : Bytes) :
    TrimmedFrom text ((text.dropWhile isspace).rdropWhile isspace) where
  around := by
    refine ⟨text.takeWhile isspace, (text.dropWhile isspace).rtakeWhile isspace, ?_,
      fun c hc => List.mem_takeWhile_imp hc, fun c hc => List.mem_rtakeWhile_imp hc⟩
    rw [List.append_assoc, List.rdropWhile_append_rtakeWhile, List.takeWhile_append_dropWhile]
  trimmed := by
    constructor
    · intro c hc
      obtain ⟨tail, htail⟩ := List.head?_eq_some_iff.mp hc
      obtain ⟨back, hback⟩ := List.rdropWhile_prefix isspace (l := text.dropWhile isspace)
      have hhead := List.head?_dropWhile_not isspace text
      rw [← hback, htail, List.cons_append, List.head?_cons] at hhead
      exact hhead
    · intro c hc
      obtain ⟨hne, rfl⟩ := List.mem_getLast?_eq_getLast hc
      exact Bool.eq_false_iff.mpr (List.rdropWhile_last_not isspace _ hne)

theorem HeaderMap.find_set (key value field : Bytes) (m : HeaderMap) :
    (m.set key value).find field = if key = field then some value else m.find field := by
  induction m with
  | nil => by_cases h : key = field <;> simp [HeaderMap.set, HeaderMap.find, h]
  | cons e rest ih =>
    obtain ⟨k, v⟩ := e
    unfold HeaderMap.set
    split
    · by_cases h : key = field <;> simp [HeaderMap.find, h]
    · split
      · rename_i hk
        subst hk
        by_cases h : key = field <;> simp [HeaderMap.find, h]
      · rename_i hk
        unfold HeaderMap.find at ih ⊢
        by_cases h : k = field
        · subst h
          simp [hk]
        · simp only [List.find?_cons, h, decide_false]
          exact ih

/-- What a line of the block does to the record. -/
def HttpRequest.addLine (r : HttpRequest) (line : Bytes) : HttpRequest :=
  match splitFirst 58 line with
  | some (field, text) => r.addHeader field text
  | none => r

/-- A line holds one field and one text. -/
theorem Holds.unique {line field text field' text' : Bytes} (h : Holds line field text)
    (h' : Holds line field' text') : field' = field ∧ text' = text := by
  have hsplit := splitFirst_eq_some_iff.mpr ⟨h.split, h.colon⟩
  rw [splitFirst_eq_some_iff.mpr ⟨h'.split, h'.colon⟩] at hsplit
  exact Prod.mk.inj (Option.some.inj hsplit)

theorem HttpRequest.getHeader_addHeader (r : HttpRequest) (field' text' field : Bytes) :
    (r.addHeader field' text').getHeader field =
      if field' = field then (text'.dropWhile isspace).rdropWhile isspace
      else r.getHeader field := by
  simp only [getHeader, addHeader, HeaderMap.find_set]
  split <;> rfl

theorem HttpRequest.addLine_of_holds (r : HttpRequest) {line field text : Bytes}
    (h : Holds line field text) : r.addLine line = r.addHeader field text := by
  rw [addLine, splitFirst_eq_some_iff.mpr ⟨h.split, h.colon⟩]

/-- A list cut at a member: the member is the last one, or the last one is behind it. -/
theorem concat_eq_middle {α : Type*} {l pre post : List α} {x y : α}
    (h : l ++ [y] = pre ++ x :: post) :
    x = y ∧ post = [] ∨ ∃ post', post = post' ++ [y] ∧ l = pre ++ x :: post' := by
  rcases List.eq_nil_or_concat' post with rfl | ⟨post', z, rfl⟩
  · cases (List.append_inj' h rfl).2
    exact .inl ⟨rfl, rfl⟩
  · rw [← List.cons_append, ← List.append_assoc] at h
    obtain ⟨hl, hz⟩ := List.append_inj' h rfl
    cases hz
    exact .inr ⟨post', rfl, hl⟩

/-- A record's header after its lines: the last line of the field decides, and
without one the record keeps what it had. -/
theorem getHeader_addLines (r : HttpRequest) {lines : List Bytes}
    (hlines : ∀ l ∈ lines, FieldLine l) (field : Bytes) :
    (∀ pre line post text, lines = pre ++ line :: post → Holds line field text →
      (∀ l ∈ post, ∀ text, ¬ Holds l field text) →
      TrimmedFrom text ((lines.foldl HttpRequest.addLine r).getHeader field)) ∧
    ((∀ l ∈ lines, ∀ text, ¬ Holds l field text) →
      (lines.foldl HttpRequest.addLine r).getHeader field = r.getHeader field) := by
  induction lines using List.reverseRecOn with
  | nil => exact ⟨fun pre _ _ _ h => absurd h (by simp), fun _ => rfl⟩
  | append_singleton lines last ih =>
    rw [List.forall_mem_append, List.forall_mem_singleton] at hlines
    obtain ⟨hbefore, hkept⟩ := ih hlines.1
    obtain ⟨field', text', _, hlast⟩ := hlines.2.holds
    rw [List.foldl_concat, HttpRequest.addLine_of_holds _ hlast,
      HttpRequest.getHeader_addHeader]
    by_cases hfield : field' = field
    · subst hfield
      rw [if_pos rfl]
      constructor
      · intro pre line post text hsplit hholds hpost
        rcases concat_eq_middle hsplit with ⟨rfl, rfl⟩ | ⟨post, rfl, _⟩
        · rw [← (hholds.unique hlast).2]
          exact trimmedFrom_trim text'
        · exact absurd hlast (hpost last (List.mem_append_right _ List.mem_cons_self) text')
      · intro hnone
        exact absurd hlast (hnone last (by simp) text')
    · rw [if_neg hfield]
      have hother : ∀ text, ¬ Holds last field text :=
        fun text h => hfield (h.unique hlast).1
      constructor
      · intro pre line post text hsplit hholds hpost
        rcases concat_eq_middle hsplit with ⟨rfl, _⟩ | ⟨post, rfl, hlines⟩
        · exact absurd hholds (hother text)
        · refine hbefore pre line post text hlines hholds fun l hl => ?_
          exact hpost l (List.mem_append_left _ hl)
      · intro hnone
        exact hkept fun l hl => hnone l (List.mem_append_left _ hl)

/-- The lines of a block write nothing but headers. -/
theorem addLines_headers (r : HttpRequest) (lines : List Bytes) :
    lines.foldl HttpRequest.addLine r =
      { r with headers := (lines.foldl HttpRequest.addLine r).headers } := by
  induction lines using List.reverseRecOn with
  | nil => rfl
  | append_singleton lines last ih =>
    rw [List.foldl_concat, HttpRequest.addLine]
    split
    · conv_lhs => rw [ih]
      rfl
    · exact ih

/-! ## The loop over the block -/

namespace HttpContext

variable {r : HttpRequest} {buf : Buffer} {t : Timestamp} {lines : List Bytes} {tail : Bytes}

/-- Field lines are taken off the buffer, a round of the loop each. -/
theorem parseLoop_lines (hlines : ∀ l ∈ lines, FieldLine l) (n : Nat) (hwf : buf.Wf)
    (hread : buf.readable = joinLines lines ++ tail) :
    ∃ buf', buf'.Wf ∧ buf'.readable = tail ∧
      parseLoop (lines.length + n) ⟨.kExpectHeaders, r⟩ buf t =
        parseLoop n ⟨.kExpectHeaders, lines.foldl HttpRequest.addLine r⟩ buf' t := by
  induction lines generalizing r buf with
  | nil =>
    refine ⟨buf, hwf, hread, ?_⟩
    rw [List.length_nil, Nat.zero_add, List.foldl_nil]
  | cons line lines ih =>
    rw [List.forall_mem_cons] at hlines
    rw [joinLines_cons] at hread
    obtain ⟨field, text, hsplit, hholds⟩ := hlines.1.holds
    have hcut : cutLine buf.readable = some (line, joinLines lines ++ tail) := by
      rw [hread]
      exact cutLine_append hlines.1.crlf _
    obtain ⟨crlf, hcrlf, hline, buf₁, hbuf₁, hwf₁, hread₁⟩ := findCRLF_of_some hwf hcut
    obtain ⟨buf', hwf', hread', hloop⟩ :=
      ih (r := r.addHeader field text) hlines.2 hwf₁ hread₁
    refine ⟨buf', hwf', hread', ?_⟩
    rw [List.length_cons, Nat.succ_add, parseLoop]
    simp only [hcrlf, hline, hsplit, hbuf₁, ok_bind]
    rw [hloop, List.foldl_cons, HttpRequest.addLine_of_holds _ hholds]

/-- A block that is not complete: the lines there are read, and the loop waits. -/
theorem parseLoop_unfinished (hlines : ∀ l ∈ lines, FieldLine l) {n : Nat}
    (hn : lines.length < n) (hwf : buf.Wf) (hread : buf.readable = joinLines lines ++ tail)
    (htail : cutLine tail = none) :
    ∃ buf', buf'.Wf ∧ buf'.readable = tail ∧ parseLoop n ⟨.kExpectHeaders, r⟩ buf t =
      .ok (true, ⟨.kExpectHeaders, lines.foldl HttpRequest.addLine r⟩, buf') := by
  obtain ⟨k, rfl⟩ : ∃ k, n = lines.length + (k + 1) := ⟨n - lines.length - 1, by omega⟩
  obtain ⟨buf', hwf', hread', hloop⟩ :=
    parseLoop_lines (r := r) (t := t) hlines (k + 1) hwf hread
  refine ⟨buf', hwf', hread', ?_⟩
  rw [← hread'] at htail
  rw [hloop, parseLoop]
  simp only [findCRLF_of_none htail]
  rfl

/-- A block with a line that has no colon: there the loop is done, and what follows
the line is what it leaves. -/
theorem parseLoop_finished (hlines : ∀ l ∈ lines, FieldLine l) {n : Nat}
    (hn : lines.length < n) (hwf : buf.Wf) {line rest : Bytes}
    (hread : buf.readable = joinLines lines ++ (line ++ (kCRLF ++ rest)))
    (hline : ¬ kCRLF <:+: line) (hcolon : 58 ∉ line) :
    ∃ buf', buf'.Wf ∧ buf'.readable = rest ∧ parseLoop n ⟨.kExpectHeaders, r⟩ buf t =
      .ok (true, ⟨.kGotAll, lines.foldl HttpRequest.addLine r⟩, buf') := by
  obtain ⟨k, rfl⟩ : ∃ k, n = lines.length + (k + 1) := ⟨n - lines.length - 1, by omega⟩
  obtain ⟨buf₁, hwf₁, hread₁, hloop⟩ :=
    parseLoop_lines (r := r) (t := t) hlines (k + 1) hwf hread
  have hcut : cutLine buf₁.readable = some (line, rest) := by
    rw [hread₁]
    exact cutLine_append hline rest
  obtain ⟨crlf, hcrlf, hslice, buf', hbuf', hwf', hread'⟩ := findCRLF_of_some hwf₁ hcut
  refine ⟨buf', hwf', hread', ?_⟩
  rw [hloop, parseLoop]
  simp only [hcrlf, hslice, splitFirst_eq_none_iff.mpr hcolon, hbuf', ok_bind]
  rfl

/-- The fuel of `parseRequest` is more than the lines there are. -/
theorem lines_lt_fuel (hwf : buf.Wf) (hread : buf.readable = joinLines lines ++ tail) :
    lines.length < buf.readableBytes + 1 := by
  have hlines := length_le_joinLines lines
  have hlen := congrArg List.length hread
  rw [hwf.length_readable, List.length_append] at hlen
  omega

/-- `parseRequest` is its loop, and then the buffer is emptied. -/
theorem parseRequest_of_loop {ctx ctx' : HttpContext} {ok : Bool} {buf' : Buffer}
    (hwf' : buf'.Wf)
    (h : parseLoop (buf.readableBytes + 1) ctx buf t = .ok (ok, ctx', buf')) :
    ∃ buf'', ctx.parseRequest buf t = .ok (ok, ctx', buf'') := by
  obtain ⟨buf'', hbuf'', _⟩ := retrieveAsString_spec hwf' (Nat.le_refl _)
  refine ⟨buf'', ?_⟩
  simp only [parseRequest, h, ok_bind, retrieveAllAsString, hbuf'']
  rfl

end HttpContext

/-! ## A block as a client writes it -/

/-- **Header block semantics.** Where headers are expected, field lines and an empty
line make a complete request: every header is the value of the last line of its
field, trimmed, or what the record had before, and nothing else of the record
changes. -/
theorem parseRequest_block {ctx : HttpContext} (hstate : ctx.state = .kExpectHeaders)
    {lines : List Bytes} (hcolon : ∀ l ∈ lines, 58 ∈ l) (hcrlf : ∀ l ∈ lines, ¬ kCRLF <:+: l)
    {buf : Buffer} (hwf : buf.Wf) (hread : buf.readable = joinLines lines ++ kCRLF)
    (t : Timestamp) :
    ∃ ctx' buf', ctx.parseRequest buf t = .ok (true, ctx', buf') ∧ ctx'.gotAll = true ∧
      (∀ field,
        (∀ pre line post text, lines = pre ++ line :: post → Holds line field text →
          (∀ l ∈ post, ∀ text, ¬ Holds l field text) →
          TrimmedFrom text (ctx'.request.getHeader field)) ∧
        ((∀ l ∈ lines, ∀ text, ¬ Holds l field text) →
          ctx'.request.getHeader field = ctx.request.getHeader field)) ∧
      ctx'.request = { ctx.request with headers := ctx'.request.headers } := by
  obtain ⟨state, r⟩ := ctx
  cases hstate
  have hlines : ∀ l ∈ lines, FieldLine l := fun l hl => ⟨hcrlf l hl, hcolon l hl⟩
  have hblank : buf.readable = joinLines lines ++ ([] ++ (kCRLF ++ [])) := by
    rw [List.append_nil, List.nil_append]
    exact hread
  obtain ⟨buf₁, hwf₁, _, hloop⟩ := HttpContext.parseLoop_finished (r := r) (t := t) hlines
    (HttpContext.lines_lt_fuel hwf hread) hwf hblank (by decide) List.not_mem_nil
  obtain ⟨buf', hbuf'⟩ := HttpContext.parseRequest_of_loop hwf₁ hloop
  exact ⟨_, buf', hbuf', rfl, getHeader_addLines r hlines, addLines_headers r lines⟩

/-- Two lines of one field: the second one counts, without the blanks around it. -/
theorem parseRequest_block_twice :
    ∃ ctx' buf',
      HttpContext.parseRequest ⟨.kExpectHeaders, .init⟩
        ⟨List.replicate 8 0 ++ ascii "A:1\r\nA: 2 \r\n\r\n", 8, 22⟩ 0 = .ok (true, ctx', buf') ∧
      ctx'.gotAll = true ∧ TrimmedFrom (ascii " 2 ") (ctx'.request.getHeader (ascii "A")) := by
  have hread : (⟨List.replicate 8 0 ++ ascii "A:1\r\nA: 2 \r\n\r\n", 8, 22⟩ : Buffer).readable =
      joinLines [ascii "A:1", ascii "A: 2 "] ++ kCRLF := by decide
  obtain ⟨ctx', buf', hparse, hgot, hheaders, _⟩ := @parseRequest_block ⟨.kExpectHeaders, .init⟩
    rfl _ (by decide) (by decide) _ (by decide) hread 0
  refine ⟨ctx', buf', hparse, hgot, (hheaders (ascii "A")).1 [ascii "A:1"] (ascii "A: 2 ") []
    (ascii " 2 ") rfl ⟨by decide, by decide⟩ fun l hl => ?_⟩
  cases hl

/-! ## What else ends a block -/

/-- The lines a call of `parseRequest` consumed: those its loop took off the front
of the buffer. -/
def HttpContext.Consumed (ctx : HttpContext) (buf : Buffer) (t : Timestamp)
    (lines : List Bytes) : Prop :=
  ∃ ok ctx' buf', parseLoop (buf.readableBytes + 1) ctx buf t = .ok (ok, ctx', buf') ∧
    buf.readable = joinLines lines ++ buf'.readable ∧ ∀ l ∈ lines, ¬ kCRLF <:+: l

/-- If the call completes the request, an empty line was among those it consumed,
and every other one of them had a colon. -/
def OnlyBlankEnds (ctx : HttpContext) (buf : Buffer) (t : Timestamp) : Prop :=
  ∀ ok ctx' buf', ctx.parseRequest buf t = .ok (ok, ctx', buf') → ctx'.state = .kGotAll →
    ∃ lines, ctx.Consumed buf t lines ∧ [] ∈ lines ∧ ∀ l ∈ lines, l ≠ [] → 58 ∈ l

/-- The first complete line without a colon, if the bytes have one, is empty. -/
def BlankFirst (bytes : Bytes) : Prop :=
  ∀ lines line rest, bytes = joinLines lines ++ (line ++ (kCRLF ++ rest)) →
    (∀ l ∈ lines, FieldLine l) → ¬ kCRLF <:+: line → 58 ∉ line → line = []

/-- What a call consumed is one list of lines. -/
theorem HttpContext.Consumed.unique {ctx : HttpContext} {buf : Buffer} {t : Timestamp}
    {lines lines' : List Bytes} (h : ctx.Consumed buf t lines) (h' : ctx.Consumed buf t lines') :
    lines = lines' := by
  obtain ⟨ok, ctx₁, buf₁, hloop, hread, hcrlf⟩ := h
  obtain ⟨ok', ctx₂, buf₂, hloop', hread', hcrlf'⟩ := h'
  cases hloop.symm.trans hloop'
  exact joinLines_inj hcrlf hcrlf' (hread.symm.trans hread')

/-- A call that gets to a line without a colon completes the request there. -/
theorem consumed_finished {r : HttpRequest} {buf : Buffer} (hwf : buf.Wf) (t : Timestamp)
    {lines : List Bytes} {line rest : Bytes} (hlines : ∀ l ∈ lines, FieldLine l)
    (hread : buf.readable = joinLines lines ++ (line ++ (kCRLF ++ rest)))
    (hline : ¬ kCRLF <:+: line) (hcolon : 58 ∉ line) :
    HttpContext.Consumed ⟨.kExpectHeaders, r⟩ buf t (lines ++ [line]) ∧
      ∃ ctx' buf', HttpContext.parseRequest ⟨.kExpectHeaders, r⟩ buf t = .ok (true, ctx', buf') ∧
        ctx'.state = .kGotAll := by
  obtain ⟨buf₁, hwf₁, hrest, hloop⟩ := HttpContext.parseLoop_finished (r := r) (t := t) hlines
    (HttpContext.lines_lt_fuel hwf hread) hwf hread hline hcolon
  obtain ⟨buf', hparse⟩ := HttpContext.parseRequest_of_loop hwf₁ hloop
  refine ⟨⟨_, _, buf₁, hloop, ?_, ?_⟩, _, buf', hparse, rfl⟩
  · rw [hrest, joinLines_concat]
    exact hread
  · rw [List.forall_mem_append, List.forall_mem_singleton]
    exact ⟨fun l hl => (hlines l hl).crlf, hline⟩

/-- A line without a colon in the way of the block is taken for its end. -/
theorem blankFirst_of_onlyBlankEnds {r : HttpRequest} {buf : Buffer} (hwf : buf.Wf)
    {t : Timestamp} (h : OnlyBlankEnds ⟨.kExpectHeaders, r⟩ buf t) : BlankFirst buf.readable := by
  intro lines line rest hread hlines hline hcolon
  obtain ⟨hconsumed, ctx', buf', hparse, hgot⟩ :=
    consumed_finished (r := r) hwf t hlines hread hline hcolon
  obtain ⟨lines', hconsumed', _, hothers⟩ := h _ ctx' buf' hparse hgot
  cases hconsumed.unique hconsumed'
  by_contra hne
  exact hcolon (hothers line (List.mem_append_right _ List.mem_cons_self) hne)

theorem onlyBlankEnds_of_blankFirst {r : HttpRequest} {buf : Buffer} (hwf : buf.Wf)
    (t : Timestamp) (h : BlankFirst buf.readable) :
    OnlyBlankEnds ⟨.kExpectHeaders, r⟩ buf t := by
  intro ok ctx' buf' hparse hgot
  obtain ⟨lines, tail, hread, hlines, hnone | ⟨line, rest, hcut, hcolon⟩⟩ :=
    exists_fieldLines buf.readable
  · -- every complete line has a colon: the call waits for more
    obtain ⟨buf₁, hwf₁, _, hloop⟩ := HttpContext.parseLoop_unfinished (r := r) (t := t) hlines
      (HttpContext.lines_lt_fuel hwf hread) hwf hread hnone
    obtain ⟨buf₂, hparse'⟩ := HttpContext.parseRequest_of_loop hwf₁ hloop
    cases hparse.symm.trans hparse'
    cases hgot
  · obtain ⟨rfl, hline⟩ := cutLine_eq_some_iff.mp hcut
    obtain rfl := h lines line rest hread hlines hline hcolon
    obtain ⟨hconsumed, _⟩ := consumed_finished (r := r) hwf t hlines hread hline hcolon
    refine ⟨_, hconsumed, List.mem_append_right _ List.mem_cons_self, fun l hl hne => ?_⟩
    rcases List.mem_append.mp hl with hl | hl
    · exact (hlines l hl).colon
    · exact absurd (List.mem_singleton.mp hl) hne

/-- **What ends a header block.** A call where headers are expected completes the
request only at an empty line if and only if the first complete line without a
colon in the buffer, if there is one, is empty. -/
theorem onlyBlankEnds_iff {ctx : HttpContext} (hstate : ctx.state = .kExpectHeaders)
    {buf : Buffer} (hwf : buf.Wf) (t : Timestamp) :
    OnlyBlankEnds ctx buf t ↔ BlankFirst buf.readable := by
  obtain ⟨state, r⟩ := ctx
  cases hstate
  exact ⟨blankFirst_of_onlyBlankEnds hwf, onlyBlankEnds_of_blankFirst hwf t⟩

/-- The empty line alone ends a block as it should. -/
theorem onlyBlankEnds_blank :
    OnlyBlankEnds ⟨.kExpectHeaders, .init⟩ ⟨List.replicate 8 0 ++ ascii "\r\n", 8, 10⟩ 0 := by
  refine (onlyBlankEnds_iff rfl (by decide) 0).mpr ?_
  intro lines line rest hread _ _ _
  have hlen := congrArg List.length hread
  simp only [List.length_append, kCRLF, List.length_cons, List.length_nil] at hlen
  have hbytes : (Buffer.readable ⟨List.replicate 8 0 ++ ascii "\r\n", 8, 10⟩).length = 2 := by
    decide
  exact List.length_eq_zero_iff.mp (by omega)

/-- `Host h` has no colon, and the request is complete with it. -/
theorem onlyBlankEnds_fails :
    ¬ OnlyBlankEnds ⟨.kExpectHeaders, .init⟩
      ⟨List.replicate 8 0 ++ ascii "Host h\r\n", 8, 16⟩ 0 := by
  intro h
  have hblank := blankFirst_of_onlyBlankEnds (by decide) h []
    (ascii "Host h") [] (by decide) (fun _ hl => nomatch hl) (by decide) (by decide)
  exact absurd hblank (by decide)

end ClyServer.Http
