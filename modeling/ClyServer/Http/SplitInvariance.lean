import ClyServer.Http.BadRequest
import ClyServer.Http.HeaderBlock

/-!
# How the input path depends on where the stream is cut

The parser keeps its state between calls so that a request may arrive in
pieces. Its last act in each call is to empty the buffer for the log, so a line
that is not yet complete is lost with it, and so is everything behind the
request that a chunk completed.

A cut that leaves it nothing to lose, up to the first bad request, is `Aligned`:
each chunk is complete lines, and the line that ends a header block is the last
of its chunk. Such a cut is served as if every line had come in a chunk of its
own (`aligned_lines`), so any two of them agree: `aligned_cuts_agree`. Every other
cut does lose part of a complete line (`aligned_iff_keeps`). It may still agree, if
what it lost decides nothing (`agree_of_spaceless`).

No stream is safe under all its cuts unless it completes no line at all
(`splitInvariant_iff`): one with a CRLF can always be cut so that nobody sees it,
one byte at a time, and cut so that the CRLF alone is taken for a request line.
-/

namespace ClyServer.Http

open ClyServer.Lib ClyServer.Net ClyServer.Net.Buffer

/-- The chunks are a cut of the stream into pieces that are not empty. -/
def Cuts (stream : Bytes) (chunks : List Chunk) : Prop :=
  (∀ c ∈ chunks, c.bytes ≠ []) ∧ (chunks.map (·.bytes)).flatten = stream

/-- The action with the receive time of its request left out. -/
def Action.forgetTime : Action → Action
  | .onRequest req => .onRequest (req.setReceiveTime 0)
  | a => a

/-- The actions up to the first bad request, the half-close that ends its
report included. -/
def upToBad : List Action → List Action
  | [] => []
  | .shutdown :: _ => [.shutdown]
  | a :: rest => a :: upToBad rest

/-- What of a run's actions two cuts of one stream are compared by. -/
def observed (actions : List Action) : List Action := (upToBad actions).map Action.forgetTime

/-- The two cuts lead a new connection to the same requests, and to a bad request
at the same point. -/
def Agree (cs ds : List Chunk) : Prop :=
  ∀ c, HttpConnection.onConnection = .ok c →
    observed (c.serve cs).1 = observed (c.serve ds).1

/-- Every two cuts of the stream agree. -/
def SplitInvariant (stream : Bytes) : Prop :=
  ∀ cs ds, Cuts stream cs → Cuts stream ds → Agree cs ds

/-! ## Cuts at the end of lines -/

/-- The lines of a chunk that are read as header lines, where the parser expects
what the state says. -/
def headerLines : HttpRequestParseState → List Bytes → List Bytes
  | .kExpectHeaders, ls => ls
  | _, ls => ls.tail

/-- The bytes are complete lines, and then nothing or the beginning of a line that
the bytes behind do not complete. No line stands behind the one that ends the
header block. -/
def EndsAtLine (state : HttpRequestParseState) (bytes behind : Bytes) : Prop :=
  ∃ ls piece, bytes = joinLines ls ++ piece ∧ (∀ l ∈ ls, ¬ kCRLF <:+: l) ∧
    (piece = [] ∨ ¬ kCRLF <:+: piece ++ behind) ∧ ∀ l ∈ (headerLines state ls).dropLast, 58 ∈ l

/-- Up to the chunk whose request line is refused, each chunk ends at a line. -/
def Aligned : HttpRequestParseState → List Chunk → Prop
  | _, [] => True
  | state, c :: rest =>
    (state = .kExpectRequestLine ∧ (Rejects c.bytes ∨ Spoils c.bytes)) ∨
    (EndsAtLine state c.bytes (rest.map (·.bytes)).flatten ∧
      Aligned (nextState state c.bytes) rest)

/-! ## Actions up to the first bad request -/

theorem observed_eq (actions : List Action) :
    observed actions = upToBad (actions.map Action.forgetTime) := by
  induction actions with
  | nil => rfl
  | cons a rest ih =>
    cases a with
    | shutdown => rfl
    | send message => exact congrArg (.send message :: ·) ih
    | onRequest req => exact congrArg (.onRequest (req.setReceiveTime 0) :: ·) ih

theorem upToBad_append_congr (actions : List Action) {xs ys : List Action}
    (h : upToBad xs = upToBad ys) : upToBad (actions ++ xs) = upToBad (actions ++ ys) := by
  induction actions with
  | nil => exact h
  | cons a rest ih =>
    cases a with
    | shutdown => rfl
    | send message => exact congrArg (.send message :: ·) ih
    | onRequest req => exact congrArg (.onRequest req :: ·) ih

/-- The same actions but for the time, and what follows is observed to be the same. -/
theorem observed_append {as bs xs ys : List Action}
    (hacts : as.map Action.forgetTime = bs.map Action.forgetTime) (h : observed xs = observed ys) :
    observed (as ++ xs) = observed (bs ++ ys) := by
  rw [observed_eq, observed_eq] at h ⊢
  rw [List.map_append, List.map_append, hacts]
  exact upToBad_append_congr _ h

/-! ## The receive time -/

/-- The context with the receive time of its record left out. -/
def HttpContext.forgetTime (ctx : HttpContext) : HttpContext where
  state := ctx.state
  request := ctx.request.setReceiveTime 0

/-- A request line reads the same whatever time is in the record. -/
theorem HttpContext.processRequestLine_forgetTime (r : HttpRequest) (line : Bytes) :
    processRequestLine (r.setReceiveTime 0) line =
      (processRequestLine r line).map fun p => (p.1, p.2.setReceiveTime 0) := by
  by_cases hr : r.method = .kInvalid
  · rw [processRequestLine_spec hr, processRequestLine_spec (r := r.setReceiveTime 0) hr]
    cases readLine line <;> rfl
  · by_cases hread : readLine line = .noMethod
    · rw [processRequestLine_noMethod hread, processRequestLine_noMethod hread]
      rfl
    · rw [processRequestLine_assert hread hr,
        processRequestLine_assert (r := r.setReceiveTime 0) hread hr]
      rfl

/-- The loop does the same whatever the times are. -/
theorem HttpContext.parseLines_forgetTime (n : Nat) (ctx : HttpContext) (bytes : Bytes)
    (t : Timestamp) :
    (parseLines n ctx.forgetTime bytes 0).map (fun p => (p.1, p.2.forgetTime)) =
      (parseLines n ctx bytes t).map fun p => (p.1, p.2.forgetTime) := by
  induction n generalizing ctx bytes with
  | zero => rfl
  | succ n ih =>
    obtain ⟨state, request⟩ := ctx
    cases state with
    | kExpectRequestLine =>
      cases hcut : cutLine bytes with
      | none =>
        simp only [parseLines, forgetTime, hcut]
        rfl
      | some p =>
        obtain ⟨line, rest⟩ := p
        simp only [parseLines, forgetTime, hcut, processRequestLine_forgetTime]
        cases processRequestLine request line with
        | error e => rfl
        | ok q =>
          obtain ⟨ok, request'⟩ := q
          cases ok with
          | false => rfl
          | true => exact ih ⟨.kExpectHeaders, request'.setReceiveTime t⟩ rest
    | kExpectHeaders =>
      cases hcut : cutLine bytes with
      | none =>
        simp only [parseLines, forgetTime, hcut]
        rfl
      | some p =>
        obtain ⟨line, rest⟩ := p
        simp only [parseLines, forgetTime, hcut]
        cases splitFirst 58 line with
        | none => rfl
        | some q => exact ih ⟨.kExpectHeaders, request.addHeader q.1 q.2⟩ rest
    | kExpectBody => exact ih ⟨.kExpectBody, request⟩ bytes
    | kGotAll => exact ih ⟨.kGotAll, request⟩ bytes

/-- What `onMessage` makes of the answer of `parseRequest`: the actions, and the
context it leaves. -/
def HttpContext.settle (ok : Bool) (ctx : HttpContext) : List Action × HttpContext :=
  let refused := if ok then [] else [.send badRequest, .shutdown]
  if ctx.gotAll then (refused ++ [.onRequest ctx.request], ctx.reset) else (refused, ctx)

theorem receiveBytes_eq_settle (ctx : HttpContext) (c : Chunk) :
    receiveBytes ctx c =
      (ctx.parseBytes c.bytes c.receiveTime).map fun p => HttpContext.settle p.1 p.2 := by
  unfold receiveBytes HttpContext.settle
  cases ctx.parseBytes c.bytes c.receiveTime with
  | error e => rfl
  | ok p =>
    obtain ⟨ok, ctx'⟩ := p
    by_cases hgot : ctx'.gotAll = true
    · simp only [ok_bind, hgot, if_true, Except.map]
      rfl
    · simp only [ok_bind, if_neg hgot, Except.map]
      rfl

/-- Two outcomes of a chunk that differ in times only. -/
def timeless (p : List Action × HttpContext) : List Action × HttpContext :=
  (p.1.map Action.forgetTime, p.2.forgetTime)

theorem settle_forgetTime (ok : Bool) (ctx : HttpContext) :
    timeless (HttpContext.settle ok ctx.forgetTime) = timeless (HttpContext.settle ok ctx) := by
  obtain ⟨state, request⟩ := ctx
  cases ok <;> cases state <;> rfl

/-- What a chunk does depends on its bytes and on the context, but for the times. -/
theorem receiveBytes_timeless {ctx ctx' : HttpContext} (hctx : ctx.forgetTime = ctx'.forgetTime)
    {c d : Chunk} (hbytes : c.bytes = d.bytes) :
    (receiveBytes ctx c).map timeless = (receiveBytes ctx' d).map timeless := by
  have hparse := HttpContext.parseLines_forgetTime (c.bytes.length + 1) ctx c.bytes c.receiveTime
  rw [hctx, HttpContext.parseLines_forgetTime, hbytes] at hparse
  rw [receiveBytes_eq_settle, receiveBytes_eq_settle, HttpContext.parseBytes,
    HttpContext.parseBytes, hbytes]
  revert hparse
  cases HttpContext.parseLines (d.bytes.length + 1) ctx d.bytes c.receiveTime with
  | error e =>
    cases HttpContext.parseLines (d.bytes.length + 1) ctx' d.bytes d.receiveTime with
    | error e' =>
      intro h
      cases h
      rfl
    | ok q =>
      intro h
      cases h
  | ok p =>
    cases HttpContext.parseLines (d.bytes.length + 1) ctx' d.bytes d.receiveTime with
    | error e =>
      intro h
      cases h
    | ok q =>
      intro h
      obtain ⟨hok, hforget⟩ := Prod.mk.inj (Except.ok.inj h)
      refine congrArg Except.ok ?_
      rw [← settle_forgetTime p.1, ← settle_forgetTime q.1, hok, hforget]

/-- Chunks of the same bytes are observed to do the same, whenever they arrive. -/
theorem observed_times {ctx ctx' : HttpContext} (hctx : ctx.forgetTime = ctx'.forgetTime)
    {cs ds : List Chunk} (hbytes : cs.map (·.bytes) = ds.map (·.bytes)) :
    observed (serveBytes ctx cs).1 = observed (serveBytes ctx' ds).1 := by
  induction cs generalizing ctx ctx' ds with
  | nil =>
    obtain rfl := List.map_eq_nil_iff.mp hbytes.symm
    rfl
  | cons c cs ih =>
    cases ds with
    | nil => cases hbytes
    | cons d ds =>
      obtain ⟨hhead, htail⟩ := List.cons.inj hbytes
      have hrecv := receiveBytes_timeless hctx hhead
      unfold serveBytes
      revert hrecv
      cases receiveBytes ctx c with
      | error e =>
        cases receiveBytes ctx' d with
        | error e' => exact fun _ => rfl
        | ok q =>
          intro h
          cases h
      | ok p =>
        cases receiveBytes ctx' d with
        | error e =>
          intro h
          cases h
        | ok q =>
          intro h
          obtain ⟨hacts, hleft⟩ := Prod.mk.inj (Except.ok.inj h)
          exact observed_append hacts (ih hleft htail)

/-! ## Lines in chunks of their own -/

/-- A chunk without a CRLF is consumed in silence. -/
theorem receiveBytes_quiet {ctx : HttpContext} (hwait : Waiting ctx) {chunk : Chunk}
    (hquiet : ¬ kCRLF <:+: chunk.bytes) : receiveBytes ctx chunk = .ok ([], ctx) := by
  have hcut := cutLine_eq_none_iff.mpr hquiet
  have hgot : ctx.gotAll = false := by
    rcases hwait with hstate | hstate <;> simp [HttpContext.gotAll, hstate]
  apply receiveBytes_waiting hgot
  rcases hwait with hstate | hstate <;>
    simp [HttpContext.parseBytes, HttpContext.parseLines, hstate, hcut]

/-- More fuel than bytes reads the same header block. -/
theorem readHeaders_fuel {n k : Nat} {hs : HeaderMap} {bytes : Bytes}
    (hn : bytes.length < n) (hk : bytes.length < k) :
    HttpContext.readHeaders n hs bytes = HttpContext.readHeaders k hs bytes := by
  induction n generalizing k hs bytes with
  | zero => exact absurd hn (Nat.not_lt_zero _)
  | succ n ih =>
    obtain ⟨k, rfl⟩ := Nat.exists_eq_succ_of_ne_zero (Nat.ne_of_gt (Nat.zero_lt_of_lt hk))
    unfold HttpContext.readHeaders
    cases hcut : cutLine bytes with
    | none => rfl
    | some p =>
      obtain ⟨line, rest⟩ := p
      dsimp only
      cases splitFirst 58 line with
      | none => rfl
      | some f =>
        have hlen := cutLine_length hcut
        exact ih (by omega) (by omega)

theorem parseBytes_headers {n : Nat} (r : HttpRequest) {bytes : Bytes} (t : Timestamp)
    (hn : bytes.length < n) :
    HttpContext.parseLines n ⟨.kExpectHeaders, r⟩ bytes t =
      HttpContext.parseBytes ⟨.kExpectHeaders, r⟩ bytes t := by
  rw [HttpContext.parseBytes, HttpContext.parseLines_headers r t hn,
    HttpContext.parseLines_headers r t (Nat.lt_succ_self _),
    readHeaders_fuel hn (Nat.lt_succ_self _)]

theorem crlf_not_infix_nil : ¬ kCRLF <:+: [] := by decide

section Line

variable {line : Bytes} {request : HttpRequest} {t : Timestamp}

/-- A request line that is accepted may as well have come alone. -/
theorem receiveBytes_requestLine {ctx : HttpContext} (hstate : ctx.state = .kExpectRequestLine)
    (hline : HttpContext.processRequestLine ctx.request line = .ok (true, request))
    (hcrlf : ¬ kCRLF <:+: line) (rest : Bytes) :
    receiveBytes ctx ⟨line ++ (kCRLF ++ rest), t⟩ =
      receiveBytes ⟨.kExpectHeaders, request.setReceiveTime t⟩ ⟨rest, t⟩ := by
  have hcut := cutLine_append hcrlf rest
  rw [receiveBytes_eq_settle, receiveBytes_eq_settle,
    HttpContext.parseBytes_accepted hstate hcut hline, parseBytes_headers _ t (cutLine_length hcut)]

/-- So may a header line. -/
theorem receiveBytes_fieldLine (hline : FieldLine line) (rest : Bytes) :
    receiveBytes ⟨.kExpectHeaders, request⟩ ⟨line ++ (kCRLF ++ rest), t⟩ =
      receiveBytes ⟨.kExpectHeaders, request.addLine line⟩ ⟨rest, t⟩ := by
  obtain ⟨field, text, hsplit, hholds⟩ := hline.holds
  have hcut := cutLine_append hline.crlf rest
  have hround : HttpContext.parseBytes ⟨.kExpectHeaders, request⟩ (line ++ (kCRLF ++ rest)) t =
      HttpContext.parseLines (line ++ (kCRLF ++ rest)).length
        ⟨.kExpectHeaders, request.addLine line⟩ rest t := by
    rw [HttpRequest.addLine_of_holds _ hholds]
    simp only [HttpContext.parseBytes, HttpContext.parseLines, hcut, hsplit]
  rw [receiveBytes_eq_settle, receiveBytes_eq_settle, hround,
    parseBytes_headers _ t (cutLine_length hcut)]

/-- The line that ends the block completes the request, whatever stands behind it. -/
theorem receiveBytes_lastLine (hcrlf : ¬ kCRLF <:+: line) (hcolon : 58 ∉ line) (rest : Bytes) :
    receiveBytes ⟨.kExpectHeaders, request⟩ ⟨line ++ (kCRLF ++ rest), t⟩ =
      .ok ([.onRequest request], HttpContext.reset ⟨.kGotAll, request⟩) := by
  have hcut := cutLine_append hcrlf rest
  have hsplit := splitFirst_eq_none_iff.mpr hcolon
  refine @receiveBytes_complete _ ⟨.kGotAll, request⟩ _ rfl ?_
  simp only [HttpContext.parseBytes, HttpContext.parseLines, hcut, hsplit]
  rfl

/-- A request line that is refused, with whatever stands behind it. -/
theorem receiveBytes_refusedLine {ctx : HttpContext} (hstate : ctx.state = .kExpectRequestLine)
    (hclean : Clean ctx) (hok : (readLine line).ok = false) (hcrlf : ¬ kCRLF <:+: line)
    (rest : Bytes) :
    ∃ ctx', receiveBytes ctx ⟨line ++ (kCRLF ++ rest), t⟩ =
      .ok ([.send badRequest, .shutdown], ctx') := by
  have hline := HttpContext.processRequestLine_spec (hclean hstate) line
  rw [hok] at hline
  exact ⟨_, receiveBytes_refused rfl
    (HttpContext.parseBytes_refused hstate (cutLine_append hcrlf rest) hline)⟩

end Line

/-- One chunk per line. -/
def perLine (ls : List Bytes) (t : Timestamp) : List Chunk := ls.map fun l => ⟨l ++ kCRLF, t⟩

theorem perLine_bytes (ls : List Bytes) (t : Timestamp) :
    (perLine ls t).map (·.bytes) = ls.map (· ++ kCRLF) := by
  rw [perLine, List.map_map]
  rfl

theorem serveBytes_singleton (ctx : HttpContext) (c : Chunk) :
    serveBytes ctx [c] = match receiveBytes ctx c with
      | .error e => ([], .error e)
      | .ok (actions, ctx') => (actions, .ok ctx') := by
  unfold serveBytes
  cases receiveBytes ctx c with
  | error e => rfl
  | ok p => simp only [serveBytes, List.append_nil]

section Lines

variable {ls : List Bytes} {piece : Bytes}

/-- A piece of a line does nothing. -/
theorem serveBytes_piece {ctx : HttpContext} (hwait : Waiting ctx) (hpiece : ¬ kCRLF <:+: piece)
    (t : Timestamp) :
    serveBytes ctx [⟨joinLines [] ++ piece, t⟩] = serveBytes ctx (perLine [] t) := by
  have hquiet := @receiveBytes_quiet ctx hwait ⟨piece, t⟩ hpiece
  rw [serveBytes_singleton]
  simp only [joinLines, List.flatMap_nil, List.nil_append, hquiet, perLine, List.map_nil,
    serveBytes]

/-- A first line that may as well have come alone, and the lines behind it. -/
theorem serveBytes_firstLine {ctx ctx₁ : HttpContext} (hwait : Waiting ctx₁) {line : Bytes}
    {t : Timestamp} (hfirst : ∀ rest, receiveBytes ctx ⟨line ++ (kCRLF ++ rest), t⟩ =
      receiveBytes ctx₁ ⟨rest, t⟩)
    (hrest : serveBytes ctx₁ [⟨joinLines ls ++ piece, t⟩] = serveBytes ctx₁ (perLine ls t)) :
    serveBytes ctx [⟨joinLines (line :: ls) ++ piece, t⟩] =
      serveBytes ctx (perLine (line :: ls) t) := by
  have halone : receiveBytes ctx ⟨line ++ kCRLF, t⟩ = .ok ([], ctx₁) := by
    rw [← @receiveBytes_quiet ctx₁ hwait ⟨[], t⟩ crlf_not_infix_nil, ← hfirst, List.append_nil]
  rw [joinLines_cons, serveBytes_singleton, hfirst, ← serveBytes_singleton, hrest]
  simp only [perLine, List.map_cons, serveBytes, halone, List.nil_append]

/-- Header lines in one chunk, and in a chunk each. -/
theorem serveBytes_headerLines (hcrlf : ∀ l ∈ ls, ¬ kCRLF <:+: l)
    (hcolon : ∀ l ∈ ls.dropLast, 58 ∈ l) (hpiece : ¬ kCRLF <:+: piece) (r : HttpRequest)
    (t : Timestamp) :
    serveBytes ⟨.kExpectHeaders, r⟩ [⟨joinLines ls ++ piece, t⟩] =
      serveBytes ⟨.kExpectHeaders, r⟩ (perLine ls t) := by
  induction ls generalizing r with
  | nil => exact serveBytes_piece (.inr rfl) hpiece t
  | cons line ls ih =>
    rw [List.forall_mem_cons] at hcrlf
    by_cases hmem : 58 ∈ line
    · refine serveBytes_firstLine (.inr rfl)
        (fun rest => receiveBytes_fieldLine ⟨hcrlf.1, hmem⟩ rest) (ih hcrlf.2 ?_ _)
      intro l hl
      cases ls with
      | nil => cases hl
      | cons next ls => exact hcolon l (List.mem_cons_of_mem _ hl)
    · cases ls with
      | nil =>
        have hlast := @receiveBytes_lastLine line r t hcrlf.1 hmem
        have halone := hlast []
        rw [List.append_nil] at halone
        rw [joinLines_cons, serveBytes_singleton, hlast]
        simp only [perLine, List.map_cons, List.map_nil, serveBytes, halone, List.append_nil]
      | cons next ls => exact absurd (hcolon line List.mem_cons_self) hmem

/-- Lines in one chunk, and in a chunk each: the request line is not refused, and
only the last of the header lines may end the block. -/
theorem serveBytes_lines {ctx : HttpContext} (hwait : Waiting ctx) (hclean : Clean ctx)
    (hcrlf : ∀ l ∈ ls, ¬ kCRLF <:+: l) (hcolon : ∀ l ∈ (headerLines ctx.state ls).dropLast, 58 ∈ l)
    (hpiece : ¬ kCRLF <:+: piece)
    (hok : ctx.state = .kExpectRequestLine → ∀ l ∈ ls.head?, (readLine l).ok = true)
    (t : Timestamp) :
    serveBytes ctx [⟨joinLines ls ++ piece, t⟩] = serveBytes ctx (perLine ls t) := by
  obtain ⟨state, r⟩ := ctx
  rcases hwait with hstate | hstate <;> cases hstate
  · cases ls with
    | nil => exact serveBytes_piece (.inl rfl) hpiece t
    | cons line ls =>
      rw [List.forall_mem_cons] at hcrlf
      have hline := HttpContext.processRequestLine_spec (hclean rfl) line
      rw [hok rfl line rfl] at hline
      exact serveBytes_firstLine (.inr rfl)
        (fun rest => receiveBytes_requestLine rfl hline hcrlf.1 rest)
        (serveBytes_headerLines hcrlf.2 hcolon hpiece _ t)
  · exact serveBytes_headerLines hcrlf hcolon hpiece r t

end Lines

/-! ## The lines of a stream -/

/-- Any bytes are complete lines and a piece of another. -/
theorem exists_lines (bytes : Bytes) :
    ∃ ls piece, bytes = joinLines ls ++ piece ∧ (∀ l ∈ ls, ¬ kCRLF <:+: l) ∧
      ¬ kCRLF <:+: piece := by
  induction hlen : bytes.length using Nat.strongRecOn generalizing bytes with
  | ind n ih =>
    cases hcut : cutLine bytes with
    | none => exact ⟨[], bytes, rfl, fun _ h => (nomatch h), cutLine_eq_none_iff.mp hcut⟩
    | some p =>
      obtain ⟨line, rest⟩ := p
      obtain ⟨hbytes, hline⟩ := cutLine_eq_some_iff.mp hcut
      have hshort := cutLine_length hcut
      obtain ⟨ls, piece, hrest, hls, hpiece⟩ := ih rest.length (by omega) rest rfl
      refine ⟨line :: ls, piece, ?_, List.forall_mem_cons.mpr ⟨hline, hls⟩, hpiece⟩
      rw [joinLines_cons, ← hrest, hbytes]

/-- Lines at the front of the bytes are the first of its lines. -/
theorem joinLines_prefix {ls₁ ls : List Bytes} {behind piece : Bytes}
    (hls₁ : ∀ l ∈ ls₁, ¬ kCRLF <:+: l) (hls : ∀ l ∈ ls, ¬ kCRLF <:+: l)
    (hpiece : ¬ kCRLF <:+: piece) (h : joinLines ls₁ ++ behind = joinLines ls ++ piece) :
    ∃ ls₂, ls = ls₁ ++ ls₂ ∧ behind = joinLines ls₂ ++ piece := by
  induction ls₁ generalizing ls with
  | nil => exact ⟨ls, rfl, h⟩
  | cons line ls₁ ih =>
    rw [List.forall_mem_cons] at hls₁
    rw [joinLines_cons] at h
    cases ls with
    | nil =>
      refine absurd ?_ hpiece
      rw [show piece = line ++ (kCRLF ++ (joinLines ls₁ ++ behind)) from h.symm,
        ← List.append_assoc]
      exact ⟨line, _, rfl⟩
    | cons line' ls =>
      rw [List.forall_mem_cons] at hls
      rw [joinLines_cons] at h
      have hcut := cutLine_append hls₁.1 (joinLines ls₁ ++ behind)
      rw [h, cutLine_append hls.1] at hcut
      obtain ⟨rfl, hrest⟩ := Prod.mk.inj (Option.some.inj hcut)
      obtain ⟨ls₂, rfl, hbehind⟩ := ih hls₁.2 hls.2 hrest.symm
      exact ⟨ls₂, rfl, hbehind⟩

/-- A chunk that ends at a line holds the first lines of the stream; the chunks
behind it hold the others. -/
theorem EndsAtLine.split {state : HttpRequestParseState} {bytes behind : Bytes}
    (h : EndsAtLine state bytes behind) {ls : List Bytes} {piece : Bytes}
    (hls : ∀ l ∈ ls, ¬ kCRLF <:+: l) (hpiece : ¬ kCRLF <:+: piece)
    (hjoin : bytes ++ behind = joinLines ls ++ piece) :
    ∃ ls₁ ls₂ piece₁ piece₂, ls = ls₁ ++ ls₂ ∧ bytes = joinLines ls₁ ++ piece₁ ∧
      behind = joinLines ls₂ ++ piece₂ ∧ ¬ kCRLF <:+: piece₁ ∧ ¬ kCRLF <:+: piece₂ ∧
      ∀ l ∈ (headerLines state ls₁).dropLast, 58 ∈ l := by
  obtain ⟨ls₁, piece₁, rfl, hls₁, hwhole, hcolon⟩ := h
  rw [List.append_assoc] at hjoin
  obtain ⟨ls₂, rfl, hrest⟩ := joinLines_prefix hls₁ hls hpiece hjoin
  rcases hwhole with rfl | hnone
  · exact ⟨ls₁, ls₂, [], piece, rfl, rfl, hrest, crlf_not_infix_nil, hpiece, hcolon⟩
  · cases ls₂ with
    | nil =>
      refine ⟨ls₁, [], piece₁, behind, rfl, rfl, rfl, fun hinf => hnone ?_, fun hinf => hnone ?_,
        hcolon⟩
      · exact hinf.trans (List.prefix_append _ _).isInfix
      · exact hinf.trans (List.suffix_append _ _).isInfix
    | cons line ls₂ =>
      rw [joinLines_cons] at hrest
      refine absurd ?_ hnone
      rw [hrest, ← List.append_assoc]
      exact ⟨line, _, rfl⟩

/-! ## Two cuts -/

/-- A chunk whose request line is refused: the bad request is reported, as for the
line alone. -/
theorem refused_line {ctx : HttpContext} (hstate : ctx.state = .kExpectRequestLine)
    (hclean : Clean ctx) {c : Chunk} (h : Rejects c.bytes ∨ Spoils c.bytes) :
    ∃ line rest, c.bytes = line ++ (kCRLF ++ rest) ∧ ¬ kCRLF <:+: line ∧
      ∀ behind, ∃ ctx', receiveBytes ctx ⟨line ++ (kCRLF ++ behind), c.receiveTime⟩ =
        .ok ([.send badRequest, .shutdown], ctx') := by
  obtain ⟨line, rest, hcut⟩ : ∃ line rest, cutLine c.bytes = some (line, rest) := by
    rcases h with ⟨line, rest, hcut, _⟩ | ⟨line, rest, hcut, _⟩ <;> exact ⟨line, rest, hcut⟩
  obtain ⟨hbytes, hline⟩ := cutLine_eq_some_iff.mp hcut
  have hok := (refused_iff hcut).mp h
  exact ⟨line, rest, hbytes, hline, receiveBytes_refusedLine hstate hclean hok hline⟩

/-- It is reported whether the lines come in one chunk or in a chunk each. -/
theorem observed_refused {ctx : HttpContext} (hstate : ctx.state = .kExpectRequestLine)
    (hclean : Clean ctx) {c : Chunk} (h : Rejects c.bytes ∨ Spoils c.bytes) {ls : List Bytes}
    {behind piece : Bytes} (hls : ∀ l ∈ ls, ¬ kCRLF <:+: l) (hpiece : ¬ kCRLF <:+: piece)
    (hjoin : c.bytes ++ behind = joinLines ls ++ piece) (rest : List Chunk) :
    observed (serveBytes ctx (c :: rest)).1 =
      observed (serveBytes ctx (perLine ls c.receiveTime)).1 := by
  obtain ⟨bytes, t⟩ := c
  obtain ⟨line, rest', rfl, hline, hrecv⟩ := @refused_line ctx hstate hclean ⟨bytes, t⟩ h
  obtain ⟨ctx₁, hchunk⟩ := hrecv rest'
  obtain ⟨ctx₂, halone⟩ := hrecv []
  rw [List.append_nil] at halone
  have hfirst : joinLines [line] ++ (rest' ++ behind) = joinLines ls ++ piece := by
    rw [← hjoin]
    simp [joinLines]
  obtain ⟨ls₂, rfl, _⟩ := joinLines_prefix (by simpa using hline) hls hpiece hfirst
  simp only [perLine, List.cons_append, List.nil_append, List.map_cons, serveBytes, hchunk,
    halone]
  rfl

/-- The first line of a chunk that is not refused is a request line. -/
theorem accepted_of_not_refused {bytes line rest : Bytes} (hcut : cutLine bytes = some (line, rest))
    (h : ¬ (Rejects bytes ∨ Spoils bytes)) : (readLine line).ok = true := by
  by_contra hok
  exact h ((refused_iff hcut).mpr (Bool.eq_false_iff.mpr hok))

/-- **An aligned cut is served line by line.** Its chunks are observed to do what the
complete lines of the stream do, each in a chunk of its own. -/
theorem aligned_lines {cs : List Chunk} {ctx : HttpContext} (hwait : Waiting ctx)
    (hclean : Clean ctx) (haligned : Aligned ctx.state cs) {ls : List Bytes} {piece : Bytes}
    (hls : ∀ l ∈ ls, ¬ kCRLF <:+: l) (hpiece : ¬ kCRLF <:+: piece)
    (hjoin : (cs.map (·.bytes)).flatten = joinLines ls ++ piece) :
    ∃ ds, ds.map (·.bytes) = ls.map (· ++ kCRLF) ∧
      observed (serveBytes ctx cs).1 = observed (serveBytes ctx ds).1 := by
  induction cs generalizing ctx ls piece with
  | nil =>
    obtain ⟨hnil, rfl⟩ := List.append_eq_nil_iff.mp hjoin.symm
    have hshort := length_le_joinLines ls
    rw [hnil, List.length_nil] at hshort
    obtain rfl := List.length_eq_zero_iff.mp (Nat.le_zero.mp hshort)
    exact ⟨[], rfl, rfl⟩
  | cons c rest ih =>
    obtain ⟨bytes, t⟩ := c
    rw [List.map_cons, List.flatten_cons] at hjoin
    by_cases hrefused : ctx.state = .kExpectRequestLine ∧ (Rejects bytes ∨ Spoils bytes)
    · -- both stop at the report of the bad request
      exact ⟨perLine ls t, perLine_bytes ls t,
        @observed_refused ctx hrefused.1 hclean ⟨bytes, t⟩ hrefused.2 _ _ _ hls hpiece hjoin rest⟩
    · obtain ⟨hends, hrest⟩ := haligned.resolve_left hrefused
      obtain ⟨ls₁, ls₂, piece₁, piece₂, rfl, hbytes, hbehind, hpiece₁, hpiece₂, hcolon⟩ :=
        hends.split hls hpiece hjoin
      rw [List.forall_mem_append] at hls
      obtain ⟨actions, ctx', hrecv, hwait', hstate', hclean'⟩ :=
        receive_clean hwait hclean ⟨bytes, t⟩
      rw [← hstate'] at hrest
      obtain ⟨ds₂, hds₂, hobs⟩ := ih hwait'
        (hclean'.mpr fun h => hrefused ⟨h.1, .inr h.2⟩) hrest hls.2 hpiece₂ hbehind
      have hlines := serveBytes_lines hwait hclean hls.1 hcolon hpiece₁
        (fun hstate l hl => ?_) t
      · rw [← hbytes, serveBytes_singleton, hrecv] at hlines
        refine ⟨perLine ls₁ t ++ ds₂, ?_, ?_⟩
        · rw [List.map_append, perLine_bytes, hds₂, List.map_append]
        · rw [serveBytes_append, ← hlines]
          simp only [serveBytes, hrecv]
          exact observed_append rfl hobs
      · -- the first line is not refused
        obtain ⟨ls', rfl⟩ := List.head?_eq_some_iff.mp hl
        rw [joinLines_cons] at hbytes
        have hcut := cutLine_append (hls.1 l List.mem_cons_self) (joinLines ls' ++ piece₁)
        rw [← hbytes] at hcut
        exact accepted_of_not_refused hcut fun h => hrefused ⟨hstate, h⟩

/-- **Aligned cuts agree.** Two cuts of one stream that each lose nothing of its
complete lines lead a new connection to the same requests, and to a bad request at
the same point. -/
theorem aligned_cuts_agree {stream : Bytes} {cs ds : List Chunk} (hcs : Cuts stream cs)
    (hds : Cuts stream ds) (hcs' : Aligned .kExpectRequestLine cs)
    (hds' : Aligned .kExpectRequestLine ds) : Agree cs ds := by
  intro c hc
  obtain ⟨ls, piece, rfl, hls, hpiece⟩ := exists_lines stream
  obtain ⟨es, hes, hserved⟩ := aligned_lines waiting_init clean_init hcs' hls hpiece hcs.2
  obtain ⟨es', hes', hserved'⟩ := aligned_lines waiting_init clean_init hds' hls hpiece hds.2
  rw [(serve_new hc _).1, (serve_new hc _).1, hserved, hserved']
  exact observed_times rfl (hes.trans hes'.symm)

/-- The two writes of `client.c`, and its request in one piece. -/
theorem aligned_cuts_agree_client :
    Agree [⟨ascii "GET /index.html HTTP/1.1\r\n", 1⟩,
        ⟨ascii "Host: www.chenshuo.com\r\n\r\n", 2⟩]
      [⟨ascii "GET /index.html HTTP/1.1\r\nHost: www.chenshuo.com\r\n\r\n", 2⟩] := by
  refine @aligned_cuts_agree
    (ascii "GET /index.html HTTP/1.1\r\nHost: www.chenshuo.com\r\n\r\n") _ _ ?_ ?_ ?_ ?_
  · unfold Cuts
    decide
  · unfold Cuts
    decide
  · refine .inr ⟨⟨[ascii "GET /index.html HTTP/1.1"], [], ?_⟩, .inr ⟨⟨
      [ascii "Host: www.chenshuo.com", []], [], ?_⟩, trivial⟩⟩ <;> decide
  · refine .inr ⟨⟨[ascii "GET /index.html HTTP/1.1", ascii "Host: www.chenshuo.com", []], [], ?_⟩,
      trivial⟩
    decide

/-- One request, whole and cut in the middle of its request line: the first is
dispatched, the second is refused. -/
theorem cuts_agree_get_fails :
    Cuts (ascii "GET / HTTP/1.1\r\n\r\n") [⟨ascii "GET / HTTP/1.1\r\n\r\n", 0⟩] ∧
      Cuts (ascii "GET / HTTP/1.1\r\n\r\n")
        [⟨ascii "GET / HT", 0⟩, ⟨ascii "TP/1.1\r\n\r\n", 0⟩] ∧
      ¬ Agree [⟨ascii "GET / HTTP/1.1\r\n\r\n", 0⟩]
        [⟨ascii "GET / HT", 0⟩, ⟨ascii "TP/1.1\r\n\r\n", 0⟩] := by
  refine ⟨by unfold Cuts; decide, by unfold Cuts; decide, fun h => ?_⟩
  obtain ⟨c, hc, _, _⟩ := onConnection_spec
  have heq := h c hc
  rw [(serve_new hc _).1, (serve_new hc _).1] at heq
  revert heq
  decide

/-! ## What alignment excludes -/

/-- When the chunk arrives, `retrieveAllAsString` throws the bytes away: they are what
the loop of `parseRequest` left in the buffer. -/
def HttpConnection.Discards (c : HttpConnection) (chunk : Chunk) (bytes : Bytes) : Prop :=
  ∃ buf ok ctx buf', c.inputBuffer.append chunk.bytes = .ok buf ∧
    HttpContext.parseLoop (buf.readableBytes + 1) c.context buf chunk.receiveTime =
      .ok (ok, ctx, buf') ∧ buf'.readable = bytes

/-- Up to the first bad request, nothing is thrown away of a line that the stream
completes. -/
def HttpConnection.Keeps : HttpConnection → List Chunk → Prop
  | _, [] => True
  | c, chunk :: rest => ∀ actions c', c.receive chunk = .ok (actions, c') →
    .shutdown ∈ actions ∨
      (∀ bytes, c.Discards chunk bytes →
        bytes = [] ∨ ¬ kCRLF <:+: bytes ++ (rest.map (·.bytes)).flatten) ∧
      Keeps c' rest

/-- What the loop takes off the buffer, and what it leaves: there is no further line,
or the last one taken has ended the header block. -/
structure Takes (state : HttpRequestParseState) (bytes : Bytes) (ls : List Bytes) (left : Bytes) :
    Prop where
  bytes : bytes = joinLines ls ++ left
  crlf : ∀ l ∈ ls, ¬ kCRLF <:+: l
  colon : ∀ l ∈ (headerLines state ls).dropLast, 58 ∈ l
  stops : ¬ kCRLF <:+: left ∨ ∃ l, (headerLines state ls).getLast? = some l ∧ 58 ∉ l

section Takes

variable {buf : Buffer} {t : Timestamp}

theorem parseLoop_takes_headers {n : Nat} (r : HttpRequest) (hwf : buf.Wf)
    (hn : buf.readable.length < n) :
    ∃ ls ctx' buf', HttpContext.parseLoop n ⟨.kExpectHeaders, r⟩ buf t = .ok (true, ctx', buf') ∧
      Takes .kExpectHeaders buf.readable ls buf'.readable := by
  obtain ⟨lines, tail, hread, hlines, hnone | ⟨line, rest, hcut, hcolon⟩⟩ :=
    exists_fieldLines buf.readable
  all_goals
    have hfuel : lines.length < n := by
      have hshort := length_le_joinLines lines
      rw [hread, List.length_append] at hn
      omega
  · obtain ⟨buf', _, hleft, hloop⟩ :=
      HttpContext.parseLoop_unfinished (r := r) (t := t) hlines hfuel hwf hread hnone
    refine ⟨lines, _, buf', hloop, ?_, fun l hl => (hlines l hl).crlf,
      fun l hl => (hlines l (List.mem_of_mem_dropLast hl)).colon, .inl ?_⟩
    · rw [hleft, hread]
    · rw [hleft]
      exact cutLine_eq_none_iff.mp hnone
  · obtain ⟨rfl, hline⟩ := cutLine_eq_some_iff.mp hcut
    obtain ⟨buf', _, hleft, hloop⟩ :=
      HttpContext.parseLoop_finished (r := r) (t := t) hlines hfuel hwf hread hline hcolon
    refine ⟨lines ++ [line], _, buf', hloop, ?_, ?_, fun l hl => ?_, .inr ⟨line, ?_, hcolon⟩⟩
    · rw [hleft, hread, joinLines_concat]
    · rw [List.forall_mem_append, List.forall_mem_singleton]
      exact ⟨fun l hl => (hlines l hl).crlf, hline⟩
    · rw [headerLines, List.dropLast_concat] at hl
      exact (hlines l hl).colon
    · exact List.getLast?_concat

/-- Every call whose request line is not refused takes lines off the buffer. -/
theorem parseLoop_takes {ctx : HttpContext} (hwait : Waiting ctx) (hclean : Clean ctx)
    (hwf : buf.Wf)
    (hok : ¬ (ctx.state = .kExpectRequestLine ∧ (Rejects buf.readable ∨ Spoils buf.readable))) :
    ∃ ls ctx' buf', HttpContext.parseLoop (buf.readableBytes + 1) ctx buf t =
        .ok (true, ctx', buf') ∧
      Takes ctx.state buf.readable ls buf'.readable := by
  have hlen := hwf.length_readable
  obtain ⟨state, r⟩ := ctx
  rcases hwait with hstate | hstate <;> cases hstate
  · cases hcut : cutLine buf.readable with
    | none =>
      refine ⟨[], ⟨.kExpectRequestLine, r⟩, buf, ?_, rfl, nofun, nofun,
        .inl (cutLine_eq_none_iff.mp hcut)⟩
      simp only [HttpContext.parseLoop, findCRLF_of_none hcut]
      rfl
    | some p =>
      obtain ⟨line, rest⟩ := p
      obtain ⟨hbytes, hcrlf⟩ := cutLine_eq_some_iff.mp hcut
      obtain ⟨crlf, hfind, hslice, buf₁, hbuf₁, hwf₁, hrest⟩ := findCRLF_of_some hwf hcut
      have hline := HttpContext.processRequestLine_spec (hclean rfl) line
      have haccepted := accepted_of_not_refused hcut fun h => hok ⟨rfl, h⟩
      have hshort := cutLine_length hcut
      rw [← hrest, hlen] at hshort
      obtain ⟨ls, ctx', buf', hloop, htakes⟩ := parseLoop_takes_headers (t := t)
        (((readLine line).record r).setReceiveTime t) hwf₁ hshort
      refine ⟨line :: ls, ctx', buf', ?_, ?_, List.forall_mem_cons.mpr ⟨hcrlf, htakes.crlf⟩,
        htakes.colon, htakes.stops⟩
      · simp only [HttpContext.parseLoop, hfind, hslice, hline, haccepted, ok_bind, if_true, hbuf₁]
        exact hloop
      · rw [joinLines_cons, ← htakes.bytes, hrest, hbytes]
  · exact parseLoop_takes_headers r hwf (by omega)

end Takes

theorem headerLines_append {state : HttpRequestParseState} {ls : List Bytes} (ls' : List Bytes)
    (h : headerLines state ls ≠ []) :
    headerLines state (ls ++ ls') = headerLines state ls ++ ls' := by
  cases ls with
  | nil => cases state <;> exact absurd rfl h
  | cons line ls => cases state <;> rfl

/-- What is left behind the lines taken is no part of a line that the stream
completes if and only if the chunk ends at a line. -/
theorem Takes.endsAtLine_iff {state : HttpRequestParseState} {bytes left : Bytes}
    {ls : List Bytes} (h : Takes state bytes ls left) (behind : Bytes) :
    EndsAtLine state bytes behind ↔ left = [] ∨ ¬ kCRLF <:+: left ++ behind := by
  constructor
  · intro hends
    obtain ⟨ls', piece, hbytes, hls', hwhole, hcolon⟩ := hends
    have hpiece : ¬ kCRLF <:+: piece := by
      rcases hwhole with rfl | hnone
      · exact crlf_not_infix_nil
      · exact fun hinf => hnone (hinf.trans (List.prefix_append _ _).isInfix)
    obtain ⟨ls₂, rfl, hleft⟩ := joinLines_prefix h.crlf hls' hpiece (h.bytes.symm.trans hbytes)
    cases ls₂ with
    | nil =>
      obtain rfl : left = piece := hleft
      exact hwhole
    | cons next ls₂ =>
      -- the loop stopped before the next line, at one that is not the last
      rcases h.stops with hnone | ⟨l, hlast, hl⟩
      · refine absurd ?_ hnone
        rw [hleft, joinLines_cons, ← List.append_assoc]
        exact ⟨next, _, rfl⟩
      · refine absurd (hcolon l ?_) hl
        obtain ⟨front, hfront⟩ := List.getLast?_eq_some_iff.mp hlast
        rw [headerLines_append _ (by simp [hfront]), List.dropLast_append_of_ne_nil (by simp),
          hfront]
        simp
  · intro hwhole
    exact ⟨ls, left, h.bytes, h.crlf, hwhole, h.colon⟩

/-- A chunk is answered by a half-close if and only if its request line is refused. -/
theorem shutdown_mem_iff {ctx ctx' : HttpContext} (hwait : Waiting ctx) (hclean : Clean ctx)
    {chunk : Chunk} {actions : List Action} (h : receiveBytes ctx chunk = .ok (actions, ctx')) :
    .shutdown ∈ actions ↔
      ctx.state = .kExpectRequestLine ∧ (Rejects chunk.bytes ∨ Spoils chunk.bytes) := by
  obtain ⟨ok, ctx₁, hparse, hok, _⟩ := parse_clean hwait hclean chunk.bytes chunk.receiveTime
  rw [← hok]
  rw [receiveBytes_eq_settle, hparse] at h
  obtain rfl : (HttpContext.settle ok ctx₁).1 = actions := congrArg Prod.fst (Except.ok.inj h)
  cases ok <;> by_cases hgot : ctx₁.gotAll = true <;> simp [HttpContext.settle, hgot]

/-- **What alignment excludes.** A cut is aligned if and only if, up to the first bad
request, no call throws away bytes of a line that the stream completes. -/
theorem aligned_iff_keeps {c : HttpConnection} (hc : c.Drained) (hwait : Waiting c.context)
    (hclean : Clean c.context) (chunks : List Chunk) :
    Aligned c.context.state chunks ↔ c.Keeps chunks := by
  induction chunks generalizing c with
  | nil => exact Iff.rfl
  | cons chunk rest ih =>
    obtain ⟨actions, ctx', hrecv, hwait', hstate', hclean'⟩ := receive_clean hwait hclean chunk
    obtain ⟨c', hreceive, rfl, hc'⟩ := (receive_spec hc chunk).2 actions ctx' hrecv
    have hkeeps : c.Keeps (chunk :: rest) ↔ .shutdown ∈ actions ∨
        (∀ bytes, c.Discards chunk bytes →
          bytes = [] ∨ ¬ kCRLF <:+: bytes ++ (rest.map (·.bytes)).flatten) ∧ c'.Keeps rest := by
      refine ⟨fun h => h _ _ hreceive, fun h as d hd => ?_⟩
      cases hreceive.symm.trans hd
      exact h
    rw [hkeeps, shutdown_mem_iff hwait hclean hrecv, Aligned, ← hstate']
    by_cases hrefused :
        c.context.state = .kExpectRequestLine ∧ (Rejects chunk.bytes ∨ Spoils chunk.bytes)
    · exact ⟨fun _ => .inl hrefused, fun _ => .inl hrefused⟩
    · obtain ⟨buf, hbuf, hbec⟩ := append_spec hc.wf chunk.bytes
      have hread : buf.readable = chunk.bytes := by rw [hbec.holds, hc.empty, List.nil_append]
      obtain ⟨ls, ctx₂, buf', hloop, htakes⟩ := parseLoop_takes (t := chunk.receiveTime)
        hwait hclean hbec.wf (by rw [hread]; exact hrefused)
      rw [hread] at htakes
      have hleft : ∀ bytes, c.Discards chunk bytes ↔ bytes = buf'.readable := by
        intro bytes
        constructor
        · intro h
          obtain ⟨buf₂, ok, ctx₃, buf₃, hbuf₂, hloop₂, rfl⟩ := h
          cases hbuf.symm.trans hbuf₂
          cases hloop.symm.trans hloop₂
          rfl
        · rintro rfl
          exact ⟨buf, true, ctx₂, buf', hbuf, hloop, rfl⟩
      simp only [hleft, forall_eq]
      rw [htakes.endsAtLine_iff, ih hc' hwait' (hclean'.mpr fun h => hrefused ⟨h.1, .inr h.2⟩)]

/-- Losing part of a line need not show: a line without a space is a bad request
wherever it is cut, and a cut inside it is not aligned. -/
theorem agree_of_spaceless {front back : Bytes} (hfront : front ≠ [])
    (hcrlf : ¬ kCRLF <:+: front ++ back) (hspace : 32 ∉ front ++ back) :
    Agree [⟨front ++ back ++ kCRLF, 0⟩] [⟨front, 0⟩, ⟨back ++ kCRLF, 0⟩] ∧
      ¬ Aligned .kExpectRequestLine [⟨front, 0⟩, ⟨back ++ kCRLF, 0⟩] := by
  have hquiet : ¬ kCRLF <:+: front := fun h => hcrlf (h.trans (List.prefix_append _ _).isInfix)
  have hback : ¬ kCRLF <:+: back := fun h => hcrlf (h.trans (List.suffix_append _ _).isInfix)
  have hrefused : ∀ line, 32 ∉ line → (readLine line).ok = false := fun line hline => by
    rw [readLine_eq_noMethod_iff.mpr hline]
    rfl
  constructor
  · intro c hc
    obtain ⟨ctx₁, hwhole⟩ := @receiveBytes_refusedLine _ 0 .init rfl clean_init
      (hrefused _ hspace) hcrlf []
    obtain ⟨ctx₂, hlast⟩ := @receiveBytes_refusedLine _ 0 .init rfl clean_init
      (hrefused back fun h => hspace (List.mem_append_right _ h)) hback []
    have hfirst := @receiveBytes_quiet .init waiting_init ⟨front, 0⟩ hquiet
    rw [List.append_nil] at hwhole hlast
    rw [(serve_new hc _).1, (serve_new hc _).1]
    simp only [serveBytes, hwhole, hfirst, hlast, List.nil_append]
  · rintro (⟨_, hfirst⟩ | ⟨⟨ls, piece, hbytes, hls, hpiece, _⟩, _⟩)
    · rcases hfirst with ⟨line, rest, hcut, _⟩ | ⟨line, rest, hcut, _⟩ <;>
        exact absurd hcut (by simp [cutLine_eq_none_iff.mpr hquiet])
    · cases ls with
      | nil =>
        obtain rfl : front = piece := hbytes
        rcases hpiece with rfl | hpiece
        · exact hfront rfl
        · refine hpiece ⟨front ++ back, [], ?_⟩
          simp
      | cons line ls =>
        rw [joinLines_cons, ← List.append_assoc] at hbytes
        exact hquiet ⟨line, _, hbytes.symm⟩

/-! ## Cutting a stream byte by byte -/

theorem serveBytes_quiet {ctx : HttpContext} (hwait : Waiting ctx)
    {chunks : List Chunk} (hquiet : ∀ c ∈ chunks, ¬ kCRLF <:+: c.bytes) :
    serveBytes ctx chunks = ([], .ok ctx) := by
  induction chunks with
  | nil => rfl
  | cons chunk rest ih =>
    have hhead := receiveBytes_quiet hwait (hquiet chunk List.mem_cons_self)
    have hrest := ih fun c hc => hquiet c (List.mem_cons_of_mem _ hc)
    simp only [serveBytes, hhead, hrest, List.nil_append]

/-- A chunk of a stream without a CRLF has none either. -/
theorem Cuts.quiet {stream : Bytes} {chunks : List Chunk} (h : Cuts stream chunks)
    (hstream : ¬ kCRLF <:+: stream) : ∀ c ∈ chunks, ¬ kCRLF <:+: c.bytes := by
  intro c hc hinf
  apply hstream
  apply hinf.trans
  rw [← h.2]
  exact List.infix_of_mem_flatten (List.mem_map_of_mem hc)

/-- One chunk per byte. -/
def singles (bytes : Bytes) : List Chunk := bytes.map fun b => ⟨[b], 0⟩

theorem cuts_singles (bytes : Bytes) : Cuts bytes (singles bytes) := by
  constructor
  · intro c hc
    obtain ⟨b, _, rfl⟩ := List.mem_map.mp hc
    exact List.cons_ne_nil b []
  · induction bytes with
    | nil => rfl
    | cons b rest ih =>
      simp only [singles, List.map_cons, List.flatten_cons] at ih ⊢
      rw [ih]
      rfl

/-- A byte is no CRLF. -/
theorem singles_quiet (bytes : Bytes) : ∀ c ∈ singles bytes, ¬ kCRLF <:+: c.bytes := by
  intro c hc hinf
  obtain ⟨b, _, rfl⟩ := List.mem_map.mp hc
  have hlen := hinf.length_le
  simp only [kCRLF, List.length_cons, List.length_nil] at hlen
  omega

/-- A CRLF alone, where a request line is expected, is a bad request. -/
theorem receiveBytes_bare {ctx : HttpContext} (hstate : ctx.state = .kExpectRequestLine) :
    receiveBytes ctx ⟨kCRLF, 0⟩ = .ok ([.send badRequest, .shutdown], ctx) := by
  have hcut : cutLine kCRLF = some ([], []) := by decide
  obtain ⟨state, request⟩ := ctx
  cases hstate
  exact receiveBytes_refused rfl (HttpContext.parseBytes_refused rfl hcut rfl)

/-- The cut that leaves a CRLF of the stream in a chunk of its own reports a bad
request. -/
theorem observed_bare (before after : Bytes) :
    observed (serveBytes .init (singles before ++ ⟨kCRLF, 0⟩ :: singles after)).1 ≠ [] := by
  have hbefore : serveBytes .init (singles before) = ([], .ok .init) :=
    serveBytes_quiet waiting_init (singles_quiet before)
  rw [serveBytes_append, hbefore]
  simp only [serveBytes, receiveBytes_bare HttpContext.state_init]
  simp [observed, upToBad]

/-- **When all cuts of a stream agree.** The input path is independent of where the
stream is cut if and only if the stream holds no CRLF, so that no cut ever
completes a line. -/
theorem splitInvariant_iff (stream : Bytes) : SplitInvariant stream ↔ ¬ kCRLF <:+: stream := by
  obtain ⟨c, hc, _, _⟩ := onConnection_spec
  constructor
  · intro h hcrlf
    obtain ⟨before, after, hstream⟩ := hcrlf
    have hbare : Cuts stream (singles before ++ ⟨kCRLF, 0⟩ :: singles after) := by
      constructor
      · intro d hd
        rcases List.mem_append.mp hd with hd | hd
        · exact (cuts_singles before).1 d hd
        · rcases List.mem_cons.mp hd with rfl | hd
          · exact List.cons_ne_nil _ _
          · exact (cuts_singles after).1 d hd
      · rw [← hstream, List.map_append, List.flatten_append, List.map_cons, List.flatten_cons,
          (cuts_singles before).2, (cuts_singles after).2, List.append_assoc]
    have heq := h _ _ hbare (cuts_singles stream) c hc
    rw [(serve_new hc _).1, (serve_new hc _).1,
      serveBytes_quiet waiting_init (singles_quiet stream)] at heq
    exact observed_bare before after heq
  · intro hstream cs ds hcs hds c' hc'
    rw [(serve_new hc' _).1, (serve_new hc' _).1,
      serveBytes_quiet waiting_init (hcs.quiet hstream),
      serveBytes_quiet waiting_init (hds.quiet hstream)]

end ClyServer.Http
