import ClyServer.Http.HttpServer
import ClyServer.Net.BufferQueue

/-!
# The parser as a function of the bytes

`parseRequest` works on a buffer; what it does depends on the readable bytes
alone, and it leaves none of them. `parseBytes` is the same loop on a byte
string, `receiveBytes` and `serveBytes` are `receive` and `serve` on contexts,
and `serve_spec` says that a connection whose input buffer is empty goes
through the same actions and contexts as they do. Everything else about the
HTTP input path is proved of the byte-level functions.
-/

namespace ClyServer.Http

open ClyServer.Lib ClyServer.Net ClyServer.Net.Buffer

/-! ## Lines -/

/-- The first line, less its CRLF, and what follows it. -/
def cutLine (bytes : Bytes) : Option (Bytes × Bytes) :=
  (search kCRLF bytes).map fun i => (bytes.take i, bytes.drop (i + 2))

theorem cutLine_eq_none_iff {bytes : Bytes} : cutLine bytes = none ↔ ¬ kCRLF <:+: bytes := by
  rw [cutLine, Option.map_eq_none_iff, search_eq_none_iff]

/-- A line takes its CRLF with it. -/
theorem cutLine_length {bytes line rest : Bytes} (h : cutLine bytes = some (line, rest)) :
    rest.length < bytes.length := by
  obtain ⟨i, hi, heq⟩ := Option.map_eq_some_iff.mp h
  have hle : i + kCRLF.length ≤ bytes.length := (search_spec hi).2
  cases heq
  rw [List.length_drop]
  simp only [kCRLF, List.length_cons, List.length_nil] at hle
  omega

/-- Without a CRLF in the readable bytes `findCRLF` answers `NULL`. -/
theorem findCRLF_of_none {b : Buffer} (h : cutLine b.readable = none) : b.findCRLF = none := by
  rw [findCRLF, Option.map_eq_none_iff]
  exact Option.map_eq_none_iff.mp h

/-- With one, it answers the end of the first line, and retrieving past it
leaves the rest. -/
theorem findCRLF_of_some {b : Buffer} (hwf : b.Wf) {line rest : Bytes}
    (h : cutLine b.readable = some (line, rest)) :
    ∃ crlf, b.findCRLF = some crlf ∧ slice b.buffer b.peek crlf = line ∧
      ∃ b', b.retrieveUntil (crlf + 2) = .ok b' ∧ b'.Wf ∧ b'.readable = rest := by
  obtain ⟨i, hi, heq⟩ := Option.map_eq_some_iff.mp h
  cases heq
  have hfit : i + kCRLF.length ≤ b.readable.length := (search_spec hi).2
  rw [hwf.length_readable] at hfit
  have hwin : i + 2 ≤ b.writerIndex - b.readerIndex := hfit
  refine ⟨b.peek + i, ?_, ?_, ?_⟩
  · rw [findCRLF, hi]
    rfl
  · unfold peek readable
    rw [slice_take (show b.readerIndex + i ≤ b.writerIndex by omega), Nat.add_sub_cancel_left]
  · have hfirst : b.peek ≤ b.peek + i + 2 := by omega
    have hlast : b.peek + i + 2 ≤ b.beginWrite := by
      unfold peek beginWrite
      omega
    obtain ⟨b', hb', hbec⟩ := retrieveUntil_spec hwf hfirst hlast
    refine ⟨b', hb', hbec.wf, ?_⟩
    rw [hbec.holds]
    congr 1
    omega

/-! ## What a request line says -/

/-- How far a request line gets: no space in it, a token that names no method,
no second space, a bad version, or all of it. -/
inductive LineReading where
  | noMethod
  | unknown
  | noVersion (m : Method)
  | badVersion (m : Method) (url : Bytes)
  | accepted (m : Method) (url : Bytes) (v : Version)
  deriving DecidableEq, Repr

/-- The request line read, without a record to write into. -/
def readLine (line : Bytes) : LineReading :=
  match splitFirst 32 line with
  | none => .noMethod
  | some (m, rest) =>
    if methodOf m = .kInvalid then .unknown
    else
      match splitFirst 32 rest with
      | none => .noVersion (methodOf m)
      | some (url, tail) =>
        match HttpContext.versionOf tail with
        | none => .badVersion (methodOf m) url
        | some v => .accepted (methodOf m) url v

/-- The part of a target before its first `?`. -/
def pathOf (url : Bytes) : Bytes := ((splitFirst 63 url).map (·.1)).getD url

/-- The part of a target from its first `?` on, if it has one. -/
def queryOf (url : Bytes) : Option Bytes := (splitFirst 63 url).map fun p => 63 :: p.2

theorem queryOf_isSome_iff {url : Bytes} : (queryOf url).isSome ↔ 63 ∈ url := by
  rw [queryOf, Option.isSome_map, Option.isSome_iff_ne_none, Ne, splitFirst_eq_none_iff,
    Decidable.not_not]

/-- A query that is there is not empty: it starts with its `?`. -/
theorem queryOf_ne_nil {url q : Bytes} (h : queryOf url = some q) : q ≠ [] := by
  obtain ⟨p, _, rfl⟩ := Option.map_eq_some_iff.mp h
  exact List.cons_ne_nil _ _

namespace LineReading

/-- Whether `processRequestLine` answers true. -/
def ok : LineReading → Bool
  | accepted _ _ _ => true
  | _ => false

/-- The record after the line. What came before the part that failed is written. -/
def record (r : HttpRequest) : LineReading → HttpRequest
  | noMethod => r
  | unknown => { r with method := .kInvalid }
  | noVersion m => { r with method := m }
  | badVersion m url =>
    { r with method := m, path := pathOf url, query := (queryOf url).getD r.query }
  | accepted m url v =>
    { r with method := m, path := pathOf url, query := (queryOf url).getD r.query, version := v }

end LineReading

namespace HttpContext

/-- A line without a space does not reach `setMethod`. -/
theorem processRequestLine_noMethod {r : HttpRequest} {line : Bytes}
    (h : readLine line = .noMethod) : processRequestLine r line = .ok (false, r) := by
  unfold readLine at h
  unfold processRequestLine
  cases hspace : splitFirst 32 line with
  | none => rfl
  | some p =>
    obtain ⟨m, rest⟩ := p
    rw [hspace] at h
    dsimp only at h
    split at h
    · cases h
    · split at h
      · cases h
      · split at h <;> cases h

/-- Any other line does, and there a method already set is an assertion failed. -/
theorem processRequestLine_assert {r : HttpRequest} {line : Bytes}
    (h : readLine line ≠ .noMethod) (hr : r.method ≠ .kInvalid) :
    processRequestLine r line = .error (.assertion .setMethod) := by
  unfold readLine at h
  unfold processRequestLine
  cases hspace : splitFirst 32 line with
  | none =>
    rw [hspace] at h
    exact absurd rfl h
  | some p =>
    simp only [HttpRequest.setMethod, check_neg hr]
    rfl

/-- With no method set, the line is read and the record says how far it got. -/
theorem processRequestLine_spec {r : HttpRequest} (hr : r.method = .kInvalid) (line : Bytes) :
    processRequestLine r line = .ok ((readLine line).ok, (readLine line).record r) := by
  unfold readLine processRequestLine
  cases splitFirst 32 line with
  | none => rfl
  | some p =>
    obtain ⟨m, rest⟩ := p
    simp only [HttpRequest.setMethod, check_pos hr, ok_bind, pure_eq_ok]
    by_cases hm : methodOf m = .kInvalid
    · simp [hm, LineReading.ok, LineReading.record]
    · simp only [hm, ne_eq, not_false_eq_true, decide_true, if_true, if_false]
      cases splitFirst 32 rest with
      | none => rfl
      | some q =>
        obtain ⟨url, tail⟩ := q
        dsimp only
        cases versionOf tail with
        | none =>
          cases hq : splitFirst 63 url with
          | none =>
            simp [LineReading.ok, LineReading.record, pathOf, queryOf, hq, HttpRequest.setPath]
          | some u =>
            simp [LineReading.ok, LineReading.record, pathOf, queryOf, hq, HttpRequest.setPath,
              HttpRequest.setQuery]
        | some v =>
          cases hq : splitFirst 63 url with
          | none =>
            simp [LineReading.ok, LineReading.record, pathOf, queryOf, hq, HttpRequest.setPath,
              HttpRequest.setVersion]
          | some u =>
            simp [LineReading.ok, LineReading.record, pathOf, queryOf, hq, HttpRequest.setPath,
              HttpRequest.setQuery, HttpRequest.setVersion]

end HttpContext

/-! ## The loop on bytes -/

namespace HttpContext

/-- `parseLoop` on a byte string. What the loop leaves unread is not returned:
`parseRequest` throws it away. -/
def parseLines : Nat → HttpContext → Bytes → Timestamp → Checked (Bool × HttpContext)
  | 0, _, _, _ => .error .diverged
  | n + 1, ctx, bytes, t =>
    match ctx.state with
    | .kExpectRequestLine =>
      match cutLine bytes with
      | some (line, rest) => do
        let (ok, request) ← processRequestLine ctx.request line
        if ok then parseLines n ⟨.kExpectHeaders, request.setReceiveTime t⟩ rest t
        else return (false, { ctx with request := request })
      | none => return (true, ctx)
    | .kExpectHeaders =>
      match cutLine bytes with
      | some (line, rest) =>
        match splitFirst 58 line with
        | some (field, value) =>
          parseLines n { ctx with request := ctx.request.addHeader field value } rest t
        | none => return (true, { ctx with state := .kGotAll })
      | none => return (true, ctx)
    | .kExpectBody => parseLines n ctx bytes t
    | .kGotAll => parseLines n ctx bytes t

theorem state_init : HttpContext.init.state = .kExpectRequestLine := rfl

/-- `parseRequest` on a byte string. -/
def parseBytes (ctx : HttpContext) (bytes : Bytes) (t : Timestamp) : Checked (Bool × HttpContext) :=
  parseLines (bytes.length + 1) ctx bytes t

/-! The first round where a request line is expected: no line yet, a fault in the
line, a line refused, a line accepted. -/

section RequestLine

variable {ctx : HttpContext} {bytes line rest : Bytes} {t : Timestamp} {request : HttpRequest}

theorem parseBytes_incomplete (hstate : ctx.state = .kExpectRequestLine)
    (hcut : cutLine bytes = none) : ctx.parseBytes bytes t = .ok (true, ctx) := by
  simp [parseBytes, parseLines, hstate, hcut]

theorem parseBytes_fault {e : Fault} (hstate : ctx.state = .kExpectRequestLine)
    (hcut : cutLine bytes = some (line, rest))
    (hline : processRequestLine ctx.request line = .error e) :
    ctx.parseBytes bytes t = .error e := by
  simp only [parseBytes, parseLines, hstate, hcut, hline]
  rfl

theorem parseBytes_refused (hstate : ctx.state = .kExpectRequestLine)
    (hcut : cutLine bytes = some (line, rest))
    (hline : processRequestLine ctx.request line = .ok (false, request)) :
    ctx.parseBytes bytes t = .ok (false, ⟨.kExpectRequestLine, request⟩) := by
  simp only [parseBytes, parseLines, hstate, hcut, hline]
  rfl

theorem parseBytes_accepted (hstate : ctx.state = .kExpectRequestLine)
    (hcut : cutLine bytes = some (line, rest))
    (hline : processRequestLine ctx.request line = .ok (true, request)) :
    ctx.parseBytes bytes t =
      parseLines bytes.length ⟨.kExpectHeaders, request.setReceiveTime t⟩ rest t := by
  simp only [parseBytes, parseLines, hstate, hcut, hline]
  rfl

end RequestLine

/-- The header lines of a byte string, folded into a map: the state the block
leaves the parser in, and the map. -/
def readHeaders : Nat → HeaderMap → Bytes → HttpRequestParseState × HeaderMap
  | 0, headers, _ => (.kExpectHeaders, headers)
  | n + 1, headers, bytes =>
    match cutLine bytes with
    | none => (.kExpectHeaders, headers)
    | some (line, rest) =>
      match splitFirst 58 line with
      | none => (.kGotAll, headers)
      | some (field, value) =>
        readHeaders n (headers.set field ((value.dropWhile isspace).rdropWhile isspace)) rest

/-- The header part of the loop: it always ends, refuses nothing and writes
nothing but headers. -/
theorem parseLines_headers {n : Nat} (r : HttpRequest) {bytes : Bytes} (t : Timestamp)
    (hn : bytes.length < n) :
    parseLines n ⟨.kExpectHeaders, r⟩ bytes t =
      .ok (true, ⟨(readHeaders n r.headers bytes).1,
        { r with headers := (readHeaders n r.headers bytes).2 }⟩) := by
  induction n generalizing r bytes with
  | zero => exact absurd hn (Nat.not_lt_zero _)
  | succ n ih =>
    unfold parseLines readHeaders
    cases hcut : cutLine bytes with
    | none => rfl
    | some p =>
      obtain ⟨line, rest⟩ := p
      dsimp only
      cases splitFirst 58 line with
      | none => rfl
      | some f =>
        obtain ⟨field, value⟩ := f
        have hlen := cutLine_length hcut
        exact ih (r.addHeader field value) (by omega)

/-- Two loops that answered the same have ended alike. -/
theorem endAlike_ok {ok : Bool} {ctx : HttpContext} {buf : Buffer} (hwf : buf.Wf) :
    (∀ e, (.ok (ok, ctx) : Checked (Bool × HttpContext)) = .error e →
      (.ok (ok, ctx, buf) : Checked (Bool × HttpContext × Buffer)) = .error e) ∧
    (∀ ok' ctx', (.ok (ok, ctx) : Checked (Bool × HttpContext)) = .ok (ok', ctx') →
      ∃ buf', (.ok (ok, ctx, buf) : Checked (Bool × HttpContext × Buffer)) =
        .ok (ok', ctx', buf') ∧ buf'.Wf) := by
  refine ⟨fun _ h => (nomatch h), fun ok' ctx' h => ?_⟩
  cases h
  exact ⟨buf, rfl, hwf⟩

/-- The loop on a buffer and the loop on its readable bytes end alike. -/
theorem parseLoop_spec (n : Nat) (ctx : HttpContext) {buf : Buffer} (hwf : buf.Wf)
    (t : Timestamp) :
    (∀ e, parseLines n ctx buf.readable t = .error e → parseLoop n ctx buf t = .error e) ∧
    (∀ ok ctx', parseLines n ctx buf.readable t = .ok (ok, ctx') →
      ∃ buf', parseLoop n ctx buf t = .ok (ok, ctx', buf') ∧ buf'.Wf) := by
  induction n generalizing ctx buf with
  | zero => exact ⟨fun _ h => by cases h; rfl, fun _ _ h => nomatch h⟩
  | succ n ih =>
    unfold parseLines parseLoop
    cases hstate : ctx.state with
    | kExpectRequestLine =>
      cases hcut : cutLine buf.readable with
      | none =>
        simp only [findCRLF_of_none hcut]
        exact endAlike_ok hwf
      | some p =>
        obtain ⟨line, rest⟩ := p
        obtain ⟨crlf, hcrlf, hline, buf', hbuf', hwf', hrest⟩ := findCRLF_of_some hwf hcut
        simp only [hcrlf, hline]
        cases processRequestLine ctx.request line with
        | error e => exact ⟨fun _ h => by cases h; rfl, fun _ _ h => nomatch h⟩
        | ok q =>
          obtain ⟨ok, request⟩ := q
          cases ok with
          | false => exact endAlike_ok hwf
          | true =>
            simp only [ok_bind, hbuf', if_true]
            rw [← hrest]
            exact ih _ hwf'
    | kExpectHeaders =>
      cases hcut : cutLine buf.readable with
      | none =>
        simp only [findCRLF_of_none hcut]
        exact endAlike_ok hwf
      | some p =>
        obtain ⟨line, rest⟩ := p
        obtain ⟨crlf, hcrlf, hline, buf', hbuf', hwf', hrest⟩ := findCRLF_of_some hwf hcut
        simp only [hcrlf, hline]
        cases splitFirst 58 line with
        | none =>
          simp only [hbuf', ok_bind]
          exact endAlike_ok hwf'
        | some q =>
          obtain ⟨field, value⟩ := q
          simp only [hbuf', ok_bind]
          rw [← hrest]
          exact ih _ hwf'
    | kExpectBody => exact ih _ hwf
    | kGotAll => exact ih _ hwf

/-- **`parseRequest` reads the readable bytes and leaves none.** -/
theorem parseRequest_spec (ctx : HttpContext) {buf : Buffer} (hwf : buf.Wf) (t : Timestamp) :
    (∀ e, parseBytes ctx buf.readable t = .error e → ctx.parseRequest buf t = .error e) ∧
    (∀ ok ctx', parseBytes ctx buf.readable t = .ok (ok, ctx') →
      ∃ buf', ctx.parseRequest buf t = .ok (ok, ctx', buf') ∧ buf'.Wf ∧ buf'.readable = []) := by
  obtain ⟨herr, hok⟩ := parseLoop_spec (buf.readableBytes + 1) ctx hwf t
  unfold parseBytes parseRequest
  rw [hwf.length_readable]
  constructor
  · intro e he
    rw [herr e he]
    rfl
  · intro ok ctx' h
    obtain ⟨buf₁, h₁, hwf₁⟩ := hok ok ctx' h
    obtain ⟨buf₂, h₂, hbec⟩ := retrieveAsString_spec hwf₁ (Nat.le_refl _)
    refine ⟨buf₂, ?_, hbec.wf, ?_⟩
    · simp only [h₁, ok_bind, retrieveAllAsString, h₂]
      rfl
    · rw [hbec.holds, List.drop_eq_nil_iff, hwf₁.length_readable]

end HttpContext

/-! ## Chunks on contexts -/

/-- `receive` on a context. -/
def receiveBytes (ctx : HttpContext) (chunk : Chunk) : Checked (List Action × HttpContext) := do
  let (ok, ctx) ← ctx.parseBytes chunk.bytes chunk.receiveTime
  let refused := if ok then [] else [.send badRequest, .shutdown]
  if ctx.gotAll then return (refused ++ [.onRequest ctx.request], ctx.reset)
  else return (refused, ctx)

section Receive

variable {ctx ctx' : HttpContext} {chunk : Chunk}

theorem receiveBytes_fault {e : Fault}
    (h : ctx.parseBytes chunk.bytes chunk.receiveTime = .error e) :
    receiveBytes ctx chunk = .error e := by
  simp only [receiveBytes, h]
  rfl

theorem receiveBytes_refused (hstate : ctx'.state = .kExpectRequestLine)
    (h : ctx.parseBytes chunk.bytes chunk.receiveTime = .ok (false, ctx')) :
    receiveBytes ctx chunk = .ok ([.send badRequest, .shutdown], ctx') := by
  simp [receiveBytes, h, HttpContext.gotAll, hstate]

theorem receiveBytes_waiting (hstate : ctx'.gotAll = false)
    (h : ctx.parseBytes chunk.bytes chunk.receiveTime = .ok (true, ctx')) :
    receiveBytes ctx chunk = .ok ([], ctx') := by
  simp [receiveBytes, h, hstate]

theorem receiveBytes_complete (hstate : ctx'.gotAll = true)
    (h : ctx.parseBytes chunk.bytes chunk.receiveTime = .ok (true, ctx')) :
    receiveBytes ctx chunk = .ok ([.onRequest ctx'.request], ctx'.reset) := by
  simp [receiveBytes, h, hstate]

end Receive

/-- `serve` on contexts. -/
def serveBytes (ctx : HttpContext) : List Chunk → List Action × Checked HttpContext
  | [] => ([], .ok ctx)
  | chunk :: rest =>
    match receiveBytes ctx chunk with
    | .error e => ([], .error e)
    | .ok (actions, ctx') => (actions ++ (serveBytes ctx' rest).1, (serveBytes ctx' rest).2)

/-- A connection between chunks: its input buffer is in order and empty. -/
structure HttpConnection.Drained (c : HttpConnection) : Prop where
  wf : c.inputBuffer.Wf
  empty : c.inputBuffer.readable = []

/-- One chunk: the connection does what its context does, and is drained again. -/
theorem receive_spec {c : HttpConnection} (hc : c.Drained) (chunk : Chunk) :
    (∀ e, receiveBytes c.context chunk = .error e → c.receive chunk = .error e) ∧
    (∀ actions ctx, receiveBytes c.context chunk = .ok (actions, ctx) →
      ∃ c', c.receive chunk = .ok (actions, c') ∧ c'.context = ctx ∧ c'.Drained) := by
  obtain ⟨buf, hbuf, hbec⟩ := append_spec hc.wf chunk.bytes
  have hread : buf.readable = chunk.bytes := by rw [hbec.holds, hc.empty, List.nil_append]
  obtain ⟨herr, hok⟩ := HttpContext.parseRequest_spec c.context hbec.wf chunk.receiveTime
  rw [hread] at herr hok
  unfold receiveBytes HttpConnection.receive HttpConnection.onMessage
  rw [hbuf, ok_bind]
  cases hparse : c.context.parseBytes chunk.bytes chunk.receiveTime with
  | error e =>
    simp only [herr e hparse]
    exact ⟨fun _ h => by cases h; rfl, fun _ _ h => nomatch h⟩
  | ok p =>
    obtain ⟨ok, ctx⟩ := p
    obtain ⟨buf', hbuf', hwf', hempty'⟩ := hok ok ctx hparse
    simp only [hbuf', ok_bind]
    by_cases hgot : ctx.gotAll = true
    · simp only [hgot, if_true]
      refine ⟨fun _ h => (nomatch h), fun actions ctx' h => ?_⟩
      cases h
      exact ⟨_, rfl, rfl, hwf', hempty'⟩
    · simp only [if_neg hgot]
      refine ⟨fun _ h => (nomatch h), fun actions ctx' h => ?_⟩
      cases h
      exact ⟨_, rfl, rfl, hwf', hempty'⟩

/-- **A connection is its context.** From a drained connection, any chunks lead
to the actions, and to the context or the fault, that they lead its context to. -/
theorem serve_spec {c : HttpConnection} (hc : c.Drained) (chunks : List Chunk) :
    (c.serve chunks).1 = (serveBytes c.context chunks).1 ∧
    (∀ e, (serveBytes c.context chunks).2 = .error e → (c.serve chunks).2 = .error e) ∧
    (∀ ctx, (serveBytes c.context chunks).2 = .ok ctx →
      ∃ c', (c.serve chunks).2 = .ok c' ∧ c'.context = ctx ∧ c'.Drained) := by
  induction chunks generalizing c with
  | nil =>
    refine ⟨rfl, fun _ h => (nomatch h), fun ctx h => ?_⟩
    cases h
    exact ⟨c, rfl, rfl, hc⟩
  | cons chunk rest ih =>
    obtain ⟨herr, hok⟩ := receive_spec hc chunk
    unfold HttpConnection.serve serveBytes
    cases hrecv : receiveBytes c.context chunk with
    | error e =>
      rw [herr e hrecv]
      exact ⟨rfl, fun _ h => by cases h; rfl, fun _ h => nomatch h⟩
    | ok p =>
      obtain ⟨actions, ctx⟩ := p
      obtain ⟨c', hc', rfl, hdrained⟩ := hok actions ctx hrecv
      obtain ⟨hacts, herr', hok'⟩ := ih hdrained
      rw [hc']
      exact ⟨congrArg (actions ++ ·) hacts, herr', hok'⟩

/-- A connection after `onConnection` is drained and holds a fresh context. -/
theorem onConnection_spec :
    ∃ c, HttpConnection.onConnection = .ok c ∧ c.Drained ∧ c.context = .init := by
  obtain ⟨b, hb, hwf, hempty, _⟩ := init_spec kInitialSize
  refine ⟨⟨b, .init⟩, ?_, ⟨hwf, hempty⟩, rfl⟩
  simp only [HttpConnection.onConnection, hb, ok_bind]
  rfl

/-- A new connection goes through what a fresh context goes through. -/
theorem serve_new {c : HttpConnection} (hc : HttpConnection.onConnection = .ok c)
    (chunks : List Chunk) :
    (c.serve chunks).1 = (serveBytes .init chunks).1 ∧
    (∀ e, (serveBytes .init chunks).2 = .error e → (c.serve chunks).2 = .error e) ∧
    (∀ ctx, (serveBytes .init chunks).2 = .ok ctx →
      ∃ c', (c.serve chunks).2 = .ok c' ∧ c'.context = ctx ∧ c'.Drained) := by
  obtain ⟨c', hc', hdrained, hctx⟩ := onConnection_spec
  obtain rfl : c' = c := Except.ok.inj (hc'.symm.trans hc)
  rw [← hctx]
  exact serve_spec hdrained chunks

/-- Chunks in two parts: the second part starts from where the first one ended,
or is not looked at after a fault. -/
theorem serveBytes_append (ctx : HttpContext) (cs ds : List Chunk) :
    serveBytes ctx (cs ++ ds) =
      match (serveBytes ctx cs).2 with
      | .error e => ((serveBytes ctx cs).1, .error e)
      | .ok ctx' => ((serveBytes ctx cs).1 ++ (serveBytes ctx' ds).1, (serveBytes ctx' ds).2) := by
  induction cs generalizing ctx with
  | nil => simp only [List.nil_append, serveBytes]
  | cons chunk rest ih =>
    simp only [List.cons_append, serveBytes]
    cases receiveBytes ctx chunk with
    | error e => rfl
    | ok p =>
      obtain ⟨actions, ctx'⟩ := p
      simp only [ih]
      cases (serveBytes ctx' rest).2 with
      | error e => rfl
      | ok ctx'' => simp only [List.append_assoc]

end ClyServer.Http
