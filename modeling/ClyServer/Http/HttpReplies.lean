import ClyServer.Http.HttpResponse
import ClyServer.Http.KeepAlive
import ClyServer.Http.MethodAssertion
import ClyServer.Http.RoundTrip
import ClyServer.Net.Conversation

/-!
# What the HTTP server answers (`http/HttpServer.cpp`)

`onRequest` decides from the `Connection` header and the version whether to keep the
connection, makes a response, sends it and, if it is not to be kept, half-closes. With
`onMessage` this is the message callback of the connection, and `ClyServer.Net.Conversation` says
what that makes of the connection.

The response does not depend on the target, so the text that `reset` mixes up does not
reach the peer: well-formed requests are answered one by one, each as if it were the only one,
up to the first that closes (`requests_answered`). Nor does it depend on the user's
`httpCallback_`, which is called for requests without a method, and there are none
(`replies_exact`).
-/

namespace ClyServer.Http

open ClyServer.Lib ClyServer.Lib.System ClyServer.Net ClyServer.Net.Buffer

namespace HttpResponse

/-- `HttpResponse(close)`. -/
def init (close : Bool) : HttpResponse where
  headers := []
  statusCode := .kUnknown
  statusMessage := []
  closeConnection := close
  body := []

def setStatusCode (r : HttpResponse) (code : HttpStatusCode) : HttpResponse :=
  { r with statusCode := code }

def setStatusMessage (r : HttpResponse) (message : Bytes) : HttpResponse :=
  { r with statusMessage := message }

def setCloseConnextion (r : HttpResponse) (on : Bool) : HttpResponse :=
  { r with closeConnection := on }

end HttpResponse

/-- `HttpServer::HttpCallback`: the response it is given, as it leaves it. -/
abbrev HttpCallback := HttpRequest → HttpResponse → HttpResponse

/-- `detail::defaultHttpCallback`. -/
def defaultHttpCallback : HttpCallback := fun _ resp =>
  ((resp.setStatusCode .k404NotFound).setStatusMessage (ascii "Not Found")).setCloseConnextion true

/-- `HttpServer::setstatus(req, resp)`. -/
def setstatus : HttpCallback := fun _ resp =>
  (resp.setStatusCode .k2000k).setStatusMessage (ascii "ok")

/-- The `close` of `onRequest`. -/
def wantsClose (req : HttpRequest) : Bool :=
  let connection := req.getHeader (ascii "Connection")
  connection = ascii "close" ||
    (req.version = .kHttp10 && connection ≠ ascii "Keep-Alive")

/-- The response of `onRequest`. -/
def respond (httpCallback : HttpCallback) (req : HttpRequest) : HttpResponse :=
  let response := HttpResponse.init (wantsClose req)
  if req.method = .kInvalid then httpCallback req response else setstatus req response

/-- What the callback finds in memory: the array on its stack, and what stands behind the
error text. -/
structure Memory where
  stack : Vector UInt8 32
  behind : Bytes

/-- `HttpServer::onRequest(conn, req)`, as the calls it makes. -/
def onRequest (httpCallback : HttpCallback) (memory : Memory) (req : HttpRequest) :
    Checked (List ConnCall) := do
  let response := respond httpCallback req
  let buf ← Buffer.init kInitialSize
  let buf ← response.appendToBuffer memory.stack buf
  return .send (.buffer buf) :: if response.closeConnection then [.shutdown] else []

/-- The calls of an action of `onMessage`. -/
def Action.calls (httpCallback : HttpCallback) (memory : Memory) :
    Action → Checked (List ConnCall)
  | send message => return [.send (.string message memory.behind)]
  | shutdown => return [.shutdown]
  | onRequest req => Http.onRequest httpCallback memory req

/-- The HTTP server as an application. -/
def httpServer (httpCallback : HttpCallback) : Application HttpContext Memory where
  onMessage memory context buf receiveTime := do
    let (actions, c) ← HttpConnection.onMessage ⟨buf, context⟩ receiveTime
    let calls ← actions.mapM (Action.calls httpCallback memory)
    return (calls.flatten, c.inputBuffer, c.context)

/-! ## The server as a function -/

/-- The turns of an action, for a user's callback. -/
def Action.turns (httpCallback : HttpCallback) (stack : Vector UInt8 32) : Action → List Turn
  | send message => [.text message]
  | shutdown => [.shutdown]
  | onRequest req =>
    let response := respond httpCallback req
    .text (response.written stack) :: if response.closeConnection then [.shutdown] else []

/-- What the server answers to a chunk. -/
def httpSpeech (httpCallback : HttpCallback) : Speech HttpContext Memory :=
  fun memory context bytes receiveTime => do
    let (actions, context) ← receiveBytes context ⟨bytes, receiveTime⟩
    return (actions.flatMap (Action.turns httpCallback memory.stack), context)

/-! ## The callback is the function -/

namespace HttpContext

/-- The loop takes lines out of the buffer, and leaves its array alone. -/
theorem parseLoop_buffer {n : Nat} {ctx ctx' : HttpContext} {buf buf' : Buffer} {t : Timestamp}
    {ok : Bool} (h : parseLoop n ctx buf t = .ok (ok, ctx', buf')) : buf'.buffer = buf.buffer := by
  induction n generalizing ctx buf with
  | zero => cases h
  | succ n ih =>
    unfold parseLoop at h
    cases hstate : ctx.state with
    | kExpectRequestLine =>
      rw [hstate] at h
      dsimp only at h
      split at h
      · obtain ⟨⟨ok', request⟩, -, h⟩ := bind_eq_ok.mp h
        dsimp only at h
        split at h
        · obtain ⟨buf₁, hbuf₁, h⟩ := bind_eq_ok.mp h
          rw [ih h, retrieveUntil_buffer hbuf₁]
        · cases h
          rfl
      · cases h
        rfl
    | kExpectHeaders =>
      rw [hstate] at h
      dsimp only at h
      split at h
      · split at h
        · obtain ⟨buf₁, hbuf₁, h⟩ := bind_eq_ok.mp h
          rw [ih h, retrieveUntil_buffer hbuf₁]
        · obtain ⟨buf₁, hbuf₁, h⟩ := bind_eq_ok.mp h
          cases h
          exact retrieveUntil_buffer hbuf₁
      · cases h
        rfl
    | kExpectBody =>
      rw [hstate] at h
      exact ih h
    | kGotAll =>
      rw [hstate] at h
      exact ih h

/-- What `parseRequest` leaves of the buffer is the buffer emptied. -/
theorem parseRequest_buffer {ctx ctx' : HttpContext} {buf buf' : Buffer} {t : Timestamp}
    {ok : Bool} (h : ctx.parseRequest buf t = .ok (ok, ctx', buf')) : buf' = buf.retrieveAll := by
  unfold parseRequest at h
  obtain ⟨⟨ok₁, ctx₁, buf₁⟩, hloop, h⟩ := bind_eq_ok.mp h
  dsimp only at h
  rw [retrieveAllAsString_eq, ok_bind] at h
  cases h
  rw [retrieveAll, parseLoop_buffer hloop]
  rfl

end HttpContext

/-- `onMessage` on a buffer does what `receiveBytes` does on its bytes, and empties it. -/
theorem onMessage_spec (ctx : HttpContext) {buf : Buffer} (hwf : buf.Wf) (t : Timestamp) :
    match receiveBytes ctx ⟨buf.readable, t⟩ with
    | .error e => HttpConnection.onMessage ⟨buf, ctx⟩ t = .error e
    | .ok (actions, ctx') =>
      HttpConnection.onMessage ⟨buf, ctx⟩ t = .ok (actions, ⟨buf.retrieveAll, ctx'⟩) := by
  obtain ⟨herr, hok⟩ := HttpContext.parseRequest_spec ctx hwf t
  unfold receiveBytes HttpConnection.onMessage
  cases hparse : ctx.parseBytes buf.readable t with
  | error e =>
    rw [herr e hparse]
    rfl
  | ok p =>
    obtain ⟨ok, ctx'⟩ := p
    obtain ⟨buf', hbuf', -, -⟩ := hok ok ctx' hparse
    have hempty := HttpContext.parseRequest_buffer hbuf'
    subst hempty
    rw [hbuf', ok_bind, ok_bind]
    by_cases hgot : ctx'.gotAll = true
    · simp only [if_pos hgot]
      rfl
    · simp only [if_neg hgot]
      rfl

/-- `onRequest` calls for what the response says. -/
theorem onRequest_spec (httpCallback : HttpCallback) (memory : Memory) (req : HttpRequest) :
    ∃ calls, onRequest httpCallback memory req = .ok calls ∧
      calls.map ConnCall.turn = (Action.onRequest req).turns httpCallback memory.stack := by
  obtain ⟨b, hb, hwf, hempty, -⟩ := init_spec kInitialSize
  obtain ⟨b', hb', hwf', hread⟩ :=
    HttpResponse.appendToBuffer_spec (respond httpCallback req) memory.stack b hwf
  rw [hempty, List.nil_append] at hread
  refine ⟨.send (.buffer b') :: if (respond httpCallback req).closeConnection then [.shutdown]
    else [], ?_, ?_⟩
  · simp only [onRequest, hb, ok_bind, hb']
    rfl
  · have htext : (Message.buffer b').text = (respond httpCallback req).written memory.stack := by
      rw [Message.text, Message.memory, Message.length, ← hwf'.length_readable, List.take_length,
        hread]
    simp only [Action.turns, List.map_cons, ConnCall.turn, htext]
    split
    · rfl
    · rfl

/-- An action's calls ask for the action's turns. -/
theorem calls_spec (httpCallback : HttpCallback) (memory : Memory) (action : Action)
    (h : ∀ message, action = .send message → message.length < 2147483648) :
    ∃ calls, action.calls httpCallback memory = .ok calls ∧
      calls.map ConnCall.turn = action.turns httpCallback memory.stack := by
  cases action with
  | send message =>
    refine ⟨_, rfl, ?_⟩
    rw [List.map_singleton, ConnCall.turn, Message.text_string (h message rfl)]
    rfl
  | shutdown => exact ⟨_, rfl, rfl⟩
  | onRequest req => exact onRequest_spec httpCallback memory req

/-- What the server sends of its own is the text for a bad request. -/
theorem receiveBytes_send {ctx ctx' : HttpContext} {chunk : Chunk} {actions : List Action}
    (h : receiveBytes ctx chunk = .ok (actions, ctx')) {message : Bytes}
    (hmem : .send message ∈ actions) : message = badRequest := by
  unfold receiveBytes at h
  obtain ⟨⟨ok, ctx₁⟩, -, h⟩ := bind_eq_ok.mp h
  dsimp only at h
  split at h
  · cases h
    cases ok with
    | true => simp at hmem
    | false => simpa using hmem
  · cases h
    cases ok with
    | true => cases hmem
    | false => simpa using hmem

/-- Actions one after the other. -/
theorem mapM_calls_spec (httpCallback : HttpCallback) (memory : Memory) (actions : List Action)
    (h : ∀ message, .send message ∈ actions → message.length < 2147483648) :
    ∃ calls, actions.mapM (Action.calls httpCallback memory) = .ok calls ∧
      calls.flatten.map ConnCall.turn =
        actions.flatMap (Action.turns httpCallback memory.stack) := by
  induction actions with
  | nil => exact ⟨[], rfl, rfl⟩
  | cons action actions ih =>
    obtain ⟨calls, hcalls, hturns⟩ := calls_spec httpCallback memory action
      fun message hm => h message (hm ▸ List.mem_cons_self)
    obtain ⟨rest, hrest, hlater⟩ := ih fun message hm => h message (List.mem_cons_of_mem _ hm)
    refine ⟨calls :: rest, ?_, ?_⟩
    · rw [List.mapM_cons, hcalls, ok_bind, hrest, ok_bind]
      rfl
    · rw [List.flatten_cons, List.map_append, hturns, hlater, List.flatMap_cons]

/-- The message callback of the server answers as the function does, and takes what it
reads. -/
theorem httpServer_speaks (httpCallback : HttpCallback) :
    (httpServer httpCallback).Speaks (httpSpeech httpCallback) := by
  intro memory ctx b t hwf _
  have hmessage := onMessage_spec ctx hwf t
  unfold httpSpeech httpServer
  dsimp only
  cases hrecv : receiveBytes ctx ⟨b.readable, t⟩ with
  | error e =>
    rw [hrecv] at hmessage
    rw [hmessage]
    rfl
  | ok answer =>
    rw [hrecv] at hmessage
    obtain ⟨calls, hcalls, hturns⟩ := mapM_calls_spec httpCallback memory answer.1
      fun message hm => by
        rw [receiveBytes_send hrecv hm]
        decide
    refine ⟨calls.flatten, ?_, hturns⟩
    rw [hmessage, ok_bind, hcalls]
    rfl

/-! ## The callback is never asked -/

/-- Where headers are expected, the method has been taken. -/
def Named (ctx : HttpContext) : Prop :=
  Waiting ctx ∧ (ctx.state = .kExpectHeaders → ctx.request.method ≠ .kInvalid)

theorem named_of_requestLine {ctx : HttpContext} (h : ctx.state = .kExpectRequestLine) :
    Named ctx :=
  ⟨.inl h, fun hstate => by simp [h] at hstate⟩

theorem named_init : Named .init := named_of_requestLine rfl

/-- An accepted line has named its method. -/
theorem processRequestLine_method {r r' : HttpRequest} {line : Bytes}
    (h : HttpContext.processRequestLine r line = .ok (true, r')) : r'.method ≠ .kInvalid := by
  by_cases hr : r.method = .kInvalid
  · rw [HttpContext.processRequestLine_spec hr] at h
    cases hread : readLine line with
    | accepted m url v =>
      rw [hread] at h
      cases h
      obtain ⟨token, _, hderives, hm, -⟩ := readLine_eq_accepted_iff.mp hread
      rw [LineReading.record, hm]
      exact setMethod_init_iff.mp hderives.method
    | _ =>
      rw [hread] at h
      cases h
  · by_cases hread : readLine line = .noMethod
    · rw [HttpContext.processRequestLine_noMethod hread] at h
      cases h
    · rw [HttpContext.processRequestLine_assert hread hr] at h
      cases h

/-- A header block on a request with a method: if it ends, that request is handed on. -/
theorem receive_named_headers {ctx ctx' : HttpContext} {chunk : Chunk} {actions : List Action}
    {n : Nat} {r : HttpRequest} {bytes : Bytes} (hn : bytes.length < n)
    (hmethod : r.method ≠ .kInvalid)
    (hparse : ctx.parseBytes chunk.bytes chunk.receiveTime =
      HttpContext.parseLines n ⟨.kExpectHeaders, r⟩ bytes chunk.receiveTime)
    (h : receiveBytes ctx chunk = .ok (actions, ctx')) :
    Named ctx' ∧ ∀ req, .onRequest req ∈ actions → req.method ≠ .kInvalid := by
  rw [HttpContext.parseLines_headers r chunk.receiveTime hn] at hparse
  by_cases hall : (HttpContext.readHeaders n r.headers bytes).1 = .kGotAll
  · rw [receiveBytes_complete (by simp [HttpContext.gotAll, hall]) hparse] at h
    cases h
    refine ⟨named_of_requestLine rfl, fun req hreq => ?_⟩
    cases List.mem_singleton.mp hreq
    exact hmethod
  · have hwait := readHeaders_waiting hall
    rw [receiveBytes_waiting (by simp [HttpContext.gotAll, hwait]) hparse] at h
    cases h
    exact ⟨⟨.inr hwait, fun _ => hmethod⟩, by simp⟩

/-- A chunk hands on requests with a method only. -/
theorem receiveBytes_named {ctx ctx' : HttpContext} (hctx : Named ctx) {chunk : Chunk}
    {actions : List Action} (h : receiveBytes ctx chunk = .ok (actions, ctx')) :
    Named ctx' ∧ ∀ req, .onRequest req ∈ actions → req.method ≠ .kInvalid := by
  rcases hctx.1 with hstate | hstate
  · cases hcut : cutLine chunk.bytes with
    | none =>
      rw [receiveBytes_waiting (by simp [HttpContext.gotAll, hstate])
        (HttpContext.parseBytes_incomplete hstate hcut)] at h
      cases h
      exact ⟨hctx, by simp⟩
    | some p =>
      obtain ⟨line, rest⟩ := p
      cases hline : HttpContext.processRequestLine ctx.request line with
      | error e =>
        rw [receiveBytes_fault (HttpContext.parseBytes_fault hstate hcut hline)] at h
        cases h
      | ok answer =>
        obtain ⟨ok, request⟩ := answer
        cases ok with
        | false =>
          rw [receiveBytes_refused rfl (HttpContext.parseBytes_refused hstate hcut hline)] at h
          cases h
          refine ⟨named_of_requestLine rfl, fun req hreq => ?_⟩
          simp at hreq
        | true =>
          have hmethod : request.method ≠ .kInvalid := processRequestLine_method hline
          have hmethod : (request.setReceiveTime chunk.receiveTime).method ≠ .kInvalid := hmethod
          exact receive_named_headers (cutLine_length hcut) hmethod
            (HttpContext.parseBytes_accepted hstate hcut hline) h
  · have hparse : ctx.parseBytes chunk.bytes chunk.receiveTime =
        HttpContext.parseLines (chunk.bytes.length + 1) ⟨.kExpectHeaders, ctx.request⟩
          chunk.bytes chunk.receiveTime := by
      rw [← hstate]
      rfl
    exact receive_named_headers (Nat.lt_succ_self _) (hctx.2 hstate) hparse h

/-- What the server answers, with no callback to ask. -/
def answer : Speech HttpContext Memory := httpSpeech setstatus

/-- Actions with requests that have a method are answered without the callback. -/
theorem turns_of_method (httpCallback : HttpCallback) (stack : Vector UInt8 32) {action : Action}
    (h : ∀ req, action = .onRequest req → req.method ≠ .kInvalid) :
    action.turns httpCallback stack = action.turns setstatus stack := by
  cases action with
  | onRequest req => simp only [Action.turns, respond, if_neg (h req rfl)]
  | _ => rfl

theorem httpSpeech_eq (httpCallback : HttpCallback) {memory : Memory} {ctx ctx' : HttpContext}
    {bytes : Bytes} {receiveTime : Timestamp} {actions : List Action}
    (h : receiveBytes ctx ⟨bytes, receiveTime⟩ = .ok (actions, ctx')) :
    httpSpeech httpCallback memory ctx bytes receiveTime =
      .ok (actions.flatMap (Action.turns httpCallback memory.stack), ctx') := by
  simp only [httpSpeech, h, ok_bind, pure_eq_ok]

/-- Whatever the user's callback, the server answers the same. -/
theorem converse_httpSpeech (httpCallback : HttpCallback) {ctx : HttpContext} (hctx : Named ctx)
    (hs : List (Heard Memory)) :
    converse (httpSpeech httpCallback) ctx hs = converse answer ctx hs := by
  induction hs generalizing ctx with
  | nil => rfl
  | cons heard hs ih =>
    cases heard with
    | closed => simp only [converse, ih hctx]
    | chunk bytes receiveTime memory =>
      cases hrecv : receiveBytes ctx ⟨bytes, receiveTime⟩ with
      | error e => simp only [converse, answer, httpSpeech, hrecv, error_bind]
      | ok p =>
        obtain ⟨actions, ctx'⟩ := p
        obtain ⟨hctx', hreqs⟩ := receiveBytes_named hctx hrecv
        have hturns : actions.flatMap (Action.turns httpCallback memory.stack) =
            actions.flatMap (Action.turns setstatus memory.stack) :=
          List.flatMap_congr fun action hmem =>
            turns_of_method httpCallback memory.stack fun req hreq => hreqs req (hreq ▸ hmem)
        simp only [converse, answer, httpSpeech_eq httpCallback hrecv,
          httpSpeech_eq setstatus hrecv, hturns]
        rw [ih hctx']
        rfl

/-! ## Runs -/

open Service

/-- **What the server sends, whatever it reads.** On a connection of the HTTP server, in any
run, write(2) is called for exactly the texts the server answers to the chunks it was given,
up to the first half-close or close, and not at all after it; there is at most one half-close; the
user's callback changes nothing; and between events the input buffer is empty and its array is at
most `inputLimit` bytes long. -/
theorem replies_exact (httpCallback : HttpCallback) {fd : Int}
    {s₀ s : Service HttpContext} (hs₀ : start fd .init = .ok s₀) {es : List (Event Memory)}
    (h : (Service.system (httpServer httpCallback)).Run s₀ es (.ok s)) {turns : List Turn}
    (hturns : turns = (converse answer .init (es.flatMap Event.heard)).1) :
    (s.written = spoken turns ∧ (s.tcp.state = .kConnected ↔ AllTexts turns) ∧
      s.tcp.halfCloses.length = (if halfClosed turns then 1 else 0) ∧
      ∃ parts, List.Forall₂ (· <+: ·) parts (spoken turns) ∧ s.tcp.accepted = parts.flatten) ∧
    s.inputBuffer.readable = [] ∧ s.inputBuffer.buffer.length ≤ inputLimit := by
  rw [← converse_httpSpeech httpCallback named_init] at hturns
  have happ := httpServer_speaks httpCallback
  exact ⟨conversation happ hs₀ h hturns, input_bounded happ hs₀ h⟩

/-- The event brings the request, written out, in one piece, and the kernel takes the answer. -/
structure Carries (r : HttpRequest) (e : Event Memory) : Prop where
  wellFormed : WellFormed r
  revents : e.revents = POLLIN
  text : ∃ fields, fields.Perm r.headers ∧ e.read.stored = render r fields
  whole : e.read.n = e.read.stored.length
  small : e.read.stored.length ≤ extraSize
  fine : ∀ k, (e.answers k).Fine

/-- What a request is answered, as the first on its connection. -/
def requestTurns (stack : Vector UInt8 32) (r : HttpRequest) : List Turn :=
  if r.method = .kDelete then [.text badRequest, .shutdown]
  else .text ((respond setstatus r).written stack) :: if wantsClose r then [.shutdown] else []

/-- A response depends on the version and the headers. -/
theorem respond_congr {r : HttpRequest} (r' : HttpRequest) (hversion : r.version = r'.version)
    (hheaders : r.headers = r'.headers) : respond setstatus r = respond setstatus r' := by
  have hclose : wantsClose r = wantsClose r' := by
    unfold wantsClose HttpRequest.getHeader
    rw [hversion, hheaders]
  simp only [respond, setstatus, hclose, ite_self]

/-- The text of a request, given to a context between requests, is answered as its own and
leaves a context between requests. -/
theorem receive_render {r : HttpRequest} (hr : WellFormed r) {fields : List (Bytes × Bytes)}
    (hfields : fields.Perm r.headers) (q : Bytes) (t : Timestamp) :
    ∃ actions q', receiveBytes (idle q) ⟨render r fields, t⟩ = .ok (actions, idle q') ∧
      ∀ httpCallback stack,
        actions.flatMap (Action.turns httpCallback stack) = requestTurns stack r := by
  by_cases hd : r.method = .kDelete
  · have hcut : cutLine (render r fields) = some (renderLine r, renderHeaders fields) :=
      cutLine_append (renderLine_crlf hr) _
    have hline := HttpContext.processRequestLine_spec (r := HttpRequest.init.setQuery q) rfl
      (renderLine r)
    rw [readLine_renderLine_delete hd] at hline
    refine ⟨_, q, receiveBytes_refused rfl (HttpContext.parseBytes_refused rfl hcut hline), ?_⟩
    intro httpCallback stack
    rw [requestTurns, if_pos hd]
    rfl
  · have hparse := parseBytes_render (t := t) hr hfields hd
    have hcomplete : Complete ⟨render r fields, t⟩ :=
      ⟨_, (parseFresh_eq ⟨render r fields, t⟩).trans hparse, rfl⟩
    obtain ⟨m, v, url, headers, -, hfresh, hrecv⟩ := receive_complete hcomplete
    rw [parseFresh_eq, hparse] at hfresh
    have hrequest := congrArg HttpContext.request (Prod.ext_iff.mp (Except.ok.inj hfresh)).2
    refine ⟨_, _, hrecv q, fun httpCallback stack => ?_⟩
    rw [List.flatMap_singleton, turns_of_method httpCallback stack, Action.turns, respond_congr r]
    · rw [requestTurns, if_neg hd]
      simp only [respond, setstatus, ite_self, HttpResponse.setStatusMessage,
        HttpResponse.setStatusCode, HttpResponse.init]
    · exact (congrArg HttpRequest.version hrequest).symm
    · exact (congrArg HttpRequest.headers hrequest).symm
    · rintro req ⟨⟩
      have hm : r.method = m := congrArg HttpRequest.method hrequest
      exact hm ▸ hr.method

/-- A connection between requests. -/
structure Between (s : Service HttpContext) : Prop where
  speaks : s.Speaks
  rest : AtRest s.inputBuffer
  context : ∃ q, s.context = idle q
  opened : .closed ∉ s.turns

theorem closed_notMem_requestTurns (stack : Vector UInt8 32) (r : HttpRequest) :
    .closed ∉ requestTurns stack r := by
  unfold requestTurns
  split
  · simp
  · split <;> simp

/-- A request that arrives is answered. -/
theorem Between.request {s : Service HttpContext} (h : Between s) (httpCallback : HttpCallback)
    {r : HttpRequest} {e : Event Memory} (hc : Carries r e) :
    s.Possible e ∧ ∃ s', s.handleEvent (httpServer httpCallback) e = .ok s' ∧ Between s' ∧
      s'.turns = s.turns ++ requestTurns e.memory.stack r := by
  obtain ⟨fields, hfields, htext⟩ := hc.text
  obtain ⟨q, hq⟩ := h.context
  obtain ⟨actions, q', hrecv, hturns⟩ := receive_render hc.wellFormed hfields q e.receiveTime
  have hspeech : httpSpeech httpCallback e.memory s.context e.read.stored e.receiveTime =
      .ok (requestTurns e.memory.stack r, idle q') := by
    rw [hq, htext, httpSpeech_eq httpCallback hrecv, hturns]
  have hpos : 0 < e.read.n := by
    have hcrlf : 0 < e.read.stored.length := by
      rw [htext, render, List.length_append, List.length_append]
      have htwo : kCRLF.length = 2 := rfl
      omega
    rw [hc.whole]
    omega
  obtain ⟨hposs, s', hs', hheeds, hsaid, hcontext⟩ :=
    h.speaks.hears_chunk (httpServer_speaks httpCallback) h.rest h.opened hc.revents hc.whole hpos
      hc.small hc.fine hspeech
  refine ⟨hposs, s', hs', ⟨hheeds.speaks, hheeds.rest, ⟨q', hcontext⟩, ?_⟩, hsaid⟩
  rw [hsaid, List.mem_append, not_or]
  exact ⟨h.opened, closed_notMem_requestTurns _ _⟩

/-- Requests one after the other. -/
theorem Between.requests {s : Service HttpContext} (h : Between s) (httpCallback : HttpCallback)
    {xs : List (HttpRequest × Event Memory)} (hxs : ∀ x ∈ xs, Carries x.1 x.2) :
    ∃ s', (Service.system (httpServer httpCallback)).Run s (xs.map (·.2)) (.ok s') ∧ Between s' ∧
      s'.turns = s.turns ++ xs.flatMap fun x => requestTurns x.2.memory.stack x.1 := by
  induction xs generalizing s with
  | nil => exact ⟨s, .nil, h, (List.append_nil _).symm⟩
  | cons x xs ih =>
    obtain ⟨hfirst, hrest⟩ := List.forall_mem_cons.mp hxs
    obtain ⟨hposs, s₁, hs₁, hbetween, hturns₁⟩ := h.request httpCallback hfirst
    obtain ⟨s', hrun, hbetween', hturns⟩ := ih hbetween hrest
    refine ⟨s', hrun.cons hposs hs₁, hbetween', ?_⟩
    rw [hturns, hturns₁, List.flatMap_cons, List.append_assoc]

theorem between_start (fd : Int) :
    ∃ s₀, start fd HttpContext.init = .ok s₀ ∧ Between s₀ ∧ s₀.turns = [] := by
  obtain ⟨s₀, hs₀, hspeaks, hturns, hcontext, hbuffer⟩ := start_spec fd HttpContext.init
  refine ⟨s₀, hs₀, ⟨hspeaks, hbuffer ▸ atRest_fresh, ⟨[], hcontext⟩, ?_⟩, hturns⟩
  rw [hturns]
  exact List.not_mem_nil

/-- **Requests are answered one by one.** On a new connection, well-formed requests that arrive
each in one piece, with the headers in any order and the kernel taking the answers, are all
answered, in order, each with its own answer up to and including the first that closes:
200 for the four methods `setMethod` knows and the text for a bad request for DELETE. What `reset`
leaves of one request does not show in the answer to the next, and no request ends the process. -/
theorem requests_answered (httpCallback : HttpCallback) (fd : Int)
    {xs : List (HttpRequest × Event Memory)} (hxs : ∀ x ∈ xs, Carries x.1 x.2)
    {turns : List Turn}
    (hturns : turns = xs.flatMap fun x => requestTurns x.2.memory.stack x.1) :
    ∃ s₀ s, start fd HttpContext.init = .ok s₀ ∧
      (Service.system (httpServer httpCallback)).Run s₀ (xs.map (·.2)) (.ok s) ∧
      s.written = spoken turns ∧ (s.tcp.state = .kConnected ↔ AllTexts turns) ∧
      s.tcp.halfCloses.length = if halfClosed turns then 1 else 0 := by
  obtain ⟨s₀, hs₀, hbetween, hnone⟩ := between_start fd
  obtain ⟨s, hrun, hbetween', hsaid⟩ := hbetween.requests httpCallback hxs
  rw [hnone, List.nil_append, ← hturns] at hsaid
  have hspeaks := hbetween'.speaks
  exact ⟨s₀, s, hs₀, hrun, hsaid ▸ hspeaks.written, hsaid ▸ hspeaks.opened,
    hsaid ▸ hspeaks.halfCloses⟩

/-- A request in one piece, over a zeroed stack. -/
def requestEvent (r : HttpRequest) : Event Memory where
  revents := POLLIN
  read := ⟨(render r r.headers).length, 0, render r r.headers⟩
  receiveTime := 5
  memory := ⟨Vector.replicate 32 0, []⟩
  answers := fun _ => ⟨.accepted 100, false⟩

theorem carries_requestEvent {r : HttpRequest} (hr : WellFormed r)
    (hsmall : (render r r.headers).length ≤ extraSize) : Carries r (requestEvent r) where
  wellFormed := hr
  revents := rfl
  text := ⟨r.headers, List.Perm.refl _, rfl⟩
  whole := rfl
  small := hsmall
  fine := fun _ => ⟨nofun, rfl⟩

theorem carries_get : Carries getRequest (requestEvent getRequest) :=
  carries_requestEvent getRequest_wellFormed (by decide)

theorem carries_delete : Carries deleteRequest (requestEvent deleteRequest) :=
  carries_requestEvent deleteRequest_wellFormed (by decide)

/-- A request, a DELETE and the request again: the second answer closes, and there is no third. -/
theorem requests_answered_delete :
    ∃ s₀ s, start 3 HttpContext.init = .ok s₀ ∧
      (Service.system (httpServer defaultHttpCallback)).Run s₀
        [requestEvent getRequest, requestEvent deleteRequest, requestEvent getRequest] (.ok s) ∧
      s.written = [(respond setstatus getRequest).written (Vector.replicate 32 0), badRequest] ∧
      s.tcp.halfCloses.length = 1 := by
  have hxs : ∀ x ∈ [(getRequest, requestEvent getRequest),
      (deleteRequest, requestEvent deleteRequest), (getRequest, requestEvent getRequest)],
      Carries x.1 x.2 := by
    simp [carries_get, carries_delete]
  obtain ⟨s₀, s, hs₀, hrun, hwritten, -, hhalf⟩ :=
    requests_answered defaultHttpCallback 3 hxs rfl
  exact ⟨s₀, s, hs₀, hrun, hwritten, hhalf⟩

/-- The DELETE alone. -/
theorem replies_exact_delete :
    ∃ s₀ s, start 3 HttpContext.init = .ok s₀ ∧
      (Service.system (httpServer defaultHttpCallback)).Run s₀ [requestEvent deleteRequest]
        (.ok s) ∧
      s.written = [badRequest] ∧ s.tcp.state ≠ .kConnected ∧ s.inputBuffer.readable = [] := by
  obtain ⟨s₀, hs₀, hbetween, -⟩ := between_start 3
  have hxs : ∀ x ∈ [(deleteRequest, requestEvent deleteRequest)], Carries x.1 x.2 := by
    simp [carries_delete]
  obtain ⟨s, hrun, -, -⟩ := hbetween.requests defaultHttpCallback hxs
  obtain ⟨⟨hwritten, hopened, -⟩, hempty, -⟩ :=
    replies_exact defaultHttpCallback hs₀ hrun
      (show [.text badRequest, .shutdown] = _ by decide +kernel)
  refine ⟨s₀, s, hs₀, hrun, hwritten, fun hstate => ?_, hempty⟩
  obtain ⟨bytes, hbytes⟩ := hopened.mp hstate .shutdown (by simp)
  cases hbytes

end ClyServer.Http
