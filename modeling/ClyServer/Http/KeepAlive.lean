import ClyServer.Http.Parsing

/-!
# What one request leaves for the next

After a request is dispatched, `reset` swaps the record with a fresh one. The
line `path_.swap(that.query_)` of `HttpRequest::swap` clears the path and leaves
the query, so the query of a request stays until a later request with a query of
its own writes over it. Two contexts that differ in the query alone parse alike
(`parseLines_withQuery`, `processRequestLine_setQuery`); from this the request
handed on is, field by field, the one a fresh context would have found, exactly
when it carries a query itself or none of the requests before it did
(`dispatchedAsFresh_iff`).
-/

namespace ClyServer.Http

open ClyServer.Lib ClyServer.Net ClyServer.Net.Buffer

/-! ## The statement -/

/-- A chunk parsed by a freshly constructed context from a new buffer. -/
def parseFresh (chunk : Chunk) : Checked (Bool × HttpContext) := do
  let buf ← Buffer.init kInitialSize
  let buf ← buf.append chunk.bytes
  let (ok, ctx, _) ← HttpContext.init.parseRequest buf chunk.receiveTime
  return (ok, ctx)

/-- The chunk holds a complete request: a fresh context accepts it to the end. -/
def Complete (chunk : Chunk) : Prop :=
  ∃ ctx, parseFresh chunk = .ok (true, ctx) ∧ ctx.gotAll = true

/-- The target of the request line: between the first two spaces of the first
line. -/
def requestTarget (bytes : Bytes) : Option Bytes :=
  (cutLine bytes).bind fun p => (splitFirst 32 p.1).bind fun q => (splitFirst 32 q.2).map (·.1)

/-- The target of the request has a `?`. -/
def HasQuery (chunk : Chunk) : Prop := ∃ url, requestTarget chunk.bytes = some url ∧ 63 ∈ url

/-- Equal up to the receive time. -/
structure SameRequest (a b : HttpRequest) : Prop where
  method : a.method = b.method
  version : a.version = b.version
  path : a.path = b.path
  query : a.query = b.query
  headers : a.headers = b.headers

/-- After the requests `rs`, the request `r` is handed to `onRequest` as a fresh
context would have parsed it. -/
def DispatchedAsFresh (rs : List Chunk) (r : Chunk) : Prop :=
  ∀ c, HttpConnection.onConnection = .ok c →
    ∃ ctx req, parseFresh r = .ok (true, ctx) ∧
      (c.serve (rs ++ [r])).1 = (c.serve rs).1 ++ [.onRequest req] ∧ SameRequest req ctx.request

/-- After the requests `rs` the context is again a freshly constructed one. -/
def ResetToFresh (rs : List Chunk) : Prop :=
  ∀ c, HttpConnection.onConnection = .ok c →
    ∃ c', (c.serve rs).2 = .ok c' ∧ c'.context = .init

/-! ## One complete request -/

/-- The target of a chunk whose request line is accepted. -/
theorem requestTarget_of_accepted {bytes line rest url : Bytes} {m : Method} {v : Version}
    (hcut : cutLine bytes = some (line, rest)) (hread : readLine line = .accepted m url v) :
    requestTarget bytes = some url := by
  unfold readLine at hread
  unfold requestTarget
  rw [hcut, Option.bind_some]
  split at hread
  · cases hread
  · rename_i m' rest' hspace
    rw [hspace, Option.bind_some]
    split at hread
    · cases hread
    · split at hread
      · cases hread
      · rename_i url' tail hspace'
        rw [hspace']
        split at hread
        · cases hread
        · cases hread
          rfl

theorem hasQuery_iff {chunk : Chunk} {url : Bytes} (h : requestTarget chunk.bytes = some url) :
    HasQuery chunk ↔ 63 ∈ url := by
  constructor
  · intro hquery
    obtain ⟨url', hurl', hmem⟩ := hquery
    rw [h] at hurl'
    cases hurl'
    exact hmem
  · intro hmem
    exact ⟨url, h, hmem⟩

/-- A context between requests: everything is initial but the query. -/
def idle (q : Bytes) : HttpContext := ⟨.kExpectRequestLine, HttpRequest.init.setQuery q⟩

theorem idle_nil : idle [] = .init := rfl

/-- Parsing from a new buffer is parsing the bytes. -/
theorem parseFresh_eq (chunk : Chunk) :
    parseFresh chunk = HttpContext.init.parseBytes chunk.bytes chunk.receiveTime := by
  obtain ⟨b, hb, hwf, hempty, _⟩ := init_spec kInitialSize
  obtain ⟨b', hb', hbec⟩ := append_spec hwf chunk.bytes
  have hread : b'.readable = chunk.bytes := by rw [hbec.holds, hempty, List.nil_append]
  obtain ⟨herr, hok⟩ := HttpContext.parseRequest_spec .init hbec.wf chunk.receiveTime
  rw [hread] at herr hok
  simp only [parseFresh, hb, hb', ok_bind]
  cases hparse : HttpContext.init.parseBytes chunk.bytes chunk.receiveTime with
  | error e =>
    rw [herr e hparse]
    rfl
  | ok p =>
    obtain ⟨ok, ctx⟩ := p
    obtain ⟨b'', hb'', _⟩ := hok ok ctx hparse
    rw [hb'']
    rfl

/-- What a complete request says, and what it does to a context that waits for
one: the request handed on takes the query of its own target or, without one,
the query it found, and `reset` leaves that query behind. -/
theorem receive_complete {chunk : Chunk} (h : Complete chunk) :
    ∃ m v url headers, requestTarget chunk.bytes = some url ∧
      parseFresh chunk = .ok (true, ⟨.kGotAll,
        ⟨m, v, pathOf url, (queryOf url).getD [], chunk.receiveTime, headers⟩⟩) ∧
      ∀ q, receiveBytes (idle q) chunk =
        .ok ([.onRequest ⟨m, v, pathOf url, (queryOf url).getD q, chunk.receiveTime, headers⟩],
          idle ((queryOf url).getD q)) := by
  obtain ⟨ctx, hfresh, hgot⟩ := h
  rw [parseFresh_eq] at hfresh ⊢
  cases hcut : cutLine chunk.bytes with
  | none =>
    rw [HttpContext.parseBytes_incomplete HttpContext.state_init hcut] at hfresh
    cases hfresh
    exact absurd hgot (by decide)
  | some p =>
    obtain ⟨line, rest⟩ := p
    cases hread : readLine line with
    | accepted m url v =>
      -- the line as every idle context reads it
      have hline : ∀ q, HttpContext.processRequestLine (HttpRequest.init.setQuery q) line =
          .ok (true, (LineReading.accepted m url v).record (HttpRequest.init.setQuery q)) := by
        intro q
        rw [HttpContext.processRequestLine_spec rfl, hread]
        rfl
      have hlen := cutLine_length hcut
      have hparse : ∀ q, (idle q).parseBytes chunk.bytes chunk.receiveTime =
          .ok (true, ⟨(HttpContext.readHeaders chunk.bytes.length [] rest).1,
            ⟨m, v, pathOf url, (queryOf url).getD q, chunk.receiveTime,
              (HttpContext.readHeaders chunk.bytes.length [] rest).2⟩⟩) := by
        intro q
        rw [HttpContext.parseBytes_accepted rfl hcut (hline q),
          HttpContext.parseLines_headers _ _ hlen]
        rfl
      -- the fresh parse got to the end, so every idle one does
      have hstate : (HttpContext.readHeaders chunk.bytes.length [] rest).1 = .kGotAll := by
        have heq := (hparse []).symm.trans hfresh
        cases heq
        exact of_decide_eq_true hgot
      rw [hstate] at hparse
      refine ⟨m, v, url, _, ?_, hparse [], fun q => ?_⟩
      · exact requestTarget_of_accepted hcut hread
      · exact receiveBytes_complete rfl (hparse q)
    | _ =>
      have hline := HttpContext.processRequestLine_spec (r := HttpRequest.init) rfl line
      rw [hread] at hline
      rw [HttpContext.parseBytes_refused HttpContext.state_init hcut hline] at hfresh
      cases hfresh

/-! ## A list of requests -/

/-- After complete requests the context is idle, and it is a fresh one exactly
when it was and none of them had a query. -/
theorem serve_complete {rs : List Chunk} (hrs : ∀ x ∈ rs, Complete x) (q : Bytes) :
    ∃ q', (serveBytes (idle q) rs).2 = .ok (idle q') ∧
      (q' = [] ↔ q = [] ∧ ∀ x ∈ rs, ¬ HasQuery x) := by
  induction rs generalizing q with
  | nil => exact ⟨q, rfl, by simp⟩
  | cons x rest ih =>
    obtain ⟨m, v, url, headers, htarget, _, hrecv⟩ := receive_complete (hrs x List.mem_cons_self)
    obtain ⟨q', hserve, hiff⟩ :=
      ih (fun y hy => hrs y (List.mem_cons_of_mem _ hy)) ((queryOf url).getD q)
    refine ⟨q', by simp only [serveBytes, hrecv, hserve], ?_⟩
    rw [hiff, List.forall_mem_cons, ← and_assoc]
    apply and_congr_left
    intro _
    cases hquery : queryOf url with
    | none =>
      have hno : ¬ HasQuery x := fun hx => by
        have := queryOf_isSome_iff.mpr ((hasQuery_iff htarget).mp hx)
        rw [hquery] at this
        cases this
      exact ⟨fun hq => ⟨hq, hno⟩, fun hq => hq.1⟩
    | some u =>
      have hyes : HasQuery x := by
        rw [hasQuery_iff htarget, ← queryOf_isSome_iff, hquery]
        rfl
      exact ⟨fun hu => absurd hu (queryOf_ne_nil hquery), fun hq => absurd hyes hq.2⟩

/-- The request after complete ones, as it is handed on and as a fresh context
finds it: they agree exactly when it has a query of its own or there is none
left over. -/
theorem dispatched_after {rs : List Chunk} {r : Chunk} {q : Bytes} (hr : Complete r)
    (hserve : (serveBytes .init rs).2 = .ok (idle q)) :
    ∃ ctx req, parseFresh r = .ok (true, ctx) ∧
      (serveBytes .init (rs ++ [r])).1 = (serveBytes .init rs).1 ++ [.onRequest req] ∧
      (SameRequest req ctx.request ↔ HasQuery r ∨ q = []) := by
  obtain ⟨m, v, url, headers, htarget, hfresh, hrecv⟩ := receive_complete hr
  refine ⟨_, ⟨m, v, pathOf url, (queryOf url).getD q, r.receiveTime, headers⟩, hfresh, ?_, ?_⟩
  · rw [serveBytes_append, hserve]
    simp only [serveBytes, hrecv, List.append_nil]
  · rw [hasQuery_iff htarget, ← queryOf_isSome_iff]
    cases hquery : queryOf url with
    | none =>
      constructor
      · intro hsame
        exact .inr hsame.query
      · rintro (hsome | rfl)
        · cases hsome
        · exact ⟨rfl, rfl, rfl, rfl, rfl⟩
    | some u => exact ⟨fun _ => .inl rfl, fun _ => ⟨rfl, rfl, rfl, rfl, rfl⟩⟩

/-- **Exactly when a request is independent of the ones before it.** After
complete requests each in a chunk of its own, a complete request is handed on as
a fresh context parses it if and only if its target has a query or none of
theirs had one; and the context itself is again a fresh one if and only if none
of theirs had one. -/
theorem dispatchedAsFresh_iff {rs : List Chunk} {r : Chunk} (hrs : ∀ x ∈ rs, Complete x)
    (hr : Complete r) :
    (DispatchedAsFresh rs r ↔ HasQuery r ∨ ∀ x ∈ rs, ¬ HasQuery x) ∧
      (ResetToFresh rs ↔ ∀ x ∈ rs, ¬ HasQuery x) := by
  obtain ⟨q, hserve, hq⟩ := serve_complete hrs []
  rw [idle_nil] at hserve
  simp only [true_and] at hq
  obtain ⟨c, hc, _, _⟩ := onConnection_spec
  rw [← hq]
  constructor
  · obtain ⟨ctx, req, hfresh, hacts, hsame⟩ := dispatched_after hr hserve
    rw [← hsame]
    constructor
    · intro h
      obtain ⟨ctx', req', hfresh', hacts', hsame'⟩ := h c hc
      rw [(serve_new hc _).1, (serve_new hc _).1, hacts] at hacts'
      have hreq := List.append_cancel_left hacts'
      cases hreq
      rw [hfresh] at hfresh'
      cases hfresh'
      exact hsame'
    · intro h c' hc'
      refine ⟨ctx, req, hfresh, ?_, h⟩
      rw [(serve_new hc' _).1, (serve_new hc' _).1, hacts]
  · constructor
    · intro h
      obtain ⟨c₁, hc₁, hctx₁⟩ := h c hc
      obtain ⟨c₂, hc₂, hctx₂, _⟩ := (serve_new hc rs).2.2 _ hserve
      rw [hc₁] at hc₂
      cases hc₂
      rw [hctx₁] at hctx₂
      exact (congrArg (·.request.query) hctx₂).symm
    · rintro rfl c' hc'
      obtain ⟨c₂, hc₂, hctx₂, _⟩ := (serve_new hc' rs).2.2 _ hserve
      exact ⟨c₂, hc₂, hctx₂⟩

/-- A request without a query. -/
def getPlain : Chunk := ⟨ascii "GET /b HTTP/1.1\r\nHost: h\r\n\r\n", 7⟩

/-- A request with a query. -/
def getQuery : Chunk := ⟨ascii "GET /a?x=1 HTTP/1.1\r\n\r\n", 3⟩

theorem complete_getPlain : Complete getPlain := by
  rw [Complete, parseFresh_eq]
  exact ⟨_, rfl, rfl⟩

theorem complete_getQuery : Complete getQuery := by
  rw [Complete, parseFresh_eq]
  exact ⟨_, rfl, rfl⟩

/-- Two requests, the second with a query: it is dispatched as if it had come
first, and the first leaves a fresh context. -/
theorem dispatchedAsFresh_query : Complete getPlain ∧ Complete getQuery ∧
    DispatchedAsFresh [getPlain] getQuery ∧ ResetToFresh [getPlain] := by
  have hplain : ∀ r ∈ [getPlain], Complete r := by simp [complete_getPlain]
  have hiff := dispatchedAsFresh_iff hplain complete_getQuery
  refine ⟨complete_getPlain, complete_getQuery, hiff.1.mpr (.inl ?_), hiff.2.mpr ?_⟩
  · exact ⟨ascii "/a?x=1", by decide, by decide⟩
  · have htarget : requestTarget getPlain.bytes = some (ascii "/b") := by decide
    simp only [List.mem_singleton, forall_eq]
    exact fun h => absurd ((hasQuery_iff htarget).mp h) (by decide)

/-- The same two requests in the other order: the request without a query is
handed on with the query of the one before it. -/
theorem dispatchedAsFresh_fails : Complete getQuery ∧ Complete getPlain ∧
    ¬ DispatchedAsFresh [getQuery] getPlain := by
  refine ⟨complete_getQuery, complete_getPlain, fun h => ?_⟩
  obtain ⟨c, hc, _, _⟩ := onConnection_spec
  obtain ⟨ctx, req, hfresh, hacts, hsame⟩ := h c hc
  rw [parseFresh_eq] at hfresh
  rw [(serve_new hc _).1, (serve_new hc _).1] at hacts
  have hlast : req.query = ascii "?x=1" := by
    have hall : (serveBytes .init ([getQuery] ++ [getPlain])).1.getLast? =
        some (.onRequest ⟨.kGet, .kHttp11, ascii "/b", ascii "?x=1", 7,
          [(ascii "Host", ascii "h")]⟩) := by decide
    rw [hacts, List.getLast?_append, List.getLast?_singleton] at hall
    cases hall
    rfl
  have hquery : ctx.request.query = [] := by
    cases hfresh
    rfl
  have hsame := hsame.query
  rw [hlast, hquery] at hsame
  exact absurd hsame (by decide)

end ClyServer.Http
