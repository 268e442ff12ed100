import ClyServer.Http.MethodAssertion

/-!
# After a bad request

A bad request line is answered by an error text and a half-close; the peer may go
on sending, and `onMessage` goes on parsing. What it may still serve depends on
how far the bad line got. A line refused after its method was taken leaves the
method in the context, and no later chunk is served: its request line fails the
assertion in `setMethod`, or does not get there. A line refused before (no space,
or a token that names no method) leaves the context as it was, and the next
request is parsed and dispatched. `quietAfterBad_iff` is the exact statement.
-/

namespace ClyServer.Http

open ClyServer.Lib ClyServer.Net ClyServer.Net.Buffer

/-- `parseRequest` returns false for the chunk. -/
def HttpConnection.Refuses (c : HttpConnection) (chunk : Chunk) : Prop :=
  ∃ buf ctx buf', c.inputBuffer.append chunk.bytes = .ok buf ∧
    c.context.parseRequest buf chunk.receiveTime = .ok (false, ctx, buf')

/-- On a new connection, no chunk behind one that `parseRequest` refused leads to
`onRequest`. -/
def QuietAfterBad (chunks : List Chunk) : Prop :=
  ∀ c, HttpConnection.onConnection = .ok c →
    ∀ pre d post, chunks = pre ++ d :: post →
      ∀ c₁ actions c₂, (c.serve pre).2 = .ok c₁ → c₁.Refuses d →
        c₁.receive d = .ok (actions, c₂) → ∀ req, .onRequest req ∉ (c₂.serve post).1

/-! ## What the bytes say -/

/-- The first line of the bytes is refused before a method was taken from it. -/
def Rejects (bytes : Bytes) : Prop :=
  ∃ line rest, cutLine bytes = some (line, rest) ∧
    (readLine line = .noMethod ∨ readLine line = .unknown)

/-- The header block ends in these bytes. -/
def EndsBlock (bytes : Bytes) : Prop :=
  (HttpContext.readHeaders (bytes.length + 1) [] bytes).1 = .kGotAll

/-- The bytes complete a request, where the parser expects what the state says. -/
def Completes : HttpRequestParseState → Bytes → Prop
  | .kExpectHeaders, bytes => EndsBlock bytes
  | _, bytes =>
    ∃ line rest, cutLine bytes = some (line, rest) ∧ (readLine line).ok = true ∧ EndsBlock rest

/-- None of the chunks spoils the context where a request line is expected. -/
def Unspoiled (state : HttpRequestParseState) (chunks : List Chunk) : Prop :=
  ∀ pre c post, chunks = pre ++ c :: post → stateAfter state pre = .kExpectRequestLine →
    ¬ Spoils c.bytes

/-- Some chunk completes a request, and none before it spoiled the context. -/
def Serves (state : HttpRequestParseState) (chunks : List Chunk) : Prop :=
  ∃ mid o post, chunks = mid ++ o :: post ∧ Unspoiled state mid ∧
    Completes (stateAfter state mid) o.bytes

/-- A chunk that is rejected where a request line is expected, and a later one
that completes a request, with none before it that spoiled the context. -/
def Revives (chunks : List Chunk) : Prop :=
  ∃ pre d mid o post, chunks = pre ++ d :: (mid ++ o :: post) ∧
    Unspoiled .kExpectRequestLine (pre ++ d :: mid) ∧
    stateAfter .kExpectRequestLine pre = .kExpectRequestLine ∧ Rejects d.bytes ∧
    Completes (stateAfter .kExpectRequestLine (pre ++ d :: mid)) o.bytes

theorem unspoiled_nil (state : HttpRequestParseState) : Unspoiled state [] := by
  intro pre c post h
  simp at h

theorem unspoiled_cons_iff {state : HttpRequestParseState} {c : Chunk} {rest : List Chunk} :
    Unspoiled state (c :: rest) ↔
      ¬ (state = .kExpectRequestLine ∧ Spoils c.bytes) ∧
        Unspoiled (nextState state c.bytes) rest := by
  constructor
  · intro h
    refine ⟨fun hc => h [] c rest rfl hc.1 hc.2, fun pre d post heq hstate => ?_⟩
    exact h (c :: pre) d post (by rw [heq]; rfl) hstate
  · intro h pre d post heq hstate hspoils
    cases pre with
    | nil =>
      cases heq
      exact h.1 ⟨hstate, hspoils⟩
    | cons first pre =>
      cases heq
      exact h.2 pre d post rfl hstate hspoils

theorem unspoiled_append_iff {state : HttpRequestParseState} {cs ds : List Chunk} :
    Unspoiled state (cs ++ ds) ↔
      Unspoiled state cs ∧ Unspoiled (stateAfter state cs) ds := by
  induction cs generalizing state with
  | nil => exact ⟨fun h => ⟨unspoiled_nil state, h⟩, fun h => h.2⟩
  | cons c cs ih =>
    rw [List.cons_append, unspoiled_cons_iff, unspoiled_cons_iff, ih, and_assoc]
    rfl

theorem rejects_iff {bytes line rest : Bytes} (hcut : cutLine bytes = some (line, rest)) :
    Rejects bytes ↔ readLine line = .noMethod ∨ readLine line = .unknown := firstLine_iff hcut

/-- A line that is refused was refused before its method was taken, or after. -/
theorem refused_iff {bytes line rest : Bytes} (hcut : cutLine bytes = some (line, rest)) :
    Rejects bytes ∨ Spoils bytes ↔ (readLine line).ok = false := by
  rw [rejects_iff hcut, spoils_iff hcut]
  cases readLine line <;> simp [LineReading.ok, LineReading.halfRead]

/-- Not both. -/
theorem Rejects.not_spoils {bytes : Bytes} (h : Rejects bytes) : ¬ Spoils bytes := by
  obtain ⟨line, rest, hcut, hread⟩ := h
  rw [spoils_iff hcut]
  rcases hread with hread | hread <;> simp [hread, LineReading.halfRead]

/-! ## One chunk -/

section Parse

variable {ctx : HttpContext} {bytes : Bytes} {t : Timestamp}

/-- A header block is never refused, and completes the request when it ends. -/
theorem parse_headers {n : Nat} (r : HttpRequest) (hn : bytes.length < n) :
    ∃ ctx', HttpContext.parseLines n ⟨.kExpectHeaders, r⟩ bytes t = .ok (true, ctx') ∧
      (ctx'.gotAll = true ↔ EndsBlock bytes) := by
  refine ⟨_, HttpContext.parseLines_headers r t hn, ?_⟩
  have hstate : (HttpContext.readHeaders n r.headers bytes).1 =
      (HttpContext.readHeaders (bytes.length + 1) [] bytes).1 :=
    readHeaders_state hn (Nat.lt_succ_self _)
  rw [HttpContext.gotAll, decide_eq_true_iff, hstate]
  rfl

/-- From a clean context: whether the bytes are refused, and whether they
complete a request. -/
theorem parse_clean (hwait : Waiting ctx) (hclean : Clean ctx) (bytes : Bytes) (t : Timestamp) :
    ∃ ok ctx', ctx.parseBytes bytes t = .ok (ok, ctx') ∧
      (ok = false ↔ ctx.state = .kExpectRequestLine ∧ (Rejects bytes ∨ Spoils bytes)) ∧
      (ctx'.gotAll = true ↔ Completes ctx.state bytes) := by
  rcases hwait with hstate | hstate
  · cases hcut : cutLine bytes with
    | none =>
      refine ⟨true, ctx, HttpContext.parseBytes_incomplete hstate hcut, ?_, ?_⟩
      · have hnone : ¬ (Rejects bytes ∨ Spoils bytes) :=
          not_or.mpr ⟨not_firstLine hcut, not_firstLine hcut⟩
        simp [hnone]
      · have hnone : ¬ Completes .kExpectRequestLine bytes := not_firstLine hcut
        simp [HttpContext.gotAll, hstate, hnone]
    | some p =>
      obtain ⟨line, rest⟩ := p
      have hline := HttpContext.processRequestLine_spec (hclean hstate) line
      have hcompletes : Completes .kExpectRequestLine bytes ↔
          (readLine line).ok = true ∧ EndsBlock rest := firstLine_iff hcut
      rw [hstate, refused_iff hcut, hcompletes]
      cases hok : (readLine line).ok with
      | false =>
        rw [hok] at hline
        refine ⟨false, _, HttpContext.parseBytes_refused hstate hcut hline, ?_, ?_⟩
        · simp
        · simp [HttpContext.gotAll]
      | true =>
        rw [hok] at hline
        obtain ⟨ctx', hparse, hall⟩ := parse_headers (t := t) _ (cutLine_length hcut)
        refine ⟨true, ctx', ?_, ?_, ?_⟩
        · rw [HttpContext.parseBytes_accepted hstate hcut hline, hparse]
        · simp
        · rw [hall]
          simp
  · obtain ⟨ctx', hparse, hall⟩ :=
      parse_headers (t := t) ctx.request (Nat.lt_succ_self bytes.length)
    refine ⟨true, ctx', ?_, ?_, ?_⟩
    · rw [← hparse, ← hstate]
      rfl
    · simp [hstate]
    · rw [hall, hstate]
      rfl

end Parse

/-- A chunk leads to `onRequest` exactly when the parser has got all of a request
in it. -/
theorem onRequest_mem_iff {ctx ctx' ctx'' : HttpContext} {chunk : Chunk} {ok : Bool}
    {actions : List Action} (hparse : ctx.parseBytes chunk.bytes chunk.receiveTime = .ok (ok, ctx'))
    (hrecv : receiveBytes ctx chunk = .ok (actions, ctx'')) :
    (∃ req, .onRequest req ∈ actions) ↔ ctx'.gotAll = true := by
  simp only [receiveBytes, hparse, ok_bind] at hrecv
  cases hgot : ctx'.gotAll with
  | true =>
    rw [hgot] at hrecv
    cases hrecv
    exact ⟨fun _ => rfl, fun _ => ⟨_, List.mem_append_right _ (List.mem_singleton.mpr rfl)⟩⟩
  | false =>
    rw [hgot] at hrecv
    cases hrecv
    refine ⟨fun h => ?_, fun h => ?_⟩
    · obtain ⟨req, hreq⟩ := h
      cases ok <;> simp at hreq
    · cases h

/-! ## Chunk after chunk -/

/-- A chunk on a context that keeps a method it has not used: it ends the process,
or changes nothing and serves nothing. -/
theorem receive_spoiled {ctx : HttpContext} (hstate : ctx.state = .kExpectRequestLine)
    (hmethod : ctx.request.method ≠ .kInvalid) (chunk : Chunk) :
    receiveBytes ctx chunk = .error (.assertion .setMethod) ∨
      ∃ actions, receiveBytes ctx chunk = .ok (actions, ctx) ∧
        ∀ req, .onRequest req ∉ actions := by
  by_cases hopens : Opens chunk.bytes
  · exact .inl (receive_assert hstate hmethod hopens)
  · obtain ⟨actions, hrecv, _⟩ := receive_unopened hstate hopens
    refine .inr ⟨actions, hrecv, fun req hreq => ?_⟩
    cases hcut : cutLine chunk.bytes with
    | none =>
      have hparse := HttpContext.parseBytes_incomplete (t := chunk.receiveTime) hstate hcut
      have hgot := (onRequest_mem_iff hparse hrecv).mp ⟨req, hreq⟩
      simp [HttpContext.gotAll, hstate] at hgot
    | some p =>
      obtain ⟨line, rest⟩ := p
      have hread : readLine line = .noMethod :=
        readLine_eq_noMethod_iff.mpr fun hmem => hopens ⟨line, rest, hcut, hmem⟩
      have hparse := HttpContext.parseBytes_refused (t := chunk.receiveTime) hstate hcut
        (HttpContext.processRequestLine_noMethod hread)
      have hgot := (onRequest_mem_iff hparse hrecv).mp ⟨req, hreq⟩
      simp [HttpContext.gotAll] at hgot

/-- Such a context serves nothing any more, and stays as it is. -/
theorem serve_spoiled {ctx : HttpContext} (hstate : ctx.state = .kExpectRequestLine)
    (hmethod : ctx.request.method ≠ .kInvalid) (chunks : List Chunk) :
    (∀ req, .onRequest req ∉ (serveBytes ctx chunks).1) ∧
      ∀ ctx', (serveBytes ctx chunks).2 = .ok ctx' → ctx' = ctx := by
  induction chunks with
  | nil =>
    refine ⟨fun _ => List.not_mem_nil, fun ctx' h => ?_⟩
    cases h
    rfl
  | cons chunk rest ih =>
    rcases receive_spoiled hstate hmethod chunk with hfault | ⟨actions, hrecv, hquiet⟩
    · simp only [serveBytes, hfault]
      refine ⟨fun _ => List.not_mem_nil, fun _ h => ?_⟩
      cases h
    · simp only [serveBytes, hrecv, List.mem_append, not_or]
      exact ⟨fun req => ⟨hquiet req, ih.1 req⟩, ih.2⟩

/-- The two contexts a chunk can leave behind a clean one. -/
theorem receive_clean_cases {ctx : HttpContext} (hwait : Waiting ctx) (hclean : Clean ctx)
    (chunk : Chunk) :
    ∃ actions ctx', receiveBytes ctx chunk = .ok (actions, ctx') ∧
      ctx'.state = nextState ctx.state chunk.bytes ∧
      ((∃ req, .onRequest req ∈ actions) ↔ Completes ctx.state chunk.bytes) ∧
      ((¬ (ctx.state = .kExpectRequestLine ∧ Spoils chunk.bytes) ∧ Waiting ctx' ∧ Clean ctx') ∨
        ((ctx.state = .kExpectRequestLine ∧ Spoils chunk.bytes) ∧
          ctx'.state = .kExpectRequestLine ∧ ctx'.request.method ≠ .kInvalid)) := by
  obtain ⟨actions, ctx', hrecv, hwait', hstate', hclean'⟩ := receive_clean hwait hclean chunk
  obtain ⟨ok, ctx₁, hparse, _, hall⟩ :=
    parse_clean hwait hclean chunk.bytes chunk.receiveTime
  refine ⟨actions, ctx', hrecv, hstate', (onRequest_mem_iff hparse hrecv).trans hall, ?_⟩
  by_cases hspoils : ctx.state = .kExpectRequestLine ∧ Spoils chunk.bytes
  · refine .inr ⟨hspoils, ?_⟩
    have hdirty : ¬ Clean ctx' := fun h => hclean'.mp h hspoils
    unfold Clean at hdirty
    exact Classical.not_imp.mp hdirty
  · exact .inl ⟨hspoils, hwait', hclean'.mpr hspoils⟩

/-- Chunks that spoil nothing leave a clean context in the state they say. -/
theorem serve_unspoiled {ctx : HttpContext} (hwait : Waiting ctx) (hclean : Clean ctx)
    {chunks : List Chunk} (h : Unspoiled ctx.state chunks) :
    ∃ ctx', (serveBytes ctx chunks).2 = .ok ctx' ∧ Waiting ctx' ∧ Clean ctx' ∧
      ctx'.state = stateAfter ctx.state chunks := by
  induction chunks generalizing ctx with
  | nil => exact ⟨ctx, rfl, hwait, hclean, rfl⟩
  | cons chunk rest ih =>
    obtain ⟨hfirst, hrest⟩ := unspoiled_cons_iff.mp h
    obtain ⟨actions, ctx₁, hrecv, hstate₁, _, hcases⟩ := receive_clean_cases hwait hclean chunk
    rcases hcases with ⟨_, hwait₁, hclean₁⟩ | ⟨hspoils, _⟩
    · rw [← hstate₁] at hrest
      obtain ⟨ctx', hserve, hwait', hclean', hstate'⟩ := ih hwait₁ hclean₁ hrest
      refine ⟨ctx', ?_, hwait', hclean', ?_⟩
      · simp only [serveBytes, hrecv, hserve]
      · rw [hstate', hstate₁]
        rfl
    · exact absurd hspoils hfirst

/-- Chunks that spoil the context leave it spoiled, if they are taken at all. -/
theorem serve_not_unspoiled {ctx ctx' : HttpContext} (hwait : Waiting ctx) (hclean : Clean ctx)
    {chunks : List Chunk} (h : ¬ Unspoiled ctx.state chunks)
    (hserve : (serveBytes ctx chunks).2 = .ok ctx') :
    ctx'.state = .kExpectRequestLine ∧ ctx'.request.method ≠ .kInvalid := by
  induction chunks generalizing ctx with
  | nil => exact absurd (unspoiled_nil _) h
  | cons chunk rest ih =>
    obtain ⟨actions, ctx₁, hrecv, hstate₁, _, hcases⟩ := receive_clean_cases hwait hclean chunk
    simp only [serveBytes, hrecv] at hserve
    rcases hcases with ⟨hfirst, hwait₁, hclean₁⟩ | ⟨_, hline₁, hmethod₁⟩
    · refine ih hwait₁ hclean₁ (fun hrest => h ?_) hserve
      rw [hstate₁] at hrest
      exact unspoiled_cons_iff.mpr ⟨hfirst, hrest⟩
    · rw [(serve_spoiled hline₁ hmethod₁ rest).2 ctx' hserve]
      exact ⟨hline₁, hmethod₁⟩

theorem serves_cons_iff {state : HttpRequestParseState} {chunk : Chunk} {rest : List Chunk} :
    Serves state (chunk :: rest) ↔ Completes state chunk.bytes ∨
      (¬ (state = .kExpectRequestLine ∧ Spoils chunk.bytes) ∧
        Serves (nextState state chunk.bytes) rest) := by
  constructor
  · intro h
    obtain ⟨mid, o, post, heq, hmid, hcomplete⟩ := h
    cases mid with
    | nil =>
      cases heq
      exact .inl hcomplete
    | cons first mid =>
      cases heq
      obtain ⟨hfirst, hmid⟩ := unspoiled_cons_iff.mp hmid
      exact .inr ⟨hfirst, mid, o, post, rfl, hmid, hcomplete⟩
  · intro h
    rcases h with hcomplete | ⟨hfirst, mid, o, post, rfl, hmid, hcomplete⟩
    · exact ⟨[], chunk, rest, rfl, unspoiled_nil state, hcomplete⟩
    · exact ⟨chunk :: mid, o, post, rfl, unspoiled_cons_iff.mpr ⟨hfirst, hmid⟩, hcomplete⟩

/-- From a clean context the chunks lead to `onRequest` exactly when one of them
completes a request before the context is spoiled. -/
theorem serve_onRequest_iff {ctx : HttpContext} (hwait : Waiting ctx) (hclean : Clean ctx)
    (chunks : List Chunk) :
    (∃ req, .onRequest req ∈ (serveBytes ctx chunks).1) ↔ Serves ctx.state chunks := by
  induction chunks generalizing ctx with
  | nil => simp [serveBytes, Serves]
  | cons chunk rest ih =>
    obtain ⟨actions, ctx₁, hrecv, hstate₁, hserved, hcases⟩ :=
      receive_clean_cases hwait hclean chunk
    rw [serves_cons_iff, ← hserved, ← hstate₁]
    simp only [serveBytes, hrecv, List.mem_append, exists_or]
    apply or_congr_right
    rcases hcases with ⟨hfirst, hwait₁, hclean₁⟩ | ⟨hspoils, hline₁, hmethod₁⟩
    · rw [ih hwait₁ hclean₁]
      exact ⟨fun h => ⟨hfirst, h⟩, fun h => h.2⟩
    · refine ⟨fun h => ?_, fun h => absurd hspoils h.1⟩
      obtain ⟨req, hreq⟩ := h
      exact absurd hreq ((serve_spoiled hline₁ hmethod₁ rest).1 req)

/-! ## Connections -/

/-- A connection refuses a chunk exactly when its context does. -/
theorem HttpConnection.Drained.refuses_iff {c : HttpConnection} (hc : c.Drained) (chunk : Chunk) :
    c.Refuses chunk ↔
      ∃ ctx, c.context.parseBytes chunk.bytes chunk.receiveTime = .ok (false, ctx) := by
  obtain ⟨buf, hbuf, hbec⟩ := append_spec hc.wf chunk.bytes
  have hread : buf.readable = chunk.bytes := by rw [hbec.holds, hc.empty, List.nil_append]
  obtain ⟨herr, hok⟩ := HttpContext.parseRequest_spec c.context hbec.wf chunk.receiveTime
  rw [hread] at herr hok
  constructor
  · intro h
    obtain ⟨buf', ctx, buf'', hbuf', hparse⟩ := h
    rw [hbuf] at hbuf'
    cases hbuf'
    cases hbytes : c.context.parseBytes chunk.bytes chunk.receiveTime with
    | error e =>
      rw [herr e hbytes] at hparse
      cases hparse
    | ok p =>
      obtain ⟨ok, ctx'⟩ := p
      obtain ⟨buf₁, hparse', _⟩ := hok ok ctx' hbytes
      rw [hparse'] at hparse
      cases hparse
      exact ⟨ctx, rfl⟩
  · intro h
    obtain ⟨ctx, hbytes⟩ := h
    obtain ⟨buf', hparse, _⟩ := hok false ctx hbytes
    exact ⟨buf, ctx, buf', hbuf, hparse⟩

/-- A connection that went through chunks is drained and holds the context they
lead to. -/
theorem serve_ok {c c' : HttpConnection} (hc : c.Drained) {chunks : List Chunk}
    (h : (c.serve chunks).2 = .ok c') :
    (serveBytes c.context chunks).2 = .ok c'.context ∧ c'.Drained := by
  obtain ⟨_, herr, hok⟩ := serve_spec hc chunks
  cases hbytes : (serveBytes c.context chunks).2 with
  | error e =>
    rw [herr e hbytes] at h
    cases h
  | ok ctx =>
    obtain ⟨c₁, hc₁, hctx, hdrained⟩ := hok ctx hbytes
    rw [hc₁] at h
    cases h
    exact ⟨congrArg _ hctx.symm, hdrained⟩

/-- The same for one chunk. -/
theorem receive_ok {c c' : HttpConnection} (hc : c.Drained) {chunk : Chunk}
    {actions : List Action} (h : c.receive chunk = .ok (actions, c')) :
    receiveBytes c.context chunk = .ok (actions, c'.context) ∧ c'.Drained := by
  obtain ⟨herr, hok⟩ := receive_spec hc chunk
  cases hbytes : receiveBytes c.context chunk with
  | error e =>
    rw [herr e hbytes] at h
    cases h
  | ok p =>
    obtain ⟨acts, ctx⟩ := p
    obtain ⟨c₁, hc₁, hctx, hdrained⟩ := hok acts ctx hbytes
    rw [hc₁] at h
    cases h
    exact ⟨by rw [hctx], hdrained⟩

/-- The state after chunks, a chunk and more chunks. -/
theorem stateAfter_middle (state : HttpRequestParseState) (pre : List Chunk) (d : Chunk)
    (mid : List Chunk) :
    stateAfter state (pre ++ d :: mid) =
      stateAfter (nextState (stateAfter state pre) d.bytes) mid := by
  simp [stateAfter, List.foldl_append]

/-- A rejected chunk and a later one that completes a request: the request is
served. -/
theorem not_quiet_of_revives {chunks : List Chunk} (h : Revives chunks) :
    ¬ QuietAfterBad chunks := by
  intro hquiet
  obtain ⟨pre, d, mid, o, post, rfl, hunspoiled, hstate, hrejects, hcomplete⟩ := h
  obtain ⟨c, hc, hdrained, hctx⟩ := onConnection_spec
  obtain ⟨hpre, hdmid⟩ := unspoiled_append_iff.mp hunspoiled
  -- up to the rejected chunk
  obtain ⟨ctx₁, hserve, hwait₁, hclean₁, hstate₁⟩ :=
    serve_unspoiled waiting_init clean_init hpre
  have hline₁ : ctx₁.state = .kExpectRequestLine := hstate₁.trans hstate
  rw [← hctx] at hserve
  obtain ⟨c₁, hc₁, rfl, hdrained₁⟩ := (serve_spec hdrained pre).2.2 _ hserve
  -- the rejected chunk
  obtain ⟨ok, ctx', hparse, hrefused, _⟩ :=
    parse_clean hwait₁ hclean₁ d.bytes d.receiveTime
  have hok : ok = false := hrefused.mpr ⟨hline₁, .inl hrejects⟩
  have hrefuses : c₁.Refuses d :=
    (hdrained₁.refuses_iff d).mpr ⟨ctx', by rw [hparse, hok]⟩
  obtain ⟨actions, ctx₂, hrecv, hstate₂, _, hcases⟩ := receive_clean_cases hwait₁ hclean₁ d
  obtain ⟨c₂, hc₂, rfl, hdrained₂⟩ := (receive_spec hdrained₁ d).2 _ _ hrecv
  rcases hcases with ⟨_, hwait₂, hclean₂⟩ | ⟨hspoils, _⟩
  · -- behind it
    have hnext : c₂.context.state =
        nextState (stateAfter .kExpectRequestLine pre) d.bytes := by
      rw [hstate₂, hstate₁]
      rfl
    have hserves : Serves c₂.context.state (mid ++ o :: post) := by
      refine ⟨mid, o, post, rfl, ?_, ?_⟩
      · rw [hnext]
        exact (unspoiled_cons_iff.mp hdmid).2
      · rw [hnext, ← stateAfter_middle]
        exact hcomplete
    obtain ⟨req, hreq⟩ := (serve_onRequest_iff hwait₂ hclean₂ _).mpr hserves
    rw [← (serve_spec hdrained₂ _).1] at hreq
    exact hquiet c hc pre d _ rfl c₁ actions c₂ hc₁ hrefuses hc₂ req hreq
  · exact hrejects.not_spoils hspoils.2

/-- A request served behind a refused chunk: the chunk was rejected, and nothing
had spoiled the context. -/
theorem revives_of_not_quiet {c c₁ c₂ : HttpConnection} {pre post : List Chunk} {d : Chunk}
    {actions : List Action} {req : HttpRequest} (hc : HttpConnection.onConnection = .ok c)
    (hc₁ : (c.serve pre).2 = .ok c₁) (hrefuses : c₁.Refuses d)
    (hc₂ : c₁.receive d = .ok (actions, c₂)) (hreq : .onRequest req ∈ (c₂.serve post).1) :
    Revives (pre ++ d :: post) := by
  obtain ⟨c', hc', hdrained, hctx⟩ := onConnection_spec
  obtain rfl : c' = c := Except.ok.inj (hc'.symm.trans hc)
  obtain ⟨hserve, hdrained₁⟩ := serve_ok hdrained hc₁
  obtain ⟨hrecv, hdrained₂⟩ := receive_ok hdrained₁ hc₂
  obtain ⟨ctx', hparse⟩ := (hdrained₁.refuses_iff d).mp hrefuses
  rw [(serve_spec hdrained₂ post).1] at hreq
  rw [hctx] at hserve
  by_cases hpre : Unspoiled .kExpectRequestLine pre
  · obtain ⟨ctx₁, hserve₁, hwait₁, hclean₁, hstate₁⟩ := serve_unspoiled waiting_init clean_init hpre
    rw [hserve] at hserve₁
    cases hserve₁
    obtain ⟨ok, ctx'', hparse', hrefused, _⟩ :=
      parse_clean hwait₁ hclean₁ d.bytes d.receiveTime
    rw [hparse] at hparse'
    cases hparse'
    obtain ⟨hline₁, hbad⟩ := hrefused.mp rfl
    obtain ⟨actions', ctx₂, hrecv', hstate₂, _, hcases⟩ := receive_clean_cases hwait₁ hclean₁ d
    rw [hrecv] at hrecv'
    cases hrecv'
    rcases hcases with ⟨hfirst, hwait₂, hclean₂⟩ | ⟨_, hline₂, hmethod₂⟩
    · have hrejects : Rejects d.bytes := hbad.resolve_right fun h => hfirst ⟨hline₁, h⟩
      obtain ⟨mid, o, rest, rfl, hmid, hcomplete⟩ :=
        (serve_onRequest_iff hwait₂ hclean₂ post).mp ⟨req, hreq⟩
      rw [hstate₂] at hmid hcomplete
      refine ⟨pre, d, mid, o, rest, rfl, ?_, hstate₁.symm.trans hline₁, hrejects, ?_⟩
      · refine unspoiled_append_iff.mpr ⟨hpre, unspoiled_cons_iff.mpr ⟨?_, ?_⟩⟩
        · exact fun h => hrejects.not_spoils h.2
        · rw [hstate₁] at hmid
          exact hmid
      · rw [stateAfter_middle]
        rw [hstate₁] at hcomplete
        exact hcomplete
    · exact absurd hreq ((serve_spoiled hline₂ hmethod₂ post).1 req)
  · -- a spoiled context serves nothing
    obtain ⟨hline₁, hmethod₁⟩ := serve_not_unspoiled waiting_init clean_init hpre hserve
    rcases receive_spoiled hline₁ hmethod₁ d with hfault | ⟨actions', hrecv', _⟩
    · rw [hrecv] at hfault
      cases hfault
    · rw [hrecv] at hrecv'
      have hsame : c₂.context = c₁.context := congrArg Prod.snd (Except.ok.inj hrecv')
      rw [hsame] at hreq
      exact absurd hreq ((serve_spoiled hline₁ hmethod₁ post).1 req)

/-- **Exactly when nothing is served after a bad request.** The chunks a new
connection receives never lead to `onRequest` behind one that was refused if and
only if no chunk is rejected before its method was taken, where a request line
is expected, and followed by one that completes a request while no line has been
left half read. -/
theorem quietAfterBad_iff (chunks : List Chunk) : QuietAfterBad chunks ↔ ¬ Revives chunks := by
  constructor
  · intro hquiet hrevives
    exact not_quiet_of_revives hrevives hquiet
  · intro h c hc pre d post heq c₁ actions c₂ hc₁ hrefuses hc₂ req hreq
    rw [heq] at h
    exact h (revives_of_not_quiet hc hc₁ hrefuses hc₂ hreq)

/-- A bare CRLF is answered by a bad request and a half-close; the request in the
next chunk is served. -/
theorem quietAfterBad_crlf_fails :
    ¬ QuietAfterBad [⟨ascii "\r\n", 0⟩, ⟨ascii "GET / HTTP/1.1\r\n\r\n", 1⟩] := by
  apply not_quiet_of_revives
  refine ⟨[], ⟨ascii "\r\n", 0⟩, [], ⟨ascii "GET / HTTP/1.1\r\n\r\n", 1⟩, [], rfl, ?_, rfl, ?_, ?_⟩
  · refine unspoiled_cons_iff.mpr ⟨fun h => ?_, unspoiled_nil _⟩
    exact Rejects.not_spoils ⟨[], [], by decide, .inl (by decide)⟩ h.2
  · exact ⟨[], [], by decide, .inl (by decide)⟩
  · refine ⟨ascii "GET / HTTP/1.1", ascii "\r\n", by decide, by decide, ?_⟩
    unfold EndsBlock
    decide

end ClyServer.Http
