import ClyServer.Http.MethodAssertion
import Mathlib.Logic.Relation

/-!
# The parser's loop ends

The `while` of `parseRequest` has a branch for two of its four states and spins in
the others. It ends because it never gets there: a connection's context waits for
a request line or for headers at every call, and a round that goes on has taken a
line off the buffer. `parseRound` is one round, `parseLoop_succ` says that the
loop is rounds, and `parser_terminates` is the statement about a connection's
whole life.
-/

namespace ClyServer.Http

open ClyServer.Lib ClyServer.Net ClyServer.Net.Buffer

/-- How a round ends: `hasMore` is still set, or it is not and `ok` is the answer. -/
inductive Round where
  | again (ctx : HttpContext) (buf : Buffer)
  | done (ok : Bool) (ctx : HttpContext) (buf : Buffer)

namespace HttpContext

/-- The body of the `while` of `parseRequest`. -/
def parseRound (ctx : HttpContext) (buf : Buffer) (receiveTime : Timestamp) : Checked Round :=
  match ctx.state with
  | .kExpectRequestLine =>
    match buf.findCRLF with
    | some crlf => do
      let (ok, request) ← processRequestLine ctx.request (slice buf.buffer buf.peek crlf)
      if ok then
        let buf ← buf.retrieveUntil (crlf + 2)
        return .again ⟨.kExpectHeaders, request.setReceiveTime receiveTime⟩ buf
      else return .done false { ctx with request := request } buf
    | none => return .done true ctx buf
  | .kExpectHeaders =>
    match buf.findCRLF with
    | some crlf =>
      match splitFirst 58 (slice buf.buffer buf.peek crlf) with
      | some (field, rest) => do
        let buf ← buf.retrieveUntil (crlf + 2)
        return .again { ctx with request := ctx.request.addHeader field rest } buf
      | none => do
        let buf ← buf.retrieveUntil (crlf + 2)
        return .done true { ctx with state := .kGotAll } buf
    | none => return .done true ctx buf
  | .kExpectBody => return .again ctx buf
  | .kGotAll => return .again ctx buf

/-- The loop is a round, and the loop again if the round says so. -/
theorem parseLoop_succ (n : Nat) (ctx : HttpContext) (buf : Buffer) (t : Timestamp) :
    parseLoop (n + 1) ctx buf t = (do
      match ← parseRound ctx buf t with
      | .again ctx' buf' => parseLoop n ctx' buf' t
      | .done ok ctx' buf' => return (ok, ctx', buf')) := by
  rw [parseLoop, parseRound]
  cases ctx.state with
  | kExpectRequestLine =>
    cases buf.findCRLF with
    | none => rfl
    | some crlf =>
      dsimp only
      cases processRequestLine ctx.request (slice buf.buffer buf.peek crlf) with
      | error e => rfl
      | ok p =>
        obtain ⟨ok, request⟩ := p
        cases ok with
        | false => rfl
        | true =>
          simp only [ok_bind, if_true]
          cases buf.retrieveUntil (crlf + 2) <;> rfl
  | kExpectHeaders =>
    cases buf.findCRLF with
    | none => rfl
    | some crlf =>
      dsimp only
      cases splitFirst 58 (slice buf.buffer buf.peek crlf) with
      | none => cases buf.retrieveUntil (crlf + 2) <;> rfl
      | some p => cases buf.retrieveUntil (crlf + 2) <;> rfl
  | kExpectBody => rfl
  | kGotAll => rfl

/-- A round that goes on. -/
def Continues (t : Timestamp) (s s' : HttpContext × Buffer) : Prop :=
  parseRound s.1 s.2 t = .ok (.again s'.1 s'.2)

/-- The rounds of a call: `s'` is a state at the head of the loop. -/
def Rounds (t : Timestamp) : HttpContext × Buffer → HttpContext × Buffer → Prop :=
  Relation.ReflTransGen (Continues t)

/-- What a round can do where the context waits: go on to headers with a line less in
the buffer, leave the loop, or fail the assertion of `setMethod`. -/
inductive RoundOutcome (buf : Buffer) : Checked Round → Prop
  | again {ctx' : HttpContext} {buf' : Buffer} (hstate : ctx'.state = .kExpectHeaders)
      (hwf : buf'.Wf) (hless : buf'.readableBytes < buf.readableBytes) :
      RoundOutcome buf (.ok (.again ctx' buf'))
  | done {ok : Bool} {ctx' : HttpContext} {buf' : Buffer}
      (hstate : Waiting ctx' ∨ ctx'.state = .kGotAll) (hwf : buf'.Wf) :
      RoundOutcome buf (.ok (.done ok ctx' buf'))
  | assertion : RoundOutcome buf (.error (.assertion .setMethod))

/-- The line of a round, taken off. -/
theorem retrieve_line {buf : Buffer} (hwf : buf.Wf) {line rest : Bytes}
    (hcut : cutLine buf.readable = some (line, rest)) :
    ∃ crlf buf', buf.findCRLF = some crlf ∧ slice buf.buffer buf.peek crlf = line ∧
      buf.retrieveUntil (crlf + 2) = .ok buf' ∧ buf'.Wf ∧
      buf'.readableBytes < buf.readableBytes := by
  obtain ⟨crlf, hcrlf, hline, buf', hbuf', hwf', hrest⟩ := findCRLF_of_some hwf hcut
  refine ⟨crlf, buf', hcrlf, hline, hbuf', hwf', ?_⟩
  rw [← hwf'.length_readable, ← hwf.length_readable, hrest]
  exact cutLine_length hcut

/-- The only fault of a request line is the assertion of `setMethod`. -/
theorem processRequestLine_outcome (r : HttpRequest) (line : Bytes) :
    (∃ ok r', processRequestLine r line = .ok (ok, r')) ∨
      processRequestLine r line = .error (.assertion .setMethod) := by
  by_cases hr : r.method = .kInvalid
  · exact .inl ⟨_, _, processRequestLine_spec hr line⟩
  · by_cases hline : readLine line = .noMethod
    · exact .inl ⟨_, _, processRequestLine_noMethod hline⟩
    · exact .inr (processRequestLine_assert hline hr)

theorem parseRound_outcome {ctx : HttpContext} (hwait : Waiting ctx) {buf : Buffer} (hwf : buf.Wf)
    (t : Timestamp) : RoundOutcome buf (parseRound ctx buf t) := by
  unfold parseRound
  rcases hwait with hstate | hstate
  · rw [hstate]
    cases hcut : cutLine buf.readable with
    | none =>
      simp only [findCRLF_of_none hcut]
      exact .done (.inl (.inl hstate)) hwf
    | some p =>
      obtain ⟨crlf, buf', hcrlf, hline, hbuf', hwf', hless⟩ := retrieve_line hwf hcut
      simp only [hcrlf, hline]
      rcases processRequestLine_outcome ctx.request p.1 with ⟨ok, request, hp⟩ | hp
      · rw [hp]
        cases ok with
        | false => exact .done (.inl (.inl rfl)) hwf
        | true =>
          simp only [ok_bind, if_true, hbuf']
          exact .again rfl hwf' hless
      · rw [hp]
        exact .assertion
  · rw [hstate]
    cases hcut : cutLine buf.readable with
    | none =>
      simp only [findCRLF_of_none hcut]
      exact .done (.inl (.inr hstate)) hwf
    | some p =>
      obtain ⟨crlf, buf', hcrlf, hline, hbuf', hwf', hless⟩ := retrieve_line hwf hcut
      simp only [hcrlf, hline]
      cases splitFirst 58 p.1 with
      | none =>
        simp only [hbuf', ok_bind]
        exact .done (.inr rfl) hwf'
      | some q =>
        simp only [hbuf', ok_bind]
        exact .again rfl hwf' hless

/-- At the head of the loop the context still waits, and the buffer is in order. -/
theorem Rounds.waiting {t : Timestamp} {s s' : HttpContext × Buffer} (h : Rounds t s s')
    (hwait : Waiting s.1) (hwf : s.2.Wf) : Waiting s'.1 ∧ s'.2.Wf := by
  induction h with
  | refl => exact ⟨hwait, hwf⟩
  | @tail b c _ hnext ih =>
    have hround := parseRound_outcome ih.1 ih.2 t
    rw [show parseRound b.1 b.2 t = .ok (.again c.1 c.2) from hnext] at hround
    cases hround with
    | again hstate hwf' _ => exact ⟨.inr hstate, hwf'⟩

/-- How a loop ends: with a context that waits or has a request, or at an assertion. -/
inductive LoopOutcome : Checked (Bool × HttpContext × Buffer) → Prop
  | answer {ok : Bool} {ctx : HttpContext} {buf : Buffer}
      (hstate : Waiting ctx ∨ ctx.state = .kGotAll) (hwf : buf.Wf) :
      LoopOutcome (.ok (ok, ctx, buf))
  | assertion : LoopOutcome (.error (.assertion .setMethod))

/-- With the bytes at hand as a bound on the rounds, the loop gets to a round that
does not go on, and ends there. -/
theorem parseLoop_ends {ctx : HttpContext} (hwait : Waiting ctx) {buf : Buffer} (hwf : buf.Wf)
    {n : Nat} (hn : buf.readableBytes < n) (t : Timestamp) :
    LoopOutcome (parseLoop n ctx buf t) ∧
      ∃ s, Rounds t (ctx, buf) s ∧ ∀ s', ¬ Continues t s s' := by
  induction n generalizing ctx buf with
  | zero => exact absurd hn (Nat.not_lt_zero _)
  | succ n ih =>
    rw [parseLoop_succ]
    have hround := parseRound_outcome hwait hwf t
    cases hr : parseRound ctx buf t with
    | error e =>
      rw [hr] at hround
      cases hround
      refine ⟨.assertion, _, .refl, fun s' hs' => ?_⟩
      cases hr.symm.trans hs'
    | ok round =>
      rw [hr] at hround
      cases hround with
      | @again ctx' buf' hstate hwf' hless =>
        obtain ⟨hend, s, hs, hlast⟩ := ih (.inr hstate) hwf' (by omega)
        have hnext : Continues t (ctx, buf) (ctx', buf') := hr
        exact ⟨hend, s, .head hnext hs, hlast⟩
      | done hstate hwf' =>
        refine ⟨.answer hstate hwf', _, .refl, fun s' hs' => ?_⟩
        cases hr.symm.trans hs'

/-- A call where the context waits returns, with a context that waits or has a
request, or stops at an assertion. -/
theorem parseRequest_ends {ctx : HttpContext} (hwait : Waiting ctx) {buf : Buffer} (hwf : buf.Wf)
    (t : Timestamp) :
    (∃ ok ctx' buf', ctx.parseRequest buf t = .ok (ok, ctx', buf') ∧
      (Waiting ctx' ∨ ctx'.state = .kGotAll)) ∨
    ctx.parseRequest buf t = .error (.assertion .setMethod) := by
  obtain ⟨hend, _⟩ := parseLoop_ends hwait hwf (Nat.lt_succ_self buf.readableBytes) t
  unfold parseRequest
  cases hloop : parseLoop (buf.readableBytes + 1) ctx buf t with
  | error e =>
    rw [hloop] at hend
    cases hend
    exact .inr rfl
  | ok p =>
    rw [hloop] at hend
    cases hend with
    | @answer ok ctx' buf₁ hstate hwf₁ =>
      obtain ⟨buf₂, hbuf₂, _⟩ := retrieveAsString_spec hwf₁ (Nat.le_refl _)
      refine .inl ⟨ok, ctx', buf₂, ?_, hstate⟩
      simp only [ok_bind, retrieveAllAsString, hbuf₂]
      rfl

end HttpContext

/-! ## A connection's life -/

/-- A connection between chunks, with a context that waits. -/
def HttpConnection.Ready (c : HttpConnection) : Prop := c.Drained ∧ Waiting c.context

/-- `onMessage` leaves a context that waits: a complete request is reset. -/
theorem receive_ready {c c' : HttpConnection} (hc : c.Ready) {chunk : Chunk}
    {actions : List Action} (h : c.receive chunk = .ok (actions, c')) : c'.Ready := by
  obtain ⟨hdrained, hwait⟩ := hc
  obtain ⟨buf, hbuf, hbec⟩ := append_spec hdrained.wf chunk.bytes
  obtain ⟨herr, hok⟩ := receive_spec hdrained chunk
  have hdrained' : c'.Drained := by
    cases hbytes : receiveBytes c.context chunk with
    | error e => cases h.symm.trans (herr e hbytes)
    | ok p =>
      obtain ⟨c'', hc'', _, hd⟩ := hok p.1 p.2 hbytes
      cases h.symm.trans hc''
      exact hd
  refine ⟨hdrained', ?_⟩
  simp only [HttpConnection.receive, HttpConnection.onMessage, hbuf, ok_bind] at h
  rcases HttpContext.parseRequest_ends hwait hbec.wf chunk.receiveTime with
    ⟨ok, ctx', buf', hparse, hstate⟩ | hparse
  · simp only [hparse, ok_bind] at h
    by_cases hgot : ctx'.gotAll = true
    · rw [if_pos hgot] at h
      cases h
      exact .inl rfl
    · rw [if_neg hgot] at h
      cases h
      exact hstate.resolve_right fun heq => hgot (decide_eq_true heq)
  · rw [hparse] at h
    cases h

theorem serve_ready {c c' : HttpConnection} (hc : c.Ready) {chunks : List Chunk}
    (h : (c.serve chunks).2 = .ok c') : c'.Ready := by
  induction chunks generalizing c with
  | nil =>
    cases h
    exact hc
  | cons chunk rest ih =>
    unfold HttpConnection.serve at h
    cases hrecv : c.receive chunk with
    | error e =>
      rw [hrecv] at h
      cases h
    | ok p =>
      rw [hrecv] at h
      exact ih (receive_ready hc hrecv) h

/-- **The parser's loop ends on every input.** On a new connection, after any chunks,
the context waits for a request line or for headers; whatever chunk comes next,
that is so at the head of every round of the call, a round that goes on leaves
fewer readable bytes, the rounds come to one that does not, and the call returns
or stops at an assertion. -/
theorem parser_terminates {c c₁ : HttpConnection} (hc : HttpConnection.onConnection = .ok c)
    {chunks : List Chunk} (hserve : (c.serve chunks).2 = .ok c₁) (d : Chunk) :
    Waiting c₁.context ∧ ∃ buf, c₁.inputBuffer.append d.bytes = .ok buf ∧
      (∀ s, HttpContext.Rounds d.receiveTime (c₁.context, buf) s → Waiting s.1 ∧
        ∀ s', HttpContext.Continues d.receiveTime s s' →
          s'.2.readableBytes < s.2.readableBytes) ∧
      (∃ s, HttpContext.Rounds d.receiveTime (c₁.context, buf) s ∧
        ∀ s', ¬ HttpContext.Continues d.receiveTime s s') ∧
      ((∃ r, c₁.context.parseRequest buf d.receiveTime = .ok r) ∨
        ∃ site, c₁.context.parseRequest buf d.receiveTime = .error (.assertion site)) := by
  obtain ⟨c', hc', hdrained, hctx⟩ := onConnection_spec
  cases hc.symm.trans hc'
  have hnew : c.Ready := ⟨hdrained, hctx ▸ waiting_init⟩
  obtain ⟨hdrained₁, hwait⟩ := serve_ready hnew hserve
  obtain ⟨buf, hbuf, hbec⟩ := append_spec hdrained₁.wf d.bytes
  refine ⟨hwait, buf, hbuf, fun s hs => ?_, ?_, ?_⟩
  · obtain ⟨hwait', hwf'⟩ := hs.waiting hwait hbec.wf
    refine ⟨hwait', fun s' hnext => ?_⟩
    have hround := HttpContext.parseRound_outcome hwait' hwf' d.receiveTime
    rw [show HttpContext.parseRound s.1 s.2 d.receiveTime = .ok (.again s'.1 s'.2) from hnext]
      at hround
    cases hround with
    | again _ _ hless => exact hless
  · exact (HttpContext.parseLoop_ends hwait hbec.wf (Nat.lt_succ_self _) d.receiveTime).2
  · rcases HttpContext.parseRequest_ends hwait hbec.wf d.receiveTime with
      ⟨ok, ctx', buf', hparse, _⟩ | hparse
    · exact .inl ⟨_, hparse⟩
    · exact .inr ⟨_, hparse⟩

/-- A request in two chunks: the second call starts among the headers. -/
theorem parser_terminates_split :
    ∃ c c₁, HttpConnection.onConnection = .ok c ∧
      (c.serve [⟨ascii "GET / HTTP/1.1\r\nA:1\r\n", 0⟩]).2 = .ok c₁ ∧
      c₁.context.state = .kExpectHeaders ∧
      ∃ buf, c₁.inputBuffer.append (ascii "\r\n") = .ok buf ∧
        ∃ s, HttpContext.Rounds 1 (c₁.context, buf) s ∧ ∀ s', ¬ HttpContext.Continues 1 s s' := by
  obtain ⟨c, hc, hdrained, hctx⟩ := onConnection_spec
  obtain ⟨_, _, hok⟩ := serve_new hc [⟨ascii "GET / HTTP/1.1\r\nA:1\r\n", 0⟩]
  obtain ⟨ctx, hserved, hstate⟩ : ∃ ctx,
      (serveBytes .init [⟨ascii "GET / HTTP/1.1\r\nA:1\r\n", 0⟩]).2 = .ok ctx ∧
      ctx.state = .kExpectHeaders := ⟨_, by rfl, by rfl⟩
  obtain ⟨c₁, hc₁, rfl, _⟩ := hok ctx hserved
  obtain ⟨_, buf, hbuf, _, hends, _⟩ := parser_terminates hc hc₁ ⟨ascii "\r\n", 1⟩
  exact ⟨c, c₁, hc, hc₁, hstate, buf, hbuf, hends⟩

end ClyServer.Http
