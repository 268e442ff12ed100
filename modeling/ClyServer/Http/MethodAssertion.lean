import ClyServer.Http.Parsing

/-!
# The assertion in `setMethod`

`setMethod` asserts that no method has been set. A request line that is refused
after its method was taken leaves that method in the context, neither
`parseRequest` nor `onMessage` clears it, and the half-close that answers a bad
request does not keep further chunks from arriving: the next request line that
gets as far as `setMethod` ends the process.

`methodSafe_iff` is the exact statement. Which chunks begin where a request line
is expected is a function of the bytes alone (`stateAfter`); the process is ended
if and only if such a chunk has a method that is named and then no target or no
version (`Spoils`), and a later one gets as far as a space (`Opens`).
-/

namespace ClyServer.Http

open ClyServer.Lib ClyServer.Net ClyServer.Net.Buffer

/-- The chunks never make `setMethod`'s assertion fail on a new connection. -/
def MethodSafe (chunks : List Chunk) : Prop :=
  ∀ c, HttpConnection.onConnection = .ok c →
    (c.serve chunks).2 ≠ .error (.assertion .setMethod)

/-! ## What the bytes say -/

/-- A reading that stopped after the method was taken. -/
def LineReading.halfRead : LineReading → Bool
  | noVersion _ => true
  | badVersion _ _ => true
  | _ => false

/-- The first line of the bytes names a method and is refused after it. -/
def Spoils (bytes : Bytes) : Prop :=
  ∃ line rest, cutLine bytes = some (line, rest) ∧ (readLine line).halfRead = true

/-- The first line of the bytes is there and has a space, so it reaches `setMethod`. -/
def Opens (bytes : Bytes) : Prop :=
  ∃ line rest, cutLine bytes = some (line, rest) ∧ 32 ∈ line

/-- What is said of the first line, where it is known. -/
theorem firstLine_iff {P : Bytes → Bytes → Prop} {bytes line rest : Bytes}
    (hcut : cutLine bytes = some (line, rest)) :
    (∃ line rest, cutLine bytes = some (line, rest) ∧ P line rest) ↔ P line rest := by
  constructor
  · intro h
    obtain ⟨line', rest', hcut', hP⟩ := h
    cases hcut.symm.trans hcut'
    exact hP
  · intro h
    exact ⟨line, rest, hcut, h⟩

/-- Where there is no first line, nothing is said of it. -/
theorem not_firstLine {P : Bytes → Bytes → Prop} {bytes : Bytes} (hcut : cutLine bytes = none) :
    ¬ ∃ line rest, cutLine bytes = some (line, rest) ∧ P line rest := by
  intro h
  obtain ⟨line, rest, hcut', _⟩ := h
  cases hcut.symm.trans hcut'

theorem spoils_iff {bytes line rest : Bytes} (hcut : cutLine bytes = some (line, rest)) :
    Spoils bytes ↔ (readLine line).halfRead = true := firstLine_iff hcut

/-- Where a header block leaves the parser, with a completed request dispatched
and the context reset. -/
def afterHeaders (bytes : Bytes) : HttpRequestParseState :=
  if (HttpContext.readHeaders (bytes.length + 1) [] bytes).1 = .kGotAll then .kExpectRequestLine
  else .kExpectHeaders

/-- Where a chunk leaves the parser. -/
def nextState : HttpRequestParseState → Bytes → HttpRequestParseState
  | .kExpectHeaders, bytes => afterHeaders bytes
  | _, bytes =>
    match cutLine bytes with
    | none => .kExpectRequestLine
    | some (line, rest) => if (readLine line).ok then afterHeaders rest else .kExpectRequestLine

/-- What the parser expects next after the chunks, from the state given. -/
def stateAfter (state : HttpRequestParseState) (chunks : List Chunk) : HttpRequestParseState :=
  chunks.foldl (fun st c => nextState st c.bytes) state

/-- Two chunks that end the process together: one that spoils the context, where
a request line is expected, and a later one that opens a request line. -/
def Poisoned (state : HttpRequestParseState) (chunks : List Chunk) : Prop :=
  ∃ pre c mid d post, chunks = pre ++ c :: (mid ++ d :: post) ∧
    stateAfter state pre = .kExpectRequestLine ∧ Spoils c.bytes ∧ Opens d.bytes

/-! ## Readings -/

theorem readLine_eq_noMethod_iff {line : Bytes} : readLine line = .noMethod ↔ 32 ∉ line := by
  rw [← splitFirst_eq_none_iff]
  unfold readLine
  cases splitFirst 32 line with
  | none => simp
  | some p =>
    obtain ⟨m, rest⟩ := p
    refine ⟨fun h => ?_, fun h => nomatch h⟩
    dsimp only at h
    split at h
    · cases h
    · split at h
      · cases h
      · split at h <;> cases h

/-- A half-read line leaves its method in the record. -/
theorem record_method_of_halfRead {line : Bytes} (r : HttpRequest)
    (h : (readLine line).halfRead = true) :
    ((readLine line).record r).method ≠ .kInvalid := by
  revert h
  unfold readLine
  cases splitFirst 32 line with
  | none => intro h; cases h
  | some p =>
    obtain ⟨m, rest⟩ := p
    dsimp only
    by_cases hm : methodOf m = .kInvalid
    · rw [if_pos hm]
      intro h
      cases h
    · rw [if_neg hm]
      cases splitFirst 32 rest with
      | none => exact fun _ => hm
      | some q =>
        obtain ⟨url, tail⟩ := q
        dsimp only
        cases HttpContext.versionOf tail with
        | none => exact fun _ => hm
        | some v => intro h; cases h

/-- A line refused otherwise leaves none. -/
theorem record_method_of_refused {reading : LineReading} {r : HttpRequest}
    (hr : r.method = .kInvalid) (hok : reading.ok = false) (hhalf : reading.halfRead = false) :
    (reading.record r).method = .kInvalid := by
  cases reading with
  | noMethod => exact hr
  | unknown => rfl
  | noVersion m => cases hhalf
  | badVersion m url => cases hhalf
  | accepted m url v => cases hok

/-- A half-read line is not accepted and has a space. -/
theorem Spoils.opens {bytes : Bytes} (h : Spoils bytes) : Opens bytes := by
  obtain ⟨line, rest, hcut, hhalf⟩ := h
  refine ⟨line, rest, hcut, Decidable.byContradiction fun hmem => ?_⟩
  rw [readLine_eq_noMethod_iff.mpr hmem] at hhalf
  cases hhalf

/-- How a header block ends depends on its lines, not on the map or the fuel. -/
theorem readHeaders_state {n k : Nat} {hs hs' : HeaderMap} {bytes : Bytes}
    (hn : bytes.length < n) (hk : bytes.length < k) :
    (HttpContext.readHeaders n hs bytes).1 = (HttpContext.readHeaders k hs' bytes).1 := by
  induction n generalizing k hs hs' bytes with
  | zero => exact absurd hn (Nat.not_lt_zero _)
  | succ n ih =>
    obtain ⟨k, rfl⟩ := Nat.exists_eq_succ_of_ne_zero (Nat.ne_of_gt (Nat.zero_lt_of_lt hk))
    unfold HttpContext.readHeaders
    cases hcut : cutLine bytes with
    | none => rfl
    | some p =>
      obtain ⟨line, rest⟩ := p
      dsimp only
      cases splitFirst 58 line with
      | none => rfl
      | some f =>
        have hlen := cutLine_length hcut
        exact ih (by omega) (by omega)

/-- A header block ends complete or waiting for more. -/
theorem readHeaders_waiting {n : Nat} {hs : HeaderMap} {bytes : Bytes}
    (h : (HttpContext.readHeaders n hs bytes).1 ≠ .kGotAll) :
    (HttpContext.readHeaders n hs bytes).1 = .kExpectHeaders := by
  induction n generalizing hs bytes with
  | zero => rfl
  | succ n ih =>
    unfold HttpContext.readHeaders at h ⊢
    cases hcut : cutLine bytes with
    | none => rfl
    | some p =>
      obtain ⟨line, rest⟩ := p
      simp only [hcut] at h ⊢
      cases hcolon : splitFirst 58 line with
      | none =>
        simp only [hcolon] at h
        exact absurd rfl h
      | some f =>
        simp only [hcolon] at h ⊢
        exact ih h

/-! ## One chunk -/

/-- What a context carries between chunks: it waits for a request line or for
headers, never for a body nor for its own reset. -/
def Waiting (ctx : HttpContext) : Prop :=
  ctx.state = .kExpectRequestLine ∨ ctx.state = .kExpectHeaders

/-- Where a request line is expected, no method is left over. -/
def Clean (ctx : HttpContext) : Prop :=
  ctx.state = .kExpectRequestLine → ctx.request.method = .kInvalid

theorem waiting_init : Waiting .init := .inl rfl

theorem clean_init : Clean .init := fun _ => rfl

/-- A header block, then a dispatch if it is complete: the context waits again,
for what the bytes say, and is clean. -/
theorem receive_headers {ctx : HttpContext} {chunk : Chunk} {n : Nat} {r : HttpRequest}
    {bytes : Bytes} (hn : bytes.length < n)
    (hparse : ctx.parseBytes chunk.bytes chunk.receiveTime =
      HttpContext.parseLines n ⟨.kExpectHeaders, r⟩ bytes chunk.receiveTime) :
    ∃ actions ctx', receiveBytes ctx chunk = .ok (actions, ctx') ∧ Waiting ctx' ∧ Clean ctx' ∧
      ctx'.state = afterHeaders bytes := by
  rw [HttpContext.parseLines_headers r chunk.receiveTime hn] at hparse
  have hstate : (HttpContext.readHeaders n r.headers bytes).1 =
      (HttpContext.readHeaders (bytes.length + 1) [] bytes).1 :=
    readHeaders_state hn (Nat.lt_succ_self _)
  by_cases hall : (HttpContext.readHeaders n r.headers bytes).1 = .kGotAll
  · refine ⟨_, _, receiveBytes_complete ?_ hparse, .inl rfl, fun _ => rfl, ?_⟩
    · simp [HttpContext.gotAll, hall]
    · rw [afterHeaders, ← hstate, if_pos hall]
      rfl
  · have hwait := readHeaders_waiting hall
    refine ⟨_, _, receiveBytes_waiting ?_ hparse, .inr hwait, fun h => ?_, ?_⟩
    · simp [HttpContext.gotAll, hwait]
    · rw [hwait] at h
      cases h
    · rw [afterHeaders, ← hstate, if_neg hall]
      exact hwait

/-- A chunk that opens no request line changes nothing where one is expected. -/
theorem receive_unopened {ctx : HttpContext} (hstate : ctx.state = .kExpectRequestLine)
    {chunk : Chunk} (hopens : ¬ Opens chunk.bytes) :
    ∃ actions, receiveBytes ctx chunk = .ok (actions, ctx) ∧
      nextState ctx.state chunk.bytes = .kExpectRequestLine := by
  cases hcut : cutLine chunk.bytes with
  | none =>
    have hgot : ctx.gotAll = false := by simp [HttpContext.gotAll, hstate]
    refine ⟨[], receiveBytes_waiting hgot (HttpContext.parseBytes_incomplete hstate hcut), ?_⟩
    simp only [nextState, hstate, hcut]
  | some p =>
    obtain ⟨line, rest⟩ := p
    have hread : readLine line = .noMethod :=
      readLine_eq_noMethod_iff.mpr fun hmem => hopens ⟨line, rest, hcut, hmem⟩
    have hparse := HttpContext.parseBytes_refused (t := chunk.receiveTime) hstate hcut
      (HttpContext.processRequestLine_noMethod hread)
    obtain ⟨state, request⟩ := ctx
    cases hstate
    refine ⟨_, receiveBytes_refused rfl hparse, ?_⟩
    simp only [nextState, hcut, hread, LineReading.ok]
    rfl

/-- A method left over, and a request line that reaches `setMethod`: the
assertion fails. -/
theorem receive_assert {ctx : HttpContext} (hstate : ctx.state = .kExpectRequestLine)
    (hmethod : ctx.request.method ≠ .kInvalid) {chunk : Chunk} (hopens : Opens chunk.bytes) :
    receiveBytes ctx chunk = .error (.assertion .setMethod) := by
  obtain ⟨line, rest, hcut, hmem⟩ := hopens
  have hread : readLine line ≠ .noMethod := fun h => readLine_eq_noMethod_iff.mp h hmem
  exact receiveBytes_fault (HttpContext.parseBytes_fault hstate hcut
    (HttpContext.processRequestLine_assert hread hmethod))

/-- A chunk among the headers is always taken, and leaves the context clean. -/
theorem receive_among_headers {ctx : HttpContext} (hstate : ctx.state = .kExpectHeaders)
    (chunk : Chunk) :
    ∃ actions ctx', receiveBytes ctx chunk = .ok (actions, ctx') ∧ Waiting ctx' ∧
      ctx'.state = nextState ctx.state chunk.bytes ∧ Clean ctx' := by
  have hparse : ctx.parseBytes chunk.bytes chunk.receiveTime =
      HttpContext.parseLines (chunk.bytes.length + 1) ⟨.kExpectHeaders, ctx.request⟩
        chunk.bytes chunk.receiveTime := by
    rw [← hstate]
    rfl
  obtain ⟨actions, ctx', hrecv, hwait', hclean', hstate'⟩ :=
    receive_headers (Nat.lt_succ_self _) hparse
  refine ⟨actions, ctx', hrecv, hwait', ?_, hclean'⟩
  rw [hstate', hstate]
  rfl

/-- From a clean context a chunk is always taken. It leaves the context clean
again unless it spoils it. -/
theorem receive_clean {ctx : HttpContext} (hwait : Waiting ctx) (hclean : Clean ctx)
    (chunk : Chunk) :
    ∃ actions ctx', receiveBytes ctx chunk = .ok (actions, ctx') ∧ Waiting ctx' ∧
      ctx'.state = nextState ctx.state chunk.bytes ∧
      (Clean ctx' ↔ ¬ (ctx.state = .kExpectRequestLine ∧ Spoils chunk.bytes)) := by
  rcases hwait with hstate | hstate
  · have hmethod := hclean hstate
    cases hcut : cutLine chunk.bytes with
    | none =>
      have hgot : ctx.gotAll = false := by simp [HttpContext.gotAll, hstate]
      refine ⟨[], ctx, receiveBytes_waiting hgot (HttpContext.parseBytes_incomplete hstate hcut),
        .inl hstate, ?_, ⟨fun _ => ?_, fun _ => hclean⟩⟩
      · simp only [nextState, hstate, hcut]
      · intro hspoils
        exact not_firstLine hcut hspoils.2
    | some p =>
      obtain ⟨line, rest⟩ := p
      have hspoils := spoils_iff hcut
      have hline := HttpContext.processRequestLine_spec hmethod line
      have hnext : nextState ctx.state chunk.bytes =
          if (readLine line).ok then afterHeaders rest else .kExpectRequestLine := by
        simp only [nextState, hstate, hcut]
      cases hok : (readLine line).ok with
      | false =>
        rw [hok] at hline
        refine ⟨_, _, receiveBytes_refused rfl (HttpContext.parseBytes_refused hstate hcut hline),
          .inl rfl, ?_, ?_⟩
        · rw [hnext, hok]
          rfl
        · rw [hspoils]
          refine ⟨fun h hhalf => record_method_of_halfRead _ hhalf.2 (h rfl), fun h _ => ?_⟩
          have hhalf : (readLine line).halfRead = false :=
            Bool.eq_false_iff.mpr fun hhalf => h ⟨hstate, hhalf⟩
          exact record_method_of_refused hmethod hok hhalf
      | true =>
        rw [hok] at hline
        have hlen := cutLine_length hcut
        obtain ⟨actions, ctx', hrecv, hwait', hclean', hstate'⟩ :=
          receive_headers hlen (HttpContext.parseBytes_accepted hstate hcut hline)
        refine ⟨actions, ctx', hrecv, hwait', ?_, ⟨fun _ h => ?_, fun _ => hclean'⟩⟩
        · rw [hnext, hok, hstate']
          rfl
        · have hhalf := hspoils.mp h.2
          revert hok hhalf
          cases readLine line <;> simp [LineReading.ok, LineReading.halfRead]
  · obtain ⟨actions, ctx', hrecv, hwait', hstate', hclean'⟩ := receive_among_headers hstate chunk
    refine ⟨actions, ctx', hrecv, hwait', hstate', ⟨fun _ h => ?_, fun _ => hclean'⟩⟩
    rw [hstate] at h
    cases h.1

/-! ## Chunk after chunk -/

/-- A context with a method left over stays as it is until a request line is
opened, and that ends the process. -/
theorem serve_spoiled_iff {ctx : HttpContext} (hstate : ctx.state = .kExpectRequestLine)
    (hmethod : ctx.request.method ≠ .kInvalid) (chunks : List Chunk) :
    (serveBytes ctx chunks).2 = .error (.assertion .setMethod) ↔
      ∃ d ∈ chunks, Opens d.bytes := by
  induction chunks with
  | nil => simp [serveBytes]
  | cons chunk rest ih =>
    by_cases hopens : Opens chunk.bytes
    · simp only [serveBytes, receive_assert hstate hmethod hopens]
      exact ⟨fun _ => ⟨chunk, List.mem_cons_self, hopens⟩, fun _ => trivial⟩
    · obtain ⟨actions, hrecv, _⟩ := receive_unopened hstate hopens
      simp only [serveBytes, hrecv, ih]
      constructor
      · intro hopened
        obtain ⟨d, hd, h⟩ := hopened
        exact ⟨d, List.mem_cons_of_mem _ hd, h⟩
      · intro hopened
        obtain ⟨d, hd, h⟩ := hopened
        rcases List.mem_cons.mp hd with rfl | hd
        · exact absurd h hopens
        · exact ⟨d, hd, h⟩

theorem not_poisoned_nil (state : HttpRequestParseState) : ¬ Poisoned state [] := by
  intro hpoisoned
  obtain ⟨pre, c, mid, d, post, h, _⟩ := hpoisoned
  simp at h

/-- The first chunk is the one that spoils, or the pair lies behind it. -/
theorem poisoned_cons_iff {state : HttpRequestParseState} {chunk : Chunk} {rest : List Chunk} :
    Poisoned state (chunk :: rest) ↔
      (state = .kExpectRequestLine ∧ Spoils chunk.bytes ∧ ∃ d ∈ rest, Opens d.bytes) ∨
      Poisoned (nextState state chunk.bytes) rest := by
  constructor
  · intro hpoisoned
    obtain ⟨pre, c, mid, d, post, h, hpre, hspoils, hopens⟩ := hpoisoned
    cases pre with
    | nil =>
      cases h
      exact .inl ⟨hpre, hspoils, d, List.mem_append_right _ List.mem_cons_self, hopens⟩
    | cons first pre =>
      cases h
      exact .inr ⟨pre, c, mid, d, post, rfl, hpre, hspoils, hopens⟩
  · rintro (⟨hstate, hspoils, d, hd, hopens⟩ | ⟨pre, c, mid, d, post, rfl, h⟩)
    · obtain ⟨mid, post, rfl⟩ := List.append_of_mem hd
      exact ⟨[], chunk, mid, d, post, rfl, hstate, hspoils, hopens⟩
    · exact ⟨chunk :: pre, c, mid, d, post, rfl, h⟩

/-- What opens a line in a pair is among the chunks. -/
theorem Poisoned.opens {state : HttpRequestParseState} {chunks : List Chunk}
    (h : Poisoned state chunks) : ∃ d ∈ chunks, Opens d.bytes := by
  obtain ⟨pre, c, mid, d, post, rfl, _, _, hopens⟩ := h
  exact ⟨d, by simp, hopens⟩

/-- From a clean context the assertion fails exactly on a pair of chunks that
end the process together. -/
theorem serve_clean_iff {ctx : HttpContext} (hwait : Waiting ctx) (hclean : Clean ctx)
    (chunks : List Chunk) :
    (serveBytes ctx chunks).2 = .error (.assertion .setMethod) ↔ Poisoned ctx.state chunks := by
  induction chunks generalizing ctx with
  | nil => simp [serveBytes, not_poisoned_nil]
  | cons chunk rest ih =>
    obtain ⟨actions, ctx', hrecv, hwait', hstate', hclean'⟩ := receive_clean hwait hclean chunk
    simp only [serveBytes, hrecv]
    rw [poisoned_cons_iff, ← hstate']
    by_cases hspoils : ctx.state = .kExpectRequestLine ∧ Spoils chunk.bytes
    · have hleft : ctx'.state = .kExpectRequestLine ∧ ctx'.request.method ≠ .kInvalid := by
        by_contra h
        refine absurd (hclean'.mp fun hline => ?_) (not_not_intro hspoils)
        exact Decidable.byContradiction fun hm => h ⟨hline, hm⟩
      rw [serve_spoiled_iff hleft.1 hleft.2]
      constructor
      · intro h
        exact .inl ⟨hspoils.1, hspoils.2, h⟩
      · rintro (⟨_, _, h⟩ | h)
        · exact h
        · exact h.opens
    · rw [ih hwait' (hclean'.mpr hspoils)]
      constructor
      · exact .inr
      · rintro (⟨hline, hsp, _⟩ | h)
        · exact absurd ⟨hline, hsp⟩ hspoils
        · exact h

/-- **Exactly when no chunk makes the assertion fail.** The chunks a new
connection receives never trip `setMethod` if and only if no chunk that a
request line is expected in spoils the context before one that opens a request
line. -/
theorem methodSafe_iff (chunks : List Chunk) :
    MethodSafe chunks ↔ ¬ Poisoned .kExpectRequestLine chunks := by
  have hbytes : (serveBytes .init chunks).2 = .error (.assertion .setMethod) ↔
      Poisoned .kExpectRequestLine chunks :=
    serve_clean_iff waiting_init clean_init chunks
  rw [← hbytes]
  constructor
  · intro h hfault
    obtain ⟨c, hc, _, _⟩ := onConnection_spec
    exact h c hc ((serve_new hc chunks).2.1 _ hfault)
  · intro h c hc hfault
    obtain ⟨_, herr, hok⟩ := serve_new hc chunks
    cases hout : (serveBytes .init chunks).2 with
    | error e =>
      rw [herr e hout] at hfault
      cases hfault
      exact h hout
    | ok ctx =>
      obtain ⟨c', hc', _⟩ := hok ctx hout
      rw [hc'] at hfault
      cases hfault

/-- A line with a method and no target is answered by a bad request; the next
request line, well formed, ends the process. -/
theorem methodSafe_get_fails :
    ¬ MethodSafe [⟨ascii "GET \r\n", 0⟩, ⟨ascii "GET / HTTP/1.1\r\n", 1⟩] := by
  intro h
  obtain ⟨c, hc, _, _⟩ := onConnection_spec
  apply h c hc
  apply (serve_new hc _).2.1
  decide

end ClyServer.Http
