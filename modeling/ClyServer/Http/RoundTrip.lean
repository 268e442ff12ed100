import ClyServer.Http.RequestLine
import Mathlib.Data.List.Sort

/-!
# A request written out and parsed again

`render` writes a request the way a client does. Parsing it on a fresh context
gives the request back, for every target, version and header map, and for four
of the five methods: `setMethod` knows `Delete` and not `DELETE`, the spelling
of the standard and of `methodString`, so a DELETE request is refused
(`parseRequest_render_iff`).
-/

namespace ClyServer.Http

open ClyServer.Lib ClyServer.Net ClyServer.Net.Buffer

/-! ## Writing a request -/

/-- The standard spelling of a method. -/
def Method.spelling : Method → Bytes
  | kInvalid => ascii "UNKNOWN"
  | kGet => ascii "GET"
  | kPost => ascii "POST"
  | kHead => ascii "HEAD"
  | kPut => ascii "PUT"
  | kDelete => ascii "DELETE"

/-- The minor number of a version. -/
def Version.digit : Version → UInt8
  | kHttp11 => 49
  | _ => 48

def renderLine (r : HttpRequest) : Bytes :=
  r.method.spelling ++ ascii " " ++ (r.path ++ r.query) ++ ascii " HTTP/1." ++ [r.version.digit]

def renderHeader (field : Bytes × Bytes) : Bytes := field.1 ++ ascii ": " ++ field.2

/-- The header lines, each with its CRLF, and the empty line. -/
def renderHeaders : List (Bytes × Bytes) → Bytes
  | [] => kCRLF
  | field :: rest => renderHeader field ++ (kCRLF ++ renderHeaders rest)

/-- The request as text, its headers in the order given. -/
def render (r : HttpRequest) (fields : List (Bytes × Bytes)) : Bytes :=
  renderLine r ++ (kCRLF ++ renderHeaders fields)

/-- No white space at either end. -/
structure Trimmed (value : Bytes) : Prop where
  front : ∀ c ∈ value.head?, isspace c = false
  back : ∀ c ∈ value.getLast?, isspace c = false

/-- A header a client may write. -/
structure FieldOk (field : Bytes × Bytes) : Prop where
  name_colon : 58 ∉ field.1
  name_crlf : ¬ kCRLF <:+: field.1
  value_crlf : ¬ kCRLF <:+: field.2
  value_trimmed : Trimmed field.2

/-- A request a client may write. Its header map is one: the names ascend. -/
structure WellFormed (r : HttpRequest) : Prop where
  method : r.method ≠ .kInvalid
  version : r.version ≠ .kUnknown
  path_space : 32 ∉ r.path
  path_question : 63 ∉ r.path
  path_crlf : ¬ kCRLF <:+: r.path
  query : r.query = [] ∨ r.query.head? = some 63
  query_space : 32 ∉ r.query
  query_crlf : ¬ kCRLF <:+: r.query
  headers_map : r.headers.Pairwise fun a b => a.1 < b.1
  headers_ok : ∀ field ∈ r.headers, FieldOk field

/-- The text of `r` appended to `buf` and parsed by a fresh context comes out as
a complete request with the method, version, path, query and headers of `r`. -/
def Decodes (r : HttpRequest) (fields : List (Bytes × Bytes)) (buf : Buffer) (t : Timestamp) :
    Prop :=
  ∃ buf₁ ctx buf₂, buf.append (render r fields) = .ok buf₁ ∧
    HttpContext.init.parseRequest buf₁ t = .ok (true, ctx, buf₂) ∧
    ctx.gotAll = true ∧ ctx.request = { r with receiveTime := t }

/-! ## Lines that are cut where they were joined -/

/-- A pair of bytes that occurs in two texts joined lies in one of them or across
the joint. -/
theorem infix_append_pair {α : Type*} {x y : α} {l k : List α} (h : [x, y] <:+: l ++ k) :
    [x, y] <:+: l ∨ [x, y] <:+: k ∨ (l.getLast? = some x ∧ k.head? = some y) := by
  induction l with
  | nil => exact .inr (.inl h)
  | cons a l ih =>
    rw [List.cons_append, List.infix_cons_iff] at h
    rcases h with hfirst | hlater
    · cases l with
      | nil =>
        obtain ⟨tail, htail⟩ := hfirst
        simp only [List.cons_append, List.nil_append, List.cons.injEq] at htail
        exact .inr (.inr ⟨by rw [htail.1]; rfl, by rw [← htail.2]; rfl⟩)
      | cons b l =>
        refine .inl (List.infix_cons_iff.mpr (.inl ?_))
        obtain ⟨tail, htail⟩ := hfirst
        simp only [List.cons_append, List.nil_append, List.cons.injEq] at htail
        exact ⟨l, by simp [htail.1, htail.2.1]⟩
    · rcases ih hlater with h | h | ⟨hlast, hhead⟩
      · exact .inl (h.trans (List.suffix_cons a l).isInfix)
      · exact .inr (.inl h)
      · refine .inr (.inr ⟨?_, hhead⟩)
        cases l with
        | nil => cases hlast
        | cons b l => rw [List.getLast?_cons_cons, hlast]

/-- A text without CRLF, then one that does not go on with LF and has none
either. -/
theorem crlf_notInfix_append {l k : Bytes} (hl : ¬ kCRLF <:+: l) (hk : ¬ kCRLF <:+: k)
    (hjoint : k.head? ≠ some 10) : ¬ kCRLF <:+: l ++ k := by
  intro h
  rcases infix_append_pair h with h | h | h
  · exact hl h
  · exact hk h
  · exact hjoint h.2

/-- A line is cut off where its CRLF was written, even if it ends in CR. -/
theorem cutLine_append {line : Bytes} (h : ¬ kCRLF <:+: line) (rest : Bytes) :
    cutLine (line ++ (kCRLF ++ rest)) = some (line, rest) := by
  have hsearch : search kCRLF (line ++ (kCRLF ++ rest)) = some line.length := by
    induction line with
    | nil => simp [search, kCRLF]
    | cons a line ih =>
      have hline : ¬ kCRLF <:+: line := fun hl => h (hl.trans (List.suffix_cons a line).isInfix)
      have hfirst : ¬ kCRLF <+: a :: (line ++ (kCRLF ++ rest)) := by
        intro hp
        cases line with
        | nil =>
          obtain ⟨tail, htail⟩ := hp
          simp [kCRLF] at htail
        | cons b line =>
          obtain ⟨tail, htail⟩ := hp
          simp only [kCRLF, List.cons_append, List.nil_append, List.cons.injEq] at htail
          apply h
          refine ⟨[], line, ?_⟩
          simp [kCRLF, htail.1, htail.2.1]
      rw [List.cons_append, search, if_neg hfirst, ih hline]
      rfl
  rw [cutLine, hsearch]
  have hdrop : (line ++ (kCRLF ++ rest)).drop (line.length + 2) = rest := by
    rw [← List.append_assoc, List.drop_left' (by simp [kCRLF])]
  rw [Option.map_some, List.take_left, hdrop]

/-! ## Headers -/

namespace HeaderMap

/-- A name that is not below and not equal is above. -/
theorem lt_of_not_lt {a b : Bytes} (hlt : ¬ a < b) (hne : a ≠ b) : b < a := by
  refine Decidable.byContradiction fun h => hne ?_
  exact List.le_antisymm (List.not_lt.mp h) (List.not_lt.mp hlt)

/-- A new name joins the entries. -/
theorem set_perm {key : Bytes} (value : Bytes) {m : HeaderMap} (h : ∀ e ∈ m, e.1 ≠ key) :
    (set key value m).Perm ((key, value) :: m) := by
  induction m with
  | nil => exact List.Perm.refl _
  | cons e rest ih =>
    obtain ⟨k, v⟩ := e
    rw [List.forall_mem_cons] at h
    unfold set
    split
    · exact List.Perm.refl _
    · rw [if_neg (Ne.symm h.1)]
      exact ((ih h.2).cons (k, v)).trans (List.Perm.swap _ _ _)

/-- Setting a new name keeps the names in order. -/
theorem set_ascends {key : Bytes} (value : Bytes) {m : HeaderMap} (h : ∀ e ∈ m, e.1 ≠ key)
    (hm : m.Pairwise fun a b => a.1 < b.1) :
    (set key value m).Pairwise fun a b => a.1 < b.1 := by
  induction m with
  | nil => exact List.pairwise_singleton _ _
  | cons e rest ih =>
    obtain ⟨k, v⟩ := e
    rw [List.forall_mem_cons] at h
    obtain ⟨hfirst, hrest⟩ := List.pairwise_cons.mp hm
    unfold set
    split
    · rename_i hlt
      refine List.pairwise_cons.mpr ⟨?_, hm⟩
      intro e he
      rcases List.mem_cons.mp he with rfl | he
      · exact hlt
      · exact List.lt_trans hlt (hfirst e he)
    · rename_i hlt
      rw [if_neg (Ne.symm h.1)]
      refine List.pairwise_cons.mpr ⟨?_, ih h.2 hrest⟩
      intro e he
      rcases List.mem_cons.mp ((set_perm value h.2).mem_iff.mp he) with rfl | he
      · exact lt_of_not_lt hlt (Ne.symm h.1)
      · exact hfirst e he

/-- Fields with names of their own, set one after another, make a map of the
entries there were and the fields. -/
theorem foldl_set {fields : List (Bytes × Bytes)} {m : HeaderMap}
    (hm : m.Pairwise fun a b => a.1 < b.1) (hnew : ∀ e ∈ m, ∀ f ∈ fields, e.1 ≠ f.1)
    (hfields : fields.Pairwise fun a b => a.1 ≠ b.1) :
    (fields.foldl (fun m f => set f.1 f.2 m) m).Pairwise (fun a b => a.1 < b.1) ∧
      (fields.foldl (fun m f => set f.1 f.2 m) m).Perm (fields ++ m) := by
  induction fields generalizing m with
  | nil => exact ⟨hm, List.Perm.refl _⟩
  | cons f rest ih =>
    obtain ⟨hf, hrest⟩ := List.pairwise_cons.mp hfields
    have hother : ∀ e ∈ m, e.1 ≠ f.1 := fun e he => hnew e he f List.mem_cons_self
    have hperm := set_perm f.2 hother
    have hnew' : ∀ e ∈ set f.1 f.2 m, ∀ g ∈ rest, e.1 ≠ g.1 := by
      intro e he g hg
      rcases List.mem_cons.mp (hperm.mem_iff.mp he) with rfl | he
      · exact hf g hg
      · exact hnew e he g (List.mem_cons_of_mem _ hg)
    obtain ⟨hasc, hall⟩ := ih (set_ascends f.2 hother hm) hnew' hrest
    exact ⟨hasc, hall.trans ((hperm.append_left rest).trans List.perm_middle)⟩

/-- The entries of a map in any order, set into an empty map, give the map. -/
theorem foldl_set_of_perm {fields : List (Bytes × Bytes)} {m : HeaderMap}
    (hm : m.Pairwise fun a b => a.1 < b.1) (hperm : fields.Perm m) :
    fields.foldl (fun m f => set f.1 f.2 m) [] = m := by
  have hne : fields.Pairwise fun a b => a.1 ≠ b.1 := by
    apply hperm.symm.pairwise _ (fun h => Ne.symm h)
    refine hm.imp fun h heq => ?_
    rw [heq] at h
    exact List.lt_irrefl _ h
  obtain ⟨hasc, hall⟩ := foldl_set List.Pairwise.nil (by simp) hne
  rw [List.append_nil] at hall
  refine List.Perm.eq_of_pairwise ?_ hasc hm (hall.trans hperm)
  intro a b _ _ hab hba
  exact absurd (List.lt_trans hab hba) (List.lt_irrefl _)

end HeaderMap

/-- The space `render` puts after the colon goes, and nothing else. -/
theorem trim_rendered {value : Bytes} (h : Trimmed value) :
    ((32 :: value).dropWhile isspace).rdropWhile isspace = value := by
  have hfront : (32 :: value).dropWhile isspace = value := by
    rw [List.dropWhile_cons_of_pos (by decide)]
    cases value with
    | nil => rfl
    | cons c value =>
      have hc : isspace c = false := h.front c rfl
      rw [List.dropWhile_cons_of_neg (by rw [hc]; decide)]
  rw [hfront, List.rdropWhile_eq_self_iff]
  intro hne
  rw [h.back _ (List.getLast?_eq_some_getLast hne)]
  decide

/-- A header line has no CRLF, and its first colon is the one after its name. -/
theorem renderHeader_spec {field : Bytes × Bytes} (h : FieldOk field) :
    ¬ kCRLF <:+: renderHeader field ∧
      splitFirst 58 (renderHeader field) = some (field.1, 32 :: field.2) := by
  have htext : renderHeader field = field.1 ++ 58 :: 32 :: field.2 := by
    simp [renderHeader, ascii]
  rw [htext]
  constructor
  · refine crlf_notInfix_append h.name_crlf ?_ (by simp)
    simp only [List.infix_cons_iff, not_or]
    refine ⟨?_, ?_, h.value_crlf⟩
    · simp [kCRLF]
    · simp [kCRLF]
  · exact splitFirst_eq_some_iff.mpr ⟨rfl, h.name_colon⟩

/-- A header block read back: every field is set, and the block is complete. -/
theorem readHeaders_render {fields : List (Bytes × Bytes)} (hfields : ∀ f ∈ fields, FieldOk f)
    {n : Nat} (hn : (renderHeaders fields).length < n) (m : HeaderMap) :
    HttpContext.readHeaders n m (renderHeaders fields) =
      (.kGotAll, fields.foldl (fun m f => m.set f.1 f.2) m) := by
  induction fields generalizing n m with
  | nil =>
    obtain ⟨n, rfl⟩ := Nat.exists_eq_succ_of_ne_zero (Nat.ne_of_gt (Nat.zero_lt_of_lt hn))
    have hnil : ¬ kCRLF <:+: [] := by decide
    have hcut : cutLine (renderHeaders []) = some ([], []) := cutLine_append hnil []
    simp only [HttpContext.readHeaders, hcut]
    rfl
  | cons f rest ih =>
    obtain ⟨n, rfl⟩ := Nat.exists_eq_succ_of_ne_zero (Nat.ne_of_gt (Nat.zero_lt_of_lt hn))
    rw [List.forall_mem_cons] at hfields
    obtain ⟨hcrlf, hcolon⟩ := renderHeader_spec hfields.1
    have hcut : cutLine (renderHeaders (f :: rest)) = some (renderHeader f, renderHeaders rest) :=
      cutLine_append hcrlf _
    have hlen := cutLine_length hcut
    simp only [HttpContext.readHeaders, hcut, hcolon, trim_rendered hfields.1.value_trimmed]
    exact ih hfields.2 (by omega) _

/-! ## The request line -/

section Line

variable {r : HttpRequest}

/-- Path and query joined split where they were joined. -/
theorem target_spec (h : WellFormed r) :
    pathOf (r.path ++ r.query) = r.path ∧ (queryOf (r.path ++ r.query)).getD [] = r.query := by
  rcases h.query with hq | hq
  · have hsplit : splitFirst 63 r.path = none := splitFirst_eq_none_iff.mpr h.path_question
    rw [hq, List.append_nil]
    simp [pathOf, queryOf, hsplit]
  · obtain ⟨q, hq⟩ := List.head?_eq_some_iff.mp hq
    have hsplit : splitFirst 63 (r.path ++ r.query) = some (r.path, q) :=
      splitFirst_eq_some_iff.mpr ⟨by rw [hq], h.path_question⟩
    rw [pathOf, queryOf, hsplit, hq]
    exact ⟨rfl, rfl⟩

/-- The rendered line has no CRLF of its own. -/
theorem renderLine_crlf (h : WellFormed r) : ¬ kCRLF <:+: renderLine r := by
  have hquery : r.query.head? ≠ some 10 := by
    rcases h.query with hq | hq
    · simp [hq]
    · simp [hq]
  have htarget := crlf_notInfix_append h.path_crlf h.query_crlf hquery
  have hmethod : ¬ kCRLF <:+: r.method.spelling ++ ascii " " := by
    cases r.method <;> decide
  have hversion : ¬ kCRLF <:+: ascii " HTTP/1." ++ [r.version.digit] := by
    cases r.version <;> decide
  have hfront : ¬ kCRLF <:+: (r.method.spelling ++ ascii " ") ++ (r.path ++ r.query) := by
    intro hin
    rcases infix_append_pair hin with hin | hin | hin
    · exact hmethod hin
    · exact htarget hin
    · have hlast : (r.method.spelling ++ ascii " ").getLast? = some 32 := by
        cases r.method <;> decide
      rw [hlast] at hin
      exact absurd hin.1 (by decide)
  have hall := crlf_notInfix_append hfront hversion (by cases r.version <;> decide)
  simpa [renderLine, List.append_assoc] using hall

/-- The rendered line splits at its first space behind the method. -/
theorem renderLine_split (r : HttpRequest) :
    splitFirst 32 (renderLine r) = some (r.method.spelling,
      (r.path ++ r.query) ++ ascii " HTTP/1." ++ [r.version.digit]) := by
  refine splitFirst_eq_some_iff.mpr ⟨?_, by cases r.method <;> decide⟩
  simp [renderLine, ascii]

/-- Four methods are spelled the way `setMethod` spells them. -/
theorem methodOf_spelling (h : r.method ≠ .kInvalid) (hd : r.method ≠ .kDelete) :
    methodOf r.method.spelling = r.method := by
  cases hm : r.method with
  | kInvalid => exact absurd hm h
  | kDelete => exact absurd hm hd
  | _ => decide

/-- A request that is no DELETE has its line accepted. -/
theorem readLine_renderLine (h : WellFormed r) (hd : r.method ≠ .kDelete) :
    readLine (renderLine r) = .accepted r.method (r.path ++ r.query) r.version := by
  have hmethod := methodOf_spelling h.method hd
  refine readLine_eq_accepted_iff.mpr ⟨r.method.spelling, r.version.digit, ?_, hmethod.symm, ?_⟩
  · have hknown : methodOf r.method.spelling ≠ .kInvalid := by
      rw [hmethod]
      exact h.method
    refine ⟨rfl, setMethod_init_iff.mpr hknown, ?_, ?_⟩
    · simp only [List.mem_append, not_or]
      exact ⟨h.path_space, h.query_space⟩
    · cases r.version <;> decide
  · cases hv : r.version with
    | kUnknown => exact absurd hv h.version
    | _ => decide

/-- A DELETE request does not get past its method. -/
theorem readLine_renderLine_delete (hd : r.method = .kDelete) :
    readLine (renderLine r) = .unknown := by
  have hunknown : methodOf r.method.spelling = .kInvalid := by
    rw [hd]
    decide
  simp only [readLine, renderLine_split r, if_pos hunknown]

end Line

/-! ## The whole request -/

section Request

variable {r : HttpRequest} {fields : List (Bytes × Bytes)} {t : Timestamp}

/-- What parsing the text answers: the request, with its receive time. -/
theorem parseBytes_render (h : WellFormed r) (hfields : fields.Perm r.headers)
    (hd : r.method ≠ .kDelete) :
    HttpContext.init.parseBytes (render r fields) t =
      .ok (true, ⟨.kGotAll, { r with receiveTime := t }⟩) := by
  have hcut : cutLine (render r fields) = some (renderLine r, renderHeaders fields) :=
    cutLine_append (renderLine_crlf h) _
  have hline := HttpContext.processRequestLine_spec (r := .init) rfl (renderLine r)
  rw [readLine_renderLine h hd] at hline
  have hok : ∀ f ∈ fields, FieldOk f := fun f hf => h.headers_ok f (hfields.mem_iff.mp hf)
  have hlen := cutLine_length hcut
  rw [HttpContext.parseBytes_accepted HttpContext.state_init hcut hline,
    HttpContext.parseLines_headers _ t hlen, readHeaders_render hok hlen]
  have hheaders : fields.foldl (fun m f => HeaderMap.set f.1 f.2 m) [] = r.headers :=
    HeaderMap.foldl_set_of_perm h.headers_map hfields
  obtain ⟨hpath, hquery⟩ := target_spec h
  simp only [LineReading.record, HttpRequest.setReceiveTime, HttpRequest.init, hpath, hquery,
    hheaders]

/-- A DELETE request is refused. -/
theorem parseBytes_render_delete (h : WellFormed r) (hd : r.method = .kDelete)
    (fields : List (Bytes × Bytes)) (t : Timestamp) :
    ∃ ctx, HttpContext.init.parseBytes (render r fields) t = .ok (false, ctx) := by
  have hcut : cutLine (render r fields) = some (renderLine r, renderHeaders fields) :=
    cutLine_append (renderLine_crlf h) _
  have hline := HttpContext.processRequestLine_spec (r := .init) rfl (renderLine r)
  rw [readLine_renderLine_delete hd] at hline
  exact ⟨_, HttpContext.parseBytes_refused HttpContext.state_init hcut hline⟩

/-- A text that is refused does not come back. -/
theorem not_decodes_of_delete (h : WellFormed r) (hd : r.method = .kDelete) {buf : Buffer}
    (hbuf : buf.Wf) (hempty : buf.readable = []) : ¬ Decodes r fields buf t := by
  intro hdecodes
  obtain ⟨buf₁, ctx, buf₂, happend, hparse, _⟩ := hdecodes
  obtain ⟨buf₁', happend', hbec⟩ := append_spec hbuf (render r fields)
  rw [happend'] at happend
  cases happend
  have hread : buf₁.readable = render r fields := by rw [hbec.holds, hempty, List.nil_append]
  obtain ⟨ctx', hrefused⟩ := parseBytes_render_delete h hd fields t
  rw [← hread] at hrefused
  obtain ⟨buf₂', hfalse, _⟩ := (HttpContext.parseRequest_spec .init hbec.wf t).2 _ _ hrefused
  rw [hfalse] at hparse
  cases hparse

/-- **Exactly which requests come back.** A well-formed request, its headers in
any order, appended to an empty buffer and parsed by a fresh context, comes back
whole if and only if it is no DELETE. -/
theorem parseRequest_render_iff (h : WellFormed r) (hfields : fields.Perm r.headers)
    {buf : Buffer} (hbuf : buf.Wf) (hempty : buf.readable = []) :
    Decodes r fields buf t ↔ r.method ≠ .kDelete := by
  constructor
  · intro hdecodes hd
    exact not_decodes_of_delete h hd hbuf hempty hdecodes
  · intro hd
    obtain ⟨buf₁, happend, hbec⟩ := append_spec hbuf (render r fields)
    have hread : buf₁.readable = render r fields := by rw [hbec.holds, hempty, List.nil_append]
    have hbytes := parseBytes_render (t := t) h hfields hd
    rw [← hread] at hbytes
    obtain ⟨buf₂, htrue, _⟩ := (HttpContext.parseRequest_spec .init hbec.wf t).2 _ _ hbytes
    exact ⟨buf₁, _, buf₂, happend, htrue, rfl, rfl⟩

end Request

/-- A request with a query and two headers. -/
def getRequest : HttpRequest where
  method := .kGet
  version := .kHttp11
  path := ascii "/a"
  query := ascii "?b=1"
  receiveTime := 0
  headers := [(ascii "Accept", ascii "*/*"), (ascii "Host", ascii "a: b")]

theorem getRequest_wellFormed : WellFormed getRequest where
  method := by decide
  version := by decide
  path_space := by decide
  path_question := by decide
  path_crlf := by decide
  query := by decide
  query_space := by decide
  query_crlf := by decide
  headers_map := by decide
  headers_ok := by
    intro field hfield
    simp only [getRequest, List.mem_cons, List.not_mem_nil, or_false] at hfield
    rcases hfield with rfl | rfl
    · refine ⟨by decide, by decide, by decide, ?_, ?_⟩ <;>
      · rintro c ⟨⟩
        decide
    · refine ⟨by decide, by decide, by decide, ?_, ?_⟩ <;>
      · rintro c ⟨⟩
        decide

/-- Its headers may be written in either order. -/
theorem parseRequest_render_get :
    ∃ buf, Buffer.init kInitialSize = .ok buf ∧
      Decodes getRequest [(ascii "Host", ascii "a: b"), (ascii "Accept", ascii "*/*")] buf 7 := by
  obtain ⟨buf, hbuf, hwf, hempty, _⟩ := init_spec kInitialSize
  refine ⟨buf, hbuf, ?_⟩
  apply (parseRequest_render_iff getRequest_wellFormed (List.Perm.swap _ _ _) hwf hempty).mpr
  decide

/-- The shortest DELETE request. -/
def deleteRequest : HttpRequest where
  method := .kDelete
  version := .kHttp11
  path := ascii "/"
  query := []
  receiveTime := 0
  headers := []

theorem deleteRequest_wellFormed : WellFormed deleteRequest where
  method := by decide
  version := by decide
  path_space := by decide
  path_question := by decide
  path_crlf := by decide
  query := by decide
  query_space := by decide
  query_crlf := by decide
  headers_map := by decide
  headers_ok := by
    intro field hfield
    cases hfield

/-- It is well formed, and it does not come back. -/
theorem delete_not_decoded :
    WellFormed deleteRequest ∧
      ∃ buf, Buffer.init kInitialSize = .ok buf ∧ ¬ Decodes deleteRequest [] buf 0 := by
  refine ⟨deleteRequest_wellFormed, ?_⟩
  obtain ⟨buf, hbuf, hwf, hempty, _⟩ := init_spec kInitialSize
  exact ⟨buf, hbuf, not_decodes_of_delete deleteRequest_wellFormed rfl hwf hempty⟩

end ClyServer.Http
