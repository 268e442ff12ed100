import ClyServer.Http.Parsing

/-!
# The grammar of a request line

`processRequestLine` walks the line with three searches and reads the version by
counting from the end. `processRequestLine_grammar` says that all of this is one
production, `method SP target SP "HTTP/1." digit`: a fresh record takes a line if
and only if it has this form, it then has it in one way only, and the record
holds what the parts say.
-/

namespace ClyServer.Http

open ClyServer.Lib ClyServer.Net ClyServer.Net.Buffer

/-- `line = m ' ' u " HTTP/1." d`, with a token that `setMethod` takes, a target
without a space and one of the two digits. -/
structure Derives (line m u : Bytes) (d : UInt8) : Prop where
  text : line = m ++ ascii " " ++ u ++ ascii " HTTP/1." ++ [d]
  method : ∃ r, HttpRequest.init.setMethod m = .ok (true, r)
  target : 32 ∉ u
  digit : d = 48 ∨ d = 49

/-- The version the last digit of a request line names. -/
def versionOfDigit (d : UInt8) : Version := if d = 49 then .kHttp11 else .kHttp10

/-! ## The parts -/

/-- A token that names a method has no space in it. -/
theorem space_notMem_of_methodOf {m : Bytes} (h : methodOf m ≠ .kInvalid) : 32 ∉ m := by
  unfold methodOf at h
  split at h
  · rename_i hm; subst hm; decide
  · split at h
    · rename_i hm; subst hm; decide
    · split at h
      · rename_i hm; subst hm; decide
      · split at h
        · rename_i hm; subst hm; decide
        · split at h
          · rename_i hm; subst hm; decide
          · exact absurd rfl h

/-- On a fresh record `setMethod` writes the method the token names, and takes
the token exactly when it names one. -/
theorem setMethod_init (m : Bytes) :
    HttpRequest.init.setMethod m =
      .ok (decide (methodOf m ≠ .kInvalid), { HttpRequest.init with method := methodOf m }) := by
  have hfresh : HttpRequest.init.method = .kInvalid := rfl
  rw [HttpRequest.setMethod, check_pos hfresh]
  rfl

theorem setMethod_init_iff {m : Bytes} :
    (∃ r, HttpRequest.init.setMethod m = .ok (true, r)) ↔ methodOf m ≠ .kInvalid := by
  rw [setMethod_init]
  constructor
  · intro h
    obtain ⟨r, hr⟩ := h
    exact of_decide_eq_true (congrArg Prod.fst (Except.ok.inj hr))
  · intro h
    exact ⟨_, by rw [decide_eq_true h]⟩

/-- The tails `versionOf` knows: the eight bytes `HTTP/1.0` and `HTTP/1.1`. -/
theorem versionOf_eq_some_iff {tail : Bytes} {v : Version} :
    HttpContext.versionOf tail = some v ↔
      ∃ d, tail = ascii "HTTP/1." ++ [d] ∧ (d = 48 ∨ d = 49) ∧ v = versionOfDigit d := by
  have hseven : (ascii "HTTP/1.").length = 7 := by decide
  constructor
  · intro h
    unfold HttpContext.versionOf at h
    split at h
    · rename_i htail
      obtain ⟨hlen, htake⟩ := htail
      have hlast : tail.drop 7 = [tail.get ⟨7, by omega⟩] := by
        rw [List.drop_eq_getElem_cons (by omega), List.drop_eq_nil_of_le (by omega)]
        rfl
      have htext : tail = ascii "HTTP/1." ++ [tail.get ⟨7, by omega⟩] := by
        rw [← htake, ← hlast, List.take_append_drop]
      have hget : tail[7]? = some (tail.get ⟨7, by omega⟩) :=
        List.getElem?_eq_getElem (by omega)
      rw [hget] at h
      refine ⟨_, htext, ?_⟩
      generalize tail.get ⟨7, by omega⟩ = d at h
      simp only [Option.some.injEq] at h
      split at h
      · rename_i hd
        cases h
        exact ⟨.inr hd, by rw [hd]; rfl⟩
      · split at h
        · rename_i hd
          cases h
          exact ⟨.inl hd, by rw [hd]; rfl⟩
        · cases h
    · cases h
  · intro h
    obtain ⟨d, rfl, hd, rfl⟩ := h
    rcases hd with rfl | rfl
    · decide
    · decide

/-- The path is the target up to its first `?`, or all of it. -/
theorem pathOf_eq (url : Bytes) : pathOf url = url.takeWhile (· ≠ 63) := by
  unfold pathOf
  cases h : splitFirst 63 url with
  | none => exact (takeWhile_dropWhile_of_splitFirst_none h).1.symm
  | some p => exact (takeWhile_dropWhile_of_splitFirst h).1.symm

/-- The query is the rest of the target from its first `?` on, or empty. -/
theorem queryOf_eq (url : Bytes) : (queryOf url).getD [] = url.dropWhile (· ≠ 63) := by
  unfold queryOf
  cases h : splitFirst 63 url with
  | none => exact (takeWhile_dropWhile_of_splitFirst_none h).2.symm
  | some p => exact (takeWhile_dropWhile_of_splitFirst h).2.symm

/-! ## The line -/

/-- The reading of a line is `accepted` exactly when the line has the form, and
the reading says which method, target and version. -/
theorem readLine_eq_accepted_iff {line url : Bytes} {method : Method} {v : Version} :
    readLine line = .accepted method url v ↔
      ∃ m d, Derives line m url d ∧ method = methodOf m ∧ v = versionOfDigit d := by
  constructor
  · intro h
    unfold readLine at h
    split at h
    · cases h
    · rename_i m rest hspace
      split at h
      · cases h
      · rename_i hm
        split at h
        · cases h
        · rename_i url' tail hspace'
          split at h
          · cases h
          · rename_i v' hversion
            cases h
            obtain ⟨rfl, _⟩ := splitFirst_eq_some_iff.mp hspace
            obtain ⟨rfl, hurl⟩ := splitFirst_eq_some_iff.mp hspace'
            obtain ⟨d, rfl, hd, rfl⟩ := versionOf_eq_some_iff.mp hversion
            refine ⟨m, d, ⟨?_, setMethod_init_iff.mpr hm, hurl, hd⟩, rfl, rfl⟩
            simp [ascii]
  · intro h
    obtain ⟨m, d, hline, rfl, rfl⟩ := h
    have hm := setMethod_init_iff.mp hline.method
    have hsplit : splitFirst 32 line = some (m, url ++ 32 :: (ascii "HTTP/1." ++ [d])) := by
      refine splitFirst_eq_some_iff.mpr ⟨?_, space_notMem_of_methodOf hm⟩
      rw [hline.text]
      simp [ascii]
    have hsplit' : splitFirst 32 (url ++ 32 :: (ascii "HTTP/1." ++ [d])) =
        some (url, ascii "HTTP/1." ++ [d]) :=
      splitFirst_eq_some_iff.mpr ⟨rfl, hline.target⟩
    have hversion : HttpContext.versionOf (ascii "HTTP/1." ++ [d]) = some (versionOfDigit d) :=
      versionOf_eq_some_iff.mpr ⟨d, rfl, hline.digit, rfl⟩
    simp only [readLine, hsplit, if_neg hm, hsplit', hversion]

/-- A line has the form in one way only: the first two spaces are the two of the
production. -/
theorem Derives.unique {line m u m' u' : Bytes} {d d' : UInt8} (h : Derives line m u d)
    (h' : Derives line m' u' d') : m' = m ∧ u' = u ∧ d' = d := by
  have hm := space_notMem_of_methodOf (setMethod_init_iff.mp h.method)
  have hm' := space_notMem_of_methodOf (setMethod_init_iff.mp h'.method)
  have hsplit : splitFirst 32 line = some (m, u ++ 32 :: (ascii "HTTP/1." ++ [d])) :=
    splitFirst_eq_some_iff.mpr ⟨by rw [h.text]; simp [ascii], hm⟩
  have hsplit' : splitFirst 32 line = some (m', u' ++ 32 :: (ascii "HTTP/1." ++ [d'])) :=
    splitFirst_eq_some_iff.mpr ⟨by rw [h'.text]; simp [ascii], hm'⟩
  rw [hsplit] at hsplit'
  simp only [Option.some.injEq, Prod.mk.injEq] at hsplit'
  obtain ⟨hmethod, hrest⟩ := hsplit'
  have hcut := splitFirst_eq_some_iff.mpr
    ⟨(rfl : u ++ 32 :: (ascii "HTTP/1." ++ [d]) = _), h.target⟩
  have hcut' := splitFirst_eq_some_iff.mpr ⟨hrest, h'.target⟩
  rw [hcut] at hcut'
  simp only [Option.some.injEq, Prod.mk.injEq, List.append_cancel_left_eq, List.cons.injEq,
    and_true] at hcut'
  exact ⟨hmethod.symm, hcut'.1.symm, hcut'.2.symm⟩

/-- **A request line is taken exactly when the grammar derives it.** On a fresh
record `processRequestLine` answers for every line; it answers true if and only
if the line is derived, and then the derivation is unique and the record holds
its parts. -/
theorem processRequestLine_grammar (line : Bytes) :
    (∃ ok r, HttpContext.processRequestLine .init line = .ok (ok, r) ∧
      (ok = true ↔ ∃ m u d, Derives line m u d)) ∧
    ∀ r, HttpContext.processRequestLine .init line = .ok (true, r) →
      ∃ m u d, Derives line m u d ∧
        (∀ m' u' d', Derives line m' u' d' → m' = m ∧ u' = u ∧ d' = d) ∧
        HttpRequest.init.setMethod m = .ok (true, { HttpRequest.init with method := r.method }) ∧
        r.version = versionOfDigit d ∧
        r.path = u.takeWhile (· ≠ 63) ∧ r.query = u.dropWhile (· ≠ 63) := by
  have hrun := HttpContext.processRequestLine_spec (r := .init) rfl line
  constructor
  · refine ⟨_, _, hrun, ?_⟩
    constructor
    · intro hok
      cases hread : readLine line with
      | accepted m url v =>
        obtain ⟨m', d, hline, _, _⟩ := readLine_eq_accepted_iff.mp hread
        exact ⟨m', url, d, hline⟩
      | _ =>
        rw [hread] at hok
        cases hok
    · intro h
      obtain ⟨m, u, d, hline⟩ := h
      rw [readLine_eq_accepted_iff.mpr ⟨m, d, hline, rfl, rfl⟩]
      rfl
  · intro r hr
    rw [hrun] at hr
    cases hread : readLine line with
    | accepted method url v =>
      rw [hread] at hr
      obtain ⟨m, d, hline, rfl, rfl⟩ := readLine_eq_accepted_iff.mp hread
      cases hr
      refine ⟨m, url, d, hline, ?_, ?_, rfl, pathOf_eq url, queryOf_eq url⟩
      · intro m' u' d' h'
        exact hline.unique h'
      · rw [setMethod_init, decide_eq_true (setMethod_init_iff.mp hline.method)]
        rfl
    | _ =>
      rw [hread] at hr
      cases hr

/-- The line of a request with two `?` in its target. -/
theorem processRequestLine_grammar_get :
    ∃ r m u d, HttpContext.processRequestLine .init (ascii "GET /a?b?c HTTP/1.0") = .ok (true, r) ∧
      Derives (ascii "GET /a?b?c HTTP/1.0") m u d ∧
      r.path = u.takeWhile (· ≠ 63) ∧ r.query = u.dropWhile (· ≠ 63) := by
  have hrun : HttpContext.processRequestLine .init (ascii "GET /a?b?c HTTP/1.0") =
      .ok (true, ⟨.kGet, .kHttp10, ascii "/a", ascii "?b?c", 0, []⟩) := by decide
  obtain ⟨m, u, d, hline, _, _, _, hpath, hquery⟩ := (processRequestLine_grammar _).2 _ hrun
  exact ⟨_, m, u, d, hrun, hline, hpath, hquery⟩

end ClyServer.Http
