import ClyServer.Base.LogInsertion

/-!
# What a log stream takes

Two tests guard one array: a text is taken if it leaves a byte free, a number if
`kMaxNumericSize` bytes are free, whatever its own length. `insertions_atomic` is the
result for whole sequences: no store leaves the array, the array is never full, the
contents are the texts of the values that were taken, one after the other, and a value
that is not taken leaves no trace, not even behind the pointer.
-/

namespace ClyServer

open ClyServer.Lib

/-- The values that are taken, one after the other, by a stream that holds `contents`. -/
def taken (contents : Bytes) : List Insertion → List Insertion
  | [] => []
  | v :: vs =>
    if v.admitted (kSmallBuffer - contents.length) then v :: taken (contents ++ v.text) vs
    else taken contents vs

theorem foldl_accept (contents : Bytes) (vs : List Insertion) :
    vs.foldl accept contents = contents ++ (taken contents vs).flatMap Insertion.text := by
  induction vs generalizing contents with
  | nil => simp [taken]
  | cons v vs ih =>
    rw [List.foldl_cons, ih, taken, accept]
    split
    · rw [List.flatMap_cons, List.append_assoc]
    · rfl

namespace LogStream

theorem appendText_refused (s : LogStream) {buf : Bytes} (h : ¬ buf.length < s.buffer.avail) :
    s.appendText buf = s := by
  rw [appendText, FixedBuffer.append, dif_neg h]

/-- A value that is not admitted changes nothing at all. -/
theorem insert_refused (s : LogStream) {v : Insertion}
    (h : ¬ v.admitted s.buffer.avail = true) : s.insert v = .ok s := by
  cases hnum : v.isNumeric with
  | true =>
    rw [Insertion.admitted_numeric hnum] at h
    cases v with
    | integer v => exact if_neg h
    | pointer p => exact if_neg h
    | double v => exact if_neg h
    | _ => cases hnum
  | false =>
    rw [Insertion.admitted_text hnum] at h
    have hsame : (.ok (s.appendText v.text) : Checked LogStream) = .ok s := by
      rw [s.appendText_refused h]
    cases v with
    | cstring str =>
      cases str with
      | some str => exact hsame
      | none => exact hsame
    | bool v | char v | string v | append data => exact hsame
    | _ => cases hnum

/-- **Atomic insertion.** After any values, the stream holds the texts of those it took, in
order, and a byte of it is free; and the next value is stored as a whole behind them or, if
its test fails, leaves the stream as it was. Nothing faults. -/
theorem insertions_atomic (data : { data : Bytes // data.length = kSmallBuffer })
    (vs : List Insertion) (v : Insertion) :
    ∃ s s', (init data).insertAll vs = .ok s ∧
      s.buffer.length < kSmallBuffer ∧
      s.contents = (taken [] vs).flatMap Insertion.text ∧
      s.insert v = .ok s' ∧
      if v.admitted s.buffer.avail then s'.contents = s.contents ++ v.text else s' = s := by
  obtain ⟨s, hs, hcontents⟩ := (init data).insertAll_spec vs
  rw [contents_init] at hcontents
  have hlength : s.buffer.length < kSmallBuffer := by
    have hlt : (vs.foldl accept []).length < kSmallBuffer := length_foldl_accept_lt (by decide) vs
    rw [← hcontents, contents, FixedBuffer.length_contents] at hlt
    exact hlt
  rw [foldl_accept, List.nil_append] at hcontents
  by_cases hadmitted : v.admitted s.buffer.avail = true
  · obtain ⟨s', hs', haccept⟩ := s.insert_spec v
    rw [accept, ← s.avail_eq, if_pos hadmitted] at haccept
    refine ⟨s, s', hs, hlength, hcontents, hs', ?_⟩
    rw [if_pos hadmitted]
    exact haccept
  · refine ⟨s, s, hs, hlength, hcontents, s.insert_refused hadmitted, ?_⟩
    rw [if_neg hadmitted]

end LogStream

end ClyServer
