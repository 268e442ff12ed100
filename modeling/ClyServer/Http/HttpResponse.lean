import ClyServer.Http.HttpRequest
import ClyServer.Net.BufferQueue

/-!
# The response and its text (`http/HttpResponse.h`, `http/HttpResponse.cpp`)

`appendToBuffer` prints the status line's front into an array of 32 bytes on the
stack and appends it `sizeof buf` bytes long: the text, the NUL `snprintf` put
behind it and whatever the rest of the array held. The second use of the array
appends a C string and is right. `appendToBuffer_spec` says what is appended, and
`appendToBuffer_not_reference` that it is never the response's text.
-/

namespace ClyServer.Http

open ClyServer.Lib ClyServer.Net ClyServer.Net.Buffer

/-- `HttpResponse::HttpStatusCode`. -/
inductive HttpStatusCode where
  | kUnknown | k2000k | k301MovedPermanently | k400BadRequest | k404NotFound
  deriving DecidableEq, Repr

/-- The value of the enumerator. -/
def HttpStatusCode.value : HttpStatusCode → Nat
  | kUnknown => 0
  | k2000k => 200
  | k301MovedPermanently => 301
  | k400BadRequest => 400
  | k404NotFound => 404

structure HttpResponse where
  headers : HeaderMap
  statusCode : HttpStatusCode
  statusMessage : Bytes
  closeConnection : Bool
  body : Bytes
  deriving DecidableEq, Repr

/-- The array after `snprintf(buf, sizeof buf, ..)` printed `text` into it: the
text, cut so that a NUL fits behind it, the NUL, and what stood there before. -/
def snprintf (buf text : Bytes) : Bytes :=
  overwrite buf 0 (text.take (buf.length - 1) ++ [0])

/-- The C string at the front of an array. -/
def cString (buf : Bytes) : Bytes := buf.takeWhile (· ≠ 0)

namespace HttpResponse

/-- `"HTTP/1.1 %d "`. -/
def statusText (r : HttpResponse) : Bytes :=
  ascii "HTTP/1.1 " ++ decimal r.statusCode.value ++ ascii " "

/-- `"Content-length: %zd\r\n"`. -/
def lengthText (r : HttpResponse) : Bytes :=
  ascii "Content-length: " ++ decimal r.body.length ++ ascii "\r\n"

/-- The loop over `headers_`. -/
def appendHeaders : HeaderMap → Buffer → Checked Buffer
  | [], output => return output
  | (key, value) :: rest, output => do
    let output ← output.append key
    let output ← output.append (ascii ": ")
    let output ← output.append value
    let output ← output.append (ascii "\r\n")
    appendHeaders rest output

/-- The branch on `closeConnection_`; `buf` is the array as the status text left it. -/
def appendConnection (r : HttpResponse) (buf : Bytes) (output : Buffer) : Checked Buffer :=
  if r.closeConnection then output.append (ascii "Connection: close\r\n")
  else do
    let output ← output.append (cString (snprintf buf r.lengthText))
    output.append (ascii "Connection: keep-Alive\r\n")

/-- `appendToBuffer(output)`. The bytes `char buf[32]` holds when the function is
entered are not determined by the program; they are the argument `stack`. -/
def appendToBuffer (r : HttpResponse) (stack : Vector UInt8 32) (output : Buffer) :
    Checked Buffer := do
  let buf := snprintf stack.toList r.statusText
  let output ← output.append buf
  let output ← output.append r.statusMessage
  let output ← output.append (ascii "\r\n")
  let output ← r.appendConnection buf output
  let output ← appendHeaders r.headers output
  let output ← output.append (ascii "\r\n")
  output.append r.body

/-- The header lines of a response. -/
def headerText (headers : HeaderMap) : Bytes :=
  headers.flatMap fun h => h.1 ++ ascii ": " ++ h.2 ++ ascii "\r\n"

/-- The text of a response in the HTTP form, the map in key order as it is. -/
def reference (r : HttpResponse) : Bytes :=
  (ascii "HTTP/1.1 " ++ decimal r.statusCode.value ++ ascii " " ++ r.statusMessage ++
    ascii "\r\n") ++
  (if r.closeConnection then ascii "Connection: close\r\n"
    else ascii "Content-length: " ++ decimal r.body.length ++ ascii "\r\n" ++
      ascii "Connection: keep-Alive\r\n") ++
  headerText r.headers ++ ascii "\r\n" ++ r.body

/-- `appendToBuffer` puts the text of the response behind what the buffer held,
and nothing else. -/
def AppendsReference (r : HttpResponse) (stack : Vector UInt8 32) (output : Buffer) : Prop :=
  ∃ output', r.appendToBuffer stack output = .ok output' ∧
    output'.readable = output.readable ++ r.reference

/-! ## Appending pieces -/

/-- On any buffer in order, the function answers a buffer in order with `data`
behind what was readable. -/
def Appends (f : Buffer → Checked Buffer) (data : Bytes) : Prop :=
  ∀ b : Buffer, b.Wf → ∃ b', f b = .ok b' ∧ b'.Wf ∧ b'.readable = b.readable ++ data

theorem appends_append (data : Bytes) : Appends (fun b => b.append data) data := by
  intro b hb
  obtain ⟨b', hb', hbec⟩ := append_spec hb data
  exact ⟨b', hb', hbec.wf, hbec.holds⟩

/-- One piece after another. -/
theorem Appends.bind {f g : Buffer → Checked Buffer} {data more : Bytes} (hf : Appends f data)
    (hg : Appends g more) : Appends (fun b => f b >>= g) (data ++ more) := by
  intro b hb
  obtain ⟨b₁, h₁, hwf₁, hread₁⟩ := hf b hb
  obtain ⟨b₂, h₂, hwf₂, hread₂⟩ := hg b₁ hwf₁
  refine ⟨b₂, ?_, hwf₂, ?_⟩
  · simp only [h₁, ok_bind, h₂]
  · rw [hread₂, hread₁, List.append_assoc]

theorem appends_headers (headers : HeaderMap) :
    Appends (appendHeaders headers) (headerText headers) := by
  induction headers with
  | nil =>
    intro b hb
    exact ⟨b, rfl, hb, (List.append_nil _).symm⟩
  | cons h rest ih =>
    obtain ⟨key, value⟩ := h
    have htext : headerText ((key, value) :: rest) =
        key ++ (ascii ": " ++ (value ++ (ascii "\r\n" ++ headerText rest))) := by
      simp [headerText, List.append_assoc]
    rw [htext]
    exact (appends_append key).bind ((appends_append (ascii ": ")).bind
      ((appends_append value).bind ((appends_append (ascii "\r\n")).bind ih)))

/-! ## What is appended -/

/-- What the branch on `closeConnection_` appends. -/
def connectionWritten (r : HttpResponse) (buf : Bytes) : Bytes :=
  if r.closeConnection then ascii "Connection: close\r\n"
  else cString (snprintf buf r.lengthText) ++ ascii "Connection: keep-Alive\r\n"

theorem appends_connection (r : HttpResponse) (buf : Bytes) :
    Appends (r.appendConnection buf) (r.connectionWritten buf) := by
  unfold appendConnection connectionWritten
  by_cases hclose : r.closeConnection = true
  · simp only [if_pos hclose]
    exact appends_append _
  · simp only [if_neg hclose]
    exact (appends_append _).bind (appends_append _)

/-- What the source's calls append, piece after piece. -/
def written (r : HttpResponse) (stack : Vector UInt8 32) : Bytes :=
  snprintf stack.toList r.statusText ++ (r.statusMessage ++ (ascii "\r\n" ++
    (r.connectionWritten (snprintf stack.toList r.statusText) ++
      (headerText r.headers ++ (ascii "\r\n" ++ r.body)))))

/-- The function never faults, and appends its pieces. -/
theorem appendToBuffer_spec (r : HttpResponse) (stack : Vector UInt8 32) :
    Appends (r.appendToBuffer stack) (r.written stack) := by
  unfold written
  exact (appends_append _).bind ((appends_append _).bind ((appends_append _).bind
    ((appends_connection r _).bind ((appends_headers r.headers).bind
      ((appends_append _).bind (appends_append _))))))

/-! ## The two uses of the array -/

theorem length_snprintf {buf : Bytes} (h : 0 < buf.length) (text : Bytes) :
    (snprintf buf text).length = buf.length := by
  unfold snprintf
  apply length_overwrite
  rw [List.length_append, List.length_take, List.length_singleton]
  omega

/-- A text that fits, without a NUL of its own, is read back as a C string. -/
theorem cString_snprintf {buf text : Bytes} (hfit : text.length < buf.length)
    (hnul : 0 ∉ text) : cString (snprintf buf text) = text := by
  have htake : text.take (buf.length - 1) = text := List.take_of_length_le (by omega)
  have hpos : ∀ b ∈ text, decide (b ≠ 0) = true := fun b hb =>
    decide_eq_true fun heq => hnul (heq ▸ hb)
  unfold cString snprintf overwrite
  rw [htake, List.take_zero, List.nil_append, List.append_assoc,
    List.takeWhile_append_of_pos hpos]
  simp

/-- A decimal text has no NUL. -/
theorem nul_notMem_decimal (n : Nat) : 0 ∉ decimal n := by
  intro h
  obtain ⟨c, hc, hzero⟩ := List.mem_map.mp h
  have hdigit := Nat.isDigit_of_mem_toDigits (by decide) (by decide) hc
  have hrange : 48 ≤ c.toNat ∧ c.toNat ≤ 57 := by
    simpa [Char.isDigit, UInt32.le_iff_toNat_le] using hdigit
  have hbyte := congrArg UInt8.toNat hzero
  rw [Nat.toUInt8_eq, UInt8.toNat_ofNat'] at hbyte
  simp only [UInt8.toNat_ofNat, Nat.reducePow] at hbyte
  omega

/-- The status text is thirteen bytes at most, whatever the code. -/
theorem length_statusText_le (r : HttpResponse) : r.statusText.length ≤ 13 := by
  have hcode : r.statusCode.value < Nat.pow 10 3 := by cases r.statusCode <;> decide
  have hlen := length_decimal_le (by decide) hcode
  simp only [statusText, List.length_append]
  have hfront : (ascii "HTTP/1.1 ").length = 9 := by decide
  have hback : (ascii " ").length = 1 := by decide
  omega

/-- The length line of a body below `10 ^ 13` bytes fits the array. -/
theorem cString_lengthText {r : HttpResponse} (hbody : r.body.length < 10000000000000)
    {buf : Bytes} (hbuf : buf.length = 32) :
    cString (snprintf buf r.lengthText) = r.lengthText := by
  have hpow : r.body.length < Nat.pow 10 13 := hbody
  have hlen := length_decimal_le (by decide) hpow
  have hfront : (ascii "Content-length: ").length = 16 := by decide
  have hback : (ascii "\r\n").length = 2 := by decide
  apply cString_snprintf
  · simp only [lengthText, List.length_append]
    omega
  · simp only [lengthText, List.mem_append, not_or]
    exact ⟨⟨by decide, nul_notMem_decimal _⟩, by decide⟩

/-- Up to the front of the status line, the text is the reference form. -/
theorem written_eq {r : HttpResponse} (hbody : r.body.length < 10000000000000)
    (stack : Vector UInt8 32) :
    ∃ rest, r.written stack = snprintf stack.toList r.statusText ++ rest ∧
      r.reference = r.statusText ++ rest := by
  have hbuf : (snprintf stack.toList r.statusText).length = 32 := by
    rw [length_snprintf (by simp) _]
    simp
  refine ⟨_, rfl, ?_⟩
  rw [connectionWritten, cString_lengthText hbody hbuf]
  simp [reference, statusText, lengthText, List.append_assoc]

/-- Where the pieces are not the text, the text is not what is appended. -/
theorem not_appendsReference {r : HttpResponse} {stack : Vector UInt8 32} {output : Buffer}
    (hwf : output.Wf) (hne : r.written stack ≠ r.reference) :
    ¬ r.AppendsReference stack output := by
  intro h
  obtain ⟨output₁, h₁, hread₁⟩ := h
  obtain ⟨output₂, h₂, _, hread₂⟩ := appendToBuffer_spec r stack output hwf
  rw [h₁] at h₂
  cases h₂
  rw [hread₁] at hread₂
  exact hne (List.append_cancel_left hread₂).symm

/-- **The text of a response is never what is appended.** Whatever the response
and the buffer, and whatever the stack held, there are more bytes than the
response has: those of the array behind the status text. -/
theorem appendToBuffer_not_reference (r : HttpResponse) (hbody : r.body.length < 10000000000000)
    (stack : Vector UInt8 32) {output : Buffer} (hwf : output.Wf) :
    ¬ r.AppendsReference stack output := by
  refine not_appendsReference hwf fun heq => ?_
  obtain ⟨rest, hwritten, href⟩ := written_eq hbody stack
  rw [hwritten, href] at heq
  have hlen := congrArg List.length heq
  have hroom : 0 < stack.toList.length := by simp
  have harray := length_snprintf hroom r.statusText
  have hstatus := length_statusText_le r
  simp only [List.length_append, harray, Vector.length_toList] at hlen
  omega

/-- A plain answer. -/
def okResponse : HttpResponse where
  headers := [(ascii "Content-Type", ascii "text/plain")]
  statusCode := .k2000k
  statusMessage := ascii "OK"
  closeConnection := false
  body := ascii "hello"

theorem appendToBuffer_not_reference_ok :
    ∃ output, Buffer.init kInitialSize = .ok output ∧
      ¬ okResponse.AppendsReference (Vector.replicate 32 0) output := by
  obtain ⟨output, houtput, hwf, _⟩ := init_spec kInitialSize
  refine ⟨output, houtput, ?_⟩
  exact appendToBuffer_not_reference okResponse (by decide) (Vector.replicate 32 0) hwf

/-- Over a zeroed stack the answer has nineteen NUL bytes between `HTTP/1.1 200 `
and `OK`, and a peer that reads up to the first CRLF reads them too. -/
theorem okResponse_status_line :
    ∃ output output', Buffer.init kInitialSize = .ok output ∧
      okResponse.appendToBuffer (Vector.replicate 32 0) output = .ok output' ∧
      output'.readable ≠ output.readable ++ okResponse.reference ∧
      (search kCRLF output'.readable).map output'.readable.take =
        some (ascii "HTTP/1.1 200 " ++ List.replicate 19 0 ++ ascii "OK") := by
  obtain ⟨output, houtput, hwf, hempty, _⟩ := init_spec kInitialSize
  obtain ⟨output', happend, _, hread⟩ :=
    appendToBuffer_spec okResponse (Vector.replicate 32 0) output hwf
  rw [hempty, List.nil_append] at hread
  refine ⟨output, output', houtput, happend, ?_, ?_⟩
  · rw [hread, hempty]
    decide +kernel
  · rw [hread]
    decide +kernel

end HttpResponse

end ClyServer.Http
