import ClyServer.Http.HttpRequest

/-!
# The request parser (`http/HttpContext.h`, `http/HttpContext.cpp`)

A state machine over lines. `parseRequest` loops: it looks for a CRLF in the
buffer, hands the line before it to the branch of its state, consumes the line
and goes round again, until there is no further CRLF, the request line is bad
or the header block has ended. After the loop it reads ALL that is left in the
buffer into a string for the log, and so throws it away.

Two of the four states have no branch that changes anything, so the loop spins
in them. The fuel of `parseLoop` is one more than the bytes at hand, which is
more rounds than there are lines (`ClyServer.Http.Parsing`); running out of it
is the fault `diverged`.
-/

namespace ClyServer.Http

open ClyServer.Lib ClyServer.Net

/-- `HttpContext::HttpRequestParseState`. -/
inductive HttpRequestParseState where
  | kExpectRequestLine | kExpectHeaders | kExpectBody | kGotAll
  deriving DecidableEq, Repr

structure HttpContext where
  state : HttpRequestParseState
  request : HttpRequest
  deriving DecidableEq, Repr

namespace HttpContext

/-- `HttpContext::HttpContext()`. -/
def init : HttpContext := ⟨.kExpectRequestLine, .init⟩

def gotAll (ctx : HttpContext) : Bool := ctx.state = .kGotAll

/-- `reset()`: the record is swapped with a fresh one. -/
def reset (ctx : HttpContext) : HttpContext where
  state := .kExpectRequestLine
  request := (ctx.request.swap .init).1

/-- The version a request line may end in: `end-start == 8`, `HTTP/1.` and then
`0` or `1`. -/
def versionOf (tail : Bytes) : Option Version :=
  if tail.length = 8 ∧ tail.take 7 = ascii "HTTP/1." then
    if tail[7]? = some 49 then some .kHttp11
    else if tail[7]? = some 48 then some .kHttp10
    else none
  else none

/-- `processRequestLine(begin, end)`: the answer and the record, which keeps
what was written into it before a later part of the line failed. -/
def processRequestLine (r : HttpRequest) (line : Bytes) : Checked (Bool × HttpRequest) :=
  match splitFirst 32 line with
  | none => return (false, r)
  | some (m, rest) => do
    let (known, r) ← r.setMethod m
    if known then
      match splitFirst 32 rest with
      | none => return (false, r)
      | some (url, tail) =>
        let r := match splitFirst 63 url with
          | some (path, query) => (r.setPath path).setQuery (63 :: query)
          | none => r.setPath url
        match versionOf tail with
        | some v => return (true, r.setVersion v)
        | none => return (false, r)
    else return (false, r)

/-- The loop of `parseRequest`: the flag `ok`, the context and the buffer it
ends with. -/
def parseLoop : Nat → HttpContext → Buffer → Timestamp → Checked (Bool × HttpContext × Buffer)
  | 0, _, _, _ => .error .diverged
  | n + 1, ctx, buf, receiveTime =>
    match ctx.state with
    | .kExpectRequestLine =>
      match buf.findCRLF with
      | some crlf => do
        let (ok, request) ← processRequestLine ctx.request (slice buf.buffer buf.peek crlf)
        if ok then
          let buf ← buf.retrieveUntil (crlf + 2)
          parseLoop n ⟨.kExpectHeaders, request.setReceiveTime receiveTime⟩ buf receiveTime
        else return (false, { ctx with request := request }, buf)
      | none => return (true, ctx, buf)
    | .kExpectHeaders =>
      match buf.findCRLF with
      | some crlf =>
        match splitFirst 58 (slice buf.buffer buf.peek crlf) with
        | some (field, rest) => do
          let buf ← buf.retrieveUntil (crlf + 2)
          parseLoop n { ctx with request := ctx.request.addHeader field rest } buf receiveTime
        | none => do
          let buf ← buf.retrieveUntil (crlf + 2)
          return (true, { ctx with state := .kGotAll }, buf)
      | none => return (true, ctx, buf)
    | .kExpectBody => parseLoop n ctx buf receiveTime
    | .kGotAll => parseLoop n ctx buf receiveTime

/-- `parseRequest(buf, receiveTime)`: the loop, and then `retrieveAllAsString`
on whatever the loop left in the buffer. -/
def parseRequest (ctx : HttpContext) (buf : Buffer) (receiveTime : Timestamp) :
    Checked (Bool × HttpContext × Buffer) := do
  let (ok, ctx, buf) ← parseLoop (buf.readableBytes + 1) ctx buf receiveTime
  let (_, buf) ← buf.retrieveAllAsString
  return (ok, ctx, buf)

end HttpContext

end ClyServer.Http
