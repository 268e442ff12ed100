import ClyServer.Http.HttpContext

/-!
# The HTTP server's side of a connection (`http/HttpServer.cpp`)

`onConnection` gives a connection a fresh context; `onMessage` runs the parser
on the connection's input buffer once, answers a bad request line by an error
text and a half-close, and dispatches at most one request. What `onMessage`
asks of the connection is recorded as a list of actions; `serve` is a
connection's whole life on the input side, chunk after chunk.
-/

namespace ClyServer.Http

open ClyServer.Lib ClyServer.Net

/-- What `onMessage` calls: `conn->send`, `conn->shutdown` and `onRequest`. -/
inductive Action where
  | send (message : Bytes)
  | shutdown
  | onRequest (req : HttpRequest)
  deriving DecidableEq, Repr

/-- The parts of a `TcpConnection` the HTTP server reads and writes. -/
structure HttpConnection where
  inputBuffer : Buffer
  context : HttpContext

/-- Bytes that arrived together, and when. -/
structure Chunk where
  bytes : Bytes
  receiveTime : Timestamp
  deriving DecidableEq, Repr

/-- The reply to a request line that does not parse. -/
def badRequest : Bytes := ascii "HTTP/1.1 Bad Request\r\n\r\n"

namespace HttpConnection

/-- A connection after `HttpServer::onConnection`: the input buffer its
constructor made and the fresh context installed. -/
def onConnection : Checked HttpConnection := do
  let buf ← Buffer.init Buffer.kInitialSize
  return ⟨buf, .init⟩

/-- `HttpServer::onMessage(conn, buf, receiveTime)`. -/
def onMessage (c : HttpConnection) (receiveTime : Timestamp) :
    Checked (List Action × HttpConnection) := do
  let (ok, context, buf) ← c.context.parseRequest c.inputBuffer receiveTime
  let refused := if ok then [] else [.send badRequest, .shutdown]
  if context.gotAll then
    return (refused ++ [.onRequest context.request], ⟨buf, context.reset⟩)
  else
    return (refused, ⟨buf, context⟩)

/-- A chunk arrives: it is appended to the input buffer and `onMessage` is called. -/
def receive (c : HttpConnection) (chunk : Chunk) : Checked (List Action × HttpConnection) := do
  let buf ← c.inputBuffer.append chunk.bytes
  onMessage ⟨buf, c.context⟩ chunk.receiveTime

/-- Chunk after chunk: the actions taken, and the connection or the fault that
ended the process. The actions taken before a fault were taken. -/
def serve (c : HttpConnection) : List Chunk → List Action × Checked HttpConnection
  | [] => ([], .ok c)
  | chunk :: rest =>
    match c.receive chunk with
    | .error e => ([], .error e)
    | .ok (actions, c') => (actions ++ (serve c' rest).1, (serve c' rest).2)

end HttpConnection

end ClyServer.Http
