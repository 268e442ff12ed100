import ClyServer.Net.Buffer
import Mathlib.Data.List.DropRight

/-!
# The request record (`http/HttpRequest.h`)

The record the parser fills in. Its `swap` exchanges this record's path with the
other's QUERY and leaves both `query_` of this and `path_` of the other where
they are; the definition below follows the source in that, and
`ClyServer.Http.KeepAlive` says what it costs.
-/

namespace ClyServer.Http

open ClyServer.Lib ClyServer.Net

/-- `Timestamp`: microseconds since the epoch. -/
abbrev Timestamp := Int

/-- `std::map<string, string>`, as the list of its entries in key order. -/
abbrev HeaderMap := List (Bytes × Bytes)

/-- `m[key] = value`. -/
def HeaderMap.set (key value : Bytes) : HeaderMap → HeaderMap
  | [] => [(key, value)]
  | (k, v) :: rest =>
    if key < k then (key, value) :: (k, v) :: rest
    else if key = k then (key, value) :: rest
    else (k, v) :: HeaderMap.set key value rest

/-- `m.find(key)`: the value under the key, if it has one. -/
def HeaderMap.find (key : Bytes) (m : HeaderMap) : Option Bytes :=
  (m.find? fun e => e.1 = key).map (·.2)

/-- `HttpRequest::Method`. -/
inductive Method where
  | kInvalid | kGet | kPost | kHead | kPut | kDelete
  deriving DecidableEq, Repr

/-- `HttpRequest::Version`. -/
inductive Version where
  | kUnknown | kHttp10 | kHttp11
  deriving DecidableEq, Repr

structure HttpRequest where
  method : Method
  version : Version
  path : Bytes
  query : Bytes
  receiveTime : Timestamp
  headers : HeaderMap
  deriving DecidableEq, Repr

/-- C-locale `isspace`. A byte above 127 is a negative `char` there and is not
white space. -/
def isspace (c : UInt8) : Bool := c = 32 || (9 ≤ c && c ≤ 13)

/-- The method a token names. The spellings are the source's: `DELETE` is not
among them. -/
def methodOf (m : Bytes) : Method :=
  if m = ascii "GET" then .kGet
  else if m = ascii "POST" then .kPost
  else if m = ascii "HEAD" then .kHead
  else if m = ascii "PUT" then .kPut
  else if m = ascii "Delete" then .kDelete
  else .kInvalid

namespace HttpRequest

/-- `HttpRequest::HttpRequest()`. -/
def init : HttpRequest where
  method := .kInvalid
  version := .kUnknown
  path := []
  query := []
  receiveTime := 0
  headers := []

def setVersion (r : HttpRequest) (v : Version) : HttpRequest := { r with version := v }

/-- `setMethod(start, end)`: whether the token named a method, and the record. -/
def setMethod (r : HttpRequest) (m : Bytes) : Checked (Bool × HttpRequest) := do
  check (r.method = .kInvalid) .setMethod
  return (methodOf m ≠ .kInvalid, { r with method := methodOf m })

def setPath (r : HttpRequest) (path : Bytes) : HttpRequest := { r with path := path }

def setQuery (r : HttpRequest) (query : Bytes) : HttpRequest := { r with query := query }

def setReceiveTime (r : HttpRequest) (t : Timestamp) : HttpRequest := { r with receiveTime := t }

/-- `addHeader(start, colon, end)`: the bytes before the colon are the field, the
bytes after it, less the white space around them, the value. -/
def addHeader (r : HttpRequest) (field rest : Bytes) : HttpRequest :=
  let value := (rest.dropWhile isspace).rdropWhile isspace
  { r with headers := r.headers.set field value }

/-- `getHeader(field)`: empty for a field that is not there. -/
def getHeader (r : HttpRequest) (field : Bytes) : Bytes := (r.headers.find field).getD []

/-- `swap(that)`: both records after it. The line `path_.swap(that.query_)`
crosses the two texts. -/
def swap (r that : HttpRequest) : HttpRequest × HttpRequest :=
  ({ method := that.method
     version := that.version
     path := that.query
     query := r.query
     receiveTime := that.receiveTime
     headers := that.headers },
   { method := r.method
     version := r.version
     path := that.path
     query := r.path
     receiveTime := r.receiveTime
     headers := r.headers })

end HttpRequest

end ClyServer.Http
