import ClyServer.Base.Types
import ClyServer.Lib.Search
import ClyServer.Lib.Slice
import Mathlib.Algebra.Ring.Nat

/-!
# The byte buffer (`net/Buffer.h`, `net/Buffer.cpp`)

One array and two indices into it:

    +-------------------+------------------+------------------+
    | prependable bytes |  readable bytes  |  writable bytes  |
    +-------------------+------------------+------------------+
    0      <=      readerIndex   <=   writerIndex    <=     size

A pointer into the buffer is the position it points at, counted from `begin()`,
so `peek()` is the reader index and `beginWrite()` the writer index. A `size_t`
is a natural number: the sums the code forms are taken not to wrap, which for
sizes of live arrays is a fact about memory and not about this code.

Every operation that asserts answers `Checked`, so an assertion that fails is a
fault and not a default value. What the operations mean is in
`ClyServer.Net.BufferQueue`.
-/

namespace ClyServer.Net

open ClyServer.Lib

/-- `Buffer`: the array, the reader index and the writer index. -/
structure Buffer where
  buffer : Bytes
  readerIndex : Nat
  writerIndex : Nat
  deriving DecidableEq, Repr

namespace Buffer

def kCheapPrepend : Nat := 8

def kInitialSize : Nat := 1024

/-- `Buffer::kCRLF`. -/
def kCRLF : Bytes := [13, 10]

/-! ## Sizes and pointers -/

def readableBytes (b : Buffer) : Nat := b.writerIndex - b.readerIndex

def writableBytes (b : Buffer) : Nat := b.buffer.length - b.writerIndex

def prependableBytes (b : Buffer) : Nat := b.readerIndex

def peek (b : Buffer) : Nat := b.readerIndex

def beginWrite (b : Buffer) : Nat := b.writerIndex

/-- The bytes `[readerIndex_, writerIndex_)`: what the buffer holds. -/
def readable (b : Buffer) : Bytes := slice b.buffer b.readerIndex b.writerIndex

/-- The bytes `[writerIndex_, size)`: what a `hasWritten` would expose. -/
def writable (b : Buffer) : Bytes := slice b.buffer b.writerIndex b.buffer.length

/-- `Buffer::Buffer(size_t initialSize)`. The vector starts zeroed. -/
def init (initialSize : Nat) : Checked Buffer := do
  let b : Buffer :=
    { buffer := List.replicate (kCheapPrepend + initialSize) 0
      readerIndex := kCheapPrepend
      writerIndex := kCheapPrepend }
  check (b.readableBytes = 0) .bufferInit
  check (b.writableBytes = initialSize) .bufferInit
  check (b.prependableBytes = kCheapPrepend) .bufferInit
  return b

/-! ## Searching -/

/-- `findCRLF()`: the pointer to the first CRLF of the readable bytes, or `NULL`.
`std::search` answers `beginWrite()` when there is none, and it cannot answer
that position otherwise, because a CRLF is two bytes long. -/
def findCRLF (b : Buffer) : Option Nat :=
  (search kCRLF b.readable).map (b.peek + ·)

/-! ## Taking bytes out -/

def retrieveAll (b : Buffer) : Buffer :=
  { b with readerIndex := kCheapPrepend, writerIndex := kCheapPrepend }

def retrieve (b : Buffer) (len : Nat) : Checked Buffer := do
  check (len ≤ b.readableBytes) .retrieve
  if len < b.readableBytes then
    return { b with readerIndex := b.readerIndex + len }
  else
    return b.retrieveAll

def retrieveUntil (b : Buffer) (last : Nat) : Checked Buffer := do
  check (b.peek ≤ last) .retrieveUntil
  check (last ≤ b.beginWrite) .retrieveUntil
  b.retrieve (last - b.peek)

/-- `retrieveAsString(len)`: the string and the buffer left behind. -/
def retrieveAsString (b : Buffer) (len : Nat) : Checked (Bytes × Buffer) := do
  check (len ≤ b.readableBytes) .retrieveAsString
  let result := slice b.buffer b.peek (b.peek + len)
  let b ← b.retrieve len
  return (result, b)

def retrieveAllAsString (b : Buffer) : Checked (Bytes × Buffer) :=
  b.retrieveAsString b.readableBytes

/-- `unwrite(len)`. -/
def unwrite (b : Buffer) (len : Nat) : Checked Buffer := do
  check (len ≤ b.readableBytes) .unwrite
  return { b with writerIndex := b.writerIndex - len }

/-! ## Putting bytes in -/

/-- `makeSpace(len)`: grow the array, or slide the readable bytes down to the
cheap-prepend mark when the room before and behind them is enough together. -/
def makeSpace (b : Buffer) (len : Nat) : Checked Buffer := do
  if b.writableBytes + b.prependableBytes < len + kCheapPrepend then
    return { b with buffer := resize b.buffer (b.writerIndex + len) 0 }
  else
    check (kCheapPrepend < b.readerIndex) .makeSpace
    let readable := b.readableBytes
    let b' : Buffer :=
      { buffer := overwrite b.buffer kCheapPrepend (slice b.buffer b.readerIndex b.writerIndex)
        readerIndex := kCheapPrepend
        writerIndex := kCheapPrepend + readable }
    check (readable = b'.readableBytes) .makeSpace
    return b'

def ensureWritableBytes (b : Buffer) (len : Nat) : Checked Buffer := do
  let b ← if b.writableBytes < len then b.makeSpace len else pure b
  check (len ≤ b.writableBytes) .ensureWritableBytes
  return b

/-- `hasWritten(len)`: the bytes stored at `beginWrite()` become readable. -/
def hasWritten (b : Buffer) (len : Nat) : Checked Buffer := do
  check (len ≤ b.writableBytes) .hasWritten
  return { b with writerIndex := b.writerIndex + len }

/-- What a client does between `beginWrite()` and `hasWritten()`: store bytes
in the writable part. Storing past the end is undefined. -/
def store (b : Buffer) (data : Bytes) : Checked Buffer :=
  if data.length ≤ b.writableBytes then
    .ok { b with buffer := overwrite b.buffer b.beginWrite data }
  else .error .outOfRange

/-- `append(const char* data, size_t len)`; the overloads for strings and for
`void*` forward to it. -/
def append (b : Buffer) (data : Bytes) : Checked Buffer := do
  let b ← b.ensureWritableBytes data.length
  let b ← b.store data
  b.hasWritten data.length

def prepend (b : Buffer) (data : Bytes) : Checked Buffer := do
  check (data.length ≤ b.prependableBytes) .prepend
  let readerIndex := b.readerIndex - data.length
  return { b with
    buffer := overwrite b.buffer readerIndex data
    readerIndex := readerIndex }

/-- `swap(rhs)`: both buffers after it. -/
def swap (b rhs : Buffer) : Buffer × Buffer :=
  (⟨rhs.buffer, rhs.readerIndex, rhs.writerIndex⟩, ⟨b.buffer, b.readerIndex, b.writerIndex⟩)

/-- `shrink(reserve)`. The line that would append the readable bytes to `other`
is commented out in the source. -/
def shrink (b : Buffer) (reserve : Nat) : Checked Buffer := do
  let other ← init kInitialSize
  let other ← other.ensureWritableBytes (b.readableBytes + reserve)
  return (b.swap other).1

/-! ## Reading from a descriptor -/

/-- `sizeof extrabuf`. -/
def extraSize : Nat := 65536

/-- The lengths of the areas `readFd` offers readv(2): the writable bytes, and behind
them `extrabuf` unless there are at least as many of them. -/
def iovecs (b : Buffer) : List Nat :=
  if b.writableBytes < extraSize then [b.writableBytes, extraSize] else [b.writableBytes]

/-- A call of readv(2): what it returned, `errno` after it, and the bytes it stored. -/
structure Readv where
  n : Int
  errno : Int
  stored : Bytes

/-- The outcomes readv(2) can have: a negative number, or the number of the bytes
stored; in either case no more than was offered. -/
structure Readv.Possible (r : Readv) (b : Buffer) : Prop where
  counted : r.n < 0 ∨ r.n = r.stored.length
  offered : r.stored.length ≤ b.iovecs.sum

/-- `readFd(fd, savedErrno)`, for what readv(2) did: the number returned, what was
written to `*savedErrno` if anything was, and the buffer. readv(2) fills the areas in
order, the writable bytes first. -/
def readFd (b : Buffer) (r : Readv) : Checked (Int × Option Int × Buffer) := do
  let writable := b.writableBytes
  let b : Buffer :=
    { b with buffer := overwrite b.buffer b.writerIndex (r.stored.take writable) }
  let extrabuf := r.stored.drop writable
  if r.n < 0 then
    return (r.n, some r.errno, b)
  else if r.n.toNat ≤ writable then
    return (r.n, none, { b with writerIndex := b.writerIndex + r.n.toNat })
  else
    let b : Buffer := { b with writerIndex := b.buffer.length }
    let b ← b.append (extrabuf.take (r.n.toNat - writable))
    return (r.n, none, b)

end Buffer

end ClyServer.Net
