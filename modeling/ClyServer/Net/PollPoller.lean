import ClyServer.Base.Logging
import ClyServer.Net.Channel
import Mathlib.Logic.Function.Basic

/-!
# The poller (`net/PollPoller.h`, `net/PollPoller.cpp`)

Three structures that refer to each other: the array `pollfds_` handed to
poll(2), the map `channels_` from descriptors to channels, and in each channel
the position of its entry in the array. A channel that wants nothing keeps its
entry, with the descriptor negated so that poll(2) skips it.

Channels are known by address (`κ`); the poller and the channels it points to
are one state, `PollSet`. The assertions that would check the agreement of the
three structures are commented out in the source, so nothing here checks it
either: an index out of range and a channel that is not there are faults, and
`ClyServer.Net.PollSet` shows there are none. Counts of descriptors are taken to
fit in an `int`.
-/

namespace ClyServer.Net

/-- `struct pollfd`. -/
structure PollFd where
  fd : Int
  events : BitVec 16
  revents : BitVec 16
  deriving DecidableEq, Repr

structure PollPoller (κ : Type) where
  pollfds : List PollFd
  channels : Int → Option κ

/-- A poller and the channels by their addresses. -/
structure PollSet (κ : Type) where
  channel : κ → Channel
  poller : PollPoller κ

namespace PollSet

variable {κ : Type} [DecidableEq κ]

/-- `pollfds_[idx]`. -/
def pollfdAt (pollfds : List PollFd) (idx : Int) : Checked PollFd :=
  if 0 ≤ idx then
    match pollfds[idx.toNat]? with
    | some pfd => return pfd
    | none => .error .outOfRange
  else .error .outOfRange

/-- `iter_swap(pollfds_.begin()+idx, pollfds_.end()-1)`, for the values the two
positions hold. -/
def iterSwap (pollfds : List PollFd) (idx : Nat) (pfd last : PollFd) : List PollFd :=
  (pollfds.set idx last).set (pollfds.length - 1) pfd

/-- The channel at an address replaced. -/
def setChannel (s : PollSet κ) (c : κ) (ch : Channel) : PollSet κ :=
  { s with channel := Function.update s.channel c ch }

/-- `PollPoller::updateChannel(channel)`. -/
def updateChannel (s : PollSet κ) (c : κ) : Checked (PollSet κ) := do
  let ch := s.channel c
  if ch.index < 0 then
    let pfd : PollFd := ⟨ch.fd, ch.events.setWidth 16, 0⟩
    let pollfds := s.poller.pollfds ++ [pfd]
    let s := s.setChannel c { ch with index := pollfds.length - 1 }
    return { s with poller := ⟨pollfds, Function.update s.poller.channels pfd.fd (some c)⟩ }
  else
    let _ ← pollfdAt s.poller.pollfds ch.index
    let pfd : PollFd :=
      ⟨if ch.isNoneEvent then -ch.fd - 1 else ch.fd, ch.events.setWidth 16, 0⟩
    return { s with poller := { s.poller with
      pollfds := s.poller.pollfds.set ch.index.toNat pfd } }

/-- `PollPoller::removeChannel(channel)`. The channel's `index_` stays as it is.
`channels_[channelAtEnd]` would make a null entry for a descriptor that is not
in the map, and `set_index` would go through it. -/
def removeChannel (s : PollSet κ) (c : κ) : Checked (PollSet κ) := do
  let ch := s.channel c
  let pollfds := s.poller.pollfds
  let pfd ← pollfdAt pollfds ch.index
  let channels := Function.update s.poller.channels ch.fd none
  if ch.index.toNat = pollfds.length - 1 then
    return { s with poller := ⟨pollfds.dropLast, channels⟩ }
  else
    let last ← pollfdAt pollfds (pollfds.length - 1)
    let channelAtEnd := if last.fd < 0 then -last.fd - 1 else last.fd
    match channels channelAtEnd with
    | none => .error .nullPointer
    | some d =>
      let s := s.setChannel d { s.channel d with index := ch.index }
      return { s with poller := ⟨(iterSwap pollfds ch.index.toNat pfd last).dropLast, channels⟩ }

/-- `Channel::update()`, through `EventLoop::updateChannel`. -/
def update (s : PollSet κ) (c : κ) : Checked (PollSet κ) :=
  (s.setChannel c { s.channel c with addedToLoop := true }).updateChannel c

/-- One of the five changes of interest: `events_` is changed and `update()`
called. -/
def interest (s : PollSet κ) (c : κ) (change : Events → Events) : Checked (PollSet κ) :=
  (s.setChannel c { s.channel c with events := change (s.channel c).events }).update c

/-- `Channel::remove()`, through `EventLoop::removeChannel` outside of event
handling. -/
def remove (s : PollSet κ) (c : κ) : Checked (PollSet κ) :=
  (s.setChannel c { s.channel c with addedToLoop := false }).removeChannel c

/-- `hasChannel(channel)`. -/
def hasChannel (s : PollSet κ) (c : κ) : Bool := s.poller.channels (s.channel c).fd = some c

/-- The loop of `fillActiveChannels` over the entries left: the channels with their
`revents_` set, and the list of the active ones. -/
def fillActive (channels : Int → Option κ) : List PollFd → Int → (κ → Channel) → List κ →
    Checked ((κ → Channel) × List κ)
  | [], _, channel, activeChannels => return (channel, activeChannels)
  | pfd :: rest, numEvents, channel, activeChannels =>
    if numEvents > 0 then
      if pfd.revents.toInt > 0 then
        match channels pfd.fd with
        | none => .error (.assertion .fillActiveChannels)
        | some c => do
          check ((channel c).fd = pfd.fd) .fillActiveChannels
          let ch := { channel c with revents := pfd.revents.signExtend 32 }
          fillActive channels rest (numEvents - 1) (Function.update channel c ch)
            (activeChannels ++ [c])
      else fillActive channels rest numEvents channel activeChannels
    else return (channel, activeChannels)

/-- `PollPoller::fillActiveChannels(numEvents, activeChannels)`. -/
def fillActiveChannels (s : PollSet κ) (numEvents : Int) (activeChannels : List κ) :
    Checked (PollSet κ × List κ) := do
  let (channel, activeChannels) ←
    fillActive s.poller.channels s.poller.pollfds numEvents s.channel activeChannels
  return ({ s with channel }, activeChannels)

/-- A call of poll(2): what it returned, whether `errno` is EINTR after it, and what it
left in the `revents` of the entries. -/
structure PollCall where
  numEvents : Int
  interrupted : Bool
  revents : List (BitVec 16)

/-- The entries with the `revents` that poll(2) left. -/
def setRevents (s : PollSet κ) (revents : List (BitVec 16)) : PollSet κ :=
  { s with poller := { s.poller with
    pollfds := s.poller.pollfds.zipWith (fun pfd r => { pfd with revents := r }) revents } }

/-- `PollPoller::poll(timeoutMs, activeChannels)`, for what poll(2) did. -/
def poll (s : PollSet κ) (call : PollCall) (activeChannels : List κ) :
    Checked (PollSet κ × List κ) := do
  let s := s.setRevents call.revents
  if call.numEvents > 0 then s.fillActiveChannels call.numEvents activeChannels
  else if call.numEvents = 0 then return (s, activeChannels)
  else
    if ¬ call.interrupted then LOG_SYSERR
    return (s, activeChannels)

end PollSet

end ClyServer.Net
