import ClyServer.Base.Types

/-!
# Channels (`net/Channel.h`, `net/Channel.cpp`)

A channel is one descriptor, what its owner wants to hear about it, what poll
last reported, and the position the poller keeps for it. Callbacks are not part
of the record: `dispatch` is the list of them that `handleEventWithGuard` calls,
in the order it calls them, and whoever owns the channel says what they do.

`logHup_`, `tie_` and `eventHandling_` are read by nothing but the log.
-/

namespace ClyServer.Net

/-- A set of poll(2) event bits, in an `int`. -/
abbrev Events := BitVec 32

def POLLIN : Events := 0x001

def POLLPRI : Events := 0x002

def POLLOUT : Events := 0x004

def POLLERR : Events := 0x008

def POLLHUP : Events := 0x010

def POLLNVAL : Events := 0x020

def POLLRDHUP : Events := 0x2000

/-- `a & b`, as a condition. -/
def Events.any (a b : Events) : Bool := a &&& b ≠ 0

/-- What poll(2) may report for the events asked for: those, errors and hang-up. -/
def Reportable (events revents : Events) : Prop :=
  revents &&& (events ||| POLLERR ||| POLLHUP ||| POLLNVAL) = revents

instance (events revents : Events) : Decidable (Reportable events revents) :=
  inferInstanceAs (Decidable (_ = _))

structure Channel where
  fd : Int
  events : Events
  revents : Events
  index : Int
  addedToLoop : Bool
  deriving DecidableEq, Repr

namespace Channel

def kNoneEvent : Events := 0

def kReadEvent : Events := POLLIN

def kWriteEvent : Events := POLLOUT

/-- `Channel::Channel(loop, fd)`. -/
def init (fd : Int) : Channel where
  fd := fd
  events := 0
  revents := 0
  index := -1
  addedToLoop := false

def isNoneEvent (ch : Channel) : Bool := ch.events = kNoneEvent

theorem isNoneEvent_iff {ch : Channel} : ch.isNoneEvent = true ↔ ch.events = 0 :=
  decide_eq_true_iff

def isWriting (ch : Channel) : Bool := ch.events.any kWriteEvent

def isReading (ch : Channel) : Bool := ch.events.any kReadEvent

/-! The five changes of interest, as the change of `events_` each makes before
it calls `update()`. -/

def enableReading (events : Events) : Events := events ||| kReadEvent

def disableReading (events : Events) : Events := events &&& ~~~kReadEvent

def enableWriting (events : Events) : Events := events ||| kWriteEvent

def disableWriting (events : Events) : Events := events &&& ~~~kWriteEvent

def disableAll (_ : Events) : Events := kNoneEvent

/-- The callbacks a channel has. -/
inductive Callback where
  | close | error | read | write
  deriving DecidableEq, Repr

/-- `handleEventWithGuard`: the callbacks called for the events reported. The
four conditions all read `revents_`, which no callback writes, so a callback
does not keep a later one from being called. -/
def dispatch (revents : Events) : List Callback :=
  (if revents.any POLLHUP && !revents.any POLLIN then [.close] else []) ++
  (if revents.any (POLLERR ||| POLLNVAL) then [.error] else []) ++
  (if revents.any (POLLIN ||| POLLPRI ||| POLLRDHUP) then [.read] else []) ++
  (if revents.any POLLOUT then [.write] else [])

end Channel

end ClyServer.Net
