import ClyServer.Base.Types
import ClyServer.Lib.System

/-!
# The event loop (`net/EventLoop.h`, `net/EventLoop.cpp`)

The record `EventLoop` has the fields other code can see; the functions on it
are the statements of `loop()`, `queueInLoop`, `doPendingFunctors` and the rest,
cut where another thread may come between: the push and the eventfd write of
`queueInLoop` are two, and so are setting `callingPendingFunctors_` and the
locked swap. `Place` is where the loop thread stands, and `Cycle.step` is what it
or another thread does next.

Of the eventfd it is assumed that a write adds to its counter, a read resets it
and poll reports it readable only while it is positive. `poll` has no timeout.
-/

namespace ClyServer.Net

open ClyServer.Lib

/-- The channels a loop's poll can report: its own wakeup channel, and others. -/
inductive LoopChannel (χ : Type) where
  | wakeupChannel
  | other (c : χ)
  deriving DecidableEq, Repr

structure EventLoop (χ φ : Type) where
  looping : Bool
  quit : Bool
  eventHandling : Bool
  callingPendingFunctors : Bool
  activeChannels : List (LoopChannel χ)
  currentActiveChannel : Option (LoopChannel χ)
  pendingFunctors : List φ
  /-- The counter of `wakeupFd_`. -/
  wakeupCounter : Nat
  deriving DecidableEq, Repr

namespace EventLoop

variable {χ φ : Type}

/-- `EventLoop::EventLoop()`. -/
def init : EventLoop χ φ where
  looping := false
  quit := false
  eventHandling := false
  callingPendingFunctors := false
  activeChannels := []
  currentActiveChannel := none
  pendingFunctors := []
  wakeupCounter := 0

/-- `queueInLoop(cb)`, its locked push. -/
def push (l : EventLoop χ φ) (cb : φ) : EventLoop χ φ :=
  { l with pendingFunctors := l.pendingFunctors ++ [cb] }

/-- `queueInLoop(cb)`, whether it goes on to `wakeup()`:
`!isInLoopThread() || callingPendingFunctors_`. -/
def wantsWakeup (l : EventLoop χ φ) (isInLoopThread : Bool) : Bool :=
  !isInLoopThread || l.callingPendingFunctors

/-- `wakeup()`. -/
def wakeup (l : EventLoop χ φ) : EventLoop χ φ := { l with wakeupCounter := l.wakeupCounter + 1 }

/-- `queueInLoop(cb)` with nothing between its two halves. -/
def queueInLoop (l : EventLoop χ φ) (isInLoopThread : Bool) (cb : φ) : EventLoop χ φ :=
  let l := l.push cb
  if l.wantsWakeup isInLoopThread then l.wakeup else l

@[simp] theorem queueInLoop_pendingFunctors (l : EventLoop χ φ) (isInLoopThread : Bool) (cb : φ) :
    (l.queueInLoop isInLoopThread cb).pendingFunctors = l.pendingFunctors ++ [cb] := by
  unfold queueInLoop
  dsimp only
  split <;> rfl

@[simp] theorem queueInLoop_eventHandling (l : EventLoop χ φ) (isInLoopThread : Bool) (cb : φ) :
    (l.queueInLoop isInLoopThread cb).eventHandling = l.eventHandling := by
  unfold queueInLoop
  dsimp only
  split <;> rfl

/-- `handleRead()`, the wakeup channel's read callback. -/
def handleRead (l : EventLoop χ φ) : EventLoop χ φ := { l with wakeupCounter := 0 }

/-- `quit()`. It does not wake the loop up. -/
def setQuit (l : EventLoop χ φ) : EventLoop χ φ := { l with quit := true }

/-- `loop()` up to its `while`. -/
def enter (l : EventLoop χ φ) : EventLoop χ φ := { l with looping := true, quit := false }

/-- `loop()` after its `while`. -/
def leave (l : EventLoop χ φ) : EventLoop χ φ := { l with looping := false }

/-- The start of a round: `activeChannels_.clear()`, and then poll. -/
def startPoll (l : EventLoop χ φ) : EventLoop χ φ := { l with activeChannels := [] }

/-- Poll has filled `activeChannels_`, and `eventHandling_` is set. -/
def startHandling (l : EventLoop χ φ) (active : List (LoopChannel χ)) : EventLoop χ φ :=
  { l with activeChannels := active, eventHandling := true }

/-- The next channel of `activeChannels_` becomes the current one. -/
def setCurrent (l : EventLoop χ φ) (c : LoopChannel χ) : EventLoop χ φ :=
  { l with currentActiveChannel := some c }

/-- The end of the `for` over `activeChannels_`. -/
def endHandling (l : EventLoop χ φ) : EventLoop χ φ :=
  { l with currentActiveChannel := none, eventHandling := false }

/-- `doPendingFunctors()` up to its lock. -/
def startFunctors (l : EventLoop χ φ) : EventLoop χ φ := { l with callingPendingFunctors := true }

/-- `functors.swap(pendingFunctors_)`, under the lock. -/
def swapFunctors (l : EventLoop χ φ) : List φ × EventLoop χ φ :=
  (l.pendingFunctors, { l with pendingFunctors := [] })

/-- The end of `doPendingFunctors()`. -/
def endFunctors (l : EventLoop χ φ) : EventLoop χ φ := { l with callingPendingFunctors := false }

/-- `removeChannel(channel)`, its assertion: while events are handled, a channel
may go only if it is the current one or not active at all. -/
def checkRemove [DecidableEq χ] (l : EventLoop χ φ) (c : χ) : Checked Unit :=
  if l.eventHandling then
    check (l.currentActiveChannel = some (.other c) ∨ .other c ∉ l.activeChannels) .removeChannel
  else return ()

end EventLoop

/-! ## One loop and the threads that use it -/

/-- Where the loop thread is: not in `loop()`, at the test of its `while`, in
poll, in the `for` over the active channels (inside a handler or between two), in
`doPendingFunctors` before its swap, or in its `for` over the batch (inside a
functor or between two). -/
inductive Place (χ φ : Type) where
  | outside
  | test
  | polling
  | handling (rest : List (LoopChannel χ)) (inside : Bool)
  | swapping
  | calling (batch : List φ) (inside : Bool)
  deriving DecidableEq, Repr

/-- The rest of the batch being run. -/
def Place.batch {χ φ : Type} : Place χ φ → List φ
  | calling batch _ => batch
  | _ => []

/-- A loop, where its thread is, and which threads are between their push and
their eventfd write. The loop thread is `none`, another thread `some t`. The last
field records what was executed, in order. -/
structure Cycle (χ φ τ : Type) where
  loop : EventLoop χ φ
  place : Place χ φ
  owesWakeup : Option τ → Bool
  executed : List φ

namespace Cycle

variable {χ φ τ : Type}

/-- A loop just constructed. -/
def start : Cycle χ φ τ where
  loop := .init
  place := .outside
  owesWakeup := fun _ => false
  executed := []

/-- What can happen next. `initPush` is the owner's `queueInLoop` before it enters
`loop()`, from a `ThreadInitCallback`. -/
inductive Label (χ φ τ : Type) where
  | initPush (cb : φ)
  | push (t : Option τ) (cb : φ)
  | wakeup (t : Option τ)
  | quit
  | enter
  | test
  | pollReturn (active : List (LoopChannel χ))
  | handle
  | handled
  | endHandling
  | swap
  | execute
  | executed
  | endFunctors
  deriving DecidableEq, Repr

/-- The functor a label pushes. -/
def Label.pushed? : Label χ φ τ → Option φ
  | initPush cb => some cb
  | push _ cb => some cb
  | _ => none

/-- The loop thread is inside a handler or a functor. -/
def Inside (s : Cycle χ φ τ) : Prop :=
  (∃ rest, s.place = .handling rest true) ∨ ∃ batch, s.place = .calling batch true

/-- The labels a state allows. A thread that owes a wakeup does that first. -/
def Enabled (s : Cycle χ φ τ) : Label χ φ τ → Prop
  | .initPush _ => s.place = .outside
  | .push none _ => s.Inside ∧ s.owesWakeup none = false
  | .push (some t) _ => s.owesWakeup (some t) = false
  | .wakeup t => s.owesWakeup t = true
  | .quit => True
  | .enter => s.place = .outside
  | .test => s.place = .test
  | .pollReturn active =>
    s.place = .polling ∧ (.wakeupChannel ∈ active → 0 < s.loop.wakeupCounter)
  | .handle => ∃ c rest, s.place = .handling (c :: rest) false
  | .handled => s.owesWakeup none = false ∧ ∃ rest, s.place = .handling rest true
  | .endHandling => s.place = .handling [] false
  | .swap => s.place = .swapping
  | .execute => ∃ cb rest, s.place = .calling (cb :: rest) false
  | .executed => s.owesWakeup none = false ∧ ∃ batch, s.place = .calling batch true
  | .endFunctors => s.place = .calling [] false

/-- A push by a thread, which then owes a wakeup if `queueInLoop` asks for one. -/
def pushBy [DecidableEq τ] (s : Cycle χ φ τ) (t : Option τ) (cb : φ) : Cycle χ φ τ :=
  { s with
    loop := s.loop.push cb
    owesWakeup := Function.update s.owesWakeup t (s.loop.wantsWakeup t.isNone) }

/-- The step of a label, from a state that allows it. -/
def step [DecidableEq τ] (s : Cycle χ φ τ) : Label χ φ τ → Cycle χ φ τ
  | .initPush cb => { s with loop := s.loop.push cb }
  | .push t cb => s.pushBy t cb
  | .wakeup t =>
    { s with loop := s.loop.wakeup, owesWakeup := Function.update s.owesWakeup t false }
  | .quit => { s with loop := s.loop.setQuit }
  | .enter => { s with loop := s.loop.enter, place := .test }
  | .test =>
    if s.loop.quit then { s with loop := s.loop.leave, place := .outside }
    else { s with loop := s.loop.startPoll, place := .polling }
  | .pollReturn active =>
    { s with loop := s.loop.startHandling active, place := .handling active false }
  | .handle =>
    match s.place with
    | .handling (.wakeupChannel :: rest) _ =>
      { s with loop := (s.loop.setCurrent .wakeupChannel).handleRead
               place := .handling rest false }
    | .handling (c :: rest) _ =>
      { s with loop := s.loop.setCurrent c, place := .handling rest true }
    | _ => s
  | .handled =>
    match s.place with
    | .handling rest _ => { s with place := .handling rest false }
    | _ => s
  | .endHandling => { s with loop := s.loop.endHandling.startFunctors, place := .swapping }
  | .swap =>
    { s with loop := s.loop.swapFunctors.2, place := .calling s.loop.swapFunctors.1 false }
  | .execute =>
    match s.place with
    | .calling (cb :: rest) _ =>
      { s with place := .calling rest true, executed := s.executed ++ [cb] }
    | _ => s
  | .executed =>
    match s.place with
    | .calling batch _ => { s with place := .calling batch false }
    | _ => s
  | .endFunctors => { s with loop := s.loop.endFunctors, place := .test }

/-- One loop with any number of other threads. -/
def system (χ φ τ : Type) [DecidableEq τ] : System (Cycle χ φ τ) (Label χ φ τ) Fault where
  enabled := Enabled
  step := fun s l => .ok (s.step l)

end Cycle

end ClyServer.Net
