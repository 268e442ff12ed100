import ClyServer.Net.EventLoop

/-!
# A loop in a thread of its own (`base/Thread.cpp`, `net/EventLoopThread.cpp`)

`startLoop` makes a thread and waits for it twice: in `Thread::start` for the promise that it
runs, and then, under the mutex, for the pointer to the loop the thread has on its stack. The
destructor reads that pointer, calls `quit()` through it and joins the thread. The two threads
are cut where the other one may come between; the loop itself is the `Cycle` of
`net/EventLoop.cpp`, and other threads may use it as it says.

`quit()` is public, and whoever has the pointer may call it while the loop lives. If nobody does
but the destructor, then however the two take turns `startLoop_safe` holds: no assertion of the
thread or of `loop()` fails, the pointer that is handed out is to a loop that lives, for which the
init callback has been called once, and a destructor that returns has seen the thread end. One
other `quit()` is enough to break that: the destructor tests `loop_` without the mutex, and the
thread may end between the test and the call (`startLoop_quit_dangles`).
-/

namespace ClyServer.Net

open ClyServer.Lib

/-- How threads of loops and their owner can go wrong: a second future of one promise, the
assertions of `Thread::start`, `Thread::join` and `EventLoop::loop`, a call through a pointer to
a loop that is gone, and a place outside of `loops_`. -/
inductive ThreadFault where
  | getFuture
  | alreadyStarted
  | tid
  | notStarted
  | alreadyJoined
  | looping
  | dangling
  | outOfRange
  deriving DecidableEq, Repr

/-- `Thread`. Of `p_` it is known whether its future was taken and its value set. -/
structure Thread where
  started : Bool
  joined : Bool
  tid : Nat
  futureTaken : Bool
  valueSet : Bool
  deriving DecidableEq, Repr

/-- Where the new thread is: not there, at the start of `runInThread`, of `threadFunc`, before
its mutex, before `loop()`, in it, behind it, behind its second mutex, or gone. -/
inductive ThreadPlace where
  | absent
  | created
  | running
  | initialised
  | published
  | looping
  | returned
  | cleared
  | ended
  deriving DecidableEq, Repr

/-- Where the owner is: before `startLoop`, in it at the promise, at the mutex or in the wait,
behind it, or in the destructor at its test of `loop_`, at `quit()`, at `join()`, in
`pthread_join`, or behind it. -/
inductive OwnerPlace where
  | idle
  | latch
  | locking
  | waiting
  | started
  | testing
  | quitting
  | join
  | joining
  | destroyed
  deriving DecidableEq, Repr

/-- The pointer is there from the one mutex to the other. -/
def ThreadPlace.pointing : ThreadPlace → Bool
  | .published | .looping | .returned => true
  | _ => false

/-- The loop lives. -/
def ThreadPlace.living : ThreadPlace → Bool
  | .initialised | .published | .looping | .returned | .cleared => true
  | _ => false

/-- The init callback has been called. -/
def ThreadPlace.called : ThreadPlace → Bool
  | .absent | .created | .running => false
  | _ => true

/-- The thread has set the promise. -/
def ThreadPlace.told : ThreadPlace → Bool
  | .absent | .created => false
  | _ => true

/-- The destructor has called `quit()`, and has not returned. -/
def OwnerPlace.hasQuit : OwnerPlace → Bool
  | .join | .joining => true
  | _ => false

structure EventLoopThread (χ φ τ : Type) where
  /-- `loop_ != NULL`. -/
  loop : Bool
  exiting : Bool
  thread : Thread
  /-- The `EventLoop` on the thread's stack, while it lives. -/
  object : Option (Cycle χ φ τ)
  place : ThreadPlace
  owner : OwnerPlace
  /-- Whether there is a `callback_`, and how often it was called. -/
  callback : Bool
  callbacks : Nat

namespace EventLoopThread

variable {χ φ τ : Type}

/-- `EventLoopThread(cb, name)`. -/
def init (callback : Bool) : EventLoopThread χ φ τ where
  loop := false
  exiting := false
  thread := ⟨false, false, 0, false, false⟩
  object := none
  place := .absent
  owner := .idle
  callback := callback
  callbacks := 0

/-! ## The owner -/

/-- `startLoop()` up to the promise: `Thread::start`, with what `pthread_create` answers. -/
def start (s : EventLoopThread χ φ τ) (created : Bool) :
    Except ThreadFault (EventLoopThread χ φ τ) :=
  if s.thread.futureTaken then .error .getFuture
  else if s.thread.started then .error .alreadyStarted
  else if created then
    .ok { s with
      thread := { s.thread with futureTaken := true, started := true }
      place := .created
      owner := .latch }
  else .ok { s with thread := { s.thread with futureTaken := true }, owner := .locking }

/-- The promise has its value, and `Thread::start` returns. -/
def latch (s : EventLoopThread χ φ τ) : Except ThreadFault (EventLoopThread χ φ τ) :=
  if 0 < s.thread.tid then .ok { s with owner := .locking } else .error .tid

/-- `while(loop_ == NULL)`, under the mutex, and `return loop`. -/
def lock (s : EventLoopThread χ φ τ) : EventLoopThread χ φ τ :=
  { s with owner := if s.loop then .started else .waiting }

/-- `~EventLoopThread()` up to its test. -/
def destroy (s : EventLoopThread χ φ τ) : EventLoopThread χ φ τ :=
  { s with exiting := true, owner := .testing }

/-- `if(loop_ != NULL)`. -/
def testLoop (s : EventLoopThread χ φ τ) : EventLoopThread χ φ τ :=
  { s with owner := if s.loop then .quitting else .destroyed }

/-- `loop_->quit()`. -/
def quitLoop (s : EventLoopThread χ φ τ) : Except ThreadFault (EventLoopThread χ φ τ) :=
  match s.object with
  | none => .error .dangling
  | some c => .ok { s with object := some { c with loop := c.loop.setQuit }, owner := .join }

/-- `thread_.join()` up to `pthread_join`. -/
def join (s : EventLoopThread χ φ τ) : Except ThreadFault (EventLoopThread χ φ τ) :=
  if !s.thread.started then .error .notStarted
  else if s.thread.joined then .error .alreadyJoined
  else .ok { s with thread := { s.thread with joined := true }, owner := .joining }

/-! ## The new thread -/

/-- `runInThread` up to `func_()`. -/
def run (s : EventLoopThread χ φ τ) (tid : Nat) : EventLoopThread χ φ τ :=
  { s with thread := { s.thread with tid, valueSet := true }, place := .running }

/-- `EventLoop loop` and, if there is one, `callback_(&loop)`. -/
def initLoop (s : EventLoopThread χ φ τ) : EventLoopThread χ φ τ :=
  { s with
    object := some .start
    callbacks := if s.callback then s.callbacks + 1 else s.callbacks
    place := .initialised }

/-- `loop_ = &loop`, under the mutex. -/
def publish (s : EventLoopThread χ φ τ) : EventLoopThread χ φ τ :=
  { s with loop := true, place := .published }

/-- `loop_ = NULL`, under the mutex. -/
def clear (s : EventLoopThread χ φ τ) : EventLoopThread χ φ τ :=
  { s with loop := false, place := .cleared }

/-- The end of `threadFunc` and of the thread: `loop` is destroyed. -/
def finish (s : EventLoopThread χ φ τ) : EventLoopThread χ φ τ :=
  { s with object := none, place := .ended }

/-! ## Both -/

section Steps

inductive Label (χ φ τ : Type) where
  | start (created : Bool)
  | latch
  | lock
  | wake
  | destroy
  | testLoop
  | quitLoop
  | join
  | joined
  | run (tid : Nat)
  | initLoop
  | publish
  | loop (l : Cycle.Label χ φ τ)
  | clear
  | finish
  deriving DecidableEq, Repr

/-- Where in the thread the loop takes a step. Before the loop is published only the init
callback has the pointer: it may queue functors and call `quit()`. From then on other threads have
it too, and use it only while the loop lives. -/
def LoopEnabled (s : EventLoopThread χ φ τ) (l : Cycle.Label χ φ τ) : Prop :=
  (∃ c, s.object = some c ∧ c.Enabled l) ∧
    match l with
    | .initPush _ => s.place = .initialised ∧ s.callback = true
    | .quit => s.place = .initialised → s.callback = true
    | .push (some _) _ | .wakeup (some _) => s.place ≠ .initialised
    | .enter => s.place = .published
    | _ => s.place = .published ∨ s.place = .looping

/-- The labels a state allows. A wait may end at any time, and `gettid` answers no zero. -/
def Enabled (s : EventLoopThread χ φ τ) : Label χ φ τ → Prop
  | .start _ => s.owner = .idle
  | .latch => s.owner = .latch ∧ s.thread.valueSet = true
  | .lock => s.owner = .locking
  | .wake => s.owner = .waiting
  | .destroy => s.owner = .idle ∨ s.owner = .started
  | .testLoop => s.owner = .testing
  | .quitLoop => s.owner = .quitting
  | .join => s.owner = .join
  | .joined => s.owner = .joining ∧ s.place = .ended
  | .run tid => s.place = .created ∧ 0 < tid
  | .initLoop => s.place = .running
  | .publish => s.place = .initialised
  | .loop l => s.LoopEnabled l
  | .clear => s.place = .returned
  | .finish => s.place = .cleared

variable [DecidableEq τ]

/-- A step of the loop, or of a thread that uses it. The thread enters `loop()` with the first
one and leaves it when its test finds `quit_` set. -/
def loopStep (s : EventLoopThread χ φ τ) (l : Cycle.Label χ φ τ) :
    Except ThreadFault (EventLoopThread χ φ τ) :=
  match s.object with
  | none => .error .dangling
  | some c =>
    match l with
    | .enter =>
      if c.loop.looping then .error .looping
      else .ok { s with object := some (c.step .enter), place := .looping }
    | .test =>
      .ok { s with
        object := some (c.step .test)
        place := if c.loop.quit then .returned else .looping }
    | l => .ok { s with object := some (c.step l) }

def step (s : EventLoopThread χ φ τ) :
    Label χ φ τ → Except ThreadFault (EventLoopThread χ φ τ)
  | .start created => s.start created
  | .latch => s.latch
  | .lock => .ok s.lock
  | .wake => .ok s.lock
  | .destroy => .ok s.destroy
  | .testLoop => .ok s.testLoop
  | .quitLoop => s.quitLoop
  | .join => s.join
  | .joined => .ok { s with owner := .destroyed }
  | .run tid => .ok (s.run tid)
  | .initLoop => .ok s.initLoop
  | .publish => .ok s.publish
  | .loop l => s.loopStep l
  | .clear => .ok s.clear
  | .finish => .ok s.finish

/-- The two threads, and any number of others that use the loop. -/
def system (χ φ τ : Type) [DecidableEq τ] :
    System (EventLoopThread χ φ τ) (Label χ φ τ) ThreadFault where
  enabled := Enabled
  step := step

end Steps

/-! ## What the two keep -/

/-- Where the thread can be while the owner is at a place. -/
def Together : OwnerPlace → ThreadPlace → Bool
  | .idle, p => p = .absent
  | .latch, p => p = .created || p = .running || p = .initialised || p = .published || p = .looping
  | .locking, p | .waiting, p =>
    p = .absent || p = .running || p = .initialised || p = .published || p = .looping
  | .started, p | .quitting, p => p = .published || p = .looping
  | .testing, p => p = .absent || p = .published || p = .looping
  | .join, p | .joining, p => p.pointing || p = .cleared || p = .ended
  | .destroyed, p => p = .absent || p = .ended

/-- What holds of the loop on the stack while nobody else calls `quit()`: the thread is in `loop()`
exactly where it says, and `quit_` is set only by the destructor. -/
structure Sound (c : Cycle χ φ τ) (p : ThreadPlace) (o : OwnerPlace) : Prop where
  outside : c.place = .outside ↔ p ≠ .looping
  looping : c.loop.looping = true ↔ p = .looping
  quit : c.loop.quit = true → o.hasQuit = true

structure Inv (s : EventLoopThread χ φ τ) : Prop where
  together : Together s.owner s.place = true
  loop : s.loop = s.place.pointing
  object : s.object.isSome = s.place.living
  sound : ∀ c, s.object = some c → Sound c s.place s.owner
  valueSet : s.thread.valueSet = s.place.told
  tid : s.place.told = true → 0 < s.thread.tid
  started : s.thread.started = decide (s.place ≠ .absent)
  fresh : s.owner = .idle → s.thread.futureTaken = false
  joined : s.thread.joined = true ↔ s.owner = .joining ∨ s.owner = .destroyed ∧ s.place = .ended
  callbacks : s.callbacks = if s.place.called && s.callback then 1 else 0

theorem inv_init (callback : Bool) : (init callback : EventLoopThread χ φ τ).Inv where
  together := rfl
  loop := rfl
  object := rfl
  sound := nofun
  valueSet := rfl
  tid := nofun
  started := rfl
  fresh := fun _ => rfl
  joined := by simp [init]
  callbacks := rfl

variable {s : EventLoopThread χ φ τ}

/-- A step of the owner: it leaves the thread where it is. -/
theorem Inv.owner (h : s.Inv) (o : OwnerPlace) {thread : Thread} {exiting : Bool}
    (htogether : Together o s.place = true) (hidle : o ≠ .idle)
    (hquit : s.owner.hasQuit = true → o.hasQuit = true ∨ s.place = .ended)
    (hthread : thread.valueSet = s.thread.valueSet ∧ thread.tid = s.thread.tid ∧
      thread.started = s.thread.started)
    (hjoined : thread.joined = true ↔ o = .joining ∨ o = .destroyed ∧ s.place = .ended) :
    Inv { s with owner := o, thread, exiting } where
  together := htogether
  loop := h.loop
  object := h.object
  sound := by
    intro c hc
    have hsound := h.sound c hc
    refine ⟨hsound.outside, hsound.looping, fun hset => ?_⟩
    rcases hquit (hsound.quit hset) with hstill | hended
    · exact hstill
    · have hobject := h.object
      have hc : s.object = some c := hc
      rw [hc, hended] at hobject
      cases hobject
  valueSet := hthread.1.trans h.valueSet
  tid := fun htold => hthread.2.1 ▸ h.tid htold
  started := hthread.2.2.trans h.started
  fresh := fun heq => absurd heq hidle
  joined := hjoined
  callbacks := h.callbacks

/-- `startLoop` up to the promise. -/
theorem Inv.start (h : s.Inv) (hidle : s.owner = .idle) (created : Bool) :
    ∃ s', s.start created = .ok s' ∧ s'.Inv := by
  have habsent : s.place = .absent := by simpa [Together, hidle] using h.together
  have hstarted : s.thread.started = false := by simpa [habsent] using h.started
  have hjoined : s.thread.joined = false := by simpa [hidle] using h.joined
  have hloop := h.loop
  have hobject := h.object
  have hvalue := h.valueSet
  have hcallbacks := h.callbacks
  rw [habsent] at hloop hobject hvalue hcallbacks
  unfold EventLoopThread.start
  rw [if_neg (by simp [h.fresh hidle]), if_neg (by simp [hstarted])]
  cases created with
  | true =>
    refine ⟨_, rfl, rfl, hloop, hobject, ?_, hvalue, nofun, rfl, nofun, by simp [hjoined],
      hcallbacks⟩
    intro c hc
    have hc : s.object = some c := hc
    rw [hc] at hobject
    cases hobject
  | false =>
    refine ⟨_, rfl, h.owner .locking (by simp [habsent, Together]) nofun ?_ ⟨rfl, rfl, rfl⟩ ?_⟩
    · simp [hidle, OwnerPlace.hasQuit]
    · simp [hjoined]

theorem Inv.latch (h : s.Inv) (howner : s.owner = .latch) (hset : s.thread.valueSet = true) :
    ∃ s', s.latch = .ok s' ∧ s'.Inv := by
  have htold : s.place.told = true := h.valueSet ▸ hset
  have hjoined : s.thread.joined = false := by simpa [howner] using h.joined
  unfold EventLoopThread.latch
  rw [if_pos (h.tid htold)]
  refine ⟨_, rfl, h.owner .locking ?_ nofun ?_ ⟨rfl, rfl, rfl⟩ ?_⟩
  · have htogether := h.together
    rw [howner] at htogether
    cases hplace : s.place <;> simp_all [Together, ThreadPlace.told]
  · simp [howner, OwnerPlace.hasQuit]
  · simp [hjoined]

theorem Inv.lock (h : s.Inv) (howner : s.owner = .locking ∨ s.owner = .waiting) :
    s.lock.Inv := by
  have hjoined : s.thread.joined = false := by
    rcases howner with howner | howner <;> simpa [howner] using h.joined
  have htogether : Together .locking s.place = true := by
    rcases howner with howner | howner <;> simpa [howner, Together] using h.together
  have hquit : s.owner.hasQuit = false := by
    rcases howner with howner | howner <;> simp [howner, OwnerPlace.hasQuit]
  have hloop := h.loop
  unfold EventLoopThread.lock
  by_cases hl : s.loop = true
  · rw [if_pos hl]
    refine h.owner .started ?_ nofun (by simp [hquit]) ⟨rfl, rfl, rfl⟩ (by simp [hjoined])
    cases hplace : s.place <;> simp_all [Together, ThreadPlace.pointing]
  · rw [if_neg hl]
    exact h.owner .waiting htogether nofun (by simp [hquit]) ⟨rfl, rfl, rfl⟩ (by simp [hjoined])

theorem Inv.destroy (h : s.Inv) (howner : s.owner = .idle ∨ s.owner = .started) :
    s.destroy.Inv := by
  have hjoined : s.thread.joined = false := by
    rcases howner with howner | howner <;> simpa [howner] using h.joined
  have htogether := h.together
  refine h.owner .testing ?_ nofun ?_ ⟨rfl, rfl, rfl⟩ (by simp [hjoined])
  · rcases howner with howner | howner <;> cases hplace : s.place <;> simp_all [Together]
  · rcases howner with howner | howner <;> simp [howner, OwnerPlace.hasQuit]

theorem Inv.testLoop (h : s.Inv) (howner : s.owner = .testing) : s.testLoop.Inv := by
  have hjoined : s.thread.joined = false := by simpa [howner] using h.joined
  have hquit : s.owner.hasQuit = false := by simp [howner, OwnerPlace.hasQuit]
  have htogether := h.together
  have hloop := h.loop
  rw [howner] at htogether
  unfold EventLoopThread.testLoop
  by_cases hl : s.loop = true
  · rw [if_pos hl]
    refine h.owner .quitting ?_ nofun (by simp [hquit]) ⟨rfl, rfl, rfl⟩ (by simp [hjoined])
    cases hplace : s.place <;> simp_all [Together, ThreadPlace.pointing]
  · rw [if_neg hl]
    have habsent : s.place = .absent := by
      cases hplace : s.place <;> simp_all [Together, ThreadPlace.pointing]
    refine h.owner .destroyed ?_ nofun (by simp [hquit]) ⟨rfl, rfl, rfl⟩ ?_
    · simp [habsent, Together]
    · simp [hjoined, habsent]

theorem Inv.quitLoop (h : s.Inv) (howner : s.owner = .quitting) :
    ∃ s', s.quitLoop = .ok s' ∧ s'.Inv := by
  have htogether := h.together
  rw [howner] at htogether
  have hobject := h.object
  have hjoined : s.thread.joined = false := by simpa [howner] using h.joined
  obtain ⟨c, hc⟩ : ∃ c, s.object = some c := by
    rw [← Option.isSome_iff_exists, hobject]
    cases hplace : s.place <;> simp_all [Together, ThreadPlace.living]
  have hsound := h.sound c hc
  unfold EventLoopThread.quitLoop
  rw [hc]
  refine ⟨_, rfl, ?_, h.loop, ?_, ?_, h.valueSet, h.tid, h.started, nofun, by simp [hjoined],
    h.callbacks⟩
  · cases hplace : s.place <;> simp_all [Together, ThreadPlace.pointing]
  · rw [← hobject, hc]
    rfl
  · rintro _ ⟨⟩
    exact ⟨hsound.outside, hsound.looping, fun _ => rfl⟩

theorem Inv.join (h : s.Inv) (howner : s.owner = .join) : ∃ s', s.join = .ok s' ∧ s'.Inv := by
  have htogether := h.together
  rw [howner] at htogether
  have hstarted : s.thread.started = true := by
    rw [h.started]
    cases hplace : s.place <;> simp_all [Together, ThreadPlace.pointing]
  have hjoined : s.thread.joined = false := by simpa [howner] using h.joined
  unfold EventLoopThread.join
  rw [if_neg (by simp [hstarted]), if_neg (by simp [hjoined])]
  exact ⟨_, rfl, h.owner .joining htogether nofun (fun _ => .inl rfl) ⟨rfl, rfl, rfl⟩ (by simp)⟩

theorem Inv.joinReturns (h : s.Inv) (howner : s.owner = .joining) (hended : s.place = .ended) :
    Inv { s with owner := .destroyed } := by
  have hjoined : s.thread.joined = true := h.joined.mpr (.inl howner)
  refine h.owner .destroyed ?_ nofun (fun _ => .inr hended) ⟨rfl, rfl, rfl⟩ ?_
  · simp [hended, Together]
  · simp [hjoined, hended]

/-- Where the thread is tells where the owner can be. -/
theorem owner_of_place {o : OwnerPlace} {p : ThreadPlace} (h : Together o p = true) :
    (p = .created → o = .latch) ∧
    (p = .running ∨ p = .initialised → o = .latch ∨ o = .locking ∨ o = .waiting) ∧
    (p = .returned ∨ p = .cleared → o.hasQuit = true) ∧
    (p = .published → Together o .looping = true) := by
  cases o <;> cases p <;> simp_all [Together, OwnerPlace.hasQuit, ThreadPlace.pointing]

/-- A step of the thread: it leaves the owner where it is. -/
theorem Inv.move (h : s.Inv) (p : ThreadPlace) (hp : p ≠ .absent)
    (hs : s.place ≠ .absent ∧ s.place ≠ .ended) {loop : Bool} {object : Option (Cycle χ φ τ)}
    {thread : Thread} {callbacks : Nat} (htogether : Together s.owner p = true)
    (hloop : loop = p.pointing) (hobject : object.isSome = p.living)
    (hsound : ∀ c, object = some c → Sound c p s.owner)
    (hthread : thread.valueSet = p.told ∧ (p.told = true → 0 < thread.tid) ∧
      thread.started = s.thread.started ∧ thread.joined = s.thread.joined)
    (hcallbacks : callbacks = if p.called && s.callback then 1 else 0) :
    Inv { s with loop, object, thread, callbacks, place := p } where
  together := htogether
  loop := hloop
  object := hobject
  sound := hsound
  valueSet := hthread.1
  tid := hthread.2.1
  started := by
    rw [hthread.2.2.1, h.started]
    simp [hp, hs.1]
  fresh := by
    intro hidle
    have hidle : s.owner = .idle := hidle
    rw [hidle] at htogether
    simp [Together, hp] at htogether
  joined := by
    have hliving : s.owner ≠ .destroyed := by
      intro howner
      have htogether := h.together
      rw [howner] at htogether
      simp [Together, hs] at htogether
    rw [hthread.2.2.2, h.joined]
    simp [hliving]
  callbacks := hcallbacks

/-- What is kept at the place the thread is, as `Inv.move` asks for it at the next. -/
theorem Inv.placed (h : s.Inv) {p : ThreadPlace} (hplace : s.place = p) :
    s.loop = p.pointing ∧ s.object.isSome = p.living ∧
      (s.thread.valueSet = p.told ∧ (p.told = true → 0 < s.thread.tid) ∧
        s.thread.started = s.thread.started ∧ s.thread.joined = s.thread.joined) ∧
      s.callbacks = if p.called && s.callback then 1 else 0 := by
  subst hplace
  exact ⟨h.loop, h.object, ⟨h.valueSet, h.tid, rfl, rfl⟩, h.callbacks⟩

/-- Outside of `loop()` it does not matter to the loop where the thread is. -/
theorem Sound.outsideOf {c : Cycle χ φ τ} {p q : ThreadPlace} {o : OwnerPlace} (h : Sound c p o)
    (hp : p ≠ .looping) (hq : q ≠ .looping) : Sound c q o where
  outside := by simpa [hp, hq] using h.outside
  looping := by simpa [hp, hq] using h.looping
  quit := h.quit

/-- `runInThread` up to `func_()`. -/
theorem Inv.run (h : s.Inv) (hplace : s.place = .created) {tid : Nat} (htid : 0 < tid) :
    (s.run tid).Inv := by
  obtain ⟨hloop, hobject, -, hcallbacks⟩ := h.placed hplace
  have howner := (owner_of_place h.together).1 hplace
  refine h.move .running nofun (by simp [hplace]) ?_ hloop hobject ?_ ⟨rfl, fun _ => htid, rfl, rfl⟩
    hcallbacks
  · simp [howner, Together]
  · intro c hc
    rw [hc] at hobject
    cases hobject

/-- The loop is made, and the init callback called. -/
theorem Inv.initLoop (h : s.Inv) (hplace : s.place = .running) : s.initLoop.Inv := by
  obtain ⟨hloop, -, hthread, hcallbacks⟩ := h.placed hplace
  refine h.move .initialised nofun (by simp [hplace]) ?_ hloop rfl ?_ hthread
    (by rw [hcallbacks]; rfl)
  · rcases (owner_of_place h.together).2.1 (.inl hplace) with ho | ho | ho <;> simp [ho, Together]
  · rintro _ ⟨⟩
    exact ⟨by simp [Cycle.start], by simp [Cycle.start, EventLoop.init], nofun⟩

/-- `loop_ = &loop`. -/
theorem Inv.publish (h : s.Inv) (hplace : s.place = .initialised) : s.publish.Inv := by
  obtain ⟨-, hobject, hthread, hcallbacks⟩ := h.placed hplace
  refine h.move .published nofun (by simp [hplace]) ?_ rfl hobject ?_ hthread hcallbacks
  · rcases (owner_of_place h.together).2.1 (.inr hplace) with ho | ho | ho <;> simp [ho, Together]
  · intro c hc
    exact (h.sound c hc).outsideOf (by simp [hplace]) nofun

/-- `loop_ = NULL`. The owner has called `quit()` and waits. -/
theorem Inv.clear (h : s.Inv) (hplace : s.place = .returned) : s.clear.Inv := by
  obtain ⟨-, hobject, hthread, hcallbacks⟩ := h.placed hplace
  have howner := (owner_of_place h.together).2.2.1 (.inl hplace)
  refine h.move .cleared nofun (by simp [hplace]) ?_ rfl hobject ?_ hthread hcallbacks
  · cases ho : s.owner <;> simp_all [Together, OwnerPlace.hasQuit]
  · intro c hc
    exact (h.sound c hc).outsideOf (by simp [hplace]) nofun

/-- The loop is destroyed. -/
theorem Inv.finish (h : s.Inv) (hplace : s.place = .cleared) : s.finish.Inv := by
  obtain ⟨hloop, -, hthread, hcallbacks⟩ := h.placed hplace
  have howner := (owner_of_place h.together).2.2.1 (.inr hplace)
  refine h.move .ended nofun (by simp [hplace]) ?_ hloop rfl nofun hthread hcallbacks
  cases ho : s.owner <;> simp_all [Together, OwnerPlace.hasQuit]

/-- The thread with a loop on its stack. -/
theorem Inv.alive (h : s.Inv) {c : Cycle χ φ τ} (hc : s.object = some c) :
    (s.place ≠ .absent ∧ s.place ≠ .ended) ∧ s.place.living = true ∧
      s.thread.valueSet = true ∧ 0 < s.thread.tid ∧
      s.callbacks = if s.callback then 1 else 0 := by
  have hliving : s.place.living = true := by
    rw [← h.object, hc]
    rfl
  have htold : s.place.told = true := by
    cases hp : s.place <;> simp_all [ThreadPlace.living, ThreadPlace.told]
  refine ⟨?_, hliving, h.valueSet.trans htold, h.tid htold, ?_⟩
  · constructor <;> intro heq <;> rw [heq] at hliving <;> cases hliving
  · have hcalled : s.place.called = true := by
      cases hp : s.place <;> simp_all [ThreadPlace.living, ThreadPlace.called]
    rw [h.callbacks, hcalled]
    rfl

/-- When `startLoop` has returned, and before the destructor. -/
theorem Inv.serves (h : s.Inv) (howner : s.owner = .started) :
    s.loop = true ∧ s.callbacks = (if s.callback then 1 else 0) ∧
      0 < s.thread.tid ∧ ∃ c, s.object = some c ∧ c.loop.quit = false := by
  have htogether := h.together
  rw [howner] at htogether
  have hplace : s.place = .published ∨ s.place = .looping := by simpa [Together] using htogether
  have hliving : s.object.isSome = true := by
    rcases hplace with hplace | hplace <;> rw [h.object, hplace] <;> rfl
  obtain ⟨c, hc⟩ := Option.isSome_iff_exists.mp hliving
  obtain ⟨-, -, -, htid, hcallbacks⟩ := h.alive hc
  refine ⟨?_, hcallbacks, htid, c, hc, ?_⟩
  · rcases hplace with hplace | hplace <;> rw [h.loop, hplace] <;> rfl
  · by_contra hquit
    have hhas := (h.sound c hc).quit (by simpa using hquit)
    rw [howner] at hhas
    cases hhas

/-- When the destructor has returned. -/
theorem Inv.leavesNothing (h : s.Inv) (howner : s.owner = .destroyed) :
    s.object = none ∧ s.loop = false ∧
      (s.place = .absent ∧ s.thread.started = false ∨
        s.place = .ended ∧ s.thread.joined = true) := by
  have htogether := h.together
  rw [howner] at htogether
  have hplace : s.place = .absent ∨ s.place = .ended := by simpa [Together] using htogether
  refine ⟨?_, ?_, ?_⟩
  · rw [← Option.not_isSome_iff_eq_none, h.object]
    rcases hplace with hplace | hplace <;> simp [hplace, ThreadPlace.living]
  · rcases hplace with hplace | hplace <;> rw [h.loop, hplace] <;> rfl
  · refine hplace.imp (fun hplace => ⟨hplace, ?_⟩) fun hplace => ⟨hplace, ?_⟩
    · simp [h.started, hplace]
    · exact h.joined.mpr (.inr ⟨howner, hplace⟩)

section Steps

variable [DecidableEq τ]

/-- The steps inside `loop()`, and those of the threads that use the loop, leave `looping_` and
`quit_` alone and do not leave `loop()`. -/
theorem step_inside {c : Cycle χ φ τ} {l : Cycle.Label χ φ τ} (hen : c.Enabled l)
    (henter : l ≠ .enter) (htest : l ≠ .test) (hquit : l ≠ .quit) :
    ((c.step l).place = .outside ↔ c.place = .outside) ∧
      (c.step l).loop.looping = c.loop.looping ∧ (c.step l).loop.quit = c.loop.quit := by
  cases l with
  | enter => exact absurd rfl henter
  | test => exact absurd rfl htest
  | quit => exact absurd rfl hquit
  | initPush cb => exact ⟨Iff.rfl, rfl, rfl⟩
  | push t cb => exact ⟨Iff.rfl, rfl, rfl⟩
  | wakeup t => exact ⟨Iff.rfl, rfl, rfl⟩
  | pollReturn active =>
    obtain ⟨hplace, -⟩ := hen
    exact ⟨by simp [Cycle.step, hplace], rfl, rfl⟩
  | handle =>
    obtain ⟨ch, rest, hplace⟩ := hen
    cases ch with
    | wakeupChannel =>
      simp [Cycle.step, hplace, EventLoop.setCurrent, EventLoop.handleRead]
    | other ch => simp [Cycle.step, hplace, EventLoop.setCurrent]
  | handled =>
    obtain ⟨-, rest, hplace⟩ := hen
    simp [Cycle.step, hplace]
  | execute =>
    obtain ⟨cb, rest, hplace⟩ := hen
    simp [Cycle.step, hplace]
  | executed =>
    obtain ⟨-, batch, hplace⟩ := hen
    simp [Cycle.step, hplace]
  | endHandling | swap | endFunctors =>
    have hplace : c.place = _ := hen
    exact ⟨by simp [Cycle.step, hplace], rfl, rfl⟩

theorem loopStep_enter {c : Cycle χ φ τ} (hc : s.object = some c)
    (hlooping : ¬ c.loop.looping = true) :
    s.loopStep .enter = .ok { s with object := some (c.step .enter), place := .looping } := by
  rw [loopStep, hc]
  exact if_neg hlooping

theorem loopStep_test {c : Cycle χ φ τ} (hc : s.object = some c) :
    s.loopStep .test = .ok { s with
      object := some (c.step .test)
      place := if c.loop.quit then .returned else .looping } := by
  rw [loopStep, hc]

theorem loopStep_inside {c : Cycle χ φ τ} {l : Cycle.Label χ φ τ} (hc : s.object = some c)
    (henter : l ≠ .enter) (htest : l ≠ .test) :
    s.loopStep l = .ok { s with object := some (c.step l) } := by
  rw [loopStep, hc]
  cases l with
  | enter => exact absurd rfl henter
  | test => exact absurd rfl htest
  | _ => rfl

theorem Inv.enter (h : s.Inv) {c : Cycle χ φ τ} (hc : s.object = some c)
    (hplace : s.place = .published) : ∃ s', s.loopStep .enter = .ok s' ∧ s'.Inv := by
  obtain ⟨hsome, -, hset, htid, hcallbacks⟩ := h.alive hc
  have hnot : ¬ c.loop.looping = true := by simp [(h.sound c hc).looping, hplace]
  refine ⟨_, loopStep_enter hc hnot, h.move .looping nofun hsome ?_ ?_ rfl ?_
    ⟨hset, fun _ => htid, rfl, rfl⟩ hcallbacks⟩
  · exact (owner_of_place h.together).2.2.2 hplace
  · rw [h.loop, hplace]
    rfl
  · rintro _ ⟨⟩
    exact ⟨by simp [Cycle.step], by simp [Cycle.step, EventLoop.enter], nofun⟩

theorem Inv.test (h : s.Inv) {c : Cycle χ φ τ} (hc : s.object = some c)
    (hat : c.place = .test) : ∃ s', s.loopStep .test = .ok s' ∧ s'.Inv := by
  obtain ⟨hsome, -, hset, htid, hcallbacks⟩ := h.alive hc
  have hsound := h.sound c hc
  have htogether := h.together
  have hplace : s.place = .looping := by
    by_contra hne
    rw [hsound.outside.mpr hne] at hat
    cases hat
  rw [loopStep_test hc]
  by_cases hquit : c.loop.quit = true
  · have hhas := hsound.quit hquit
    rw [if_pos hquit]
    refine ⟨_, rfl, h.move .returned nofun hsome ?_ ?_ rfl ?_ ⟨hset, fun _ => htid, rfl, rfl⟩
      hcallbacks⟩
    · cases ho : s.owner <;> simp_all [Together, OwnerPlace.hasQuit, ThreadPlace.pointing]
    · rw [h.loop, hplace]
      rfl
    · rintro _ ⟨⟩
      simp only [Cycle.step, hquit, if_true]
      exact ⟨by simp, by simp [EventLoop.leave], fun _ => hhas⟩
  · have hlooping := hsound.looping.mpr hplace
    rw [if_neg hquit]
    refine ⟨_, rfl, h.move .looping nofun hsome (hplace ▸ htogether) ?_ rfl ?_
      ⟨hset, fun _ => htid, rfl, rfl⟩ hcallbacks⟩
    · rw [h.loop, hplace]
    · rintro _ ⟨⟩
      simp only [Cycle.step, hquit, Bool.false_eq_true, if_false]
      exact ⟨by simp, by simp [EventLoop.startPoll, hlooping], fun hset => absurd hset hquit⟩

/-- A step of the loop. -/
theorem Inv.loopStep (h : s.Inv) {l : Cycle.Label χ φ τ} (hen : s.LoopEnabled l)
    (hquit : l ≠ .quit) : ∃ s', s.loopStep l = .ok s' ∧ s'.Inv := by
  obtain ⟨⟨c, hc, hcen⟩, hwhere⟩ := hen
  by_cases henter : l = .enter
  · subst henter
    exact h.enter hc hwhere
  by_cases htest : l = .test
  · subst htest
    exact h.test hc hcen
  obtain ⟨hsome, hliving, -⟩ := h.alive hc
  obtain ⟨hsame, hlooping, hquits⟩ := step_inside hcen henter htest hquit
  have hsound := h.sound c hc
  refine ⟨_, loopStep_inside hc henter htest, h.move s.place hsome.1 hsome h.together h.loop
    hliving.symm ?_ ⟨h.valueSet, h.tid, rfl, rfl⟩ h.callbacks⟩
  rintro _ ⟨⟩
  exact ⟨hsame.trans hsound.outside, hlooping ▸ hsound.looping, fun hset =>
    hsound.quit (hquits ▸ hset)⟩

/-- **No step faults, and every step keeps what is kept**, but for a `quit()` of somebody else. -/
theorem Inv.step (h : s.Inv) {l : Label χ φ τ} (hen : s.Enabled l) (hquit : l ≠ .loop .quit) :
    ∃ s', s.step l = .ok s' ∧ s'.Inv := by
  cases l with
  | start created => exact h.start hen created
  | latch => exact h.latch hen.1 hen.2
  | lock => exact ⟨_, rfl, h.lock (.inl hen)⟩
  | wake => exact ⟨_, rfl, h.lock (.inr hen)⟩
  | destroy => exact ⟨_, rfl, h.destroy hen⟩
  | testLoop => exact ⟨_, rfl, h.testLoop hen⟩
  | quitLoop => exact h.quitLoop hen
  | join => exact h.join hen
  | joined => exact ⟨_, rfl, h.joinReturns hen.1 hen.2⟩
  | run tid => exact ⟨_, rfl, h.run hen.1 hen.2⟩
  | initLoop => exact ⟨_, rfl, h.initLoop hen⟩
  | publish => exact ⟨_, rfl, h.publish hen⟩
  | loop l => exact h.loopStep hen fun heq => hquit (congrArg Label.loop heq)
  | clear => exact ⟨_, rfl, h.clear hen⟩
  | finish => exact ⟨_, rfl, h.finish hen⟩

theorem step_callback {s' : EventLoopThread χ φ τ} {l : Label χ φ τ} (h : s.step l = .ok s') :
    s'.callback = s.callback := by
  cases l with
  | start created =>
    change s.start created = .ok s' at h
    unfold EventLoopThread.start at h
    split at h
    · cases h
    · split at h
      · cases h
      · split at h <;> cases h <;> rfl
  | latch =>
    change s.latch = .ok s' at h
    unfold EventLoopThread.latch at h
    split at h <;> cases h
    rfl
  | quitLoop =>
    change s.quitLoop = .ok s' at h
    unfold EventLoopThread.quitLoop at h
    split at h <;> cases h
    rfl
  | join =>
    change s.join = .ok s' at h
    unfold EventLoopThread.join at h
    split at h
    · cases h
    · split at h <;> cases h
      rfl
  | loop l =>
    change s.loopStep l = .ok s' at h
    unfold EventLoopThread.loopStep at h
    split at h
    · cases h
    · split at h
      · split at h <;> cases h
        rfl
      · cases h
        rfl
      · cases h
        rfl
  | _ =>
    cases h
    rfl

theorem run_inv {callback : Bool} {ls : List (Label χ φ τ)}
    {r : Except ThreadFault (EventLoopThread χ φ τ)}
    (h : (system χ φ τ).Run (init callback) ls r) (hquit : ∀ l ∈ ls, l ≠ .loop .quit) :
    ∃ s, r = .ok s ∧ s.Inv ∧ s.callback = callback := by
  refine (h.only hquit).total (I := fun _ s => s.Inv ∧ s.callback = callback)
    ⟨inv_init callback, rfl⟩ ?_
  intro _ t l ht hen
  obtain ⟨t', ht', hinv⟩ := ht.1.step hen.1 hen.2
  exact ⟨t', ht', hinv, (step_callback ht').trans ht.2⟩

/-- **A loop that is handed out lives.** If nobody but the destructor calls `quit()`, then however
the owner, the new thread and the threads that use its loop take turns, no assertion of
`Thread::start`, `Thread::join` or `loop()` fails and no pointer to a dead loop is used. When
`startLoop` has returned, until the destructor, `loop_` points to a loop that lives and whose
`quit_` is not set, on a thread that has called the init callback, if there is one, once. And
a destructor that has returned leaves no loop behind: either no thread was ever made, or it has
been joined and has ended. -/
theorem startLoop_safe {callback : Bool} {ls : List (Label χ φ τ)}
    {r : Except ThreadFault (EventLoopThread χ φ τ)}
    (h : (system χ φ τ).Run (init callback) ls r) (hquit : ∀ l ∈ ls, l ≠ .loop .quit) :
    ∃ s, r = .ok s ∧
      (s.owner = .started → s.loop = true ∧ s.callbacks = (if callback then 1 else 0) ∧
        0 < s.thread.tid ∧ ∃ c, s.object = some c ∧ c.loop.quit = false) ∧
      (s.owner = .destroyed → s.object = none ∧ s.loop = false ∧
        (s.place = .absent ∧ s.thread.started = false ∨
          s.place = .ended ∧ s.thread.joined = true)) := by
  obtain ⟨s, rfl, hinv, rfl⟩ := run_inv h hquit
  exact ⟨s, rfl, hinv.serves, hinv.leavesNothing⟩

end Steps

/-- The owner waits for the pointer, and the thread publishes it; what it is used for comes
before `loop()` is entered. -/
theorem startLoop_safe_waited :
    ∃ s, (system Unit Nat Unit).Run (init true) [.start true, .run 7, .latch, .lock, .initLoop,
        .loop (.initPush 1), .publish, .wake, .loop (.push (some ()) 2), .loop .enter] (.ok s) ∧
      s.owner = .started ∧ s.callbacks = 1 ∧ ∃ c, s.object = some c ∧ c.loop.quit = false := by
  have hrun : ∃ s, (system Unit Nat Unit).Run (init true) [.start true, .run 7, .latch, .lock,
        .initLoop, .loop (.initPush 1), .publish, .wake, .loop (.push (some ()) 2), .loop .enter]
        (.ok s) ∧ s.owner = .started :=
    ⟨_, .cons rfl rfl <| .cons ⟨rfl, by decide⟩ rfl <| .cons ⟨rfl, rfl⟩ rfl <| .cons rfl rfl <|
      .cons rfl rfl <| .cons ⟨⟨_, rfl, rfl⟩, rfl, rfl⟩ rfl <| .cons rfl rfl <| .cons rfl rfl <|
      .cons ⟨⟨_, rfl, rfl⟩, nofun⟩ rfl <| .cons ⟨⟨_, rfl, rfl⟩, rfl⟩ rfl .nil, rfl⟩
  obtain ⟨s, hrun, howner⟩ := hrun
  obtain ⟨s', hs', hstarted, -⟩ := startLoop_safe hrun (by decide)
  cases hs'
  obtain ⟨-, hcallbacks, -, hobject⟩ := hstarted howner
  exact ⟨s, hrun, howner, hcallbacks, hobject⟩

/-- With a `quit()` of somebody else: the destructor has tested `loop_`, the thread leaves `loop()`
and ends, and `loop_->quit()` is a call through a pointer to a loop that is gone. -/
theorem startLoop_quit_dangles :
    (system Unit Nat Unit).Run (init false) [.start true, .run 7, .latch, .initLoop, .publish,
      .lock, .loop .enter, .loop .quit, .destroy, .testLoop, .loop .test, .clear, .finish,
      .quitLoop] (.error .dangling) := by
  have hrun : ∃ s, (system Unit Nat Unit).Run (init false) [.start true, .run 7, .latch, .initLoop,
        .publish, .lock, .loop .enter, .loop .quit, .destroy, .testLoop, .loop .test, .clear,
        .finish] (.ok s) ∧ s.Enabled .quitLoop ∧
      (system Unit Nat Unit).step s .quitLoop = .error .dangling :=
    ⟨_, .cons rfl rfl <| .cons ⟨rfl, by decide⟩ rfl <| .cons ⟨rfl, rfl⟩ rfl <| .cons rfl rfl <|
      .cons rfl rfl <| .cons rfl rfl <| .cons ⟨⟨_, rfl, rfl⟩, rfl⟩ rfl <|
      .cons ⟨⟨_, rfl, trivial⟩, nofun⟩ rfl <| .cons (.inr rfl) rfl <| .cons rfl rfl <|
      .cons ⟨⟨_, rfl, rfl⟩, .inr rfl⟩ rfl <| .cons rfl rfl <| .cons rfl rfl .nil, rfl, rfl⟩
  obtain ⟨s, hrun, hen, hstep⟩ := hrun
  exact hstep ▸ .snoc hrun hen

end EventLoopThread

end ClyServer.Net
