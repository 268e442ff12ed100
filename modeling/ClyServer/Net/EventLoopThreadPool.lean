import ClyServer.Net.EventLoopThread

/-!
# The pool of loops (`net/EventLoopThreadPool.cpp`)

`start` makes the threads one after the other and waits for the loop of each before it makes the
next, while those that are made already run; the pool's destructor destroys them in the same
order. All threads and the base thread are one system here: each thread is a state of
`net/EventLoopThread.cpp`, the base thread is the owner of all of them, and it attends to one at
a time.

A loop is known by the number of its thread, and the base loop by `none`. `start` is called
once (the assertion that says so is commented out), and `started_`, which the constructor leaves
as it is, is not read before.
-/

namespace ClyServer.Net

open ClyServer.Lib

/-- Where the base thread is: outside of the pool, in the `for` of `start` with some threads left
to be made, or in the destructor, at the thread with the index given. -/
inductive PoolPlace where
  | idle
  | starting (left : Nat)
  | destroying (i : Nat)
  deriving DecidableEq, Repr

structure EventLoopThreadPool (χ φ τ : Type) where
  numThreads : Int
  started : Bool
  next : Nat
  threads : List (EventLoopThread χ φ τ)
  loops : List Nat
  place : PoolPlace
  /-- Whether `start` was given a `cb`, and how often it called it with the base loop. -/
  callback : Bool
  baseCallbacks : Nat
  /-- What `getNextLoop` has returned. -/
  given : List (Option Nat)

namespace EventLoopThread.Label

variable {χ φ τ : Type}

/-- The owner's steps of `startLoop`. -/
def starts : Label χ φ τ → Bool
  | .start _ | .latch | .lock | .wake => true
  | _ => false

/-- The owner's steps of the destructor. -/
def destroys : Label χ φ τ → Bool
  | .destroy | .testLoop | .quitLoop | .join | .joined => true
  | _ => false

end EventLoopThread.Label

namespace EventLoopThreadPool

variable {χ φ τ : Type}

/-- `EventLoopThreadPool(baseloop, nameArg)`. -/
def init : EventLoopThreadPool χ φ τ where
  numThreads := 10
  started := false
  next := 0
  threads := []
  loops := []
  place := .idle
  callback := false
  baseCallbacks := 0
  given := []

/-- `start(cb)` up to its `for`. With no threads to make, `cb` is called for the base loop. -/
def start (s : EventLoopThreadPool χ φ τ) (callback : Bool) : EventLoopThreadPool χ φ τ :=
  { s with
    started := true
    callback
    place := .starting s.numThreads.toNat
    baseCallbacks :=
      if s.numThreads = 0 && callback then s.baseCallbacks + 1 else s.baseCallbacks }

/-- `threads_.push_back(new EventLoopThread(cb, buf))`. -/
def make (s : EventLoopThreadPool χ φ τ) : EventLoopThreadPool χ φ τ :=
  { s with threads := s.threads ++ [.init s.callback] }

/-- `loops_.push_back(t->startLoop())`, when `startLoop` has returned. -/
def collect (s : EventLoopThreadPool χ φ τ) (left : Nat) : EventLoopThreadPool χ φ τ :=
  { s with loops := s.loops ++ [s.loops.length], place := .starting left }

/-- `getNextLoop()`. -/
def getNextLoop (s : EventLoopThreadPool χ φ τ) :
    Except ThreadFault (EventLoopThreadPool χ φ τ) :=
  if s.loops = [] then .ok { s with given := s.given ++ [none] }
  else
    match s.loops[s.next]? with
    | none => .error .outOfRange
    | some loop =>
      .ok { s with
        next := if s.next + 1 ≥ s.loops.length then 0 else s.next + 1
        given := s.given ++ [some loop] }

/-- `getLoopForHash(hashCode)`. -/
def getLoopForHash (s : EventLoopThreadPool χ φ τ) (hashCode : Nat) :
    Except ThreadFault (Option Nat) :=
  if s.loops = [] then .ok none
  else
    match s.loops[hashCode % s.loops.length]? with
    | none => .error .outOfRange
    | some loop => .ok (some loop)

/-- `getAllLoops()`. -/
def getAllLoops (s : EventLoopThreadPool χ φ τ) : List (Option Nat) :=
  if s.loops = [] then [none] else s.loops.map some

inductive Label (χ φ τ : Type) where
  | setThreadNum (numThreads : Int)
  | start (callback : Bool)
  | make
  | thread (i : Nat) (l : EventLoopThread.Label χ φ τ)
  | collect
  | startReturns
  | getNextLoop
  | destroy
  | destroyNext
  deriving DecidableEq, Repr

/-- The base thread takes the owner's steps of the thread it attends to. -/
def Attends (s : EventLoopThreadPool χ φ τ) (i : Nat) (l : EventLoopThread.Label χ φ τ) : Prop :=
  (l.starts = true → (∃ left, s.place = .starting left) ∧ i = s.loops.length) ∧
    (l.destroys = true → s.place = .destroying i)

def Enabled (s : EventLoopThreadPool χ φ τ) : Label χ φ τ → Prop
  | .setThreadNum _ => s.place = .idle ∧ s.started = false
  | .start _ => s.place = .idle ∧ s.started = false
  | .make => (∃ left, s.place = .starting (left + 1)) ∧ s.threads.length = s.loops.length
  | .thread i l => ∃ t, s.threads[i]? = some t ∧ t.Enabled l ∧ s.Attends i l
  | .collect => (∃ left, s.place = .starting (left + 1)) ∧
      ∃ t, s.threads[s.loops.length]? = some t ∧ t.owner = .started
  | .startReturns => s.place = .starting 0
  | .getNextLoop => s.place = .idle ∧ s.started = true
  | .destroy => s.place = .idle
  | .destroyNext => ∃ i t, s.place = .destroying i ∧ s.threads[i]? = some t ∧ t.owner = .destroyed

section Steps

variable [DecidableEq τ]

def step (s : EventLoopThreadPool χ φ τ) :
    Label χ φ τ → Except ThreadFault (EventLoopThreadPool χ φ τ)
  | .setThreadNum numThreads => .ok { s with numThreads }
  | .start callback => .ok (s.start callback)
  | .make => .ok s.make
  | .thread i l =>
    match s.threads[i]? with
    | none => .error .dangling
    | some t => do
      let t ← t.step l
      return { s with threads := s.threads.set i t }
  | .collect =>
    match s.place with
    | .starting (left + 1) => .ok (s.collect left)
    | _ => .ok s
  | .startReturns => .ok { s with place := .idle }
  | .getNextLoop => s.getNextLoop
  | .destroy => .ok { s with place := .destroying 0 }
  | .destroyNext =>
    match s.place with
    | .destroying i => .ok { s with place := .destroying (i + 1) }
    | _ => .ok s

/-- The base thread, the threads of the pool, and any number of others that use their loops. -/
def system (χ φ τ : Type) [DecidableEq τ] :
    System (EventLoopThreadPool χ φ τ) (Label χ φ τ) ThreadFault where
  enabled := Enabled
  step := step

end Steps

/-! ## What the base thread keeps -/

/-- How far the base thread is with a thread of the pool. -/
def Expected : PoolPlace → Nat → Nat → OwnerPlace → Prop
  | .idle, _, _, o => o = .started
  | .starting _, loops, i, o => i < loops → o = .started
  | .destroying k, _, i, o => (i < k → o = .destroyed) ∧ (k < i → o = .started)

/-- How many threads and loops there are, and what was given out. -/
def Counted (s : EventLoopThreadPool χ φ τ) : PoolPlace → Prop
  | .idle =>
    if s.started then
      s.threads.length = s.loops.length ∧ s.loops.length = s.numThreads.toNat
    else s.threads.length = 0 ∧ s.loops = [] ∧ s.given = [] ∧ s.next = 0 ∧ s.baseCallbacks = 0
  | .starting left =>
    s.started = true ∧ s.loops.length + left = s.numThreads.toNat ∧ s.given = [] ∧ s.next = 0 ∧
      (s.threads.length = s.loops.length ∨ s.threads.length = s.loops.length + 1 ∧ 0 < left)
  | .destroying _ => s.threads.length = s.loops.length

/-- The loop the `k`-th call of `getNextLoop` returns, from a pool of `n`. -/
def nthLoop (n k : Nat) : Option Nat := if n = 0 then none else some (k % n)

/-- `next_` goes round. -/
theorem next_round {n : Nat} (hn : 0 < n) (k : Nat) :
    (if k % n + 1 ≥ n then 0 else k % n + 1) = (k + 1) % n := by
  have hlt := Nat.mod_lt k hn
  have hmod := Nat.mod_add_mod k n 1
  split
  · rename_i hge
    have hlast : k % n + 1 = n := by omega
    rw [← hmod, hlast, Nat.mod_self]
  · rename_i hge
    rw [← hmod, Nat.mod_eq_of_lt (Nat.lt_of_not_le hge)]

structure Inv (s : EventLoopThreadPool χ φ τ) : Prop where
  threads : ∀ i t, s.threads[i]? = some t →
    t.Inv ∧ t.callback = s.callback ∧ Expected s.place s.loops.length i t.owner
  loops : s.loops = List.range s.loops.length
  counted : s.Counted s.place
  given : s.given = (List.range s.given.length).map (nthLoop s.loops.length)
  next : s.loops ≠ [] → s.next = s.given.length % s.loops.length
  baseCallbacks : s.started = true →
    s.baseCallbacks = if s.numThreads = 0 && s.callback then 1 else 0

theorem inv_init : (init : EventLoopThreadPool χ φ τ).Inv where
  threads := by simp [init]
  loops := rfl
  counted := ⟨rfl, rfl, rfl, rfl, rfl⟩
  given := rfl
  next := by simp [init]
  baseCallbacks := by simp [init]

variable {s : EventLoopThreadPool χ φ τ}

theorem Inv.setThreadNum (h : s.Inv) (hplace : s.place = .idle) (hstarted : s.started = false)
    (numThreads : Int) : Inv { s with numThreads } := by
  have hcounted := h.counted
  rw [hplace] at hcounted
  refine ⟨h.threads, h.loops, ?_, h.given, h.next, by simp [hstarted]⟩
  rw [hplace]
  simpa only [Counted, hstarted, Bool.false_eq_true, if_false] using hcounted

theorem Inv.start (h : s.Inv) (hplace : s.place = .idle) (hstarted : s.started = false)
    (callback : Bool) : (s.start callback).Inv := by
  have hcounted := h.counted
  rw [hplace] at hcounted
  simp only [Counted, hstarted, Bool.false_eq_true, if_false] at hcounted
  obtain ⟨hthreads, hloops, hgiven, hnext, hbase⟩ := hcounted
  have hnone : s.threads = [] := List.length_eq_zero_iff.mp hthreads
  refine ⟨?_, h.loops, ⟨rfl, ?_, hgiven, hnext, .inl ?_⟩, h.given, h.next, ?_⟩
  · intro i t ht
    have ht : s.threads[i]? = some t := ht
    simp [hnone] at ht
  · simp [EventLoopThreadPool.start, hloops]
  · simp [EventLoopThreadPool.start, hloops, hnone]
  · simp [EventLoopThreadPool.start, hbase]

theorem Inv.make (h : s.Inv) {left : Nat} (hplace : s.place = .starting (left + 1))
    (hlength : s.threads.length = s.loops.length) : s.make.Inv := by
  have hcounted := h.counted
  rw [hplace] at hcounted
  obtain ⟨hstarted, hleft, hgiven, hnext, -⟩ := hcounted
  refine ⟨?_, h.loops, ?_, h.given, h.next, h.baseCallbacks⟩
  · intro i t ht
    have ht : (s.threads ++ [EventLoopThread.init s.callback])[i]? = some t := ht
    rcases Nat.lt_trichotomy i s.threads.length with hi | hi | hi
    · rw [List.getElem?_append_left hi] at ht
      exact h.threads i t ht
    · rw [hi, List.getElem?_concat_length] at ht
      cases ht
      refine ⟨EventLoopThread.inv_init _, rfl, ?_⟩
      -- the base thread has not begun with the new one
      change Expected s.place s.loops.length i .idle
      rw [hplace, hi, hlength]
      exact fun hlt => absurd hlt (Nat.lt_irrefl _)
    · have hlt := (List.getElem?_eq_some_iff.mp ht).1
      rw [List.length_append, List.length_singleton] at hlt
      omega
  · change s.make.Counted s.place
    rw [hplace]
    refine ⟨hstarted, hleft, hgiven, hnext, .inr ⟨?_, Nat.succ_pos _⟩⟩
    simp [EventLoopThreadPool.make, hlength]

theorem Inv.collect (h : s.Inv) {left : Nat} (hplace : s.place = .starting (left + 1))
    {t : EventLoopThread χ φ τ} (ht : s.threads[s.loops.length]? = some t)
    (howner : t.owner = .started) : (s.collect left).Inv := by
  have hcounted := h.counted
  rw [hplace] at hcounted
  obtain ⟨hstarted, hleft, hgiven, hnext, hlength⟩ := hcounted
  have hlt := (List.getElem?_eq_some_iff.mp ht).1
  have hlength' : (s.loops ++ [s.loops.length]).length = s.loops.length + 1 := by simp
  refine ⟨?_, ?_, ⟨hstarted, ?_, hgiven, hnext, .inl ?_⟩, ?_, ?_, h.baseCallbacks⟩
  · intro i u hu
    obtain ⟨hinv, hcallback, hexpected⟩ := h.threads i u hu
    refine ⟨hinv, hcallback, fun hi => ?_⟩
    rw [hplace] at hexpected
    have hi : i < (s.loops ++ [s.loops.length]).length := hi
    by_cases hlast : i = s.loops.length
    · subst hlast
      cases ht.symm.trans hu
      exact howner
    · exact hexpected (by omega)
  · change s.loops ++ [s.loops.length] = List.range (s.loops ++ [s.loops.length]).length
    rw [hlength', List.range_succ, ← h.loops]
  · change (s.loops ++ [s.loops.length]).length + left = s.numThreads.toNat
    omega
  · change s.threads.length = (s.loops ++ [s.loops.length]).length
    omega
  · change s.given = (List.range s.given.length).map _
    rw [hgiven]
    rfl
  · intro _
    change s.next = s.given.length % _
    rw [hnext, hgiven, List.length_nil, Nat.zero_mod]

theorem Inv.startReturns (h : s.Inv) (hplace : s.place = .starting 0) :
    Inv { s with place := .idle } := by
  have hcounted := h.counted
  rw [hplace] at hcounted
  obtain ⟨hstarted, hleft, -, -, hlength⟩ := hcounted
  have hlength : s.threads.length = s.loops.length := by omega
  refine ⟨?_, h.loops, ?_, h.given, h.next, h.baseCallbacks⟩
  · intro i t ht
    obtain ⟨hinv, hcallback, hexpected⟩ := h.threads i t ht
    rw [hplace] at hexpected
    have hlt := (List.getElem?_eq_some_iff.mp (show s.threads[i]? = some t from ht)).1
    exact ⟨hinv, hcallback, hexpected (by omega)⟩
  · simp only [Counted, hstarted, if_true]
    exact ⟨hlength, hleft⟩

theorem Inv.destroy (h : s.Inv) (hplace : s.place = .idle) :
    Inv { s with place := .destroying 0 } := by
  have hcounted := h.counted
  rw [hplace] at hcounted
  refine ⟨?_, h.loops, ?_, h.given, h.next, h.baseCallbacks⟩
  · intro i t ht
    obtain ⟨hinv, hcallback, hexpected⟩ := h.threads i t ht
    rw [hplace] at hexpected
    exact ⟨hinv, hcallback, fun hlt => absurd hlt (Nat.not_lt_zero i), fun _ => hexpected⟩
  · change s.threads.length = s.loops.length
    by_cases hstarted : s.started = true
    · simp only [Counted, hstarted, if_true] at hcounted
      exact hcounted.1
    · simp only [Counted, hstarted, Bool.false_eq_true, if_false] at hcounted
      rw [hcounted.1, hcounted.2.1]
      rfl

theorem Inv.destroyNext (h : s.Inv) {k : Nat} (hplace : s.place = .destroying k)
    {t : EventLoopThread χ φ τ} (ht : s.threads[k]? = some t) (howner : t.owner = .destroyed) :
    Inv { s with place := .destroying (k + 1) } := by
  have hcounted := h.counted
  rw [hplace] at hcounted
  refine ⟨?_, h.loops, hcounted, h.given, h.next, h.baseCallbacks⟩
  intro i u hu
  obtain ⟨hinv, hcallback, hexpected⟩ := h.threads i u hu
  rw [hplace] at hexpected
  refine ⟨hinv, hcallback, fun hi => ?_, fun hi => hexpected.2 (by omega)⟩
  by_cases hlast : i = k
  · subst hlast
    cases ht.symm.trans hu
    exact howner
  · exact hexpected.1 (by omega)

/-- What a round over the loops gives next. -/
theorem Inv.getNextLoop (h : s.Inv) (hplace : s.place = .idle) (hstarted : s.started = true) :
    ∃ s', s.getNextLoop = .ok s' ∧ s'.Inv := by
  have hcounted := h.counted
  rw [hplace] at hcounted
  have hgiven : ∀ loop, loop = nthLoop s.loops.length s.given.length →
      s.given ++ [loop] = (List.range (s.given ++ [loop]).length).map
        (nthLoop s.loops.length) := by
    rintro _ rfl
    rw [List.length_append, List.length_singleton, List.range_succ, List.map_append, ← h.given]
    rfl
  unfold EventLoopThreadPool.getNextLoop
  by_cases hnone : s.loops = []
  · rw [if_pos hnone]
    refine ⟨_, rfl, h.threads, h.loops, ?_, hgiven none (by simp [nthLoop, hnone]),
      fun hne => absurd hnone hne, h.baseCallbacks⟩
    rw [hplace]
    simpa only [Counted, hstarted, if_true] using hcounted
  · rw [if_neg hnone]
    have hpos : 0 < s.loops.length := List.length_pos_iff.mpr hnone
    have hnext := h.next hnone
    have hlt : s.next < s.loops.length := hnext ▸ Nat.mod_lt _ hpos
    have hloop : s.loops[s.next]? = some s.next := by
      rw [h.loops, List.getElem?_range hlt]
    rw [hloop]
    refine ⟨_, rfl, h.threads, h.loops, ?_, ?_, ?_, h.baseCallbacks⟩
    · rw [hplace]
      simpa only [Counted, hstarted, if_true] using hcounted
    · refine hgiven _ ?_
      rw [nthLoop, if_neg (by omega), hnext]
    · intro _
      dsimp only
      rw [hnext, next_round hpos, List.length_append, List.length_singleton]

/-- A hash code is as good as the number of a call. -/
theorem Inv.getLoopForHash (h : s.Inv) (hashCode : Nat) :
    s.getLoopForHash hashCode = .ok (nthLoop s.loops.length hashCode) := by
  unfold EventLoopThreadPool.getLoopForHash nthLoop
  by_cases hnone : s.loops = []
  · rw [if_pos hnone, if_pos (by rw [hnone]; rfl)]
  · have hpos : 0 < s.loops.length := List.length_pos_iff.mpr hnone
    have hloop : s.loops[hashCode % s.loops.length]? = some (hashCode % s.loops.length) := by
      rw [h.loops, List.length_range, List.getElem?_range (Nat.mod_lt _ hpos)]
    rw [if_neg hnone, if_neg (by omega), hloop]

/-- The answers of the pool are among its loops. -/
theorem Inv.nthLoop_mem (h : s.Inv) (k : Nat) :
    nthLoop s.loops.length k ∈ s.getAllLoops := by
  unfold EventLoopThreadPool.getAllLoops nthLoop
  by_cases hnone : s.loops = []
  · rw [if_pos hnone, if_pos (by rw [hnone]; rfl)]
    exact List.mem_singleton_self none
  · have hpos : 0 < s.loops.length := List.length_pos_iff.mpr hnone
    rw [if_neg hnone, if_neg (by omega)]
    apply List.mem_map_of_mem
    rw [h.loops, List.length_range]
    exact List.mem_range.mpr (Nat.mod_lt k hpos)

section Steps

variable [DecidableEq τ]

/-- Only the owner's steps move the owner. -/
theorem owner_step {t t' : EventLoopThread χ φ τ} {l : EventLoopThread.Label χ φ τ}
    (h : t.step l = .ok t') (hstarts : l.starts = false) (hdestroys : l.destroys = false) :
    t'.owner = t.owner := by
  cases l with
  | start | latch | lock | wake => cases hstarts
  | destroy | testLoop | quitLoop | join | joined => cases hdestroys
  | loop l =>
    change t.loopStep l = .ok t' at h
    unfold EventLoopThread.loopStep at h
    split at h
    · cases h
    · split at h
      · split at h <;> cases h
        rfl
      · cases h
        rfl
      · cases h
        rfl
  | _ =>
    cases h
    rfl

/-- A step of a thread. -/
theorem Inv.thread (h : s.Inv) {i : Nat} {l : EventLoopThread.Label χ φ τ}
    (hen : s.Enabled (.thread i l)) (hquit : l ≠ .loop .quit) :
    ∃ s', s.step (.thread i l) = .ok s' ∧ s'.Inv := by
  obtain ⟨t, ht, hten, hattends⟩ := hen
  obtain ⟨hinv, hcallback, hexpected⟩ := h.threads i t ht
  obtain ⟨t', ht', hinv'⟩ := hinv.step hten hquit
  have hcallback' := EventLoopThread.step_callback ht'
  have hexpected' : Expected s.place s.loops.length i t'.owner := by
    cases hstarts : l.starts with
    | true =>
      obtain ⟨⟨left, hplace⟩, hi⟩ := hattends.1 hstarts
      rw [hplace, hi]
      exact fun hlt => absurd hlt (Nat.lt_irrefl _)
    | false =>
      cases hdestroys : l.destroys with
      | true =>
        rw [hattends.2 hdestroys]
        exact ⟨fun hlt => absurd hlt (Nat.lt_irrefl _), fun hlt => absurd hlt (Nat.lt_irrefl _)⟩
      | false =>
        rw [owner_step ht' hstarts hdestroys]
        exact hexpected
  have hi : i < s.threads.length := (List.getElem?_eq_some_iff.mp ht).1
  refine ⟨{ s with threads := s.threads.set i t' }, ?_, ?_, h.loops, ?_, h.given, h.next,
    h.baseCallbacks⟩
  · simp only [step, ht, ht']
    rfl
  · intro j u hu
    by_cases hij : i = j
    · subst hij
      rw [List.getElem?_set_self hi] at hu
      cases hu
      exact ⟨hinv', hcallback'.trans hcallback, hexpected'⟩
    · rw [List.getElem?_set_ne hij] at hu
      exact h.threads j u hu
  · have hcounted := h.counted
    unfold Counted at hcounted ⊢
    simp only [List.length_set]
    exact hcounted

/-- **No step faults, and every step keeps what is kept**, but for a `quit()` of somebody else. -/
theorem Inv.step (h : s.Inv) {l : Label χ φ τ} (hen : s.Enabled l)
    (hquit : ∀ i, l ≠ .thread i (.loop .quit)) : ∃ s', s.step l = .ok s' ∧ s'.Inv := by
  cases l with
  | setThreadNum numThreads => exact ⟨_, rfl, h.setThreadNum hen.1 hen.2 numThreads⟩
  | start callback => exact ⟨_, rfl, h.start hen.1 hen.2 callback⟩
  | make =>
    obtain ⟨⟨left, hplace⟩, hlength⟩ := hen
    exact ⟨_, rfl, h.make hplace hlength⟩
  | thread i l => exact h.thread hen fun heq => hquit i (congrArg (Label.thread i) heq)
  | collect =>
    obtain ⟨⟨left, hplace⟩, t, ht, howner⟩ := hen
    exact ⟨s.collect left, by simp only [EventLoopThreadPool.step, hplace],
      h.collect hplace ht howner⟩
  | startReturns => exact ⟨_, rfl, h.startReturns hen⟩
  | getNextLoop => exact h.getNextLoop hen.1 hen.2
  | destroy => exact ⟨_, rfl, h.destroy hen⟩
  | destroyNext =>
    obtain ⟨k, t, hplace, ht, howner⟩ := hen
    exact ⟨{ s with place := .destroying (k + 1) }, by simp only [EventLoopThreadPool.step, hplace],
      h.destroyNext hplace ht howner⟩

theorem run_inv {ls : List (Label χ φ τ)} {r : Except ThreadFault (EventLoopThreadPool χ φ τ)}
    (h : (system χ φ τ).Run init ls r) (hquit : ∀ l ∈ ls, ∀ i, l ≠ .thread i (.loop .quit)) :
    ∃ s, r = .ok s ∧ s.Inv :=
  (h.only hquit).total (I := fun _ s => s.Inv) inv_init
    fun _ _ _ hs hen => hs.step hen.1 hen.2

/-- The thread has a loop that lives, on a thread that has called the callback it was given. -/
def Serves (t : EventLoopThread χ φ τ) (callback : Bool) : Prop :=
  t.loop = true ∧ t.callbacks = (if callback then 1 else 0) ∧
    0 < t.thread.tid ∧ ∃ c, t.object = some c ∧ c.loop.quit = false

/-- **A pool that has started serves.** `start` is called once, `setThreadNum` only before it, and
nobody but the destructors of the threads calls `quit()`. Then however the base thread, the threads
of the pool and the threads that use their loops take turns, no assertion of `Thread::start`,
`Thread::join` or `loop()` fails, no pointer to a dead loop is used and `getNextLoop` never reaches
outside of `loops_`. When `start` has returned, until the destructor, there are as many loops as
were asked for, they are those of the threads in their order, and each of them lives and has had its
init callback called once (or the base loop, if there are none); `getNextLoop` has gone round them,
and `getLoopForHash` gives one loop for one hash code, each of them one of `getAllLoops`. And a
destructor that has returned leaves none of them behind. -/
theorem pool_serves {ls : List (Label χ φ τ)}
    {r : Except ThreadFault (EventLoopThreadPool χ φ τ)} (h : (system χ φ τ).Run init ls r)
    (hquit : ∀ l ∈ ls, ∀ i, l ≠ .thread i (.loop .quit)) :
    ∃ s, r = .ok s ∧
      (s.place = .idle → s.started = true →
        s.loops = List.range s.numThreads.toNat ∧ s.threads.length = s.numThreads.toNat ∧
        (∀ t ∈ s.threads, Serves t s.callback) ∧
        s.baseCallbacks = (if s.numThreads = 0 && s.callback then 1 else 0) ∧
        s.given = (List.range s.given.length).map (nthLoop s.numThreads.toNat) ∧
        (∀ hashCode, s.getLoopForHash hashCode = .ok (nthLoop s.numThreads.toNat hashCode)) ∧
        ∀ k, nthLoop s.numThreads.toNat k ∈ s.getAllLoops) ∧
      (s.place = .destroying s.threads.length → ∀ t ∈ s.threads,
        t.object = none ∧ t.loop = false ∧
          (t.place = .absent ∧ t.thread.started = false ∨
            t.place = .ended ∧ t.thread.joined = true)) := by
  obtain ⟨s, rfl, hinv⟩ := run_inv h hquit
  have hcounted := hinv.counted
  refine ⟨s, rfl, fun hplace hstarted => ?_, fun hplace => ?_⟩
  · rw [hplace] at hcounted
    simp only [Counted, hstarted, if_true] at hcounted
    obtain ⟨hthreads, hloops⟩ := hcounted
    refine ⟨hloops ▸ hinv.loops, hthreads.trans hloops, fun t ht => ?_,
      hinv.baseCallbacks hstarted, hloops ▸ hinv.given, hloops ▸ hinv.getLoopForHash,
      hloops ▸ hinv.nthLoop_mem⟩
    obtain ⟨i, hi⟩ := List.mem_iff_getElem?.mp ht
    obtain ⟨htinv, hcallback, howner⟩ := hinv.threads i t hi
    rw [hplace] at howner
    exact hcallback ▸ htinv.serves howner
  · intro t ht
    obtain ⟨i, hi⟩ := List.mem_iff_getElem?.mp ht
    obtain ⟨htinv, -, howner⟩ := hinv.threads i t hi
    rw [hplace] at howner
    exact htinv.leavesNothing (howner.1 (List.getElem?_eq_some_iff.mp hi).1)

end Steps

/-- A pool of two, each of whose loops has begun to loop when it is asked for a loop the third
time. -/
theorem pool_serves_two :
    ∃ s, (system Unit Nat Unit).Run init [.setThreadNum 2, .start true, .make,
        .thread 0 (.start true), .thread 0 (.run 7), .thread 0 .latch, .thread 0 .initLoop,
        .thread 0 .publish, .thread 0 .lock, .collect, .make, .thread 1 (.start true),
        .thread 0 (.loop .enter), .thread 1 (.run 8), .thread 1 .latch, .thread 1 .lock,
        .thread 1 .initLoop, .thread 1 .publish, .thread 1 .wake, .collect, .startReturns,
        .getNextLoop, .getNextLoop, .thread 1 (.loop .enter), .getNextLoop] (.ok s) ∧
      s.given = [some 0, some 1, some 0] ∧ ∀ t ∈ s.threads, Serves t true := by
  have hrun : ∃ s, (system Unit Nat Unit).Run init [.setThreadNum 2, .start true, .make,
        .thread 0 (.start true), .thread 0 (.run 7), .thread 0 .latch, .thread 0 .initLoop,
        .thread 0 .publish, .thread 0 .lock, .collect, .make, .thread 1 (.start true),
        .thread 0 (.loop .enter), .thread 1 (.run 8), .thread 1 .latch, .thread 1 .lock,
        .thread 1 .initLoop, .thread 1 .publish, .thread 1 .wake, .collect, .startReturns,
        .getNextLoop, .getNextLoop, .thread 1 (.loop .enter), .getNextLoop] (.ok s) ∧
      s.place = .idle ∧ s.started = true ∧ s.callback = true ∧ s.numThreads = 2 ∧
        s.given.length = 3 :=
    ⟨_, .cons ⟨rfl, rfl⟩ rfl <| .cons ⟨rfl, rfl⟩ rfl <| .cons ⟨⟨1, rfl⟩, rfl⟩ rfl <|
      .cons ⟨_, rfl, rfl, fun _ => ⟨⟨2, rfl⟩, rfl⟩, nofun⟩ rfl <|
      .cons ⟨_, rfl, ⟨rfl, by decide⟩, nofun, nofun⟩ rfl <|
      .cons ⟨_, rfl, ⟨rfl, rfl⟩, fun _ => ⟨⟨2, rfl⟩, rfl⟩, nofun⟩ rfl <|
      .cons ⟨_, rfl, rfl, nofun, nofun⟩ rfl <|
      .cons ⟨_, rfl, rfl, nofun, nofun⟩ rfl <|
      .cons ⟨_, rfl, rfl, fun _ => ⟨⟨2, rfl⟩, rfl⟩, nofun⟩ rfl <|
      .cons ⟨⟨1, rfl⟩, _, rfl, rfl⟩ rfl <| .cons ⟨⟨0, rfl⟩, rfl⟩ rfl <|
      .cons ⟨_, rfl, rfl, fun _ => ⟨⟨1, rfl⟩, rfl⟩, nofun⟩ rfl <|
      .cons ⟨_, rfl, ⟨⟨_, rfl, rfl⟩, rfl⟩, nofun, nofun⟩ rfl <|
      .cons ⟨_, rfl, ⟨rfl, by decide⟩, nofun, nofun⟩ rfl <|
      .cons ⟨_, rfl, ⟨rfl, rfl⟩, fun _ => ⟨⟨1, rfl⟩, rfl⟩, nofun⟩ rfl <|
      .cons ⟨_, rfl, rfl, fun _ => ⟨⟨1, rfl⟩, rfl⟩, nofun⟩ rfl <|
      .cons ⟨_, rfl, rfl, nofun, nofun⟩ rfl <|
      .cons ⟨_, rfl, rfl, nofun, nofun⟩ rfl <|
      .cons ⟨_, rfl, rfl, fun _ => ⟨⟨1, rfl⟩, rfl⟩, nofun⟩ rfl <|
      .cons ⟨⟨0, rfl⟩, _, rfl, rfl⟩ rfl <| .cons rfl rfl <| .cons ⟨rfl, rfl⟩ rfl <|
      .cons ⟨rfl, rfl⟩ rfl <|
      .cons ⟨_, rfl, ⟨⟨_, rfl, rfl⟩, rfl⟩, nofun, nofun⟩ rfl <|
      .cons ⟨rfl, rfl⟩ rfl .nil, rfl, rfl, rfl, rfl, rfl⟩
  obtain ⟨s, hrun, hplace, hstarted, hcallback, hnum, hlength⟩ := hrun
  obtain ⟨s', hs', hserving, -⟩ := pool_serves hrun (by simp)
  cases hs'
  obtain ⟨-, -, hthreads, -, hgiven, -⟩ := hserving hplace hstarted
  refine ⟨s, hrun, ?_, hcallback ▸ hthreads⟩
  rw [hgiven, hlength, hnum]
  rfl

end EventLoopThreadPool

end ClyServer.Net
