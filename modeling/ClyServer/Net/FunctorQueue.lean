import ClyServer.Net.EventLoop

/-!
# Functors are kept, in order, and the loop does not sleep on them

Two invariants of a loop that any number of threads queue functors on. What was
pushed is what was executed, then the rest of the batch, then what is pending, in
the order of the pushes (`Conserved`). And while the loop thread is not on its
way from a poll to the swap, a pending functor has a wakeup behind it or one on
its way (`Awake`): the wakeups that `queueInLoop` leaves out are those of the
loop's own handlers, which the swap of the same round follows, and the eventfd is
read only in handlers, before that swap.
-/

namespace ClyServer.Net

open ClyServer.Lib

/-- On the way from a poll to the swap of `doPendingFunctors`. -/
def Place.beforeSwap {χ φ : Type} : Place χ φ → Bool
  | handling _ _ => true
  | swapping => true
  | _ => false

/-- In `doPendingFunctors`, where `callingPendingFunctors_` is set. -/
def Place.inFunctors {χ φ : Type} : Place χ φ → Bool
  | swapping => true
  | calling _ _ => true
  | _ => false

namespace Cycle

variable {χ φ τ : Type}

/-- Executed, then the rest of the batch, then pending: what was pushed. -/
def Conserved (pushed : List φ) (s : Cycle χ φ τ) : Prop :=
  s.executed ++ s.place.batch ++ s.loop.pendingFunctors = pushed

/-- Pending functors have a wakeup behind them, or one on its way. -/
def Roused (s : Cycle χ φ τ) : Prop :=
  s.loop.pendingFunctors ≠ [] → 0 < s.loop.wakeupCounter ∨ ∃ t, s.owesWakeup t = true

/-- The flag is the place's, and outside of the way to the swap the loop is roused. -/
structure Awake (s : Cycle χ φ τ) : Prop where
  flag : s.loop.callingPendingFunctors = s.place.inFunctors
  roused : s.place.beforeSwap = false → s.Roused

/-- A push outside of the way to the swap leaves its thread owing a wakeup: the
loop's own thread can only be inside a functor there. -/
theorem wantsWakeup_of_push {s : Cycle χ φ τ} (h : s.Awake) {t : Option τ} {cb : φ}
    (hen : s.Enabled (.push t cb)) (hplace : s.place.beforeSwap = false) :
    s.loop.wantsWakeup t.isNone = true := by
  cases t with
  | some t => simp [EventLoop.wantsWakeup]
  | none =>
    obtain ⟨⟨rest, hin⟩ | ⟨batch, hin⟩, _⟩ := hen
    · rw [hin] at hplace
      cases hplace
    · simp [EventLoop.wantsWakeup, h.flag, hin, Place.inFunctors]

/-- The flag stays the place's where neither changes. -/
theorem Awake.flag_of {s s' : Cycle χ φ τ} (h : s.Awake)
    (hloop : s'.loop.callingPendingFunctors = s.loop.callingPendingFunctors)
    (hplace : s'.place.inFunctors = s.place.inFunctors) :
    s'.loop.callingPendingFunctors = s'.place.inFunctors := by
  rw [hloop, hplace, h.flag]

variable [DecidableEq τ]

/-- One step: the functor it pushes is behind the others, and nothing else moves
except from the front of one part to the end of the part before. -/
theorem conserved_step {s : Cycle χ φ τ} {pushed : List φ} (h : s.Conserved pushed)
    {l : Label χ φ τ} (hen : s.Enabled l) :
    (s.step l).Conserved (pushed ++ l.pushed?.toList) := by
  unfold Conserved at h ⊢
  cases l with
  | initPush cb => simp [← h, step, EventLoop.push, Label.pushed?]
  | push t cb => simp [← h, step, pushBy, EventLoop.push, Label.pushed?]
  | wakeup t => simpa [step, EventLoop.wakeup, Label.pushed?] using h
  | quit => simpa [step, EventLoop.setQuit, Label.pushed?] using h
  | enter =>
    have hplace : s.place = .outside := hen
    simpa [step, EventLoop.enter, Label.pushed?, hplace, Place.batch] using h
  | test =>
    have hplace : s.place = .test := hen
    by_cases hquit : s.loop.quit = true
    · simpa [step, hquit, EventLoop.leave, Label.pushed?, hplace, Place.batch] using h
    · simpa [step, hquit, EventLoop.startPoll, Label.pushed?, hplace, Place.batch] using h
  | pollReturn active =>
    have hplace : s.place = .polling := hen.1
    simpa [step, EventLoop.startHandling, Label.pushed?, hplace, Place.batch] using h
  | handle =>
    obtain ⟨c, rest, hplace⟩ := hen
    cases c with
    | wakeupChannel =>
      simpa [step, EventLoop.setCurrent, EventLoop.handleRead, Label.pushed?, hplace,
        Place.batch] using h
    | other c => simpa [step, EventLoop.setCurrent, Label.pushed?, hplace, Place.batch] using h
  | handled =>
    obtain ⟨_, rest, hplace⟩ := hen
    simpa [step, Label.pushed?, hplace, Place.batch] using h
  | endHandling =>
    have hplace : s.place = .handling [] false := hen
    simpa [step, EventLoop.endHandling, EventLoop.startFunctors, Label.pushed?, hplace,
      Place.batch] using h
  | swap =>
    have hplace : s.place = .swapping := hen
    simpa [step, EventLoop.swapFunctors, Label.pushed?, hplace, Place.batch] using h
  | execute =>
    obtain ⟨cb, rest, hplace⟩ := hen
    simpa [step, Label.pushed?, hplace, Place.batch] using h
  | executed =>
    obtain ⟨_, batch, hplace⟩ := hen
    simpa [step, Label.pushed?, hplace, Place.batch] using h
  | endFunctors =>
    have hplace : s.place = .calling [] false := hen
    simpa [step, EventLoop.endFunctors, Label.pushed?, hplace, Place.batch] using h

/-- One step, other than a push from outside of `loop()` by its own thread, keeps
the loop awake. -/
theorem awake_step {s : Cycle χ φ τ} (h : s.Awake) {l : Label χ φ τ} (hen : s.Enabled l)
    (hinit : ∀ cb, l ≠ .initPush cb) : (s.step l).Awake := by
  cases l with
  | initPush cb => exact absurd rfl (hinit cb)
  | push t cb =>
    refine ⟨h.flag, fun hplace _ => .inr ⟨t, ?_⟩⟩
    simp only [step, pushBy, Function.update_self]
    exact wantsWakeup_of_push h hen hplace
  | wakeup t => exact ⟨h.flag, fun _ _ => .inl (Nat.succ_pos _)⟩
  | quit => exact ⟨h.flag, h.roused⟩
  | enter =>
    have hplace : s.place = .outside := hen
    exact ⟨h.flag_of rfl (by rw [hplace]; rfl), fun _ => h.roused (by rw [hplace]; rfl)⟩
  | test =>
    have hplace : s.place = .test := hen
    have hroused : s.Roused := h.roused (by rw [hplace]; rfl)
    by_cases hquit : s.loop.quit = true
    · simp only [step, if_pos hquit]
      exact ⟨h.flag_of rfl (by rw [hplace]; rfl), fun _ => hroused⟩
    · simp only [step, if_neg hquit]
      exact ⟨h.flag_of rfl (by rw [hplace]; rfl), fun _ => hroused⟩
  | pollReturn active =>
    have hplace : s.place = .polling := hen.1
    exact ⟨h.flag_of rfl (by rw [hplace]; rfl), fun hbefore => nomatch hbefore⟩
  | handle =>
    obtain ⟨c, rest, hplace⟩ := hen
    cases c with
    | wakeupChannel =>
      simp only [step, hplace]
      exact ⟨h.flag_of rfl (by rw [hplace]; rfl), fun hbefore => nomatch hbefore⟩
    | other c =>
      simp only [step, hplace]
      exact ⟨h.flag_of rfl (by rw [hplace]; rfl), fun hbefore => nomatch hbefore⟩
  | handled =>
    obtain ⟨_, rest, hplace⟩ := hen
    simp only [step, hplace]
    exact ⟨h.flag_of rfl (by rw [hplace]; rfl), fun hbefore => nomatch hbefore⟩
  | endHandling => exact ⟨rfl, fun hbefore => nomatch hbefore⟩
  | swap =>
    have hplace : s.place = .swapping := hen
    exact ⟨h.flag_of rfl (by rw [hplace]; rfl), fun _ hpending => absurd rfl hpending⟩
  | execute =>
    obtain ⟨cb, rest, hplace⟩ := hen
    have hroused : s.Roused := h.roused (by rw [hplace]; rfl)
    simp only [step, hplace]
    exact ⟨h.flag_of rfl (by rw [hplace]; rfl), fun _ => hroused⟩
  | executed =>
    obtain ⟨_, batch, hplace⟩ := hen
    have hroused : s.Roused := h.roused (by rw [hplace]; rfl)
    simp only [step, hplace]
    exact ⟨h.flag_of rfl (by rw [hplace]; rfl), fun _ => hroused⟩
  | endFunctors =>
    have hplace : s.place = .calling [] false := hen
    exact ⟨rfl, fun _ => h.roused (by rw [hplace]; rfl)⟩

theorem conserved_run {ls : List (Label χ φ τ)} {s : Cycle χ φ τ}
    (h : (system χ φ τ).Run start ls (.ok s)) : s.Conserved (ls.filterMap Label.pushed?) := by
  refine h.history (I := fun ls s => s.Conserved (ls.filterMap Label.pushed?)) rfl
    fun ls s l u hs hen hstep => ?_
  cases hstep
  rw [List.filterMap_append]
  have hone : [l].filterMap Label.pushed? = l.pushed?.toList := by
    cases hl : l.pushed? <;> simp [hl]
  rw [hone]
  exact conserved_step hs hen

theorem awake_run {ls : List (Label χ φ τ)} {s : Cycle χ φ τ}
    (h : (system χ φ τ).Run start ls (.ok s)) (hinit : ∀ cb, .initPush cb ∉ ls) : s.Awake := by
  refine h.history (I := fun ls s => (∀ cb, .initPush cb ∉ ls) → s.Awake)
    (fun _ => ⟨rfl, fun _ hpending => absurd rfl hpending⟩)
    (fun ls s l u hs hen hstep hls => ?_) hinit
  cases hstep
  apply awake_step (hs fun cb hmem => hls cb (List.mem_append_left _ hmem)) hen
  rintro cb rfl
  exact hls cb (by simp)

/-- **No functor is lost, duplicated, reordered or stranded.** In every run of a
loop, with any number of other threads and its own handlers and functors queueing
at any time, what was executed, followed by the rest of the batch, followed by
`pendingFunctors_`, is what was pushed in the order of the pushes; and while the
loop thread is in poll with functors pending, the eventfd's counter is positive
or some thread is between its push and its eventfd write. What the owner queued
before it entered `loop()` is not part of it. -/
theorem functors_kept {ls : List (Label χ φ τ)} {r : Checked (Cycle χ φ τ)}
    (h : (system χ φ τ).Run start ls r) (hinit : ∀ cb, .initPush cb ∉ ls) :
    ∃ s, r = .ok s ∧
      s.executed ++ s.place.batch ++ s.loop.pendingFunctors = ls.filterMap Label.pushed? ∧
      (s.place = .polling → s.loop.pendingFunctors ≠ [] →
        0 < s.loop.wakeupCounter ∨ ∃ t, s.owesWakeup t = true) := by
  obtain ⟨s, rfl⟩ : ∃ s, r = .ok s := by
    cases h with
    | nil => exact ⟨_, rfl⟩
    | snoc _ _ => exact ⟨_, rfl⟩
  refine ⟨s, rfl, conserved_run h, fun hplace => (awake_run h hinit).roused ?_⟩
  rw [hplace]
  rfl

/-- Another thread queues 7 while the loop polls; running it queues 8, and the
loop is in poll again with 8 pending and its wakeup done. -/
theorem functors_kept_requeued :
    ∃ s, (system Unit Nat Unit).Run start
      [.enter, .test, .push (some ()) 7, .wakeup (some ()), .pollReturn [.wakeupChannel], .handle,
        .endHandling, .swap, .execute, .push none 8, .wakeup none, .executed, .endFunctors,
        .test] (.ok s) ∧
      s.place = .polling ∧ s.loop.pendingFunctors = [8] ∧ s.executed = [7] ∧
      (0 < s.loop.wakeupCounter ∨ ∃ t, s.owesWakeup t = true) := by
  have hrun : ∃ s, (system Unit Nat Unit).Run start
      [.enter, .test, .push (some ()) 7, .wakeup (some ()), .pollReturn [.wakeupChannel], .handle,
        .endHandling, .swap, .execute, .push none 8, .wakeup none, .executed, .endFunctors,
        .test] (.ok s) ∧
      s.place = .polling ∧ s.loop.pendingFunctors = [8] ∧ s.executed = [7] :=
    ⟨_, .cons rfl rfl <| .cons rfl rfl <| .cons rfl rfl <| .cons rfl rfl <|
      .cons ⟨rfl, fun _ => Nat.one_pos⟩ rfl <| .cons ⟨_, _, rfl⟩ rfl <| .cons rfl rfl <|
      .cons rfl rfl <| .cons ⟨_, _, rfl⟩ rfl <| .cons ⟨.inr ⟨_, rfl⟩, rfl⟩ rfl <|
      .cons rfl rfl <| .cons ⟨rfl, _, rfl⟩ rfl <| .cons rfl rfl <| .cons rfl rfl .nil,
      rfl, rfl, rfl⟩
  obtain ⟨s, hrun, hplace, hpending, hexecuted⟩ := hrun
  obtain ⟨s', hs', _, hroused⟩ := functors_kept hrun (by simp)
  cases hs'
  exact ⟨s, hrun, hplace, hpending, hexecuted, hroused hplace (by simp [hpending])⟩

end Cycle

end ClyServer.Net
