import ClyServer.Net.FunctorQueue

/-!
# What the loop sleeps through

Two calls leave the loop something to do and do not write its eventfd: `quit()`,
whose `wakeup()` is commented out, and the owner's own `queueInLoop` before it
enters `loop()`, which is neither another thread's nor made inside a functor.
`PollPoller::poll` blocks for ever, so after them the loop may sleep until some
event happens to arrive. `sleepless_iff` says of every run exactly when it does
not: no `quit()` comes while the loop is blocked in poll with its counter at
zero, and when the loop goes to poll with functors of its owner's, someone has
written the eventfd.
-/

namespace ClyServer.Net

open ClyServer.Lib

/-- Not between a poll and the end of its round: outside of `loop()`, at its test
or in poll. -/
def Place.resting {χ φ : Type} : Place χ φ → Bool
  | outside => true
  | test => true
  | polling => true
  | _ => false

namespace Cycle

variable {χ φ τ : Type}

/-- Blocked in poll, with nothing that would end it: the counter is zero. -/
def Asleep (s : Cycle χ φ τ) : Prop := s.place = .polling ∧ s.loop.wakeupCounter = 0

/-- A functor the owner queued before it entered `loop()`, and that is pending
still: no swap has come since. -/
def QueuedBefore (ls : List (Label χ φ τ)) (s : Cycle χ φ τ) (cb : φ) : Prop :=
  cb ∈ s.loop.pendingFunctors ∧ ∃ a b, ls = a ++ .initPush cb :: b ∧ .swap ∉ b

/-! ## One step -/

section Step

variable [DecidableEq τ] {s : Cycle χ φ τ} {l : Label χ φ τ}

/-- Only the swap takes functors out of the queue. -/
theorem pending_step (hl : l ≠ .swap) :
    s.loop.pendingFunctors <+: (s.step l).loop.pendingFunctors := by
  cases l with
  | initPush cb => exact List.prefix_append _ _
  | push t cb => exact List.prefix_append _ _
  | swap => exact absurd rfl hl
  | test | handle | handled | execute | executed =>
    unfold step
    dsimp only
    split <;> exact List.prefix_rfl
  | _ => exact List.prefix_rfl

/-- From rest the loop stays at rest or a poll returns; while it rests, only a
write changes the counter. -/
theorem resting_step (hen : s.Enabled l) (hrest : s.place.resting = true) :
    (s.step l).place.beforeSwap = true ∨
      ((s.step l).place.resting = true ∧
        (0 < (s.step l).loop.wakeupCounter ↔
          0 < s.loop.wakeupCounter ∨ ∃ t, l = .wakeup t)) := by
  cases l with
  | initPush cb => exact .inr ⟨hrest, by simp [step, EventLoop.push]⟩
  | push t cb => exact .inr ⟨hrest, by simp [step, pushBy, EventLoop.push]⟩
  | wakeup t => exact .inr ⟨hrest, by simp [step, EventLoop.wakeup]⟩
  | quit => exact .inr ⟨hrest, by simp [step, EventLoop.setQuit]⟩
  | enter => exact .inr ⟨rfl, by simp [step, EventLoop.enter]⟩
  | test =>
    by_cases hquit : s.loop.quit = true
    · exact .inr (by simp [step, hquit, EventLoop.leave, Place.resting])
    · exact .inr (by simp [step, hquit, EventLoop.startPoll, Place.resting])
  | pollReturn active => exact .inl rfl
  | handle | handled | execute | executed =>
    obtain ⟨_, _, hplace⟩ := hen
    rw [hplace] at hrest
    cases hrest
  | endHandling | swap | endFunctors =>
    rw [show s.place = _ from hen] at hrest
    cases hrest

/-- The way from a poll leads to the swap. -/
theorem beforeSwap_step (hen : s.Enabled l) (hl : l ≠ .swap) (hbefore : s.place.beforeSwap = true) :
    (s.step l).place.beforeSwap = true := by
  cases l with
  | initPush cb => exact hbefore
  | push t cb => exact hbefore
  | wakeup t => exact hbefore
  | quit => exact hbefore
  | enter | test | endFunctors =>
    rw [show s.place = _ from hen] at hbefore
    cases hbefore
  | pollReturn active => rfl
  | handle =>
    obtain ⟨c, rest, hplace⟩ := hen
    cases c with
    | wakeupChannel => simp [step, hplace, Place.beforeSwap]
    | other c => simp [step, hplace, Place.beforeSwap]
  | handled =>
    obtain ⟨_, rest, hplace⟩ := hen
    simp [step, hplace, Place.beforeSwap]
  | endHandling => rfl
  | swap => exact absurd rfl hl
  | execute | executed =>
    obtain ⟨_, _, hplace⟩ := hen
    rw [hplace] at hbefore
    cases hbefore

/-- Poll is entered by the test of the `while`, and `quit_` is not set then. -/
theorem polling_step (hen : s.Enabled l) (hplace : (s.step l).place = .polling) :
    (l = .test ∧ s.loop.quit = false ∧ (s.step l).loop.quit = false) ∨
      (l ≠ .test ∧ s.place = .polling ∧
        ((s.step l).loop.quit = true → s.loop.quit = true ∨ l = .quit) ∧
        s.loop.wakeupCounter ≤ (s.step l).loop.wakeupCounter) := by
  cases l with
  | initPush cb => exact .inr ⟨by simp, hplace, .inl, Nat.le_refl _⟩
  | push t cb => exact .inr ⟨by simp, hplace, .inl, Nat.le_refl _⟩
  | wakeup t => exact .inr ⟨by simp, hplace, .inl, Nat.le_succ _⟩
  | quit => exact .inr ⟨by simp, hplace, fun _ => .inr rfl, Nat.le_refl _⟩
  | enter => cases hplace
  | test =>
    by_cases hquit : s.loop.quit = true
    · simp [step, hquit] at hplace
    · rw [Bool.not_eq_true] at hquit
      exact .inl (by simp [step, hquit, EventLoop.startPoll])
  | pollReturn active => cases hplace
  | handle =>
    obtain ⟨c, rest, hat⟩ := hen
    cases c with
    | wakeupChannel => simp [step, hat] at hplace
    | other c => simp [step, hat] at hplace
  | handled =>
    obtain ⟨_, rest, hat⟩ := hen
    simp [step, hat] at hplace
  | endHandling => cases hplace
  | swap => cases hplace
  | execute =>
    obtain ⟨cb, rest, hat⟩ := hen
    simp [step, hat] at hplace
  | executed =>
    obtain ⟨_, batch, hat⟩ := hen
    simp [step, hat] at hplace
  | endFunctors => cases hplace

end Step

/-! ## Runs -/

variable [DecidableEq τ]

/-- From outside of `loop()` up to the next swap: nothing leaves the queue, and
until a poll returns the counter is positive exactly if it was or was written. -/
theorem outside_run {s t : Cycle χ φ τ} {b : List (Label χ φ τ)}
    (h : (system χ φ τ).Run t b (.ok s)) (hplace : t.place.resting = true) (hswap : .swap ∉ b) :
    t.loop.pendingFunctors <+: s.loop.pendingFunctors ∧
      (s.place.beforeSwap = true ∨ (s.place.resting = true ∧
        (0 < s.loop.wakeupCounter ↔ 0 < t.loop.wakeupCounter ∨ ∃ x, .wakeup x ∈ b))) := by
  refine h.history (I := fun b s => .swap ∉ b → t.loop.pendingFunctors <+: s.loop.pendingFunctors ∧
    (s.place.beforeSwap = true ∨ (s.place.resting = true ∧
      (0 < s.loop.wakeupCounter ↔ 0 < t.loop.wakeupCounter ∨ ∃ x, .wakeup x ∈ b))))
    (fun _ => ⟨List.prefix_rfl, .inr ⟨hplace, by simp⟩⟩) (fun b s l u hs hen hstep hb => ?_) hswap
  cases hstep
  rw [List.mem_append, not_or, List.mem_singleton] at hb
  obtain ⟨hpending, hwhere⟩ := hs hb.1
  have hl : l ≠ .swap := Ne.symm hb.2
  refine ⟨hpending.trans (pending_step hl), ?_⟩
  rcases hwhere with hbefore | ⟨hrest, hcounter⟩
  · exact .inl (beforeSwap_step hen hl hbefore)
  · refine (resting_step hen hrest).imp id fun hstill => ⟨hstill.1, ?_⟩
    rw [hstill.2, hcounter, or_assoc]
    simp only [List.mem_append, List.mem_singleton, exists_or, eq_comm]

/-- A run that ends in poll and began elsewhere went through the test. -/
theorem polling_run {s t : Cycle χ φ τ} {b : List (Label χ φ τ)}
    (h : (system χ φ τ).Run t b (.ok s)) (hstart : t.place ≠ .polling)
    (hend : s.place = .polling) :
    ∃ b₁ b₂ u, b = b₁ ++ .test :: b₂ ∧ (system χ φ τ).Run t (b₁ ++ [.test]) (.ok u) ∧
      u.place = .polling := by
  induction b using List.reverseRecOn generalizing s with
  | nil =>
    cases System.run_nil_iff.mp h
    exact absurd hend hstart
  | append_singleton b l ih =>
    obtain ⟨v, hv, hen, hs⟩ := System.run_snoc_iff.mp h
    cases hs
    rcases polling_step hen hend with ⟨rfl, _⟩ | ⟨_, hplace, _⟩
    · exact ⟨b, [], _, rfl, h, hend⟩
    · obtain ⟨b₁, b₂, u, rfl, hu, hpolling⟩ := ih hv hplace
      exact ⟨b₁, b₂ ++ [l], u, by simp, hu, hpolling⟩

/-- In no state the labels lead to is the loop asleep with `quit_` set, nor with a
functor pending that its owner queued before it entered `loop()`. -/
def Sleepless (ls : List (Label χ φ τ)) : Prop :=
  ∀ pre s, pre <+: ls → (system χ φ τ).Run start pre (.ok s) → s.Asleep →
    s.loop.quit = false ∧ ∀ cb, ¬ QueuedBefore pre s cb

/-- No `quit()` comes while the loop is blocked with its counter at zero, and the
eventfd is written (it was positive, or a `wakeup()` comes) between a functor of
the owner's and the poll that its loop goes into. -/
structure Prompt (ls : List (Label χ φ τ)) : Prop where
  quit : ∀ pre s, pre ++ [.quit] <+: ls → (system χ φ τ).Run start pre (.ok s) → ¬ s.Asleep
  init : ∀ a cb b t s, a ++ .initPush cb :: (b ++ [.test]) <+: ls → .swap ∉ b →
    (system χ φ τ).Run start a (.ok t) →
    (system χ φ τ).Run start (a ++ .initPush cb :: (b ++ [.test])) (.ok s) →
    s.place = .polling → 0 < t.loop.wakeupCounter ∨ ∃ x, .wakeup x ∈ b

/-- The part of a run behind the owner's push. -/
theorem run_behind_push {s : Cycle χ φ τ} {a b : List (Label χ φ τ)} {cb : φ}
    (h : (system χ φ τ).Run start (a ++ .initPush cb :: b) (.ok s)) :
    ∃ t, (system χ φ τ).Run start a (.ok t) ∧ t.place = .outside ∧
      (system χ φ τ).Run (t.step (.initPush cb)) b (.ok s) := by
  rw [← List.singleton_append, ← List.append_assoc, System.run_append_ok_iff] at h
  obtain ⟨v, hv, hb⟩ := h
  obtain ⟨t, ht, hen, hstep⟩ := System.run_snoc_iff.mp hv
  cases hstep
  exact ⟨t, ht, hen, hb⟩

/-- Without a `quit()` in its sleep, a loop in poll with `quit_` set has its
counter positive. -/
theorem counter_of_quit {ls : List (Label χ φ τ)} (h : Prompt ls) {pre : List (Label χ φ τ)}
    {s : Cycle χ φ τ} (hpre : pre <+: ls) (hrun : (system χ φ τ).Run start pre (.ok s)) :
    s.place = .polling → s.loop.quit = true → 0 < s.loop.wakeupCounter := by
  refine System.Run.along (I := fun s : Cycle χ φ τ =>
    s.place = .polling → s.loop.quit = true → 0 < s.loop.wakeupCounter)
    (fun hplace => absurd hplace (by simp [start]))
    (fun pre l t u hpre ht hI hen hstep hplace hquit => ?_) hpre hrun
  cases hstep
  rcases polling_step hen hplace with ⟨_, _, hnot⟩ | ⟨_, hpolling, hquit', hle⟩
  · rw [hnot] at hquit
    cases hquit
  · refine Nat.lt_of_lt_of_le ?_ hle
    rcases hquit' hquit with hset | rfl
    · exact hI hpolling hset
    · exact Nat.pos_of_ne_zero fun hzero => h.quit pre t hpre ht ⟨hpolling, hzero⟩

/-- In a poll behind the owner's push, with no swap in between: the functor waits,
and the counter is positive exactly if it was before or was written since. -/
theorem polling_behind_push {s t : Cycle χ φ τ} {b : List (Label χ φ τ)} {cb : φ}
    (houtside : t.place = .outside) (h : (system χ φ τ).Run (t.step (.initPush cb)) b (.ok s))
    (hswap : .swap ∉ b) (hplace : s.place = .polling) :
    cb ∈ s.loop.pendingFunctors ∧
      (0 < s.loop.wakeupCounter ↔ 0 < t.loop.wakeupCounter ∨ ∃ x, .wakeup x ∈ b) := by
  have hrest : (t.step (.initPush cb)).place.resting = true := by
    simp [step, houtside, Place.resting]
  obtain ⟨hpending, hwhere⟩ := outside_run h hrest hswap
  refine ⟨hpending.subset (by simp [step, EventLoop.push]), ?_⟩
  rcases hwhere with hbefore | ⟨_, hcounter⟩
  · rw [hplace] at hbefore
    cases hbefore
  · exact hcounter

theorem prompt_of_sleepless {ls : List (Label χ φ τ)} (h : Sleepless ls) : Prompt ls where
  quit := by
    intro pre s hpre hrun hasleep
    have hquit := h _ _ hpre (.snoc hrun (show s.Enabled .quit from trivial)) hasleep
    cases hquit.1
  init := by
    intro a cb b t s hls hswap ht hs hplace
    obtain ⟨t', ht', houtside, hb⟩ := run_behind_push hs
    cases ht.unique ht'
    have hswap' : .swap ∉ b ++ [.test] := by simpa using hswap
    obtain ⟨hpending, hcounter⟩ := polling_behind_push houtside hb hswap' hplace
    have hqueued : QueuedBefore (a ++ .initPush cb :: (b ++ [.test])) s cb :=
      ⟨hpending, a, b ++ [.test], rfl, hswap'⟩
    have hpos : 0 < s.loop.wakeupCounter :=
      Nat.pos_of_ne_zero fun hzero => (h _ _ hls hs ⟨hplace, hzero⟩).2 cb hqueued
    simpa using hcounter.mp hpos

theorem sleepless_of_prompt {ls : List (Label χ φ τ)} (h : Prompt ls) : Sleepless ls := by
  intro pre s hpre hrun hasleep
  obtain ⟨hplace, hzero⟩ := hasleep
  constructor
  · by_contra hquit
    rw [Bool.not_eq_false] at hquit
    exact Nat.ne_of_gt (counter_of_quit h hpre hrun hplace hquit) hzero
  · intro cb hqueued
    obtain ⟨_, a, b, rfl, hswap⟩ := hqueued
    obtain ⟨t, ht, houtside, hb⟩ := run_behind_push hrun
    have hstart : (t.step (.initPush cb)).place ≠ .polling := by simp [step, houtside]
    obtain ⟨b₁, b₂, u, rfl, hu, hpolling⟩ := polling_run hb hstart hplace
    -- the poll it went into, and what was written before it
    have htest : (system χ φ τ).Run start (a ++ .initPush cb :: (b₁ ++ [.test])) (.ok u) := by
      rw [← List.singleton_append, ← List.append_assoc, System.run_append_ok_iff]
      exact ⟨_, .snoc ht houtside, hu⟩
    have hprefix : a ++ .initPush cb :: (b₁ ++ [.test]) <+: ls := by
      refine List.IsPrefix.trans ⟨b₂, ?_⟩ hpre
      simp
    have hswap₁ : .swap ∉ b₁ := fun hmem => hswap (List.mem_append_left _ hmem)
    have hwoken := h.init a cb b₁ t u hprefix hswap₁ ht htest hpolling
    obtain ⟨_, hcounter⟩ := polling_behind_push houtside hb hswap hplace
    refine Nat.ne_of_gt (hcounter.mpr ?_) hzero
    refine hwoken.imp id fun hmem => ?_
    obtain ⟨x, hx⟩ := hmem
    exact ⟨x, List.mem_append_left _ hx⟩

/-- **Exactly the runs in which the loop sleeps through nothing.** -/
theorem sleepless_iff (ls : List (Label χ φ τ)) : Sleepless ls ↔ Prompt ls :=
  ⟨prompt_of_sleepless, sleepless_of_prompt⟩

/-- A `quit()` that comes while the loop is blocked in poll, and a functor its
owner queued before `loop()`: the loop sleeps through both. -/
theorem sleepless_fails :
    ¬ Sleepless (χ := Unit) (φ := Nat) (τ := Unit) [.enter, .test, .quit] ∧
      ¬ Sleepless (χ := Unit) (φ := Nat) (τ := Unit) [.initPush 7, .enter, .test] := by
  constructor
  · intro h
    have hrun : (system Unit Nat Unit).Run start [.enter, .test, .quit] (.ok _) :=
      .cons rfl rfl (.cons rfl rfl (.cons trivial rfl .nil))
    cases (h _ _ List.prefix_rfl hrun ⟨rfl, rfl⟩).1
  · intro h
    have hrun : (system Unit Nat Unit).Run start [.initPush 7, .enter, .test] (.ok _) :=
      .cons rfl rfl (.cons rfl rfl (.cons rfl rfl .nil))
    apply (h _ _ List.prefix_rfl hrun ⟨rfl, rfl⟩).2 7
    exact ⟨List.mem_singleton.mpr rfl, [], [.enter, .test], rfl, by simp⟩

end Cycle

end ClyServer.Net
