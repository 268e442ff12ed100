import ClyServer.Net.EventLoopThread

/-!
# When the destructor of a loop's thread returns

`loop()` begins with `quit_ = false`. A `quit()` that the destructor calls before that is
overwritten, and unless somebody else calls another one the destructor waits for the thread for
ever; one that comes later stays until the test of the `while` finds it, and from wherever the
thread is then some steps lead it out of `loop()` and to its end (`destructor_returns_iff`). That
they are taken needs an event: `quit()` does not wake the loop up.
-/

namespace ClyServer.Net

open ClyServer.Lib

namespace Cycle

variable {χ φ τ : Type} [DecidableEq τ]

/-- The steps of the loop's own thread between two tests of its `while`. -/
def Label.inner : Label χ φ τ → Bool
  | .wakeup none | .pollReturn _ | .handle | .handled | .endHandling | .swap | .execute
  | .executed | .endFunctors => true
  | _ => false

/-- Some of these steps lead from one state to another. -/
def Leads (c c' : Cycle χ φ τ) : Prop :=
  ∃ ls, (system χ φ τ).Run c ls (.ok c') ∧ ∀ l ∈ ls, l.inner = true

theorem Leads.refl (c : Cycle χ φ τ) : Leads c c := ⟨[], .nil, by simp⟩

theorem Leads.cons {c c' : Cycle χ φ τ} (l : Label χ φ τ) (hl : l.inner = true)
    (hen : c.Enabled l) (h : Leads (c.step l) c') : Leads c c' := by
  obtain ⟨ls, hrun, hinner⟩ := h
  exact ⟨l :: ls, .cons hen rfl hrun, List.forall_mem_cons.mpr ⟨hl, hinner⟩⟩

/-- Some steps lead to the test of the `while`. -/
def LeadsToTest (c : Cycle χ φ τ) : Prop := ∃ e, Leads c e ∧ e.place = .test

theorem LeadsToTest.cons {c : Cycle χ φ τ} (l : Label χ φ τ) (hl : l.inner = true)
    (hen : c.Enabled l) (h : LeadsToTest (c.step l)) : LeadsToTest c := by
  obtain ⟨e, hleads, he⟩ := h
  exact ⟨e, hleads.cons l hl hen, he⟩

/-- The thread can pay its wakeup wherever it owes one. -/
theorem leadsToTest_paid {c : Cycle χ φ τ}
    (h : ∀ d : Cycle χ φ τ, d.place = c.place → d.owesWakeup none = false → LeadsToTest d) :
    LeadsToTest c := by
  cases howes : c.owesWakeup none with
  | false => exact h c rfl howes
  | true =>
    have hpaid : (c.step (.wakeup none)).owesWakeup none = false := by simp [step]
    exact (h (c.step (.wakeup none)) rfl hpaid).cons (.wakeup none) rfl howes

/-- The rest of a batch is run. -/
theorem leadsToTest_calling {c : Cycle χ φ τ} {batch : List φ} {inside : Bool}
    (h : c.place = .calling batch inside) : LeadsToTest c := by
  have hout : ∀ {batch : List φ} {c : Cycle χ φ τ},
      (∀ d : Cycle χ φ τ, d.place = .calling batch false → LeadsToTest d) →
      c.place = .calling batch true → LeadsToTest c := fun {batch c} hnext h =>
    leadsToTest_paid fun d hd howes =>
      (hnext _ (by simp [step, hd, h])).cons .executed rfl ⟨howes, batch, hd.trans h⟩
  have hbetween : ∀ d : Cycle χ φ τ, d.place = .calling batch false → LeadsToTest d := by
    clear h
    induction batch with
    | nil => exact fun d hd => LeadsToTest.cons .endFunctors rfl hd ⟨_, .refl _, rfl⟩
    | cons cb batch ih =>
      intro d hd
      exact (hout ih (by simp [step, hd])).cons .execute rfl ⟨cb, batch, hd⟩
  cases inside with
  | false => exact hbetween c h
  | true => exact hout hbetween h

/-- And so are the handlers of the rest of the active channels, and then a batch. -/
theorem leadsToTest_handling {c : Cycle χ φ τ} {rest : List (LoopChannel χ)} {inside : Bool}
    (h : c.place = .handling rest inside) : LeadsToTest c := by
  have hout : ∀ {rest : List (LoopChannel χ)} {c : Cycle χ φ τ},
      (∀ d : Cycle χ φ τ, d.place = .handling rest false → LeadsToTest d) →
      c.place = .handling rest true → LeadsToTest c := fun {rest c} hnext h =>
    leadsToTest_paid fun d hd howes =>
      (hnext _ (by simp [step, hd, h])).cons .handled rfl ⟨howes, rest, hd.trans h⟩
  have hbetween : ∀ d : Cycle χ φ τ, d.place = .handling rest false → LeadsToTest d := by
    clear h
    induction rest with
    | nil =>
      intro d hd
      refine LeadsToTest.cons .endHandling rfl hd (LeadsToTest.cons .swap rfl rfl ?_)
      exact leadsToTest_calling rfl
    | cons ch rest ih =>
      intro d hd
      refine LeadsToTest.cons .handle rfl ⟨ch, rest, hd⟩ ?_
      cases ch with
      | wakeupChannel => exact ih _ (by simp [step, hd])
      | other ch => exact hout ih (by simp [step, hd])
  cases inside with
  | false => exact hbetween c h
  | true => exact hout hbetween h

/-- From anywhere in `loop()`, given that poll returns. -/
theorem leadsToTest {c : Cycle χ φ τ} (h : c.place ≠ .outside) : LeadsToTest c := by
  cases hplace : c.place with
  | outside => exact absurd hplace h
  | test => exact ⟨c, .refl c, hplace⟩
  | polling =>
    exact (leadsToTest_handling rfl).cons (.pollReturn []) rfl ⟨hplace, by simp⟩
  | handling rest inside => exact leadsToTest_handling hplace
  | swapping => exact (leadsToTest_calling rfl).cons .swap rfl hplace
  | calling batch inside => exact leadsToTest_calling hplace

end Cycle

namespace EventLoopThread

variable {χ φ τ : Type} [DecidableEq τ] {s s' : EventLoopThread χ φ τ}

/-! ## After the destructor's `quit()` -/

/-- What a step can do when the destructor has called `quit()`: it goes on to `pthread_join` or
returns from it, the loop takes a step, or the thread goes on to its end. -/
inductive Ending (s s' : EventLoopThread χ φ τ) : Prop
  | join (hplace : s'.place = s.place) (hobject : s'.object = s.object)
      (howner : s'.owner.hasQuit = true) : Ending s s'
  | joined (hplace : s.place = .ended) (hended : s'.place = .ended)
      (howner : s'.owner = .destroyed) : Ending s s'
  | loop (c : Cycle χ φ τ) (l : Cycle.Label χ φ τ) (hc : s.object = some c) (hen : c.Enabled l)
      (hwhere : l = .enter → s.place = .published) (hquit : l ≠ .quit)
      (hstep : s.loopStep l = .ok s') : Ending s s'
  | clear (hplace : s.place = .returned) (hcleared : s'.place = .cleared)
      (howner : s'.owner = s.owner) : Ending s s'
  | finish (hplace : s.place = .cleared) (hended : s'.place = .ended)
      (howner : s'.owner = s.owner) : Ending s s'

theorem ending (h : s.Inv) (hhas : s.owner.hasQuit = true) {l : Label χ φ τ} (hen : s.Enabled l)
    (hquit : l ≠ .loop .quit) (hstep : s.step l = .ok s') : Ending s s' := by
  have htogether := h.together
  have hone : ∀ {o : OwnerPlace}, o.hasQuit = false → s.owner ≠ o := by
    rintro o ho rfl
    rw [hhas] at ho
    cases ho
  cases l with
  | start created => exact absurd hen (hone rfl)
  | latch => exact absurd hen.1 (hone rfl)
  | lock | wake | testLoop | quitLoop => exact absurd hen (hone rfl)
  | destroy => exact absurd hen (not_or.mpr ⟨hone rfl, hone rfl⟩)
  | join =>
    have howner : s.owner = .join := hen
    have hstep : s.join = .ok s' := hstep
    unfold EventLoopThread.join at hstep
    split at hstep
    · cases hstep
    · split at hstep
      · cases hstep
      · cases hstep
        exact .join rfl rfl rfl
  | joined =>
    cases hstep
    exact .joined hen.2 hen.2 rfl
  | run tid => exact absurd ((owner_of_place htogether).1 hen.1) (hone rfl)
  | initLoop =>
    rcases (owner_of_place htogether).2.1 (.inl hen) with ho | ho | ho <;>
      exact absurd ho (hone rfl)
  | publish =>
    rcases (owner_of_place htogether).2.1 (.inr hen) with ho | ho | ho <;>
      exact absurd ho (hone rfl)
  | loop l =>
    obtain ⟨⟨c, hc, hcen⟩, hwhere⟩ := hen
    refine .loop c l hc hcen ?_ (fun heq => hquit (congrArg Label.loop heq)) hstep
    rintro rfl
    exact hwhere
  | clear =>
    cases hstep
    exact .clear hen rfl rfl
  | finish =>
    cases hstep
    exact .finish hen rfl rfl

omit [DecidableEq τ] in
/-- After the destructor nothing is left to be done. -/
theorem Inv.final (h : s.Inv) (hdestroyed : s.owner = .destroyed) (l : Label χ φ τ) :
    ¬ s.Enabled l := by
  have hplace : s.place = .absent ∨ s.place = .ended := by
    simpa [hdestroyed, Together] using h.together
  intro hen
  cases l with
  | loop l =>
    obtain ⟨⟨c, hc, -⟩, -⟩ := hen
    obtain ⟨hsome, -⟩ := h.alive hc
    rcases hplace with hplace | hplace
    · exact hsome.1 hplace
    · exact hsome.2 hplace
  | _ => rcases hplace with hplace | hplace <;> simp [Enabled, hdestroyed, hplace] at hen

/-- The `quit()` came before `loop()`: then `quit_` is not set in it. -/
structure Lost (s : EventLoopThread χ φ τ) : Prop where
  inv : s.Inv
  owner : s.owner.hasQuit = true
  place : s.place = .published ∨
    s.place = .looping ∧ ∀ c, s.object = some c → c.loop.quit = false

theorem Lost.step (h : s.Lost) {l : Label χ φ τ} (hen : s.Enabled l) (hquit : l ≠ .loop .quit)
    (hstep : s.step l = .ok s') : s'.Lost := by
  obtain ⟨t, ht, hinv⟩ := h.inv.step hen hquit
  cases ht.symm.trans hstep
  cases ending h.inv h.owner hen hquit hstep with
  | join hplace hobject howner =>
    exact ⟨hinv, howner, by rw [hplace, hobject]; exact h.place⟩
  | joined hplace hended howner =>
    rcases h.place with hp | ⟨hp, -⟩ <;> cases hp.symm.trans hplace
  | loop c l hc hcen hwhere hquit hloop =>
    have hsound := h.inv.sound c hc
    by_cases henter : l = .enter
    · subst henter
      have hplace := hwhere rfl
      have hnot : ¬ c.loop.looping = true := by simp [hsound.looping, hplace]
      rw [loopStep_enter hc hnot] at hloop
      cases hloop
      refine ⟨hinv, h.owner, .inr ⟨rfl, ?_⟩⟩
      rintro _ ⟨⟩
      rfl
    · by_cases htest : l = .test
      · subst htest
        have hat : c.place = .test := hcen
        rcases h.place with hp | ⟨hp, hunset⟩
        · rw [hsound.outside.mpr (by simp [hp])] at hat
          cases hat
        · rw [loopStep_test hc] at hloop
          cases hloop
          have hset := hunset c hc
          refine ⟨hinv, h.owner, .inr ⟨by simp [hset], ?_⟩⟩
          rintro _ ⟨⟩
          simp [Cycle.step, hset, EventLoop.startPoll]
      · rw [loopStep_inside hc henter htest] at hloop
        cases hloop
        refine ⟨hinv, h.owner, h.place.imp id fun hp => ⟨hp.1, ?_⟩⟩
        rintro _ ⟨⟩
        rw [(step_inside hcen henter htest hquit).2.2]
        exact hp.2 c hc
  | clear hplace hcleared howner =>
    rcases h.place with hp | ⟨hp, -⟩ <;> cases hp.symm.trans hplace
  | finish hplace hended howner =>
    rcases h.place with hp | ⟨hp, -⟩ <;> cases hp.symm.trans hplace

/-- The `quit()` came in `loop()`: it stays, and the thread goes on to its end. -/
structure Heard (s : EventLoopThread χ φ τ) : Prop where
  inv : s.Inv
  owner : s.owner.hasQuit = true ∨ s.owner = .destroyed
  place : s.place ≠ .published
  quit : s.place = .looping → ∀ c, s.object = some c → c.loop.quit = true

theorem Heard.step (h : s.Heard) {l : Label χ φ τ} (hen : s.Enabled l) (hquit : l ≠ .loop .quit)
    (hstep : s.step l = .ok s') : s'.Heard := by
  obtain ⟨t, ht, hinv⟩ := h.inv.step hen hquit
  cases ht.symm.trans hstep
  rcases h.owner with hhas | hdestroyed
  · cases ending h.inv hhas hen hquit hstep with
    | join hplace hobject howner =>
      refine ⟨hinv, .inl howner, hplace ▸ h.place, ?_⟩
      rw [hplace, hobject]
      exact h.quit
    | joined hplace hended howner =>
      exact ⟨hinv, .inr howner, by simp [hended], by simp [hended]⟩
    | loop c l hc hcen hwhere hquit hloop =>
      have hsound := h.inv.sound c hc
      have henter : l ≠ .enter := fun heq => h.place (hwhere heq)
      by_cases htest : l = .test
      · subst htest
        have hat : c.place = .test := hcen
        have hlooping : s.place = .looping := by
          by_contra hne
          rw [hsound.outside.mpr hne] at hat
          cases hat
        have hset := h.quit hlooping c hc
        rw [loopStep_test hc] at hloop
        cases hloop
        exact ⟨hinv, .inl hhas, by simp [hset], by simp [hset]⟩
      · rw [loopStep_inside hc henter htest] at hloop
        cases hloop
        refine ⟨hinv, .inl hhas, h.place, fun hp => ?_⟩
        rintro _ ⟨⟩
        rw [(step_inside hcen henter htest hquit).2.2]
        exact h.quit hp c hc
    | clear hplace hcleared howner =>
      exact ⟨hinv, .inl (howner ▸ hhas), by simp [hcleared], by simp [hcleared]⟩
    | finish hplace hended howner =>
      exact ⟨hinv, .inl (howner ▸ hhas), by simp [hended], by simp [hended]⟩
  · exact absurd hen (h.inv.final hdestroyed l)

/-- While nobody else calls `quit()`, a lost one stays lost. -/
theorem run_lost {ls : List (Label χ φ τ)} (hrun : (system χ φ τ).Run s ls (.ok s'))
    (hquit : ∀ l ∈ ls, l ≠ .loop .quit) (h : s.Lost) : s'.Lost :=
  (hrun.only hquit).history (I := fun _ u => u.Lost) h
    fun _ _ _ _ hu hen hstep => hu.step hen.1 hen.2 hstep

/-- And one that was heard stays heard. -/
theorem run_heard {ls : List (Label χ φ τ)} (hrun : (system χ φ τ).Run s ls (.ok s'))
    (hquit : ∀ l ∈ ls, l ≠ .loop .quit) (h : s.Heard) : s'.Heard :=
  (hrun.only hquit).history (I := fun _ u => u.Heard) h
    fun _ _ _ _ hu hen hstep => hu.step hen.1 hen.2 hstep

omit [DecidableEq τ] in
theorem quitLoop_lost (hstep : s.quitLoop = .ok s') (h : s'.Inv) (hplace : s.place = .published) :
    s'.Lost := by
  unfold quitLoop at hstep
  split at hstep
  · cases hstep
  · cases hstep
    exact ⟨h, rfl, .inl hplace⟩

omit [DecidableEq τ] in
theorem quitLoop_heard (hstep : s.quitLoop = .ok s') (h : s'.Inv) (hplace : s.place = .looping) :
    s'.Heard := by
  unfold quitLoop at hstep
  split at hstep
  · cases hstep
  · cases hstep
    refine ⟨h, .inl rfl, by simp [hplace], ?_⟩
    rintro - _ ⟨⟩
    rfl

/-! ## The way to the end -/

/-- Steps inside `loop()` are steps of the thread. -/
theorem run_loop {c c' : Cycle χ φ τ} {ls : List (Cycle.Label χ φ τ)} (hc : s.object = some c)
    (hplace : s.place = .looping) (h : (Cycle.system χ φ τ).Run c ls (.ok c'))
    (hinner : ∀ l ∈ ls, l.inner = true) :
    (system χ φ τ).Run s (ls.map .loop) (.ok { s with object := some c' }) := by
  induction ls generalizing s c with
  | nil =>
    cases System.run_nil_iff.mp h
    rw [← hc]
    exact .nil
  | cons l ls ih =>
    obtain ⟨d, hen, hd, hrest⟩ := System.run_cons_ok_iff.mp h
    cases hd
    obtain ⟨hl, hinner⟩ := List.forall_mem_cons.mp hinner
    have hne : l ≠ .enter ∧ l ≠ .test := by
      constructor <;> rintro rfl <;> cases hl
    have hwhere : s.LoopEnabled l := by
      refine ⟨⟨c, hc, hen⟩, ?_⟩
      cases l with
      | wakeup t =>
        cases t with
        | none => exact .inr hplace
        | some t => cases hl
      | _ => first | exact .inr hplace | cases hl
    exact .cons hwhere (loopStep_inside hc hne.1 hne.2) (ih rfl hplace hrest hinner)

/-- Some steps more, none of them a `quit()` of somebody else, and the destructor returns. -/
def Returns (s : EventLoopThread χ φ τ) : Prop :=
  ∃ more s', (system χ φ τ).Run s more (.ok s') ∧ (∀ l ∈ more, l ≠ .loop .quit) ∧
    s'.owner = .destroyed

theorem Returns.cons (l : Label χ φ τ) (hen : s.Enabled l) (hquit : l ≠ .loop .quit)
    (hstep : s.step l = .ok s') (h : s'.Returns) : s.Returns := by
  obtain ⟨more, u, hrun, hquits, hu⟩ := h
  exact ⟨l :: more, u, .cons hen hstep hrun, List.forall_mem_cons.mpr ⟨hquit, hquits⟩, hu⟩

theorem Heard.returns_of_ended (h : s.Heard) (hplace : s.place = .ended) : s.Returns := by
  have hlast : ∀ {s : EventLoopThread χ φ τ}, s.owner = .joining → s.place = .ended →
      s.Returns := fun howner hplace =>
    Returns.cons .joined ⟨howner, hplace⟩ nofun rfl ⟨[], _, .nil, by simp, rfl⟩
  rcases h.owner with hhas | hdestroyed
  · cases howner : s.owner with
    | join =>
      obtain ⟨t, ht, hinv⟩ := h.inv.join howner
      refine Returns.cons .join howner nofun ht ?_
      unfold EventLoopThread.join at ht
      split at ht
      · cases ht
      · split at ht
        · cases ht
        · cases ht
          exact hlast rfl hplace
    | joining => exact hlast howner hplace
    | _ =>
      rw [howner] at hhas
      cases hhas
  · exact ⟨[], s, .nil, by simp, hdestroyed⟩

theorem Heard.returns_of_cleared (h : s.Heard) (hplace : s.place = .cleared) : s.Returns := by
  have hen : s.Enabled .finish := hplace
  have hstep : s.step .finish = .ok s.finish := rfl
  have hnext := h.step hen nofun hstep
  exact Returns.cons .finish hplace nofun hstep (hnext.returns_of_ended rfl)

theorem Heard.returns_of_returned (h : s.Heard) (hplace : s.place = .returned) : s.Returns := by
  have hen : s.Enabled .clear := hplace
  have hstep : s.step .clear = .ok s.clear := rfl
  have hnext := h.step hen nofun hstep
  exact Returns.cons .clear hplace nofun hstep (hnext.returns_of_cleared rfl)

/-- In `loop()`, the test of the `while` can be reached, and ends it. -/
theorem Heard.returns_of_looping (h : s.Heard) (hplace : s.place = .looping) : s.Returns := by
  have hliving : s.object.isSome = true := by
    rw [h.inv.object, hplace]
    rfl
  obtain ⟨c, hc⟩ := Option.isSome_iff_exists.mp hliving
  have hin : c.place ≠ .outside := by
    rw [ne_eq, (h.inv.sound c hc).outside, hplace]
    simp
  obtain ⟨d, ⟨ls, hls, hinner⟩, hd⟩ := Cycle.leadsToTest hin
  have hrun := run_loop hc hplace hls hinner
  have hquits : ∀ l ∈ ls.map Label.loop, l ≠ (.loop .quit : Label χ φ τ) := by
    rintro _ hl rfl
    obtain ⟨l, hl, heq⟩ := List.mem_map.mp hl
    cases heq
    cases hinner _ hl
  have hheard : Heard { s with object := some d } := run_heard hrun hquits h
  have hquit : d.loop.quit = true := hheard.quit hplace d rfl
  have hen : Enabled { s with object := some d } (.loop .test) :=
    ⟨⟨d, rfl, hd⟩, .inr hplace⟩
  have hstep := loopStep_test (s := { s with object := some d }) rfl
  obtain ⟨more, u, hmore, hquits', hu⟩ := Returns.cons (.loop .test) hen nofun hstep
    ((hheard.step hen nofun hstep).returns_of_returned (by simp [hquit]))
  exact ⟨_, u, System.run_append_ok_iff.mpr ⟨_, hrun, hmore⟩,
    List.forall_mem_append.mpr ⟨hquits, hquits'⟩, hu⟩

theorem Heard.returns (h : s.Heard) : s.Returns := by
  have htogether := h.inv.together
  rcases h.owner with hhas | hdestroyed
  · cases hplace : s.place with
    | looping => exact h.returns_of_looping hplace
    | returned => exact h.returns_of_returned hplace
    | cleared => exact h.returns_of_cleared hplace
    | ended => exact h.returns_of_ended hplace
    | published => exact absurd hplace h.place
    | _ =>
      rw [hplace] at htogether
      cases howner : s.owner <;>
        simp_all [Together, OwnerPlace.hasQuit, ThreadPlace.pointing]
  · exact ⟨[], s, .nil, by simp, hdestroyed⟩

/-- **Exactly when the destructor can return.** In every run in which nobody but the destructor
calls `quit()`, once it has called it: it returns if the run goes on in some such way, if and only
if the thread was in `loop()` when `quit()` was called. Before that, `loop()` overwrites `quit_` and
the destructor waits for ever, whatever else happens. -/
theorem destructor_returns_iff {callback : Bool} {pre post : List (Label χ φ τ)}
    {t : EventLoopThread χ φ τ}
    (ht : (system χ φ τ).Run (init callback) pre (.ok t))
    (hs : (system χ φ τ).Run (init callback) (pre ++ .quitLoop :: post) (.ok s))
    (hquit : ∀ l ∈ pre ++ .quitLoop :: post, l ≠ .loop .quit) :
    (∃ more s', (system χ φ τ).Run s more (.ok s') ∧ (∀ l ∈ more, l ≠ .loop .quit) ∧
        s'.owner = .destroyed) ↔
      t.place = .looping := by
  obtain ⟨hbefore, hafter⟩ := List.forall_mem_append.mp hquit
  obtain ⟨-, hafter⟩ := List.forall_mem_cons.mp hafter
  obtain ⟨_, ht', hrest⟩ := System.run_append_ok_iff.mp hs
  cases ht.unique ht'
  obtain ⟨_, ht', hinv, -⟩ := run_inv ht hbefore
  cases ht'
  obtain ⟨u, hen, hu, hpost⟩ := System.run_cons_ok_iff.mp hrest
  have howner : t.owner = .quitting := hen
  obtain ⟨u', hu', hinvu⟩ := hinv.quitLoop howner
  cases (show t.quitLoop = .ok u from hu).symm.trans hu'
  have hplace : t.place = .published ∨ t.place = .looping := by
    simpa [howner, Together] using hinv.together
  constructor
  · rintro ⟨more, s', hmore, hquits, hs'⟩
    by_contra hne
    -- a lost quit stays lost, and the destructor waits
    have hlost := quitLoop_lost hu' hinvu (hplace.resolve_right hne)
    have hend := run_lost (System.run_append_ok_iff.mpr ⟨_, hpost, hmore⟩)
      (List.forall_mem_append.mpr ⟨hafter, hquits⟩) hlost
    have hhas := hend.owner
    rw [hs'] at hhas
    cases hhas
  · intro hlooping
    exact (run_heard hpost hafter (quitLoop_heard hu' hinvu hlooping)).returns

/-- A server that is destroyed right after its start: the destructor is in `pthread_join`, the
thread blocked in poll, and nothing but a `quit()` of somebody else will end either. -/
theorem destructor_returns_iff_early :
    ∃ s, (system Unit Nat Unit).Run (init true) ([.start true, .run 7, .latch, .initLoop, .publish,
        .lock, .destroy, .testLoop] ++ .quitLoop :: [.join, .loop .enter, .loop .test]) (.ok s) ∧
      s.owner = .joining ∧ s.place = .looping ∧
      ¬ ∃ more s', (system Unit Nat Unit).Run s more (.ok s') ∧ (∀ l ∈ more, l ≠ .loop .quit) ∧
        s'.owner = .destroyed := by
  have hpre : ∃ t, (system Unit Nat Unit).Run (init true) [.start true, .run 7, .latch, .initLoop,
        .publish, .lock, .destroy, .testLoop] (.ok t) ∧ t.place = .published ∧
      ∃ s, (system Unit Nat Unit).Run t (.quitLoop :: [.join, .loop .enter, .loop .test]) (.ok s) ∧
        s.owner = .joining ∧ s.place = .looping :=
    ⟨_, .cons rfl rfl <| .cons ⟨rfl, by decide⟩ rfl <| .cons ⟨rfl, rfl⟩ rfl <| .cons rfl rfl <|
      .cons rfl rfl <| .cons rfl rfl <| .cons (.inr rfl) rfl <| .cons rfl rfl .nil, rfl, _,
      .cons rfl rfl <| .cons rfl rfl <| .cons ⟨⟨_, rfl, rfl⟩, rfl⟩ rfl <|
      .cons ⟨⟨_, rfl, rfl⟩, .inr rfl⟩ rfl .nil, rfl, rfl⟩
  obtain ⟨t, ht, hplace, s, hs, howner, hlooping⟩ := hpre
  have hrun := System.run_append_ok_iff.mpr ⟨t, ht, hs⟩
  refine ⟨s, hrun, howner, hlooping, fun hreturns => ?_⟩
  have hin := (destructor_returns_iff ht hrun (by decide)).mp hreturns
  rw [hplace] at hin
  cases hin

end EventLoopThread

end ClyServer.Net
