import ClyServer.Net.PollSet

/-!
# A removed channel is not registered again

`removeChannel` takes the channel out of the map and out of the array and leaves its
`index_` alone. `updateChannel` tells a new channel from an old one by `index_`, so a
channel that was removed is taken for an old one for ever after: the call writes at
the stale position, where another channel's entry may stand by now or none, and
never puts the channel back in the map. `registersAgain_never` says that no calls on
other channels, in whatever order and number, change that.

Nothing is asked of the callers here: `PollSet.calls` takes any call in any state,
and a call out of range ends its run.
-/

namespace ClyServer.Net

open ClyServer.Lib

variable {κ : Type} [DecidableEq κ]

namespace PollSet

/-- What a call does. -/
def call (s : PollSet κ) : PollOp κ → Checked (PollSet κ)
  | .interest c op => s.interest c op.change
  | .remove c => s.remove c

/-- The poller under any calls at all. -/
def calls (κ : Type) [DecidableEq κ] : System (PollSet κ) (PollOp κ) Fault where
  enabled := fun _ _ => True
  step := call

/-- The change of interest registers the channel: afterwards it is in the map, its
entry has its descriptor and its events, and every other registered channel is
still there with the entry it had. -/
def RegistersAgain (s : PollSet κ) (c : κ) (op : Interest) : Prop :=
  ∃ u, s.interest c op.change = .ok u ∧ u.hasChannel c = true ∧
    (∃ pfd, u.entry c = some pfd ∧ pfd.fd = (u.channel c).fd ∧
      pfd.events = (u.channel c).events.setWidth 16) ∧
    ∀ d, d ≠ c → s.hasChannel d = true → u.hasChannel d = true ∧ u.entry d = s.entry d

theorem hasChannel_iff {s : PollSet κ} {c : κ} :
    s.hasChannel c = true ↔ s.poller.channels (s.channel c).fd = some c :=
  decide_eq_true_iff

/-! ## What the two calls do -/

section Inversion

variable {s u : PollSet κ} {c : κ}

theorem setChannel_fd {ch : Channel} (h : ch.fd = (s.channel c).fd) (d : κ) :
    ((s.setChannel c ch).channel d).fd = (s.channel d).fd :=
  field_eq Channel.fd (by rw [setChannel_self, h]) (fun e he => setChannel_of_ne s he ch) d

theorem setChannel_index {ch : Channel} (h : ch.index = (s.channel c).index) (d : κ) :
    ((s.setChannel c ch).channel d).index = (s.channel d).index :=
  field_eq Channel.index (by rw [setChannel_self, h]) (fun e he => setChannel_of_ne s he ch) d

theorem pollfdAt_eq_ok {pollfds : List PollFd} {idx : Int} {pfd : PollFd}
    (h : pollfdAt pollfds idx = .ok pfd) : 0 ≤ idx := by
  unfold pollfdAt at h
  split at h
  · assumption
  · cases h

/-- A change of interest leaves every descriptor and the other channels alone. It adds
the channel to the map if it has no position, and leaves the map and the position
alone if it has one. -/
theorem interest_eq_ok {change : Events → Events} (h : s.interest c change = .ok u) :
    (∀ d, (u.channel d).fd = (s.channel d).fd) ∧ (∀ d, d ≠ c → u.channel d = s.channel d) ∧
      (u.poller.channels = Function.update s.poller.channels (s.channel c).fd (some c) ∧
          (s.channel c).index < 0 ∧ 0 ≤ (u.channel c).index ∨
        u.poller.channels = s.poller.channels ∧ 0 ≤ (s.channel c).index ∧
          (u.channel c).index = (s.channel c).index) := by
  rw [interest_eq, updateChannel, setChannel_self, setChannel_poller] at h
  by_cases hidx : (s.channel c).index < 0
  · rw [if_pos hidx] at h
    cases h
    refine ⟨fun d => ?_, fun d hd => ?_, .inl ⟨rfl, hidx, ?_⟩⟩
    · by_cases hd : d = c <;> simp [setChannel, hd]
    · exact (setChannel_of_ne _ hd _).trans (setChannel_of_ne s hd _)
    · simp [setChannel]
  · rw [if_neg hidx] at h
    obtain ⟨pfd, _, h⟩ := bind_eq_ok.mp h
    cases h
    exact ⟨setChannel_fd (by rfl), fun d hd => setChannel_of_ne s hd _,
      .inr ⟨rfl, Int.not_lt.mp hidx, setChannel_index (by rfl) c⟩⟩

theorem removeChannel_eq_ok (h : s.removeChannel c = .ok u) :
    (∀ d, (u.channel d).fd = (s.channel d).fd) ∧ 0 ≤ (s.channel c).index ∧
      u.poller.channels = Function.update s.poller.channels (s.channel c).fd none ∧
      ∀ d, (u.channel d).index = (s.channel d).index ∨
        (∃ fd, u.poller.channels fd = some d) ∧ (u.channel d).index = (s.channel c).index := by
  obtain ⟨pfd, hpfd, h⟩ := bind_eq_ok.mp h
  have hidx := pollfdAt_eq_ok hpfd
  dsimp only at h
  split at h
  · cases h
    exact ⟨fun _ => rfl, hidx, rfl, fun _ => .inl rfl⟩
  · obtain ⟨last, _, h⟩ := bind_eq_ok.mp h
    split at h
    · cases h
    · rename_i e he
      cases h
      refine ⟨setChannel_fd rfl, hidx, rfl, fun d => ?_⟩
      by_cases hd : d = e
      · subst hd
        exact .inr ⟨⟨_, he⟩, by simp [setChannel]⟩
      · exact .inl (congrArg Channel.index (setChannel_of_ne s hd _))

/-- A removal leaves every descriptor alone and takes the channel out of the map. Of
the positions it changes one at most, that of a channel the map still has. -/
theorem remove_eq_ok (h : s.remove c = .ok u) :
    (∀ d, (u.channel d).fd = (s.channel d).fd) ∧ 0 ≤ (s.channel c).index ∧
      u.poller.channels = Function.update s.poller.channels (s.channel c).fd none ∧
      ∀ d, (u.channel d).index = (s.channel d).index ∨
        (∃ fd, u.poller.channels fd = some d) ∧ (u.channel d).index = (s.channel c).index := by
  have hfd : ∀ d, ((s.setChannel c { s.channel c with addedToLoop := false }).channel d).fd =
      (s.channel d).fd := setChannel_fd rfl
  have hindex : ∀ d, ((s.setChannel c { s.channel c with addedToLoop := false }).channel d).index =
      (s.channel d).index := setChannel_index rfl
  obtain ⟨hfds, hidx, hmap, hpos⟩ := removeChannel_eq_ok h
  simp only [hfd, hindex, setChannel_poller] at hfds hidx hmap hpos
  exact ⟨hfds, hidx, hmap, hpos⟩

end Inversion

/-! ## What every run keeps -/

/-- Descriptors are fixed, and a channel in the map is there under its own and has a
position. -/
structure Mapped (fds : κ → Nat) (s : PollSet κ) : Prop where
  fd : ∀ c, (s.channel c).fd = fds c
  found : ∀ fd c, s.poller.channels fd = some c → fd = fds c ∧ 0 ≤ (s.channel c).index

/-- The channel is out of the map and has a position all the same. -/
structure Stale (fds : κ → Nat) (s : PollSet κ) (c : κ) : Prop where
  gone : s.poller.channels (fds c) = none
  position : 0 ≤ (s.channel c).index

section Kept

variable {fds : κ → Nat} {s u : PollSet κ} {c : κ}

omit [DecidableEq κ] in
theorem mapped_start (fds : κ → Nat) : (Tracked.start fds).set.Mapped fds where
  fd := fun _ => rfl
  found := fun _ _ h => nomatch h

/-- One call keeps it. -/
theorem Mapped.call (h : s.Mapped fds) (op : PollOp κ) (hcall : s.call op = .ok u) :
    u.Mapped fds := by
  cases op with
  | interest c op =>
    obtain ⟨hfds, hother, hmap⟩ := interest_eq_ok hcall
    refine ⟨fun d => (hfds d).trans (h.fd d), fun fd d hd => ?_⟩
    rcases hmap with ⟨hmap, _, hidx⟩ | ⟨hmap, _, hidx⟩
    · rw [hmap] at hd
      by_cases hdc : d = c
      · subst hdc
        refine ⟨?_, hidx⟩
        rcases update_eq_some hd with ⟨hfd, _⟩ | hd
        · rw [hfd, h.fd]
        · exact (h.found fd d hd).1
      · rw [hother d hdc]
        rcases update_eq_some hd with ⟨_, heq⟩ | hd
        · exact absurd (Option.some.inj heq).symm hdc
        · exact h.found fd d hd
    · rw [hmap] at hd
      obtain ⟨hfd, hold⟩ := h.found fd d hd
      refine ⟨hfd, ?_⟩
      by_cases hdc : d = c
      · subst hdc
        rw [hidx]
        exact hold
      · rw [hother d hdc]
        exact hold
  | remove c =>
    obtain ⟨hfds, hidx, hmap, hpos⟩ := remove_eq_ok hcall
    refine ⟨fun d => (hfds d).trans (h.fd d), fun fd d hd => ?_⟩
    rw [hmap] at hd
    rcases update_eq_some hd with ⟨_, hnone⟩ | hd
    · cases hnone
    · obtain ⟨hfd, hold⟩ := h.found fd d hd
      refine ⟨hfd, ?_⟩
      rcases hpos d with hsame | ⟨_, hmoved⟩
      · rw [hsame]
        exact hold
      · rw [hmoved]
        exact hidx

/-- A registered channel that is removed keeps its position. -/
theorem Mapped.stale_remove (h : s.Mapped fds)
    (hcall : s.call (.remove c) = .ok u) : u.Stale fds c := by
  obtain ⟨_, hidx, hmap, hpos⟩ := remove_eq_ok hcall
  have hgone : u.poller.channels (fds c) = none := by
    rw [hmap, h.fd, Function.update_self]
  refine ⟨hgone, ?_⟩
  rcases hpos c with hsame | ⟨⟨fd, hfd⟩, _⟩
  · rw [hsame]
    exact hidx
  · -- the one whose position changes is still in the map, and `c` is not
    rw [((h.call _ hcall).found fd c hfd).1, hgone] at hfd
    cases hfd

/-- A call on another channel leaves a stale one stale. -/
theorem Stale.call (hfds : Function.Injective fds) (hmapped : s.Mapped fds) (h : s.Stale fds c)
    {op : PollOp κ} (hop : op.channel ≠ c) (hcall : s.call op = .ok u) : u.Stale fds c := by
  have hne : ∀ d, d ≠ c → (fds c : Int) ≠ fds d :=
    fun d hd heq => hd (hfds (Int.ofNat_inj.mp heq)).symm
  cases op with
  | interest d op =>
    obtain ⟨_, hother, hmap⟩ := interest_eq_ok hcall
    refine ⟨?_, ?_⟩
    · rcases hmap with ⟨hmap, _⟩ | ⟨hmap, _⟩
      · rw [hmap, hmapped.fd, Function.update_of_ne (hne d hop)]
        exact h.gone
      · rw [hmap]
        exact h.gone
    · rw [hother c (Ne.symm hop)]
      exact h.position
  | remove d =>
    obtain ⟨_, hidx, hmap, hpos⟩ := remove_eq_ok hcall
    refine ⟨?_, ?_⟩
    · rw [hmap, hmapped.fd, Function.update_of_ne (hne d hop)]
      exact h.gone
    · rcases hpos c with hsame | ⟨_, hmoved⟩
      · rw [hsame]
        exact h.position
      · rw [hmoved]
        exact hidx

/-- What a change of interest makes of a stale channel: it stays out of the map. -/
theorem Stale.not_hasChannel (hmapped : s.Mapped fds) (h : s.Stale fds c)
    {change : Events → Events} (hcall : s.interest c change = .ok u) : u.hasChannel c = false := by
  obtain ⟨hfd, _, ⟨_, hnew, _⟩ | ⟨hmap, _⟩⟩ := interest_eq_ok hcall
  · exact absurd h.position (Int.not_le.mpr hnew)
  · rw [Bool.eq_false_iff, Ne, hasChannel_iff, hmap, hfd, hmapped.fd, h.gone]
    exact nofun

theorem mapped_run (h : s.Mapped fds) {ops : List (PollOp κ)}
    (hrun : (calls κ).Run s ops (.ok u)) : u.Mapped fds :=
  hrun.history (I := fun _ t => t.Mapped fds) h fun _ _ op _ ht _ hcall => ht.call op hcall

/-- Whatever is done to other channels, a stale one stays so. -/
theorem stale_run (hfds : Function.Injective fds) (hmapped : s.Mapped fds) (h : s.Stale fds c)
    {ops : List (PollOp κ)} (hops : ∀ op ∈ ops, op.channel ≠ c)
    (hrun : (calls κ).Run s ops (.ok u)) : u.Stale fds c := by
  apply System.Run.along (I := fun t => t.Stale fds c) h _ (List.prefix_refl ops) hrun
  intro pre op t v hpre ht hstale _ hcall
  have hmem : op ∈ ops := hpre.subset (List.mem_append_right pre (List.mem_singleton_self op))
  exact hstale.call hfds (mapped_run hmapped ht) (hops op hmem) hcall

end Kept

/-- **A removed channel is never registered again.** From any state that calls on
channels of distinct descriptors lead to: once a channel was told to want nothing
and removed, no change of interest registers it, whatever is done to other
channels in between. -/
theorem registersAgain_never {fds : κ → Nat} (hfds : Function.Injective fds)
    {before : List (PollOp κ)} {s : PollSet κ}
    (hbefore : (calls κ).Run (Tracked.start fds).set before (.ok s)) {c : κ}
    {others : List (PollOp κ)} (hothers : ∀ op ∈ others, op.channel ≠ c) {t : PollSet κ}
    (hrun : (calls κ).Run s (.interest c .disableAll :: .remove c :: others) (.ok t))
    (op : Interest) : ¬ t.RegistersAgain c op := by
  obtain ⟨s₁, _, hdisable, hrun⟩ := System.run_cons_ok_iff.mp hrun
  obtain ⟨s₂, _, hremove, hrun⟩ := System.run_cons_ok_iff.mp hrun
  have hmapped := mapped_run (mapped_start fds) hbefore
  have hmapped₁ : s₁.Mapped fds := hmapped.call (.interest c .disableAll) hdisable
  have hmapped₂ : s₂.Mapped fds := hmapped₁.call (.remove c) hremove
  have hstale : s₂.Stale fds c := hmapped₁.stale_remove hremove
  have hstale' : t.Stale fds c := stale_run hfds hmapped₂ hstale hothers hrun
  rintro ⟨u, hu, hreg, _⟩
  rw [hstale'.not_hasChannel (mapped_run hmapped₂ hrun) hu] at hreg
  cases hreg

/-- Two channels want input, and the first of them wants nothing any more and is removed.
When it then wants input again, the call writes over the entry of the second one. -/
theorem first_of_two_removed :
    ∃ s t u : PollSet Bool, (calls Bool).Run (Tracked.start fun c => if c then 5 else 3).set
        [.interest false .enableReading, .interest true .enableReading] (.ok s) ∧
      s.hasChannel false = true ∧
      (calls Bool).Run s [.interest false .disableAll, .remove false] (.ok t) ∧
      t.entry true = some ⟨5, 1, 0⟩ ∧ t.interest false Channel.enableReading = .ok u ∧
      u.hasChannel false = false ∧ u.entry true = some ⟨3, 1, 0⟩ :=
  ⟨_, _, _, .cons trivial rfl (.cons trivial rfl .nil), rfl,
    .cons trivial rfl (.cons trivial rfl .nil), rfl, rfl, rfl, rfl⟩

theorem registersAgain_never_two :
    ∃ s t : PollSet Bool, (calls Bool).Run (Tracked.start fun c => if c then 5 else 3).set
        [.interest false .enableReading, .interest true .enableReading] (.ok s) ∧
      s.hasChannel false = true ∧
      (calls Bool).Run s [.interest false .disableAll, .remove false] (.ok t) ∧
      ¬ t.RegistersAgain false .enableReading ∧ ¬ t.RegistersAgain false .enableWriting := by
  have hfds : Function.Injective fun c : Bool => if c then 5 else 3 := by
    intro c d
    cases c <;> cases d <;> decide
  obtain ⟨s, t, _, hs, hreg, ht, _⟩ := first_of_two_removed
  have hnone : ∀ op ∈ ([] : List (PollOp Bool)), op.channel ≠ false := nofun
  have hnever := registersAgain_never hfds hs hnone ht
  exact ⟨s, t, hs, hreg, ht, hnever .enableReading, hnever .enableWriting⟩

/-- The first of two channels is removed and then wants input again: it is not in the
map, and the second one is polled under the descriptor of the first. -/
theorem registersAgain_fails :
    ∃ s t u : PollSet Bool, (calls Bool).Run (Tracked.start fun c => if c then 5 else 3).set
        [.interest false .enableReading, .interest true .enableReading] (.ok s) ∧
      s.hasChannel false = true ∧
      (calls Bool).Run s [.interest false .disableAll, .remove false] (.ok t) ∧
      t.interest false Channel.enableReading = .ok u ∧ u.hasChannel false = false ∧
      u.entry true ≠ t.entry true ∧ ¬ t.RegistersAgain false .enableReading := by
  obtain ⟨s, t, u, hs, hreg, ht, hbefore, hu, hgone, hafter⟩ := first_of_two_removed
  refine ⟨s, t, u, hs, hreg, ht, hu, hgone, by rw [hbefore, hafter]; decide, ?_⟩
  rintro ⟨u', hu', hreg', _⟩
  cases hu.symm.trans hu'
  rw [hgone] at hreg'
  cases hreg'

end PollSet

end ClyServer.Net
