import ClyServer.Net.ConnectorSockets

/-!
# When an attempt may begin

Two assertions stand at the beginning of an attempt: the connector is disconnected, and
it has no channel. A caller that starts only a disconnected connector does not satisfy
them, because of what the connector has left with the loop: a retry that is never
cancelled fires while another attempt is under way, and a channel waits for its
destruction after the state is back to disconnected. `StartStop` is that caller, and
`starts_unsafe` a run of it that fails.

With `Waits` it is safe: a start comes only after what was left with the loop is done, and
a retry only after the channel is destroyed. There is then at most one retry, and only
while disconnected. And no weaker caller is: a step that does not wait can be followed
to a failed assertion.
-/

namespace ClyServer.Net

open ClyServer.Lib ClyServer.Lib.System

namespace Connector

variable {c c' : Connector}

/-- A caller in the loop's thread that starts a connector only while it is disconnected. -/
def StartStop (c : Connector) : Label → Prop
  | .start isInLoopThread _ => isInLoopThread = true ∧ c.state = .kDisconnected
  | .restart _ => False
  | _ => True

instance (c : Connector) : (l : Label) → Decidable (c.StartStop l)
  | .start _ _ => inferInstanceAs (Decidable (_ ∧ _))
  | .restart _ => .isFalse id
  | .stop | .fire _ _ | .functor _ _ | .event _ _ => .isTrue trivial

/-- An attempt waits for what was left with the loop: `start()` for the scheduled retries and the
destruction of the channel, a retry that is still wanted for the latter. -/
def Waits (c : Connector) : Label → Prop
  | .start _ _ => c.timers = [] ∧ .resetChannel ∉ c.pendingFunctors
  | .fire _ _ => c.connect_ = true → .resetChannel ∉ c.pendingFunctors
  | _ => True

instance (c : Connector) : (l : Label) → Decidable (c.Waits l)
  | .start _ _ => inferInstanceAs (Decidable (_ ∧ _))
  | .fire _ _ => inferInstanceAs (Decidable (_ → _))
  | .stop | .restart _ | .functor _ _ | .event _ _ => .isTrue trivial

/-- A caller that also waits. -/
def Patient (c : Connector) (l : Label) : Prop := c.StartStop l ∧ c.Waits l

instance (c : Connector) (l : Label) : Decidable (c.Patient l) :=
  inferInstanceAs (Decidable (_ ∧ _))

theorem StartStop.owner {l : Label} (h : c.StartStop l) : c.Owner l := by
  cases l with
  | restart a => exact h.elim
  | _ => trivial

/-- The connector is stopped while it connects and started again before its channel is
destroyed. -/
theorem starts_unsafe : ¬ ∀ ls e, (system StartStop).Run init ls (.error e) → ¬ StartFault e := by
  intro h
  have hrun : (system StartStop).Run init
      [.start true .inProgress, .stop, .functor .stopInLoop .inProgress, .start true .inProgress]
      (.error (.assertion .connecting)) := run_of_fault (by decide)
  exact h _ _ hrun (.inl rfl)

/-! ## A patient caller -/

/-- At most one retry is scheduled, and only while nothing else is going on; and no start is
queued. -/
structure Quiet (c : Connector) : Prop where
  account : c.Account
  timers : c.timers = [] ∨ (∃ delay, c.timers = [delay]) ∧ c.state = .kDisconnected
  noStart : .startInLoop ∉ c.pendingFunctors

/-- A channel that is left waits for its destruction. -/
theorem Account.reset_mem (h : c.Account) (hstate : c.state = .kDisconnected)
    (hchannel : c.channel ≠ none) : .resetChannel ∈ c.pendingFunctors := by
  have hresets := h.resets
  rw [if_pos ⟨by rw [hstate]; decide, hchannel⟩] at hresets
  exact List.count_pos_iff.mp (by omega)

/-- And only such a one. -/
theorem Account.channel_of_reset (h : c.Account) (hpending : .resetChannel ∈ c.pendingFunctors) :
    c.channel ≠ none := by
  have hresets := h.resets
  have hpos := List.count_pos_iff.mpr hpending
  split at hresets
  · rename_i hidle
    exact hidle.2
  · omega

/-- A retry is the only one, if there was none. -/
theorem retried_timers (h : c.timers = []) (sockfd : Int) :
    (c.retried sockfd).timers = [] ∨ ∃ delay, (c.retried sockfd).timers = [delay] := by
  unfold retried
  rw [h]
  cases c.connect_ with
  | true => exact .inr ⟨c.retryDelayMs, rfl⟩
  | false => exact .inl rfl

theorem Attempts.quiet (h : Attempts c c') (hc : c.Account) (htimers : c.timers = [])
    (hstart : .startInLoop ∉ c.pendingFunctors) : c'.Quiet := by
  refine ⟨h.account hc, ?_, ?_⟩
  · cases h with
    | idle => exact .inl htimers
    | began hstate hconnect hchannel => exact .inl htimers
    | refused hstate hconnect =>
      exact (retried_timers (c := c.opened) htimers c.socket).imp_right fun hone => ⟨hone, rfl⟩
  · cases h with
    | idle => exact hstart
    | began hstate hconnect hchannel => exact hstart
    | refused hstate hconnect => exact hstart

/-- While an attempt is under way no retry is scheduled. -/
theorem Quiet.timers_of_connecting (h : c.Quiet) (hstate : c.state = .kConnecting) :
    c.timers = [] := by
  rcases h.timers with hnone | ⟨-, hidle⟩
  · exact hnone
  · rw [hstate] at hidle
    cases hidle

theorem Finishes.quiet (h : Finishes c c') (hc : c.Quiet) : c'.Quiet := by
  have hpending : ∀ channel : Channel,
      .startInLoop ∉ (c.removed channel).pendingFunctors := by
    intro channel hmem
    rcases List.mem_append.mp hmem with hold | hnew
    · exact hc.noStart hold
    · simp at hnew
  refine ⟨h.account hc.account, ?_, ?_⟩
  · cases h with
    | idle => exact hc.timers
    | failed channel hstate hchannel =>
      have htimers : (c.removed channel).timers = [] := hc.timers_of_connecting hstate
      exact (retried_timers htimers channel.fd).imp_right fun hone => ⟨hone, rfl⟩
    | handed channel hstate hchannel hconnect => exact .inl (hc.timers_of_connecting hstate)
    | dropped channel hstate hchannel hconnect => exact .inl (hc.timers_of_connecting hstate)
  · cases h with
    | idle => exact hc.noStart
    | failed channel hstate hchannel => exact hpending channel
    | handed channel hstate hchannel hconnect => exact hpending channel
    | dropped channel hstate hchannel hconnect => exact hpending channel

/-- An attempt that begins disconnected and without a channel fails in neither assertion. -/
theorem attempt_quiet (hc : c.Account) (htimers : c.timers = [])
    (hstart : .startInLoop ∉ c.pendingFunctors) (hstate : c.state = .kDisconnected)
    (hreset : c.connect_ = true → .resetChannel ∉ c.pendingFunctors) (a : SocketAnswers) :
    Ends (c.startInLoop a) Quiet (¬ StartFault ·) := by
  refine (c.startInLoop_ends a).mono ?_ ?_
  · intro d hd
    exact hd.quiet hc htimers hstart
  · rintro e (rfl | ⟨rfl, hwrong⟩ | ⟨rfl, hconnect, hchannel⟩)
    · decide
    · exact absurd hstate hwrong
    · exact absurd (hc.reset_mem hstate hchannel) (hreset hconnect)

/-- A functor is taken from the queue. -/
theorem Quiet.dequeue (h : c.Quiet) {cb : ConnectorFunctor} (hcb : cb ≠ .resetChannel) :
    ({ c with pendingFunctors := c.pendingFunctors.erase cb } : Connector).Quiet :=
  ⟨h.account.dequeue hcb, h.timers, fun hmem => h.noStart (List.mem_of_mem_erase hmem)⟩

/-- **A step of a patient caller** fails in neither assertion and leaves the connector quiet. -/
theorem Quiet.step (h : c.Quiet) {l : Label} (hpossible : c.Possible l) (hpatient : c.Patient l) :
    Ends (c.step l) Quiet (¬ StartFault ·) := by
  cases l with
  | start isInLoopThread a =>
    obtain ⟨⟨rfl, hstate⟩, htimers, hreset⟩ := hpatient
    have hwanted : ({ c with connect_ := true } : Connector).Account :=
      h.account.congr ⟨rfl, rfl, rfl⟩ rfl rfl rfl
    exact attempt_quiet hwanted htimers h.noStart hstate (fun _ => hreset) a
  | stop =>
    have hunwanted : ({ c with connect_ := false } : Connector).Account :=
      h.account.congr ⟨rfl, rfl, rfl⟩ rfl rfl rfl
    refine ⟨hunwanted.queueInLoop (by decide), h.timers, ?_⟩
    intro hmem
    rcases List.mem_append.mp hmem with hold | hnew
    · exact h.noStart hold
    · simp at hnew
  | restart a => exact hpatient.1.elim
  | fire delay a =>
    have hdelay : delay ∈ c.timers := hpossible
    rcases h.timers with hnone | ⟨⟨d, hone⟩, hstate⟩
    · rw [hnone] at hdelay
      cases hdelay
    · have hnext : ({ c with timers := c.timers.erase delay } : Connector).Account :=
        h.account.congr ⟨rfl, rfl, rfl⟩ rfl rfl rfl
      rw [hone, List.mem_singleton] at hdelay
      have hempty : c.timers.erase delay = [] := by rw [hone, hdelay, List.erase_cons_head]
      exact attempt_quiet hnext hempty h.noStart hstate hpatient.2 a
  | functor cb a =>
    cases cb with
    | startInLoop => exact absurd hpossible h.noStart
    | stopInLoop =>
      refine (stopInLoop_ends _ a).mono ?_ fun _ he => he
      intro d hd
      exact hd.quiet (h.dequeue (by decide))
    | resetChannel =>
      refine ⟨h.account.resetChannel hpossible, h.timers, ?_⟩
      intro hmem
      exact h.noStart (List.mem_of_mem_erase hmem)
  | event revents a =>
    refine handleEvent_ends ?_ h a revents
    intro d d' hdone hd
    exact hdone.quiet hd

theorem quiet_init : init.Quiet := ⟨account_init, .inl rfl, by decide⟩

/-! ## An impatient one -/

/-- The same step with other answers of the system. -/
def Label.withAnswers (a : SocketAnswers) : Label → Label
  | .start isInLoopThread _ => .start isInLoopThread a
  | .stop => .stop
  | .restart _ => .restart a
  | .fire delay _ => .fire delay a
  | .functor cb _ => .functor cb a
  | .event revents _ => .event revents a

theorem startInLoop_channel (hstate : c.state = .kDisconnected) (hconnect : c.connect_ = true)
    (hchannel : c.channel ≠ none) :
    c.startInLoop .inProgress = .error (.assertion .connecting) := by
  rw [startInLoop, check_pos hstate, ok_bind, if_pos hconnect]
  exact connecting_error (c := c.opened) hchannel c.socket

theorem startInLoop_begins (hstate : c.state = .kDisconnected) (hconnect : c.connect_ = true)
    (hchannel : c.channel = none) :
    c.startInLoop .inProgress = .ok (c.opened.begun c.socket) := by
  rw [startInLoop, check_pos hstate, ok_bind, if_pos hconnect]
  exact connecting_eq (c := c.opened) hchannel c.socket

theorem startInLoop_busy (hstate : c.state ≠ .kDisconnected) (a : SocketAnswers) :
    c.startInLoop a = .error (.assertion .startInLoop) := by
  rw [startInLoop, check_neg hstate]
  rfl

/-- One step that fails. -/
theorem run_error {l : Label} {e : Fault} (hpossible : c.Possible l) (hallowed : c.StartStop l)
    (hstep : c.step l = .error e) : (system StartStop).Run c [l] (.error e) := by
  have hrun := Run.snoc (S := system StartStop) (.nil (s := c)) ⟨hpossible, hallowed⟩
  change Run _ c [l] (c.step l) at hrun
  rwa [hstep] at hrun

/-- A start that does not wait: it finds the channel, or the retry finds the new attempt. -/
theorem start_fails (h : c.Quiet) (hstate : c.state = .kDisconnected)
    (himpatient : ¬ (c.timers = [] ∧ .resetChannel ∉ c.pendingFunctors)) :
    ∃ ls e, StartFault e ∧
      (system StartStop).Run c (.start true .inProgress :: ls) (.error e) := by
  by_cases hchannel : c.channel = none
  · have hreset : .resetChannel ∉ c.pendingFunctors := by
      intro hmem
      exact h.account.channel_of_reset hmem hchannel
    have htimers : c.timers ≠ [] := fun hnone => himpatient ⟨hnone, hreset⟩
    obtain ⟨delay, rest, hdelay⟩ := List.exists_cons_of_ne_nil htimers
    have hstep : c.step (.start true .inProgress) =
        .ok (({ c with connect_ := true } : Connector).opened.begun c.socket) :=
      startInLoop_begins hstate rfl hchannel
    refine ⟨[.fire delay .inProgress], .assertion .startInLoop, .inr rfl, ?_⟩
    refine Run.cons ⟨trivial, rfl, hstate⟩ hstep (run_error ?_ trivial ?_)
    · change delay ∈ c.timers
      rw [hdelay]
      exact List.mem_cons_self
    · exact startInLoop_busy (fun hwrong => by cases hwrong) _
  · refine ⟨[], .assertion .connecting, .inl rfl, run_error trivial ⟨rfl, hstate⟩ ?_⟩
    exact startInLoop_channel hstate rfl hchannel

/-- A retry that does not wait finds the channel. -/
theorem fire_fails (h : c.Quiet) {delay : Nat} (hdelay : delay ∈ c.timers)
    (himpatient : ¬ (c.connect_ = true → .resetChannel ∉ c.pendingFunctors)) :
    (system StartStop).Run c [.fire delay .inProgress] (.error (.assertion .connecting)) := by
  rw [Classical.not_imp, not_not] at himpatient
  obtain ⟨hconnect, hreset⟩ := himpatient
  have hchannel := h.account.channel_of_reset hreset
  rcases h.timers with hnone | ⟨-, hstate⟩
  · rw [hnone] at hdelay
    cases hdelay
  · exact run_error hdelay trivial (startInLoop_channel hstate hconnect hchannel)

/-- **Patience is what it takes.** No run of a patient caller ends in one of the two assertions.
And where such a run has led, a step that does not wait can, for some answers of the system and
some steps after it, end in one. -/
theorem waits_exact {ls : List Label} {r : Checked Connector}
    (h : (system Patient).Run init ls r) :
    (∀ e, r = .error e → ¬ StartFault e) ∧
    ∀ c l, r = .ok c → c.Possible l → c.StartStop l → ¬ c.Waits l →
      ∃ a ls' e, StartFault e ∧
        (system StartStop).Run c (l.withAnswers a :: ls') (.error e) := by
  have hends : Ends r Quiet (¬ StartFault ·) := by
    refine h.ends quiet_init ?_
    intro d l hd hen
    exact hd.step hen.1 hen.2
  constructor
  · rintro e rfl
    exact hends
  · rintro c l rfl hpossible hallowed himpatient
    have hquiet : c.Quiet := hends
    cases l with
    | start isInLoopThread a =>
      obtain ⟨rfl, hstate⟩ := hallowed
      exact ⟨_, start_fails hquiet hstate himpatient⟩
    | fire delay a =>
      exact ⟨_, [], _, .inl rfl, fire_fails hquiet hpossible himpatient⟩
    | _ => exact absurd trivial himpatient

/-- After a stop the channel is still to be destroyed. -/
theorem waits_exact_stopped :
    ∃ c, (system Patient).Run init [.start true .inProgress, .stop,
        .functor .stopInLoop .inProgress] (.ok c) ∧
      ∃ a ls e, StartFault e ∧ (system StartStop).Run c (.start true a :: ls) (.error e) := by
  obtain ⟨c, hrun, hstate, himpatient⟩ := run_of_reaches (S := system Patient)
    (P := fun c => c.state = .kDisconnected ∧ ¬ c.Waits (.start true .inProgress))
    (show reaches _ init [.start true .inProgress, .stop,
      .functor .stopInLoop .inProgress] _ = true by decide)
  exact ⟨c, hrun, (waits_exact hrun).2 c (.start true .inProgress) rfl trivial ⟨rfl, hstate⟩
    himpatient⟩

end Connector

end ClyServer.Net
