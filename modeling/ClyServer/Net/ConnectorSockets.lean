import ClyServer.Net.ConnectorSteps
import Mathlib.Data.List.Nodup

/-!
# Whose sockets they are

A socket of the connector is released once, by being closed or by being handed on, and
until then it is the one of the channel. The account is kept as a count: every socket
that was created is among the closed, the handed and the held ones, together as often as
it was created, which is once. What makes it hold is that a channel is replaced only after
its destruction has run: a queued `resetChannel` and an attempt under way exclude each
other, or the functor would destroy the channel of the next attempt.
-/

namespace ClyServer.Net

open ClyServer.Lib ClyServer.Lib.System

namespace Connector

variable {c c' : Connector}

/-- The socket that is not released: the one being connected. -/
def held (c : Connector) : Option Int :=
  if c.state = .kConnecting then c.channel.map Channel.fd else none

theorem held_of_connecting {channel : Channel} (hstate : c.state = .kConnecting)
    (hchannel : c.channel = some channel) : c.held = some channel.fd := by
  rw [held, if_pos hstate, hchannel]
  rfl

theorem held_of_ne (hstate : c.state ≠ .kConnecting) : c.held = none := if_neg hstate

/-- The sockets of a connector: each released at most once, and those that are not are the one
of the channel while it is connecting, and none otherwise. -/
structure Owned (c : Connector) : Prop where
  released_once : (c.closed ++ c.handed).Nodup
  released_created : ∀ x ∈ c.closed ++ c.handed, x ∈ c.created
  unreleased_iff : ∀ x, (x ∈ c.created ∧ x ∉ c.closed ++ c.handed) ↔
    c.state = .kConnecting ∧ ∃ channel, c.channel = some channel ∧ channel.fd = x
  channel_connecting : c.state = .kConnecting → c.channel ≠ none

/-- The account behind it. -/
structure Account (c : Connector) : Prop where
  created_lt : ∀ x ∈ c.created, x < c.created.length
  created_nodup : c.created.Nodup
  balance : ∀ x, c.created.count x =
    c.closed.count x + c.handed.count x + c.held.toList.count x
  channel_connecting : c.state = .kConnecting → c.channel ≠ none
  resets : c.pendingFunctors.count .resetChannel =
    if c.state ≠ .kConnecting ∧ c.channel ≠ none then 1 else 0

theorem Account.owned (h : c.Account) : c.Owned := by
  have hone : ∀ x, c.created.count x ≤ 1 := List.nodup_iff_count_le_one.mp h.created_nodup
  refine ⟨?_, ?_, ?_, h.channel_connecting⟩
  · rw [List.nodup_iff_count_le_one]
    intro x
    have hx := h.balance x
    have := hone x
    rw [List.count_append]
    omega
  · intro x hx
    have hbalance := h.balance x
    rw [← List.count_pos_iff, List.count_append] at hx
    rw [← List.count_pos_iff]
    omega
  · intro x
    have hbalance := h.balance x
    have := hone x
    have hheld : x ∈ c.held.toList ↔
        c.state = .kConnecting ∧ ∃ channel, c.channel = some channel ∧ channel.fd = x := by
      unfold held
      split
      · rename_i hstate
        simp [hstate]
      · rename_i hstate
        simp [hstate]
    rw [← hheld, ← List.count_pos_iff, ← List.count_pos_iff, ← List.count_pos_iff,
      List.count_append]
    omega

theorem account_init : init.Account where
  created_lt := by simp [init]
  created_nodup := List.nodup_nil
  balance := by simp [init, held]
  channel_connecting := by simp [init]
  resets := rfl

/-- A socket that was created is a new one. -/
theorem Account.opened_nodup (h : c.Account) : c.opened.created.Nodup := by
  refine List.nodup_append.mpr ⟨h.created_nodup, List.nodup_singleton _, ?_⟩
  intro x hx y hy
  rw [List.mem_singleton.mp hy]
  have := h.created_lt x hx
  unfold socket
  omega

theorem Account.opened_lt (h : c.Account) :
    ∀ x ∈ c.opened.created, x < c.opened.created.length := by
  intro x hx
  have hlen : c.opened.created.length = c.created.length + 1 := List.length_append
  rw [hlen]
  rcases List.mem_append.mp hx with hold | hnew
  · have := h.created_lt x hold
    omega
  · rw [List.mem_singleton.mp hnew, socket]
    omega

/-- The end of an attempt that was under way: its socket is released, and its channel waits to be
destroyed. -/
theorem Account.release (h : c.Account) {channel : Channel} (hstate : c.state = .kConnecting)
    (hchannel : c.channel = some channel) (hcreated : c'.created = c.created)
    (hreleased : ∀ x, c'.closed.count x + c'.handed.count x =
      c.closed.count x + c.handed.count x + [channel.fd].count x)
    (hstate' : c'.state ≠ .kConnecting) (hchannel' : c'.channel ≠ none)
    (hpending : c'.pendingFunctors = c.pendingFunctors ++ [.resetChannel]) : c'.Account where
  created_lt := hcreated ▸ h.created_lt
  created_nodup := hcreated ▸ h.created_nodup
  balance := by
    intro x
    rw [hcreated, h.balance x, hreleased x, held_of_ne hstate',
      held_of_connecting hstate hchannel]
    rfl
  channel_connecting := fun hconnecting => absurd hconnecting hstate'
  resets := by
    have hresets := h.resets
    rw [if_neg (by simp [hstate])] at hresets
    rw [hpending, List.count_append, hresets, if_pos ⟨hstate', hchannel'⟩]
    rfl

/-- An attempt that begins keeps the account. -/
theorem Attempts.account (h : Attempts c c') (hc : c.Account) : c'.Account := by
  cases h with
  | idle => exact hc
  | began hstate hconnect hchannel =>
    have hbalance := hc.balance
    rw [held_of_ne (by rw [hstate]; decide)] at hbalance
    refine ⟨hc.opened_lt, hc.opened_nodup, ?_, fun _ => Option.some_ne_none _, ?_⟩
    · intro x
      have hnew : (c.created ++ [c.socket]).count x = c.created.count x + [c.socket].count x :=
        List.count_append
      exact hnew.trans (congrArg (· + [c.socket].count x) (hbalance x))
    · have hresets := hc.resets
      rw [if_neg (by simp [hchannel])] at hresets
      exact hresets
  | refused hstate hconnect =>
    have hbalance := hc.balance
    rw [held_of_ne (by rw [hstate]; decide)] at hbalance
    refine ⟨hc.opened_lt, hc.opened_nodup, ?_, fun hconnecting => (by cases hconnecting), ?_⟩
    · intro x
      have hx := hbalance x
      change (c.created ++ [c.socket]).count x =
        (c.closed ++ [c.socket]).count x + c.handed.count x + (none : Option Int).toList.count x
      rw [List.count_append, List.count_append]
      omega
    · have hresets := hc.resets
      rw [hstate] at hresets
      exact hresets

/-- So does one that ends. -/
theorem Finishes.account (h : Finishes c c') (hc : c.Account) : c'.Account := by
  cases h with
  | idle => exact hc
  | failed channel hstate hchannel =>
    refine hc.release hstate hchannel rfl ?_ (fun h => by cases h) (Option.some_ne_none _) rfl
    intro x
    change (c.closed ++ [channel.fd]).count x + c.handed.count x = _
    rw [List.count_append]
    omega
  | handed channel hstate hchannel hconnect =>
    refine hc.release hstate hchannel rfl ?_ (fun h => by cases h) (Option.some_ne_none _) rfl
    intro x
    change c.closed.count x + (c.handed ++ [channel.fd]).count x = _
    rw [List.count_append]
    omega
  | dropped channel hstate hchannel hconnect =>
    refine hc.release hstate hchannel rfl ?_ (fun h => by cases h) (Option.some_ne_none _) rfl
    intro x
    change (c.closed ++ [channel.fd]).count x + c.handed.count x = _
    rw [List.count_append]
    omega

/-- What is not on the account. -/
theorem Account.congr (h : c.Account) (hsockets : c'.created = c.created ∧ c'.closed = c.closed ∧
      c'.handed = c.handed) (hstate : c'.state = c.state) (hchannel : c'.channel = c.channel)
    (hresets : c'.pendingFunctors.count .resetChannel =
      c.pendingFunctors.count .resetChannel) : c'.Account := by
  obtain ⟨hcreated, hclosed, hhanded⟩ := hsockets
  have hheld : c'.held = c.held := by rw [held, held, hstate, hchannel]
  refine ⟨hcreated ▸ h.created_lt, hcreated ▸ h.created_nodup, ?_, ?_, ?_⟩
  · rw [hcreated, hclosed, hhanded, hheld]
    exact h.balance
  · rw [hstate, hchannel]
    exact h.channel_connecting
  · rw [hresets, hstate, hchannel]
    exact h.resets

theorem Account.queueInLoop (h : c.Account) {cb : ConnectorFunctor} (hcb : cb ≠ .resetChannel) :
    (c.queueInLoop cb).Account := by
  refine h.congr ⟨rfl, rfl, rfl⟩ rfl rfl ?_
  change (c.pendingFunctors ++ [cb]).count .resetChannel = _
  rw [List.count_append, List.count_singleton, if_neg (by simpa using hcb), Nat.add_zero]

/-- A functor that is not `resetChannel` is taken from the queue. -/
theorem Account.dequeue (h : c.Account) {cb : ConnectorFunctor} (hcb : cb ≠ .resetChannel) :
    ({ c with pendingFunctors := c.pendingFunctors.erase cb } : Connector).Account := by
  refine h.congr ⟨rfl, rfl, rfl⟩ rfl rfl ?_
  exact List.count_erase_of_ne hcb.symm

/-- Where no attempt is under way, before and after, only the destructions matter. -/
theorem Account.idle (h : c.Account) (hsockets : c'.created = c.created ∧ c'.closed = c.closed ∧
      c'.handed = c.handed) (hstate : c.state ≠ .kConnecting) (hstate' : c'.state ≠ .kConnecting)
    (hresets : c'.pendingFunctors.count .resetChannel = if c'.channel ≠ none then 1 else 0) :
    c'.Account := by
  obtain ⟨hcreated, hclosed, hhanded⟩ := hsockets
  have hheld : c'.held = c.held := by rw [held_of_ne hstate, held_of_ne hstate']
  refine ⟨hcreated ▸ h.created_lt, hcreated ▸ h.created_nodup, ?_,
    fun hconnecting => absurd hconnecting hstate', ?_⟩
  · rw [hcreated, hclosed, hhanded, hheld]
    exact h.balance
  · rw [hresets]
    simp only [ne_eq, hstate', not_false_eq_true, true_and]

/-- The destruction of a channel: no attempt is under way, so none loses its channel. -/
theorem Account.resetChannel (h : c.Account) (hpending : .resetChannel ∈ c.pendingFunctors) :
    ({ c with pendingFunctors := c.pendingFunctors.erase .resetChannel } :
      Connector).resetChannel.Account := by
  have hresets := h.resets
  have hpos := List.count_pos_iff.mpr hpending
  split at hresets
  · rename_i hidle
    refine h.idle ⟨rfl, rfl, rfl⟩ hidle.1 hidle.1 ?_
    change (c.pendingFunctors.erase .resetChannel).count .resetChannel = 0
    rw [List.count_erase_self, hresets]
  · omega

/-- **Every step keeps the account.** -/
theorem Account.step (h : c.Account) {l : Label} (hpossible : c.Possible l) (howner : c.Owner l) :
    Ends (c.step l) Account fun _ => True := by
  have hattempt : ∀ (d : Connector) (a : SocketAnswers), d.Account →
      Ends (d.startInLoop a) Account fun _ => True := by
    intro d a hd
    exact (d.startInLoop_ends a).mono (fun _ hdone => hdone.account hd) fun _ _ => trivial
  cases l with
  | start isInLoopThread a =>
    have hwanted : ({ c with connect_ := true } : Connector).Account :=
      h.congr ⟨rfl, rfl, rfl⟩ rfl rfl rfl
    cases isInLoopThread with
    | true => exact hattempt _ a hwanted
    | false => exact hwanted.queueInLoop (by decide)
  | stop =>
    have hunwanted : ({ c with connect_ := false } : Connector).Account :=
      h.congr ⟨rfl, rfl, rfl⟩ rfl rfl rfl
    exact hunwanted.queueInLoop (by decide)
  | restart a =>
    have hconnected : c.state = .kConnected := howner
    have hidle : c.state ≠ .kConnecting := by
      rw [hconnected]
      decide
    have hresets := h.resets
    simp only [ne_eq, hidle, not_false_eq_true, true_and] at hresets
    exact hattempt _ a (h.idle ⟨rfl, rfl, rfl⟩ hidle (fun hstate => by cases hstate) hresets)
  | fire delay a => exact hattempt _ a (h.congr ⟨rfl, rfl, rfl⟩ rfl rfl rfl)
  | functor cb a =>
    cases cb with
    | startInLoop => exact hattempt _ a (h.dequeue (by decide))
    | stopInLoop =>
      refine (stopInLoop_ends _ a).mono ?_ fun _ _ => trivial
      intro d hdone
      exact hdone.account (h.dequeue (by decide))
    | resetChannel => exact h.resetChannel hpossible
  | event revents a =>
    refine (handleEvent_ends ?_ h a revents).mono (fun _ hd => hd) fun _ _ => trivial
    intro d d' hdone hd
    exact hdone.account hd

/-- **Ownership.** In every state a connector reaches, in whatever order its owner, the loop and
the network act on it, a socket was released at most once, and the only one that was not is the
one of the channel, while it is connecting. -/
theorem sockets_owned {ls : List Label} {c : Connector}
    (h : (system Owner).Run init ls (.ok c)) : c.Owned := by
  have hends : Ends (.ok c) Account fun _ : Fault => True := by
    refine h.ends account_init ?_
    intro d l hd hen
    exact hd.step hen.1 hen.2
  exact Account.owned hends

/-- A socket that is connected and handed on while a stop is queued behind it. -/
theorem sockets_owned_handed :
    ∃ c, (system Owner).Run init [.start true .inProgress, .event POLLOUT .inProgress, .stop,
        .functor .resetChannel .inProgress, .functor .stopInLoop .inProgress] (.ok c) ∧
      c.handed = [0] ∧ c.Owned := by
  obtain ⟨c, hrun, hhanded⟩ :=
    System.run_of_reaches (S := system Owner) (P := fun c => c.handed = [0])
      (show System.reaches _ init [.start true .inProgress, .event POLLOUT .inProgress, .stop,
        .functor .resetChannel .inProgress, .functor .stopInLoop .inProgress] _ = true by decide)
  exact ⟨c, hrun, hhanded, sockets_owned hrun⟩

end Connector

end ClyServer.Net
