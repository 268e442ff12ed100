import ClyServer.Lib.System
import ClyServer.Lib.Tables
import ClyServer.Net.PollPoller
import Mathlib.Data.Set.Function

/-!
# The three structures of the poller agree

`Consistent` is the agreement: the map sends descriptors to channels that have
them, the positions of the mapped channels are those of the array, one each, and
the entry at a channel's position describes the channel. `pollSet_consistent`
says that any calls its callers may make, in any order, keep it, are never out of
range and touch no other channel.

What a caller may do depends on what it did before, so a run carries the phase
of each channel: not yet added, registered, removed.
-/

namespace ClyServer.Net

open ClyServer.Lib

variable {κ : Type}

/-- The entry describes the channel: its events, and its descriptor or, for a
channel that wants nothing, the negated form that poll(2) skips. -/
structure PollFd.Describes (pfd : PollFd) (ch : Channel) : Prop where
  fd : pfd.fd = ch.fd ∨ pfd.fd = -ch.fd - 1 ∧ ch.events = 0
  events : pfd.events.signExtend 32 = ch.events

namespace PollSet

/-- The channel is registered: the map has it under its descriptor. -/
def Registered (s : PollSet κ) (c : κ) : Prop :=
  s.poller.channels (s.channel c).fd = some c

/-- The entry of `pollfds_` at the channel's position. -/
def entry (s : PollSet κ) (c : κ) : Option PollFd :=
  s.poller.pollfds[(s.channel c).index.toNat]?

/-- The map, the array and the positions agree. -/
structure Consistent (s : PollSet κ) : Prop where
  mapped : ∀ fd c, s.poller.channels fd = some c → (s.channel c).fd = fd
  positions : Set.BijOn (fun c => (s.channel c).index) {c | s.Registered c}
    {i | 0 ≤ i ∧ i < (s.poller.pollfds.length : Int)}
  described : ∀ c, s.Registered c → ∃ pfd, s.entry c = some pfd ∧ pfd.Describes (s.channel c)

/-- Nothing about the channel's registration or interest differs. -/
structure SameFor (s s' : PollSet κ) (c : κ) : Prop where
  registered : s'.Registered c ↔ s.Registered c
  events : (s'.channel c).events = (s.channel c).events
  entry : s'.Registered c → s'.entry c = s.entry c

end PollSet

/-! ## Runs -/

/-- How far a channel has come. -/
inductive Phase where
  | fresh | registered | removed
  deriving DecidableEq, Repr

/-- The changes of interest a channel's owner can ask for. -/
inductive Interest where
  | enableReading | disableReading | enableWriting | disableWriting | disableAll
  deriving DecidableEq, Repr

def Interest.change : Interest → Events → Events
  | enableReading => Channel.enableReading
  | disableReading => Channel.disableReading
  | enableWriting => Channel.enableWriting
  | disableWriting => Channel.disableWriting
  | disableAll => Channel.disableAll

/-- A call on a channel. -/
inductive PollOp (κ : Type) where
  | interest (c : κ) (op : Interest)
  | remove (c : κ)
  deriving DecidableEq, Repr

def PollOp.channel : PollOp κ → κ
  | interest c _ => c
  | remove c => c

/-- A poll set, and what its callers did so far. -/
structure Tracked (κ : Type) where
  set : PollSet κ
  phase : κ → Phase

namespace Tracked

/-- No call yet: an empty poller, and the channels as they were constructed. -/
def start (fds : κ → Nat) : Tracked κ where
  set := ⟨fun c => .init (fds c), ⟨[], fun _ => none⟩⟩
  phase := fun _ => .fresh

/-- What callers may do: change the interest of a channel that is registered, or
of a new one whose descriptor no registered channel has; remove a registered
channel. -/
def MayCall (t : Tracked κ) : PollOp κ → Prop
  | .interest c _ => t.phase c = .registered ∨ t.phase c = .fresh ∧
      ∀ d, t.phase d = .registered → (t.set.channel d).fd ≠ (t.set.channel c).fd
  | .remove c => t.phase c = .registered

def call [DecidableEq κ] (t : Tracked κ) : PollOp κ → Checked (Tracked κ)
  | .interest c op => do
    let set ← t.set.interest c op.change
    return ⟨set, Function.update t.phase c .registered⟩
  | .remove c => do
    let set ← t.set.remove c
    return ⟨set, Function.update t.phase c .removed⟩

/-- The poller driven by its callers. -/
def system (κ : Type) [DecidableEq κ] : System (Tracked κ) (PollOp κ) Fault where
  enabled := MayCall
  step := call

end Tracked

/-! ## Interest sets -/

/-- The interest sets the five calls can produce. -/
def interestSets : List Events := [0, 1, 4, 5]

theorem mem_interestSets_change {e : Events} (h : e ∈ interestSets) (op : Interest) :
    op.change e ∈ interestSets := by
  simp only [interestSets, List.mem_cons, List.not_mem_nil, or_false] at h
  rcases h with rfl | rfl | rfl | rfl <;> cases op <;> decide

/-- Through a `short` and back, an interest set is unchanged. -/
theorem signExtend_interestSet {e : Events} (h : e ∈ interestSets) :
    (e.setWidth 16).signExtend 32 = e := by
  simp only [interestSets, List.mem_cons, List.not_mem_nil, or_false] at h
  rcases h with rfl | rfl | rfl | rfl <;> decide

namespace PollSet

/-! ## The agreement, by registered channels

`Agrees s R` is `Consistent` with the registered channels named: easier to carry
through an operation, which changes `R` by one channel. -/

structure Agrees (s : PollSet κ) (R : κ → Prop) : Prop where
  keyed : Keyed s.poller.channels R (fun c => (s.channel c).fd)
  nonneg : ∀ c, 0 ≤ (s.channel c).fd
  masks : ∀ c, (s.channel c).events ∈ interestSets
  dense : Dense s.poller.pollfds R (fun c => (s.channel c).index)
    (fun c pfd => pfd.Describes (s.channel c))

namespace Agrees

variable {s : PollSet κ} {R : κ → Prop}

theorem registered_iff (h : s.Agrees R) (c : κ) : s.Registered c ↔ R c := by
  rw [Registered, h.keyed]
  exact ⟨fun hc => hc.1, fun hc => ⟨hc, rfl⟩⟩

theorem consistent (h : s.Agrees R) : s.Consistent where
  mapped := fun fd c hc => ((h.keyed fd c).mp hc).2
  positions := by
    refine ⟨fun c hc => ?_, fun c hc d hd => ?_, fun i hi => ?_⟩
    · have hR := (h.registered_iff c).mp hc
      have hlower := h.dense.lower c hR
      have hlt := h.dense.pos_lt hR
      exact ⟨hlower, by dsimp only at hlower hlt ⊢; omega⟩
    · exact h.dense.inj c d ((h.registered_iff c).mp hc) ((h.registered_iff d).mp hd)
    · obtain ⟨hlo, hhi⟩ := hi
      obtain ⟨c, hc, hidx⟩ := h.dense.onto i.toNat (by omega)
      exact ⟨c, (h.registered_iff c).mpr hc, by dsimp only at hidx ⊢; omega⟩
  described := fun c hc => h.dense.described c ((h.registered_iff c).mp hc)

end Agrees

theorem agrees_start (fds : κ → Nat) : (Tracked.start fds).set.Agrees (fun _ => False) where
  keyed := .nil
  nonneg := fun _ => Int.natCast_nonneg _
  masks := fun _ => List.mem_cons_self
  dense := .nil

/-- The entry at the end belongs to a channel, and the descriptor in it, decoded,
leads to that channel. -/
theorem Agrees.channelAtEnd {s : PollSet κ} {R : κ → Prop} {c : κ} (h : s.Agrees R) (hc : R c)
    (hlt : (s.channel c).index.toNat < s.poller.pollfds.length - 1) :
    ∃ d last, R d ∧ d ≠ c ∧ (s.channel d).index.toNat = s.poller.pollfds.length - 1 ∧
      s.poller.pollfds[s.poller.pollfds.length - 1]? = some last ∧
      Function.update s.poller.channels (s.channel c).fd none
        (if last.fd < 0 then -last.fd - 1 else last.fd) = some d := by
  obtain ⟨d, hd, hdidx⟩ := h.dense.onto (s.poller.pollfds.length - 1) (by omega)
  obtain ⟨last, hlast, hdesc⟩ := h.dense.described d hd
  have hpos : (s.channel d).index.toNat = s.poller.pollfds.length - 1 := by omega
  have hdc : d ≠ c := by
    rintro rfl
    omega
  have hfd : (if last.fd < 0 then -last.fd - 1 else last.fd) = (s.channel d).fd := by
    have hnonneg := h.nonneg d
    rcases hdesc.fd with hfd | ⟨hfd, _⟩
    · rw [hfd, if_neg (Int.not_lt.mpr hnonneg)]
    · rw [hfd, if_pos (by omega)]
      omega
  refine ⟨d, last, hd, hdc, hpos, hpos ▸ hlast, ?_⟩
  rw [hfd]
  exact (h.keyed.erase hc).find ⟨hd, hdc⟩

section Operations

variable [DecidableEq κ] {s : PollSet κ} {R : κ → Prop} {c : κ}

theorem pollfdAt_of_some {pollfds : List PollFd} {idx : Int} {pfd : PollFd} (hidx : 0 ≤ idx)
    (h : pollfds[idx.toNat]? = some pfd) : pollfdAt pollfds idx = .ok pfd := by
  simp only [pollfdAt, if_pos hidx, h, pure_eq_ok]

/-- An entry made for a channel, with its descriptor as it is or negated when the
channel wants nothing, describes it. -/
theorem describes_of {ch : Channel} {pfd : PollFd} (hmask : ch.events ∈ interestSets)
    (hfd : pfd.fd = ch.fd ∨ pfd.fd = -ch.fd - 1 ∧ ch.events = 0)
    (hevents : pfd.events = ch.events.setWidth 16) : pfd.Describes ch := by
  refine ⟨hfd, ?_⟩
  rw [hevents]
  exact signExtend_interestSet hmask

@[simp] theorem setChannel_self (s : PollSet κ) (c : κ) (ch : Channel) :
    (s.setChannel c ch).channel c = ch := Function.update_self ..

@[simp] theorem setChannel_of_ne (s : PollSet κ) {c d : κ} (h : d ≠ c) (ch : Channel) :
    (s.setChannel c ch).channel d = s.channel d := Function.update_of_ne h ..

@[simp] theorem setChannel_poller (s : PollSet κ) (c : κ) (ch : Channel) :
    (s.setChannel c ch).poller = s.poller := rfl

omit [DecidableEq κ] in
/-- A field that a change to one channel leaves alone is the same in all of them. -/
theorem field_eq {α : Type} (f : Channel → α) {s' : PollSet κ}
    (hself : f (s'.channel c) = f (s.channel c))
    (hother : ∀ d, d ≠ c → s'.channel d = s.channel d) (d : κ) :
    f (s'.channel d) = f (s.channel d) := by
  by_cases hd : d = c
  · rw [hd, hself]
  · rw [hother d hd]

theorem interest_eq (s : PollSet κ) (c : κ) (change : Events → Events) :
    s.interest c change = (s.setChannel c { s.channel c with
      events := change (s.channel c).events, addedToLoop := true }).updateChannel c := by
  simp [interest, update, setChannel]

/-- What an operation on `c` that leaves `R'` registered does: the agreement is
kept, and of the other channels only the positions change. -/
structure Outcome (s s' : PollSet κ) (c : κ) (R' : κ → Prop) : Prop where
  agrees : s'.Agrees R'
  fds : ∀ d, (s'.channel d).fd = (s.channel d).fd
  events : ∀ d, d ≠ c → (s'.channel d).events = (s.channel d).events
  entries : ∀ d, d ≠ c → R' d → s'.entry d = s.entry d
  index : ∀ d, d ≠ c → ¬ R' d → (s'.channel d).index = (s.channel d).index

/-- The first change of interest: the channel is given the next position. -/
theorem interest_new {change : Events → Events} (h : s.Agrees R) (hnew : ¬ R c)
    (hidx : (s.channel c).index < 0)
    (hfd : ∀ d, R d → (s.channel d).fd ≠ (s.channel c).fd)
    (hmask : change (s.channel c).events ∈ interestSets) :
    ∃ s', s.interest c change = .ok s' ∧ s.Outcome s' c (fun d => d = c ∨ R d) := by
  have hne : ∀ d, R d → d ≠ c := fun d hd heq => hnew (heq ▸ hd)
  obtain ⟨s', hs', hfds, hevents, hindex, hother, hpollfds, hmap⟩ :
      ∃ s', s.interest c change = .ok s' ∧
      (s'.channel c).fd = (s.channel c).fd ∧
      (s'.channel c).events = change (s.channel c).events ∧
      (s'.channel c).index = s.poller.pollfds.length ∧
      (∀ d, d ≠ c → s'.channel d = s.channel d) ∧
      s'.poller.pollfds = s.poller.pollfds ++
        [⟨(s.channel c).fd, (change (s.channel c).events).setWidth 16, 0⟩] ∧
      s'.poller.channels = Function.update s.poller.channels (s.channel c).fd (some c) := by
    rw [interest_eq, updateChannel, setChannel_self, if_pos hidx]
    exact ⟨_, rfl, by simp [setChannel], by simp [setChannel], by simp [setChannel],
      fun d hd => by simp [setChannel, hd], rfl, rfl⟩
  have hfds' : ∀ d, (s'.channel d).fd = (s.channel d).fd := field_eq Channel.fd hfds hother
  refine ⟨s', hs', ⟨?_, fun d => ?_, fun d => ?_, ?_⟩, hfds', fun d hd => by rw [hother d hd],
    fun d hd hR => ?_, fun d hd _ => by rw [hother d hd]⟩
  · rw [hmap]
    exact (h.keyed.insert hfd).congr hfds'
  · rw [hfds']
    exact h.nonneg d
  · by_cases hd : d = c
    · rw [hd, hevents]
      exact hmask
    · rw [hother d hd]
      exact h.masks d
  · rw [hpollfds]
    refine Dense.push ?_ hindex (describes_of ?_ (.inl hfds.symm) (by rw [hevents]))
    · refine h.dense.congr (fun d hd => by rw [hother d (hne d hd)]) fun d pfd hd hdesc => ?_
      rw [hother d (hne d hd)]
      exact hdesc
    · rw [hevents]
      exact hmask
  · have hRd : R d := hR.resolve_left hd
    rw [entry, hpollfds, hother d hd, List.getElem?_append_left (h.dense.pos_lt hRd)]
    rfl

/-- A later change of interest: the channel's entry is rewritten. -/
theorem interest_registered {change : Events → Events} (h : s.Agrees R) (hc : R c)
    (hmask : change (s.channel c).events ∈ interestSets) :
    ∃ s', s.interest c change = .ok s' ∧ s.Outcome s' c R := by
  have hlower : 0 ≤ (s.channel c).index := h.dense.lower c hc
  obtain ⟨pfd₀, hpfd₀, _⟩ := h.dense.described c hc
  obtain ⟨s', pfd, hs', hchan, hother, hpollfds, hmap, hpfdfd, hpfdev⟩ :
      ∃ s' pfd, s.interest c change = .ok s' ∧
      s'.channel c = { s.channel c with
        events := change (s.channel c).events, addedToLoop := true } ∧
      (∀ d, d ≠ c → s'.channel d = s.channel d) ∧
      s'.poller.pollfds = s.poller.pollfds.set (s.channel c).index.toNat pfd ∧
      s'.poller.channels = s.poller.channels ∧
      (pfd.fd = (s.channel c).fd ∨
        pfd.fd = -(s.channel c).fd - 1 ∧ change (s.channel c).events = 0) ∧
      pfd.events = (change (s.channel c).events).setWidth 16 := by
    rw [interest_eq, updateChannel, setChannel_self, if_neg (Int.not_lt.mpr hlower),
      setChannel_poller, pollfdAt_of_some hlower hpfd₀]
    refine ⟨_, _, rfl, by simp, fun d hd => by simp [hd], rfl, rfl, ?_, rfl⟩
    by_cases hnone : change (s.channel c).events = 0
    · exact .inr ⟨if_pos (Channel.isNoneEvent_iff.mpr hnone), hnone⟩
    · exact .inl (if_neg fun hevents => hnone (Channel.isNoneEvent_iff.mp hevents))
  have hfds : ∀ d, (s'.channel d).fd = (s.channel d).fd :=
    field_eq Channel.fd (by rw [hchan]) hother
  have hindex : ∀ d, (s'.channel d).index = (s.channel d).index :=
    field_eq Channel.index (by rw [hchan]) hother
  refine ⟨s', hs', ⟨?_, fun d => ?_, fun d => ?_, ?_⟩, hfds, fun d hd => by rw [hother d hd],
    fun d hd hR => ?_, fun d _ _ => hindex d⟩
  · rw [hmap]
    exact h.keyed.congr hfds
  · rw [hfds]
    exact h.nonneg d
  · by_cases hd : d = c
    · rw [hd, hchan]
      exact hmask
    · rw [hother d hd]
      exact h.masks d
  · rw [hpollfds]
    refine (h.dense.set hc ?_ fun d pfd' hd _ hdesc => ?_).congr (fun d _ => hindex d)
      fun _ _ _ hdesc => hdesc
    · apply describes_of
      · rw [hchan]
        exact hmask
      · rw [hchan]
        exact hpfdfd
      · rw [hchan]
        exact hpfdev
    · rw [hother d hd]
      exact hdesc
  · rw [entry, hpollfds, hindex, List.getElem?_set_ne (h.dense.pos_ne hc hR hd).symm]
    rfl

/-- Removal: the last entry fills the gap, and its channel learns of it. -/
theorem removeChannel_registered (h : s.Agrees R) (hc : R c) :
    ∃ s', s.removeChannel c = .ok s' ∧ s.Outcome s' c (fun d => R d ∧ d ≠ c) := by
  have hlower : 0 ≤ (s.channel c).index := h.dense.lower c hc
  have hlen : (s.channel c).index.toNat < s.poller.pollfds.length := h.dense.pos_lt hc
  obtain ⟨pfd, hpfd, _⟩ := h.dense.described c hc
  by_cases hend : (s.channel c).index.toNat = s.poller.pollfds.length - 1
  · refine ⟨{ s with poller := ⟨s.poller.pollfds.dropLast,
        Function.update s.poller.channels (s.channel c).fd none⟩ }, ?_,
      ⟨h.keyed.erase hc, h.nonneg, h.masks, h.dense.pop hc hend⟩, fun _ => rfl, fun _ _ => rfl,
      fun d hdc hR => ?_, fun _ _ _ => rfl⟩
    · simp only [removeChannel, pollfdAt_of_some hlower hpfd, ok_bind, if_pos hend, pure_eq_ok]
    · exact h.dense.getElem?_pop hc hend hR.1 hdc
  · have hlt : (s.channel c).index.toNat < s.poller.pollfds.length - 1 := by omega
    obtain ⟨d, last, hd, hdc, hpos, hlast, hfind⟩ := h.channelAtEnd hc hlt
    have hback : pollfdAt s.poller.pollfds (s.poller.pollfds.length - 1) = .ok last := by
      apply pollfdAt_of_some (by omega)
      rw [← hlast]
      congr 1
      omega
    let s' := s.setChannel d { s.channel d with index := (s.channel c).index }
    have hother : ∀ e, e ≠ d → s'.channel e = s.channel e := fun e he => setChannel_of_ne s he _
    have hself : s'.channel d = { s.channel d with index := (s.channel c).index } :=
      setChannel_self ..
    have hfds : ∀ e, (s'.channel e).fd = (s.channel e).fd :=
      field_eq Channel.fd (by rw [hself]) hother
    have hevents : ∀ e, (s'.channel e).events = (s.channel e).events :=
      field_eq Channel.events (by rw [hself]) hother
    have hmoved : (s'.channel d).index = (s.channel c).index := by rw [hself]
    have hstay : ∀ e, e ≠ d → (s'.channel e).index = (s.channel e).index :=
      fun e he => by rw [hother e he]
    refine ⟨{ s' with poller := ⟨(iterSwap s.poller.pollfds (s.channel c).index.toNat pfd
        last).dropLast, Function.update s.poller.channels (s.channel c).fd none⟩ }, ?_,
      ⟨(h.keyed.erase hc).congr hfds, fun e => ?_, fun e => ?_, ?_⟩, hfds, fun e _ => hevents e,
      fun e hec hR => ?_, fun e hec hR => ?_⟩
    · simp only [removeChannel, pollfdAt_of_some hlower hpfd, ok_bind, if_neg hend, hback, hfind,
        pure_eq_ok]
      rfl
    · exact (hfds e).symm ▸ h.nonneg e
    · exact (hevents e).symm ▸ h.masks e
    · refine (h.dense.fill hc hd hlt hpos hlast hmoved hstay).congr (fun _ _ => rfl)
        fun e pfd' _ hdesc => ⟨?_, ?_⟩
      · exact (hfds e).symm ▸ (hevents e).symm ▸ hdesc.fd
      · exact (hevents e).symm ▸ hdesc.events
    · exact h.dense.getElem?_fill hc hd hlt hpos hlast hmoved hstay hR.1 hec
    · rw [hother e]
      rintro rfl
      exact hR ⟨hd, hec⟩

/-- The agreement does not see `addedToLoop_`. -/
theorem Agrees.setAdded (h : s.Agrees R) (c : κ) (added : Bool) :
    (s.setChannel c { s.channel c with addedToLoop := added }).Agrees R := by
  have hsame : ∀ d, ∃ b, (s.setChannel c { s.channel c with addedToLoop := added }).channel d =
      { s.channel d with addedToLoop := b } := fun d => by
    by_cases hd : d = c
    · subst hd
      exact ⟨added, setChannel_self ..⟩
    · exact ⟨_, setChannel_of_ne s hd _⟩
  refine ⟨h.keyed.congr fun d => ?_, fun d => ?_, fun d => ?_,
    h.dense.congr (fun d _ => ?_) fun d pfd _ hdesc => ?_⟩
  all_goals obtain ⟨b, hb⟩ := hsame d
  all_goals rw [hb]
  · exact h.nonneg d
  · exact h.masks d
  · exact ⟨hdesc.fd, hdesc.events⟩

theorem remove_registered (h : s.Agrees R) (hc : R c) :
    ∃ s', s.remove c = .ok s' ∧ s.Outcome s' c (fun d => R d ∧ d ≠ c) := by
  obtain ⟨s', hs', hout⟩ := removeChannel_registered (h.setAdded c false) hc
  refine ⟨s', hs', hout.agrees, fun d => ?_, fun d hd => ?_, fun d hd hR => ?_, fun d hd hR => ?_⟩
  · rw [hout.fds]
    exact field_eq Channel.fd (by rw [setChannel_self]) (fun e he => setChannel_of_ne s he _) d
  · rw [hout.events d hd, setChannel_of_ne s hd]
  · rw [hout.entries d hd hR, entry, setChannel_of_ne s hd]
    rfl
  · rw [hout.index d hd hR, setChannel_of_ne s hd]

end Operations

end PollSet

/-! ## What a caller does, and what a run keeps -/

namespace Tracked

/-- The invariant: the structures agree on the registered channels, and a
channel that is still new has no position. -/
structure Inv (t : Tracked κ) : Prop where
  agrees : t.set.Agrees (fun c => t.phase c = .registered)
  fresh : ∀ c, t.phase c = .fresh → (t.set.channel c).index < 0

theorem inv_start (fds : κ → Nat) : (start fds).Inv where
  agrees := by
    have hnone : (fun c => (start fds).phase c = Phase.registered) = fun _ => False := by
      funext c
      exact eq_false (fun h => nomatch h)
    rw [hnone]
    exact PollSet.agrees_start fds
  fresh := fun _ _ => by
    show (-1 : Int) < 0
    decide

variable [DecidableEq κ] {t : Tracked κ} {c : κ}

/-- An operation's outcome, with the phase of its channel moved along. -/
theorem Inv.outcome {s' : PollSet κ} {R' : κ → Prop} (h : t.Inv) (phase : Phase)
    (hphase : phase ≠ .fresh) (hout : t.set.Outcome s' c R')
    (hR : ∀ d, Function.update t.phase c phase d = .registered ↔ R' d) :
    (Tracked.mk s' (Function.update t.phase c phase)).Inv ∧
      ∀ d, d ≠ c → t.set.SameFor s' d := by
  have hR' : R' = fun d => Function.update t.phase c phase d = .registered :=
    funext fun d => propext (hR d).symm
  refine ⟨⟨hR' ▸ hout.agrees, fun d hd => ?_⟩, fun d hd => ⟨?_, hout.events d hd, fun hreg => ?_⟩⟩
  · have hdc : d ≠ c := by
      rintro rfl
      exact hphase (by simpa using hd)
    have hold : t.phase d = .fresh := by simpa [Function.update_of_ne hdc] using hd
    have hnew : ¬ R' d := fun hRd => by
      rw [← hR d, Function.update_of_ne hdc, hold] at hRd
      cases hRd
    exact (hout.index d hdc hnew).symm ▸ h.fresh d hold
  · rw [hout.agrees.registered_iff, h.agrees.registered_iff, ← hR d, Function.update_of_ne hd]
  · exact hout.entries d hd ((hout.agrees.registered_iff d).mp hreg)

/-- One call: it is in range, keeps the invariant and touches no other channel. -/
theorem call_spec (h : t.Inv) {op : PollOp κ} (hmay : t.MayCall op) :
    ∃ u, t.call op = .ok u ∧ u.Inv ∧ ∀ d, d ≠ op.channel → t.set.SameFor u.set d := by
  cases op with
  | interest c op =>
    have hmask := mem_interestSets_change (h.agrees.masks c) op
    rcases hmay with hreg | ⟨hfresh, hfree⟩
    · obtain ⟨s', hs', hout⟩ := PollSet.interest_registered h.agrees hreg hmask
      have hR : ∀ d, Function.update t.phase c .registered d = .registered ↔
          t.phase d = .registered := fun d => by
        by_cases hd : d = c <;> simp [hd, hreg]
      exact ⟨_, by simp only [call, hs', ok_bind]; rfl,
        h.outcome .registered (fun heq => nomatch heq) hout hR⟩
    · have hnew : ¬ t.phase c = .registered := by simp [hfresh]
      obtain ⟨s', hs', hout⟩ :=
        PollSet.interest_new h.agrees hnew (h.fresh c hfresh) hfree hmask
      have hR : ∀ d, Function.update t.phase c .registered d = .registered ↔
          d = c ∨ t.phase d = .registered := fun d => by
        by_cases hd : d = c <;> simp [hd]
      exact ⟨_, by simp only [call, hs', ok_bind]; rfl,
        h.outcome .registered (fun heq => nomatch heq) hout hR⟩
  | remove c =>
    obtain ⟨s', hs', hout⟩ := PollSet.remove_registered h.agrees hmay
    have hR : ∀ d, Function.update t.phase c .removed d = .registered ↔
        t.phase d = .registered ∧ d ≠ c := fun d => by
      by_cases hd : d = c <;> simp [hd]
    exact ⟨_, by simp only [call, hs', ok_bind]; rfl,
      h.outcome .removed (fun heq => nomatch heq) hout hR⟩

/-- No run ends in a fault, and every state it passes is in the invariant. -/
theorem run_inv (fds : κ → Nat) {ops : List (PollOp κ)} {r : Checked (Tracked κ)}
    (h : (system κ).Run (start fds) ops r) : ∃ t, r = .ok t ∧ t.Inv := by
  apply h.total (I := fun _ => Inv) (inv_start fds)
  intro _ t op hinv hmay
  obtain ⟨u, hu, hinv', _⟩ := call_spec hinv hmay
  exact ⟨u, hu, hinv'⟩

/-- **The poller's structures agree, whatever its callers do.** For any channels
with descriptors that are not negative, any calls its callers may make, in any
order and number, from the empty poller: no call is out of range or finds no
channel at the end of the array, the structures agree after each, the channels
in the map are those registered and not removed, and a call leaves the
registration, the interest and the entry of every other channel as they were. -/
theorem pollSet_consistent (fds : κ → Nat) {ops : List (PollOp κ)} {r : Checked (Tracked κ)}
    (h : (system κ).Run (start fds) ops r) :
    ∃ t, r = .ok t ∧ t.set.Consistent ∧
      (∀ c, t.set.Registered c ↔ t.phase c = .registered) ∧
      ∀ op, t.MayCall op → ∃ u, t.call op = .ok u ∧
        ∀ d, d ≠ op.channel → t.set.SameFor u.set d := by
  obtain ⟨t, hr, hinv⟩ := run_inv fds h
  refine ⟨t, hr, hinv.agrees.consistent, hinv.agrees.registered_iff, fun op hmay => ?_⟩
  obtain ⟨u, hu, _, hsame⟩ := call_spec hinv hmay
  exact ⟨u, hu, hsame⟩

/-- Two channels, the second of which wants nothing and has its entry moved when
the first is removed. -/
theorem pollSet_consistent_moved :
    ∃ t, (system Bool).Run (start fun c => if c then 5 else 3)
      [.interest false .enableReading, .interest true .enableWriting, .interest true .disableAll,
        .remove false] (.ok t) ∧
      t.set.Consistent ∧ t.set.Registered true ∧ t.set.entry true = some ⟨-6, 0, 0⟩ := by
  have hrun : ∃ t, (system Bool).Run (start fun c => if c then 5 else 3)
      [.interest false .enableReading, .interest true .enableWriting, .interest true .disableAll,
        .remove false] (.ok t) ∧ t.phase true = .registered ∧
        t.set.entry true = some ⟨-6, 0, 0⟩ := by
    refine ⟨_, .cons (.inr ⟨rfl, fun d h => nomatch h⟩) rfl
      (.cons (.inr ⟨rfl, fun d h => ?_⟩) rfl
        (.cons (.inl rfl) rfl (.cons rfl rfl .nil))), rfl, rfl⟩
    cases d with
    | false => decide
    | true => cases h
  obtain ⟨t, hrun, hphase, hentry⟩ := hrun
  obtain ⟨t', ht', hcons, hreg, _⟩ := pollSet_consistent _ hrun
  cases ht'
  exact ⟨t, hrun, hcons, (hreg true).mpr hphase, hentry⟩

end Tracked

end ClyServer.Net
