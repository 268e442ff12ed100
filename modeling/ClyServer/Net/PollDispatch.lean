import ClyServer.Net.PollSet

/-!
# Dispatching what poll(2) reported

`fillActiveChannels` walks the array, counts events down and stops at zero, and
goes from an entry to its channel through the map. That it finds every channel with
an event, and only those, rests on two things: the agreement of the three
structures, which makes the walk over entries a walk over channels, and a count
that is the number of entries with an event. `fillActiveChannels_exact` is the
statement, and `poll_exact` brings it to every state the poller's callers can reach.
-/

namespace ClyServer.Net

open ClyServer.Lib

variable {κ : Type} [DecidableEq κ]

/-- The entry has an event. -/
def PollFd.hasEvent (pfd : PollFd) : Bool := pfd.revents ≠ 0

theorem PollFd.hasEvent_iff {pfd : PollFd} : pfd.hasEvent = true ↔ pfd.revents ≠ 0 :=
  decide_eq_true_iff

namespace PollSet

/-- What poll(2) leaves: no negative `revents`, none at all for an entry it skips, and
as many entries with an event as it returned. -/
structure Polled (s : PollSet κ) (numEvents : Int) : Prop where
  nonneg : ∀ pfd ∈ s.poller.pollfds, 0 ≤ pfd.revents.toInt
  skipped : ∀ pfd ∈ s.poller.pollfds, pfd.fd < 0 → pfd.revents = 0
  counted : numEvents = s.poller.pollfds.countP PollFd.hasEvent

/-- The channel an entry with an event leads to. -/
def hit (channels : Int → Option κ) (pfd : PollFd) : Option κ :=
  if pfd.revents = 0 then none else channels pfd.fd

/-! ## The loop -/

theorem revents_pos_iff {pfd : PollFd} (h : 0 ≤ pfd.revents.toInt) :
    pfd.revents.toInt > 0 ↔ pfd.revents ≠ 0 := by
  have hzero : (0 : BitVec 16).toInt = 0 := rfl
  rw [Ne, ← BitVec.toInt_inj, hzero]
  omega

/-- With the count used up the loop is done. -/
theorem fillActive_stop {channels : Int → Option κ} (l : List PollFd) {numEvents : Int}
    (channel : κ → Channel) (active : List κ) (hstop : ¬ numEvents > 0) :
    fillActive channels l numEvents channel active = .ok (channel, active) := by
  cases l with
  | nil => rfl
  | cons pfd rest =>
    unfold fillActive
    rw [if_neg hstop]
    rfl

omit [DecidableEq κ] in
/-- A count of zero says that no entry leads anywhere. -/
theorem hit_of_countP_eq_zero (channels : Int → Option κ) {l : List PollFd}
    (h : l.countP PollFd.hasEvent = 0) : ∀ pfd ∈ l, hit channels pfd = none := by
  intro pfd hpfd
  have hnone := List.countP_eq_zero.mp h pfd hpfd
  rw [PollFd.hasEvent_iff, not_not] at hnone
  exact if_pos hnone

/-- An entry without an event is passed over. -/
theorem fillActive_skip {channels : Int → Option κ} {pfd : PollFd} {numEvents : Int}
    (hmore : numEvents > 0) (hevent : pfd.revents = 0) (rest : List PollFd)
    (channel : κ → Channel) (active : List κ) :
    fillActive channels (pfd :: rest) numEvents channel active =
      fillActive channels rest numEvents channel active := by
  rw [fillActive, if_pos hmore, hevent, if_neg (by decide)]

/-- The channel of an entry with an event is marked and listed. -/
theorem fillActive_hit {channels : Int → Option κ} {pfd : PollFd} {numEvents : Int} {c : κ}
    {channel : κ → Channel} (hmore : numEvents > 0) (hpos : pfd.revents.toInt > 0)
    (hc : channels pfd.fd = some c) (hfd : (channel c).fd = pfd.fd) (rest : List PollFd)
    (active : List κ) :
    fillActive channels (pfd :: rest) numEvents channel active =
      fillActive channels rest (numEvents - 1) (Function.update channel c { channel c with
        revents := pfd.revents.signExtend 32 }) (active ++ [c]) := by
  rw [fillActive, if_pos hmore, if_pos hpos, hc]
  dsimp only
  rw [check_pos hfd, ok_bind]

/-- A mark leaves every descriptor as it was. -/
theorem fd_mark (channel : κ → Channel) (c : κ) (revents : Events) (d : κ) :
    (Function.update channel c { channel c with revents } d).fd = (channel d).fd := by
  by_cases hd : d = c
  · subst hd
    rw [Function.update_self]
  · rw [Function.update_of_ne hd]

/-- `channel'` is `channel` with the channels that entries lead to marked with their
entries' events, and no other channel touched. -/
structure Marks (channels : Int → Option κ) (l : List PollFd) (channel channel' : κ → Channel) :
    Prop where
  other : ∀ c, c ∉ l.filterMap (hit channels) → channel' c = channel c
  marked : ∀ pfd ∈ l, ∀ c, hit channels pfd = some c →
    channel' c = { channel c with revents := pfd.revents.signExtend 32 }

section Marks

variable {channels : Int → Option κ} {pfd : PollFd} {rest : List PollFd}
  {channel channel' : κ → Channel} {c : κ}

omit [DecidableEq κ] in
theorem Marks.of_none {l : List PollFd} (h : ∀ pfd ∈ l, hit channels pfd = none)
    (channel : κ → Channel) : Marks channels l channel channel where
  other := fun _ _ => rfl
  marked := by
    intro pfd hpfd c hc
    rw [h pfd hpfd] at hc
    cases hc

omit [DecidableEq κ] in
theorem Marks.skip (h : Marks channels rest channel channel') (hmiss : hit channels pfd = none) :
    Marks channels (pfd :: rest) channel channel' where
  other := by
    rw [List.filterMap_cons_none hmiss]
    exact h.other
  marked := by
    refine List.forall_mem_cons.mpr ⟨fun c hc => ?_, h.marked⟩
    rw [hmiss] at hc
    cases hc

theorem Marks.hit (h : Marks channels rest (Function.update channel c { channel c with
      revents := pfd.revents.signExtend 32 }) channel')
    (hhit : hit channels pfd = some c) (hfresh : c ∉ rest.filterMap (PollSet.hit channels)) :
    Marks channels (pfd :: rest) channel channel' where
  other := by
    intro d hd
    rw [List.filterMap_cons_some hhit, List.mem_cons, not_or] at hd
    rw [h.other d hd.2, Function.update_of_ne hd.1]
  marked := by
    refine List.forall_mem_cons.mpr ⟨fun d hd => ?_, fun q hq d hd => ?_⟩
    · cases hhit.symm.trans hd
      rw [h.other c hfresh, Function.update_self]
    · have hdc : d ≠ c := by
        rintro rfl
        exact hfresh (List.mem_filterMap.mpr ⟨q, hq, hd⟩)
      rw [h.marked q hq d hd, Function.update_of_ne hdc]

end Marks

/-- The loop over entries whose channels are found, with the count of their events: it
lists the channels and marks them. -/
theorem fillActive_spec {channels : Int → Option κ} {l : List PollFd} {numEvents : Int}
    {channel : κ → Channel} (active : List κ)
    (hfound : ∀ pfd ∈ l, pfd.revents ≠ 0 →
      ∃ c, channels pfd.fd = some c ∧ (channel c).fd = pfd.fd)
    (hnonneg : ∀ pfd ∈ l, 0 ≤ pfd.revents.toInt)
    (hcount : numEvents = l.countP PollFd.hasEvent)
    (hnodup : (l.filterMap (hit channels)).Nodup) :
    ∃ channel', fillActive channels l numEvents channel active =
        .ok (channel', active ++ l.filterMap (hit channels)) ∧
      Marks channels l channel channel' := by
  induction l generalizing numEvents channel active with
  | nil =>
    refine ⟨channel, by simp [fillActive], .of_none ?_ channel⟩
    intro pfd h
    cases h
  | cons pfd rest ih =>
    by_cases hmore : numEvents > 0
    · rw [List.forall_mem_cons] at hfound hnonneg
      by_cases hevent : pfd.revents = 0
      · have hmiss : hit channels pfd = none := if_pos hevent
        rw [List.countP_cons_of_neg (PollFd.hasEvent_iff.not.mpr (not_not_intro hevent))] at hcount
        rw [List.filterMap_cons_none hmiss] at hnodup ⊢
        obtain ⟨channel', hloop, hmarks⟩ := ih active hfound.2 hnonneg.2 hcount hnodup
        exact ⟨channel', (fillActive_skip hmore hevent ..).trans hloop, hmarks.skip hmiss⟩
      · obtain ⟨c, hc, hfd⟩ := hfound.1 hevent
        have hhit : hit channels pfd = some c := (if_neg hevent).trans hc
        have hpos : pfd.revents.toInt > 0 := (revents_pos_iff hnonneg.1).mpr hevent
        rw [List.countP_cons_of_pos (PollFd.hasEvent_iff.mpr hevent)] at hcount
        rw [List.filterMap_cons_some hhit] at hnodup ⊢
        obtain ⟨hfresh, hnodup'⟩ := List.nodup_cons.mp hnodup
        have hfound' : ∀ q ∈ rest, q.revents ≠ 0 → ∃ d, channels q.fd = some d ∧
            (Function.update channel c { channel c with
              revents := pfd.revents.signExtend 32 } d).fd = q.fd := by
          intro q hq hne
          obtain ⟨d, hd, hdfd⟩ := hfound.2 q hq hne
          exact ⟨d, hd, (fd_mark channel c _ d).trans hdfd⟩
        have hcount' : numEvents - 1 = rest.countP PollFd.hasEvent := by omega
        obtain ⟨channel', hloop, hmarks⟩ :=
          ih (active ++ [c]) hfound' hnonneg.2 hcount' hnodup'
        refine ⟨channel', ?_, hmarks.hit hhit hfresh⟩
        rw [fillActive_hit hmore hpos hc hfd, hloop, List.append_assoc, List.singleton_append]
    · have hzero : (pfd :: rest).countP PollFd.hasEvent = 0 := by omega
      have hnone := hit_of_countP_eq_zero channels hzero
      refine ⟨channel, ?_, .of_none hnone channel⟩
      rw [fillActive_stop _ _ _ hmore, List.filterMap_eq_nil_iff.mpr hnone, List.append_nil]

/-! ## From entries to channels -/

omit [DecidableEq κ] in
/-- The agreement as a dense table. -/
theorem Consistent.dense {s : PollSet κ} (h : s.Consistent) :
    Dense s.poller.pollfds s.Registered (fun c => (s.channel c).index)
      (fun c pfd => pfd.Describes (s.channel c)) where
  lower := fun c hc => (h.positions.mapsTo hc).1
  described := h.described
  inj := fun _ _ hc hd heq => h.positions.injOn hc hd heq
  onto := by
    intro i hi
    obtain ⟨c, hc, hpos⟩ := h.positions.surjOn (show (i : Int) ∈ {i : Int | 0 ≤ i ∧ i < _} from
      ⟨Int.natCast_nonneg i, Int.ofNat_lt.mpr hi⟩)
    exact ⟨c, hc, hpos⟩

omit [DecidableEq κ] in
/-- An entry with an event leads to its channel. -/
theorem Consistent.hit_entry {s : PollSet κ} (h : s.Consistent)
    (hfds : ∀ c, s.Registered c → 0 ≤ (s.channel c).fd) {numEvents : Int}
    (hpolled : s.Polled numEvents) {c : κ} {pfd : PollFd} (hc : s.Registered c)
    (hpfd : s.entry c = some pfd) (hevent : pfd.revents ≠ 0) :
    pfd.fd = (s.channel c).fd ∧ hit s.poller.channels pfd = some c := by
  obtain ⟨pfd', hpfd', hdesc⟩ := h.described c hc
  cases hpfd.symm.trans hpfd'
  have hfd : pfd.fd = (s.channel c).fd := by
    rcases hdesc.fd with hfd | ⟨hfd, _⟩
    · exact hfd
    · -- a skipped entry has no events
      have hneg : pfd.fd < 0 := by
        have := hfds c hc
        omega
      exact absurd (hpolled.skipped pfd (List.mem_of_getElem? hpfd) hneg) hevent
  refine ⟨hfd, ?_⟩
  rw [hit, if_neg hevent, hfd]
  exact hc

/-- The channels whose entries have an event, in the order of the entries. -/
def hits (s : PollSet κ) : List κ := s.poller.pollfds.filterMap (hit s.poller.channels)

section Hits

variable {s : PollSet κ} {numEvents : Int}

omit [DecidableEq κ] in
/-- An entry leads to its own channel or nowhere. -/
theorem Consistent.hit_owner (h : s.Consistent) (hfds : ∀ c, s.Registered c → 0 ≤ (s.channel c).fd)
    (hpolled : s.Polled numEvents) (c : κ) (pfd : PollFd) (hc : s.Registered c)
    (hpfd : s.poller.pollfds[(s.channel c).index.toNat]? = some pfd) :
    hit s.poller.channels pfd = none ∨ hit s.poller.channels pfd = some c := by
  by_cases hevent : pfd.revents = 0
  · exact .inl (if_pos hevent)
  · exact .inr (h.hit_entry hfds hpolled hc hpfd hevent).2

omit [DecidableEq κ] in
theorem Consistent.hits_pairwise (h : s.Consistent)
    (hfds : ∀ c, s.Registered c → 0 ≤ (s.channel c).fd) (hpolled : s.Polled numEvents) :
    s.hits.Pairwise fun c d => (s.channel c).index < (s.channel d).index :=
  h.dense.pairwise_filterMap (h.hit_owner hfds hpolled)

omit [DecidableEq κ] in
theorem Consistent.hits_nodup (h : s.Consistent)
    (hfds : ∀ c, s.Registered c → 0 ≤ (s.channel c).fd) (hpolled : s.Polled numEvents) :
    s.hits.Nodup := by
  apply (h.hits_pairwise hfds hpolled).imp
  intro c d hlt heq
  rw [heq] at hlt
  exact absurd hlt (Int.lt_irrefl _)

omit [DecidableEq κ] in
theorem Consistent.mem_hits_iff (h : s.Consistent)
    (hfds : ∀ c, s.Registered c → 0 ≤ (s.channel c).fd) (hpolled : s.Polled numEvents) (c : κ) :
    c ∈ s.hits ↔ s.Registered c ∧ ∃ pfd, s.entry c = some pfd ∧ pfd.revents ≠ 0 := by
  have hmem : c ∈ s.hits ↔
      s.Registered c ∧ ∃ pfd, s.entry c = some pfd ∧ hit s.poller.channels pfd = some c :=
    h.dense.mem_filterMap_iff (h.hit_owner hfds hpolled)
  rw [hmem]
  refine and_congr_right fun hc => exists_congr fun pfd => and_congr_right fun hpfd => ?_
  constructor
  · rintro hhit hzero
    rw [hit, if_pos hzero] at hhit
    cases hhit
  · exact fun hevent => (h.hit_entry hfds hpolled hc hpfd hevent).2

omit [DecidableEq κ] in
/-- Both assertions of the loop: an entry with an event is in the map, under a channel
with its descriptor. -/
theorem Consistent.found (h : s.Consistent) (hfds : ∀ c, s.Registered c → 0 ≤ (s.channel c).fd)
    (hpolled : s.Polled numEvents) {pfd : PollFd} (hmem : pfd ∈ s.poller.pollfds)
    (hevent : pfd.revents ≠ 0) :
    ∃ c, s.poller.channels pfd.fd = some c ∧ (s.channel c).fd = pfd.fd := by
  obtain ⟨i, hi⟩ := List.mem_iff_getElem?.mp hmem
  obtain ⟨c, hc, hpos⟩ := h.dense.onto i (List.getElem?_eq_some_iff.mp hi).1
  have hentry : s.entry c = some pfd := by
    rw [entry, show (s.channel c).index = i from hpos]
    exact hi
  obtain ⟨hfd, hhit⟩ := h.hit_entry hfds hpolled hc hentry hevent
  rw [hit, if_neg hevent] at hhit
  exact ⟨c, hhit, hfd.symm⟩

/-- The call, with the list it appends named. -/
theorem Consistent.fillActiveChannels_eq (h : s.Consistent)
    (hfds : ∀ c, s.Registered c → 0 ≤ (s.channel c).fd) (hpolled : s.Polled numEvents)
    (activeChannels : List κ) :
    ∃ s', s.fillActiveChannels numEvents activeChannels = .ok (s', activeChannels ++ s.hits) ∧
      (∀ c pfd, c ∈ s.hits → s.entry c = some pfd →
        s'.channel c = { s.channel c with revents := pfd.revents.signExtend 32 }) ∧
      (∀ c, c ∉ s.hits → s'.channel c = s.channel c) ∧ s'.poller = s.poller := by
  obtain ⟨channel', hloop, hmarks⟩ := fillActive_spec activeChannels
    (fun pfd => h.found hfds hpolled) hpolled.nonneg hpolled.counted (h.hits_nodup hfds hpolled)
  refine ⟨{ s with channel := channel' }, ?_, fun c pfd hc hpfd => ?_, hmarks.other, rfl⟩
  · simp only [fillActiveChannels, hloop, ok_bind, pure_eq_ok]
    rfl
  · obtain ⟨hreg, pfd', hpfd', hevent⟩ := (h.mem_hits_iff hfds hpolled c).mp hc
    cases hpfd.symm.trans hpfd'
    exact hmarks.marked pfd (List.mem_of_getElem? hpfd) c
      (h.hit_entry hfds hpolled hreg hpfd hevent).2

end Hits

/-- **Event dispatch is exact.** Where the three structures agree, on descriptors that
are not negative, and for everything poll(2) can leave: no assertion fails;
the channels appended are those registered ones whose entry has an event, in the
order of their entries and so each once; each of them has its entry's events for
its `revents_`; and nothing else of any channel, and nothing of the poller, changes. -/
theorem fillActiveChannels_exact {s : PollSet κ} (h : s.Consistent)
    (hfds : ∀ c, s.Registered c → 0 ≤ (s.channel c).fd) {numEvents : Int}
    (hpolled : s.Polled numEvents) (activeChannels : List κ) :
    ∃ s' hits, s.fillActiveChannels numEvents activeChannels =
        .ok (s', activeChannels ++ hits) ∧
      (∀ c, c ∈ hits ↔ s.Registered c ∧ ∃ pfd, s.entry c = some pfd ∧ pfd.revents ≠ 0) ∧
      hits.Nodup ∧ hits.Pairwise (fun c d => (s.channel c).index < (s.channel d).index) ∧
      (∀ c pfd, c ∈ hits → s.entry c = some pfd →
        s'.channel c = { s.channel c with revents := pfd.revents.signExtend 32 }) ∧
      (∀ c, c ∉ hits → s'.channel c = s.channel c) ∧ s'.poller = s.poller := by
  obtain ⟨s', hcall, hmarked, hother, hpoller⟩ :=
    h.fillActiveChannels_eq hfds hpolled activeChannels
  exact ⟨s', s.hits, hcall, h.mem_hits_iff hfds hpolled, h.hits_nodup hfds hpolled,
    h.hits_pairwise hfds hpolled, hmarked, hother, hpoller⟩

/-! ## After poll(2) -/

omit [DecidableEq κ] in
/-- The entry of a channel after poll(2). -/
theorem entry_setRevents (s : PollSet κ) (revents : List (BitVec 16)) (c : κ) :
    (s.setRevents revents).entry c = ((s.entry c).bind fun pfd =>
      (revents[(s.channel c).index.toNat]?).map fun r => { pfd with revents := r }) := by
  change (s.poller.pollfds.zipWith _ revents)[(s.channel c).index.toNat]? = _
  rw [List.getElem?_zipWith, entry]
  cases s.poller.pollfds[(s.channel c).index.toNat]? with
  | none => rfl
  | some pfd => cases revents[(s.channel c).index.toNat]? <;> rfl

omit [DecidableEq κ] in
/-- What poll(2) writes is no part of the agreement. -/
theorem Consistent.setRevents {s : PollSet κ} (h : s.Consistent) {revents : List (BitVec 16)}
    (hlen : revents.length = s.poller.pollfds.length) : (s.setRevents revents).Consistent where
  mapped := h.mapped
  positions := by
    have hsame : (s.setRevents revents).poller.pollfds.length = s.poller.pollfds.length := by
      change (s.poller.pollfds.zipWith _ revents).length = _
      rw [List.length_zipWith, hlen, Nat.min_self]
    rw [hsame]
    exact h.positions
  described := by
    intro c hc
    obtain ⟨pfd, hpfd, hdesc⟩ := h.described c hc
    have hlt := (List.getElem?_eq_some_iff.mp hpfd).1
    rw [← hlen] at hlt
    rw [entry_setRevents, hpfd, List.getElem?_eq_getElem hlt]
    exact ⟨_, rfl, hdesc.fd, hdesc.events⟩

theorem poll_eq (s : PollSet κ) {call : PollCall} (hcall : 0 ≤ call.numEvents)
    (activeChannels : List κ) :
    s.poll call activeChannels =
      (s.setRevents call.revents).fillActiveChannels call.numEvents activeChannels := by
  by_cases hpos : call.numEvents > 0
  · simp only [poll, if_pos hpos]
  · have hzero : call.numEvents = 0 := by omega
    simp only [poll, if_neg hpos, if_pos hzero, fillActiveChannels, fillActive_stop _ _ _ hpos,
      ok_bind, pure_eq_ok]

/-- Wherever its callers have taken the poller, a call of poll(2) that did not fail makes
active the registered channels for which it reported something. -/
theorem poll_exact (fds : κ → Nat) {ops : List (PollOp κ)} {t : Tracked κ}
    (hrun : (Tracked.system κ).Run (Tracked.start fds) ops (.ok t)) {call : PollCall}
    (hlen : call.revents.length = t.set.poller.pollfds.length)
    (hpolled : (t.set.setRevents call.revents).Polled call.numEvents) :
    ∃ s' hits, t.set.poll call [] = .ok (s', hits) ∧ hits.Nodup ∧
      ∀ c, c ∈ hits ↔ t.phase c = .registered ∧
        ∃ r, call.revents[(t.set.channel c).index.toNat]? = some r ∧ r ≠ 0 := by
  obtain ⟨t', ht', hinv⟩ := Tracked.run_inv fds hrun
  cases ht'
  have hcons := hinv.agrees.consistent.setRevents hlen
  have hfds : ∀ c, (t.set.setRevents call.revents).Registered c →
      0 ≤ ((t.set.setRevents call.revents).channel c).fd := fun c _ => hinv.agrees.nonneg c
  have hcall : 0 ≤ call.numEvents := by
    rw [hpolled.counted]
    exact Int.natCast_nonneg _
  obtain ⟨s', hfill, _⟩ := hcons.fillActiveChannels_eq hfds hpolled []
  refine ⟨s', _, (poll_eq _ hcall []).trans hfill, hcons.hits_nodup hfds hpolled, fun c => ?_⟩
  have hreg : (t.set.setRevents call.revents).Registered c ↔ t.phase c = .registered :=
    hinv.agrees.registered_iff c
  rw [List.nil_append, hcons.mem_hits_iff hfds hpolled, hreg]
  refine and_congr_right fun hphase => ?_
  obtain ⟨pfd, hpfd, _⟩ := hinv.agrees.dense.described c hphase
  rw [entry_setRevents, show t.set.entry c = some pfd from hpfd]
  cases hr : call.revents[(t.set.channel c).index.toNat]? with
  | none => simp
  | some r => simp

/-- Two channels, the first of which wants nothing, and an event for the second. -/
theorem fillActiveChannels_exact_second :
    ∃ s : PollSet Bool, s.Consistent ∧ s.Polled 1 ∧
      ∃ s' hits, s.fillActiveChannels 1 [] = .ok (s', hits) ∧ true ∈ hits ∧ false ∉ hits := by
  obtain ⟨t, hrun, hpollfds, hphase, hfalse, htrue⟩ : ∃ t : Tracked Bool,
      (Tracked.system Bool).Run (Tracked.start fun c => if c then 5 else 3)
        [.interest false .enableReading, .interest true .enableReading,
          .interest false .disableAll] (.ok t) ∧
      t.set.poller.pollfds = [⟨-4, 0, 0⟩, ⟨5, 1, 0⟩] ∧ t.phase true = .registered ∧
      (t.set.channel false).index = 0 ∧ (t.set.channel true).index = 1 := by
    refine ⟨_, .cons (.inr ⟨rfl, fun d h => nomatch h⟩) rfl
      (.cons (.inr ⟨rfl, fun d h => ?_⟩) rfl (.cons (.inl rfl) rfl .nil)), rfl, rfl, rfl, rfl⟩
    cases d with
    | false => decide
    | true => cases h
  obtain ⟨t', ht', hinv⟩ := Tracked.run_inv _ hrun
  cases ht'
  have hlen : ([0, 1] : List (BitVec 16)).length = t.set.poller.pollfds.length := by
    rw [hpollfds]
    rfl
  have hcons := hinv.agrees.consistent.setRevents hlen
  have hafter : (t.set.setRevents [0, 1]).poller.pollfds = [⟨-4, 0, 0⟩, ⟨5, 1, 1⟩] := by
    change t.set.poller.pollfds.zipWith _ _ = _
    rw [hpollfds]
    rfl
  have hpolled : (t.set.setRevents [0, 1]).Polled 1 := by
    refine ⟨?_, ?_, ?_⟩
    all_goals rw [hafter]
    all_goals decide
  have hentry : ∀ c, (t.set.setRevents [0, 1]).entry c =
      [⟨-4, 0, 0⟩, ⟨5, 1, 1⟩][(t.set.channel c).index.toNat]? := fun c => by
    rw [← hafter]
    rfl
  obtain ⟨s', hits, hfill, hmem, _⟩ :=
    fillActiveChannels_exact hcons (fun c _ => hinv.agrees.nonneg c) hpolled []
  refine ⟨_, hcons, hpolled, s', hits, hfill, ?_, ?_⟩
  · refine (hmem true).mpr ⟨(hinv.agrees.registered_iff true).mpr hphase, ⟨5, 1, 1⟩, ?_, by decide⟩
    rw [hentry, htrue]
    rfl
  · rw [hmem false]
    rintro ⟨_, pfd, hpfd, hevent⟩
    rw [hentry, hfalse] at hpfd
    cases hpfd
    exact hevent rfl

end PollSet

end ClyServer.Net
