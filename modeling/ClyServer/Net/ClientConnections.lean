import ClyServer.Net.TcpClient

/-!
# One connection at a time

What the client relies on without checking it: that its connector is connected when it restarts
it, and that the connection that closes is the one it knows. Both follow from one fact, that
a client with a connection has a connector that is connected and hands nothing on. So every run of
a client is, seen from its connector, a run of a connector whose owner keeps to `Owner`, and what is
true of those is true here (`client_exact`).

A connector leaves `kConnected` only when it is restarted. A client that was not told to
retry never does that, and so makes one connection in its life (`connects_once`).
-/

namespace ClyServer.Net

open ClyServer.Lib ClyServer.Lib.System

namespace Connector

variable {c d e : Connector}

/-- How a connector hands sockets on: one at most, on its way into `kConnected`. -/
def Progress (c d : Connector) : Prop :=
  d.handed = c.handed ∧ (c.state = .kConnected → d.state = .kConnected) ∨
    ∃ fd, d.handed = c.handed ++ [fd] ∧ c.state ≠ .kConnected ∧ d.state = .kConnected

theorem Progress.refl (c : Connector) : Progress c c := .inl ⟨rfl, id⟩

theorem Progress.trans (h : Progress c d) (h' : Progress d e) : Progress c e := by
  rcases h with ⟨hhanded, hstays⟩ | ⟨fd, hhanded, hnot, hconnected⟩
  · rcases h' with ⟨hhanded', hstays'⟩ | ⟨fd, hhanded', hnot, hconnected⟩
    · exact .inl ⟨hhanded'.trans hhanded, fun hstate => hstays' (hstays hstate)⟩
    · exact .inr ⟨fd, hhanded ▸ hhanded', fun hstate => hnot (hstays hstate), hconnected⟩
  · rcases h' with ⟨hhanded', hstays'⟩ | ⟨_, _, hnot', _⟩
    · exact .inr ⟨fd, hhanded'.trans hhanded, hnot, hstays' hconnected⟩
    · exact absurd hconnected hnot'

theorem Attempts.progress (h : Attempts c d) : Progress c d := by
  cases h with
  | idle => exact .refl c
  | began hstate => exact .inl ⟨rfl, fun hconnected => by simp [hstate] at hconnected⟩
  | refused hstate => exact .inl ⟨rfl, fun hconnected => by simp [hstate] at hconnected⟩

theorem Finishes.progress (h : Finishes c d) : Progress c d := by
  cases h with
  | idle => exact .refl c
  | failed channel hstate =>
    exact .inl ⟨rfl, fun hconnected => by simp [hstate] at hconnected⟩
  | handed channel hstate => exact .inr ⟨channel.fd, rfl, by simp [hstate], rfl⟩
  | dropped channel hstate => exact .inl ⟨rfl, fun _ => rfl⟩

/-- A connector before a step, as far as its owner sets it up. -/
def setUp (c : Connector) : Label → Connector
  | .restart _ => { c with state := .kDisconnected }
  | _ => c

theorem step_progress (c : Connector) (l : Label) :
    Ends (c.step l) (Progress (c.setUp l)) fun _ => True := by
  have hattempt : ∀ (d : Connector) (a : SocketAnswers),
      Ends (d.startInLoop a) (Progress d) fun _ => True := by
    intro d a
    exact (d.startInLoop_ends a).mono (fun _ hdone => hdone.progress) fun _ _ => trivial
  cases l with
  | start isInLoopThread a =>
    cases isInLoopThread with
    | true => exact hattempt { c with connect_ := true } a
    | false => exact Progress.refl c
  | stop => exact Progress.refl c
  | restart a =>
    exact hattempt { c with
      state := .kDisconnected, retryDelayMs := kInitRetryDelayMs, connect_ := true } a
  | fire delay a => exact hattempt { c with timers := c.timers.erase delay } a
  | functor cb a =>
    cases cb with
    | startInLoop =>
      exact hattempt { c with pendingFunctors := c.pendingFunctors.erase .startInLoop } a
    | stopInLoop =>
      exact (stopInLoop_ends _ a).mono (fun _ hdone => hdone.progress) fun _ _ => trivial
    | resetChannel => exact Progress.refl c
  | event revents a =>
    refine (handleEvent_ends (I := Progress c) ?_ (.refl c) a revents).mono (fun _ hd => hd)
      fun _ _ => trivial
    intro d d' hdone hd
    exact hd.trans hdone.progress

/-- A connector that has been driven by an owner who keeps to `Owner`. -/
def Driven (c : Connector) : Prop := ∃ ls, (system Owner).Run init ls (.ok c)

theorem Driven.step (h : c.Driven) {l : Label} (hpossible : c.Possible l) (howner : c.Owner l)
    (hstep : c.step l = .ok d) : d.Driven := by
  obtain ⟨ls, hrun⟩ := h
  exact ⟨ls ++ [l], hstep ▸ .snoc hrun ⟨hpossible, howner⟩⟩

theorem Driven.owned (h : c.Driven) : c.Owned := by
  obtain ⟨ls, hrun⟩ := h
  exact (run_keen hrun).account.owned

end Connector

namespace TcpClient

variable {s : TcpClient} {c : Nat} {tcp tcp' : TcpConnection}

/-! ## The client's connections -/

/-- The connection is there, and not closed. -/
def isOpen (s : TcpClient) (c : Nat) : Bool := s.conns[c]?.any (·.state ≠ .kDisconnected)

/-- The connection is there, and closed. -/
def isClosed (s : TcpClient) (c : Nat) : Bool := s.conns[c]?.any (·.state = .kDisconnected)

/-- Faults but the assertion of `removeConnection`. -/
def Excused (e : ClientFault) : Prop := e ≠ .removeConnection

structure Inv (s : TcpClient) : Prop where
  driven : s.connector.Driven
  connected : s.connection ≠ none → s.connector.state = .kConnected
  open_iff : ∀ c, s.isOpen c = true ↔ s.connection = some c
  sockets : s.conns.map (·.channel.fd) = s.connector.handed
  destroys : ∀ c, s.pendingFunctors.count (.connectDestroyed c) + s.destroyed.count c =
    if s.isClosed c then 1 else 0
  once : s.retry = false → s.connector.handed = [] ∨
    s.connector.handed.length = 1 ∧ s.connector.state = .kConnected

theorem inv_init : init.Inv where
  driven := ⟨[], .nil⟩
  connected := by simp [init]
  open_iff := by simp [init, isOpen]
  sockets := rfl
  destroys := by simp [init, isClosed]
  once := fun _ => .inl rfl

theorem ends_checked {α : Type} {x : Checked α} {P : α → Prop}
    (h : Ends x P fun _ => True) : Ends (checked x) P Excused := by
  cases x with
  | ok a => exact h
  | error e => exact ClientFault.noConfusion

/-- What follows on `findConn` can rely on a connection. -/
theorem findConn_ends {α : Type} {f : TcpConnection → Except ClientFault α} {P : α → Prop}
    (hf : ∀ tcp, s.conns[c]? = some tcp → Ends (f tcp) P Excused) :
    Ends (s.findConn c >>= f) P Excused := by
  unfold findConn
  split
  · rename_i tcp hc
    exact hf tcp hc
  · exact ClientFault.noConfusion

/-- A connection that changes, and neither its socket nor whether it is closed. -/
def Alike (tcp tcp' : TcpConnection) : Prop :=
  tcp'.channel.fd = tcp.channel.fd ∧ (tcp'.state = .kDisconnected ↔ tcp.state = .kDisconnected)

theorem lt_of_found (hc : s.conns[c]? = some tcp) : c < s.conns.length :=
  (List.getElem?_eq_some_iff.mp hc).1

theorem any_setConn (hc : s.conns[c]? = some tcp) (tcp' : TcpConnection)
    (p : TcpConnection → Bool) (k : Nat) :
    (s.setConn c tcp').conns[k]?.any p = if k = c then p tcp' else s.conns[k]?.any p := by
  have hlt := lt_of_found hc
  by_cases hk : k = c
  · subst hk
    simp [setConn, hlt]
  · have hk' : c ≠ k := fun heq => hk heq.symm
    simp [setConn, hk, hk']

theorem sockets_setConn (hc : s.conns[c]? = some tcp) (hfd : tcp'.channel.fd = tcp.channel.fd) :
    (s.setConn c tcp').conns.map (·.channel.fd) = s.conns.map (·.channel.fd) := by
  refine List.ext_getElem? fun k => ?_
  by_cases hk : c = k
  · subst hk
    rw [List.getElem?_map, List.getElem?_map, hc, setConn,
      List.getElem?_set_self (lt_of_found hc)]
    exact congrArg some hfd
  · simp [setConn, hk]

theorem Inv.setConn (h : s.Inv) (hc : s.conns[c]? = some tcp) (halike : Alike tcp tcp') :
    (s.setConn c tcp').Inv where
  driven := h.driven
  connected := h.connected
  open_iff := by
    intro k
    have hopen := h.open_iff k
    unfold isOpen at hopen ⊢
    rw [any_setConn hc]
    split
    · rename_i hk
      rw [hk, hc] at hopen
      simpa [TcpClient.setConn, halike.2, hk] using hopen
    · exact hopen
  sockets := (sockets_setConn hc halike.1).trans h.sockets
  destroys := by
    intro k
    have hdestroys := h.destroys k
    unfold isClosed at hdestroys ⊢
    rw [any_setConn hc]
    split
    · rename_i hk
      rw [hk, hc] at hdestroys
      simpa [TcpClient.setConn, halike.2, hk] using hdestroys
    · exact hdestroys
  once := h.once

theorem Inv.queueInLoop (h : s.Inv) {cb : ClientFunctor} (hcb : ∀ c, cb ≠ .connectDestroyed c) :
    (s.queueInLoop cb).Inv where
  driven := h.driven
  connected := h.connected
  open_iff := h.open_iff
  sockets := h.sockets
  destroys := by
    intro k
    have hnone : List.count (.connectDestroyed k) [cb] = 0 := by
      simp [hcb k]
    rw [TcpClient.queueInLoop, List.count_append, hnone, Nat.add_zero]
    exact h.destroys k
  once := h.once

theorem Inv.dequeue (h : s.Inv) {cb : ClientFunctor} (hcb : ∀ c, cb ≠ .connectDestroyed c) :
    Inv { s with pendingFunctors := s.pendingFunctors.erase cb } where
  driven := h.driven
  connected := h.connected
  open_iff := h.open_iff
  sockets := h.sockets
  destroys := by
    intro k
    dsimp only
    rw [List.count_erase_of_ne fun heq => hcb k heq.symm]
    exact h.destroys k
  once := h.once

/-- A function of a connection that leaves it alike. -/
theorem Inv.ends_setConn (h : s.Inv) {x : TcpConnection → Checked TcpConnection}
    (hx : ∀ tcp, Ends (x tcp) (Alike tcp) fun _ => True) (c : Nat) :
    Ends (do
      let tcp ← s.findConn c
      let tcp ← checked (x tcp)
      return s.setConn c tcp) Inv Excused := by
  refine findConn_ends fun tcp hc => (ends_checked (hx tcp)).bind fun tcp' halike => ?_
  exact h.setConn hc halike

/-! ## What functions of a connection leave alike -/

theorem Alike.refl (tcp : TcpConnection) : Alike tcp tcp := ⟨rfl, Iff.rfl⟩

theorem alike_shutdownInLoop (tcp : TcpConnection) : Alike tcp tcp.shutdownInLoop := by
  obtain ⟨hstate, hchannel⟩ := TcpServer.shutdownInLoop_state tcp
  exact ⟨by rw [hchannel], by rw [hstate]⟩

theorem alike_send (tcp : TcpConnection) (isInLoopThread : Bool) (message : Message)
    (result : WriteResult) :
    Ends (tcp.sendMessage isInLoopThread message result) (Alike tcp) fun _ => True := by
  rcases TcpServer.sendMessage_state tcp isInLoopThread message result with
    ⟨tcp', htcp, hstate, hchannel⟩ | hfatal
  · rw [htcp]
    exact ⟨by rw [hchannel], by rw [hstate]⟩
  · rw [hfatal]
    trivial

theorem alike_handleWrite (tcp : TcpConnection) (result : WriteResult) :
    Ends (tcp.handleWrite result) (Alike tcp) fun _ => True := by
  unfold TcpConnection.handleWrite
  split
  · split
    · refine Ends.bind (P := fun _ => True) ?_ ?_
      · cases tcp.outputBuffer.retrieve _ <;> trivial
      · intro outputBuffer _
        dsimp only
        split
        · split
          · exact alike_shutdownInLoop _
          · exact ⟨rfl, Iff.rfl⟩
        · exact ⟨rfl, Iff.rfl⟩
    · trivial
  · exact .refl tcp

theorem alike_shutdown (tcp : TcpConnection) : Alike tcp tcp.shutdown.1 := by
  unfold TcpConnection.shutdown
  split
  · rename_i hstate
    exact ⟨rfl, by simp [TcpConnection.setState, hstate]⟩
  · exact .refl tcp

theorem alike_forceClose (tcp : TcpConnection) : Alike tcp tcp.forceClose.1 := by
  unfold TcpConnection.forceClose
  split
  · rename_i hstate
    refine ⟨rfl, ?_⟩
    rcases hstate with hstate | hstate <;> simp [TcpConnection.setState, hstate]
  · exact .refl tcp

/-! ## The connector's steps -/

theorem newConnection_eq (s : TcpClient) (fd : Int) :
    ∃ tcp, s.newConnection fd =
        .ok { s with connection := some s.conns.length, conns := s.conns ++ [tcp] } ∧
      tcp.state = .kConnected ∧ tcp.channel.fd = fd := by
  obtain ⟨outputBuffer, htcp⟩ := TcpServer.tcpInit_eq fd
  refine ⟨(TcpConnection.setState ⟨.kConnecting, .init fd, outputBuffer, [], []⟩
    .kConnected).setInterest Channel.enableReading, ?_, rfl, rfl⟩
  rw [newConnection, htcp]
  rfl

-- from here on a new connection is what `newConnection_eq` says, and its buffer is not computed
attribute [local irreducible] newConnection

theorem any_concat (conns : List TcpConnection) (tcp : TcpConnection)
    (p : TcpConnection → Bool) (k : Nat) :
    (conns ++ [tcp])[k]?.any p = if k = conns.length then p tcp else conns[k]?.any p := by
  rcases Nat.lt_trichotomy k conns.length with hk | hk | hk
  · rw [List.getElem?_append_left hk, if_neg (Nat.ne_of_lt hk)]
  · rw [hk, List.getElem?_concat_length, if_pos rfl]
    rfl
  · rw [if_neg (Nat.ne_of_gt hk), List.getElem?_eq_none (Nat.le_of_lt hk),
      List.getElem?_eq_none (by simpa using Nat.succ_le_of_lt hk)]

/-- A socket is handed on, and there is no connection. -/
theorem Inv.newConnection (h : s.Inv) (hnone : s.connection = none) {d : Connector}
    (hdriven : d.Driven) (hconnected : d.state = .kConnected) {fd : Int}
    (hhanded : d.handed = s.connector.handed ++ [fd])
    (honce : s.retry = false → s.connector.handed = []) :
    Ends (TcpClient.newConnection { s with connector := d } fd) Inv Excused := by
  obtain ⟨tcp, heq, hstate, hfd⟩ := newConnection_eq { s with connector := d } fd
  rw [heq]
  refine ⟨hdriven, fun _ => hconnected, fun k => ?_, ?_, fun k => ?_, fun hretry => .inr ?_⟩
  · have hold := h.open_iff k
    rw [hnone] at hold
    unfold isOpen at hold ⊢
    rw [any_concat]
    by_cases hk : k = s.conns.length
    · simp [hk, hstate]
    · rw [if_neg hk]
      simpa [Ne.symm hk] using hold
  · rw [List.map_append, h.sockets, List.map_singleton, hfd]
    exact hhanded.symm
  · have hold := h.destroys k
    unfold isClosed at hold ⊢
    rw [any_concat]
    by_cases hk : k = s.conns.length
    · simpa [hk, hstate] using hold
    · rw [if_neg hk]
      exact hold
  · dsimp only
    rw [hhanded, honce hretry]
    exact ⟨rfl, hconnected⟩

/-- **A step of the connector.** -/
theorem Inv.drive (h : s.Inv) {l : Connector.Label} (hpossible : s.connector.Possible l)
    (howner : s.connector.Owner l)
    (hstays : s.connection ≠ none → (s.connector.setUp l).state = .kConnected)
    (hretry : s.retry = false → s.connector.setUp l = s.connector) :
    Ends (s.drive l) Inv Excused := by
  have hends : Ends (s.connector.step l)
      (fun d => d.Driven ∧ (s.connector.setUp l).Progress d) fun _ => True := by
    have hprogress := s.connector.step_progress l
    cases hstep : s.connector.step l with
    | error e => trivial
    | ok d =>
      rw [hstep] at hprogress
      exact ⟨h.driven.step hpossible howner hstep, hprogress⟩
  have hsame : (s.connector.setUp l).handed = s.connector.handed := by
    cases l <;> rfl
  refine (ends_checked hends).bind ?_
  rintro d ⟨hdriven, hprogress⟩
  dsimp only
  rcases hprogress with ⟨hhanded, hstill⟩ | ⟨fd, hhanded, hnot, hconnected⟩
  · rw [hhanded, hsame, List.drop_length]
    refine ⟨hdriven, fun hsome => hstill (hstays hsome), h.open_iff,
      h.sockets.trans (hhanded.trans hsame).symm, h.destroys, fun hfalse => ?_⟩
    have honce := h.once hfalse
    rw [← hsame, ← hhanded] at honce
    exact honce.imp_right fun hone => ⟨hone.1, hstill (by rw [hretry hfalse, hone.2])⟩
  · have hnone : s.connection = none := by
      by_contra hsome
      exact hnot (hstays hsome)
    rw [hsame] at hhanded
    rw [hhanded, List.drop_left, List.foldlM_cons]
    have honce : s.retry = false → s.connector.handed = [] := fun hfalse =>
      (h.once hfalse).resolve_right fun hone => hnot (by rw [hretry hfalse, hone.2])
    have hnew := h.newConnection hnone hdriven hconnected hhanded honce
    exact hnew.bind fun _ hinv => hinv

/-! ## Closing -/

/-- A connection that has closed, and is forgotten. -/
theorem Inv.forget (h : s.Inv) (hc : s.conns[c]? = some tcp) (hopen : s.connection = some c)
    (hfd : tcp'.channel.fd = tcp.channel.fd) (hstate : tcp'.state = .kDisconnected) :
    Inv ({ s.setConn c tcp' with connection := none }.queueInLoop (.connectDestroyed c)) where
  driven := h.driven
  connected := by simp [TcpClient.queueInLoop]
  open_iff := by
    intro k
    have hk := h.open_iff k
    rw [hopen] at hk
    have hany := any_setConn hc tcp' (·.state ≠ .kDisconnected) k
    change (s.setConn c tcp').conns[k]?.any _ = true ↔ none = some k
    rw [hany]
    split
    · simp [hstate]
    · rename_i hne
      simpa [isOpen, Ne.symm hne] using hk
  sockets := (sockets_setConn hc hfd).trans h.sockets
  destroys := by
    intro k
    have hk := h.destroys k
    have hany := any_setConn hc tcp' (·.state = .kDisconnected) k
    change (s.pendingFunctors ++ [ClientFunctor.connectDestroyed c]).count
      (.connectDestroyed k) + s.destroyed.count k =
        if (s.setConn c tcp').conns[k]?.any _ then 1 else 0
    rw [hany, List.count_append]
    by_cases hkc : k = c
    · subst hkc
      have hnotClosed : s.isClosed k = false := by
        have hisOpen := (h.open_iff k).mpr hopen
        simpa [isOpen, isClosed, hc] using hisOpen
      rw [hnotClosed] at hk
      simp only [hstate, decide_true, if_true, List.count_singleton_self]
      simp only [Bool.false_eq_true, if_false] at hk
      omega
    · have hne : ClientFunctor.connectDestroyed c ≠ .connectDestroyed k := by simp [Ne.symm hkc]
      rw [if_neg hkc, List.count_singleton, if_neg (by simpa using hne)]
      exact hk
  once := h.once

theorem Inv.handleClose (h : s.Inv) (c : Nat) (a : SocketAnswers) :
    Ends (s.handleClose c a) Inv Excused := by
  refine findConn_ends fun tcp hc => ?_
  refine Ends.bind (P := fun tcp' => tcp.state ≠ .kDisconnected ∧
    tcp'.channel.fd = tcp.channel.fd ∧ tcp'.state = .kDisconnected) (ends_checked ?_) ?_
  · unfold TcpConnection.handleClose
    by_cases hstate : tcp.state = .kConnected ∨ tcp.state = .kDisconnecting
    · rw [check_pos hstate]
      refine ⟨?_, rfl, rfl⟩
      rcases hstate with hstate | hstate <;> simp [hstate]
    · rw [check_neg hstate]
      trivial
  · rintro tcp' ⟨hstate, hfd, hclosed⟩
    -- a connection that is not closed is the one the client knows
    have hopen : s.connection = some c := (h.open_iff c).mp (by simp [isOpen, hc, hstate])
    have hforget := h.forget hc hopen hfd hclosed
    unfold removeConnection
    rw [if_pos (show (s.setConn c tcp').connection = some c from hopen)]
    dsimp only
    split
    · rename_i hagain
      refine hforget.drive trivial ?_ ?_ ?_
      · exact h.connected (by simp [hopen])
      · simp [TcpClient.queueInLoop]
      · intro hfalse
        rw [hfalse] at hagain
        cases hagain
    · exact hforget

theorem Inv.forceCloseInLoop (h : s.Inv) (c : Nat) (a : SocketAnswers) :
    Ends (s.forceCloseInLoop c a) Inv Excused := by
  refine findConn_ends fun tcp hc => ?_
  split
  · exact h.handleClose c a
  · exact h

theorem Inv.shutdownInLoop (h : s.Inv) (c : Nat) :
    Ends (s.shutdownInLoop c) Inv Excused :=
  findConn_ends fun tcp hc => h.setConn hc (alike_shutdownInLoop tcp)

theorem Inv.shutdown (h : s.Inv) (c : Nat) (isInLoopThread : Bool) :
    Ends (s.shutdown c isInLoopThread) Inv Excused := by
  refine findConn_ends fun tcp hc => ?_
  have hset := h.setConn hc (alike_shutdown tcp)
  dsimp only
  split
  · split
    · exact hset.shutdownInLoop c
    · exact hset.queueInLoop (by simp)
  · exact hset

theorem Inv.forceClose (h : s.Inv) (c : Nat) : Ends (s.forceClose c) Inv Excused := by
  refine findConn_ends fun tcp hc => ?_
  have hset := h.setConn hc (alike_forceClose tcp)
  dsimp only
  split
  · exact hset.queueInLoop (by simp)
  · exact hset

/-- The destruction of a connection is one of those that were queued. -/
theorem Inv.connectDestroyed (h : s.Inv)
    (hpending : .connectDestroyed c ∈ s.pendingFunctors) (a : SocketAnswers) :
    Ends (s.runFunctor (.connectDestroyed c) a) Inv Excused := by
  refine findConn_ends fun tcp hc => ?_
  have hset := h.setConn hc
    (show Alike tcp { tcp with channel := { tcp.channel with addedToLoop := false } } from
      ⟨rfl, Iff.rfl⟩)
  refine ⟨hset.driven, hset.connected, hset.open_iff, hset.sockets, fun k => ?_, hset.once⟩
  have hdestroys := hset.destroys k
  change (s.pendingFunctors.erase (.connectDestroyed c)).count (.connectDestroyed k) +
    (s.destroyed ++ [c]).count k = _
  rw [List.count_append]
  by_cases hk : k = c
  · subst hk
    have hpos := List.count_pos_iff.mpr hpending
    rw [List.count_erase_self, List.count_singleton_self]
    refine Eq.trans ?_ hdestroys
    change _ = s.pendingFunctors.count (.connectDestroyed k) + s.destroyed.count k
    omega
  · rw [List.count_erase_of_ne (by simp [hk]), List.count_singleton,
      if_neg (by simpa using Ne.symm hk)]
    exact hdestroys

theorem Inv.runFunctor (h : s.Inv) {cb : ClientFunctor} (hpending : cb ∈ s.pendingFunctors)
    (a : SocketAnswers) : Ends (s.runFunctor cb a) Inv Excused := by
  cases cb with
  | connectDestroyed c => exact h.connectDestroyed hpending a
  | forceCloseInLoop c => exact (h.dequeue (by simp)).forceCloseInLoop c a
  | shutdownInLoop c => exact (h.dequeue (by simp)).shutdownInLoop c

theorem Inv.callback (h : s.Inv) (c : Nat) (read : ReadResult) (write : WriteResult)
    (a : SocketAnswers) (cb : Channel.Callback) :
    Ends (s.callback c read write a cb) Inv Excused := by
  cases cb with
  | close => exact h.handleClose c a
  | error => exact h
  | read =>
    cases read with
    | bytes => exact h
    | eof => exact h.handleClose c a
    | failed => exact ClientFault.noConfusion
  | write => exact h.ends_setConn (fun tcp => alike_handleWrite tcp write) c

/-! ## Runs -/

/-- **Every step keeps to one connection.** -/
theorem Inv.step (h : s.Inv) {l : Label} (hen : s.Enabled l) : Ends (s.step l) Inv Excused := by
  cases l with
  | connect isInLoopThread a =>
    have hwanted : Inv { s with connect_ := true } :=
      ⟨h.driven, h.connected, h.open_iff, h.sockets, h.destroys, h.once⟩
    exact hwanted.drive trivial trivial h.connected fun _ => rfl
  | disconnect isInLoopThread =>
    have hunwanted : Inv { s with connect_ := false } :=
      ⟨h.driven, h.connected, h.open_iff, h.sockets, h.destroys, h.once⟩
    change Ends (disconnect s isInLoopThread) Inv Excused
    unfold disconnect
    dsimp only
    split
    · exact hunwanted.shutdown _ isInLoopThread
    · exact hunwanted
  | stop =>
    have hunwanted : Inv { s with connect_ := false } :=
      ⟨h.driven, h.connected, h.open_iff, h.sockets, h.destroys, h.once⟩
    exact hunwanted.drive trivial trivial h.connected fun _ => rfl
  | enableRetry =>
    exact ⟨h.driven, h.connected, h.open_iff, h.sockets, h.destroys, fun hfalse => by cases hfalse⟩
  | connector l =>
    obtain ⟨hloop, hpossible⟩ := hen
    cases l with
    | start | stop | restart => cases hloop
    | fire | functor | event => exact h.drive hpossible trivial h.connected fun _ => rfl
  | functor cb a => exact h.runFunctor hen a
  | event c revents read write a =>
    exact ends_foldlM (fun t cb ht => ht.callback c read write a cb) _ h
  | send c isInLoopThread message result =>
    exact h.ends_setConn (fun tcp => alike_send tcp isInLoopThread message result) c
  | shutdown c isInLoopThread => exact h.shutdown c isInLoopThread
  | forceClose c => exact h.forceClose c

theorem run_inv {ls : List Label} {r : Except ClientFault TcpClient} (h : system.Run init ls r) :
    Ends r Inv Excused := h.ends inv_init fun _ _ hs hen => hs.step hen

/-- **One connection at a time.** In every run of a client, in whatever order its user, the loop
and the network act: the assertion of `removeConnection` does not fail. The client restarts its
connector only when it is connected, so that the connector's run is one of those in which
sockets are owned; the sockets it has handed on are those of the client's connections, in their
order. At most one connection is not closed, `connection_` is that one, and every one that is closed
is destroyed once, or will be. -/
theorem client_exact {ls : List Label} {r : Except ClientFault TcpClient}
    (h : system.Run init ls r) :
    r ≠ .error .removeConnection ∧ ∀ s, r = .ok s →
      (∃ cs, (Connector.system Connector.Owner).Run Connector.init cs (.ok s.connector)) ∧
      s.connector.Owned ∧ s.conns.map (·.channel.fd) = s.connector.handed ∧
      (∀ c, s.isOpen c = true ↔ s.connection = some c) ∧
      (s.connection ≠ none → s.connector.state = .kConnected) ∧
      ∀ c, s.pendingFunctors.count (.connectDestroyed c) + s.destroyed.count c =
        if s.isClosed c then 1 else 0 := by
  have hends := run_inv h
  cases r with
  | error e => exact ⟨fun heq => hends (by cases heq; rfl), by simp⟩
  | ok t =>
    refine ⟨by simp, ?_⟩
    rintro _ ⟨⟩
    have hinv : t.Inv := hends
    exact ⟨hinv.driven, hinv.driven.owned, hinv.sockets, hinv.open_iff, hinv.connected,
      hinv.destroys⟩

/-- A connection that is made. -/
def connecting : List Label := [.connect true .inProgress, .connector (.event POLLOUT .inProgress),
  .connector (.functor .resetChannel .inProgress)]

/-- A client that retries: its first connection is closed by the other side, and a second one made
before the first is destroyed. -/
theorem client_exact_again :
    ∃ s, system.Run init (connecting ++ [.enableRetry,
        .event 0 POLLIN .eof (.accepted 0) .inProgress,
        .connector (.event POLLOUT .inProgress)]) (.ok s) ∧
      s.connection = some 1 ∧ s.connector.Owned ∧
      s.pendingFunctors.count (.connectDestroyed 0) + s.destroyed.count 0 = 1 := by
  obtain ⟨s, hrun, hconnection, hclosed⟩ :=
    System.run_of_reaches (S := system) (P := fun s => s.connection = some 1 ∧ s.isClosed 0 = true)
      (show System.reaches _ init (connecting ++ [.enableRetry,
        .event 0 POLLIN .eof (.accepted 0) .inProgress,
        .connector (.event POLLOUT .inProgress)]) _ = true by decide +kernel)
  obtain ⟨-, hs⟩ := client_exact hrun
  obtain ⟨-, howned, -, -, -, hdestroys⟩ := hs s rfl
  exact ⟨s, hrun, hconnection, howned, by rw [hdestroys 0, hclosed]; rfl⟩

/-- **A client that does not retry connects once.** In every run, as long as `retry_` is not set
there is one connection at most, and after it was made, closed or not, a `connect()` on the loop's
thread ends in the assertion of `startInLoop`: nothing takes the connector out of `kConnected`. -/
theorem connects_once {ls : List Label} {s : TcpClient} (h : system.Run init ls (.ok s))
    (hretry : s.retry = false) :
    s.conns.length ≤ 1 ∧
      (s.conns ≠ [] → ∀ a, s.connect true a = .error (.fault (.assertion .startInLoop))) := by
  have hinv : s.Inv := run_inv h
  have hlength : s.conns.length = s.connector.handed.length := by
    rw [← hinv.sockets, List.length_map]
  rcases hinv.once hretry with hnone | ⟨hone, hconnected⟩
  · rw [hnone] at hlength
    exact ⟨by rw [hlength]; exact Nat.zero_le 1,
      fun hne => absurd (List.length_eq_zero_iff.mp hlength) hne⟩
  · refine ⟨by rw [hlength, hone], fun _ a => ?_⟩
    have hfails : ({ s.connector with connect_ := true } : Connector).startInLoop a =
        .error (.assertion .startInLoop) :=
      Connector.startInLoop_busy (by simp [hconnected]) a
    change checked (({ s.connector with connect_ := true } : Connector).startInLoop a) >>= _ = _
    rw [hfails]
    rfl

/-- A client whose connection was closed and destroyed, and that has no way to another one. -/
theorem connects_once_closed :
    ∃ s, system.Run init (connecting ++ [.event 0 POLLIN .eof (.accepted 0) .inProgress,
        .functor (.connectDestroyed 0) .inProgress]) (.ok s) ∧
      s.connection = none ∧ s.destroyed = [0] ∧
      s.connect true .inProgress = .error (.fault (.assertion .startInLoop)) := by
  obtain ⟨s, hrun, hretry, hmade, hnone, hdestroyed⟩ :=
    System.run_of_reaches (S := system) (P := fun s => s.retry = false ∧ s.conns.length = 1 ∧
      s.connection = none ∧ s.destroyed = [0])
      (show System.reaches _ init (connecting ++ [.event 0 POLLIN .eof (.accepted 0) .inProgress,
        .functor (.connectDestroyed 0) .inProgress]) _ = true by decide +kernel)
  have hne : s.conns ≠ [] := by
    intro heq
    rw [heq] at hmade
    cases hmade
  exact ⟨s, hrun, hnone, hdestroyed, (connects_once hrun hretry).2 hne .inProgress⟩

end TcpClient

end ClyServer.Net
