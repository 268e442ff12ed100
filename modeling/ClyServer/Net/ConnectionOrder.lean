import ClyServer.Net.LiveConnection
import ClyServer.Net.ServerSteps

/-!
# A connection only moves forward

In every run of a connection `state_` goes forward only, the socket is half-closed
at most once, and nothing is written to it after that nor once the connection is
disconnected. The channel never asks for write-ready events, because the code
that would buffer a message is commented out; so `send` and `shutdown` are the
only ways to the socket. Both need `kConnected`, which `shutdown` leaves before it
does or queues anything.
-/

namespace ClyServer.Net

open ClyServer.Lib

/-- How far a connection has come. -/
def StateE.rank : StateE → Nat
  | kConnecting => 0
  | kConnected => 1
  | kDisconnecting => 2
  | kDisconnected => 3

namespace LiveConnection

/-- How often the socket was half-closed. -/
def halfCloses (s : LiveConnection) : Nat := s.calls.countP (·.1 = .shutdownWrite)

/-- At most one half-close; no write behind it, and none while disconnected. -/
structure Orderly (s : LiveConnection) : Prop where
  once : s.halfCloses ≤ 1
  connected : ∀ call ∈ s.calls, call.1 = .write → call.2 ≠ .kDisconnected
  order : s.calls.Pairwise fun a b => b.1 = .write → a.1 ≠ .shutdownWrite

/-- What every step keeps. A half-close, done or queued, is one at most, and there
is none while the connection is connected. -/
structure Inv (s : LiveConnection) : Prop where
  established : s.tcp.state ≠ .kConnecting
  interest : s.tcp.channel.events = 0 ∨ s.tcp.channel.events = POLLIN
  parts : .writeCompleted ∉ s.parts
  half : s.halfCloses + s.tasks.count .shutdownInLoop ≤ if s.tcp.state = .kConnected then 0 else 1
  connected : ∀ call ∈ s.calls, call.1 = .write → call.2 ≠ .kDisconnected
  order : s.calls.Pairwise fun a b => b.1 = .write → a.1 ≠ .shutdownWrite

variable {s s' : LiveConnection}

theorem Inv.orderly (h : Inv s) : Orderly s := by
  refine ⟨?_, h.connected, h.order⟩
  have hhalf := h.half
  split at hhalf <;> omega

/-- The channel asks for input or for nothing, so it never asks to write. -/
theorem Inv.quiet (h : Inv s) : s.tcp.channel.isWriting = false := by
  rw [Channel.isWriting]
  rcases h.interest with hevents | hevents
  · rw [hevents]
    decide
  · rw [hevents]
    decide

/-- A step: the invariant holds behind it, and the state went forward. -/
structure Moves (s s' : LiveConnection) : Prop where
  inv : Inv s'
  forward : s.tcp.state.rank ≤ s'.tcp.state.rank

theorem Inv.moves_self (h : Inv s) : Moves s s := ⟨h, Nat.le_refl _⟩

/-- What does not go to the socket nor queue a half-close moves forward if the
state does. -/
theorem Inv.moves (h : Inv s) (hforward : s.tcp.state.rank ≤ s'.tcp.state.rank)
    (hinterest : s'.tcp.channel.events = 0 ∨ s'.tcp.channel.events = POLLIN)
    (hparts : .writeCompleted ∉ s'.parts) (hcalls : s'.calls = s.calls)
    (htasks : s'.tasks.count .shutdownInLoop ≤ s.tasks.count .shutdownInLoop) : Moves s s' := by
  refine ⟨⟨?_, hinterest, hparts, ?_, ?_, ?_⟩, hforward⟩
  · intro hconnecting
    apply h.established
    rw [hconnecting] at hforward
    cases hstate : s.tcp.state <;> simp [hstate, StateE.rank] at hforward ⊢
  · have hhalf := h.half
    rw [halfCloses, hcalls, ← halfCloses]
    by_cases hconnected : s'.tcp.state = .kConnected
    · have hbefore : s.tcp.state = .kConnected := by
        have hestablished := h.established
        rw [hconnected] at hforward
        cases hstate : s.tcp.state <;> simp [hstate, StateE.rank] at hforward hestablished ⊢
      rw [if_pos hbefore] at hhalf
      rw [if_pos hconnected]
      omega
    · rw [if_neg hconnected]
      split at hhalf <;> omega
  · rw [hcalls]
    exact h.connected
  · rw [hcalls]
    exact h.order

/-! ## The parts of steps -/

theorem interest_enableReading {events : Events} (h : events = 0 ∨ events = POLLIN) :
    Channel.enableReading events = POLLIN := by
  rcases h with rfl | rfl <;> decide

theorem interest_disableReading {events : Events} (h : events = 0 ∨ events = POLLIN) :
    Channel.disableReading events = 0 := by
  rcases h with rfl | rfl <;> decide

theorem Inv.moves_startReadInLoop (h : Inv s) : Moves s s.startReadInLoop := by
  unfold startReadInLoop
  split
  · exact h.moves (Nat.le_refl _) (.inr (interest_enableReading h.interest)) h.parts rfl
      (Nat.le_refl _)
  · exact h.moves_self

theorem Inv.moves_stopReadInLoop (h : Inv s) : Moves s s.stopReadInLoop := by
  unfold stopReadInLoop
  split
  · exact h.moves (Nat.le_refl _) (.inl (interest_disableReading h.interest)) h.parts rfl
      (Nat.le_refl _)
  · exact h.moves_self

/-- A functor other than the half-close is queued. -/
theorem Inv.moves_queue (h : Inv s) {task : ConnTask} (htask : task ≠ .shutdownInLoop) :
    Moves s (s.queue task) := by
  refine h.moves (Nat.le_refl _) h.interest h.parts rfl ?_
  rw [queue, List.count_append, List.count_singleton, if_neg (by simpa using htask)]
  exact Nat.le_refl _

theorem rank_le_three (state : StateE) : state.rank ≤ 3 := by
  cases state <;> decide

theorem Inv.moves_handleClose (h : Inv s) : Moves s s.handleClose.last := by
  unfold handleClose attempt TcpConnection.handleClose
  by_cases hopen : s.tcp.state = .kConnected ∨ s.tcp.state = .kDisconnecting
  · rw [check_pos hopen]
    refine h.moves (rank_le_three _) (.inl rfl) ?_ rfl (Nat.le_refl _)
    intro hmem
    rcases List.mem_cons.mp hmem with hmem | hmem
    · cases hmem
    · exact h.parts hmem
  · rw [check_neg hopen]
    exact h.moves_self

theorem Inv.moves_handleWrite (h : Inv s) (result : WriteResult) :
    Moves s (s.handleWrite result).last := by
  rw [handleWrite, h.quiet]
  exact h.moves_self

theorem halfCloses_record (s : LiveConnection) (call : SocketCall) :
    (s.record call).halfCloses = s.halfCloses + if call = .shutdownWrite then 1 else 0 := by
  rw [halfCloses, record, List.countP_append, List.countP_singleton]
  simp [halfCloses]

/-- A write while connected: no half-close has been made. -/
theorem Inv.record_write (h : Inv s) (hstate : s.tcp.state = .kConnected) :
    Inv (s.record .write) := by
  have hhalf := h.half
  rw [if_pos hstate] at hhalf
  refine ⟨h.established, h.interest, h.parts, ?_, ?_, ?_⟩
  · rw [halfCloses_record]
    exact h.half
  · intro call hcall hwrite
    rcases List.mem_append.mp hcall with hcall | hcall
    · exact h.connected call hcall hwrite
    · rw [List.mem_singleton.mp hcall, hstate]
      decide
  · refine List.pairwise_append.mpr ⟨h.order, List.pairwise_singleton _ _, ?_⟩
    intro a ha b hb _ hclose
    have hnone : s.calls.countP (·.1 = .shutdownWrite) = 0 := by
      rw [halfCloses] at hhalf
      omega
    exact List.countP_eq_zero.mp hnone a ha (decide_eq_true hclose)

/-- The half-close, where none was made or is queued. -/
theorem Inv.moves_shutdownInLoop (h : Inv s) (hstate : s.tcp.state ≠ .kConnected)
    (hnone : s.halfCloses + s.tasks.count .shutdownInLoop = 0) (failed : Bool) :
    Moves s (s.shutdownInLoop failed).last := by
  have hlast : (s.shutdownInLoop failed).last =
      { s.record .shutdownWrite with tcp := s.tcp.shutdownInLoop } := by
    rw [shutdownInLoop, h.quiet]
    cases failed <;> rfl
  have htcp := TcpServer.shutdownInLoop_state s.tcp
  rw [hlast]
  refine ⟨⟨?_, ?_, h.parts, ?_, ?_, ?_⟩, ?_⟩
  · rw [htcp.1]
    exact h.established
  · rw [htcp.2]
    exact h.interest
  · rw [htcp.1, if_neg hstate]
    have hcount := halfCloses_record s .shutdownWrite
    rw [if_pos rfl] at hcount
    show (s.record .shutdownWrite).halfCloses + s.tasks.count .shutdownInLoop ≤ 1
    omega
  · intro call hcall hwrite
    rcases List.mem_append.mp hcall with hcall | hcall
    · exact h.connected call hcall hwrite
    · rw [List.mem_singleton.mp hcall] at hwrite
      cases hwrite
  · refine List.pairwise_append.mpr ⟨h.order, List.pairwise_singleton _ _, ?_⟩
    intro a _ b hb hwrite
    rw [List.mem_singleton.mp hb] at hwrite
    cases hwrite
  · exact Nat.le_of_eq (congrArg StateE.rank htcp.1.symm)

/-! ## Calls of the user -/

/-- A send that is not recorded as a write asks nothing of write(2). -/
theorem sendMessage_unwritten {isInLoopThread : Bool} (h : s.sendWrites isInLoopThread = false)
    (message : Message) (result : WriteResult) :
    s.tcp.sendMessage isInLoopThread message result = .ok s.tcp := by
  rw [TcpConnection.sendMessage_eq, TcpConnection.send]
  by_cases hstate : s.tcp.state = .kConnected
  · cases isInLoopThread with
    | false => simp [hstate]
    | true =>
      have hbusy : (!s.tcp.channel.isWriting && s.tcp.outputBuffer.readableBytes = 0) = false := by
        simpa [sendWrites, hstate] using h
      simp only [hstate, if_true, TcpConnection.sendInLoop, hbusy]
      rfl
  · simp [hstate]

theorem Inv.moves_send (h : Inv s) (isInLoopThread : Bool) (message : Message)
    (result : WriteResult) : Moves s (s.send isInLoopThread message result).last := by
  unfold send attempt
  by_cases hwrites : s.sendWrites isInLoopThread = true
  · have hstate : s.tcp.state = .kConnected := by
      simp only [sendWrites, Bool.and_eq_true, decide_eq_true_eq] at hwrites
      exact hwrites.1.1.1
    have hinv := h.record_write hstate
    simp only [if_pos hwrites]
    rcases TcpServer.sendMessage_state (s.record .write).tcp isInLoopThread message result with
      ⟨tcp, hsend, hkeep, hchannel⟩ | hfatal
    · rw [hsend]
      have hmoves : Moves (s.record .write) { s.record .write with tcp } := by
        refine hinv.moves (Nat.le_of_eq (congrArg _ hkeep.symm)) ?_ hinv.parts rfl (Nat.le_refl _)
        rw [hchannel]
        exact hinv.interest
      exact ⟨hmoves.inv, hmoves.forward⟩
    · rw [hfatal]
      exact ⟨hinv, Nat.le_refl _⟩
  · simp only [if_neg hwrites]
    rw [Bool.not_eq_true] at hwrites
    rw [sendMessage_unwritten hwrites]
    exact h.moves_self

/-- An open connection sets out to disconnect. -/
theorem Inv.moves_disconnecting (h : Inv s)
    (hopen : s.tcp.state = .kConnected ∨ s.tcp.state = .kDisconnecting) :
    Moves s { s with tcp := s.tcp.setState .kDisconnecting } := by
  have hforward : s.tcp.state.rank ≤ StateE.kDisconnecting.rank := by
    rcases hopen with hstate | hstate
    · rw [hstate]
      decide
    · exact Nat.le_of_eq (congrArg StateE.rank hstate)
  exact h.moves hforward h.interest h.parts rfl (Nat.le_refl _)

theorem Inv.moves_shutdown (h : Inv s) (isInLoopThread failed : Bool) :
    Moves s (s.shutdown isInLoopThread failed).last := by
  unfold shutdown TcpConnection.shutdown
  by_cases hstate : s.tcp.state = .kConnected
  · simp only [if_pos hstate, if_true]
    have hnone : s.halfCloses + s.tasks.count .shutdownInLoop = 0 := by
      have hhalf := h.half
      rw [if_pos hstate] at hhalf
      omega
    -- the state has moved before anything is done or queued
    have hleft := h.moves_disconnecting (.inl hstate)
    cases isInLoopThread with
    | true =>
      have hmoves := hleft.inv.moves_shutdownInLoop (by simp [TcpConnection.setState]) hnone failed
      exact ⟨hmoves.inv, Nat.le_trans hleft.forward hmoves.forward⟩
    | false =>
      refine ⟨⟨hleft.inv.established, h.interest, h.parts, ?_, h.connected, h.order⟩, hleft.forward⟩
      show s.halfCloses + (s.tasks ++ [ConnTask.shutdownInLoop]).count .shutdownInLoop ≤ 1
      rw [List.count_append, List.count_singleton_self]
      omega
  · simp only [if_neg hstate, Bool.false_eq_true, if_false]
    exact h.moves_self

theorem Inv.moves_forceClose (h : Inv s) : Moves s s.forceClose := by
  unfold forceClose TcpConnection.forceClose
  by_cases hopen : s.tcp.state = .kConnected ∨ s.tcp.state = .kDisconnecting
  · simp only [if_pos hopen, if_true]
    have hleft := h.moves_disconnecting hopen
    have hne : ConnTask.forceCloseInLoop ≠ .shutdownInLoop := by decide
    have hmoves := hleft.inv.moves_queue hne
    exact ⟨hmoves.inv, Nat.le_trans hleft.forward hmoves.forward⟩
  · simp only [if_neg hopen, Bool.false_eq_true, if_false]
    exact h.moves_self

/-! ## Steps and runs -/

theorem Inv.moves_handle (h : Inv s) (read : ReadResult) (write : WriteResult) (failed : Bool)
    {part : HandlerPart} (hpart : part ≠ .writeCompleted) :
    Moves s (s.handle read write failed part).last := by
  cases part with
  | callback cb =>
    cases cb with
    | close => exact h.moves_handleClose
    | error => exact h.moves_self
    | read =>
      cases read with
      | bytes => exact h.moves_self
      | eof => exact h.moves_handleClose
      | failed => exact h.moves_self
    | write => exact h.moves_handleWrite write
  | closeCallback => exact h.moves_queue (by decide)
  | writeCompleted => exact absurd rfl hpart

theorem Inv.moves_forceCloseInLoop (h : Inv s) : Moves s s.forceCloseInLoop.last := by
  unfold forceCloseInLoop
  split
  · exact h.moves_handleClose
  · exact h.moves_self

/-- The first of the queued functors called. -/
theorem Inv.moves_call (h : Inv s) {task : ConnTask} {rest : List ConnTask}
    (htasks : s.tasks = task :: rest) (failed : Bool) :
    Moves s (({ s with tasks := rest } : LiveConnection).call failed task).last := by
  have hfewer : rest.count .shutdownInLoop ≤ s.tasks.count .shutdownInLoop := by
    rw [htasks]
    exact List.count_le_count_cons
  have hrest : Moves s { s with tasks := rest } :=
    h.moves (Nat.le_refl _) h.interest h.parts rfl hfewer
  cases task with
  | shutdownInLoop =>
    have hhalf := h.half
    rw [htasks, List.count_cons_self] at hhalf
    have hstate : s.tcp.state ≠ .kConnected := by
      intro hstate
      rw [if_pos hstate] at hhalf
      omega
    rw [if_neg hstate] at hhalf
    have hmoves := hrest.inv.moves_shutdownInLoop hstate
      (show s.halfCloses + rest.count .shutdownInLoop = 0 by omega) failed
    exact ⟨hmoves.inv, hmoves.forward⟩
  | forceCloseInLoop =>
    have hmoves := hrest.inv.moves_forceCloseInLoop
    exact ⟨hmoves.inv, hmoves.forward⟩
  | startReadInLoop =>
    have hmoves := hrest.inv.moves_startReadInLoop
    exact ⟨hmoves.inv, hmoves.forward⟩
  | stopReadInLoop =>
    have hmoves := hrest.inv.moves_stopReadInLoop
    exact ⟨hmoves.inv, hmoves.forward⟩
  | connectDestroyed => exact h.moves (Nat.le_refl _) h.interest h.parts rfl hfewer

/-- Every step moves forward, also the last one of a run that ends. -/
theorem Inv.moves_step (h : Inv s) (l : Label) : Moves s (s.step l).last := by
  cases l with
  | send isInLoopThread message result => exact h.moves_send isInLoopThread message result
  | shutdown isInLoopThread failed => exact h.moves_shutdown isInLoopThread failed
  | forceClose => exact h.moves_forceClose
  | startRead isInLoopThread =>
    cases isInLoopThread with
    | true => exact h.moves_startReadInLoop
    | false => exact h.moves_queue (by decide)
  | stopRead isInLoopThread =>
    cases isInLoopThread with
    | true => exact h.moves_stopReadInLoop
    | false => exact h.moves_queue (by decide)
  | pollEvent revents =>
    have hparts : HandlerPart.writeCompleted ∉ (Channel.dispatch revents).map .callback := by simp
    exact h.moves (Nat.le_refl _) h.interest hparts rfl (Nat.le_refl _)
  | handle read write failed =>
    cases hparts : s.parts with
    | nil =>
      simp only [step, hparts]
      exact h.moves_self
    | cons part rest =>
      have hmem := h.parts
      rw [hparts, List.mem_cons, not_or] at hmem
      have hrest : Moves s { s with parts := rest } :=
        h.moves (Nat.le_refl _) h.interest hmem.2 rfl (Nat.le_refl _)
      have hmoves := hrest.inv.moves_handle read write failed (Ne.symm hmem.1)
      simp only [step, hparts]
      exact ⟨hmoves.inv, hmoves.forward⟩
  | runTask failed =>
    cases htasks : s.tasks with
    | nil =>
      simp only [step, htasks]
      exact h.moves_self
    | cons task rest =>
      simp only [step, htasks]
      exact h.moves_call htasks failed

/-- A connection just established. -/
theorem inv_start {fd : Int} {tcp : TcpConnection}
    (h : TcpConnection.init fd >>= TcpConnection.connectEstablished = .ok tcp) :
    Inv (start tcp) := by
  obtain ⟨b, hb, _⟩ := Buffer.init_spec Buffer.kInitialSize
  rw [TcpConnection.init, hb] at h
  cases h
  exact ⟨StateE.noConfusion, .inr (show Channel.enableReading 0 = POLLIN by decide),
    by simp [start], by simp [start, halfCloses], by simp [start], by simp [start]⟩

theorem inv_run {tcp : TcpConnection} (hstart : Inv (start tcp)) {ls : List Label} {r : Ending}
    (h : system.Run (start tcp) ls r) : Inv r.last := by
  induction h with
  | nil => exact hstart
  | snoc _ _ ih => exact (ih.moves_step _).inv

/-- The state only goes forward along a run. -/
theorem rank_run {tcp : TcpConnection} (hstart : Inv (start tcp)) {ls : List Label} {r : Ending}
    (h : system.Run (start tcp) ls r) {pre : List Label} {t : LiveConnection} (hpre : pre <+: ls)
    (ht : system.Run (start tcp) pre (.ok t)) : t.tcp.state.rank ≤ r.last.tcp.state.rank := by
  induction h with
  | nil =>
    rw [List.prefix_nil.mp hpre] at ht
    cases System.run_nil_iff.mp ht
    exact Nat.le_refl _
  | @snoc ls u l hrun hen ih =>
    rcases List.prefix_concat_iff.mp hpre with rfl | hpre
    · have hlast : t = Ending.last (system.step u l) :=
        congrArg Ending.last (ht.unique (.snoc hrun hen))
      rw [hlast]
    · exact Nat.le_trans (ih hpre) ((inv_run hstart hrun).moves_step l).forward

/-- **A connection only moves forward, and nothing is written behind its
half-close.** In every run of an established connection, whatever its outcome, no
state reached is ahead of the last one, the socket was half-closed at most once,
and no write(2) came after that or while the connection was disconnected. -/
theorem connection_forward {fd : Int} {tcp : TcpConnection}
    (htcp : TcpConnection.init fd >>= TcpConnection.connectEstablished = .ok tcp)
    {ls : List Label} {r : Ending} (h : system.Run (start tcp) ls r) :
    (∀ pre t, pre <+: ls → system.Run (start tcp) pre (.ok t) →
      t.tcp.state.rank ≤ r.last.tcp.state.rank) ∧ Orderly r.last := by
  have hstart := inv_start htcp
  exact ⟨fun pre t hpre ht => rank_run hstart h hpre ht, (inv_run hstart h).orderly⟩

/-- A message is sent, another thread asks for the half-close, a second message
finds the connection no longer connected, and the half-close is made. -/
theorem connection_forward_shutdown :
    ∃ s, system.Run (start established)
      [.send true (.data [104, 105]) (.accepted 2), .shutdown false false,
        .send true (.data [33]) (.accepted 1), .runTask false] (.ok s) ∧
      s.calls = [(.write, .kConnected), (.shutdownWrite, .kDisconnecting)] ∧ Orderly s := by
  obtain ⟨s, hrun, hcalls⟩ : ∃ s, system.Run (start established)
      [.send true (.data [104, 105]) (.accepted 2), .shutdown false false,
        .send true (.data [33]) (.accepted 1), .runTask false] (.ok s) ∧
      s.calls = [(.write, .kConnected), (.shutdownWrite, .kDisconnecting)] :=
    System.run_of_reaches (by decide +kernel)
  exact ⟨s, hrun, hcalls, (connection_forward established_eq hrun).2⟩

end LiveConnection

end ClyServer.Net
