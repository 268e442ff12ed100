import ClyServer.Net.ConnectionOrder
import ClyServer.Net.ServerSteps

/-!
# Reading switched on and off

`startReadInLoop` looks at `reading_` and at the channel's mask and not at
`state_`. On a connection that is disconnected the mask is empty, so it switches
reading on again: poll then reports the end of input a second time, `handleRead`
goes to `handleClose`, and its assertion fails. `staysClosed_iff` says that this is
all that can go wrong: a closed connection stays closed exactly when
`startReadInLoop` is never executed on it.
-/

namespace ClyServer.Net

open ClyServer.Lib

/-- The callbacks that may lead to `handleClose`. -/
def HandlerPart.closes : HandlerPart → Bool
  | callback .close => true
  | callback .read => true
  | _ => false

namespace LiveConnection

/-- The label makes `startReadInLoop` run: a call on the loop's thread, or a functor
executed. -/
def StartsRead (s : LiveConnection) : Label → Prop
  | .startRead isInLoopThread => isInLoopThread = true
  | .runTask _ => s.tasks.head? = some .startReadInLoop
  | _ => False

/-- The label makes `handleRead` run. -/
def DispatchesRead (s : LiveConnection) : Label → Prop
  | .handle .. => s.parts.head? = some (.callback .read)
  | _ => False

/-- Wherever the labels lead: once the connection is disconnected its channel asks
for nothing and `handleRead` is not called, and the assertion of `handleClose` does
not fail. -/
structure StaysClosed (tcp : TcpConnection) (ls : List Label) : Prop where
  interest : ∀ pre s, pre <+: ls → system.Run (start tcp) pre (.ok s) →
    s.tcp.state = .kDisconnected → s.tcp.channel.events = 0
  unread : ∀ pre l s, pre ++ [l] <+: ls → system.Run (start tcp) pre (.ok s) →
    s.tcp.state = .kDisconnected → ¬ s.DispatchesRead l
  safe : ∀ pre s, pre <+: ls →
    ¬ system.Run (start tcp) pre (.error (.assertion .handleClose, s))

/-- `startReadInLoop` is not executed on the connection once it is disconnected. -/
def NeverRestarted (tcp : TcpConnection) (ls : List Label) : Prop :=
  ∀ pre l s, pre ++ [l] <+: ls → system.Run (start tcp) pre (.ok s) → s.StartsRead l →
    s.tcp.state ≠ .kDisconnected

/-! ## What a step keeps -/

/-- A disconnected connection asks for nothing and has no closing callback left;
any other has at most one. -/
structure Shut (s : LiveConnection) : Prop where
  interest : s.tcp.state = .kDisconnected → s.tcp.channel.events = 0
  unread : s.tcp.state = .kDisconnected → s.parts.countP HandlerPart.closes = 0
  closers : s.parts.countP HandlerPart.closes ≤ 1

/-- The step answers such a connection, or a failed system call has ended the
process. -/
def Shuts (x : Ending) : Prop := (∃ s, x = .ok s ∧ Shut s) ∨ ∃ s, x = .error (.fatalLog, s)

variable {s s' : LiveConnection}

theorem Shut.shuts (h : Shut s) : Shuts (.ok s) := .inl ⟨s, rfl, h⟩

/-- A step that leaves the handler alone and does not disconnect. -/
theorem Shut.keep (h : Shut s) (hparts : s'.parts = s.parts)
    (hstate : s'.tcp.state = .kDisconnected →
      s.tcp.state = .kDisconnected ∧ (s.tcp.channel.events = 0 → s'.tcp.channel.events = 0)) :
    Shut s' where
  interest := fun hs' => (hstate hs').2 (h.interest (hstate hs').1)
  unread := by
    intro hs'
    rw [hparts]
    exact h.unread (hstate hs').1
  closers := by
    rw [hparts]
    exact h.closers

theorem Shut.queue (h : Shut s) (task : ConnTask) : Shut (s.queue task) :=
  h.keep rfl fun hs => ⟨hs, id⟩

/-- Closing, with no other closing callback left. -/
theorem shuts_handleClose (hopen : s.tcp.state = .kConnected ∨ s.tcp.state = .kDisconnecting)
    (hparts : s.parts.countP HandlerPart.closes = 0) : Shuts s.handleClose := by
  have hcount : (HandlerPart.closeCallback :: s.parts).countP HandlerPart.closes = 0 := by
    rw [List.countP_cons, hparts]
    rfl
  have hclose : s.handleClose = .ok
      { s with tcp := (s.tcp.setState .kDisconnected).setInterest Channel.disableAll
               parts := .closeCallback :: s.parts } := by
    rw [handleClose, TcpConnection.handleClose, check_pos hopen]
    rfl
  rw [hclose]
  exact .inl ⟨_, rfl, fun _ => rfl, fun _ => hcount, Nat.le_trans (Nat.le_of_eq hcount) (by decide)⟩

theorem Shut.shuts_shutdownInLoop (h : Shut s) (failed : Bool) :
    Shuts (s.shutdownInLoop failed) := by
  obtain ⟨hstate, hchannel⟩ := TcpServer.shutdownInLoop_state s.tcp
  unfold shutdownInLoop
  split
  · exact h.shuts
  · cases failed with
    | true => exact .inr ⟨_, rfl⟩
    | false =>
      refine .inl ⟨_, rfl, h.keep rfl fun hs' => ⟨hstate ▸ hs', fun hevents => ?_⟩⟩
      rw [hchannel]
      exact hevents

theorem Shut.shuts_send (h : Shut s) (isInLoopThread : Bool) (message : Message)
    (result : WriteResult) : Shuts (s.send isInLoopThread message result) := by
  have hattempt : ∀ t : LiveConnection, Shut t → Shuts (t.attempt
      (t.tcp.sendMessage isInLoopThread message result) fun tcp => .ok { t with tcp }) := by
    intro t ht
    rcases TcpServer.sendMessage_state t.tcp isInLoopThread message result with
      ⟨tcp, hsend, hstate, hchannel⟩ | hfatal
    · rw [hsend]
      refine .inl ⟨_, rfl, ht.keep rfl fun hs' => ⟨hstate ▸ hs', fun hevents => ?_⟩⟩
      rw [hchannel]
      exact hevents
    · rw [hfatal]
      exact .inr ⟨_, rfl⟩
  unfold send
  dsimp only
  split
  · exact hattempt _ (h.keep rfl fun hs => ⟨hs, id⟩)
  · exact hattempt _ h

/-- A connection that sets out to disconnect is not disconnected. -/
theorem Shut.disconnecting (h : Shut s) :
    Shut { s with tcp := s.tcp.setState .kDisconnecting } :=
  h.keep rfl fun hs' => (nomatch hs')

theorem Shut.shuts_shutdown (h : Shut s) (isInLoopThread failed : Bool) :
    Shuts (s.shutdown isInLoopThread failed) := by
  unfold shutdown TcpConnection.shutdown
  by_cases hstate : s.tcp.state = .kConnected
  · simp only [if_pos hstate, if_true]
    cases isInLoopThread with
    | true => exact h.disconnecting.shuts_shutdownInLoop failed
    | false => exact (h.disconnecting.queue .shutdownInLoop).shuts
  · simp only [if_neg hstate, Bool.false_eq_true, if_false]
    exact h.shuts

theorem Shut.forceClose (h : Shut s) : Shut s.forceClose := by
  unfold LiveConnection.forceClose TcpConnection.forceClose
  by_cases hopen : s.tcp.state = .kConnected ∨ s.tcp.state = .kDisconnecting
  · simp only [if_pos hopen, if_true]
    exact h.disconnecting.queue .forceCloseInLoop
  · simp only [if_neg hopen, Bool.false_eq_true, if_false]
    exact h

theorem Shut.stopReadInLoop (h : Shut s) : Shut s.stopReadInLoop := by
  unfold LiveConnection.stopReadInLoop
  split
  · refine h.keep rfl fun hs => ⟨hs, fun hevents => ?_⟩
    simp [TcpConnection.setInterest, hevents, Channel.disableReading]
  · exact h

/-- Reading switched on again where the connection is not disconnected. -/
theorem Shut.startReadInLoop (h : Shut s) (hstate : s.tcp.state ≠ .kDisconnected) :
    Shut s.startReadInLoop := by
  unfold LiveConnection.startReadInLoop
  split
  · exact h.keep rfl fun hs => absurd hs hstate
  · exact h

/-- Reading switched on again on a disconnected connection whose channel asks for
nothing: it asks for input. -/
theorem startReadInLoop_disconnected (hevents : s.tcp.channel.events = 0) :
    s.startReadInLoop.tcp.state = s.tcp.state ∧
      s.startReadInLoop.tcp.channel.events = POLLIN := by
  have hreading : s.tcp.channel.isReading = false := by
    rw [Channel.isReading, hevents]
    decide
  rw [LiveConnection.startReadInLoop, hreading, Bool.not_false, Bool.or_true, if_pos rfl]
  refine ⟨rfl, ?_⟩
  show Channel.enableReading s.tcp.channel.events = POLLIN
  rw [hevents]
  decide

/-- The events of a channel that asks for input: one callback at most may close. -/
theorem shut_pollEvent (h : Inv s) {revents : Events} (hevents : s.tcp.channel.events ≠ 0)
    (hrevents : Reportable s.tcp.channel.events revents)
    (hopen : s.tcp.state ≠ .kDisconnected) :
    Shut { s with parts := (Channel.dispatch revents).map .callback } := by
  have hinput : s.tcp.channel.events = POLLIN := h.interest.resolve_left hevents
  rw [hinput] at hrevents
  have hclosing := TcpServer.dispatch_closing hrevents .eof
  have hcount :
      ((Channel.dispatch revents).map HandlerPart.callback).countP HandlerPart.closes ≤ 1 := by
    rw [List.countP_map]
    refine Nat.le_trans (Nat.le_of_eq (List.countP_congr fun cb _ => ?_)) hclosing
    cases cb <;> simp [HandlerPart.closes, TcpServer.closing]
  exact ⟨fun hs => absurd hs hopen, fun hs => absurd hs hopen, hcount⟩

/-- An established connection that is not disconnected is open. -/
theorem Inv.open_of_ne (h : Inv s) (hne : s.tcp.state ≠ .kDisconnected) :
    s.tcp.state = .kConnected ∨ s.tcp.state = .kDisconnecting := by
  have hestablished := h.established
  cases hstate : s.tcp.state with
  | kDisconnected => exact absurd hstate hne
  | kConnecting => exact absurd hstate hestablished
  | kConnected => exact .inl rfl
  | kDisconnecting => exact .inr rfl

/-- The next part of a handler. A closing one finds the connection open and is the
last of its kind. -/
theorem shuts_handle (hinv : Inv s) (h : Shut s) {part : HandlerPart} {rest : List HandlerPart}
    (hparts : s.parts = part :: rest) (read : ReadResult) (write : WriteResult) (failed : Bool) :
    Shuts ({ s with parts := rest }.handle read write failed part) := by
  have hcount : s.parts.countP HandlerPart.closes =
      rest.countP HandlerPart.closes + if part.closes then 1 else 0 := by
    rw [hparts, List.countP_cons]
  have hclosers := h.closers
  have hunread := h.unread
  have hrest : Shut { s with parts := rest } := by
    refine ⟨h.interest, fun hs => ?_, ?_⟩
    · have hzero := hunread hs
      show rest.countP HandlerPart.closes = 0
      omega
    · show rest.countP HandlerPart.closes ≤ 1
      omega
  have hclose : part.closes = true →
      Shuts ({ s with parts := rest } : LiveConnection).handleClose := by
    intro hcloses
    rw [hcloses, if_pos rfl] at hcount
    have hne : s.tcp.state ≠ .kDisconnected := by
      intro hs
      have hzero := hunread hs
      omega
    exact shuts_handleClose (hinv.open_of_ne hne) (show rest.countP HandlerPart.closes = 0 by omega)
  have hquiet := hinv.quiet
  cases part with
  | callback cb =>
    cases cb with
    | close => exact hclose rfl
    | error => exact hrest.shuts
    | read =>
      cases read with
      | bytes => exact hrest.shuts
      | eof => exact hclose rfl
      | failed => exact .inr ⟨_, rfl⟩
    | write =>
      simp only [handle, handleWrite, hquiet]
      exact hrest.shuts
  | closeCallback => exact (hrest.queue .connectDestroyed).shuts
  | writeCompleted =>
    have hnever := hinv.parts
    rw [hparts] at hnever
    exact absurd List.mem_cons_self hnever

/-- A functor executed, with no handler under way. -/
theorem shuts_call (h : Shut s) (hidle : s.parts = []) {task : ConnTask}
    (hstart : task = .startReadInLoop → s.tcp.state ≠ .kDisconnected) (failed : Bool) :
    Shuts (s.call failed task) := by
  cases task with
  | shutdownInLoop => exact h.shuts_shutdownInLoop failed
  | forceCloseInLoop =>
    simp only [call, forceCloseInLoop]
    split
    · rename_i hopen
      exact shuts_handleClose hopen (by rw [hidle]; rfl)
    · exact h.shuts
  | startReadInLoop => exact (h.startReadInLoop (hstart rfl)).shuts
  | stopReadInLoop => exact h.stopReadInLoop.shuts
  | connectDestroyed =>
    have hdestroyed : Shut s.connectDestroyed := h.keep rfl fun hs => ⟨hs, id⟩
    exact hdestroyed.shuts

/-- Every step but a restart of reading on a disconnected connection. -/
theorem shuts_step (hinv : Inv s) (h : Shut s) {l : Label} (hen : s.enabled l = true)
    (hl : s.StartsRead l → s.tcp.state ≠ .kDisconnected) : Shuts (s.step l) := by
  cases l with
  | send isInLoopThread message result => exact h.shuts_send isInLoopThread message result
  | shutdown isInLoopThread failed => exact h.shuts_shutdown isInLoopThread failed
  | forceClose => exact h.forceClose.shuts
  | startRead isInLoopThread =>
    cases isInLoopThread with
    | true => exact (h.startReadInLoop (hl rfl)).shuts
    | false => exact (h.queue .startReadInLoop).shuts
  | stopRead isInLoopThread =>
    cases isInLoopThread with
    | true => exact h.stopReadInLoop.shuts
    | false => exact (h.queue .stopReadInLoop).shuts
  | pollEvent revents =>
    simp only [enabled, Bool.and_eq_true, decide_eq_true_eq] at hen
    obtain ⟨⟨_, hevents⟩, hrevents⟩ := hen
    exact (shut_pollEvent hinv hevents hrevents fun hs => hevents (h.interest hs)).shuts
  | handle read write failed =>
    cases hparts : s.parts with
    | nil => simp [enabled, hparts] at hen
    | cons part rest =>
      simp only [step, hparts]
      exact shuts_handle hinv h hparts read write failed
  | runTask failed =>
    simp only [enabled, Bool.and_eq_true, List.isEmpty_iff] at hen
    cases htasks : s.tasks with
    | nil => simp [htasks] at hen
    | cons task rest =>
      simp only [step, htasks]
      have hrest : Shut { s with tasks := rest } := h.keep rfl fun hs => ⟨hs, id⟩
      refine shuts_call hrest hen.1 (fun htask => hl ?_) failed
      simp [StartsRead, htasks, htask]

/-! ## Runs -/

theorem shut_start {fd : Int} {tcp : TcpConnection}
    (h : TcpConnection.init fd >>= TcpConnection.connectEstablished = .ok tcp) :
    Shut (start tcp) := by
  obtain ⟨b, hb, _⟩ := Buffer.init_spec Buffer.kInitialSize
  rw [TcpConnection.init, hb] at h
  cases h
  refine ⟨fun hs => ?_, fun hs => ?_, Nat.zero_le _⟩
  · cases hs
  · cases hs

/-- Where reading is never restarted, a disconnected connection stays shut. -/
theorem shut_run {fd : Int} {tcp : TcpConnection}
    (htcp : TcpConnection.init fd >>= TcpConnection.connectEstablished = .ok tcp)
    {ls pre : List Label} (h : NeverRestarted tcp ls) (hpre : pre <+: ls) {s : LiveConnection}
    (hrun : system.Run (start tcp) pre (.ok s)) : Shut s := by
  refine System.Run.along (shut_start htcp) (fun pre l t u hpre ht hshut hen hstep => ?_) hpre hrun
  have hinv : Inv t := inv_run (inv_start htcp) ht
  rcases shuts_step hinv hshut hen (h pre l t hpre ht) with ⟨v, hv, hshut'⟩ | ⟨v, hv⟩
  · cases hstep.symm.trans hv
    exact hshut'
  · cases hstep.symm.trans hv

/-- Behind a restart on a disconnected connection the channel asks for input. -/
theorem startsRead_step {s : LiveConnection} {l : Label} (hstarts : s.StartsRead l)
    (hstate : s.tcp.state = .kDisconnected) (hevents : s.tcp.channel.events = 0) :
    ∃ s', system.step s l = .ok s' ∧ s'.tcp.state = .kDisconnected ∧
      s'.tcp.channel.events = POLLIN := by
  cases l with
  | startRead isInLoopThread =>
    have hown : isInLoopThread = true := hstarts
    obtain ⟨hsame, hinput⟩ := startReadInLoop_disconnected hevents
    rw [hown]
    exact ⟨s.startReadInLoop, rfl, hsame.trans hstate, hinput⟩
  | runTask failed =>
    obtain ⟨rest, hrest⟩ := List.head?_eq_some_iff.mp hstarts
    obtain ⟨hsame, hinput⟩ := startReadInLoop_disconnected (s := { s with tasks := rest }) hevents
    refine ⟨_, ?_, hsame.trans hstate, hinput⟩
    simp only [system, step, hrest]
    rfl
  | _ => exact hstarts.elim

theorem neverRestarted_of_staysClosed {tcp : TcpConnection} {ls : List Label} {r : Ending}
    (h : system.Run (start tcp) ls r) (hclosed : StaysClosed tcp ls) : NeverRestarted tcp ls := by
  intro pre l s hpre hrun hstarts hstate
  obtain ⟨t, ht, hen⟩ := h.taken hpre
  cases hrun.unique ht
  have hevents := hclosed.interest pre s ((List.prefix_append pre [l]).trans hpre) hrun hstate
  obtain ⟨s', hs', hstate', hinput⟩ := startsRead_step hstarts hstate hevents
  have hrun' : system.Run (start tcp) (pre ++ [l]) (.ok s') := hs' ▸ .snoc hrun hen
  rw [hclosed.interest (pre ++ [l]) s' hpre hrun' hstate'] at hinput
  exact absurd hinput (by decide)

theorem staysClosed_of_neverRestarted {fd : Int} {tcp : TcpConnection}
    (htcp : TcpConnection.init fd >>= TcpConnection.connectEstablished = .ok tcp)
    {ls : List Label} (hnever : NeverRestarted tcp ls) : StaysClosed tcp ls := by
  refine ⟨fun pre s hpre hrun hs => (shut_run htcp hnever hpre hrun).interest hs, ?_, ?_⟩
  · intro pre l s hpre hrun hs hreads
    have hzero := (shut_run htcp hnever ((List.prefix_append pre [l]).trans hpre) hrun).unread hs
    cases l with
    | handle read write failed =>
      obtain ⟨rest, hrest⟩ := List.head?_eq_some_iff.mp hreads
      rw [hrest, List.countP_cons] at hzero
      simp [HandlerPart.closes] at hzero
    | _ => exact hreads
  · intro pre s hpre hrun
    cases pre using List.reverseRecOn with
    | nil => cases System.run_nil_iff.mp hrun
    | append_singleton pre l =>
      obtain ⟨t, ht, hen, hstep⟩ := System.run_snoc_iff.mp hrun
      have hshut := shut_run htcp hnever ((List.prefix_append pre [l]).trans hpre) ht
      rcases shuts_step (inv_run (inv_start htcp) ht) hshut hen (hnever pre l t hpre ht) with
        ⟨u, hu, _⟩ | ⟨u, hu⟩
      · cases hstep.trans hu
      · cases hstep.trans hu

/-- **Exactly when a closed connection stays closed.** In a run of an established
connection, a disconnected connection asks its poller for nothing and is not read
again, and the assertion of `handleClose` never fails, if and only if
`startReadInLoop` is never executed on it while it is disconnected. -/
theorem staysClosed_iff {fd : Int} {tcp : TcpConnection}
    (htcp : TcpConnection.init fd >>= TcpConnection.connectEstablished = .ok tcp)
    {ls : List Label} {r : Ending} (h : system.Run (start tcp) ls r) :
    StaysClosed tcp ls ↔ NeverRestarted tcp ls :=
  ⟨neverRestarted_of_staysClosed h, staysClosed_of_neverRestarted htcp⟩

/-- Reading is switched off and on, and then the peer closes. -/
theorem staysClosed_paused :
    StaysClosed established [.stopRead true, .startRead true, .pollEvent POLLIN,
      .handle .eof (.accepted 0) false] := by
  obtain ⟨t, hrun, _⟩ : ∃ t, system.Run (start established) [.stopRead true, .startRead true,
      .pollEvent POLLIN, .handle .eof (.accepted 0) false] (.ok t) ∧
      t.tcp.state = .kDisconnected := System.run_of_reaches (by decide +kernel)
  obtain ⟨u, hu, hconnected⟩ : ∃ u, system.Run (start established) [.stopRead true] (.ok u) ∧
      u.tcp.state = .kConnected := System.run_of_reaches (by decide +kernel)
  refine (staysClosed_iff established_eq hrun).mpr fun pre l s hpre hs hstarts => ?_
  obtain ⟨post, hpost⟩ := hpre
  rcases pre with _ | ⟨a, _ | ⟨b, _ | ⟨c, _ | ⟨d, pre⟩⟩⟩⟩
  · simp only [List.nil_append, List.cons_append, List.cons.injEq] at hpost
    rw [hpost.1] at hstarts
    exact hstarts.elim
  · simp only [List.nil_append, List.cons_append, List.cons.injEq] at hpost
    rw [hpost.1] at hs
    cases hs.unique hu
    rw [hconnected]
    decide
  · simp only [List.nil_append, List.cons_append, List.cons.injEq] at hpost
    rw [hpost.2.2.1] at hstarts
    exact hstarts.elim
  · simp only [List.nil_append, List.cons_append, List.cons.injEq] at hpost
    rw [hpost.2.2.2.1] at hstarts
    exact hstarts.elim
  · simp at hpost

/-- The peer closes, the connection callback calls `startRead`, and the end of
input is reported again. -/
def restarting : List Label :=
  [.pollEvent POLLIN, .handle .eof (.accepted 0) false, .startRead true,
    .handle .bytes (.accepted 0) false, .pollEvent POLLIN, .handle .eof (.accepted 0) false]

theorem restarting_fails :
    (∃ s, system.Run (start established) restarting (.error (.assertion .handleClose, s))) ∧
      ¬ StaysClosed established restarting := by
  have hfault : (system.fault (start established) restarting).map Prod.fst =
      some (.assertion .handleClose) := by decide +kernel
  obtain ⟨e, he, hassert⟩ := Option.map_eq_some_iff.mp hfault
  obtain ⟨fault, s⟩ := e
  cases hassert
  have hrun := System.run_of_fault he
  exact ⟨⟨s, hrun⟩, fun hclosed => hclosed.safe restarting s List.prefix_rfl hrun⟩

end LiveConnection

end ClyServer.Net
