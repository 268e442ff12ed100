import ClyServer.Net.Account

/-!
# Every connection is torn down once

The server with its loops, driven step by step: a connection accepted, the next
functor of some loop executed, the events of an enabled channel handled, and the
calls of the user from the connection's own loop. Loops are not followed through
their rounds here; a step is one functor or one `handleEvent`, in any order.

What poll may report for a channel is assumed as documented: the events asked for,
errors and hang-up, and nothing for the negated descriptor of a channel that asks
for nothing.
-/

namespace ClyServer.Net

open ClyServer.Lib

namespace TcpServer

/-- What can happen next. -/
inductive Label where
  | newConnection (sockfd : Int)
  | runFunctor (l : LoopId)
  | pollEvent (c : ConnId) (revents : Events) (read : ReadResult) (write : WriteResult)
  | send (c : ConnId) (message : Message) (result : WriteResult)
  | shutdown (c : ConnId)
  | forceClose (c : ConnId)
  deriving DecidableEq, Repr

/-- What is asked of the connection of a label, if it is about one. -/
def allows (conn : Connection) : Label → Prop
  | .pollEvent _ revents read _ =>
    conn.tcp.channel.events ≠ 0 ∧ Reportable conn.tcp.channel.events revents ∧ read ≠ .failed
  | _ => True

/-- The largest `int`. -/
def INT_MAX : Nat := 2147483647

/-- The labels a state allows. Fewer than `INT_MAX` connections are accepted, so
that `nextConnId_` does not overflow. -/
def Enabled (s : TcpServer) (l : Label) : Prop :=
  match l with
  | .newConnection _ => s.nextConnId < INT_MAX
  | .runFunctor k => s.queues k ≠ []
  | .pollEvent c .. | .send c .. | .shutdown c | .forceClose c =>
    ∃ conn, s.conns c = some conn ∧ allows conn l

/-- The first functor taken out of a loop's queue. -/
def popFunctor (s : TcpServer) (l : LoopId) : TcpServer :=
  let loop := s.loops l
  let rest := { loop with pendingFunctors := loop.pendingFunctors.tail }
  { s with loops := Function.update s.loops l rest }

/-- The step of a label. What concerns a connection happens on its loop's thread. -/
def step (s : TcpServer) : Label → Checked TcpServer
  | .newConnection sockfd => s.newConnection sockfd
  | .runFunctor l =>
    match s.queues l with
    | [] => return s
    | f :: _ => (s.popFunctor l).call l f
  | .pollEvent c revents read write => do
    let conn ← s.findConn c
    s.handleEvent conn.loop c revents read write
  | .send c message result => do
    let conn ← s.findConn c
    s.send conn.loop c message result
  | .shutdown c => do
    let conn ← s.findConn c
    s.shutdown conn.loop c
  | .forceClose c => do
    let conn ← s.findConn c
    s.forceClose conn.loop c

def system : System TcpServer Label Fault where
  enabled := Enabled
  step := step

/-! ## What a step keeps -/

/-- Between steps the account is in order and no loop is handling events. -/
structure Settled (s : TcpServer) : Prop where
  account : Inv s.queues s
  quiet : ∀ l, (s.loops l).eventHandling = false

theorem settled_init (name : Bytes) (numLoops : Nat) : Settled (init name numLoops) where
  account := inv_init name numLoops
  quiet := fun _ => rfl

variable {s : TcpServer}

theorem queues_popFunctor (s : TcpServer) (l : LoopId) :
    (s.popFunctor l).queues = View.pop s.queues l := by
  funext k
  by_cases hk : k = l
  · subst hk
    simp [queues, popFunctor, View.pop_self]
  · simp [queues, popFunctor, View.pop_of_ne _ hk, hk]

theorem eventHandling_popFunctor (s : TcpServer) (l k : LoopId) :
    ((s.popFunctor l).loops k).eventHandling = (s.loops k).eventHandling := by
  by_cases hk : k = l
  · subst hk
    simp [popFunctor]
  · simp [popFunctor, hk]

/-- An operation that keeps the account of the queues leaves a settled server. -/
theorem Keeps.settled {x : Checked TcpServer} (h : Keeps s.queues s x)
    (hquiet : ∀ l, (s.loops l).eventHandling = false) : ∃ s', x = .ok s' ∧ Settled s' := by
  obtain ⟨s', pushed, hs', hqueues, hhandling, _, hinv⟩ := h
  refine ⟨s', hs', ?_, fun l => by rw [hhandling, hquiet]⟩
  rw [hqueues]
  exact hinv

/-- The next functor of a loop. Where no loop handles events nothing is asked of a
channel to be removed. -/
theorem settled_runFunctor (h : Settled s) {l : LoopId} {f : Functor} {rest : List Functor}
    (hqueue : s.queues l = f :: rest) :
    ∃ s', (s.popFunctor l).call l f = .ok s' ∧ Settled s' := by
  have hquiet : ∀ k, ((s.popFunctor l).loops k).eventHandling = false := by
    intro k
    rw [eventHandling_popFunctor, h.quiet]
  have hinv : Inv s.queues (s.popFunctor l) := h.account.of_eq rfl rfl rfl rfl
  have hhead : (s.queues l).head? = some f := by rw [hqueue, List.head?_cons]
  have hkeeps := hinv.keeps_call hhead fun d conn _ _ => by
    rw [EventLoop.checkRemove, hquiet]
    rfl
  rw [← queues_popFunctor] at hkeeps
  exact hkeeps.settled hquiet

/-- A step leaves a settled server, or a failed write(2) has ended the process. -/
theorem settled_step (h : Settled s) {l : Label} (hen : s.Enabled l) :
    (∃ s', s.step l = .ok s' ∧ Settled s') ∨ s.step l = .error .fatalLog := by
  cases l with
  | newConnection sockfd =>
    exact .inl ((h.account.keeps_newConnection sockfd).settled h.quiet)
  | runFunctor l =>
    have hpending : s.queues l ≠ [] := hen
    cases hqueue : s.queues l with
    | nil => exact absurd hqueue hpending
    | cons f rest =>
      have hstep : s.step (.runFunctor l) = (s.popFunctor l).call l f := by
        simp only [step, hqueue]
      rw [hstep]
      exact .inl (settled_runFunctor h hqueue)
  | pollEvent c revents read write =>
    obtain ⟨conn, hconn, hevents, hrevents, hread⟩ := hen
    obtain ⟨hopen, hinput⟩ := (h.account.conns c conn hconn).open_of_enabled hevents
    rw [hinput] at hrevents
    rw [step, findConn_of_some hconn, ok_bind]
    exact .inl ((h.account.keeps_handleEvent hconn hopen hrevents hread conn.loop write).settled
      h.quiet)
  | send c message result =>
    obtain ⟨conn, hconn, _⟩ := hen
    rw [step, findConn_of_some hconn, ok_bind]
    rcases h.account.keeps_send hconn conn.loop message result with hkeeps | hfatal
    · exact .inl (hkeeps.settled h.quiet)
    · exact .inr hfatal
  | shutdown c =>
    obtain ⟨conn, hconn, _⟩ := hen
    rw [step, findConn_of_some hconn, ok_bind]
    exact .inl ((h.account.keeps_shutdown hconn).settled h.quiet)
  | forceClose c =>
    obtain ⟨conn, hconn, _⟩ := hen
    rw [step, findConn_of_some hconn, ok_bind]
    exact .inl ((h.account.keeps_forceClose hconn conn.loop).settled h.quiet)

theorem settled_run {name : Bytes} {numLoops : Nat} {ls : List Label} {r : Checked TcpServer}
    (h : system.Run (init name numLoops) ls r) :
    (∃ s, r = .ok s ∧ Settled s) ∨ ∃ e, r = .error e ∧ e = .fatalLog := by
  apply h.safe (settled_init name numLoops)
  intro _ s l hs hen
  rcases settled_step hs hen with hok | hfatal
  · exact .inl hok
  · exact .inr ⟨.fatalLog, hfatal, rfl⟩

/-! ## Teardown -/

/-- Names are distinct; the map holds exactly the accepted connections not yet
removed, under their names; a close callback was invoked at most once; and a
connection was removed at most once, and its `connectDestroyed` queued once if it
was: that one is waiting in the base loop's queue or has run. -/
structure TornDownOnce (s : TcpServer) : Prop where
  names : ∀ c d conn conn', s.conns c = some conn → s.conns d = some conn' →
    conn.name = conn'.name → c = d
  connections : ∀ name c, s.connections name = some c ↔
    ∃ conn, s.conns c = some conn ∧ conn.name = name ∧ conn.removals = 0
  closeCallback : ∀ c conn, s.conns c = some conn → conn.closeCallbacks ≤ 1
  removal : ∀ c conn, s.conns c = some conn → conn.removals ≤ 1
  destroy : ∀ c conn, s.conns c = some conn → conn.destroysQueued = conn.removals ∧
    (s.queues base).count (.connectDestroyed c) + conn.destroys = conn.destroysQueued

theorem Settled.tornDownOnce (h : Settled s) : TornDownOnce s where
  names := by
    intro c d conn conn' hc hd hname
    rw [h.account.named c conn hc, h.account.named d conn' hd] at hname
    exact connName_injective hname
  connections := by
    intro name c
    rw [h.account.keyed name c]
    constructor
    · intro halive
      obtain ⟨⟨conn, hconn, hremovals⟩, hname⟩ := halive
      exact ⟨conn, hconn, (h.account.named c conn hconn).trans hname, hremovals⟩
    · intro hheld
      obtain ⟨conn, hconn, hname, hremovals⟩ := hheld
      exact ⟨⟨conn, hconn, hremovals⟩, (h.account.named c conn hconn).symm.trans hname⟩
  closeCallback := fun c conn hconn => (h.account.conns c conn hconn).closeCallbacks_le
  removal := by
    intro c conn hconn
    have hok := h.account.conns c conn hconn
    exact le_trans hok.removed hok.closeCallbacks_le
  destroy := by
    intro c conn hconn
    have hok := h.account.conns c conn hconn
    refine ⟨hok.queued, ?_⟩
    rw [hok.destroying.count, Nat.sub_add_cancel hok.destroyed]

/-- **Every connection is torn down once.** In every run of a server with any
number of loops in its pool no assertion fails (the process can only end at a
`send` whose write(2) failed), and in every state reached connections have
distinct names, the map holds exactly those accepted and not yet removed, a close
callback was invoked at most once per connection, and `connectDestroyed` was
queued exactly once for each removed one. -/
theorem teardown_once {name : Bytes} {numLoops : Nat} {ls : List Label} {r : Checked TcpServer}
    (h : system.Run (init name numLoops) ls r) :
    (∃ s, r = .ok s ∧ TornDownOnce s) ∨ r = .error .fatalLog := by
  rcases settled_run h with ⟨s, hs, hsettled⟩ | ⟨e, he, hfatal⟩
  · exact .inl ⟨s, hs, hsettled.tornDownOnce⟩
  · exact .inr (he.trans (congrArg Except.error hfatal))

/-- One loop in the pool: a connection is accepted and established, asked to close
and at the same time found closed by its peer, then removed and destroyed. -/
theorem teardown_once_twice_closed :
    ∃ s conn, system.Run (init [] 1)
      [.newConnection 5, .runFunctor 1, .forceClose 1, .pollEvent 1 POLLIN .eof (.accepted 0),
        .runFunctor 1, .runFunctor 0, .runFunctor 0] (.ok s) ∧
      s.conns 1 = some conn ∧ conn.closeCallbacks = 1 ∧ conn.removals = 1 ∧ conn.destroys = 1 ∧
      TornDownOnce s := by
  obtain ⟨outputBuffer, hinit⟩ := tcpInit_eq 5
  have haccept := newConnection_eq (s := init [] 1) hinit
  have hrun : ∃ s conn, system.Run (init [] 1)
      [.newConnection 5, .runFunctor 1, .forceClose 1, .pollEvent 1 POLLIN .eof (.accepted 0),
        .runFunctor 1, .runFunctor 0, .runFunctor 0] (.ok s) ∧
      s.conns 1 = some conn ∧ conn.closeCallbacks = 1 ∧ conn.removals = 1 ∧ conn.destroys = 1 :=
    ⟨_, _, .cons (show 1 < INT_MAX by decide) haccept <|
      .cons (fun h => nomatch h) rfl <| .cons ⟨_, rfl, trivial⟩ rfl <|
      .cons ⟨_, rfl, show Channel.enableReading 0 ≠ 0 by decide,
        show Reportable (Channel.enableReading 0) POLLIN by decide, by decide⟩ rfl <|
      .cons (fun h => nomatch h) rfl <| .cons (fun h => nomatch h) rfl <|
      .cons (fun h => nomatch h) rfl .nil, rfl, rfl, rfl, rfl⟩
  obtain ⟨s, conn, hrun, hconn, hcloses, hremovals, hdestroys⟩ := hrun
  rcases teardown_once hrun with ⟨s', hs', honce⟩ | hfatal
  · cases hs'
    exact ⟨s, conn, hrun, hconn, hcloses, hremovals, hdestroys, honce⟩
  · cases hfatal

end TcpServer

end ClyServer.Net
