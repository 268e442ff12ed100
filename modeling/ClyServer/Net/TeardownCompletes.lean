import ClyServer.Net.ConnectionOrder
import ClyServer.Net.ConnectionTable
import ClyServer.Net.Teardown
import Mathlib.Algebra.Order.BigOperators.Group.Finset

/-!
# A teardown comes to its end

`ClyServer.Net.Teardown` says that no connection is torn down twice. Here: that none is left half
way. A close travels through the queues, as `forceCloseInLoop`, `removeConnectionInLoop` and
`connectDestroyed`, and each of these queues the next at most. So loops that execute what waits for
them, in whatever order they take turns, come to a state in which nothing waits, and what every
connection is in such a state follows from the account of the queues.

The steps are those of `ClyServer.Net.Teardown`: a connection accepted, a functor, a `handleEvent`,
a call of the user, each at its end before the next begins. Where a loop is between two
`handleEvent`s of one round, a functor of another loop may fault (`ClyServer.Net.LoopOwnership`).
That a loop does not sleep on its queue is the matter of `ClyServer.Net.FunctorQueue`, and not shown
again.
-/

namespace ClyServer.Net

open ClyServer.Lib ClyServer.Lib.System

/-! ## What may come of the queues -/

/-- How many functors may come of one, that one included. -/
def Functor.weight : Functor → Nat
  | forceCloseInLoop _ => 3
  | removeConnectionInLoop _ => 2
  | _ => 1

theorem Functor.weight_pos (f : Functor) : 0 < f.weight := by
  cases f <;> exact Nat.succ_pos _

/-- How many may come of a queue. -/
def queueWork (fs : List Functor) : Nat := (fs.map Functor.weight).sum

namespace View

variable {v v' : View} {l : LoopId} {n : Nat}

/-- How many may come of the queues of the first `n` loops. -/
def work (v : View) (n : Nat) : Nat := ∑ l ∈ Finset.range n, queueWork (v l)

/-- A change of one queue. -/
theorem work_of_ne (hl : l < n) (h : ∀ k, k ≠ l → v' k = v k) :
    v'.work n + queueWork (v l) = v.work n + queueWork (v' l) := by
  have hmem : l ∈ Finset.range n := Finset.mem_range.mpr hl
  have hrest : ∑ k ∈ (Finset.range n).erase l, queueWork (v' k) =
      ∑ k ∈ (Finset.range n).erase l, queueWork (v k) :=
    Finset.sum_congr rfl fun k hk => by rw [h k (Finset.ne_of_mem_erase hk)]
  have hbefore := Finset.sum_erase_add _ (fun k => queueWork (v k)) hmem
  have hafter := Finset.sum_erase_add _ (fun k => queueWork (v' k)) hmem
  rw [work, work, ← hbefore, ← hafter, hrest]
  exact Nat.add_right_comm _ _ _

theorem work_push (hl : l < n) (f : Functor) : (v.push l f).work n = v.work n + f.weight := by
  have h : (v.push l f).work n + queueWork (v l) = v.work n + queueWork (v.push l f l) :=
    work_of_ne hl fun k hk => push_of_ne v hk f
  have hlast : queueWork (v.push l f l) = queueWork (v l) + f.weight := by
    simp [queueWork, push_self]
  omega

theorem work_pop (hl : l < n) {f : Functor} {rest : List Functor} (hqueue : v l = f :: rest) :
    (v.pop l).work n + f.weight = v.work n := by
  have h : (v.pop l).work n + queueWork (v l) = v.work n + queueWork (v.pop l l) :=
    work_of_ne hl fun k hk => pop_of_ne v hk
  have htail : queueWork (v l) = f.weight + queueWork (v.pop l l) := by
    rw [pop_self, hqueue, queueWork, List.map_cons, List.sum_cons]
    rfl
  omega

end View

namespace TcpServer

variable {s s' s'' : TcpServer} {name : Bytes} {numLoops : Nat} {t l : LoopId} {c : ConnId}
  {conn conn' : Connection}

/-- How many functors may come of those waiting. -/
def work (s : TcpServer) : Nat := View.work s.queues (s.numLoops + 1)

/-! ## What a functor queues -/

/-- A functor of this weight queued at most one, a lighter one, on the base loop. -/
def Spawns (s : TcpServer) (w : Nat) (s' : TcpServer) : Prop :=
  s'.queues = s.queues ∨ ∃ f, f.weight < w ∧ s'.queues = View.push s.queues base f

theorem spawns_removeConnectionInLoop (s : TcpServer) (t : LoopId) (c : ConnId) :
    Ends (s.removeConnectionInLoop t c) (s.Spawns 2) fun _ => True := by
  refine findConn_ends fun conn _ => ends_call fun _ => ?_
  exact .inr ⟨.connectDestroyed c, Nat.one_lt_two, queues_queueInLoop _ t base _⟩

theorem spawns_removeConnection (s : TcpServer) (t : LoopId) (c : ConnId) :
    Ends (s.removeConnection t c) (s.Spawns 3) fun _ => True := by
  unfold removeConnection
  split
  · refine (s.spawns_removeConnectionInLoop t c).imp fun s' hs' => ?_
    exact hs'.imp_right fun hf => hf.imp fun f hf => ⟨Nat.lt_succ_of_lt hf.1, hf.2⟩
  · exact .inr ⟨.removeConnectionInLoop c, Nat.lt_succ_self 2, queues_queueInLoop s t base _⟩

theorem spawns_forceCloseInLoop (s : TcpServer) (t : LoopId) (c : ConnId) :
    Ends (s.forceCloseInLoop t c) (s.Spawns 3) fun _ => True := by
  refine findConn_ends fun conn _ => ?_
  split
  · refine findConn_ends fun conn _ => ends_call fun tcp => ?_
    exact spawns_removeConnection _ t c
  · exact .inl rfl

theorem spawns_call (s : TcpServer) (t : LoopId) (f : Functor) :
    Ends (s.call t f) (s.Spawns f.weight) fun _ => True := by
  cases f with
  | connectEstablished c => exact findConn_ends fun _ _ => ends_call fun _ => .inl rfl
  | removeConnectionInLoop c => exact s.spawns_removeConnectionInLoop t c
  | connectDestroyed c => exact findConn_ends fun _ _ => ends_call fun _ => .inl rfl
  | forceCloseInLoop c => exact s.spawns_forceCloseInLoop t c
  | shutdownInLoop c => exact findConn_ends fun _ _ => .inl rfl

/-! ## Connections go forward -/

/-- A connection has got as far as a state of this rank. -/
def Reached (s : TcpServer) (r : Nat) (c : ConnId) : Prop :=
  ∃ conn, s.conns c = some conn ∧ r ≤ conn.tcp.state.rank

/-- No connection goes back, a `forceCloseInLoop` is queued for established connections only, and
loops outside of the pool are left alone. -/
structure Onward (numLoops : Nat) (s s' : TcpServer) : Prop where
  reached : ∀ r c, s.Reached r c → s'.Reached r c
  asked : ∀ l c, .forceCloseInLoop c ∈ s'.queues l →
    .forceCloseInLoop c ∈ s.queues l ∨ s'.Reached 1 c
  placed : ∀ l, numLoops < l → s.queues l = [] → s'.queues l = []

namespace Onward

theorem refl (s : TcpServer) : Onward numLoops s s where
  reached := fun _ _ h => h
  asked := fun _ _ h => .inl h
  placed := fun _ _ h => h

theorem trans (h : Onward numLoops s s') (h' : Onward numLoops s' s'') :
    Onward numLoops s s'' where
  reached := fun r c hc => h'.reached r c (h.reached r c hc)
  asked := by
    intro l c hmem
    rcases h'.asked l c hmem with hmem | hnow
    · exact (h.asked l c hmem).imp_right fun hthen => h'.reached 1 c hthen
    · exact .inr hnow
  placed := fun l hl hs => h'.placed l hl (h.placed l hl hs)

theorem setConn (hconn : s.conns c = some conn)
    (hrank : conn.tcp.state.rank ≤ conn'.tcp.state.rank) :
    Onward numLoops s (s.setConn c conn') where
  reached := by
    intro r d hd
    obtain ⟨held, hheld, hr⟩ := hd
    by_cases hdc : d = c
    · subst hdc
      rw [hconn] at hheld
      cases hheld
      exact ⟨conn', Function.update_self .., Nat.le_trans hr hrank⟩
    · exact ⟨held, (Function.update_of_ne hdc ..).trans hheld, hr⟩
  asked := fun _ _ h => .inl h
  placed := fun _ _ h => h

theorem note (h : Onward numLoops s s') (op : PollChange) (c : ConnId) (conn : Connection)
    (t : LoopId) : Onward numLoops s (s'.note op c conn t) :=
  ⟨h.reached, h.asked, h.placed⟩

theorem queueInLoop (h : Onward numLoops s s') (t : LoopId) (hl : l ≤ numLoops) {cb : Functor}
    (hcb : ∀ c, cb = .forceCloseInLoop c → s'.Reached 1 c) :
    Onward numLoops s (s'.queueInLoop t l cb) where
  reached := h.reached
  asked := by
    intro k c hmem
    rw [queues_queueInLoop] at hmem
    rcases View.mem_push.mp hmem with hmem | ⟨_, heq⟩
    · exact h.asked k c hmem
    · exact .inr (hcb c heq.symm)
  placed := by
    intro k hk hs
    rw [queues_queueInLoop, View.push_of_ne _ (Nat.ne_of_gt (Nat.lt_of_le_of_lt hl hk))]
    exact h.placed k hk hs

theorem popFunctor (s : TcpServer) (l : LoopId) : Onward numLoops s (s.popFunctor l) where
  reached := fun _ _ h => h
  asked := by
    intro k c hmem
    rw [queues_popFunctor] at hmem
    exact .inl (View.mem_of_mem_pop hmem)
  placed := by
    intro k hk hs
    rw [queues_popFunctor]
    exact List.eq_nil_iff_forall_not_mem.mpr fun f hf => by
      have hmem := View.mem_of_mem_pop hf
      rw [hs] at hmem
      cases hmem

end Onward

/-- A function after which every connection is where it was, or further. -/
def Advances (numLoops : Nat) (s : TcpServer) (x : Checked TcpServer) : Prop :=
  Ends x (Onward numLoops s) fun _ => True

theorem Advances.after {x : Checked TcpServer} (hx : Advances numLoops s' x)
    (h : Onward numLoops s s') : Advances numLoops s x :=
  hx.imp fun _ hs => h.trans hs

theorem rank_connectEstablished (tcp : TcpConnection) :
    Ends tcp.connectEstablished (fun tcp' => tcp.state.rank ≤ tcp'.state.rank) fun _ => True := by
  unfold TcpConnection.connectEstablished
  by_cases hstate : tcp.state = .kConnecting
  · rw [check_pos hstate, ok_bind, hstate]
    exact Nat.zero_le _
  · rw [check_neg hstate]
    trivial

theorem advances_connectEstablished (s : TcpServer) (t : LoopId) (c : ConnId) :
    Advances numLoops s (s.connectEstablished t c) := by
  refine findConn_ends fun conn hconn => (rank_connectEstablished conn.tcp).bind fun tcp htcp => ?_
  exact (Onward.setConn hconn htcp).note _ c conn t

theorem advances_connectDestroyed (s : TcpServer) (t : LoopId) (c : ConnId) :
    Advances numLoops s (s.connectDestroyed t c) := by
  refine findConn_ends fun conn hconn => ends_call fun _ => ?_
  have hset : Onward numLoops s (s.setConn c (destroyed conn)) :=
    .setConn hconn (Nat.le_refl _)
  exact hset.note _ c conn t

theorem advances_removeConnectionInLoop (s : TcpServer) (t : LoopId) (c : ConnId) :
    Advances numLoops s (s.removeConnectionInLoop t c) := by
  refine findConn_ends fun conn hconn => ends_call fun _ => ?_
  have hset : Onward numLoops s (s.setConn c (removed conn)) :=
    .setConn hconn (Nat.le_refl _)
  have hmap : Onward numLoops s { s.setConn c (removed conn) with
      connections := Function.update s.connections conn.name none } :=
    ⟨hset.reached, hset.asked, hset.placed⟩
  exact hmap.queueInLoop t (Nat.zero_le _) fun _ h => nomatch h

theorem advances_removeConnection (s : TcpServer) (t : LoopId) (c : ConnId) :
    Advances numLoops s (s.removeConnection t c) := by
  unfold removeConnection
  split
  · exact s.advances_removeConnectionInLoop t c
  · exact (Onward.refl s).queueInLoop t (Nat.zero_le _) fun _ h => nomatch h

theorem state_handleClose (tcp : TcpConnection) :
    Ends tcp.handleClose (·.state = .kDisconnected) fun _ => True := by
  unfold TcpConnection.handleClose
  exact ends_call fun _ => rfl

/-- A connection that is closed stays closed behind `removeConnection`. -/
theorem handleClose_ends (s : TcpServer) (t : LoopId) (c : ConnId) :
    Ends (s.handleClose t c) (fun s' => Onward numLoops s s' ∧ s'.Reached 3 c) fun _ => True := by
  refine findConn_ends fun conn hconn => (state_handleClose conn.tcp).bind fun tcp htcp => ?_
  have hset : Onward numLoops s
      (s.setConn c { conn with tcp, closeCallbacks := conn.closeCallbacks + 1 }) := by
    apply Onward.setConn hconn
    change conn.tcp.state.rank ≤ tcp.state.rank
    rw [htcp]
    exact LiveConnection.rank_le_three _
  have hclosed : Reached
      ((s.setConn c { conn with tcp, closeCallbacks := conn.closeCallbacks + 1 }).note
        .handleClose c conn t) 3 c :=
    ⟨_, Function.update_self .., by rw [htcp]; exact Nat.le_refl 3⟩
  refine (@advances_removeConnection numLoops _ t c).imp fun s' hs' => ?_
  exact ⟨(hset.note .handleClose c conn t).trans hs', hs'.reached 3 c hclosed⟩

theorem advances_handleClose (s : TcpServer) (t : LoopId) (c : ConnId) :
    Advances numLoops s (s.handleClose t c) :=
  (s.handleClose_ends t c).imp fun _ hs => hs.1

theorem advances_forceCloseInLoop (s : TcpServer) (t : LoopId) (c : ConnId) :
    Advances numLoops s (s.forceCloseInLoop t c) := by
  refine findConn_ends fun conn _ => ?_
  split
  · exact s.advances_handleClose t c
  · exact .refl s

/-- An established connection is closed behind `forceCloseInLoop`. -/
theorem forceCloseInLoop_ends (h : s.Reached 1 c) (t : LoopId) :
    Ends (s.forceCloseInLoop t c) (·.Reached 3 c) fun _ => True := by
  obtain ⟨conn, hconn, hrank⟩ := h
  unfold forceCloseInLoop
  rw [findConn_of_some hconn, ok_bind]
  split
  · exact (@handleClose_ends 0 s t c).imp fun _ hs => hs.2
  · rename_i hopen
    refine ⟨conn, hconn, ?_⟩
    cases hstate : conn.tcp.state with
    | kConnecting => rw [hstate] at hrank; cases hrank
    | kConnected => exact absurd (.inl hstate) hopen
    | kDisconnecting => exact absurd (.inr hstate) hopen
    | kDisconnected => exact Nat.le_refl 3

theorem advances_shutdownInLoop (s : TcpServer) (c : ConnId) :
    Advances numLoops s (s.shutdownInLoop c) := by
  refine findConn_ends fun conn hconn => Onward.setConn hconn ?_
  exact Nat.le_of_eq (congrArg StateE.rank (shutdownInLoop_state conn.tcp).1.symm)

theorem advances_call (s : TcpServer) (t : LoopId) (f : Functor) :
    Advances numLoops s (s.call t f) := by
  cases f with
  | connectEstablished c => exact s.advances_connectEstablished t c
  | removeConnectionInLoop c => exact s.advances_removeConnectionInLoop t c
  | connectDestroyed c => exact s.advances_connectDestroyed t c
  | forceCloseInLoop c => exact s.advances_forceCloseInLoop t c
  | shutdownInLoop c => exact s.advances_shutdownInLoop c

theorem state_handleWrite (tcp : TcpConnection) (result : WriteResult) :
    Ends (tcp.handleWrite result) (·.state = tcp.state) fun _ => True := by
  unfold TcpConnection.handleWrite
  split
  · split
    · refine ends_call fun outputBuffer => ?_
      dsimp only
      split
      · split
        · exact (shutdownInLoop_state _).1
        · rfl
      · rfl
    · trivial
  · rfl

theorem advances_callback (s : TcpServer) (t : LoopId) (c : ConnId) (read : ReadResult)
    (write : WriteResult) (cb : Channel.Callback) :
    Advances numLoops s (s.callback t c read write cb) := by
  cases cb with
  | close => exact s.advances_handleClose t c
  | error => exact .refl s
  | read =>
    cases read with
    | bytes => exact .refl s
    | eof => exact s.advances_handleClose t c
    | failed => trivial
  | write =>
    refine findConn_ends fun conn hconn =>
      (state_handleWrite conn.tcp write).bind fun tcp htcp => ?_
    exact Onward.setConn hconn (Nat.le_of_eq (congrArg StateE.rank htcp.symm))

theorem advances_handleEvent (s : TcpServer) (t : LoopId) (c : ConnId) (revents : Events)
    (read : ReadResult) (write : WriteResult) :
    Advances numLoops s (s.handleEvent t c revents read write) :=
  ends_foldlM (fun s' cb hs' => (s'.advances_callback t c read write cb).after hs') _ (.refl s)

theorem advances_send (s : TcpServer) (t : LoopId) (c : ConnId) (message : Message)
    (result : WriteResult) : Advances numLoops s (s.send t c message result) := by
  refine findConn_ends fun conn hconn => ?_
  rcases sendMessage_state conn.tcp (t = conn.loop) message result with
    ⟨tcp, htcp, hstate, _⟩ | hfatal
  · rw [htcp]
    exact Onward.setConn hconn (Nat.le_of_eq (congrArg StateE.rank hstate.symm))
  · rw [hfatal]
    trivial

/-- The loops connections are given are the pool's. -/
theorem assigned_le (numLoops : Nat) (c : ConnId) : assigned numLoops c ≤ numLoops := by
  unfold assigned EventLoopThreadPool.nthLoop
  split
  · exact Nat.zero_le _
  · rename_i hne
    exact Nat.mod_lt _ (Nat.pos_of_ne_zero hne)

theorem Tabled.loop_le (h : s.Tabled name numLoops) (hconn : s.conns c = some conn) :
    conn.loop ≤ numLoops := by
  rw [(h.named hconn).2.2]
  exact assigned_le numLoops c

theorem advances_shutdown (h : s.Tabled name numLoops) (t : LoopId) (c : ConnId) :
    Advances numLoops s (s.shutdown t c) := by
  refine findConn_ends fun conn hconn => ?_
  have hrank : conn.tcp.state.rank ≤ conn.tcp.shutdown.1.state.rank := by
    unfold TcpConnection.shutdown
    split
    · rename_i hstate
      rw [hstate]
      exact Nat.le_succ 1
    · exact Nat.le_refl _
  have hset : Onward numLoops s (s.setConn c { conn with tcp := conn.tcp.shutdown.1 }) :=
    .setConn hconn hrank
  dsimp only
  split
  · split
    · exact (advances_shutdownInLoop _ c).after hset
    · exact hset.queueInLoop t (h.loop_le hconn) fun _ heq => nomatch heq
  · exact hset

theorem advances_forceClose (h : s.Tabled name numLoops) (t : LoopId) (c : ConnId) :
    Advances numLoops s (s.forceClose t c) := by
  refine findConn_ends fun conn hconn => ?_
  dsimp only [TcpConnection.forceClose]
  split
  · rename_i hopen
    have hrank : conn.tcp.state.rank ≤ StateE.rank .kDisconnecting := by
      rcases hopen with heq | heq <;> simp [heq, StateE.rank]
    have hset : Onward numLoops s
        (s.setConn c { conn with tcp := conn.tcp.setState .kDisconnecting }) :=
      .setConn hconn hrank
    refine hset.queueInLoop t (h.loop_le hconn) fun d hd => ?_
    cases hd
    exact ⟨_, Function.update_self .., Nat.le_succ 1⟩
  · exact .setConn hconn (Nat.le_refl _)

-- as in the table, the new buffer is not computed
attribute [local irreducible] newConnection

theorem onward_addConn (h : s.Tabled name numLoops) (tcp : TcpConnection) :
    Onward numLoops s (s.addConn tcp) := by
  have hnone : s.conns s.nextConnId = none :=
    h.none_of_not_numbered fun hn => Nat.lt_irrefl _ hn.2
  have hqueues : (s.addConn tcp).queues = s.queues := by rw [addConn_eq]; rfl
  refine ⟨?_, fun l c hmem => .inl (hqueues ▸ hmem), fun l _ hs => by rw [hqueues, hs]⟩
  intro r d hd
  obtain ⟨conn, hconn, hrank⟩ := hd
  have hne : d ≠ s.nextConnId := by
    rintro rfl
    rw [hnone] at hconn
    cases hconn
  exact ⟨conn, by rw [conns_addConn, Function.update_of_ne hne, hconn], hrank⟩

theorem advances_newConnection (h : s.Tabled name numLoops) (sockfd : Int) :
    Advances numLoops s (s.newConnection sockfd) := by
  obtain ⟨outputBuffer, htcp⟩ := tcpInit_eq sockfd
  have hadd := onward_addConn h ⟨.kConnecting, .init sockfd, outputBuffer, [], []⟩
  rw [newConnection_eq htcp]
  split
  · exact (advances_connectEstablished _ base s.nextConnId).after hadd
  · have hloop : s.getNextLoop.1 ≤ numLoops := by
      rw [h.getNextLoop.1]
      exact assigned_le numLoops _
    exact hadd.queueInLoop base hloop fun _ heq => nomatch heq

/-! ## Steps -/

/-- A step keeps the table. -/
theorem tabled_step (h : s.Tabled name numLoops) (l : Label) :
    Ends (s.step l) (·.Tabled name numLoops) fun _ => True := by
  cases l with
  | newConnection sockfd => exact h.newConnection sockfd
  | runFunctor l =>
    cases hqueue : s.queues l with
    | nil =>
      simp only [step, hqueue]
      exact h
    | cons f rest =>
      simp only [step, hqueue]
      have hpop : (s.popFunctor l).Tabled name numLoops := h.setLoop l _
      exact hpop.call l f
  | pollEvent c revents read write =>
    refine findConn_ends fun conn _ => ?_
    exact ends_foldlM (fun s cb hs => hs.callback conn.loop c read write cb) _ h
  | send c message result => exact findConn_ends fun conn _ => h.send conn.loop c message result
  | shutdown c => exact findConn_ends fun conn _ => h.shutdown conn.loop c
  | forceClose c => exact findConn_ends fun conn _ => h.forceClose conn.loop c

/-- A step takes connections forward. -/
theorem onward_step (h : s.Tabled name numLoops) (l : Label) :
    Advances numLoops s (s.step l) := by
  cases l with
  | newConnection sockfd => exact advances_newConnection h sockfd
  | runFunctor l =>
    cases hqueue : s.queues l with
    | nil =>
      simp only [step, hqueue]
      exact Onward.refl s
    | cons f rest =>
      simp only [step, hqueue]
      exact (advances_call _ l f).after (.popFunctor s l)
  | pollEvent c revents read write =>
    exact findConn_ends fun conn _ => s.advances_handleEvent conn.loop c revents read write
  | send c message result =>
    exact findConn_ends fun conn _ => s.advances_send conn.loop c message result
  | shutdown c => exact findConn_ends fun conn _ => advances_shutdown h conn.loop c
  | forceClose c => exact findConn_ends fun conn _ => advances_forceClose h conn.loop c

/-- What is used of a state that a run reaches. -/
structure Ready (name : Bytes) (numLoops : Nat) (s : TcpServer) : Prop where
  settled : Settled s
  tabled : s.Tabled name numLoops
  asked : ∀ l c, .forceCloseInLoop c ∈ s.queues l → s.Reached 1 c
  placed : ∀ l, numLoops < l → s.queues l = []

theorem ready_init (name : Bytes) (numLoops : Nat) : (init name numLoops).Ready name numLoops where
  settled := settled_init name numLoops
  tabled := tabled_init name numLoops
  asked := fun _ _ h => nomatch h
  placed := fun _ _ => rfl

theorem Ready.step (h : s.Ready name numLoops) {l : Label} (hen : s.Enabled l)
    (hstep : s.step l = .ok s') : s'.Ready name numLoops ∧ Onward numLoops s s' := by
  have htabled := tabled_step h.tabled l
  have honward := onward_step h.tabled l
  rw [hstep] at htabled honward
  have hsettled : Settled s' := by
    rcases settled_step h.settled hen with ⟨u, hu, hsettled⟩ | hfatal
    · cases hstep.symm.trans hu
      exact hsettled
    · cases hstep.symm.trans hfatal
  refine ⟨⟨hsettled, htabled, fun l c hmem => ?_, fun l hl => ?_⟩, honward⟩
  · rcases honward.asked l c hmem with hbefore | hnow
    · exact honward.reached 1 c (h.asked l c hbefore)
    · exact hnow
  · exact honward.placed l hl (h.placed l hl)

theorem run_ready {ls : List Label} (h : system.Run (init name numLoops) ls (.ok s)) :
    s.Ready name numLoops := by
  have hends : Ends (.ok s) (·.Ready name numLoops) fun _ : Fault => True := by
    refine h.ends (I := (·.Ready name numLoops)) (ready_init name numLoops) ?_
    intro s l hs hen
    change Ends (s.step l) _ _
    cases hstep : s.step l with
    | error e => trivial
    | ok s' => exact (hs.step hen hstep).1
  exact hends

/-! ## Functors only -/

/-- A loop executes what waits for it. -/
def Label.IsFunctor (l : Label) : Prop := ∃ k, l = .runFunctor k

/-- A connection that a `forceCloseInLoop` is on its way to, or that is closed. -/
def Closing (s : TcpServer) (c : ConnId) : Prop :=
  (∃ k, .forceCloseInLoop c ∈ s.queues k) ∨ s.Reached 3 c

/-- What a functor does to the queues and to closing connections. -/
structure Executes (s s' : TcpServer) (l : LoopId) (f : Functor) : Prop where
  spawns : (s.popFunctor l).Spawns f.weight s'
  onward : ∀ c, s.Reached 3 c → s'.Reached 3 c
  closes : ∀ c, f = .forceCloseInLoop c → s'.Reached 3 c

theorem Ready.executes (h : s.Ready name numLoops) {f : Functor} {rest : List Functor}
    (hqueue : s.queues l = f :: rest) :
    ∃ s', s.step (.runFunctor l) = .ok s' ∧ s'.Ready name numLoops ∧ s.Executes s' l f := by
  have hstep : s.step (.runFunctor l) = (s.popFunctor l).call l f := by
    simp only [TcpServer.step, hqueue]
  have hen : s.Enabled (.runFunctor l) := fun hnil => by
    rw [hqueue] at hnil
    cases hnil
  obtain ⟨s', hs', _⟩ := settled_runFunctor h.settled hqueue
  obtain ⟨hready, honward⟩ := h.step hen (hstep.trans hs')
  have hspawns := (s.popFunctor l).spawns_call l f
  rw [hs'] at hspawns
  refine ⟨s', hstep.trans hs', hready, hspawns, honward.reached 3, fun c hf => ?_⟩
  subst hf
  have hasked : (s.popFunctor l).Reached 1 c :=
    h.asked l c (by rw [hqueue]; exact List.mem_cons_self)
  have hcloses := forceCloseInLoop_ends hasked l
  change (s.popFunctor l).forceCloseInLoop l c = .ok s' at hs'
  rw [hs'] at hcloses
  exact hcloses

/-- It leaves the queues without it, and with one lighter functor at most. -/
theorem Executes.queues {f : Functor} (h : s.Executes s' l f) :
    s'.queues = View.pop s.queues l ∨
      ∃ g, g.weight < f.weight ∧ s'.queues = View.push (View.pop s.queues l) base g := by
  have hspawns := h.spawns
  unfold Spawns at hspawns
  rwa [queues_popFunctor] at hspawns

/-- It leaves less to do. -/
theorem Executes.work_lt {f : Functor} {rest : List Functor} (h : s.Executes s' l f)
    (hready : s.Ready name numLoops) (hready' : s'.Ready name numLoops)
    (hqueue : s.queues l = f :: rest) : s'.work < s.work := by
  have hl : l < numLoops + 1 := by
    refine Nat.lt_succ_of_le (Nat.le_of_not_lt fun hlt => ?_)
    rw [hready.placed l hlt] at hqueue
    cases hqueue
  have hbase : base < numLoops + 1 := Nat.succ_pos numLoops
  have hpop := View.work_pop hl hqueue
  have hpos := f.weight_pos
  unfold work
  rw [hready.tabled.pool, hready'.tabled.pool]
  rcases h.queues with hsame | ⟨g, hg, hpush⟩
  · rw [hsame]
    omega
  · rw [hpush, View.work_push hbase]
    omega

/-- Another functor that waited still waits. -/
theorem Executes.mem {f g : Functor} {rest : List Functor} (h : s.Executes s' l f)
    (hqueue : s.queues l = f :: rest) {k : LoopId} (hmem : g ∈ s.queues k) (hne : g ≠ f) :
    g ∈ s'.queues k := by
  have hpop : g ∈ View.pop s.queues l k := by
    by_cases hk : k = l
    · subst hk
      rw [hqueue] at hmem
      rw [View.pop_self, hqueue]
      exact (List.mem_cons.mp hmem).resolve_left hne
    · rwa [View.pop_of_ne _ hk]
  rcases h.queues with hsame | ⟨_, -, hpush⟩
  · rwa [hsame]
  · rw [hpush]
    exact View.mem_push.mpr (.inl hpop)

/-- It forgets no `forceCloseInLoop`. -/
theorem Executes.closing {f : Functor} {rest : List Functor} (h : s.Executes s' l f)
    (hqueue : s.queues l = f :: rest) (hc : s.Closing c) : s'.Closing c := by
  rcases hc with ⟨k, hmem⟩ | hclosed
  · by_cases hf : f = .forceCloseInLoop c
    · exact .inr (h.closes c hf)
    · exact .inl ⟨k, h.mem hqueue hmem (Ne.symm hf)⟩
  · exact .inr (h.onward c hclosed)

/-! ## Where nothing waits -/

/-- A connection on which nothing is under way: it is open and in the map, or it was closed,
reported, removed and destroyed, each once, and is out of the map. -/
def AtRest (s : TcpServer) (c : ConnId) (conn : Connection) : Prop :=
  conn.tcp.state.Open ∧ conn.closeCallbacks = 0 ∧ conn.removals = 0 ∧ conn.destroys = 0 ∧
      s.connections conn.name = some c ∨
    conn.tcp.state = .kDisconnected ∧ conn.closeCallbacks = 1 ∧ conn.removals = 1 ∧
      conn.destroys = 1 ∧ s.connections conn.name = none

theorem Settled.atRest (h : Settled s) (hidle : ∀ k, s.queues k = [])
    (hconn : s.conns c = some conn) : s.AtRest c conn := by
  have hnone : ∀ {f k n}, View.Waiting s.queues f k n → n = 0 := fun {f k n} hw => by
    rw [← hw.count, hidle k, List.count_nil]
  obtain ⟨-, hestablishing, hclosed, hremoved, hremoving, hqueued, hdestroyed, hdestroying⟩ :=
    h.account.conns c conn hconn
  have hconnected := hnone hestablishing
  have hreported := hnone hremoving
  have hgone := hnone hdestroying
  have htorn := h.tornDownOnce
  by_cases hdown : conn.tcp.state = .kDisconnected
  · rw [if_pos hdown] at hclosed
    have hone : conn.removals = 1 := by omega
    refine .inr ⟨hdown, hclosed, hone, by omega, ?_⟩
    cases hfind : s.connections conn.name with
    | none => rfl
    | some d =>
      obtain ⟨other, hother, hname, hzero⟩ := (htorn.connections conn.name d).mp hfind
      obtain rfl := htorn.names d c other conn hother hconn hname
      cases hconn.symm.trans hother
      omega
  · rw [if_neg hdown] at hclosed
    have hzero : conn.removals = 0 := by omega
    refine .inl ⟨?_, hclosed, hzero, by omega, ?_⟩
    · cases hstate : conn.tcp.state with
      | kConnecting => rw [if_pos hstate] at hconnected; cases hconnected
      | kConnected => exact .inl rfl
      | kDisconnecting => exact .inr rfl
      | kDisconnected => exact absurd hstate hdown
    · exact (htorn.connections conn.name c).mpr ⟨conn, hconn, rfl, hzero⟩

/-- **A teardown comes to its end.** From every state a run of the server reaches by whole steps (a
connection accepted, a functor, a `handleEvent`, a call of the user on the connection's loop, each
at its end before the next begins), the loops can only execute so many functors before nothing
waits, in whatever order they take turns, and none of them faults; they can go on until nothing
waits; and wherever nothing waits every connection is at rest, open in the map or torn down and out
of it, and each one that a `forceCloseInLoop` was waiting for is torn down. -/
theorem teardown_completes {before : List Label}
    (h : system.Run (init name numLoops) before (.ok s)) :
    (∀ ls r, system.Run s ls r → (∀ l ∈ ls, l.IsFunctor) →
      ls.length ≤ s.work ∧ ∃ t, r = .ok t) ∧
    (∃ ls t, system.Run s ls (.ok t) ∧ (∀ l ∈ ls, l.IsFunctor) ∧ ∀ k, t.queues k = []) ∧
    ∀ ls t, system.Run s ls (.ok t) → (∀ l ∈ ls, l.IsFunctor) → (∀ k, t.queues k = []) →
      ∀ c conn, t.conns c = some conn → t.AtRest c conn ∧
        ((∃ k, .forceCloseInLoop c ∈ s.queues k) → conn.tcp.state = .kDisconnected) := by
  let I := fun t : TcpServer => t.Ready name numLoops ∧ ∀ c, s.Closing c → t.Closing c
  have hstart : I s := ⟨run_ready h, fun _ hc => hc⟩
  have hstep : ∀ t l, I t → l.IsFunctor → t.Enabled l →
      ∃ u, t.step l = .ok u ∧ I u ∧ u.work < t.work := by
    rintro t l ⟨hready, hclosing⟩ ⟨k, rfl⟩ hen
    obtain ⟨f, rest, hqueue⟩ := List.exists_cons_of_ne_nil hen
    obtain ⟨u, hu, hready', hexecutes⟩ := hready.executes hqueue
    exact ⟨u, hu, ⟨hready', fun c hc => hexecutes.closing hqueue (hclosing c hc)⟩,
      hexecutes.work_lt hready hready' hqueue⟩
  refine ⟨fun ls r hrun hls => ?_, ?_, fun ls t hrun hls hidle c conn hconn => ?_⟩
  · obtain ⟨t, ht, -, hlength⟩ := hrun.decreases hstep hstart hls
    exact ⟨by omega, t, ht⟩
  · obtain ⟨ls, t, hrun, hls, -, hstuck⟩ := exists_run_stuck (S := system) hstep hstart
    exact ⟨ls, t, hrun, hls, fun k => not_not.mp (hstuck _ ⟨k, rfl⟩)⟩
  · obtain ⟨t', ht', ⟨hready, hclosing⟩, -⟩ := hrun.decreases hstep hstart hls
    cases ht'
    refine ⟨hready.settled.atRest hidle hconn, fun hasked => ?_⟩
    rcases hclosing c (.inl hasked) with ⟨k, hmem⟩ | ⟨conn', hconn', hrank⟩
    · rw [hidle k] at hmem
      cases hmem
    · cases hconn.symm.trans hconn'
      cases hstate : conn.tcp.state with
      | kDisconnected => rfl
      | _ => rw [hstate] at hrank; exact absurd hrank (by decide)

/-- A connection that was asked to close: three functors at most, and it is closed. -/
theorem teardown_completes_forced :
    ∃ s, system.Run (init [] 1) [.newConnection 5, .runFunctor 1, .forceClose 1] (.ok s) ∧
      s.queues 1 = [.forceCloseInLoop 1] ∧ s.work = 3 ∧
      ∃ ls t, system.Run s ls (.ok t) ∧ ls.length ≤ 3 ∧
        ∀ conn, t.conns 1 = some conn → conn.tcp.state = .kDisconnected := by
  obtain ⟨outputBuffer, hinit⟩ := tcpInit_eq 5
  have haccept := newConnection_eq (s := init [] 1) hinit
  have hrun : ∃ s, system.Run (init [] 1) [.newConnection 5, .runFunctor 1, .forceClose 1] (.ok s) ∧
      s.queues 1 = [.forceCloseInLoop 1] ∧ s.work = 3 :=
    ⟨_, .cons (show 1 < INT_MAX by decide) haccept <| .cons (fun h => nomatch h) rfl <|
      .cons ⟨_, rfl, trivial⟩ rfl .nil, rfl, rfl⟩
  obtain ⟨s, hrun, hqueue, hwork⟩ := hrun
  obtain ⟨hbounded, ⟨ls, t, hls, hfunctors, hidle⟩, hrests⟩ := teardown_completes hrun
  have hlength := (hbounded ls _ hls hfunctors).1
  rw [hwork] at hlength
  refine ⟨s, hrun, hqueue, hwork, ls, t, hls, hlength, fun conn hconn => ?_⟩
  obtain ⟨-, hclosed⟩ := hrests ls t hls hfunctors hidle 1 conn hconn
  exact hclosed ⟨1, by rw [hqueue]; exact List.mem_cons_self⟩

end TcpServer

end ClyServer.Net
