import ClyServer.Net.ServerLoops

/-!
# Who changes the poll set of a loop

A connection belongs to the loop it was assigned to. `connectEstablished` and
`handleClose` stay with that loop: the one is queued there, the other is called by
its channel or by a functor queued there. `connectDestroyed` does not: it is queued
on the base loop, which changes the poll set of the connection's loop from another
thread, while that loop may be anywhere in its round.

`Respects` says once what an operation of the server can do to ownership; the
operations' statements give it, and it gives what holds along every run.
-/

namespace ClyServer.Net

open ClyServer.Lib

/-- The loop on which a functor about a connection is queued. -/
def Functor.home (f : Functor) (loop : LoopId) : LoopId :=
  match f with
  | connectEstablished _ | forceCloseInLoop _ | shutdownInLoop _ => loop
  | removeConnectionInLoop _ | connectDestroyed _ => TcpServer.base

namespace TcpServer

/-- A functor about a connection that exists, on the loop it belongs to. -/
def AtHome (s : TcpServer) (l : LoopId) (f : Functor) : Prop :=
  ∃ conn, s.conns f.about = some conn ∧ l = f.home conn.loop

/-- A change of a poll set made on the thread of the connection's loop. -/
def OnOwnLoop (s : TcpServer) (ch : Change) : Prop :=
  ∃ conn, s.conns ch.conn = some conn ∧ ch.thread = conn.loop

/-- No connection has a number not given yet. -/
def Fresh (s : TcpServer) : Prop := ∀ c, s.nextConnId ≤ c → s.conns c = none

/-- What an operation other than `connectDestroyed` can do to ownership:
connections stay with their loops, new ones are not the base loop's, functors are
queued where they belong, and poll sets are changed by their own loops. -/
structure Respects (s s' : TcpServer) : Prop where
  numLoops : s'.numLoops = s.numLoops
  fresh : s.Fresh → s'.Fresh
  kept : ∀ c conn, s.conns c = some conn → ∃ conn', s'.conns c = some conn' ∧ conn'.loop = conn.loop
  made : ∀ c conn, s'.conns c = some conn → s.conns c = none → conn.loop ≠ base
  queued : ∀ l, ∀ f ∈ s'.queues l, f ∈ s.queues l ∨ s'.AtHome l f
  changed : ∀ ch ∈ s'.changes, ch ∈ s.changes ∨ s'.OnOwnLoop ch ∧ ch.op ≠ .connectDestroyed

/-- What waits after a loop's record was replaced, if the new record has nothing
more queued. -/
theorem mem_queues_setLoop {s : TcpServer} {l k : LoopId} {loop : EventLoop Source Functor}
    (hqueue : ∀ f ∈ loop.pendingFunctors, f ∈ s.queues l) {f : Functor}
    (hf : f ∈ (s.setLoop l loop).queues k) : f ∈ s.queues k := by
  have hmem : f ∈ (Function.update s.loops l loop k).pendingFunctors := hf
  by_cases hk : k = l
  · subst hk
    rw [Function.update_self] at hmem
    exact hqueue f hmem
  · rw [Function.update_of_ne hk] at hmem
    exact hmem

namespace Respects

variable {s s' s'' : TcpServer}

theorem atHome (h : Respects s s') {l : LoopId} {f : Functor} (hf : s.AtHome l f) :
    s'.AtHome l f := by
  obtain ⟨conn, hconn, hl⟩ := hf
  obtain ⟨conn', hconn', hloop⟩ := h.kept _ conn hconn
  exact ⟨conn', hconn', by rw [hl, hloop]⟩

theorem onOwnLoop (h : Respects s s') {ch : Change} (hch : s.OnOwnLoop ch) : s'.OnOwnLoop ch := by
  obtain ⟨conn, hconn, hthread⟩ := hch
  obtain ⟨conn', hconn', hloop⟩ := h.kept _ conn hconn
  exact ⟨conn', hconn', by rw [hthread, hloop]⟩

/-- A server that differs in its loops' records, with nothing more queued. -/
theorem of_queues (hnum : s'.numLoops = s.numLoops) (hnext : s'.nextConnId = s.nextConnId)
    (hconns : s'.conns = s.conns) (hqueues : ∀ l, ∀ f ∈ s'.queues l, f ∈ s.queues l)
    (hchanges : s'.changes = s.changes) : Respects s s' where
  numLoops := hnum
  fresh := by
    intro hfresh c hc
    rw [hconns]
    rw [hnext] at hc
    exact hfresh c hc
  kept := by
    intro c conn hconn
    exact ⟨conn, by rw [hconns, hconn], rfl⟩
  made := by
    intro c conn hconn hnone
    rw [hconns, hnone] at hconn
    cases hconn
  queued := fun l f hf => .inl (hqueues l f hf)
  changed := by
    intro ch hch
    rw [hchanges] at hch
    exact .inl hch

theorem refl (s : TcpServer) : Respects s s := of_queues rfl rfl rfl (fun _ _ hf => hf) rfl

/-- A loop's record replaced, with nothing more queued. -/
theorem setLoop (s : TcpServer) (l : LoopId) {loop : EventLoop Source Functor}
    (hqueue : ∀ f ∈ loop.pendingFunctors, f ∈ s.queues l) : Respects s (s.setLoop l loop) :=
  of_queues rfl rfl rfl (fun _ _ hf => mem_queues_setLoop hqueue hf) rfl

theorem trans (h : Respects s s') (h' : Respects s' s'') : Respects s s'' where
  numLoops := h'.numLoops.trans h.numLoops
  fresh := fun hfresh => h'.fresh (h.fresh hfresh)
  kept := by
    intro c conn hconn
    obtain ⟨conn', hconn', hloop⟩ := h.kept c conn hconn
    obtain ⟨conn'', hconn'', hloop'⟩ := h'.kept c conn' hconn'
    exact ⟨conn'', hconn'', hloop'.trans hloop⟩
  made := by
    intro c conn hconn hnone
    cases hmid : s'.conns c with
    | none => exact h'.made c conn hconn hmid
    | some conn' =>
      obtain ⟨conn'', hconn'', hloop⟩ := h'.kept c conn' hmid
      rw [hconn] at hconn''
      cases hconn''
      rw [hloop]
      exact h.made c conn' hmid hnone
  queued := by
    intro l f hf
    rcases h'.queued l f hf with hf | hf
    · rcases h.queued l f hf with hf | hf
      · exact .inl hf
      · exact .inr (h'.atHome hf)
    · exact .inr hf
  changed := by
    intro ch hch
    rcases h'.changed ch hch with hch | hch
    · rcases h.changed ch hch with hch | ⟨hown, hop⟩
      · exact .inl hch
      · exact .inr ⟨h'.onOwnLoop hown, hop⟩
    · exact .inr hch

end Respects

/-- An operation that ends respecting ownership, or in some fault that is not the
assertion of `EventLoop::removeChannel`. -/
def Respectful (s : TcpServer) (x : Checked TcpServer) : Prop :=
  (∃ s', x = .ok s' ∧ Respects s s') ∨ ∃ e, x = .error e ∧ e ≠ .assertion .removeChannel

section Operations

variable {s s' : TcpServer} {t l : LoopId} {c : ConnId} {conn conn' : Connection}

theorem Respectful.refl (s : TcpServer) : Respectful s (.ok s) := .inl ⟨s, rfl, .refl s⟩

theorem mem_withPush {v : View} {pushed : Option (LoopId × Functor)} {f : Functor}
    (hf : f ∈ withPush v pushed l) : f ∈ v l ∨ pushed = some (l, f) := by
  cases pushed with
  | none => exact .inl hf
  | some p =>
    obtain ⟨k, g⟩ := p
    rcases View.mem_push.mp hf with hf | ⟨rfl, rfl⟩
    · exact .inl hf
    · exact .inr rfl

/-- An operation on one connection respects ownership if it leaves the connection
with its loop, queues about it where it belongs and changes the poll set on the
loop's own thread. -/
theorem Becomes.respects {m : Bytes → Option ConnId} {pushed : Option (LoopId × Functor)}
    {changes : List Change} (hb : s.Becomes s' c conn' m pushed changes)
    (hconn : s.conns c = some conn) (hloop : conn'.loop = conn.loop)
    (hpushed : ∀ l f, pushed = some (l, f) → f.about = c ∧ l = f.home conn.loop)
    (hchanges : ∀ ch ∈ changes,
      ch.conn = c ∧ ch.thread = conn.loop ∧ ch.op ≠ .connectDestroyed) : Respects s s' where
  numLoops := hb.numLoops
  fresh := by
    intro hfresh d hd
    rw [hb.nextConnId] at hd
    have hnone := hfresh d hd
    rw [hb.conns_of_ne, hnone]
    rintro rfl
    rw [hconn] at hnone
    cases hnone
  kept := by
    intro d e hd
    by_cases hdc : d = c
    · subst hdc
      rw [hconn] at hd
      cases hd
      exact ⟨conn', hb.conns_self, hloop⟩
    · exact ⟨e, by rw [hb.conns_of_ne hdc, hd], rfl⟩
  made := by
    intro d e hd hnone
    have hdc : d ≠ c := by
      rintro rfl
      rw [hconn] at hnone
      cases hnone
    rw [hb.conns_of_ne hdc, hnone] at hd
    cases hd
  queued := by
    intro l f hf
    rw [hb.queues] at hf
    rcases mem_withPush hf with hf | hf
    · exact .inl hf
    · obtain ⟨habout, hl⟩ := hpushed l f hf
      exact .inr ⟨conn', by rw [habout, hb.conns_self], by rw [hl, hloop]⟩
  changed := by
    intro ch hch
    rw [hb.changes, List.mem_append] at hch
    rcases hch with hch | hch
    · exact .inl hch
    · obtain ⟨hc, hthread, hop⟩ := hchanges ch hch
      exact .inr ⟨⟨conn', by rw [hc, hb.conns_self], by rw [hthread, hloop]⟩, hop⟩

/-- An operation that changes the record and does nothing else. -/
theorem Becomes.respects_record {m : Bytes → Option ConnId} (hconn : s.conns c = some conn)
    (hb : s.Becomes s' c conn' m none []) (hloop : conn'.loop = conn.loop) : Respects s s' :=
  hb.respects hconn hloop (fun _ _ h => nomatch h) fun _ h => nomatch h

/-- Closing on the connection's own loop, which is not the base loop. -/
theorem respectful_handleClose (hconn : s.conns c = some conn) (hbase : conn.loop ≠ base) :
    Respectful s (s.handleClose conn.loop c) := by
  by_cases hstate : conn.tcp.state = .kConnected ∨ conn.tcp.state = .kDisconnecting
  · obtain ⟨s', hs', hb⟩ := handleClose_remote hconn hstate hbase
    refine .inl ⟨s', hs', hb.respects hconn rfl ?_ ?_⟩
    · intro l f hf
      cases hf
      exact ⟨rfl, rfl⟩
    · intro ch hch
      rw [List.mem_singleton] at hch
      rw [hch]
      exact ⟨rfl, rfl, by simp [changeOf]⟩
  · refine .inr ⟨.assertion .handleClose, ?_, by decide⟩
    simp only [handleClose, findConn_of_some hconn, ok_bind, TcpConnection.handleClose,
      check_neg hstate]
    rfl

theorem respectful_connectEstablished (hconn : s.conns c = some conn) :
    Respectful s (s.connectEstablished conn.loop c) := by
  by_cases hstate : conn.tcp.state = .kConnecting
  · obtain ⟨s', hs', hb⟩ := connectEstablished_spec hconn hstate conn.loop
    refine .inl ⟨s', hs', hb.respects hconn rfl (fun _ _ h => nomatch h) ?_⟩
    intro ch hch
    rw [List.mem_singleton] at hch
    rw [hch]
    exact ⟨rfl, rfl, by simp [changeOf]⟩
  · refine .inr ⟨.assertion .connectEstablished, ?_, by decide⟩
    simp only [connectEstablished, findConn_of_some hconn, ok_bind,
      TcpConnection.connectEstablished, check_neg hstate]
    rfl

theorem respectful_removeConnectionInLoop (hconn : s.conns c = some conn) (t : LoopId) :
    Respectful s (s.removeConnectionInLoop t c) := by
  by_cases hmap : (s.connections conn.name).isSome
  · obtain ⟨s', hs', hb⟩ := removeConnectionInLoop_spec hconn hmap t
    refine .inl ⟨s', hs', hb.respects hconn rfl ?_ fun _ h => nomatch h⟩
    intro l f hf
    cases hf
    exact ⟨rfl, rfl⟩
  · refine .inr ⟨.assertion .removeConnectionInLoop, ?_, by decide⟩
    simp only [removeConnectionInLoop, findConn_of_some hconn, ok_bind, if_neg hmap]
    rfl

theorem respectful_forceCloseInLoop (hconn : s.conns c = some conn) (hbase : conn.loop ≠ base) :
    Respectful s (s.forceCloseInLoop conn.loop c) := by
  rw [forceCloseInLoop, findConn_of_some hconn, ok_bind]
  split
  · exact respectful_handleClose hconn hbase
  · exact .refl s

theorem respectful_shutdownInLoop (hconn : s.conns c = some conn) :
    Respectful s (s.shutdownInLoop c) := by
  obtain ⟨s', hs', hb⟩ := shutdownInLoop_spec hconn
  exact .inl ⟨s', hs', hb.respects_record hconn rfl⟩

/-- A functor other than `connectDestroyed` executed where it belongs. -/
theorem respectful_call {f : Functor} (hf : s.AtHome l f)
    (hbase : ∀ c conn, s.conns c = some conn → conn.loop ≠ base)
    (hne : ∀ c, f ≠ .connectDestroyed c) : Respectful s (s.call l f) := by
  obtain ⟨conn, hconn, rfl⟩ := hf
  cases f with
  | connectEstablished c => exact respectful_connectEstablished hconn
  | removeConnectionInLoop c => exact respectful_removeConnectionInLoop hconn base
  | connectDestroyed c => exact absurd rfl (hne c)
  | forceCloseInLoop c => exact respectful_forceCloseInLoop hconn (hbase c conn hconn)
  | shutdownInLoop c => exact respectful_shutdownInLoop hconn

/-! ## Calls of the user -/

theorem respectful_send (hconn : s.conns c = some conn) (t : LoopId) (message : Message)
    (result : WriteResult) : Respectful s (s.send t c message result) := by
  rcases send_spec hconn t message result with ⟨s', tcp, hs', _, _, hb⟩ | hfatal
  · exact .inl ⟨s', hs', hb.respects_record hconn rfl⟩
  · exact .inr ⟨.fatalLog, hfatal, by decide⟩

theorem respectful_shutdown (hconn : s.conns c = some conn) (t : LoopId) :
    Respectful s (s.shutdown t c) := by
  by_cases ht : t = conn.loop
  · obtain ⟨s', tcp, hs', _, _, hb⟩ := shutdown_spec hconn
    rw [ht]
    exact .inl ⟨s', hs', hb.respects_record hconn rfl⟩
  · obtain ⟨s', tcp, pushed, hs', _, hpushed, hb⟩ := shutdown_spec_other hconn ht
    refine .inl ⟨s', hs', hb.respects hconn rfl ?_ fun _ h => nomatch h⟩
    intro l f hf
    rcases hpushed with hnone | hsome
    · rw [hnone] at hf
      cases hf
    · rw [hsome] at hf
      cases hf
      exact ⟨rfl, rfl⟩

theorem respectful_forceClose (hconn : s.conns c = some conn) (t : LoopId) :
    Respectful s (s.forceClose t c) := by
  obtain ⟨s', hs', ⟨_, hb⟩ | hb⟩ := forceClose_spec hconn t
  · refine .inl ⟨s', hs', hb.respects hconn rfl ?_ fun _ h => nomatch h⟩
    intro l f hf
    cases hf
    exact ⟨rfl, rfl⟩
  · exact .inl ⟨s', hs', hb.respects_record hconn rfl⟩

/-! ## Events -/

theorem retrieve_fault (b : Buffer) (len : Nat) :
    (∃ b', b.retrieve len = .ok b') ∨ b.retrieve len = .error (.assertion .retrieve) := by
  unfold Buffer.retrieve
  by_cases hlen : len ≤ b.readableBytes
  · rw [check_pos hlen, ok_bind]
    split
    · exact .inl ⟨_, rfl⟩
    · exact .inl ⟨_, rfl⟩
  · rw [check_neg hlen]
    exact .inr rfl

/-- Writing out changes the record, or ends in a fault of its own. -/
theorem handleWrite_fault (tcp : TcpConnection) (result : WriteResult) :
    (∃ tcp', tcp.handleWrite result = .ok tcp') ∨
      ∃ e, tcp.handleWrite result = .error e ∧ e ≠ .assertion .removeChannel := by
  unfold TcpConnection.handleWrite
  split
  · cases result with
    | failed errno => exact .inr ⟨.fatalLog, rfl, by decide⟩
    | accepted n =>
      cases n with
      | zero => exact .inr ⟨.fatalLog, rfl, by decide⟩
      | succ n =>
        rcases retrieve_fault tcp.outputBuffer (n + 1) with ⟨b, hb⟩ | hfault
        · simp only [hb, ok_bind]
          split
          · exact .inl ⟨_, rfl⟩
          · exact .inl ⟨_, rfl⟩
        · simp only [hfault]
          exact .inr ⟨.assertion .retrieve, rfl, by decide⟩
  · exact .inl ⟨tcp, rfl⟩

theorem respectful_handleWrite (hconn : s.conns c = some conn) (result : WriteResult) :
    Respectful s (s.handleWrite c result) := by
  rw [handleWrite, findConn_of_some hconn, ok_bind]
  rcases handleWrite_fault conn.tcp result with ⟨tcp, htcp⟩ | ⟨e, he, hne⟩
  · rw [htcp]
    exact .inl ⟨_, rfl, (becomes_setConn s c _).respects_record hconn rfl⟩
  · rw [he]
    exact .inr ⟨e, rfl, hne⟩

theorem respectful_callback (hconn : s.conns c = some conn) (hbase : conn.loop ≠ base)
    (read : ReadResult) (write : WriteResult) (cb : Channel.Callback) :
    Respectful s (s.callback conn.loop c read write cb) := by
  cases cb with
  | close => exact respectful_handleClose hconn hbase
  | error => exact .refl s
  | write => exact respectful_handleWrite hconn write
  | read =>
    cases read with
    | bytes => exact .refl s
    | eof => exact respectful_handleClose hconn hbase
    | failed => exact .inr ⟨.fatalLog, rfl, by decide⟩

/-- The callbacks of one `handleEvent`, one after the other. -/
theorem respectful_callbacks (hconn : s.conns c = some conn) (hloop : conn.loop = l)
    (hbase : l ≠ base) (read : ReadResult) (write : WriteResult) (cbs : List Channel.Callback) :
    Respectful s (cbs.foldlM (fun s cb => s.callback l c read write cb) s) := by
  induction cbs generalizing s conn with
  | nil => exact .refl s
  | cons cb rest ih =>
    subst hloop
    rw [List.foldlM_cons]
    rcases respectful_callback hconn hbase read write cb with ⟨s', hs', hrespects⟩ | ⟨e, he, hne⟩
    · obtain ⟨conn', hconn', hloop'⟩ := hrespects.kept c conn hconn
      rw [hs', ok_bind]
      rcases ih hconn' hloop' with ⟨s'', hs'', hrest⟩ | hfault
      · exact .inl ⟨s'', hs'', hrespects.trans hrest⟩
      · exact .inr hfault
    · rw [he]
      exact .inr ⟨e, rfl, hne⟩

/-! ## Accepting -/

/-- With loops in the pool none of them is the base loop. -/
theorem getNextLoop_ne_base (hpool : s.numLoops ≠ 0) : s.getNextLoop.1 ≠ base := by
  obtain ⟨_, _, ⟨hzero, _⟩ | ⟨_, hloop⟩⟩ := s.getNextLoop_spec
  · exact absurd hzero hpool
  · rw [hloop]
    exact Nat.succ_ne_zero _

/-- Accepting respects ownership if the new connection is not the base loop's and
what is queued and changed is about it. -/
theorem Accepts.respects {pushed : Option (LoopId × Functor)} (hfresh : s.Fresh)
    (ha : s.Accepts s' conn' pushed []) (hbase : conn'.loop ≠ base)
    (hpushed : ∀ l f, pushed = some (l, f) → f.about = s.nextConnId ∧ l = f.home conn'.loop) :
    Respects s s' where
  numLoops := ha.numLoops
  fresh := by
    intro _ c hc
    rw [ha.nextConnId] at hc
    rw [ha.conns, Function.update_of_ne (Nat.lt_of_succ_le hc).ne']
    exact hfresh c (Nat.le_of_succ_le hc)
  kept := by
    intro c conn hconn
    have hc : c ≠ s.nextConnId := by
      intro heq
      rw [heq, hfresh _ (le_refl _)] at hconn
      cases hconn
    exact ⟨conn, by rw [ha.conns, Function.update_of_ne hc, hconn], rfl⟩
  made := by
    intro c conn hconn hnone
    by_cases hc : c = s.nextConnId
    · rw [hc, ha.conns, Function.update_self] at hconn
      cases hconn
      exact hbase
    · rw [ha.conns, Function.update_of_ne hc, hnone] at hconn
      cases hconn
  queued := by
    intro l f hf
    rw [ha.queues] at hf
    rcases mem_withPush hf with hf | hf
    · exact .inl hf
    · obtain ⟨habout, hl⟩ := hpushed l f hf
      exact .inr ⟨conn', by rw [habout, ha.conns, Function.update_self], hl⟩
  changed := by
    intro ch hch
    rw [ha.changes, List.append_nil] at hch
    exact .inl hch

/-- A new connection of a server with a pool is queued on a loop of the pool. -/
theorem respectful_newConnection (hfresh : s.Fresh) (hpool : s.numLoops ≠ 0) (sockfd : Int) :
    Respectful s (s.newConnection sockfd) := by
  obtain ⟨tcp, s', hs', _, _, ⟨heq, _⟩ | ⟨hne, ha⟩⟩ := s.newConnection_spec sockfd
  · exact absurd heq (getNextLoop_ne_base hpool)
  · refine .inl ⟨s', hs', ha.respects hfresh hne ?_⟩
    intro l f hf
    cases hf
    exact ⟨rfl, rfl⟩

end Operations

/-! ## The rounds of the loops -/

/-- `handleEvent` of a channel active on its loop's thread. -/
theorem respectful_handleChannel {s : TcpServer} {l : LoopId} (hfresh : s.Fresh)
    (hpool : s.numLoops ≠ 0) (hbase : ∀ c conn, s.conns c = some conn → conn.loop ≠ base)
    {ch : LoopChannel (Source × Events)}
    (hch : ∀ c revents, ch = .other (.conn c, revents) →
      ∃ conn, s.conns c = some conn ∧ conn.loop = l)
    (outcome : Outcome) : Respectful s (s.handleChannel l outcome ch) := by
  match ch with
  | .wakeupChannel => exact .inl ⟨_, rfl, .setLoop s l fun _ hf => hf⟩
  | .other (.acceptChannel, revents) =>
    show Respectful s (if _ then s.acceptorHandleRead outcome.connfd else .ok s)
    split
    · unfold acceptorHandleRead
      split
      · exact respectful_newConnection hfresh hpool _
      · exact .inr ⟨.fatalLog, rfl, by decide⟩
    · exact .refl s
  | .other (.conn c, revents) =>
    obtain ⟨conn, hconn, hloop⟩ := hch c revents rfl
    have hne : l ≠ base := by
      rw [← hloop]
      exact hbase c conn hconn
    exact respectful_callbacks hconn hloop hne outcome.read outcome.write _

end TcpServer

/-- The channels still to be handled. -/
def Place.toHandle {χ φ : Type} : Place χ φ → List (LoopChannel χ)
  | handling rest _ => rest
  | _ => []

namespace ServerLoops

open TcpServer (base Respects Respectful)

/-- The functors still to be executed: the batch being run and what is queued. -/
def view (s : ServerLoops) : View := fun l => (s.place l).batch ++ s.server.queues l

/-- Ownership, as long as no connection was destroyed: every connection is a pool
loop's, functors wait where they belong, the channels a loop is about to handle
are its own, and poll sets were changed by their own loops only. -/
structure Owns (s : ServerLoops) : Prop where
  pool : s.server.numLoops ≠ 0
  fresh : s.server.Fresh
  loop : ∀ c conn, s.server.conns c = some conn → conn.loop ≠ base
  home : ∀ l, ∀ f ∈ s.view l, s.server.AtHome l f
  active : ∀ l c revents, .other (.conn c, revents) ∈ (s.place l).toHandle →
    ∃ conn, s.server.conns c = some conn ∧ conn.loop = l
  changes : ∀ ch ∈ s.server.changes, s.server.OnOwnLoop ch ∧ ch.op ≠ .connectDestroyed

theorem owns_start (name : Bytes) {numLoops : Nat} (hpool : numLoops ≠ 0) :
    Owns (start name numLoops) where
  pool := hpool
  fresh := fun _ _ => rfl
  loop := fun _ _ h => nomatch h
  home := fun _ _ h => nomatch h
  active := fun _ _ _ h => nomatch h
  changes := fun _ h => nomatch h

section Steps

variable {s : ServerLoops} {l : LoopId}

/-- A step that respects ownership, and moves places without making up functors or
channels. -/
theorem Owns.move (h : Owns s) {server : TcpServer}
    {place : LoopId → Place (Source × Events) Functor} (hrespects : Respects s.server server)
    (hbatch : ∀ k, ∀ f ∈ (place k).batch, f ∈ s.view k)
    (hactive : ∀ k c revents, .other (.conn c, revents) ∈ (place k).toHandle →
      ∃ conn, s.server.conns c = some conn ∧ conn.loop = k) : Owns ⟨server, place⟩ where
  pool := by
    show server.numLoops ≠ 0
    rw [hrespects.numLoops]
    exact h.pool
  fresh := hrespects.fresh h.fresh
  loop := by
    intro c conn hconn
    cases hbefore : s.server.conns c with
    | none => exact hrespects.made c conn hconn hbefore
    | some conn₀ =>
      obtain ⟨conn', hconn', hloop⟩ := hrespects.kept c conn₀ hbefore
      cases hconn.symm.trans hconn'
      rw [hloop]
      exact h.loop c conn₀ hbefore
  home := by
    intro k f hf
    rcases List.mem_append.mp hf with hf | hf
    · exact hrespects.atHome (h.home k f (hbatch k f hf))
    · rcases hrespects.queued k f hf with hf | hf
      · exact hrespects.atHome (h.home k f (List.mem_append_right _ hf))
      · exact hf
  active := by
    intro k c revents hmem
    obtain ⟨conn, hconn, hloop⟩ := hactive k c revents hmem
    obtain ⟨conn', hconn', hloop'⟩ := hrespects.kept c conn hconn
    exact ⟨conn', hconn', hloop'.trans hloop⟩
  changes := by
    intro ch hch
    rcases hrespects.changed ch hch with hch | hch
    · obtain ⟨hown, hop⟩ := h.changes ch hch
      exact ⟨hrespects.onOwnLoop hown, hop⟩
    · exact hch

/-- A step of one loop. -/
theorem Owns.moveTo (h : Owns s) {server : TcpServer} {p : Place (Source × Events) Functor}
    (hrespects : Respects s.server server) (hbatch : ∀ f ∈ p.batch, f ∈ s.view l)
    (hactive : ∀ c revents, .other (.conn c, revents) ∈ p.toHandle →
      ∃ conn, s.server.conns c = some conn ∧ conn.loop = l) :
    Owns ⟨server, Function.update s.place l p⟩ := by
  apply h.move hrespects
  · intro k f hf
    by_cases hk : k = l
    · subst hk
      rw [Function.update_self] at hf
      exact hbatch f hf
    · rw [Function.update_of_ne hk] at hf
      exact List.mem_append_left _ hf
  · intro k c revents hmem
    by_cases hk : k = l
    · subst hk
      rw [Function.update_self] at hmem
      exact hactive c revents hmem
    · rw [Function.update_of_ne hk] at hmem
      exact h.active k c revents hmem

/-- A step of the user. -/
theorem Owns.call (h : Owns s) {server : TcpServer} (hrespects : Respects s.server server) :
    Owns { s with server } :=
  h.move hrespects (fun _ _ hf => List.mem_append_left _ hf) h.active

/-- What poll reports for a connection is the loop's own. -/
theorem loop_of_mayReport {server : TcpServer} {c : ConnId} {revents : Events}
    (h : mayReport server l (.other (.conn c, revents)) = true) :
    ∃ conn, server.conns c = some conn ∧ conn.loop = l := by
  cases hconn : server.conns c with
  | none => simp [mayReport, hconn] at h
  | some conn =>
    simp only [mayReport, hconn, Bool.and_eq_true, decide_eq_true_eq] at h
    exact ⟨conn, rfl, h.1.1⟩

/-- The step executes a `connectDestroyed`. -/
def Destroys (s : ServerLoops) (l : Label) : Prop :=
  ∃ k c rest inside, l = .execute k ∧ s.place k = .calling (.connectDestroyed c :: rest) inside

/-- A step ends in ownership, or in a fault other than the assertion of
`EventLoop::removeChannel`. -/
def StaysOwned (x : Checked ServerLoops) : Prop :=
  (∃ s', x = .ok s' ∧ Owns s') ∨ ∃ e, x = .error e ∧ e ≠ .assertion .removeChannel

/-- A step that runs an operation of the server, from what the operation does. -/
theorem staysOwned_of {server : TcpServer} {x : Checked TcpServer} {g : TcpServer → ServerLoops}
    (h : Respectful server x) (hg : ∀ server', Respects server server' → Owns (g server')) :
    StaysOwned (x >>= fun server' => return g server') := by
  rcases h with ⟨server', rfl, hrespects⟩ | ⟨e, rfl, hne⟩
  · exact .inl ⟨g server', rfl, hg server' hrespects⟩
  · exact .inr ⟨e, rfl, hne⟩

/-- The next active channel of a loop handled. -/
theorem owns_handle (h : Owns s) {ch : LoopChannel (Source × Events)}
    {rest : List (LoopChannel (Source × Events))} {inside : Bool}
    (hplace : s.place l = .handling (ch :: rest) inside) (outcome : TcpServer.Outcome) :
    StaysOwned (s.step (.handle l outcome)) := by
  let current := s.server.setLoop l ((s.server.loops l).setCurrent (channelOf ch))
  have hcurrent : Respects s.server current := .setLoop s.server l fun _ hf => hf
  have hactive : ∀ c revents, .other (.conn c, revents) ∈ ch :: rest →
      ∃ conn, s.server.conns c = some conn ∧ conn.loop = l := by
    intro c revents hmem
    exact h.active l c revents (by rw [hplace]; exact hmem)
  have hchannel : Respectful current (current.handleChannel l outcome ch) := by
    refine TcpServer.respectful_handleChannel (s := current) h.fresh h.pool h.loop ?_ outcome
    intro c revents hch
    exact hactive c revents (by rw [hch]; exact List.mem_cons_self)
  simp only [step, hplace]
  apply staysOwned_of hchannel
  intro server hrespects
  refine h.moveTo (hcurrent.trans hrespects) (fun _ hf => nomatch hf) ?_
  intro c revents hmem
  exact hactive c revents (List.mem_cons_of_mem _ hmem)

/-- The next functor of a batch executed, other than a `connectDestroyed`. -/
theorem owns_execute (h : Owns s) {f : Functor} {rest : List Functor} {inside : Bool}
    (hplace : s.place l = .calling (f :: rest) inside) (hne : ∀ c, f ≠ .connectDestroyed c) :
    StaysOwned (s.step (.execute l)) := by
  have hbatch : ∀ g ∈ f :: rest, g ∈ s.view l := by
    intro g hg
    apply List.mem_append_left
    rw [hplace]
    exact hg
  have hhome := h.home l f (hbatch f List.mem_cons_self)
  simp only [step, hplace]
  apply staysOwned_of (TcpServer.respectful_call hhome h.loop hne)
  intro server hrespects
  refine h.moveTo hrespects ?_ fun _ _ hmem => nomatch hmem
  intro g hg
  exact hbatch g (List.mem_cons_of_mem _ hg)

/-- A step of a round that only moves a loop along. -/
theorem staysOwned_advance (h : Owns s) {loop : EventLoop Source Functor}
    {p : Place (Source × Events) Functor}
    (hqueue : ∀ f ∈ loop.pendingFunctors, f ∈ s.server.queues l)
    (hbatch : ∀ f ∈ p.batch, f ∈ s.view l)
    (hactive : ∀ c revents, .other (.conn c, revents) ∈ p.toHandle →
      ∃ conn, s.server.conns c = some conn ∧ conn.loop = l) :
    StaysOwned (.ok (s.advance l loop p)) :=
  .inl ⟨_, rfl, h.moveTo (.setLoop s.server l hqueue) hbatch hactive⟩

/-- Every step but the execution of a `connectDestroyed` keeps ownership. -/
theorem owns_step (h : Owns s) {l : Label} (hen : s.enabled l = true) (hne : ¬ s.Destroys l) :
    StaysOwned (s.step l) := by
  cases l with
  | pollReturn l active =>
    simp only [enabled, Bool.and_eq_true, List.all_eq_true] at hen
    refine staysOwned_advance h (fun _ hf => hf) (fun _ hf => nomatch hf) ?_
    intro c revents hmem
    exact loop_of_mayReport (hen.1.2 _ hmem)
  | handle l outcome =>
    cases hplace : s.place l with
    | handling todo inside =>
      cases todo with
      | nil => simp [enabled, hplace] at hen
      | cons ch rest => exact owns_handle h hplace outcome
    | _ => simp [enabled, hplace] at hen
  | endHandling l =>
    exact staysOwned_advance h (fun _ hf => hf) (fun _ hf => nomatch hf)
      fun _ _ hmem => nomatch hmem
  | swap l =>
    exact staysOwned_advance h (fun _ hf => nomatch hf) (fun _ hf => List.mem_append_right _ hf)
      fun _ _ hmem => nomatch hmem
  | execute l =>
    cases hplace : s.place l with
    | calling batch inside =>
      cases batch with
      | nil => simp [enabled, hplace] at hen
      | cons f rest =>
        apply owns_execute h hplace
        intro c hf
        apply hne
        exact ⟨l, c, rest, inside, rfl, by rw [hplace, hf]⟩
    | _ => simp [enabled, hplace] at hen
  | endFunctors l =>
    exact staysOwned_advance h (fun _ hf => hf) (fun _ hf => nomatch hf)
      fun _ _ hmem => nomatch hmem
  | send t c message result =>
    obtain ⟨conn, hconn⟩ := Option.isSome_iff_exists.mp hen
    exact staysOwned_of (TcpServer.respectful_send hconn t message result) fun _ => h.call
  | shutdown t c =>
    obtain ⟨conn, hconn⟩ := Option.isSome_iff_exists.mp hen
    exact staysOwned_of (TcpServer.respectful_shutdown hconn t) fun _ => h.call
  | forceClose t c =>
    obtain ⟨conn, hconn⟩ := Option.isSome_iff_exists.mp hen
    exact staysOwned_of (TcpServer.respectful_forceClose hconn t) fun _ => h.call

/-! ## What is asked of a run -/

/-- Poll sets were changed only by the loops the connections were assigned to, and
no connection was destroyed while its loop was handling events. -/
structure Owned (s : ServerLoops) : Prop where
  thread : ∀ ch ∈ s.server.changes, s.server.OnOwnLoop ch
  quiet : ∀ ch ∈ s.server.changes, ch.op = .connectDestroyed → ch.handling = false

theorem Owns.owned (h : Owns s) : Owned s where
  thread := fun ch hch => (h.changes ch hch).1
  quiet := fun ch hch hop => absurd hop (h.changes ch hch).2

theorem checkRemove_cases (loop : EventLoop Source Functor) (c : Source) :
    loop.checkRemove c = .ok () ∨ loop.checkRemove c = .error (.assertion .removeChannel) := by
  unfold EventLoop.checkRemove
  split
  · unfold check
    split
    · exact .inl rfl
    · exact .inr rfl
  · exact .inl rfl

/-- A `connectDestroyed` is executed by the base loop, which is not the loop of the
connection. -/
theorem destroys_step (h : Owns s) {l : Label} (hd : s.Destroys l) :
    (∃ s', s.step l = .ok s' ∧ ¬ Owned s') ∨ s.step l = .error (.assertion .removeChannel) := by
  obtain ⟨k, c, rest, inside, rfl, hplace⟩ := hd
  have hmem : .connectDestroyed c ∈ s.view k := by
    apply List.mem_append_left
    rw [hplace]
    exact List.mem_cons_self
  obtain ⟨conn, hconn, hk⟩ : ∃ conn, s.server.conns c = some conn ∧ k = base := h.home k _ hmem
  have hloop := h.loop c conn hconn
  simp only [step, hplace, TcpServer.call]
  rcases checkRemove_cases (s.server.loops conn.loop) (.conn c) with hcheck | hcheck
  · obtain ⟨server, hserver, hb⟩ := TcpServer.connectDestroyed_spec hconn hcheck k
    rw [hserver]
    refine .inl ⟨_, rfl, fun howned => ?_⟩
    have hnoted : s.server.changeOf .connectDestroyed c conn k ∈ server.changes := by
      rw [hb.changes]
      exact List.mem_append_right _ (List.mem_singleton_self _)
    obtain ⟨conn', hconn', hthread⟩ := howned.thread _ hnoted
    cases hb.conns_self.symm.trans hconn'
    exact hloop (hthread.symm.trans hk)
  · right
    rw [TcpServer.connectDestroyed, TcpServer.findConn_of_some hconn, ok_bind, hcheck]
    rfl

end Steps

/-! ## Runs -/

section Runs

variable {name : Bytes} {numLoops : Nat} {ls : List Label}

/-- Ownership in every state the run passes through, and no failed assertion of
`EventLoop::removeChannel`. -/
def OwnedRun (name : Bytes) (numLoops : Nat) (ls : List Label) : Prop :=
  (∀ pre s, pre <+: ls → system.Run (start name numLoops) pre (.ok s) → Owned s) ∧
  ∀ pre, pre <+: ls → ¬ system.Run (start name numLoops) pre (.error (.assertion .removeChannel))

/-- No step of the run executes a `connectDestroyed`. -/
def UndestroyedRun (name : Bytes) (numLoops : Nat) (ls : List Label) : Prop :=
  ∀ pre l s, pre ++ [l] <+: ls → system.Run (start name numLoops) pre (.ok s) → ¬ s.Destroys l

/-- If no step taken from ownership executes a `connectDestroyed`, ownership holds
along the run. -/
theorem owns_run (hpool : numLoops ≠ 0)
    (hclean : ∀ pre l t, pre ++ [l] <+: ls → system.Run (start name numLoops) pre (.ok t) →
      system.enabled t l → Owns t → ¬ t.Destroys l)
    {pre : List Label} {s : ServerLoops} (hpre : pre <+: ls)
    (h : system.Run (start name numLoops) pre (.ok s)) : Owns s := by
  apply System.Run.along (owns_start name hpool) ?_ hpre h
  intro pre l t u hpre hrun howns hen hstep
  rcases owns_step howns hen (hclean pre l t hpre hrun hen howns) with
    ⟨u', hu', hafter⟩ | ⟨e, he, _⟩
  · cases hstep.symm.trans hu'
    exact hafter
  · cases hstep.symm.trans he

/-- **Exactly when loops own their connections.** In every run of a server with
loops in its pool, with every interleaving of their rounds: each change of a
loop's poll set for a connection is a step of the loop the connection was assigned
to, no `connectDestroyed` runs while that loop handles events, and the assertion
of `EventLoop::removeChannel` never fails, if and only if no `connectDestroyed` is
executed. -/
theorem ownedRun_iff (hpool : numLoops ≠ 0) {r : Checked ServerLoops}
    (h : system.Run (start name numLoops) ls r) :
    OwnedRun name numLoops ls ↔ UndestroyedRun name numLoops ls := by
  constructor
  · intro howned
    have hclean : ∀ pre l t, pre ++ [l] <+: ls → system.Run (start name numLoops) pre (.ok t) →
        system.enabled t l → Owns t → ¬ t.Destroys l := by
      intro pre l t hpre hrun hen howns hd
      have hnext := System.Run.snoc hrun hen
      rcases destroys_step howns hd with ⟨u, hu, hnot⟩ | hfault
      · exact hnot (howned.1 (pre ++ [l]) u hpre (hu ▸ hnext))
      · exact howned.2 (pre ++ [l]) hpre (hfault ▸ hnext)
    intro pre l s hpre hrun
    obtain ⟨s', hrun', hen⟩ := h.taken hpre
    cases hrun.unique hrun'
    exact hclean pre l s hpre hrun hen
      (owns_run hpool hclean ((List.prefix_append pre [l]).trans hpre) hrun)
  · intro hclean
    have howns : ∀ pre s, pre <+: ls → system.Run (start name numLoops) pre (.ok s) → Owns s :=
      fun pre s hpre hrun =>
        owns_run hpool (fun pre l t hpre hrun _ _ => hclean pre l t hpre hrun) hpre hrun
    refine ⟨fun pre s hpre hrun => (howns pre s hpre hrun).owned, fun pre hpre hrun => ?_⟩
    cases pre using List.reverseRecOn with
    | nil => cases System.run_nil_iff.mp hrun
    | append_singleton pre l =>
      obtain ⟨t, ht, hen, hstep⟩ := System.run_snoc_iff.mp hrun
      have hbefore := howns pre t ((List.prefix_append pre [l]).trans hpre) ht
      rcases owns_step hbefore hen (hclean pre l t hpre ht) with ⟨u, hu, _⟩ | ⟨e, he, hne⟩
      · cases hstep.trans hu
      · cases hstep.trans he
        exact hne rfl

end Runs

/-! ## A run of each kind -/

/-- What the system calls of a handler return, where nothing is written. -/
def outcome (connfd : Int) (read : ReadResult) : TcpServer.Outcome := ⟨connfd, read, .accepted 0⟩

/-- With one loop in the pool a connection is accepted, and its loop woken up to
establish it. -/
def accepting : List Label :=
  [.pollReturn 0 [.other (.acceptChannel, POLLIN)], .handle 0 (outcome 5 .bytes),
    .pollReturn 1 [.wakeupChannel], .handle 1 (outcome 0 .bytes), .endHandling 1, .swap 1]

/-- The loop of the connection establishes it. -/
theorem ownedRun_established :
    ∃ s, system.Run (start [] 1) (accepting ++ [.execute 1]) (.ok s) ∧
      s.server.changes = [⟨.connectEstablished, 1, 1, false⟩] ∧
      OwnedRun [] 1 (accepting ++ [.execute 1]) := by
  obtain ⟨t, ht, hplace⟩ : ∃ t, system.Run (start [] 1) accepting (.ok t) ∧
      t.place 1 = .calling [.connectEstablished 1] false :=
    System.run_of_reaches (by decide +kernel)
  obtain ⟨u, hu, hchanges⟩ : ∃ u, system.Run (start [] 1) (accepting ++ [.execute 1]) (.ok u) ∧
      u.server.changes = [⟨.connectEstablished, 1, 1, false⟩] :=
    System.run_of_reaches (by decide +kernel)
  refine ⟨u, hu, hchanges, (ownedRun_iff (by decide) hu).mpr ?_⟩
  rintro pre l s hpre hs ⟨k, c, rest, inside, rfl, hcalling⟩
  rcases List.prefix_concat_iff.mp hpre with heq | hpre
  · obtain ⟨rfl, hk⟩ := List.append_inj' heq rfl
    cases hk
    cases hs.unique ht
    rw [hplace] at hcalling
    cases hcalling
  · have hmem := hpre.subset (List.mem_append_right pre (List.mem_singleton_self _))
    simp [accepting] at hmem

/-- Then a second one, both have input, the first is found closed, and while the
loop goes on to the second the base loop removes and destroys the first. -/
def destroying : List Label :=
  [.execute 1, .endFunctors 1, .endHandling 0, .swap 0, .endFunctors 0,
    .pollReturn 0 [.other (.acceptChannel, POLLIN)], .handle 0 (outcome 6 .bytes),
    .pollReturn 1 [.wakeupChannel], .handle 1 (outcome 0 .bytes), .endHandling 1, .swap 1,
    .execute 1, .endFunctors 1,
    .pollReturn 1 [.other (.conn 1, POLLIN), .other (.conn 2, POLLIN)], .handle 1 (outcome 0 .eof),
    .endHandling 0, .swap 0, .execute 0, .endFunctors 0, .pollReturn 0 [.wakeupChannel],
    .handle 0 (outcome 0 .bytes), .endHandling 0, .swap 0, .handle 1 (outcome 0 .bytes),
    .execute 0]

/-- The channel destroyed is in the list its loop is going through and is not the
current one: the assertion of `EventLoop::removeChannel` fails. -/
theorem ownedRun_active_fails :
    system.Run (start [] 1) (accepting ++ destroying) (.error (.assertion .removeChannel)) ∧
      ¬ OwnedRun [] 1 (accepting ++ destroying) := by
  have hrun : system.Run (start [] 1) (accepting ++ destroying)
      (.error (.assertion .removeChannel)) := System.run_of_fault (by decide +kernel)
  exact ⟨hrun, fun howned => howned.2 _ (List.prefix_refl _) hrun⟩

end ServerLoops

end ClyServer.Net
