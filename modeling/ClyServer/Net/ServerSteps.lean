import ClyServer.Net.BufferQueue
import ClyServer.Net.TcpServer

/-!
# What the server's operations do

One statement per operation, all of one form: `Becomes` says which connection's
record an operation replaced, what became of the map, which functor it queued and
which change of a poll set it made, and that it did nothing else. What follows
from an operation is proved from its statement and never from its code.

A `View` is the functors still to be executed, by loop: the loops' queues, or
those together with the functors that are just being run.
-/

namespace ClyServer.Net

/-! ## Functors still to be executed -/

/-- The connection a functor is about. -/
def Functor.about : Functor → ConnId
  | connectEstablished c => c
  | removeConnectionInLoop c => c
  | connectDestroyed c => c
  | forceCloseInLoop c => c
  | shutdownInLoop c => c

/-- The functors still to be executed, by loop. -/
abbrev View := LoopId → List Functor

namespace View

/-- A functor queued. -/
def push (v : View) (l : LoopId) (f : Functor) : View := Function.update v l (v l ++ [f])

/-- The first functor executed. -/
def pop (v : View) (l : LoopId) : View := Function.update v l (v l).tail

theorem push_self (v : View) (l : LoopId) (f : Functor) : v.push l f l = v l ++ [f] :=
  Function.update_self ..

theorem push_of_ne (v : View) {l k : LoopId} (h : k ≠ l) (f : Functor) : v.push l f k = v k :=
  Function.update_of_ne h ..

theorem pop_self (v : View) (l : LoopId) : v.pop l l = (v l).tail := Function.update_self ..

theorem pop_of_ne (v : View) {l k : LoopId} (h : k ≠ l) : v.pop l k = v k :=
  Function.update_of_ne h ..

theorem mem_push {v : View} {l k : LoopId} {f g : Functor} :
    g ∈ v.push l f k ↔ g ∈ v k ∨ k = l ∧ g = f := by
  by_cases h : k = l
  · subst h
    simp [push_self]
  · simp [push_of_ne v h, h]

theorem mem_of_mem_pop {v : View} {l k : LoopId} {g : Functor} (h : g ∈ v.pop l k) : g ∈ v k := by
  by_cases hk : k = l
  · subst hk
    rw [pop_self] at h
    exact List.mem_of_mem_tail h
  · rwa [pop_of_ne v hk] at h

/-- A functor waits `n` times, at one loop and at no other. -/
structure Waiting (v : View) (g : Functor) (l : LoopId) (n : Nat) : Prop where
  count : (v l).count g = n
  only : ∀ k, g ∈ v k → k = l

namespace Waiting

variable {v : View} {f g : Functor} {l k : LoopId} {n : Nat}

theorem none (h : ∀ k, g ∉ v k) (l : LoopId) : v.Waiting g l 0 where
  count := List.count_eq_zero.mpr (h l)
  only := fun k hk => absurd hk (h k)

theorem push_of_ne (h : v.Waiting g l n) (k : LoopId) (hf : f ≠ g) :
    (v.push k f).Waiting g l n where
  count := by
    by_cases hl : l = k
    · subst hl
      simp [push_self, hf, h.count]
    · rw [View.push_of_ne v hl]
      exact h.count
  only := fun j hj => h.only j ((mem_push.mp hj).resolve_right fun hand => hf hand.2.symm)

theorem push (h : v.Waiting g l n) : (v.push l g).Waiting g l (n + 1) where
  count := by simp [push_self, h.count]
  only := by
    intro j hj
    rcases mem_push.mp hj with hj | ⟨hj, _⟩
    · exact h.only j hj
    · exact hj

theorem pop_of_ne (h : v.Waiting g l n) (hhead : (v k).head? = some f) (hf : f ≠ g) :
    (v.pop k).Waiting g l n where
  count := by
    by_cases hl : l = k
    · subst hl
      obtain ⟨rest, hrest⟩ := List.head?_eq_some_iff.mp hhead
      have hcount := h.count
      rw [hrest, List.count_cons_of_ne hf] at hcount
      rw [pop_self, hrest, List.tail_cons, hcount]
    · rw [View.pop_of_ne v hl]
      exact h.count
  only := fun j hj => h.only j (mem_of_mem_pop hj)

/-- A functor executed waited. -/
theorem pop (h : v.Waiting g l n) (hhead : (v k).head? = some g) :
    ∃ m, n = m + 1 ∧ (v.pop k).Waiting g l m := by
  obtain rfl : k = l := h.only k (List.mem_of_mem_head? hhead)
  obtain ⟨rest, hrest⟩ := List.head?_eq_some_iff.mp hhead
  have hcount := h.count
  rw [hrest, List.count_cons_self] at hcount
  refine ⟨rest.count g, hcount.symm, ?_, fun j hj => h.only j (mem_of_mem_pop hj)⟩
  rw [pop_self, hrest, List.tail_cons]

end Waiting

end View

namespace TcpServer

/-- The queues after an operation that queued a functor, or none. -/
def withPush (v : View) : Option (LoopId × Functor) → View
  | none => v
  | some (l, f) => v.push l f

/-- What an operation leaves: the server with the record of `c` replaced by
`conn'`, the map as given, at most one functor more, and the changes noted. -/
structure Becomes (s s' : TcpServer) (c : ConnId) (conn' : Connection)
    (connections : Bytes → Option ConnId) (pushed : Option (LoopId × Functor))
    (changes : List Change) : Prop where
  name : s'.name = s.name
  numLoops : s'.numLoops = s.numLoops
  next : s'.next = s.next
  nextConnId : s'.nextConnId = s.nextConnId
  connections : s'.connections = connections
  conns : s'.conns = Function.update s.conns c (some conn')
  queues : s'.queues = withPush s.queues pushed
  handling : ∀ l, (s'.loops l).eventHandling = (s.loops l).eventHandling
  changes : s'.changes = s.changes ++ changes

theorem queues_queueInLoop (s : TcpServer) (t l : LoopId) (cb : Functor) :
    (s.queueInLoop t l cb).queues = View.push s.queues l cb := by
  funext k
  by_cases hk : k = l
  · subst hk
    simp [queues, queueInLoop, View.push_self]
  · simp [queues, queueInLoop, View.push_of_ne _ hk, hk]

theorem eventHandling_queueInLoop (s : TcpServer) (t l k : LoopId) (cb : Functor) :
    ((s.queueInLoop t l cb).loops k).eventHandling = (s.loops k).eventHandling := by
  by_cases hk : k = l
  · subst hk
    simp [queueInLoop]
  · simp [queueInLoop, hk]

section Operations

variable {s s' : TcpServer} {t : LoopId} {c : ConnId} {conn : Connection}

theorem findConn_of_some (h : s.conns c = some conn) : s.findConn c = .ok conn := by
  simp only [findConn, h, pure_eq_ok]

/-- A record replaced, and nothing queued. -/
theorem becomes_setConn (s : TcpServer) (c : ConnId) (conn' : Connection) :
    s.Becomes (s.setConn c conn') c conn' s.connections none [] where
  name := rfl
  numLoops := rfl
  next := rfl
  nextConnId := rfl
  connections := rfl
  conns := rfl
  queues := rfl
  handling := fun _ => rfl
  changes := (List.append_nil _).symm

/-- The change of the poll set of a connection's loop, as it is noted. -/
def changeOf (s : TcpServer) (op : PollChange) (c : ConnId) (conn : Connection) (t : LoopId) :
    Change :=
  ⟨op, c, t, (s.loops conn.loop).eventHandling⟩

theorem Becomes.note {conn' : Connection} {m : Bytes → Option ConnId}
    {pushed : Option (LoopId × Functor)} (h : s.Becomes s' c conn' m pushed []) (op : PollChange)
    (d : ConnId) (t : LoopId) :
    s.Becomes (s'.note op d conn t) c conn' m pushed [s.changeOf op d conn t] where
  name := h.name
  numLoops := h.numLoops
  next := h.next
  nextConnId := h.nextConnId
  connections := h.connections
  conns := h.conns
  queues := h.queues
  handling := h.handling
  changes := by
    show s'.changes ++ _ = _
    rw [h.changes, List.append_nil, changeOf, h.handling]

theorem Becomes.queueInLoop {conn' : Connection} {m : Bytes → Option ConnId}
    {changes : List Change} (h : s.Becomes s' c conn' m none changes) (t l : LoopId)
    (cb : Functor) : s.Becomes (s'.queueInLoop t l cb) c conn' m (some (l, cb)) changes where
  name := h.name
  numLoops := h.numLoops
  next := h.next
  nextConnId := h.nextConnId
  connections := h.connections
  conns := h.conns
  queues := by
    rw [queues_queueInLoop, h.queues]
    rfl
  handling := fun k => by rw [eventHandling_queueInLoop, h.handling]
  changes := h.changes

/-- An operation after another on the same connection. -/
theorem Becomes.trans {s'' : TcpServer} {conn' conn'' : Connection} {m m' : Bytes → Option ConnId}
    {pushed : Option (LoopId × Functor)} {changes changes' : List Change}
    (h : s.Becomes s' c conn' m none changes) (h' : s'.Becomes s'' c conn'' m' pushed changes') :
    s.Becomes s'' c conn'' m' pushed (changes ++ changes') where
  name := h'.name.trans h.name
  numLoops := h'.numLoops.trans h.numLoops
  next := h'.next.trans h.next
  nextConnId := h'.nextConnId.trans h.nextConnId
  connections := h'.connections
  conns := by rw [h'.conns, h.conns, Function.update_idem]
  queues := by
    rw [h'.queues, h.queues]
    rfl
  handling := fun k => (h'.handling k).trans (h.handling k)
  changes := by rw [h'.changes, h.changes, List.append_assoc]

theorem Becomes.conns_self {conn' : Connection} {m : Bytes → Option ConnId}
    {pushed : Option (LoopId × Functor)} {changes : List Change}
    (h : s.Becomes s' c conn' m pushed changes) : s'.conns c = some conn' := by
  rw [h.conns, Function.update_self]

theorem Becomes.conns_of_ne {conn' : Connection} {m : Bytes → Option ConnId}
    {pushed : Option (LoopId × Functor)} {changes : List Change}
    (h : s.Becomes s' c conn' m pushed changes) {d : ConnId} (hd : d ≠ c) :
    s'.conns d = s.conns d := by
  rw [h.conns, Function.update_of_ne hd]

/-! ## The functors -/

/-- A connection after `connectEstablished`. -/
def established (conn : Connection) : Connection :=
  { conn with tcp := (conn.tcp.setState .kConnected).setInterest Channel.enableReading }

theorem connectEstablished_spec (hconn : s.conns c = some conn)
    (hstate : conn.tcp.state = .kConnecting) (t : LoopId) :
    ∃ s', s.connectEstablished t c = .ok s' ∧ s.Becomes s' c (established conn) s.connections none
      [s.changeOf .connectEstablished c conn t] := by
  refine ⟨_, ?_, (becomes_setConn s c (established conn)).note .connectEstablished c t⟩
  simp only [connectEstablished, findConn_of_some hconn, ok_bind,
    TcpConnection.connectEstablished, check_pos hstate, pure_eq_ok]
  rfl

/-- A connection after `connectDestroyed`. -/
def destroyed (conn : Connection) : Connection :=
  { conn with
    tcp := { conn.tcp with channel := { conn.tcp.channel with addedToLoop := false } }
    destroys := conn.destroys + 1 }

theorem connectDestroyed_spec (hconn : s.conns c = some conn)
    (hcheck : (s.loops conn.loop).checkRemove (.conn c) = .ok ()) (t : LoopId) :
    ∃ s', s.connectDestroyed t c = .ok s' ∧ s.Becomes s' c (destroyed conn) s.connections none
      [s.changeOf .connectDestroyed c conn t] := by
  refine ⟨_, ?_, (becomes_setConn s c (destroyed conn)).note .connectDestroyed c t⟩
  simp only [connectDestroyed, findConn_of_some hconn, ok_bind, hcheck, pure_eq_ok]
  rfl

/-- A connection after `removeConnectionInLoop`. -/
def removed (conn : Connection) : Connection :=
  { conn with removals := conn.removals + 1, destroysQueued := conn.destroysQueued + 1 }

theorem removeConnectionInLoop_spec (hconn : s.conns c = some conn)
    (hmap : (s.connections conn.name).isSome) (t : LoopId) :
    ∃ s', s.removeConnectionInLoop t c = .ok s' ∧ s.Becomes s' c (removed conn)
      (Function.update s.connections conn.name none) (some (base, .connectDestroyed c)) [] := by
  let s₁ : TcpServer := { s with connections := Function.update s.connections conn.name none }
  have hb : s.Becomes (s₁.setConn c (removed conn)) c (removed conn)
      (Function.update s.connections conn.name none) none [] :=
    ⟨rfl, rfl, rfl, rfl, rfl, rfl, rfl, fun _ => rfl, (List.append_nil _).symm⟩
  refine ⟨_, ?_, hb.queueInLoop t base (.connectDestroyed c)⟩
  simp only [removeConnectionInLoop, findConn_of_some hconn, ok_bind, if_pos hmap, check_pos,
    pure_eq_ok]
  rfl

/-- A connection after `handleClose`, up to its close callback. -/
def closed (conn : Connection) : Connection :=
  { conn with
    tcp := (conn.tcp.setState .kDisconnected).setInterest Channel.disableAll
    closeCallbacks := conn.closeCallbacks + 1 }

theorem becomes_closed (s : TcpServer) (c : ConnId) (conn : Connection) (t : LoopId) :
    s.Becomes ((s.setConn c (closed conn)).note .handleClose c conn t) c (closed conn)
      s.connections none [s.changeOf .handleClose c conn t] :=
  (becomes_setConn s c (closed conn)).note .handleClose c t

theorem handleClose_eq (hconn : s.conns c = some conn)
    (hstate : conn.tcp.state = .kConnected ∨ conn.tcp.state = .kDisconnecting) (t : LoopId) :
    s.handleClose t c =
      ((s.setConn c (closed conn)).note .handleClose c conn t).removeConnection t c := by
  simp only [handleClose, findConn_of_some hconn, ok_bind, TcpConnection.handleClose,
    check_pos hstate, pure_eq_ok]
  rfl

/-- Closed on a thread of the pool: the removal is queued on the base loop. -/
theorem handleClose_remote (hconn : s.conns c = some conn)
    (hstate : conn.tcp.state = .kConnected ∨ conn.tcp.state = .kDisconnecting) (ht : t ≠ base) :
    ∃ s', s.handleClose t c = .ok s' ∧ s.Becomes s' c (closed conn) s.connections
      (some (base, .removeConnectionInLoop c)) [s.changeOf .handleClose c conn t] := by
  refine ⟨_, ?_, (becomes_closed s c conn t).queueInLoop t base (.removeConnectionInLoop c)⟩
  simp only [handleClose_eq hconn hstate, removeConnection, if_neg ht, pure_eq_ok]

/-- Closed on the base loop's thread: the removal is carried out at once. -/
theorem handleClose_base (hconn : s.conns c = some conn)
    (hstate : conn.tcp.state = .kConnected ∨ conn.tcp.state = .kDisconnecting)
    (hmap : (s.connections conn.name).isSome) :
    ∃ s', s.handleClose base c = .ok s' ∧ s.Becomes s' c (removed (closed conn))
      (Function.update s.connections conn.name none) (some (base, .connectDestroyed c))
      [s.changeOf .handleClose c conn base] := by
  have hclosed := becomes_closed s c conn base
  obtain ⟨s', hs', hb⟩ := removeConnectionInLoop_spec hclosed.conns_self hmap base
  refine ⟨s', ?_, ?_⟩
  · rw [handleClose_eq hconn hstate, removeConnection, if_pos rfl, hs']
  · exact hclosed.trans hb

theorem shutdownInLoop_spec (hconn : s.conns c = some conn) :
    ∃ s', s.shutdownInLoop c = .ok s' ∧
      s.Becomes s' c { conn with tcp := conn.tcp.shutdownInLoop } s.connections none [] := by
  refine ⟨_, ?_, becomes_setConn s c _⟩
  simp only [shutdownInLoop, findConn_of_some hconn, ok_bind, pure_eq_ok]

/-! ## The calls of the user -/

theorem shutdownInLoop_state (tcp : TcpConnection) :
    tcp.shutdownInLoop.state = tcp.state ∧ tcp.shutdownInLoop.channel = tcp.channel := by
  unfold TcpConnection.shutdownInLoop
  split <;> exact ⟨rfl, rfl⟩

/-- Sending changes neither the state nor the channel, or a failed write(2) ends
the process. -/
theorem sendInLoop_state (tcp : TcpConnection) (memory : Bytes) (result : WriteResult) :
    (∃ tcp', tcp.sendInLoop memory result = .ok tcp' ∧ tcp'.state = tcp.state ∧
      tcp'.channel = tcp.channel) ∨ tcp.sendInLoop memory result = .error .fatalLog := by
  unfold TcpConnection.sendInLoop
  split
  · exact .inl ⟨tcp, rfl, rfl, rfl⟩
  · split
    · cases result with
      | accepted n => exact .inl ⟨_, rfl, rfl, rfl⟩
      | failed errno =>
        by_cases herrno : errno = .EWOULDBLOCK
        · exact .inl ⟨tcp, by simp [herrno], rfl, rfl⟩
        · exact .inr (by simp [herrno])
    · exact .inl ⟨tcp, rfl, rfl, rfl⟩

theorem sendMessage_state (tcp : TcpConnection) (isInLoopThread : Bool) (message : Message)
    (result : WriteResult) :
    (∃ tcp', tcp.sendMessage isInLoopThread message result = .ok tcp' ∧ tcp'.state = tcp.state ∧
      tcp'.channel = tcp.channel) ∨
    tcp.sendMessage isInLoopThread message result = .error .fatalLog := by
  rw [TcpConnection.sendMessage_eq, TcpConnection.send]
  split
  · split
    · exact sendInLoop_state tcp _ result
    · exact .inl ⟨tcp, rfl, rfl, rfl⟩
  · exact .inl ⟨tcp, rfl, rfl, rfl⟩

theorem send_spec (hconn : s.conns c = some conn) (t : LoopId) (message : Message)
    (result : WriteResult) :
    (∃ s' tcp, s.send t c message result = .ok s' ∧ tcp.state = conn.tcp.state ∧
      tcp.channel = conn.tcp.channel ∧
      s.Becomes s' c { conn with tcp } s.connections none []) ∨
    s.send t c message result = .error .fatalLog := by
  simp only [send, findConn_of_some hconn, ok_bind]
  rcases sendMessage_state conn.tcp (t = conn.loop) message result with
    ⟨tcp, htcp, hstate, hchannel⟩ | hfatal
  · rw [htcp]
    exact .inl ⟨_, tcp, rfl, hstate, hchannel, becomes_setConn s c _⟩
  · rw [hfatal]
    exact .inr rfl

/-- A half-close asked for on the connection's own loop. -/
theorem shutdown_spec (hconn : s.conns c = some conn) :
    ∃ s' tcp, s.shutdown conn.loop c = .ok s' ∧ tcp.channel = conn.tcp.channel ∧
      (tcp.state = conn.tcp.state ∨
        conn.tcp.state = .kConnected ∧ tcp.state = .kDisconnecting) ∧
      s.Becomes s' c { conn with tcp } s.connections none [] := by
  by_cases hstate : conn.tcp.state = .kConnected
  · let mid := conn.tcp.setState .kDisconnecting
    have hmid := becomes_setConn s c { conn with tcp := mid }
    obtain ⟨s', hs', hb⟩ := shutdownInLoop_spec hmid.conns_self
    obtain ⟨hsame, hchannel⟩ := shutdownInLoop_state mid
    refine ⟨s', mid.shutdownInLoop, ?_, hchannel, .inr ⟨hstate, hsame⟩, hmid.trans hb⟩
    simp only [shutdown, findConn_of_some hconn, ok_bind, TcpConnection.shutdown, if_pos hstate]
    exact hs'
  · refine ⟨_, conn.tcp, ?_, rfl, .inl rfl, becomes_setConn s c conn⟩
    simp only [shutdown, findConn_of_some hconn, ok_bind, TcpConnection.shutdown, if_neg hstate]
    rfl

/-- A half-close asked for on another thread. -/
theorem shutdown_spec_other (hconn : s.conns c = some conn) (ht : t ≠ conn.loop) :
    ∃ s' tcp pushed, s.shutdown t c = .ok s' ∧
      (tcp.state = conn.tcp.state ∨
        conn.tcp.state = .kConnected ∧ tcp.state = .kDisconnecting) ∧
      (pushed = none ∨ pushed = some (conn.loop, .shutdownInLoop c)) ∧
      s.Becomes s' c { conn with tcp } s.connections pushed [] := by
  by_cases hstate : conn.tcp.state = .kConnected
  · refine ⟨_, conn.tcp.setState .kDisconnecting, _, ?_, .inr ⟨hstate, rfl⟩, .inr rfl,
      (becomes_setConn s c _).queueInLoop t conn.loop (.shutdownInLoop c)⟩
    simp only [shutdown, findConn_of_some hconn, ok_bind, TcpConnection.shutdown, if_pos hstate,
      if_neg ht]
    rfl
  · refine ⟨_, conn.tcp, none, ?_, .inl rfl, .inl rfl, becomes_setConn s c conn⟩
    simp only [shutdown, findConn_of_some hconn, ok_bind, TcpConnection.shutdown, if_neg hstate]
    rfl

theorem forceClose_spec (hconn : s.conns c = some conn) (t : LoopId) :
    ∃ s', s.forceClose t c = .ok s' ∧
      ((conn.tcp.state = .kConnected ∨ conn.tcp.state = .kDisconnecting) ∧
        s.Becomes s' c { conn with tcp := conn.tcp.setState .kDisconnecting } s.connections
          (some (conn.loop, .forceCloseInLoop c)) [] ∨
      s.Becomes s' c conn s.connections none []) := by
  by_cases hstate : conn.tcp.state = .kConnected ∨ conn.tcp.state = .kDisconnecting
  · refine ⟨_, ?_, .inl ⟨hstate, (becomes_setConn s c _).queueInLoop t conn.loop
      (.forceCloseInLoop c)⟩⟩
    simp only [forceClose, findConn_of_some hconn, ok_bind, TcpConnection.forceClose,
      if_pos hstate]
    rfl
  · refine ⟨_, ?_, .inr (becomes_setConn s c conn)⟩
    simp only [forceClose, findConn_of_some hconn, ok_bind, TcpConnection.forceClose,
      if_neg hstate]
    rfl

/-! ## Events -/

theorem setConn_self (hconn : s.conns c = some conn) : s.setConn c conn = s := by
  rw [setConn, ← hconn, Function.update_eq_self]

/-- A channel that does not ask for write-ready events has nothing to write. -/
theorem handleWrite_quiet (hconn : s.conns c = some conn)
    (hquiet : conn.tcp.channel.isWriting = false) (result : WriteResult) :
    s.handleWrite c result = .ok s := by
  simp only [handleWrite, findConn_of_some hconn, ok_bind, TcpConnection.handleWrite, hquiet]
  exact congrArg Except.ok (setConn_self hconn)

/-- The callbacks that close the connection. -/
def closing (read : ReadResult) : Channel.Callback → Bool
  | .close => true
  | .read => read = .eof
  | _ => false

/-- The other callbacks do nothing to a connection that is not writing. -/
theorem callback_quiet (hconn : s.conns c = some conn)
    (hquiet : conn.tcp.channel.isWriting = false) {read : ReadResult} (hread : read ≠ .failed)
    (write : WriteResult) {cb : Channel.Callback} (hcb : closing read cb = false) :
    s.callback t c read write cb = .ok s := by
  cases cb with
  | close => cases hcb
  | error => rfl
  | write => exact handleWrite_quiet hconn hquiet write
  | read =>
    cases read with
    | bytes => rfl
    | eof => simp [closing] at hcb
    | failed => exact absurd rfl hread

theorem callbacks_quiet (hconn : s.conns c = some conn)
    (hquiet : conn.tcp.channel.isWriting = false) {read : ReadResult} (hread : read ≠ .failed)
    (write : WriteResult) {cbs : List Channel.Callback}
    (hcbs : cbs.countP (closing read) = 0) :
    cbs.foldlM (fun s cb => s.callback t c read write cb) s = .ok s := by
  induction cbs with
  | nil => rfl
  | cons cb rest ih =>
    rw [List.countP_cons, Nat.add_eq_zero_iff] at hcbs
    have hcb : closing read cb = false := by
      cases hclosing : closing read cb with
      | false => rfl
      | true => simp [hclosing] at hcbs
    rw [List.foldlM_cons, callback_quiet hconn hquiet hread write hcb]
    exact ih hcbs.1

/-- Callbacks of which at most one closes: nothing happens, or one `handleClose`. -/
theorem callbacks_closing (hconn : s.conns c = some conn)
    (hquiet : conn.tcp.channel.isWriting = false) {read : ReadResult} (hread : read ≠ .failed)
    (write : WriteResult) (hclose : s.handleClose t c = .ok s') {conn' : Connection}
    (hconn' : s'.conns c = some conn') (hquiet' : conn'.tcp.channel.isWriting = false)
    {cbs : List Channel.Callback} (hcbs : cbs.countP (closing read) ≤ 1) :
    cbs.foldlM (fun s cb => s.callback t c read write cb) s = .ok s ∨
      cbs.foldlM (fun s cb => s.callback t c read write cb) s = .ok s' := by
  induction cbs with
  | nil => exact .inl rfl
  | cons cb rest ih =>
    rw [List.countP_cons] at hcbs
    rw [List.foldlM_cons]
    cases hclosing : closing read cb with
    | false =>
      rw [callback_quiet hconn hquiet hread write hclosing]
      exact ih (by simpa [hclosing] using hcbs)
    | true =>
      have hcall : s.callback t c read write cb = .ok s' := by
        cases cb with
        | close => exact hclose
        | read =>
          have heof : read = .eof := by simpa [closing] using hclosing
          rw [heof]
          exact hclose
        | error => cases hclosing
        | write => cases hclosing
      have hrest : rest.countP (closing read) = 0 := by
        simp only [hclosing, if_true] at hcbs
        omega
      rw [hcall]
      exact .inr (callbacks_quiet hconn' hquiet' hread write hrest)

/-- The events poll may report for an interest in reading. -/
def readEvents : Events := POLLIN ||| POLLERR ||| POLLHUP ||| POLLNVAL

/-- Hang-up without input and input exclude each other, so at most one callback
closes. -/
theorem dispatch_closing {revents : Events} (h : revents &&& readEvents = revents)
    (read : ReadResult) : (Channel.dispatch revents).countP (closing read) ≤ 1 := by
  have hmask : revents &&& (POLLIN ||| POLLPRI ||| POLLRDHUP) = revents &&& POLLIN := by
    rw [← h, BitVec.and_assoc, BitVec.and_assoc]
    rfl
  have hin : revents.any (POLLIN ||| POLLPRI ||| POLLRDHUP) = revents.any POLLIN := by
    simp only [Events.any, hmask]
  unfold Channel.dispatch
  rw [hin]
  simp only [List.countP_append]
  cases revents.any POLLIN with
  | false =>
    simp only [Bool.not_false, Bool.and_true, Bool.false_eq_true, if_false, List.countP_nil,
      Nat.add_zero]
    split <;> split <;> split <;> simp [closing, List.countP_cons]
  | true =>
    simp only [Bool.not_true, Bool.and_false, Bool.false_eq_true, if_false, if_true,
      List.countP_nil, Nat.zero_add]
    split <;> split <;> simp [closing, List.countP_cons] <;> split <;> simp

end Operations

/-! ## Accepting -/

theorem tcpInit_eq (sockfd : Int) :
    ∃ outputBuffer, TcpConnection.init sockfd =
      .ok ⟨.kConnecting, .init sockfd, outputBuffer, [], []⟩ := by
  obtain ⟨b, hb, _⟩ := Buffer.init_spec Buffer.kInitialSize
  refine ⟨b, ?_⟩
  rw [TcpConnection.init, hb]
  rfl

/-- The record of a connection just accepted. -/
def newConn (s : TcpServer) (tcp : TcpConnection) : Connection :=
  ⟨connName s.name s.nextConnId, s.getNextLoop.1, tcp, 0, 0, 0, 0⟩

/-- The server with a new connection in its map, not yet established. -/
def addConn (s : TcpServer) (tcp : TcpConnection) : TcpServer :=
  { s.getNextLoop.2 with
    nextConnId := s.nextConnId + 1
    conns := Function.update s.conns s.nextConnId (some (s.newConn tcp))
    connections := Function.update s.connections (connName s.name s.nextConnId)
      (some s.nextConnId) }

/-- Choosing a loop moves `next_` and nothing else. -/
theorem getNextLoop_spec (s : TcpServer) :
    ∃ next, s.getNextLoop.2 = { s with next } ∧
      (s.numLoops = 0 ∧ s.getNextLoop.1 = base ∨
        s.numLoops ≠ 0 ∧ s.getNextLoop.1 = s.next + 1) := by
  unfold getNextLoop
  by_cases h : s.numLoops = 0
  · rw [if_pos h]
    exact ⟨s.next, rfl, .inl ⟨h, rfl⟩⟩
  · rw [if_neg h]
    exact ⟨_, rfl, .inr ⟨h, rfl⟩⟩

theorem newConnection_eq {s : TcpServer} {sockfd : Int} {tcp : TcpConnection}
    (h : TcpConnection.init sockfd = .ok tcp) :
    s.newConnection sockfd =
      if s.getNextLoop.1 = base then (s.addConn tcp).connectEstablished base s.nextConnId
      else .ok ((s.addConn tcp).queueInLoop base s.getNextLoop.1
        (.connectEstablished s.nextConnId)) := by
  obtain ⟨next, hnext, _⟩ := s.getNextLoop_spec
  unfold newConnection addConn newConn
  simp only [hnext, h, ok_bind, pure_eq_ok]

/-- What accepting leaves: a connection more, under the next number and its name,
at most one functor more, and the changes noted. -/
structure Accepts (s s' : TcpServer) (conn : Connection) (pushed : Option (LoopId × Functor))
    (changes : List Change) : Prop where
  name : s'.name = s.name
  numLoops : s'.numLoops = s.numLoops
  nextConnId : s'.nextConnId = s.nextConnId + 1
  connections : s'.connections =
    Function.update s.connections (connName s.name s.nextConnId) (some s.nextConnId)
  conns : s'.conns = Function.update s.conns s.nextConnId (some conn)
  queues : s'.queues = withPush s.queues pushed
  handling : ∀ l, (s'.loops l).eventHandling = (s.loops l).eventHandling
  changes : s'.changes = s.changes ++ changes

/-- The operation on the new connection that completes accepting. -/
theorem Becomes.accepts {s s' : TcpServer} {tcp : TcpConnection} {conn : Connection}
    {pushed : Option (LoopId × Functor)} {changes : List Change}
    (hb : (s.addConn tcp).Becomes s' s.nextConnId conn (s.addConn tcp).connections pushed changes) :
    s.Accepts s' conn pushed changes := by
  obtain ⟨next, hnext, _⟩ := s.getNextLoop_spec
  have hadd : s.addConn tcp = { s with
      next
      nextConnId := s.nextConnId + 1
      conns := Function.update s.conns s.nextConnId (some (s.newConn tcp))
      connections := Function.update s.connections (connName s.name s.nextConnId)
        (some s.nextConnId) } := by rw [addConn, hnext]
  rw [hadd] at hb
  refine ⟨hb.name, hb.numLoops, hb.nextConnId, hb.connections, ?_, hb.queues, hb.handling,
    hb.changes⟩
  rw [hb.conns]
  exact Function.update_idem ..

/-- The new connection is established at once if its loop is the base loop, else
its establishment is queued on its loop. -/
theorem newConnection_spec (s : TcpServer) (sockfd : Int) :
    ∃ tcp s', s.newConnection sockfd = .ok s' ∧ tcp.state = .kConnecting ∧
      tcp.channel.events = 0 ∧
      (s.getNextLoop.1 = base ∧ s.Accepts s' (established (s.newConn tcp)) none
          [(s.addConn tcp).changeOf .connectEstablished s.nextConnId (s.newConn tcp) base] ∨
      s.getNextLoop.1 ≠ base ∧ s.Accepts s' (s.newConn tcp)
          (some (s.getNextLoop.1, .connectEstablished s.nextConnId)) []) := by
  obtain ⟨outputBuffer, htcp⟩ := tcpInit_eq sockfd
  let tcp : TcpConnection := ⟨.kConnecting, .init sockfd, outputBuffer, [], []⟩
  have hconn : (s.addConn tcp).conns s.nextConnId = some (s.newConn tcp) :=
    Function.update_self ..
  rw [newConnection_eq htcp]
  by_cases hbase : s.getNextLoop.1 = base
  · obtain ⟨s', hs', hb⟩ := connectEstablished_spec hconn rfl base
    exact ⟨tcp, s', by rw [if_pos hbase, hs'], rfl, rfl, .inl ⟨hbase, hb.accepts⟩⟩
  · have hsame := becomes_setConn (s.addConn tcp) s.nextConnId (s.newConn tcp)
    rw [setConn_self hconn] at hsame
    exact ⟨tcp, _, by rw [if_neg hbase], rfl, rfl,
      .inr ⟨hbase, (hsame.queueInLoop base _ _).accepts⟩⟩

end TcpServer

end ClyServer.Net
