import ClyServer.Net.LoopOwnership

/-!
# Up and down (`TcpServer::~TcpServer`, `net/TcpServer.cpp`)

The `connectionCallback_` of a connection is invoked in two places: at the end of
`connectEstablished`, in the state kConnected, and in `handleClose`, in the state
kDisconnected. `connectDestroyed` was to be the third, for a connection that is
destroyed while it is up, but the lines that would do it are commented out. So the
calls a connection has had are told by its state, and every way to
`connectDestroyed` that leads through `handleClose` leaves them paired. The
destructor of the server does not lead through it.

`ServerLife` is the server with its destructor, which goes through `connections_`
item by item while the loops of the pool go on. The map is ordered by name; here
any order is allowed. What is still queued for a server that is gone finds its
members as the destructor left them.
-/

namespace ClyServer.Net

open ClyServer.Lib

/-! ## The destructor -/

namespace TcpServer

/-- The connections `connections_` has an item for. -/
def items (s : TcpServer) : List ConnId :=
  (List.range s.nextConnId).filter fun c =>
    (s.conns c).any fun conn => s.connections conn.name = some c

/-- One item of the destructor's `for` over `connections_`, on thread `t`: the
`runInLoop` of `connectDestroyed`. -/
def destroyItem (s : TcpServer) (t : LoopId) (c : ConnId) : Checked TcpServer := do
  let conn ← s.findConn c
  if t = conn.loop then s.connectDestroyed t c
  else
    let s := s.setConn c { conn with destroysQueued := conn.destroysQueued + 1 }
    return s.queueInLoop t conn.loop (.connectDestroyed c)

end TcpServer

/-- The thread that takes a step. -/
def ServerLoops.Label.thread : ServerLoops.Label → LoopId
  | pollReturn l _ | handle l _ | endHandling l | swap l | execute l | endFunctors l => l
  | send t .. | shutdown t _ | forceClose t _ => t

/-- The server's loops, and the thread that is in the destructor, or was, with the
items it has still to go through. -/
structure ServerLife where
  loops : ServerLoops
  destructing : Option (LoopId × List ConnId)

namespace ServerLife

/-- A server just started. -/
def start (name : Bytes) (numLoops : Nat) : ServerLife where
  loops := .start name numLoops
  destructing := none

/-- What can happen next: a step of the loops or of the user, the destructor called
by a thread, the next item of its `for`. -/
inductive Label where
  | run (l : ServerLoops.Label)
  | destroy (t : LoopId) (items : List ConnId)
  | next
  deriving DecidableEq, Repr

/-- The labels a state allows. A thread in the destructor does nothing else, and
a server is destroyed once. -/
def enabled (s : ServerLife) : Label → Bool
  | .run l =>
    s.loops.enabled l && match s.destructing with
      | some (t, _ :: _) => l.thread ≠ t
      | _ => true
  | .destroy _ items => s.destructing = none && items.isPerm s.loops.server.items
  | .next =>
    match s.destructing with
    | some (_, _ :: _) => true
    | _ => false

/-- The step of a label, from a state that allows it. -/
def step (s : ServerLife) : Label → Checked ServerLife
  | .run l => do
    let loops ← s.loops.step l
    return { s with loops }
  | .destroy t items => return { s with destructing := some (t, items) }
  | .next =>
    match s.destructing with
    | some (t, c :: rest) => do
      let server ← s.loops.server.destroyItem t c
      return ⟨{ s.loops with server }, some (t, rest)⟩
    | _ => return s

def system : System ServerLife Label Fault where
  enabled := fun s l => s.enabled l
  step := step

instance (s : ServerLife) (l : Label) : Decidable (system.enabled s l) :=
  inferInstanceAs (Decidable (s.enabled l = true))

end ServerLife

/-! ## What a state tells of the calls -/

/-- The state in which the operation invokes `connectionCallback_`. -/
def PollChange.callback? : PollChange → Option StateE
  | connectEstablished => some .kConnected
  | handleClose => some .kDisconnected
  | connectDestroyed => none

/-- The calls of `connectionCallback_` a connection in some state has had. -/
def StateE.callbacks : StateE → List StateE
  | kConnecting => []
  | kConnected | kDisconnecting => [kConnected]
  | kDisconnected => [kConnected, kDisconnected]

/-- The functors that lead to `connectDestroyed` and nowhere else. -/
def Functor.ends : Functor → Bool
  | removeConnectionInLoop _ | connectDestroyed _ => true
  | connectEstablished _ | forceCloseInLoop _ | shutdownInLoop _ => false

/-- The calls of `connectionCallback_` that changes of poll sets come with. -/
def callbacksOf (changes : List Change) : List StateE := changes.filterMap (·.op.callback?)

namespace TcpServer

/-- The states in which the `connectionCallback_` of a connection was invoked, in
order. -/
def callbacks (s : TcpServer) (c : ConnId) : List StateE :=
  callbacksOf (s.changes.filter (·.conn = c))

/-- A connection for which `connectDestroyed` has finished, if it was ever
established, is down and was told so: once up, then once down. -/
def Paired (s : TcpServer) : Prop :=
  ∀ c conn, s.conns c = some conn → 0 < conn.destroys → .kConnected ∈ s.callbacks c →
    conn.tcp.state = .kDisconnected ∧ s.callbacks c = [.kConnected, .kDisconnected]

/-- The connection exists and is kDisconnected. -/
def Down (s : TcpServer) (c : ConnId) : Prop :=
  ∃ conn, s.conns c = some conn ∧ conn.tcp.state = .kDisconnected

/-- A functor that leads to `connectDestroyed` is about a connection that is down, unless
it may be from the destructor, which has `D` in its list. -/
def AboutDown (s : TcpServer) (D : ConnId → Prop) (f : Functor) : Prop :=
  f.ends = true → s.Down f.about ∨ f = .connectDestroyed f.about ∧ D f.about

/-- The calls that the state of a connection tells of. -/
def expected (s : TcpServer) (c : ConnId) : List StateE :=
  match s.conns c with
  | some conn => conn.tcp.state.callbacks
  | none => []

/-- Every connection has had the calls its state tells of, and only connections
that are down were destroyed. -/
structure Told (s : TcpServer) : Prop where
  fresh : s.Fresh
  calls : ∀ c, s.callbacks c = s.expected c
  destroyed : ∀ c conn, s.conns c = some conn → 0 < conn.destroys →
    conn.tcp.state = .kDisconnected

theorem Told.paired {s : TcpServer} (h : s.Told) : s.Paired := by
  intro c conn hconn hdestroys _
  have hdown := h.destroyed c conn hconn hdestroys
  refine ⟨hdown, ?_⟩
  rw [h.calls, expected, hconn]
  simp only [hdown, StateE.callbacks]

/-- What an operation can do: the calls go on being told by the states, what is
down stays down, and functors that lead to `connectDestroyed` are queued for
connections that are down, or in the list of the destructor. -/
structure Forwards (D : ConnId → Prop) (s s' : TcpServer) : Prop where
  told : s.Told → s'.Told
  down : ∀ c, s.Down c → s'.Down c
  queued : ∀ l, ∀ f ∈ s'.queues l, f ∈ s.queues l ∨ s'.AboutDown D f

namespace Forwards

variable {D : ConnId → Prop} {s s' s'' : TcpServer}

theorem aboutDown (h : Forwards D s s') {f : Functor} (hf : s.AboutDown D f) :
    s'.AboutDown D f :=
  fun hends => (hf hends).imp_left (h.down _)

theorem trans (h : Forwards D s s') (h' : Forwards D s' s'') : Forwards D s s'' where
  told := fun htold => h'.told (h.told htold)
  down := fun c hdown => h'.down c (h.down c hdown)
  queued := by
    intro l f hf
    rcases h'.queued l f hf with hf | hf
    · rcases h.queued l f hf with hf | hf
      · exact .inl hf
      · exact .inr (h'.aboutDown hf)
    · exact .inr hf

/-- A server that differs in its loops' records, with nothing more queued. -/
theorem setLoop (s : TcpServer) (l : LoopId) {loop : EventLoop Source Functor}
    (hqueue : ∀ f ∈ loop.pendingFunctors, f ∈ s.queues l) : Forwards D s (s.setLoop l loop) where
  told := fun htold => ⟨htold.fresh, htold.calls, htold.destroyed⟩
  down := fun _ hdown => hdown
  queued := fun _ _ hf => .inl (mem_queues_setLoop hqueue hf)

theorem refl (s : TcpServer) : Forwards D s s where
  told := id
  down := fun _ hdown => hdown
  queued := fun _ _ hf => .inl hf

end Forwards

section Operations

variable {D : ConnId → Prop} {s s' : TcpServer} {t l : LoopId} {c : ConnId}
  {conn conn' : Connection}

/-- What a single change is about. -/
theorem conn_of_mem {op : PollChange} : ∀ ch ∈ [s.changeOf op c conn t], ch.conn = c := by
  intro ch hch
  rw [List.mem_singleton.mp hch, changeOf]

theorem callbacks_append_self {changes : List Change} (hs : s'.changes = s.changes ++ changes)
    (hchanges : ∀ ch ∈ changes, ch.conn = c) :
    s'.callbacks c = s.callbacks c ++ callbacksOf changes := by
  have hself : changes.filter (·.conn = c) = changes :=
    List.filter_eq_self.mpr fun ch hch => by simpa using hchanges ch hch
  simp only [callbacks, callbacksOf, hs, List.filter_append, List.filterMap_append, hself]

theorem callbacks_append_of_ne {changes : List Change} (hs : s'.changes = s.changes ++ changes)
    (hchanges : ∀ ch ∈ changes, ch.conn = c) {d : ConnId} (hd : d ≠ c) :
    s'.callbacks d = s.callbacks d := by
  have hnone : changes.filter (·.conn = d) = [] :=
    List.filter_eq_nil_iff.mpr fun ch hch => by simpa [hchanges ch hch] using hd.symm
  simp only [callbacks, hs, List.filter_append, hnone, List.append_nil]

/-- Calls are only added, so a connection that was down is down. -/
theorem down_of_callbacks {calls : List StateE} {state state' : StateE}
    (h : state'.callbacks = state.callbacks ++ calls) (hdown : state = .kDisconnected) :
    state' = .kDisconnected := by
  subst hdown
  cases state' with
  | kDisconnected => rfl
  | kConnecting => simp [StateE.callbacks] at h
  | kConnected => simp [StateE.callbacks] at h
  | kDisconnecting => simp [StateE.callbacks] at h

/-- An operation on one connection, if it comes with the calls that the new state
tells of in addition, destroys only what is down, and queues what leads to
`connectDestroyed` only when the connection is down or for the destructor. -/
theorem Becomes.forwards {m : Bytes → Option ConnId} {pushed : Option (LoopId × Functor)}
    {changes : List Change} (hb : s.Becomes s' c conn' m pushed changes)
    (hconn : s.conns c = some conn)
    (hcalls : conn'.tcp.state.callbacks = conn.tcp.state.callbacks ++ callbacksOf changes)
    (hchanges : ∀ ch ∈ changes, ch.conn = c)
    (hdestroys : 0 < conn'.destroys → 0 < conn.destroys ∨ conn'.tcp.state = .kDisconnected)
    (hpushed : ∀ l f, pushed = some (l, f) → f.ends = true →
      f.about = c ∧ (conn'.tcp.state = .kDisconnected ∨ f = .connectDestroyed c ∧ D c)) :
    Forwards D s s' where
  told := by
    intro htold
    refine ⟨?_, ?_, ?_⟩
    · intro d hd
      rw [hb.nextConnId] at hd
      have hnone := htold.fresh d hd
      rw [hb.conns_of_ne, hnone]
      rintro rfl
      rw [hconn] at hnone
      cases hnone
    · intro d
      by_cases hd : d = c
      · subst hd
        rw [callbacks_append_self hb.changes hchanges, htold.calls, expected, expected, hconn,
          hb.conns_self]
        exact hcalls.symm
      · rw [callbacks_append_of_ne hb.changes hchanges hd, htold.calls, expected, expected,
          hb.conns_of_ne hd]
    · intro d e he hpos
      by_cases hd : d = c
      · subst hd
        cases hb.conns_self.symm.trans he
        rcases hdestroys hpos with hpos | hdown
        · exact down_of_callbacks hcalls (htold.destroyed d conn hconn hpos)
        · exact hdown
      · rw [hb.conns_of_ne hd] at he
        exact htold.destroyed d e he hpos
  down := by
    rintro d ⟨e, he, hdown⟩
    by_cases hd : d = c
    · subst hd
      cases hconn.symm.trans he
      exact ⟨conn', hb.conns_self, down_of_callbacks hcalls hdown⟩
    · exact ⟨e, by rw [hb.conns_of_ne hd, he], hdown⟩
  queued := by
    intro k f hf
    rw [hb.queues] at hf
    rcases mem_withPush hf with hf | hf
    · exact .inl hf
    · refine .inr fun hends => ?_
      obtain ⟨rfl, hdown⟩ := hpushed k f hf hends
      exact hdown.imp_left fun hdown => ⟨conn', hb.conns_self, hdown⟩

/-- An operation that changes the record without calling back. -/
theorem Becomes.forwards_record {m : Bytes → Option ConnId} {pushed : Option (LoopId × Functor)}
    (hb : s.Becomes s' c conn' m pushed []) (hconn : s.conns c = some conn)
    (hcalls : conn'.tcp.state.callbacks = conn.tcp.state.callbacks)
    (hdestroys : conn'.destroys = conn.destroys)
    (hpushed : ∀ l f, pushed = some (l, f) → f.ends = false) : Forwards D s s' := by
  refine hb.forwards hconn (by rw [hcalls]; exact (List.append_nil _).symm) (fun _ h => nomatch h)
    (fun hpos => .inl (by rwa [← hdestroys])) ?_
  intro l f hf hends
  rw [hpushed l f hf] at hends
  cases hends

/-! ## The functors -/

/-- An operation that answers goes forwards. -/
def Forwarding (D : ConnId → Prop) (s : TcpServer) (x : Checked TcpServer) : Prop :=
  ∀ s', x = .ok s' → Forwards D s s'

theorem Forwarding.refl (s : TcpServer) : Forwarding D s (.ok s) := by
  intro s' hs'
  cases hs'
  exact .refl s

theorem Forwarding.of_eq {x : Checked TcpServer} (hx : x = .ok s') (h : Forwards D s s') :
    Forwarding D s x := by
  intro s'' hs''
  cases hx.symm.trans hs''
  exact h

theorem Forwarding.of_error {x : Checked TcpServer} {e : Fault} (hx : x = .error e) :
    Forwarding D s x := by
  intro s' hs'
  cases hx.symm.trans hs'

/-- What an operation on a connection does when there is such a connection. -/
theorem forwarding_findConn {f : Connection → Checked TcpServer}
    (h : ∀ conn, s.conns c = some conn → Forwarding D s (s.findConn c >>= f)) :
    Forwarding D s (s.findConn c >>= f) := by
  cases hconn : s.conns c with
  | some conn => exact h conn hconn
  | none => exact .of_error (by rw [findConn, hconn]; rfl)

theorem forwarding_connectEstablished (t : LoopId) (c : ConnId) :
    Forwarding D s (s.connectEstablished t c) := by
  refine forwarding_findConn fun conn hconn => ?_
  change Forwarding D s (s.connectEstablished t c)
  by_cases hstate : conn.tcp.state = .kConnecting
  · obtain ⟨s', hs', hb⟩ := connectEstablished_spec hconn hstate t
    refine .of_eq hs' (hb.forwards hconn ?_ conn_of_mem (fun hpos => .inl hpos)
      fun _ _ h => nomatch h)
    rw [hstate]
    rfl
  · apply Forwarding.of_error (e := .assertion .connectEstablished)
    simp only [connectEstablished, findConn_of_some hconn, ok_bind,
      TcpConnection.connectEstablished, check_neg hstate]
    rfl

/-- Removing from the map, for a connection that is down. -/
theorem forwarding_removeConnectionInLoop (hdown : s.Down c) (t : LoopId) :
    Forwarding D s (s.removeConnectionInLoop t c) := by
  obtain ⟨conn, hconn, hstate⟩ := hdown
  by_cases hmap : (s.connections conn.name).isSome
  · obtain ⟨s', hs', hb⟩ := removeConnectionInLoop_spec hconn hmap t
    refine .of_eq hs' (hb.forwards hconn (List.append_nil _).symm (fun _ h => nomatch h)
      (fun hpos => .inl hpos) ?_)
    rintro l f hf -
    cases hf
    exact ⟨rfl, .inl hstate⟩
  · apply Forwarding.of_error (e := .assertion .removeConnectionInLoop)
    simp only [removeConnectionInLoop, findConn_of_some hconn, ok_bind, if_neg hmap]
    rfl

theorem forwarding_connectDestroyed (hdown : s.Down c) (t : LoopId) :
    Forwarding D s (s.connectDestroyed t c) := by
  obtain ⟨conn, hconn, hstate⟩ := hdown
  rcases ServerLoops.checkRemove_cases (s.loops conn.loop) (.conn c) with hcheck | hcheck
  · obtain ⟨s', hs', hb⟩ := connectDestroyed_spec hconn hcheck t
    exact .of_eq hs' (hb.forwards hconn (List.append_nil _).symm conn_of_mem
      (fun _ => .inr hstate) fun _ _ h => nomatch h)
  · apply Forwarding.of_error (e := .assertion .removeChannel)
    rw [connectDestroyed, findConn_of_some hconn, ok_bind, hcheck]
    rfl

/-- The calls of a connection that is closed, from the state it was in. -/
theorem callbacks_closed
    (hstate : conn.tcp.state = .kConnected ∨ conn.tcp.state = .kDisconnecting) (t : LoopId) :
    StateE.callbacks .kDisconnected =
      conn.tcp.state.callbacks ++ callbacksOf [s.changeOf .handleClose c conn t] := by
  rcases hstate with hstate | hstate <;>
  · rw [hstate]
    rfl

theorem forwarding_handleClose (t : LoopId) (c : ConnId) : Forwarding D s (s.handleClose t c) := by
  refine forwarding_findConn fun conn hconn => ?_
  change Forwarding D s (s.handleClose t c)
  by_cases hstate : conn.tcp.state = .kConnected ∨ conn.tcp.state = .kDisconnecting
  · have hclosed : Forwards D s _ := (becomes_closed s c conn t).forwards hconn
      (callbacks_closed hstate t) conn_of_mem (fun hpos => .inl hpos) fun _ _ h => nomatch h
    rw [handleClose_eq hconn hstate, removeConnection]
    split
    · intro s' hs'
      have hdown : ((s.setConn c (closed conn)).note .handleClose c conn t).Down c :=
        ⟨closed conn, (becomes_closed s c conn t).conns_self, rfl⟩
      exact hclosed.trans (forwarding_removeConnectionInLoop hdown t s' hs')
    · refine .of_eq rfl (((becomes_closed s c conn t).queueInLoop t base _).forwards hconn
        (callbacks_closed hstate t) conn_of_mem (fun hpos => .inl hpos) ?_)
      rintro l f hf -
      cases hf
      exact ⟨rfl, .inl rfl⟩
  · apply Forwarding.of_error (e := .assertion .handleClose)
    simp only [handleClose, findConn_of_some hconn, ok_bind, TcpConnection.handleClose,
      check_neg hstate]
    rfl

theorem forwarding_forceCloseInLoop (t : LoopId) (c : ConnId) :
    Forwarding D s (s.forceCloseInLoop t c) := by
  refine forwarding_findConn fun conn hconn => ?_
  rw [findConn_of_some hconn, ok_bind]
  split
  · exact forwarding_handleClose t c
  · exact .refl s

theorem forwarding_shutdownInLoop (c : ConnId) : Forwarding D s (s.shutdownInLoop c) := by
  refine forwarding_findConn fun conn hconn => ?_
  obtain ⟨s', hs', hb⟩ := shutdownInLoop_spec hconn
  refine .of_eq hs' (hb.forwards_record hconn ?_ rfl fun _ _ h => nomatch h)
  rw [(shutdownInLoop_state conn.tcp).1]

/-- A functor executed: what leads to `connectDestroyed` is about a connection that
is down. -/
theorem forwarding_call {f : Functor} (hf : s.AboutDown D f)
    (hdestroyed : ∀ c, f = .connectDestroyed c → D c → s.Down c) (t : LoopId) :
    Forwarding D s (s.call t f) := by
  cases f with
  | connectEstablished c => exact forwarding_connectEstablished t c
  | removeConnectionInLoop c =>
    rcases hf rfl with hdown | ⟨hf, -⟩
    · exact forwarding_removeConnectionInLoop hdown t
    · cases hf
  | connectDestroyed c =>
    exact forwarding_connectDestroyed ((hf rfl).elim id fun h => hdestroyed c rfl h.2) t
  | forceCloseInLoop c => exact forwarding_forceCloseInLoop t c
  | shutdownInLoop c => exact forwarding_shutdownInLoop c

/-! ## Calls of the user -/

theorem forwarding_send (t : LoopId) (c : ConnId) (message : Message) (result : WriteResult) :
    Forwarding D s (s.send t c message result) := by
  refine forwarding_findConn fun conn hconn => ?_
  rcases send_spec hconn t message result with ⟨s', tcp, hs', hstate, _, hb⟩ | hfatal
  · refine .of_eq hs' (hb.forwards_record hconn ?_ rfl fun _ _ h => nomatch h)
    rw [hstate]
  · exact .of_error hfatal

/-- A half-close asked for changes no call that was made. -/
theorem callbacks_shutdown {state state' : StateE}
    (h : state' = state ∨ state = .kConnected ∧ state' = .kDisconnecting) :
    state'.callbacks = state.callbacks := by
  rcases h with rfl | ⟨rfl, rfl⟩ <;> rfl

theorem forwarding_shutdown (t : LoopId) (c : ConnId) : Forwarding D s (s.shutdown t c) := by
  refine forwarding_findConn fun conn hconn => ?_
  change Forwarding D s (s.shutdown t c)
  by_cases ht : t = conn.loop
  · subst ht
    obtain ⟨s', tcp, hs', _, hstate, hb⟩ := shutdown_spec hconn
    exact .of_eq hs' (hb.forwards_record hconn (callbacks_shutdown hstate) rfl
      fun _ _ h => nomatch h)
  · obtain ⟨s', tcp, pushed, hs', hstate, hpushed, hb⟩ := shutdown_spec_other hconn ht
    refine .of_eq hs' (hb.forwards_record hconn (callbacks_shutdown hstate) rfl ?_)
    intro l f hf
    rcases hpushed with hnone | hsome
    · rw [hnone] at hf
      cases hf
    · rw [hsome] at hf
      cases hf
      rfl

theorem forwarding_forceClose (t : LoopId) (c : ConnId) : Forwarding D s (s.forceClose t c) := by
  refine forwarding_findConn fun conn hconn => ?_
  obtain ⟨s', hs', ⟨hstate, hb⟩ | hb⟩ := forceClose_spec hconn t
  · refine .of_eq hs' (hb.forwards_record hconn ?_ rfl ?_)
    · rcases hstate with hstate | hstate <;>
      · rw [hstate]
        rfl
    · intro l f hf
      cases hf
      rfl
  · exact .of_eq hs' (hb.forwards_record hconn rfl rfl fun _ _ h => nomatch h)

/-! ## Events -/

/-- Writing out leaves the state. -/
theorem handleWrite_state {tcp tcp' : TcpConnection} {result : WriteResult}
    (h : tcp.handleWrite result = .ok tcp') : tcp'.state = tcp.state := by
  unfold TcpConnection.handleWrite at h
  split at h
  · cases result with
    | failed errno => cases h
    | accepted n =>
      cases n with
      | zero => cases h
      | succ n =>
        obtain ⟨b, _, hrest⟩ := bind_eq_ok.mp h
        dsimp only at hrest
        split at hrest
        · cases hrest
          split
          · rw [(shutdownInLoop_state _).1]
            rfl
          · rfl
        · cases hrest
          rfl
  · cases h
    rfl

theorem forwarding_handleWrite (c : ConnId) (result : WriteResult) :
    Forwarding D s (s.handleWrite c result) := by
  refine forwarding_findConn fun conn hconn => ?_
  rw [findConn_of_some hconn, ok_bind]
  intro s' hs'
  obtain ⟨tcp, htcp, hs'⟩ := bind_eq_ok.mp hs'
  cases hs'
  refine (becomes_setConn s c _).forwards_record hconn ?_ rfl fun _ _ h => nomatch h
  show tcp.state.callbacks = conn.tcp.state.callbacks
  rw [handleWrite_state htcp]

theorem forwarding_callback (t : LoopId) (c : ConnId) (read : ReadResult) (write : WriteResult)
    (cb : Channel.Callback) : Forwarding D s (s.callback t c read write cb) := by
  cases cb with
  | close => exact forwarding_handleClose t c
  | error => exact .refl s
  | write => exact forwarding_handleWrite c write
  | read =>
    cases read with
    | bytes => exact .refl s
    | eof => exact forwarding_handleClose t c
    | failed => exact .of_error rfl

/-- The callbacks of one `handleEvent`, one after the other. -/
theorem forwarding_callbacks (t : LoopId) (c : ConnId) (read : ReadResult) (write : WriteResult)
    (cbs : List Channel.Callback) :
    Forwarding D s (cbs.foldlM (fun s cb => s.callback t c read write cb) s) := by
  induction cbs generalizing s with
  | nil => exact .refl s
  | cons cb rest ih =>
    intro s' hs'
    rw [List.foldlM_cons] at hs'
    obtain ⟨mid, hmid, hs'⟩ := bind_eq_ok.mp hs'
    exact (forwarding_callback t c read write cb mid hmid).trans (ih s' hs')

/-! ## Accepting -/

/-- A new connection has had the calls its state tells of, if those came with
accepting it. -/
theorem Accepts.forwards {pushed : Option (LoopId × Functor)} {changes : List Change}
    (ha : s.Accepts s' conn' pushed changes)
    (hcalls : conn'.tcp.state.callbacks = callbacksOf changes)
    (hchanges : ∀ ch ∈ changes, ch.conn = s.nextConnId) (hdestroys : conn'.destroys = 0)
    (hpushed : ∀ l f, pushed = some (l, f) → f.ends = false) (hfresh : s.Fresh) :
    Forwards D s s' where
  told := by
    intro htold
    refine ⟨?_, ?_, ?_⟩
    · intro d hd
      rw [ha.nextConnId] at hd
      rw [ha.conns, Function.update_of_ne (Nat.lt_of_succ_le hd).ne']
      exact htold.fresh d (Nat.le_of_succ_le hd)
    · intro d
      by_cases hd : d = s.nextConnId
      · subst hd
        rw [callbacks_append_self ha.changes hchanges, htold.calls, expected, expected,
          htold.fresh _ (le_refl _), ha.conns, Function.update_self]
        exact hcalls.symm
      · rw [callbacks_append_of_ne ha.changes hchanges hd, htold.calls, expected, expected,
          ha.conns, Function.update_of_ne hd]
    · intro d e he hpos
      rw [ha.conns] at he
      by_cases hd : d = s.nextConnId
      · subst hd
        rw [Function.update_self] at he
        cases he
        omega
      · rw [Function.update_of_ne hd] at he
        exact htold.destroyed d e he hpos
  down := by
    rintro d ⟨e, he, hdown⟩
    have hd : d ≠ s.nextConnId := by
      rintro rfl
      rw [hfresh _ (le_refl _)] at he
      cases he
    exact ⟨e, by rw [ha.conns, Function.update_of_ne hd, he], hdown⟩
  queued := by
    intro k f hf
    rw [ha.queues] at hf
    rcases mem_withPush hf with hf | hf
    · exact .inl hf
    · refine .inr fun hends => ?_
      rw [hpushed k f hf] at hends
      cases hends

theorem forwarding_newConnection (hfresh : s.Fresh) (sockfd : Int) :
    Forwarding D s (s.newConnection sockfd) := by
  obtain ⟨tcp, s', hs', hstate, _, ⟨_, ha⟩ | ⟨_, ha⟩⟩ := s.newConnection_spec sockfd
  · refine .of_eq hs' (ha.forwards rfl conn_of_mem rfl ?_ hfresh)
    intro l f hf
    cases hf
  · refine .of_eq hs' (ha.forwards ?_ (fun _ h => absurd h List.not_mem_nil) rfl ?_ hfresh)
    · show tcp.state.callbacks = []
      rw [hstate]
      rfl
    · intro l f hf
      cases hf
      rfl

/-- `handleEvent` of an active channel. -/
theorem forwarding_handleChannel (hfresh : s.Fresh) (l : LoopId) (outcome : Outcome)
    (ch : LoopChannel (Source × Events)) : Forwarding D s (s.handleChannel l outcome ch) := by
  match ch with
  | .wakeupChannel => exact .of_eq rfl (.setLoop s l fun _ hf => hf)
  | .other (.acceptChannel, revents) =>
    show Forwarding D s (if _ then s.acceptorHandleRead outcome.connfd else .ok s)
    split
    · unfold acceptorHandleRead
      split
      · exact forwarding_newConnection hfresh _
      · exact .of_error rfl
    · exact .refl s
  | .other (.conn c, revents) => exact forwarding_callbacks l c outcome.read outcome.write _

/-! ## The destructor -/

/-- An item of the destructor's `for`: a connection of its own thread is down, any other is
left to its loop. -/
theorem forwarding_destroyItem (hD : D c)
    (hdown : ∀ conn, s.conns c = some conn → t = conn.loop → s.Down c) :
    Forwarding D s (s.destroyItem t c) := by
  refine forwarding_findConn fun conn hconn => ?_
  rw [findConn_of_some hconn, ok_bind]
  split
  · rename_i ht
    exact forwarding_connectDestroyed (hdown conn hconn ht) t
  · refine .of_eq rfl (((becomes_setConn s c _).queueInLoop t conn.loop _).forwards hconn
      (List.append_nil _).symm (fun _ h => nomatch h) (fun hpos => .inl hpos) ?_)
    rintro l f hf -
    cases hf
    exact ⟨rfl, .inr ⟨rfl, hD⟩⟩

end Operations

end TcpServer

/-! ## The rounds of the loops -/

namespace ServerLoops

/-- The calls are told by the states, and whatever waits to lead to
`connectDestroyed` is about a connection that is down, or in the list of the destructor. -/
structure Orderly (D : ConnId → Prop) (s : ServerLoops) : Prop where
  told : s.server.Told
  aboutDown : ∀ l, ∀ f ∈ s.view l, s.server.AboutDown D f

theorem orderly_start (D : ConnId → Prop) (name : Bytes) (numLoops : Nat) :
    Orderly D (start name numLoops) where
  told := ⟨fun _ _ => rfl, fun _ => rfl, fun _ _ h => nomatch h⟩
  aboutDown := fun _ _ h => nomatch h

section Steps

variable {D : ConnId → Prop} {s : ServerLoops} {l : LoopId}

/-- A step that goes forwards, and moves places without making up functors. -/
theorem Orderly.move (h : Orderly D s) {server : TcpServer}
    {place : LoopId → Place (Source × Events) Functor}
    (hforwards : TcpServer.Forwards D s.server server)
    (hbatch : ∀ k, ∀ f ∈ (place k).batch, f ∈ s.view k) : Orderly D ⟨server, place⟩ where
  told := hforwards.told h.told
  aboutDown := by
    intro k f hf
    rcases List.mem_append.mp hf with hf | hf
    · exact hforwards.aboutDown (h.aboutDown k f (hbatch k f hf))
    · rcases hforwards.queued k f hf with hf | hf
      · exact hforwards.aboutDown (h.aboutDown k f (List.mem_append_right _ hf))
      · exact hf

/-- A step of one loop. -/
theorem Orderly.moveTo (h : Orderly D s) {server : TcpServer} {p : Place (Source × Events) Functor}
    (hforwards : TcpServer.Forwards D s.server server) (hbatch : ∀ f ∈ p.batch, f ∈ s.view l) :
    Orderly D ⟨server, Function.update s.place l p⟩ := by
  apply h.move hforwards
  intro k f hf
  by_cases hk : k = l
  · subst hk
    rw [Function.update_self] at hf
    exact hbatch f hf
  · rw [Function.update_of_ne hk] at hf
    exact List.mem_append_left _ hf

/-- A step that leaves the places. -/
theorem Orderly.call (h : Orderly D s) {server : TcpServer}
    (hforwards : TcpServer.Forwards D s.server server) : Orderly D { s with server } :=
  h.move hforwards fun _ _ hf => List.mem_append_left _ hf

/-- A step of a round that only moves a loop along. -/
theorem Orderly.advance (h : Orderly D s) {loop : EventLoop Source Functor}
    {p : Place (Source × Events) Functor}
    (hqueue : ∀ f ∈ loop.pendingFunctors, f ∈ s.server.queues l)
    (hbatch : ∀ f ∈ p.batch, f ∈ s.view l) : Orderly D (s.advance l loop p) :=
  h.moveTo (.setLoop s.server l hqueue) hbatch

/-- The next active channel of a loop handled. -/
theorem orderly_handle (h : Orderly D s) {ch : LoopChannel (Source × Events)}
    {rest : List (LoopChannel (Source × Events))} {inside : Bool}
    (hplace : s.place l = .handling (ch :: rest) inside) {outcome : TcpServer.Outcome}
    {s' : ServerLoops} (hs' : s.step (.handle l outcome) = .ok s') : Orderly D s' := by
  simp only [step, hplace] at hs'
  obtain ⟨server, hserver, hs'⟩ := bind_eq_ok.mp hs'
  cases hs'
  let current := s.server.setLoop l ((s.server.loops l).setCurrent (channelOf ch))
  have hcurrent : TcpServer.Forwards D s.server current := .setLoop s.server l fun _ hf => hf
  have hchannel : TcpServer.Forwards D current server :=
    TcpServer.forwarding_handleChannel (hcurrent.told h.told).fresh l outcome ch server hserver
  exact h.moveTo (hcurrent.trans hchannel) fun _ hf => absurd hf List.not_mem_nil

/-- The next functor of a batch executed. -/
theorem orderly_execute (h : Orderly D s) {f : Functor} {rest : List Functor} {inside : Bool}
    (hplace : s.place l = .calling (f :: rest) inside)
    (hdestroyed : ∀ c, f = .connectDestroyed c → D c → s.server.Down c) {s' : ServerLoops}
    (hs' : s.step (.execute l) = .ok s') : Orderly D s' := by
  have hbatch : ∀ g ∈ f :: rest, g ∈ s.view l := by
    intro g hg
    apply List.mem_append_left
    rw [hplace]
    exact hg
  simp only [step, hplace] at hs'
  obtain ⟨server, hserver, hs'⟩ := bind_eq_ok.mp hs'
  cases hs'
  have habout := h.aboutDown l f (hbatch f List.mem_cons_self)
  exact h.moveTo (TcpServer.forwarding_call habout hdestroyed l server hserver)
    fun g hg => hbatch g (List.mem_cons_of_mem _ hg)

/-- Every step of the loops and of the user keeps the calls told. -/
theorem orderly_step (h : Orderly D s) {l : Label} (hen : s.enabled l = true)
    (hdestroyed : ∀ k c rest inside, l = .execute k →
      s.place k = .calling (.connectDestroyed c :: rest) inside → D c → s.server.Down c)
    {s' : ServerLoops} (hs' : s.step l = .ok s') : Orderly D s' := by
  cases l with
  | pollReturn l active =>
    cases hs'
    exact h.advance (fun _ hf => hf) fun _ hf => absurd hf List.not_mem_nil
  | handle l outcome =>
    cases hplace : s.place l with
    | handling todo inside =>
      cases todo with
      | nil => simp [enabled, hplace] at hen
      | cons ch rest => exact orderly_handle h hplace hs'
    | _ => simp [enabled, hplace] at hen
  | endHandling l =>
    cases hs'
    exact h.advance (fun _ hf => hf) fun _ hf => absurd hf List.not_mem_nil
  | swap l =>
    cases hs'
    exact h.advance (fun _ hf => absurd hf List.not_mem_nil)
      fun _ hf => List.mem_append_right _ hf
  | execute l =>
    cases hplace : s.place l with
    | calling batch inside =>
      cases batch with
      | nil => simp [enabled, hplace] at hen
      | cons f rest =>
        refine orderly_execute h hplace ?_ hs'
        rintro c rfl hD
        exact hdestroyed l c rest inside rfl hplace hD
    | _ => simp [enabled, hplace] at hen
  | endFunctors l =>
    cases hs'
    exact h.advance (fun _ hf => hf) fun _ hf => absurd hf List.not_mem_nil
  | send t c message result =>
    obtain ⟨server, hserver, hs'⟩ := bind_eq_ok.mp hs'
    cases hs'
    exact h.call (TcpServer.forwarding_send t c message result server hserver)
  | shutdown t c =>
    obtain ⟨server, hserver, hs'⟩ := bind_eq_ok.mp hs'
    cases hs'
    exact h.call (TcpServer.forwarding_shutdown t c server hserver)
  | forceClose t c =>
    obtain ⟨server, hserver, hs'⟩ := bind_eq_ok.mp hs'
    cases hs'
    exact h.call (TcpServer.forwarding_forceClose t c server hserver)

end Steps

end ServerLoops

/-! ## Runs -/

namespace ServerLife

section Runs

variable {name : Bytes} {numLoops : Nat} {ls : List Label}

/-- In every state the run passes through, the calls of a connection that was
destroyed are paired. -/
def PairedRun (name : Bytes) (numLoops : Nat) (ls : List Label) : Prop :=
  ∀ pre s, pre <+: ls → system.Run (start name numLoops) pre (.ok s) → s.loops.server.Paired

/-- The connections the destructor of the run has in its list. -/
def Listed (ls : List Label) (c : ConnId) : Prop := ∃ t items, .destroy t items ∈ ls ∧ c ∈ items

/-- The connection for which the step executes `connectDestroyed`: a functor of a loop, or
at once in the destructor's `for`. -/
def destroyed? (s : ServerLife) : Label → Option ConnId
  | .run (.execute k) =>
    match s.loops.place k with
    | .calling (.connectDestroyed c :: _) _ => some c
    | _ => none
  | .next =>
    match s.destructing with
    | some (t, c :: _) => if (s.loops.server.conns c).map (·.loop) = some t then some c else none
    | _ => none
  | _ => none

/-- Every connection in the destructor's list is down when `connectDestroyed` is executed for
it. -/
def DownWhenDestroyed (name : Bytes) (numLoops : Nat) (ls : List Label) : Prop :=
  ∀ pre l s c, pre ++ [l] <+: ls → system.Run (start name numLoops) pre (.ok s) →
    s.destroyed? l = some c → Listed ls c → s.loops.server.Down c

/-- What a run keeps: the loops are orderly, and what the destructor has still to go through is
in its list. -/
structure Keeps (D : ConnId → Prop) (s : ServerLife) : Prop where
  orderly : s.loops.Orderly D
  listed : ∀ t rest, s.destructing = some (t, rest) → ∀ c ∈ rest, D c

/-- One step, the destructor's included. -/
theorem keeps_next {D : ConnId → Prop} {s s' : ServerLife} {l : Label} (h : s.Keeps D)
    (hen : s.enabled l = true) (hs' : s.step l = .ok s')
    (hlisted : ∀ t items, l = .destroy t items → ∀ c ∈ items, D c)
    (hdown : ∀ c, s.destroyed? l = some c → D c → s.loops.server.Down c) : s'.Keeps D := by
  cases l with
  | run l =>
    obtain ⟨loops, hloops, hs'⟩ := bind_eq_ok.mp hs'
    cases hs'
    simp only [enabled, Bool.and_eq_true] at hen
    refine ⟨ServerLoops.orderly_step h.orderly hen.1 ?_ hloops, h.listed⟩
    rintro k c rest inside rfl hplace hD
    exact hdown c (by simp only [destroyed?, hplace]) hD
  | destroy t items =>
    cases hs'
    refine ⟨h.orderly, fun t' rest hdestructing => ?_⟩
    cases hdestructing
    exact hlisted t items rfl
  | next =>
    rcases hdestructing : s.destructing with _ | ⟨t, _ | ⟨c, rest⟩⟩
    · simp [enabled, hdestructing] at hen
    · simp [enabled, hdestructing] at hen
    · simp only [step, hdestructing] at hs'
      obtain ⟨server, hserver, hs'⟩ := bind_eq_ok.mp hs'
      cases hs'
      obtain ⟨hD, hrest⟩ := List.forall_mem_cons.mp (h.listed t _ hdestructing)
      have hitem : ∀ conn, s.loops.server.conns c = some conn → t = conn.loop →
          s.loops.server.Down c := fun conn hconn ht =>
        hdown c (by simp [destroyed?, hdestructing, hconn, ht]) hD
      refine ⟨h.orderly.call (TcpServer.forwarding_destroyItem hD hitem server hserver), ?_⟩
      rintro _ _ ⟨⟩
      exact hrest

/-- **Calls are paired unless the destructor destroys a connection that is up.** In every run
of a server, with its destructor called at any point of it, and in every state
reached: if each connection in the destructor's list is kDisconnected when
`connectDestroyed` is executed for it, a connection for which `connectDestroyed` has
finished after it was established is kDisconnected, and its `connectionCallback_` was
invoked exactly twice, in the state kConnected and then in the state kDisconnected. -/
theorem pairedRun_of_downWhenDestroyed (h : DownWhenDestroyed name numLoops ls) :
    PairedRun name numLoops ls := by
  intro pre s hpre hrun
  have hkeeps : s.Keeps (Listed ls) := by
    apply System.Run.along (I := fun s => s.Keeps (Listed ls))
      ⟨ServerLoops.orderly_start _ name numLoops, nofun⟩ ?_ hpre hrun
    intro pre l t u hpre hrun hkeeps hen hstep
    refine keeps_next hkeeps hen hstep ?_ fun c => h pre l t c hpre hrun
    rintro k items rfl c hc
    exact ⟨k, items, hpre.subset (List.mem_append_right _ (List.mem_singleton_self _)), hc⟩
  exact hkeeps.orderly.told.paired

end Runs

/-! ## A run of each kind -/

open ServerLoops (outcome)

/-- A server without a pool accepts a connection. -/
def accepting : List Label :=
  [.run (.pollReturn 0 [.other (.acceptChannel, POLLIN)]), .run (.handle 0 (outcome 5 .bytes)),
    .run (.endHandling 0), .run (.swap 0), .run (.endFunctors 0)]

/-- With one loop in the pool a connection is accepted and established, and the server
goes while it is up. -/
def going : List Label :=
  [.run (.pollReturn 0 [.other (.acceptChannel, POLLIN)]), .run (.handle 0 (outcome 5 .bytes)),
    .run (.pollReturn 1 [.wakeupChannel]), .run (.handle 1 (outcome 0 .bytes)),
    .run (.endHandling 1), .run (.swap 1), .run (.execute 1), .run (.endFunctors 1),
    .destroy 0 [1], .next]

/-- The peer closes the connection in the round that executes what the destructor
queued. -/
def closing : List Label :=
  [.run (.pollReturn 1 [.wakeupChannel, .other (.conn 1, POLLIN)]),
    .run (.handle 1 (outcome 0 .bytes)), .run (.handle 1 (outcome 0 .eof)), .run (.endHandling 1),
    .run (.swap 1), .run (.execute 1)]

/-- The destructor comes to a connection that is up, and by the time `connectDestroyed` is
executed it is down. -/
theorem pairedRun_closing :
    ∃ s, system.Run (start [] 1) (going ++ closing) (.ok s) ∧
      (s.loops.server.conns 1).map Connection.destroys = some 1 ∧
      PairedRun [] 1 (going ++ closing) := by
  obtain ⟨s, hs, hdestroys⟩ :
      ∃ s, system.Run (start [] 1) (going ++ closing) (.ok s) ∧
        (s.loops.server.conns 1).map Connection.destroys = some 1 :=
    System.run_of_reaches (by decide +kernel)
  refine ⟨s, hs, hdestroys, pairedRun_of_downWhenDestroyed ?_⟩
  intro pre l t c hpre hrun hc _
  have hdown := System.checks_run (P := fun (s : ServerLife) l => (s.destroyed? l).all fun c =>
    (s.loops.server.conns c).any fun conn => conn.tcp.state = .kDisconnected)
    (show System.checks _ _ (start [] 1) (going ++ closing) = true by decide +kernel) hpre hrun
  rw [hc, Option.all_some, Option.any_eq_true] at hdown
  obtain ⟨conn, hconn, hstate⟩ := hdown
  exact ⟨conn, hconn, of_decide_eq_true hstate⟩

/-- The server goes while the connection is up: the destructor's
`connectDestroyed` leaves it in the state kConnected, told of once. -/
theorem pairedRun_open_fails :
    ∃ s, system.Run (start [] 0) (accepting ++ [.destroy 0 [1], .next]) (.ok s) ∧
      (s.loops.server.conns 1).map (fun conn => (conn.tcp.state, conn.destroys)) =
        some (.kConnected, 1) ∧
      s.loops.server.callbacks 1 = [.kConnected] ∧
      ¬ PairedRun [] 0 (accepting ++ [.destroy 0 [1], .next]) := by
  obtain ⟨s, hs, hconn, hcallbacks⟩ :
      ∃ s, system.Run (start [] 0) (accepting ++ [.destroy 0 [1], .next]) (.ok s) ∧
        (s.loops.server.conns 1).map (fun conn => (conn.tcp.state, conn.destroys)) =
          some (.kConnected, 1) ∧ s.loops.server.callbacks 1 = [.kConnected] :=
    System.run_of_reaches (by decide +kernel)
  refine ⟨s, hs, hconn, hcallbacks, fun hpaired => ?_⟩
  obtain ⟨conn, hsome, hfields⟩ := Option.map_eq_some_iff.mp hconn
  obtain ⟨hstate, hdestroys⟩ := Prod.mk.inj hfields
  have hpair := hpaired _ s (List.prefix_refl _) hs 1 conn hsome (by omega)
    (by rw [hcallbacks]; exact List.mem_singleton_self _)
  cases hstate.symm.trans hpair.1

end ServerLife

end ClyServer.Net
