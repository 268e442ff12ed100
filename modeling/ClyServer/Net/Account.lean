import ClyServer.Lib.System
import ClyServer.Lib.Tables
import ClyServer.Net.ServerSteps

/-!
# The account of the server

Closing travels: a connection is closed on its loop, the closing is reported to
the base loop through a queue, and the base loop queues the destruction. What
makes each happen at most once is an account per connection (`ConnOk`): a
connection that is connecting has its `connectEstablished` queued once and the
others have none, a close callback was invoked exactly on the connections that
are disconnected, each invocation is still in the base loop's queue or has removed
the connection, and so for each removal and its `connectDestroyed`.

The account reads the queues through a `View`, in which a functor that is being
executed is still the first of its loop.
-/

namespace ClyServer.Net

open ClyServer.Lib

/-! ## The account of a connection -/

/-- Open: its channel is enabled. -/
def StateE.Open (s : StateE) : Prop := s = .kConnected ∨ s = .kDisconnecting

instance (s : StateE) : Decidable s.Open := inferInstanceAs (Decidable (_ ∨ _))

/-- What the queues and the counts say about one connection. -/
structure ConnOk (v : View) (c : ConnId) (conn : Connection) : Prop where
  interest : conn.tcp.channel.events = if conn.tcp.state.Open then POLLIN else 0
  establishing : v.Waiting (.connectEstablished c) conn.loop
    (if conn.tcp.state = .kConnecting then 1 else 0)
  closed : conn.closeCallbacks = if conn.tcp.state = .kDisconnected then 1 else 0
  removed : conn.removals ≤ conn.closeCallbacks
  removing : v.Waiting (.removeConnectionInLoop c) TcpServer.base
    (conn.closeCallbacks - conn.removals)
  queued : conn.destroysQueued = conn.removals
  destroyed : conn.destroys ≤ conn.destroysQueued
  destroying : v.Waiting (.connectDestroyed c) TcpServer.base
    (conn.destroysQueued - conn.destroys)

/-- The functors the account of a connection counts. -/
def Functor.Counted (f : Functor) (c : ConnId) : Prop :=
  f = .connectEstablished c ∨ f = .removeConnectionInLoop c ∨ f = .connectDestroyed c

namespace ConnOk

variable {v : View} {c : ConnId} {conn conn' : Connection} {l : LoopId} {f : Functor}

/-- Other functors may be queued. -/
theorem push_other (h : ConnOk v c conn) (l : LoopId) (hf : ¬ f.Counted c) :
    ConnOk (v.push l f) c conn where
  interest := h.interest
  establishing := h.establishing.push_of_ne l fun heq => hf (.inl heq)
  closed := h.closed
  removed := h.removed
  removing := h.removing.push_of_ne l fun heq => hf (.inr (.inl heq))
  queued := h.queued
  destroyed := h.destroyed
  destroying := h.destroying.push_of_ne l fun heq => hf (.inr (.inr heq))

/-- Other functors may be executed. -/
theorem pop_other (h : ConnOk v c conn) (hhead : (v l).head? = some f) (hf : ¬ f.Counted c) :
    ConnOk (v.pop l) c conn where
  interest := h.interest
  establishing := h.establishing.pop_of_ne hhead fun heq => hf (.inl heq)
  closed := h.closed
  removed := h.removed
  removing := h.removing.pop_of_ne hhead fun heq => hf (.inr (.inl heq))
  queued := h.queued
  destroyed := h.destroyed
  destroying := h.destroying.pop_of_ne hhead fun heq => hf (.inr (.inr heq))

/-- The account of the connection itself is kept by what changes neither its loop
nor its counts nor its events and, of its state, only which of the open ones it is. -/
theorem setTcp {tcp : TcpConnection} (h : ConnOk v c conn)
    (hevents : tcp.channel.events = conn.tcp.channel.events)
    (hstate : tcp.state = conn.tcp.state ∨ tcp.state.Open ∧ conn.tcp.state.Open) :
    ConnOk v c { conn with tcp } := by
  have hopen : tcp.state.Open ↔ conn.tcp.state.Open := by
    rcases hstate with hsame | ⟨h₁, h₂⟩
    · rw [hsame]
    · exact ⟨fun _ => h₂, fun _ => h₁⟩
  have hother : ∀ e : StateE, ¬ e.Open → (tcp.state = e ↔ conn.tcp.state = e) := by
    intro e he
    rcases hstate with hsame | ⟨h₁, h₂⟩
    · rw [hsame]
    · exact ⟨fun heq => absurd (heq ▸ h₁) he, fun heq => absurd (heq ▸ h₂) he⟩
  have hclosed := h.closed
  have hestablishing := h.establishing
  simp only [← hother .kDisconnected (by decide)] at hclosed
  simp only [← hother .kConnecting (by decide)] at hestablishing
  refine ⟨?_, hestablishing, hclosed, h.removed, h.removing, h.queued, h.destroyed, h.destroying⟩
  show tcp.channel.events = if tcp.state.Open then POLLIN else 0
  rw [hevents, h.interest]
  simp only [hopen]

/-- An open connection is neither connecting nor disconnected. -/
theorem counts_of_open (h : ConnOk v c conn) (hopen : conn.tcp.state.Open) :
    v.Waiting (.connectEstablished c) conn.loop 0 ∧ conn.closeCallbacks = 0 ∧
      conn.removals = 0 := by
  have hstate : conn.tcp.state ≠ .kConnecting ∧ conn.tcp.state ≠ .kDisconnected := by
    rcases hopen with heq | heq <;> rw [heq] <;> decide
  have hestablishing := h.establishing
  have hclosed := h.closed
  have hremoved := h.removed
  rw [if_neg hstate.1] at hestablishing
  rw [if_neg hstate.2] at hclosed
  exact ⟨hestablishing, hclosed, by omega⟩

/-- A connection is closed once, and removed once. -/
theorem closeCallbacks_le (h : ConnOk v c conn) : conn.closeCallbacks ≤ 1 := by
  rw [h.closed]
  split <;> omega

/-- A `connectEstablished` to be executed: the connection is connecting, and
after it is open and has no other. -/
theorem established (h : ConnOk v c conn) (hhead : (v l).head? = some (.connectEstablished c)) :
    conn.tcp.state = .kConnecting ∧ ConnOk (v.pop l) c (TcpServer.established conn) := by
  obtain ⟨m, hm, hwaiting⟩ := h.establishing.pop hhead
  have hstate : conn.tcp.state = .kConnecting := by
    by_contra hne
    rw [if_neg hne] at hm
    omega
  rw [if_pos hstate] at hm
  obtain rfl : m = 0 := by omega
  have hclosed := h.closed
  have hinterest := h.interest
  rw [hstate] at hclosed hinterest
  refine ⟨hstate, ?_, hwaiting, hclosed, h.removed,
    h.removing.pop_of_ne hhead (by simp), h.queued, h.destroyed,
    h.destroying.pop_of_ne hhead (by simp)⟩
  show Channel.enableReading conn.tcp.channel.events = POLLIN
  have hnone : ¬ StateE.Open .kConnecting := by decide
  rw [hinterest, if_neg hnone]
  decide

/-- Closed on a thread of the pool: the one close callback is in the base loop's
queue. -/
theorem closedRemote (h : ConnOk v c conn) (hopen : conn.tcp.state.Open) :
    ConnOk (v.push TcpServer.base (.removeConnectionInLoop c)) c (TcpServer.closed conn) := by
  obtain ⟨hestablishing, hcloses, hremovals⟩ := h.counts_of_open hopen
  have hremoving := h.removing.push
  rw [hcloses, hremovals] at hremoving
  refine ⟨rfl, hestablishing.push_of_ne _ (by simp), ?_, ?_, ?_, h.queued,
    h.destroyed, h.destroying.push_of_ne _ (by simp)⟩
  · show conn.closeCallbacks + 1 = 1
    rw [hcloses]
  · show conn.removals ≤ conn.closeCallbacks + 1
    omega
  · show View.Waiting _ _ _ (conn.closeCallbacks + 1 - conn.removals)
    rw [hcloses, hremovals]
    exact hremoving

/-- Closed on the base loop's thread: the connection is removed with it. -/
theorem closedBase (h : ConnOk v c conn) (hopen : conn.tcp.state.Open) :
    conn.removals = 0 ∧ ConnOk (v.push TcpServer.base (.connectDestroyed c)) c
      (TcpServer.removed (TcpServer.closed conn)) := by
  obtain ⟨hestablishing, hcloses, hremovals⟩ := h.counts_of_open hopen
  have hremoving := h.removing
  have hdestroying := h.destroying.push
  have hqueued := h.queued
  have hdestroyed := h.destroyed
  rw [← Nat.sub_add_comm hdestroyed] at hdestroying
  refine ⟨hremovals, rfl, hestablishing.push_of_ne _ (by simp), ?_, ?_, ?_, ?_, ?_,
    hdestroying⟩
  · show conn.closeCallbacks + 1 = 1
    rw [hcloses]
  · show conn.removals + 1 ≤ conn.closeCallbacks + 1
    omega
  · show View.Waiting _ _ _ (conn.closeCallbacks + 1 - (conn.removals + 1))
    rw [Nat.add_sub_add_right]
    exact hremoving.push_of_ne _ (by simp)
  · show conn.destroysQueued + 1 = conn.removals + 1
    rw [hqueued]
  · show conn.destroys ≤ conn.destroysQueued + 1
    omega

/-- A `removeConnectionInLoop` to be executed: the connection is not removed yet,
and after it is. -/
theorem removedNow (h : ConnOk v c conn)
    (hhead : (v l).head? = some (.removeConnectionInLoop c)) :
    conn.removals = 0 ∧
      ConnOk ((v.pop l).push TcpServer.base (.connectDestroyed c)) c (TcpServer.removed conn) := by
  obtain ⟨m, hm, hremoving⟩ := h.removing.pop hhead
  have hcloses := h.closeCallbacks_le
  have hqueued := h.queued
  have hdestroyed := h.destroyed
  have hdestroying := (h.destroying.pop_of_ne hhead (by simp)).push
  rw [← Nat.sub_add_comm hdestroyed] at hdestroying
  have hestablishing := h.establishing.pop_of_ne hhead (by simp)
  refine ⟨by omega, h.interest, hestablishing.push_of_ne _ (by simp), h.closed, ?_,
    ?_, ?_, ?_, hdestroying⟩
  · show conn.removals + 1 ≤ conn.closeCallbacks
    omega
  · show View.Waiting _ _ _ (conn.closeCallbacks - (conn.removals + 1))
    obtain rfl : m = conn.closeCallbacks - (conn.removals + 1) := by omega
    exact hremoving.push_of_ne _ (by simp)
  · show conn.destroysQueued + 1 = conn.removals + 1
    rw [hqueued]
  · show conn.destroys ≤ conn.destroysQueued + 1
    omega

/-- A `connectDestroyed` executed. -/
theorem destroyedNow (h : ConnOk v c conn) (hhead : (v l).head? = some (.connectDestroyed c)) :
    ConnOk (v.pop l) c (TcpServer.destroyed conn) := by
  obtain ⟨m, hm, hdestroying⟩ := h.destroying.pop hhead
  refine ⟨h.interest, h.establishing.pop_of_ne hhead (by simp), h.closed, h.removed,
    h.removing.pop_of_ne hhead (by simp), h.queued, ?_, ?_⟩
  · show conn.destroys + 1 ≤ conn.destroysQueued
    omega
  · show View.Waiting _ _ _ (conn.destroysQueued - (conn.destroys + 1))
    obtain rfl : m = conn.destroysQueued - (conn.destroys + 1) := by omega
    exact hdestroying

/-- No channel asks for write-ready events. -/
theorem not_isWriting (h : ConnOk v c conn) : conn.tcp.channel.isWriting = false := by
  rw [Channel.isWriting, h.interest]
  split <;> decide

/-- A channel that asks for events asks for input, and its connection is open. -/
theorem open_of_enabled (h : ConnOk v c conn) (hevents : conn.tcp.channel.events ≠ 0) :
    conn.tcp.state.Open ∧ conn.tcp.channel.events = POLLIN := by
  by_cases hopen : conn.tcp.state.Open
  · exact ⟨hopen, by rw [h.interest, if_pos hopen]⟩
  · rw [h.interest, if_neg hopen] at hevents
    exact absurd rfl hevents

end ConnOk

/-! ## The account of the server -/

namespace TcpServer

/-- A connection that has been accepted and not removed. -/
def Alive (s : TcpServer) (c : ConnId) : Prop :=
  ∃ conn, s.conns c = some conn ∧ conn.removals = 0

/-- Connections have distinct numbers and names of their own, the map holds those
not yet removed, functors are about connections that exist, and every
connection's account is in order. -/
structure Inv (v : View) (s : TcpServer) : Prop where
  fresh : ∀ c, s.nextConnId ≤ c → s.conns c = none
  known : ∀ l, ∀ f ∈ v l, s.conns f.about ≠ none
  named : ∀ c conn, s.conns c = some conn → conn.name = connName s.name c
  keyed : Keyed s.connections s.Alive (connName s.name)
  conns : ∀ c conn, s.conns c = some conn → ConnOk v c conn

theorem connName_injective {name : Bytes} {c d : Nat} (h : connName name c = connName name d) :
    c = d := by
  unfold connName at h
  exact decimal_injective (List.append_cancel_left (List.append_cancel_left h))

theorem inv_init (name : Bytes) (numLoops : Nat) : Inv (fun _ => []) (init name numLoops) where
  fresh := fun _ _ => rfl
  known := fun _ _ h => nomatch h
  named := fun _ _ h => nomatch h
  keyed := fun _ _ => ⟨fun h => (nomatch h), fun h => by
    obtain ⟨⟨_, hconn, _⟩, _⟩ := h
    cases hconn⟩
  conns := fun _ _ h => nomatch h

/-- The view changed only in functors about `c`. -/
structure Touches (c : ConnId) (v v' : View) : Prop where
  known : ∀ l, ∀ f ∈ v' l, f ∈ v l ∨ f.about = c
  other : ∀ d conn, d ≠ c → ConnOk v d conn → ConnOk v' d conn

namespace Touches

variable {v v' v'' : View} {c : ConnId} {l : LoopId} {f : Functor}

theorem refl (c : ConnId) (v : View) : Touches c v v where
  known := fun _ _ hf => .inl hf
  other := fun _ _ _ hok => hok

theorem trans (h : Touches c v v') (h' : Touches c v' v'') : Touches c v v'' where
  known := by
    intro l f hf
    rcases h'.known l f hf with hf | hf
    · exact h.known l f hf
    · exact .inr hf
  other := fun d conn hd hok => h'.other d conn hd (h.other d conn hd hok)

/-- A functor about one connection is not counted by another's account. -/
theorem not_counted {d : ConnId} (hf : f.about = c) (hd : d ≠ c) : ¬ f.Counted d := by
  rintro (heq | heq | heq)
  all_goals
    rw [heq] at hf
    exact hd hf

theorem push (v : View) (l : LoopId) (hf : f.about = c) : Touches c v (v.push l f) where
  known := by
    intro k g hg
    rcases View.mem_push.mp hg with hg | ⟨_, hg⟩
    · exact .inl hg
    · rw [hg]
      exact .inr hf
  other := by
    intro d conn hd hok
    exact hok.push_other l (not_counted hf hd)

theorem pop (hhead : (v l).head? = some f) (hf : f.about = c) : Touches c v (v.pop l) where
  known := fun _ _ hg => .inl (View.mem_of_mem_pop hg)
  other := by
    intro d conn hd hok
    exact hok.pop_other hhead (not_counted hf hd)

end Touches

section Operations

variable {v v' : View} {s s' : TcpServer} {t l : LoopId} {c : ConnId} {conn conn' : Connection}

/-- The account reads the connections and the map, and nothing else. -/
theorem Inv.of_eq (h : Inv v s) (hname : s'.name = s.name) (hnext : s'.nextConnId = s.nextConnId)
    (hconns : s'.conns = s.conns) (hmap : s'.connections = s.connections) : Inv v s' where
  fresh := by
    rw [hnext, hconns]
    exact h.fresh
  known := by
    rw [hconns]
    exact h.known
  named := by
    rw [hconns, hname]
    exact h.named
  keyed := by
    have halive : ∀ d, s.Alive d ↔ s'.Alive d := fun d => by rw [Alive, Alive, hconns]
    rw [hmap, hname]
    exact h.keyed.of_iff halive
  conns := by
    rw [hconns]
    exact h.conns

/-- The record of one connection set, with the functors about it and the map: the
account of the server is kept if that connection's is in order. -/
theorem Inv.set (h : Inv v s) (hname : s'.name = s.name) (hnext : s.nextConnId ≤ s'.nextConnId)
    (hc : c < s'.nextConnId) (hconns : s'.conns = Function.update s.conns c (some conn'))
    (hnamed : conn'.name = connName s.name c)
    (hkeyed : Keyed s'.connections (fun d => if d = c then conn'.removals = 0 else s.Alive d)
      (connName s.name))
    (htouch : Touches c v v') (hok : ConnOk v' c conn') : Inv v' s' := by
  have hself : s'.conns c = some conn' := by rw [hconns, Function.update_self]
  have hne : ∀ d, d ≠ c → s'.conns d = s.conns d :=
    fun d hd => by rw [hconns, Function.update_of_ne hd]
  refine ⟨?_, ?_, ?_, ?_, ?_⟩
  · intro d hd
    rw [hne d (Nat.lt_of_lt_of_le hc hd).ne']
    exact h.fresh d (le_trans hnext hd)
  · intro l f hf
    by_cases hfc : f.about = c
    · rw [hfc, hself]
      exact fun heq => nomatch heq
    · rw [hne _ hfc]
      exact h.known l f ((htouch.known l f hf).resolve_right hfc)
  · intro d e hd
    rw [hname]
    by_cases hdc : d = c
    · subst hdc
      rw [hself] at hd
      cases hd
      exact hnamed
    · rw [hne d hdc] at hd
      exact h.named d e hd
  · rw [hname]
    apply hkeyed.of_iff
    intro d
    by_cases hdc : d = c
    · subst hdc
      simp [Alive, hself]
    · simp [Alive, hne d hdc, hdc]
  · intro d e hd
    by_cases hdc : d = c
    · subst hdc
      rw [hself] at hd
      cases hd
      exact hok
    · rw [hne d hdc] at hd
      exact htouch.other d e hdc (h.conns d e hd)

/-- The number of a connection that exists has been given. -/
theorem Inv.lt_nextConnId (h : Inv v s) (hconn : s.conns c = some conn) : c < s.nextConnId := by
  by_contra hge
  rw [h.fresh c (Nat.le_of_not_lt hge)] at hconn
  cases hconn

/-- The map as it is, for an operation that removes nothing. -/
theorem Inv.keyed_same (h : Inv v s) (hconn : s.conns c = some conn)
    (hremovals : conn'.removals = conn.removals) :
    Keyed s.connections (fun d => if d = c then conn'.removals = 0 else s.Alive d)
      (connName s.name) := by
  apply h.keyed.of_iff
  intro d
  by_cases hdc : d = c
  · subst hdc
    simp [Alive, hconn, hremovals]
  · simp [hdc]

/-- The map with the connection's name erased, for one that removes it. -/
theorem Inv.keyed_erased (h : Inv v s) (hconn : s.conns c = some conn)
    (hremovals : conn.removals = 0) (hremovals' : conn'.removals ≠ 0) :
    Keyed (Function.update s.connections conn.name none)
      (fun d => if d = c then conn'.removals = 0 else s.Alive d) (connName s.name) := by
  have herase := h.keyed.erase (c := c) ⟨conn, hconn, hremovals⟩
  rw [h.named c conn hconn]
  apply herase.of_iff
  intro d
  by_cases hdc : d = c
  · simp [hdc, hremovals']
  · simp [hdc]

/-- A connection not yet removed is in the map. -/
theorem Inv.isSome_connections (h : Inv v s) (hconn : s.conns c = some conn)
    (hremovals : conn.removals = 0) : (s.connections conn.name).isSome := by
  rw [h.named c conn hconn, h.keyed.find ⟨conn, hconn, hremovals⟩]
  rfl

/-! ## What the operations keep -/

/-- The operation answers, queues at most one functor, forgets no connection and
leaves the account in order for what is then still to be executed. -/
def Keeps (v : View) (s : TcpServer) (x : Checked TcpServer) : Prop :=
  ∃ s' pushed, x = .ok s' ∧ s'.queues = withPush s.queues pushed ∧
    (∀ l, (s'.loops l).eventHandling = (s.loops l).eventHandling) ∧
    (∀ d, s.conns d ≠ none → s'.conns d ≠ none) ∧ Inv (withPush v pushed) s'

theorem Keeps.refl (h : Inv v s) : Keeps v s (.ok s) :=
  ⟨s, none, rfl, rfl, fun _ => rfl, fun _ hd => hd, h⟩

/-- An operation on one connection, from what it does. -/
theorem Inv.keeps {x : Checked TcpServer} {m : Bytes → Option ConnId}
    {pushed : Option (LoopId × Functor)} {changes : List Change} (h : Inv v s)
    (hconn : s.conns c = some conn) (hx : x = .ok s')
    (hb : s.Becomes s' c conn' m pushed changes) (hname : conn'.name = conn.name)
    (hkeyed : Keyed m (fun d => if d = c then conn'.removals = 0 else s.Alive d)
      (connName s.name))
    (htouch : Touches c v (withPush v' pushed)) (hok : ConnOk (withPush v' pushed) c conn') :
    Keeps v' s x := by
  refine ⟨s', pushed, hx, hb.queues, hb.handling, ?_, ?_⟩
  · intro d hd
    by_cases hdc : d = c
    · rw [hdc, hb.conns_self]
      exact fun heq => nomatch heq
    · rwa [hb.conns_of_ne hdc]
  · refine h.set hb.name (le_of_eq hb.nextConnId.symm) ?_ hb.conns ?_ ?_ htouch hok
    · rw [hb.nextConnId]
      exact h.lt_nextConnId hconn
    · rw [hname]
      exact h.named c conn hconn
    · rwa [hb.connections]

/-- An operation that only changes the record, within one kind of state. -/
theorem Inv.keeps_record {x : Checked TcpServer} {tcp : TcpConnection} {changes : List Change}
    (h : Inv v s) (hconn : s.conns c = some conn) (hx : x = .ok s')
    (hb : s.Becomes s' c { conn with tcp } s.connections none changes)
    (hevents : tcp.channel.events = conn.tcp.channel.events)
    (hstate : tcp.state = conn.tcp.state ∨ tcp.state.Open ∧ conn.tcp.state.Open) :
    Keeps v s x :=
  h.keeps hconn hx hb rfl (h.keyed_same hconn rfl) (.refl c v)
    ((h.conns c conn hconn).setTcp hevents hstate)

/-- A functor that no account counts may be taken out. -/
theorem Inv.pop {f : Functor} (h : Inv v s) (hhead : (v l).head? = some f)
    (hf : ∀ d, ¬ f.Counted d) : Inv (v.pop l) s :=
  ⟨h.fresh, fun k g hg => h.known k g (View.mem_of_mem_pop hg), h.named, h.keyed,
    fun d conn hd => (h.conns d conn hd).pop_other hhead (hf d)⟩

/-- The connection of a functor to be executed. -/
theorem Inv.conn_of_head {f : Functor} (h : Inv v s) (hhead : (v l).head? = some f) :
    ∃ conn, s.conns f.about = some conn :=
  Option.ne_none_iff_exists'.mp (h.known l f (List.mem_of_mem_head? hhead))

/-- Closing an open connection, on any thread. -/
theorem Inv.keeps_handleClose (h : Inv v s) (hconn : s.conns c = some conn)
    (hopen : conn.tcp.state.Open) (t : LoopId) : Keeps v s (s.handleClose t c) := by
  have hok := h.conns c conn hconn
  by_cases ht : t = base
  · obtain ⟨hremovals, hok'⟩ := hok.closedBase hopen
    obtain ⟨s', hs', hb⟩ :=
      handleClose_base hconn hopen (h.isSome_connections hconn hremovals)
    have hgone : (removed (closed conn)).removals ≠ 0 := Nat.succ_ne_zero _
    rw [ht]
    exact h.keeps hconn hs' hb rfl (h.keyed_erased hconn hremovals hgone) (.push v base rfl) hok'
  · obtain ⟨s', hs', hb⟩ := handleClose_remote hconn hopen ht
    exact h.keeps hconn hs' hb rfl (h.keyed_same hconn rfl) (.push v base rfl)
      (hok.closedRemote hopen)

theorem Inv.keeps_connectEstablished (h : Inv v s)
    (hhead : (v l).head? = some (.connectEstablished c)) :
    Keeps (v.pop l) s (s.connectEstablished l c) := by
  obtain ⟨conn, hconn⟩ := h.conn_of_head hhead
  obtain ⟨hstate, hok⟩ := (h.conns c conn hconn).established hhead
  obtain ⟨s', hs', hb⟩ := connectEstablished_spec hconn hstate l
  exact h.keeps hconn hs' hb rfl (h.keyed_same hconn rfl) (.pop hhead rfl) hok

theorem Inv.keeps_removeConnectionInLoop (h : Inv v s)
    (hhead : (v l).head? = some (.removeConnectionInLoop c)) :
    Keeps (v.pop l) s (s.removeConnectionInLoop l c) := by
  obtain ⟨conn, hconn⟩ := h.conn_of_head hhead
  obtain ⟨hremovals, hok⟩ := (h.conns c conn hconn).removedNow hhead
  obtain ⟨s', hs', hb⟩ :=
    removeConnectionInLoop_spec hconn (h.isSome_connections hconn hremovals) l
  have hgone : (removed conn).removals ≠ 0 := Nat.succ_ne_zero _
  have htouch : Touches c v ((v.pop l).push base (.connectDestroyed c)) :=
    (Touches.pop hhead rfl).trans (.push _ base rfl)
  exact h.keeps hconn hs' hb rfl (h.keyed_erased hconn hremovals hgone) htouch hok

theorem Inv.keeps_connectDestroyed (h : Inv v s)
    (hhead : (v l).head? = some (.connectDestroyed c)) (hconn : s.conns c = some conn)
    (hcheck : (s.loops conn.loop).checkRemove (.conn c) = .ok ()) :
    Keeps (v.pop l) s (s.connectDestroyed l c) := by
  obtain ⟨s', hs', hb⟩ := connectDestroyed_spec hconn hcheck l
  exact h.keeps hconn hs' hb rfl (h.keyed_same hconn rfl) (.pop hhead rfl)
    ((h.conns c conn hconn).destroyedNow hhead)

theorem Inv.keeps_forceCloseInLoop (h : Inv v s) (hconn : s.conns c = some conn) (t : LoopId) :
    Keeps v s (s.forceCloseInLoop t c) := by
  rw [forceCloseInLoop, findConn_of_some hconn, ok_bind]
  by_cases hopen : conn.tcp.state = .kConnected ∨ conn.tcp.state = .kDisconnecting
  · rw [if_pos hopen]
    exact h.keeps_handleClose hconn hopen t
  · rw [if_neg hopen]
    exact Keeps.refl h

theorem Inv.keeps_shutdownInLoop (h : Inv v s) (hconn : s.conns c = some conn) :
    Keeps v s (s.shutdownInLoop c) := by
  obtain ⟨s', hs', hb⟩ := shutdownInLoop_spec hconn
  obtain ⟨hstate, hchannel⟩ := shutdownInLoop_state conn.tcp
  exact h.keeps_record hconn hs' hb (congrArg Channel.events hchannel) (.inl hstate)

/-- The next functor of a loop executed, where the one assertion that depends on
how far the loop has got holds. -/
theorem Inv.keeps_call {f : Functor} (h : Inv v s) (hhead : (v l).head? = some f)
    (hcheck : ∀ d conn, f = .connectDestroyed d → s.conns d = some conn →
      (s.loops conn.loop).checkRemove (.conn d) = .ok ()) :
    Keeps (v.pop l) s (s.call l f) := by
  obtain ⟨conn, hconn⟩ := h.conn_of_head hhead
  cases f with
  | connectEstablished c => exact h.keeps_connectEstablished hhead
  | removeConnectionInLoop c => exact h.keeps_removeConnectionInLoop hhead
  | connectDestroyed c =>
    exact h.keeps_connectDestroyed hhead hconn (hcheck c conn rfl hconn)
  | forceCloseInLoop c =>
    exact (h.pop hhead fun d => by simp [Functor.Counted]).keeps_forceCloseInLoop hconn l
  | shutdownInLoop c =>
    exact (h.pop hhead fun d => by simp [Functor.Counted]).keeps_shutdownInLoop hconn

/-! ## Calls of the user, events and accepting -/

theorem Inv.keeps_send (h : Inv v s) (hconn : s.conns c = some conn) (t : LoopId)
    (message : Message) (result : WriteResult) :
    Keeps v s (s.send t c message result) ∨ s.send t c message result = .error .fatalLog := by
  rcases send_spec hconn t message result with ⟨s', tcp, hs', hstate, hchannel, hb⟩ | hfatal
  · exact .inl (h.keeps_record hconn hs' hb (congrArg Channel.events hchannel) (.inl hstate))
  · exact .inr hfatal

theorem Inv.keeps_shutdown (h : Inv v s) (hconn : s.conns c = some conn) :
    Keeps v s (s.shutdown conn.loop c) := by
  obtain ⟨s', tcp, hs', hchannel, hstate, hb⟩ := shutdown_spec hconn
  apply h.keeps_record hconn hs' hb (congrArg Channel.events hchannel)
  rcases hstate with hsame | ⟨hfrom, hto⟩
  · exact .inl hsame
  · exact .inr ⟨.inr hto, .inl hfrom⟩

theorem Inv.keeps_forceClose (h : Inv v s) (hconn : s.conns c = some conn) (t : LoopId) :
    Keeps v s (s.forceClose t c) := by
  have hok := h.conns c conn hconn
  obtain ⟨s', hs', ⟨hopen, hb⟩ | hb⟩ := forceClose_spec hconn t
  · have hok' : ConnOk v c { conn with tcp := conn.tcp.setState .kDisconnecting } :=
      hok.setTcp rfl (.inr ⟨.inr rfl, hopen⟩)
    exact h.keeps hconn hs' hb rfl (h.keyed_same hconn rfl) (.push v conn.loop rfl)
      (hok'.push_other conn.loop (by simp [Functor.Counted]))
  · exact h.keeps hconn hs' hb rfl (h.keyed_same hconn rfl) (.refl c v) hok

/-- Events of an open connection handled, on any thread. -/
theorem Inv.keeps_handleEvent (h : Inv v s) (hconn : s.conns c = some conn)
    (hopen : conn.tcp.state.Open) {revents : Events} (hrevents : Reportable POLLIN revents)
    {read : ReadResult} (hread : read ≠ .failed) (t : LoopId) (write : WriteResult) :
    Keeps v s (s.handleEvent t c revents read write) := by
  have hclose := h.keeps_handleClose hconn hopen t
  obtain ⟨s', pushed, hs', hqueues, hhandling, hkept, hinv⟩ := hclose
  obtain ⟨conn', hconn'⟩ := Option.ne_none_iff_exists'.mp
    (hkept c (by rw [hconn]; exact fun heq => nomatch heq))
  have hquiet := (h.conns c conn hconn).not_isWriting
  have hquiet' := (hinv.conns c conn' hconn').not_isWriting
  rcases callbacks_closing hconn hquiet hread write hs' hconn' hquiet'
    (dispatch_closing hrevents read) with hx | hx
  · rw [handleEvent, hx]
    exact Keeps.refl h
  · rw [handleEvent, hx]
    exact ⟨s', pushed, rfl, hqueues, hhandling, hkept, hinv⟩

/-- No functor is about a connection that does not exist yet. -/
theorem Inv.not_mem_of_fresh (h : Inv v s) {f : Functor} (hf : f.about = s.nextConnId)
    (l : LoopId) : f ∉ v l := by
  intro hmem
  exact h.known l f hmem (by rw [hf]; exact h.fresh _ (le_refl _))

theorem Inv.waiting_fresh (h : Inv v s) {f : Functor} (hf : f.about = s.nextConnId) (l : LoopId) :
    v.Waiting f l 0 :=
  .none (h.not_mem_of_fresh hf) l

/-- A new connection established at once. -/
theorem Inv.established_new (h : Inv v s) {tcp : TcpConnection}
    (hevents : tcp.channel.events = 0) : ConnOk v s.nextConnId (established (s.newConn tcp)) where
  interest := by
    show Channel.enableReading tcp.channel.events = POLLIN
    rw [hevents]
    decide
  establishing := h.waiting_fresh rfl _
  closed := rfl
  removed := le_refl 0
  removing := h.waiting_fresh rfl _
  queued := rfl
  destroyed := le_refl 0
  destroying := h.waiting_fresh rfl _

/-- A new connection whose establishment is queued on its loop. -/
theorem Inv.connecting_new (h : Inv v s) {tcp : TcpConnection} (hstate : tcp.state = .kConnecting)
    (hevents : tcp.channel.events = 0) :
    ConnOk (v.push s.getNextLoop.1 (.connectEstablished s.nextConnId)) s.nextConnId
      (s.newConn tcp) where
  interest := by
    show tcp.channel.events = if tcp.state.Open then POLLIN else 0
    rw [hevents, hstate]
    decide
  establishing := by
    show View.Waiting _ _ s.getNextLoop.1 (if tcp.state = .kConnecting then 1 else 0)
    rw [if_pos hstate]
    exact (h.waiting_fresh rfl _).push
  closed := by
    show 0 = if tcp.state = .kDisconnected then 1 else 0
    rw [hstate]
    rfl
  removed := le_refl 0
  removing := (h.waiting_fresh rfl _).push_of_ne _ (by simp)
  queued := rfl
  destroyed := le_refl 0
  destroying := (h.waiting_fresh rfl _).push_of_ne _ (by simp)

/-- The map with a new connection's name. -/
theorem Inv.keyed_new (h : Inv v s) (hremovals : conn.removals = 0) :
    Keyed (Function.update s.connections (connName s.name s.nextConnId) (some s.nextConnId))
      (fun d => if d = s.nextConnId then conn.removals = 0 else s.Alive d)
      (connName s.name) := by
  have hnew : ¬ s.Alive s.nextConnId := by
    intro halive
    obtain ⟨conn, hconn, _⟩ := halive
    rw [h.fresh _ (le_refl _)] at hconn
    cases hconn
  have hfree : ∀ d, s.Alive d → connName s.name d ≠ connName s.name s.nextConnId := by
    intro d hd heq
    rw [connName_injective heq] at hd
    exact hnew hd
  apply (h.keyed.insert hfree).of_iff
  intro d
  by_cases hd : d = s.nextConnId
  · simp [hd, hremovals]
  · simp [hd]

/-- What accepting keeps, from the new connection's account. -/
theorem Inv.keeps_new {x : Checked TcpServer} {pushed : Option (LoopId × Functor)}
    {changes : List Change} (h : Inv v s) (hx : x = .ok s') (ha : s.Accepts s' conn' pushed changes)
    (hname : conn'.name = connName s.name s.nextConnId) (hremovals : conn'.removals = 0)
    (htouch : Touches s.nextConnId v (withPush v pushed))
    (hok : ConnOk (withPush v pushed) s.nextConnId conn') : Keeps v s x := by
  refine ⟨s', pushed, hx, ha.queues, ha.handling, ?_, ?_⟩
  · intro d hd
    have hne : d ≠ s.nextConnId := by
      intro heq
      rw [heq] at hd
      exact hd (h.fresh _ (le_refl _))
    rwa [ha.conns, Function.update_of_ne hne]
  · refine h.set ha.name ?_ ?_ ha.conns hname ?_ htouch hok
    · rw [ha.nextConnId]
      exact Nat.le_succ _
    · rw [ha.nextConnId]
      exact Nat.lt_succ_self _
    · rw [ha.connections]
      exact h.keyed_new hremovals

theorem Inv.keeps_newConnection (h : Inv v s) (sockfd : Int) :
    Keeps v s (s.newConnection sockfd) := by
  obtain ⟨tcp, s', hs', hstate, hevents, ⟨_, ha⟩ | ⟨_, ha⟩⟩ := s.newConnection_spec sockfd
  · exact h.keeps_new hs' ha rfl rfl (.refl _ v) (h.established_new hevents)
  · exact h.keeps_new hs' ha rfl rfl (.push v _ rfl) (h.connecting_new hstate hevents)

end Operations

end TcpServer

end ClyServer.Net
