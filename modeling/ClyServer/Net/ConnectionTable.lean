import ClyServer.Net.Account
import ClyServer.Net.EventLoopThreadPool
import ClyServer.Net.LoopOwnership
import Mathlib.Data.Int.CardIntervalMod

/-!
# The table of connections (`net/TcpServer.cpp`)

`connections_` is kept by two functions of the base loop, `newConnection` and
`removeConnectionInLoop`; everything else that happens to a connection happens on the loop it was
given, which `getNextLoop` of the pool chooses. What the table holds is read off how often each
connection was removed, and on which loop a connection is from its number alone: the pool goes
round its loops, and nobody else asks it for one.
-/

namespace ClyServer.Net

open ClyServer.Lib ClyServer.Lib.System

namespace TcpServer

/-- The loop a pool gives, as the server counts its loops. -/
def loopOf : Option Nat → LoopId
  | none => base
  | some i => i + 1

/-- The server's pool is that of `net/EventLoopThreadPool.cpp`, seen from `getNextLoop`. -/
theorem getNextLoop_pool {χ φ τ : Type} (s : TcpServer) (p : EventLoopThreadPool χ φ τ)
    (hloops : p.loops = List.range s.numLoops) (hnext : p.next = s.next)
    (hlt : s.numLoops ≠ 0 → s.next < s.numLoops) :
    ∃ p' g, p.getNextLoop = .ok p' ∧ p'.given = p.given ++ [g] ∧
      s.getNextLoop.1 = loopOf g ∧ s.getNextLoop.2.next = p'.next := by
  unfold EventLoopThreadPool.getNextLoop getNextLoop
  by_cases hzero : s.numLoops = 0
  · have hnone : p.loops = [] := by rw [hloops, hzero, List.range_zero]
    rw [if_pos hnone, if_pos hzero]
    exact ⟨_, none, rfl, rfl, rfl, hnext.symm⟩
  · have hsome : p.loops ≠ [] := by simpa [hloops] using hzero
    have hloop : p.loops[p.next]? = some s.next := by
      rw [hloops, hnext, List.getElem?_range (hlt hzero)]
    rw [if_neg hsome, if_neg hzero, hloop]
    refine ⟨_, some s.next, rfl, rfl, rfl, ?_⟩
    simp only [hnext, hloops, List.length_range]

/-- The loop of the connection with a number. -/
def assigned (numLoops : Nat) (c : ConnId) : LoopId :=
  loopOf (EventLoopThreadPool.nthLoop numLoops (c - 1))

/-- The name and the loop of a connection. -/
def entry (s : TcpServer) (c : ConnId) : Option (Bytes × LoopId) :=
  (s.conns c).map fun conn => (conn.name, conn.loop)

/-- How often a connection was removed. -/
def removals (s : TcpServer) (c : ConnId) : Nat := (s.conns c).elim 0 (·.removals)

/-- How many connections a loop was given. -/
def load (s : TcpServer) (l : LoopId) : Nat :=
  Nat.count (fun k => (s.entry (k + 1)).any (·.2 = l)) (s.nextConnId - 1)

/-- A number that was given to a connection. -/
def Numbered (s : TcpServer) (c : ConnId) : Prop := 0 < c ∧ c < s.nextConnId

instance (s : TcpServer) (c : ConnId) : Decidable (s.Numbered c) :=
  inferInstanceAs (Decidable (_ ∧ _))

/-- What the server keeps about its connections. -/
structure Tabled (s : TcpServer) (name : Bytes) (numLoops : Nat) : Prop where
  called : s.name = name
  pool : s.numLoops = numLoops
  positive : 0 < s.nextConnId
  entry : ∀ c, s.entry c =
    if s.Numbered c then some (connName name c, assigned numLoops c) else none
  removals : ∀ c, s.removals c ≤ 1
  filed : ∀ n c, s.connections n = some c ↔
    s.Numbered c ∧ n = connName name c ∧ s.removals c = 0
  next : numLoops ≠ 0 → s.next = (s.nextConnId - 1) % numLoops

theorem tabled_init (name : Bytes) (numLoops : Nat) :
    (init name numLoops).Tabled name numLoops where
  called := rfl
  pool := rfl
  positive := Nat.one_pos
  entry := by
    intro c
    have hnone : ¬ (init name numLoops).Numbered c := fun h =>
      Nat.lt_irrefl 0 (Nat.lt_of_lt_of_le h.1 (Nat.le_of_lt_succ h.2))
    rw [if_neg hnone]
    rfl
  removals := fun _ => Nat.zero_le 1
  filed := by
    intro n c
    have hnone : ¬ (init name numLoops).Numbered c := fun h =>
      Nat.lt_irrefl 0 (Nat.lt_of_lt_of_le h.1 (Nat.le_of_lt_succ h.2))
    refine iff_of_false nofun fun h => hnone h.1
  next := by simp [init]

variable {name : Bytes} {numLoops : Nat} {s : TcpServer} {c : ConnId}
  {conn conn' : Connection}

/-- What follows on `findConn` can rely on a connection. -/
theorem findConn_ends {α : Type} {f : Connection → Checked α} {P : α → Prop}
    (hf : ∀ conn, s.conns c = some conn → Ends (f conn) P fun _ => True) :
    Ends (s.findConn c >>= f) P fun _ => True := by
  unfold findConn
  split
  · rename_i conn hconn
    exact hf conn hconn
  · trivial

/-- A call of which only matters what follows. -/
theorem ends_call {α β : Type} {x : Checked α} {f : α → Checked β} {P : β → Prop}
    (hf : ∀ a, Ends (f a) P fun _ => True) : Ends (x >>= f) P fun _ => True := by
  cases x with
  | error e => trivial
  | ok a => exact hf a

/-- A function that keeps the table, or faults. -/
def Files (name : Bytes) (numLoops : Nat) (x : Checked TcpServer) : Prop :=
  Ends x (·.Tabled name numLoops) fun _ => True

/-! ## The operations -/

theorem entry_setConn (hconn : s.conns c = some conn)
    (hsame : (conn'.name, conn'.loop) = (conn.name, conn.loop)) :
    (s.setConn c conn').entry = s.entry := by
  ext d : 1
  by_cases hd : d = c
  · subst hd
    simp only [entry, setConn, Function.update_self, Option.map_some, hsame, hconn]
  · simp only [entry, setConn, Function.update_of_ne hd]

theorem removals_setConn (s : TcpServer) (c : ConnId) (conn' : Connection) :
    (s.setConn c conn').removals = Function.update s.removals c conn'.removals := by
  ext d
  by_cases hd : d = c
  · subst hd
    simp only [removals, setConn, Function.update_self, Option.elim_some]
  · simp only [removals, setConn, Function.update_of_ne hd]

theorem removals_of_some (hconn : s.conns c = some conn) : s.removals c = conn.removals := by
  rw [removals, hconn, Option.elim_some]

/-- A connection that is there has its name and its loop. -/
theorem Tabled.named (h : s.Tabled name numLoops) (hconn : s.conns c = some conn) :
    s.Numbered c ∧ conn.name = connName name c ∧ conn.loop = assigned numLoops c := by
  have hentry := h.entry c
  rw [TcpServer.entry, hconn, Option.map_some] at hentry
  split at hentry
  · rename_i hnumbered
    simp only [Option.some.injEq, Prod.mk.injEq] at hentry
    exact ⟨hnumbered, hentry⟩
  · cases hentry

/-- A connection's record replaced by one of the same name, loop and removals. -/
theorem Tabled.setConn (h : s.Tabled name numLoops) (hconn : s.conns c = some conn)
    (hsame : (conn'.name, conn'.loop) = (conn.name, conn.loop))
    (hremovals : conn'.removals = conn.removals) : (s.setConn c conn').Tabled name numLoops := by
  have hentry := entry_setConn hconn hsame
  have hkept : (s.setConn c conn').removals = s.removals := by
    rw [removals_setConn, hremovals, ← removals_of_some hconn, Function.update_eq_self]
  exact ⟨h.called, h.pool, h.positive, by rw [hentry]; exact h.entry,
    by rw [hkept]; exact h.removals, by rw [hkept]; exact h.filed, h.next⟩

theorem Tabled.queueInLoop (h : s.Tabled name numLoops) (t l : LoopId) (cb : Functor) :
    (s.queueInLoop t l cb).Tabled name numLoops :=
  ⟨h.called, h.pool, h.positive, h.entry, h.removals, h.filed, h.next⟩

theorem Tabled.note (h : s.Tabled name numLoops) (op : PollChange) (c : ConnId) (conn : Connection)
    (t : LoopId) : (s.note op c conn t).Tabled name numLoops :=
  ⟨h.called, h.pool, h.positive, h.entry, h.removals, h.filed, h.next⟩

theorem Tabled.setLoop (h : s.Tabled name numLoops) (l : LoopId) (loop : EventLoop Source Functor) :
    (s.setLoop l loop).Tabled name numLoops :=
  ⟨h.called, h.pool, h.positive, h.entry, h.removals, h.filed, h.next⟩

theorem Tabled.connectEstablished (h : s.Tabled name numLoops) (t : LoopId) (c : ConnId) :
    Files name numLoops (s.connectEstablished t c) := by
  refine findConn_ends fun conn hconn => ends_call fun tcp => Tabled.note ?_ _ c conn t
  exact h.setConn hconn rfl rfl

theorem Tabled.connectDestroyed (h : s.Tabled name numLoops) (t : LoopId) (c : ConnId) :
    Files name numLoops (s.connectDestroyed t c) := by
  refine findConn_ends fun conn hconn => ends_call fun _ => Tabled.note ?_ _ c conn t
  exact h.setConn hconn rfl rfl

/-- A connection's entry erased. -/
theorem Tabled.erase (h : s.Tabled name numLoops) (hconn : s.conns c = some conn)
    (hsame : (conn'.name, conn'.loop) = (conn.name, conn.loop)) (hremovals : conn'.removals = 1) :
    TcpServer.Tabled { s.setConn c conn' with
      connections := Function.update s.connections conn.name none } name numLoops := by
  obtain ⟨-, hname, -⟩ := h.named hconn
  have hentry := entry_setConn hconn hsame
  have hcount := removals_setConn s c conn'
  rw [hremovals] at hcount
  refine ⟨h.called, h.pool, h.positive, ?_, fun d => ?_, fun n d => ?_, h.next⟩
  · change ∀ d, (s.setConn c conn').entry d = _
    rw [hentry]
    exact h.entry
  · change (s.setConn c conn').removals d ≤ 1
    rw [hcount]
    by_cases hd : d = c
    · rw [hd, Function.update_self]
    · rw [Function.update_of_ne hd]
      exact h.removals d
  · change Function.update s.connections conn.name none n = some d ↔
      s.Numbered d ∧ n = connName name d ∧ (s.setConn c conn').removals d = 0
    rw [hcount]
    by_cases hn : n = conn.name
    · rw [hn, Function.update_self]
      refine iff_of_false nofun ?_
      rintro ⟨-, hd, hzero⟩
      obtain rfl : d = c := connName_injective (hd.symm.trans hname)
      rw [Function.update_self] at hzero
      cases hzero
    · rw [Function.update_of_ne hn, h.filed n d]
      by_cases hd : d = c
      · subst hd
        have hne : ¬ n = connName name d := fun heq => hn (heq.trans hname.symm)
        simp only [hne, false_and, and_false]
      · rw [Function.update_of_ne hd]

/-- The entry of a connection erased, when it is there. -/
theorem Tabled.removeConnectionInLoop (h : s.Tabled name numLoops) (t : LoopId) (c : ConnId) :
    Files name numLoops (s.removeConnectionInLoop t c) := by
  refine findConn_ends fun conn hconn => ?_
  obtain ⟨hnumbered, hname, -⟩ := h.named hconn
  dsimp only
  by_cases hsome : (s.connections conn.name).isSome = true
  · rw [if_pos hsome, check_pos rfl, ok_bind]
    -- the entry is the connection's own, which was not removed before
    obtain ⟨d, hd⟩ := Option.isSome_iff_exists.mp hsome
    obtain ⟨-, hdname, hdremovals⟩ := (h.filed conn.name d).mp hd
    obtain rfl : d = c := connName_injective (hdname.symm.trans hname)
    have hzero : conn.removals = 0 := (removals_of_some hconn).symm.trans hdremovals
    have hsame : ((removed conn).name, (removed conn).loop) = (conn.name, conn.loop) := rfl
    have hone : (removed conn).removals = 1 := congrArg (· + 1) hzero
    have herased := h.erase hconn hsame hone
    exact herased.queueInLoop t base _
  · rw [if_neg hsome, check_neg (by decide)]
    trivial

theorem Tabled.removeConnection (h : s.Tabled name numLoops) (t : LoopId) (c : ConnId) :
    Files name numLoops (s.removeConnection t c) := by
  unfold TcpServer.removeConnection
  split
  · exact h.removeConnectionInLoop t c
  · exact h.queueInLoop t base _

theorem Tabled.handleClose (h : s.Tabled name numLoops) (t : LoopId) (c : ConnId) :
    Files name numLoops (s.handleClose t c) := by
  refine findConn_ends fun conn hconn => ends_call fun tcp => ?_
  refine Tabled.removeConnection (Tabled.note ?_ _ c conn t) t c
  exact h.setConn hconn rfl rfl

theorem Tabled.forceCloseInLoop (h : s.Tabled name numLoops) (t : LoopId) (c : ConnId) :
    Files name numLoops (s.forceCloseInLoop t c) := by
  refine findConn_ends fun conn hconn => ?_
  split
  · exact h.handleClose t c
  · exact h

theorem Tabled.shutdownInLoop (h : s.Tabled name numLoops) (c : ConnId) :
    Files name numLoops (s.shutdownInLoop c) :=
  findConn_ends fun _ hconn => h.setConn hconn rfl rfl

theorem Tabled.call (h : s.Tabled name numLoops) (t : LoopId) (f : Functor) :
    Files name numLoops (s.call t f) := by
  cases f with
  | connectEstablished c => exact h.connectEstablished t c
  | removeConnectionInLoop c => exact h.removeConnectionInLoop t c
  | connectDestroyed c => exact h.connectDestroyed t c
  | forceCloseInLoop c => exact h.forceCloseInLoop t c
  | shutdownInLoop c => exact h.shutdownInLoop c

theorem Tabled.send (h : s.Tabled name numLoops) (t : LoopId) (c : ConnId) (message : Message)
    (result : WriteResult) : Files name numLoops (s.send t c message result) :=
  findConn_ends fun _ hconn => ends_call fun _ => h.setConn hconn rfl rfl

theorem Tabled.shutdown (h : s.Tabled name numLoops) (t : LoopId) (c : ConnId) :
    Files name numLoops (s.shutdown t c) := by
  refine findConn_ends fun conn hconn => ?_
  have hset : (s.setConn c { conn with tcp := conn.tcp.shutdown.1 }).Tabled name numLoops :=
    h.setConn hconn rfl rfl
  dsimp only
  split
  · split
    · exact hset.shutdownInLoop c
    · exact hset.queueInLoop t conn.loop _
  · exact hset

theorem Tabled.forceClose (h : s.Tabled name numLoops) (t : LoopId) (c : ConnId) :
    Files name numLoops (s.forceClose t c) := by
  refine findConn_ends fun conn hconn => ?_
  have hset : (s.setConn c { conn with tcp := conn.tcp.forceClose.1 }).Tabled name numLoops :=
    h.setConn hconn rfl rfl
  dsimp only
  split
  · exact hset.queueInLoop t conn.loop _
  · exact hset

theorem Tabled.callback (h : s.Tabled name numLoops) (t : LoopId) (c : ConnId) (read : ReadResult)
    (write : WriteResult) (cb : Channel.Callback) :
    Files name numLoops (s.callback t c read write cb) := by
  cases cb with
  | close => exact h.handleClose t c
  | error => exact h
  | read =>
    cases read with
    | bytes => exact h
    | eof => exact h.handleClose t c
    | failed => trivial
  | write => exact findConn_ends fun _ hconn => ends_call fun _ => h.setConn hconn rfl rfl

-- what accepting does is read off `newConnection_eq`, and the new buffer is not computed
attribute [local irreducible] newConnection

/-- The next loop is the one that is assigned to the next number. -/
theorem Tabled.getNextLoop (h : s.Tabled name numLoops) :
    s.getNextLoop.1 = assigned numLoops s.nextConnId ∧
      (numLoops ≠ 0 → s.getNextLoop.2.next = s.nextConnId % numLoops) := by
  unfold TcpServer.getNextLoop assigned EventLoopThreadPool.nthLoop
  rw [h.pool]
  by_cases hzero : numLoops = 0
  · rw [if_pos hzero, if_pos hzero]
    exact ⟨rfl, fun hne => absurd hzero hne⟩
  · have hround := EventLoopThreadPool.next_round (Nat.pos_of_ne_zero hzero) (s.nextConnId - 1)
    rw [Nat.sub_add_cancel h.positive, ← h.next hzero] at hround
    rw [if_neg hzero, if_neg hzero]
    refine ⟨?_, fun _ => hround⟩
    rw [h.next hzero]
    rfl

theorem addConn_eq (s : TcpServer) (tcp : TcpConnection) :
    s.addConn tcp = { s with
      next := s.getNextLoop.2.next
      nextConnId := s.nextConnId + 1
      conns := Function.update s.conns s.nextConnId (some (s.newConn tcp))
      connections := Function.update s.connections (connName s.name s.nextConnId)
        (some s.nextConnId) } := by
  obtain ⟨next, heq, -⟩ := s.getNextLoop_spec
  rw [addConn, heq]

theorem conns_addConn (s : TcpServer) (tcp : TcpConnection) :
    (s.addConn tcp).conns = Function.update s.conns s.nextConnId (some (s.newConn tcp)) := rfl

theorem numbered_addConn (h : 0 < s.nextConnId) (tcp : TcpConnection) (c : Nat) :
    (s.addConn tcp).Numbered c ↔ c = s.nextConnId ∨ s.Numbered c := by
  change 0 < c ∧ c < s.nextConnId + 1 ↔ c = s.nextConnId ∨ 0 < c ∧ c < s.nextConnId
  omega

theorem entry_addConn (s : TcpServer) (tcp : TcpConnection) (c : ConnId) :
    (s.addConn tcp).entry c =
      if c = s.nextConnId then some (connName s.name c, s.getNextLoop.1) else s.entry c := by
  unfold entry
  rw [conns_addConn]
  by_cases hc : c = s.nextConnId
  · rw [hc, Function.update_self, if_pos rfl]
    rfl
  · rw [Function.update_of_ne hc, if_neg hc]

/-- A number that was not given is no connection's. -/
theorem Tabled.none_of_not_numbered (h : s.Tabled name numLoops) (hc : ¬ s.Numbered c) :
    s.conns c = none := by
  have hentry := h.entry c
  rw [if_neg hc] at hentry
  exact Option.map_eq_none_iff.mp hentry

theorem removals_addConn (hnone : s.conns s.nextConnId = none) (tcp : TcpConnection) :
    (s.addConn tcp).removals = s.removals := by
  ext c
  unfold removals
  rw [conns_addConn]
  by_cases hc : c = s.nextConnId
  · rw [hc, Function.update_self, hnone]
    rfl
  · rw [Function.update_of_ne hc]

/-- A connection more, on the next loop of the pool. -/
theorem Tabled.addConn (h : s.Tabled name numLoops) (tcp : TcpConnection) :
    (s.addConn tcp).Tabled name numLoops := by
  obtain ⟨hloop, hnext⟩ := h.getNextLoop
  have hnumbered := numbered_addConn h.positive tcp
  have hfresh : s.conns s.nextConnId = none :=
    h.none_of_not_numbered fun hn => Nat.lt_irrefl _ hn.2
  have hremovals := removals_addConn hfresh tcp
  have hcalled : (s.addConn tcp).name = name := by rw [addConn_eq, ← h.called]
  have hpool : (s.addConn tcp).numLoops = numLoops := by rw [addConn_eq, ← h.pool]
  refine ⟨hcalled, hpool, Nat.succ_pos _, fun c => ?_, by rw [hremovals]; exact h.removals,
    fun n c => ?_, by rw [addConn_eq]; exact hnext⟩
  · rw [entry_addConn, hloop, h.called]
    by_cases hc : c = s.nextConnId
    · rw [if_pos hc, if_pos ((hnumbered c).mpr (.inl hc)), hc]
    · rw [if_neg hc, h.entry c]
      simp only [hnumbered, hc, false_or]
  · rw [hremovals, hnumbered]
    change Function.update s.connections (connName s.name s.nextConnId) (some s.nextConnId) n =
      some c ↔ _
    rw [h.called]
    by_cases hn : n = connName name s.nextConnId
    · rw [hn, Function.update_self, Option.some.injEq]
      constructor
      · rintro rfl
        exact ⟨.inl rfl, rfl, by rw [TcpServer.removals, hfresh]; rfl⟩
      · rintro ⟨-, hc, -⟩
        exact connName_injective hc
    · rw [Function.update_of_ne hn, h.filed n c]
      refine and_congr_left ?_
      rintro ⟨rfl, -⟩
      have hc : c ≠ s.nextConnId := fun heq => hn (by rw [heq])
      simp only [hc, false_or]

theorem Tabled.newConnection (h : s.Tabled name numLoops) (sockfd : Int) :
    Files name numLoops (s.newConnection sockfd) := by
  obtain ⟨outputBuffer, htcp⟩ := tcpInit_eq sockfd
  have hadd := h.addConn ⟨.kConnecting, .init sockfd, outputBuffer, [], []⟩
  rw [newConnection_eq htcp]
  split
  · exact hadd.connectEstablished base s.nextConnId
  · exact hadd.queueInLoop base _ _

theorem Tabled.handleChannel (h : s.Tabled name numLoops) (t : LoopId) (outcome : Outcome)
    (ch : LoopChannel (Source × Events)) : Files name numLoops (s.handleChannel t outcome ch) := by
  match ch with
  | .wakeupChannel => exact h.setLoop t _
  | .other (.acceptChannel, revents) =>
    change Files name numLoops (if _ then _ else _)
    split
    · unfold acceptorHandleRead
      split
      · exact h.newConnection outcome.connfd
      · trivial
    · exact h
  | .other (.conn c, revents) =>
    exact ends_foldlM (fun s cb hs => hs.callback t c outcome.read outcome.write cb) _ h

/-- A round gives each loop of the pool one connection. -/
theorem Tabled.load (h : s.Tabled name numLoops) {i : Nat} (hi : i < numLoops) :
    s.load (i + 1) = (s.nextConnId - 1) / numLoops +
      if i < (s.nextConnId - 1) % numLoops then 1 else 0 := by
  have hpool : 0 < numLoops := Nat.zero_lt_of_lt hi
  have hcount := Nat.count_modEq_card (s.nextConnId - 1) hpool i
  rw [Nat.mod_eq_of_lt hi] at hcount
  rw [← hcount, TcpServer.load, Nat.count_eq_card_filter_range, Nat.count_eq_card_filter_range]
  congr 1
  refine Finset.filter_congr fun k hk => ?_
  have hlt := Finset.mem_range.mp hk
  have hnumbered : s.Numbered (k + 1) := ⟨Nat.succ_pos k, Nat.add_lt_of_lt_sub hlt⟩
  rw [h.entry, if_pos hnumbered, Nat.ModEq, Nat.mod_eq_of_lt hi]
  simp [assigned, EventLoopThreadPool.nthLoop, loopOf, Nat.pos_iff_ne_zero.mp hpool]

end TcpServer

/-! ## Runs -/

namespace ServerLoops

open TcpServer

variable {name : Bytes} {numLoops : Nat} {s : ServerLoops}

/-- **Every step keeps the table.** -/
theorem tabled_step (h : s.server.Tabled name numLoops) (l : Label) :
    Ends (s.step l) (·.server.Tabled name numLoops) fun _ => True := by
  cases l with
  | pollReturn l active => exact h.setLoop l _
  | handle l outcome =>
    cases hplace : s.place l with
    | handling todo inside =>
      cases todo with
      | nil =>
        simp only [step, hplace]
        exact h
      | cons ch rest =>
        simp only [step, hplace]
        exact ((h.setLoop l _).handleChannel l outcome ch).bind fun _ hserver => hserver
    | _ =>
      simp only [step, hplace]
      exact h
  | endHandling l => exact h.setLoop l _
  | swap l => exact h.setLoop l _
  | execute l =>
    cases hplace : s.place l with
    | calling batch inside =>
      cases batch with
      | nil =>
        simp only [step, hplace]
        exact h
      | cons f rest =>
        simp only [step, hplace]
        exact (h.call l f).bind fun _ hserver => hserver
    | _ =>
      simp only [step, hplace]
      exact h
  | endFunctors l => exact h.setLoop l _
  | send t c message result =>
    exact (h.send t c message result).bind fun _ hserver => hserver
  | shutdown t c => exact (h.shutdown t c).bind fun _ hserver => hserver
  | forceClose t c => exact (h.forceClose t c).bind fun _ hserver => hserver

theorem run_tabled {ls : List Label} (h : system.Run (start name numLoops) ls (.ok s)) :
    s.server.Tabled name numLoops := by
  have hends : Ends (.ok s) (·.server.Tabled name numLoops) fun _ : Fault => True := by
    refine h.ends (I := (·.server.Tabled name numLoops)) (tabled_init name numLoops) ?_
    exact fun _ l ht _ => tabled_step ht l
  exact hends

/-- **The table is exact, and the loops are loaded evenly.** In every run of a server, however its
loops and the threads of the user take turns: `connections_` holds the connections that were
accepted and not removed, each under its name and no other; a connection has the name its number
gives, is on the loop the pool's round gives to that number, and is removed at most once. Of the
connections accepted so far no loop of the pool was given two more than another. -/
theorem connections_exact {ls : List Label} (h : system.Run (start name numLoops) ls (.ok s)) :
    (∀ n c, s.server.connections n = some c ↔
      ∃ conn, s.server.conns c = some conn ∧ conn.name = n ∧ conn.removals = 0) ∧
    (∀ c conn, s.server.conns c = some conn →
      conn.name = connName name c ∧ conn.removals ≤ 1 ∧
        conn.loop = loopOf (EventLoopThreadPool.nthLoop numLoops (c - 1))) ∧
    ∀ i j, i < numLoops → j < numLoops → s.server.load (i + 1) ≤ s.server.load (j + 1) + 1 := by
  have htabled := run_tabled h
  refine ⟨fun n c => ?_, fun c conn hconn => ?_, fun i j hi hj => ?_⟩
  · rw [htabled.filed]
    constructor
    · rintro ⟨hnumbered, rfl, hzero⟩
      have hentry := htabled.entry c
      rw [if_pos hnumbered] at hentry
      obtain ⟨conn, hconn, -⟩ := Option.map_eq_some_iff.mp hentry
      exact ⟨conn, hconn, (htabled.named hconn).2.1, (removals_of_some hconn).symm.trans hzero⟩
    · rintro ⟨conn, hconn, rfl, hzero⟩
      obtain ⟨hnumbered, hname, -⟩ := htabled.named hconn
      exact ⟨hnumbered, hname, (removals_of_some hconn).trans hzero⟩
  · obtain ⟨-, hname, hloop⟩ := htabled.named hconn
    exact ⟨hname, removals_of_some hconn ▸ htabled.removals c, hloop⟩
  · rw [htabled.load hi, htabled.load hj]
    split <;> omega

/-- Three connections accepted by a server with two loops. -/
theorem connections_exact_three :
    ∃ s, system.Run (start [] 2) (List.flatten (List.replicate 3
        [.pollReturn 0 [.other (.acceptChannel, POLLIN)], .handle 0 (outcome 5 .bytes),
          .endHandling 0, .swap 0, .endFunctors 0])) (.ok s) ∧
      (∃ conn, s.server.conns 3 = some conn ∧ conn.loop = 1) ∧
      s.server.load 1 ≤ s.server.load 2 + 1 := by
  obtain ⟨s, hrun, hthird⟩ := System.run_of_reaches (S := system)
    (P := fun s => (s.server.conns 3).isSome = true)
    (show System.reaches _ (start [] 2) (List.flatten (List.replicate 3
        [.pollReturn 0 [.other (.acceptChannel, POLLIN)], .handle 0 (outcome 5 .bytes),
          .endHandling 0, .swap 0, .endFunctors 0])) _ = true by decide +kernel)
  obtain ⟨conn, hconn⟩ := Option.isSome_iff_exists.mp hthird
  obtain ⟨-, hconns, hload⟩ := connections_exact hrun
  obtain ⟨-, -, hloop⟩ := hconns 3 conn hconn
  exact ⟨s, hrun, ⟨conn, hconn, hloop⟩, hload 0 1 (by decide) (by decide)⟩

end ServerLoops

end ClyServer.Net
