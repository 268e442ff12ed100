import ClyServer.Net.Connector

/-!
# What a connector can do

A function of the connector either begins an attempt to connect, which is then under
way or has failed at once (`Attempts`), or ends one that was under way, in one of three
ways (`Finishes`), or does nothing. Each function comes with one statement: where it
returns, it has done one of these, and where it does not, which faults it can end in. The
ownership of sockets and the assertions are read off these and not off the code.
-/

namespace ClyServer.Net

open ClyServer.Lib ClyServer.Lib.System

namespace Connector

variable {c : Connector}

/-! ## What can be done -/

/-- The name of the next socket. -/
def socket (c : Connector) : Int := c.created.length

/-- A socket was created. -/
def opened (c : Connector) : Connector := { c with created := c.created ++ [c.socket] }

/-- The channel of a socket that is being connected. -/
def channelOf (sockfd : Int) : Channel :=
  { Channel.init sockfd with
    events := Channel.enableWriting (Channel.init sockfd).events, addedToLoop := true }

/-- It is being connected. -/
def begun (c : Connector) (sockfd : Int) : Connector :=
  { c with state := .kConnecting, channel := some (channelOf sockfd) }

/-- It was closed, and there is to be another attempt if one is still wanted. -/
def retried (c : Connector) (sockfd : Int) : Connector :=
  { c with
    closed := c.closed ++ [sockfd]
    state := .kDisconnected
    timers := if c.connect_ then c.timers ++ [c.retryDelayMs] else c.timers
    retryDelayMs :=
      if c.connect_ then min (c.retryDelayMs * 2) kMaxRetryDelayMs else c.retryDelayMs }

/-- The channel was taken out of the loop and its destruction queued. -/
def removed (c : Connector) (channel : Channel) : Connector :=
  { c with
    channel := some { channel with
      events := Channel.disableAll channel.events, addedToLoop := false }
    pendingFunctors := c.pendingFunctors ++ [.resetChannel] }

/-- What `startInLoop` can do. -/
inductive Attempts (c : Connector) : Connector → Prop
  | idle : Attempts c c
  | began (hstate : c.state = .kDisconnected) (hconnect : c.connect_ = true)
      (hchannel : c.channel = none) : Attempts c (c.opened.begun c.socket)
  | refused (hstate : c.state = .kDisconnected) (hconnect : c.connect_ = true) :
      Attempts c (c.opened.retried c.socket)

/-- What `stopInLoop` and the callbacks can do. -/
inductive Finishes (c : Connector) : Connector → Prop
  | idle : Finishes c c
  | failed (channel : Channel) (hstate : c.state = .kConnecting)
      (hchannel : c.channel = some channel) : Finishes c ((c.removed channel).retried channel.fd)
  | handed (channel : Channel) (hstate : c.state = .kConnecting)
      (hchannel : c.channel = some channel) (hconnect : c.connect_ = true) :
      Finishes c { c.removed channel with
        state := .kConnected, handed := c.handed ++ [channel.fd] }
  | dropped (channel : Channel) (hstate : c.state = .kConnecting)
      (hchannel : c.channel = some channel) (hconnect : c.connect_ = false) :
      Finishes c { c.removed channel with
        state := .kConnected, closed := c.closed ++ [channel.fd] }

/-! ## Functions -/

/-- The two assertions about the beginning of an attempt. -/
def StartFault (e : Fault) : Prop :=
  e = .assertion .connecting ∨ e = .assertion .startInLoop

instance (e : Fault) : Decidable (StartFault e) := inferInstanceAs (Decidable (_ ∨ _))

/-- The faults an attempt can end in: the assertion about the state fails in the wrong state, the
one about the channel only where a channel is left. -/
def AttemptFault (c : Connector) (e : Fault) : Prop :=
  e = .fatalLog ∨ e = .assertion .startInLoop ∧ c.state ≠ .kDisconnected ∨
    e = .assertion .connecting ∧ c.connect_ = true ∧ c.channel ≠ none

theorem close_ends (c : Connector) (a : SocketAnswers) (sockfd : Int) :
    Ends (c.close a sockfd) (· = { c with closed := c.closed ++ [sockfd] })
      (· = .fatalLog) := by
  unfold close sockets.close
  cases a.closeFails with
  | false => rfl
  | true => rfl

theorem retry_ends (c : Connector) (a : SocketAnswers) (sockfd : Int) :
    Ends (c.retry a sockfd) (· = c.retried sockfd) (· = .fatalLog) := by
  refine (c.close_ends a sockfd).bind ?_
  rintro _ rfl
  dsimp only
  unfold retried
  cases c.connect_ with
  | true => rfl
  | false => rfl

theorem connecting_eq (h : c.channel = none) (sockfd : Int) :
    c.connecting sockfd = .ok (c.begun sockfd) := by
  unfold connecting
  dsimp only
  rw [check_pos h]
  rfl

theorem connecting_error (h : c.channel ≠ none) (sockfd : Int) :
    c.connecting sockfd = .error (.assertion .connecting) := by
  unfold connecting
  dsimp only
  rw [check_neg h]
  rfl

/-- `connect()`, in the state `startInLoop` calls it in. -/
theorem connect_ends (hstate : c.state = .kDisconnected) (hconnect : c.connect_ = true)
    (a : SocketAnswers) : Ends (c.connect a) (Attempts c) (AttemptFault c) := by
  have hbegin : Ends (c.opened.connecting c.socket) (Attempts c) (AttemptFault c) := by
    by_cases hchannel : c.channel = none
    · rw [connecting_eq (c := c.opened) hchannel]
      exact .began hstate hconnect hchannel
    · rw [connecting_error (c := c.opened) hchannel]
      exact .inr (.inr ⟨rfl, hconnect, hchannel⟩)
  have hretry : Ends (c.opened.retry a c.socket) (Attempts c) (AttemptFault c) := by
    refine (c.opened.retry_ends a c.socket).mono ?_ ?_
    · rintro _ rfl
      exact .refused hstate hconnect
    · rintro e rfl
      exact .inl rfl
  unfold connect sockets.createNonblockingOrDie
  cases a.socket with
  | false => exact .inl rfl
  | true =>
    rw [if_pos rfl, pure_eq_ok, ok_bind]
    dsimp only
    split
    iterate 4 exact hbegin
    iterate 5 exact hretry
    all_goals exact .inl rfl

theorem startInLoop_ends (c : Connector) (a : SocketAnswers) :
    Ends (c.startInLoop a) (Attempts c) (AttemptFault c) := by
  unfold startInLoop
  by_cases hstate : c.state = .kDisconnected
  · rw [check_pos hstate, ok_bind]
    cases hconnect : c.connect_ with
    | false => exact .idle
    | true =>
      rw [if_pos rfl]
      exact connect_ends hstate hconnect a
  · rw [check_neg hstate]
    exact .inr (.inl ⟨rfl, hstate⟩)

/-- What follows on `removeAndResetChannel()` can rely on a channel. -/
theorem removeAndResetChannel_ends (c : Connector) {f : Connector × Int → Checked Connector}
    {P : Connector → Prop} (hf : ∀ channel, c.channel = some channel →
      Ends (f (c.removed channel, channel.fd)) P (¬ StartFault ·)) :
    Ends (c.removeAndResetChannel >>= f) P (¬ StartFault ·) := by
  unfold removeAndResetChannel
  split
  · exact (by decide : ¬ StartFault .nullPointer)
  · rename_i channel hchannel
    exact hf channel hchannel

/-- An attempt that was under way is given up. -/
theorem retry_removed_ends (hstate : c.state = .kConnecting) {channel : Channel}
    (hchannel : c.channel = some channel) (a : SocketAnswers) :
    Ends ((c.removed channel).retry a channel.fd) (Finishes c) (¬ StartFault ·) := by
  refine ((c.removed channel).retry_ends a channel.fd).mono ?_ ?_
  · rintro _ rfl
    exact .failed channel hstate hchannel
  · rintro e rfl
    decide

theorem stopInLoop_ends (c : Connector) (a : SocketAnswers) :
    Ends (c.stopInLoop a) (Finishes c) (¬ StartFault ·) := by
  unfold stopInLoop
  by_cases hstate : c.state = .kConnecting
  · rw [if_pos hstate]
    apply removeAndResetChannel_ends
    intro channel hchannel
    refine (retry_ends _ a channel.fd).mono ?_ ?_
    · -- `retry` sets the state once more, so it is as if `stopInLoop` had not.
      rintro _ rfl
      exact .failed channel hstate hchannel
    · rintro e rfl
      decide
  · rw [if_neg hstate]
    exact .idle

theorem handleError_ends (c : Connector) (a : SocketAnswers) :
    Ends (c.handleError a) (Finishes c) (¬ StartFault ·) := by
  unfold handleError
  rw [LOG_ERROR_eq, ok_bind]
  by_cases hstate : c.state = .kConnecting
  · rw [if_pos hstate]
    apply removeAndResetChannel_ends
    intro channel hchannel
    exact retry_removed_ends hstate hchannel a
  · rw [if_neg hstate]
    exact .idle

theorem handleWrite_ends (c : Connector) (a : SocketAnswers) :
    Ends (c.handleWrite a) (Finishes c) (¬ StartFault ·) := by
  unfold handleWrite
  by_cases hstate : c.state = .kConnecting
  · rw [if_pos hstate]
    apply removeAndResetChannel_ends
    intro channel hchannel
    have hretry := retry_removed_ends hstate hchannel a
    dsimp only
    split
    · exact hretry
    · unfold sockets.isSelfConnect
      cases a.addresses with
      | false => exact (by decide : ¬ StartFault .fatalLog)
      | true =>
        rw [if_neg (by decide), pure_eq_ok, ok_bind]
        split
        · exact hretry
        · split
          · rename_i hconnect
            exact .handed channel hstate hchannel hconnect
          · rename_i hconnect
            refine (close_ends _ a channel.fd).mono ?_ ?_
            · rintro _ rfl
              exact .dropped channel hstate hchannel (Bool.eq_false_iff.mpr hconnect)
            · rintro e rfl
              decide
  · rw [if_neg hstate]
    by_cases hdisconnected : c.state = .kDisconnected
    · rw [check_pos hdisconnected]
      exact .idle
    · rw [check_neg hdisconnected]
      exact (by decide : ¬ StartFault (.assertion .handleWrite))

theorem callback_ends (a : SocketAnswers) (c : Connector) (cb : Channel.Callback) :
    Ends (callback a c cb) (Finishes c) (¬ StartFault ·) := by
  cases cb with
  | write => exact c.handleWrite_ends a
  | error => exact c.handleError_ends a
  | close | read => exact Finishes.idle

/-- A dispatch keeps what its callbacks keep. -/
theorem handleEvent_ends {I : Connector → Prop} (hkeeps : ∀ d d', Finishes d d' → I d → I d')
    (hc : I c) (a : SocketAnswers) (revents : Events) :
    Ends (c.handleEvent a revents) I (¬ StartFault ·) := by
  refine ends_foldlM ?_ _ hc
  intro d cb hd
  exact (callback_ends a d cb).mono (fun d' hd' => hkeeps d d' hd' hd) fun _ he => he

end Connector

end ClyServer.Net
