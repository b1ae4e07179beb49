/-
The connections of a server (muduo/net/TcpServer.cc, Acceptor.cc,
EventLoopThreadPool.cc; `connectEstablished`, `handleRead`, `handleWrite`,
`handleClose` and `connectDestroyed` of TcpConnection.cc; `handleEvent` of
Channel.cc).

Loop 0 accepts; each connection then lives in a loop of its own, the loops of
the pool in turn. A loop handles the channels that its poller found ready, and
then runs the functors queued for it. What one callback or one functor does is
one step, and the steps of different loops come in any order.

The functions fail (`none`) where an assertion of the source does, where a
connection that is no more is used, and where a number overflows. A connection
goes when nothing refers to it any more, and its descriptor can then be given
to another one. `send` and `shutdown` of another thread test the state, and
queue a functor with `this` alone in a later step: if the connection closes in
between, that functor may find it gone (`torn_send`). Left out are the
destructor of the server, what is written (`TcpConnection`), and in the pollers
the channels that are no connection's.
-/
import DictionaryServer.Muduo.Poller
import DictionaryServer.Muduo.TcpConnection

namespace DictionaryServer.Muduo

open Lib

/-- 0 is `loop_`, the loops of the pool follow. -/
abbrev LoopId := Nat

/-- A connection, by the value of `nextConnId_` it was made with. -/
abbrev ConnId := Nat

/-- What `poll` returns of a channel. -/
structure Revents where
  pollin : Bool
  pri : Bool
  out : Bool
  rdhup : Bool
  err : Bool
  hup : Bool
  nval : Bool

/-- The callbacks of a channel. -/
inductive Handler
  | close | error | read | write
  deriving DecidableEq

/-- The callbacks of `handleEventWithGuard`, in order. -/
def Revents.handlers (r : Revents) : List Handler :=
  (if r.hup ∧ ¬r.pollin then [.close] else []) ++ (if r.err ∨ r.nval then [.error] else []) ++
    (if r.pollin ∨ r.pri ∨ r.rdhup then [.read] else []) ++ if r.out then [.write] else []

/-- No socket reports its end without being readable, and data besides. -/
def Revents.Sound (r : Revents) : Prop := ¬(r.hup = true ∧ r.pollin = false ∧ (r.pri = true ∨ r.rdhup = true))

/-- `TcpConnection`, without its buffers. -/
structure ServerConnection where
  loop : LoopId
  name : List Char
  state : StateE
  channel : Channel

/-- The calls that are queued for a connection. -/
inductive ServerCall
  | connectEstablished
  | removeConnectionInLoop
  | connectDestroyed
  | sendInLoop
  | shutdownInLoop
  deriving DecidableEq

/-- Bound with a `TcpConnectionPtr`, not with `this`. -/
def ServerCall.owns : ServerCall → Bool
  | .connectEstablished | .removeConnectionInLoop | .connectDestroyed => true
  | .sendInLoop | .shutdownInLoop => false

/-- How far another thread is in a call on a connection it found connected. -/
inductive Midway
  /-- In `send`. -/
  | sending
  /-- In `shutdown`. -/
  | shutting
  /-- In `shutdown`, with the functor still to queue. -/
  | closing
  deriving DecidableEq

/-- What it queues next. -/
def Midway.queues : Midway → Option ServerCall
  | .sending => some .sendInLoop
  | .shutting => none
  | .closing => some .shutdownInLoop

structure ServerFunctor where
  conn : ConnId
  call : ServerCall
  deriving DecidableEq

/-- A channel of `activeChannels_`. -/
inductive Ready
  | acceptor
  | connection (c : ConnId) (revents : Revents)

/-- What the program is called back with. -/
inductive Callback
  /-- `connectionCallback_`, and what `connected()` says there. -/
  | connection (connected : Bool)
  | message
  deriving DecidableEq

/-- In this loop, for this connection. -/
structure Called where
  loop : LoopId
  conn : ConnId
  callback : Callback

structure ServerOptions where
  name : List Char
  hostport : List Char
  numThreads : Nat
  /-- At most 255.255.255.255:65535 -/
  hostport_length : hostport.length ≤ 21

structure TcpServer where
  nextConnId : Nat
  /-- Of the pool. -/
  next : Nat
  connections : List Char → Option ConnId
  /-- The connections there are. -/
  conns : ConnId → Option ServerConnection
  /-- The program has a `TcpConnectionPtr`. -/
  held : ConnId → Bool
  /-- Where the other threads are that call `send` or `shutdown`. -/
  midway : ConnId → List Midway
  /-- Of each loop, as is the rest. -/
  poller : LoopId → EPollPoller ConnId
  /-- The channels still to be handled. -/
  active : LoopId → List Ready
  /-- The channel being handled, and its callbacks still to come. -/
  handling : LoopId → Option (ConnId × List Handler)
  /-- The functors swapped out and not yet run. -/
  calling : LoopId → List ServerFunctor
  pendingFunctors : LoopId → List ServerFunctor

namespace TcpServer

/-- `buf` in `newConnection` has 32 bytes. The number printed is `nextConnId_`, an
`int`; here it is any natural number. -/
def connName (o : ServerOptions) (id : ConnId) : List Char :=
  o.name ++ (':' :: o.hostport ++ '#' :: Nat.toDigits 10 id).take 31

/-- `EventLoopThreadPool::getNextLoop`, with the new `next_`. -/
def getNextLoop (numThreads next : Nat) : LoopId × Nat :=
  if numThreads = 0 then (0, next)
  else (next + 1, if numThreads ≤ next + 1 then 0 else next + 1)

def queueInLoop (s : TcpServer) (l : LoopId) (f : ServerFunctor) : TcpServer :=
  { s with pendingFunctors := Function.update s.pendingFunctors l (s.pendingFunctors l ++ [f]) }

def setActive (s : TcpServer) (l : LoopId) (active : List Ready) : TcpServer :=
  { s with active := Function.update s.active l active }

def setHandling (s : TcpServer) (l : LoopId) (handling : Option (ConnId × List Handler)) : TcpServer :=
  { s with handling := Function.update s.handling l handling }

def setCalling (s : TcpServer) (l : LoopId) (calling : List ServerFunctor) : TcpServer :=
  { s with calling := Function.update s.calling l calling }

def setMidway (s : TcpServer) (c : ConnId) (midway : List Midway) : TcpServer :=
  { s with midway := Function.update s.midway c midway }

/-- `connections_.erase` -/
def erase (s : TcpServer) (name : List Char) : TcpServer :=
  { s with connections := Function.update s.connections name none }

/-- The connection `c` changes. -/
def put (s : TcpServer) (c : ConnId) (t : ServerConnection) : TcpServer :=
  { s with conns := Function.update s.conns c (some t) }

/-- The connection and its poller change. -/
def install (s : TcpServer) (c : ConnId) (t : ServerConnection) (p : EPollPoller ConnId) : TcpServer :=
  { s with conns := Function.update s.conns c (some t), poller := Function.update s.poller t.loop p }

/-- `Channel::update`, after a change of the events. -/
def updateChannel (s : TcpServer) (c : ConnId) (events : Events) : Option TcpServer := do
  let t ← s.conns c
  let (p, channel) ← (s.poller t.loop).updateChannel c { t.channel with events := events }
  return s.install c { t with channel := channel } p

/-- `Channel::remove` -/
def removeChannel (s : TcpServer) (c : ConnId) : Option TcpServer := do
  let t ← s.conns c
  guard (t.channel.isNoneEvent = true)
  let (p, channel) ← (s.poller t.loop).removeChannel c t.channel
  return s.install c { t with channel := channel } p

def setState (s : TcpServer) (c : ConnId) (state : StateE) : Option TcpServer := do
  let t ← s.conns c
  return s.put c { t with state := state }

/-- `connectionCallback_`, where `connected()` can be called. -/
def connectionCallback (s : TcpServer) (l : LoopId) (c : ConnId) : Option (List Called) := do
  let t ← s.conns c
  return [⟨l, c, .connection (t.state = .kConnected)⟩]

def connectEstablished (s : TcpServer) (l : LoopId) (c : ConnId) : Option (TcpServer × List Called) := do
  let t ← s.conns c
  guard (t.loop = l)
  guard (t.state = .kConnecting)
  let s ← s.setState c .kConnected
  let s ← s.updateChannel c { t.channel.events with read := true }
  return (s, ← s.connectionCallback l c)

def connectDestroyed (s : TcpServer) (l : LoopId) (c : ConnId) : Option (TcpServer × List Called) := do
  let t ← s.conns c
  guard (t.loop = l)
  if t.state = .kConnected then
    let s ← s.setState c .kDisconnected
    let s ← s.updateChannel c Events.kNoneEvent
    let called ← s.connectionCallback l c
    return (← s.removeChannel c, called)
  else return (← s.removeChannel c, [])

def removeConnectionInLoop (s : TcpServer) (l : LoopId) (c : ConnId) : Option TcpServer := do
  guard (l = 0)
  let t ← s.conns c
  guard ((s.connections t.name).isSome)
  return (s.erase t.name).queueInLoop t.loop ⟨c, .connectDestroyed⟩

/-- `removeConnection`: `runInLoop`. -/
def removeConnection (s : TcpServer) (l : LoopId) (c : ConnId) : Option TcpServer :=
  if l = 0 then s.removeConnectionInLoop l c else some (s.queueInLoop 0 ⟨c, .removeConnectionInLoop⟩)

def handleClose (s : TcpServer) (l : LoopId) (c : ConnId) : Option (TcpServer × List Called) := do
  let t ← s.conns c
  guard (t.loop = l)
  guard (t.state = .kConnected ∨ t.state = .kDisconnecting)
  let s ← s.setState c .kDisconnected
  let s ← s.updateChannel c Events.kNoneEvent
  let called ← s.connectionCallback l c
  return (← s.removeConnection l c, called)

/-- What the socket does in a callback: what `readFd` returns, or whether
`handleWrite` writes all there is. -/
inductive Io
  | data | eof | failed | drained

def handleRead (s : TcpServer) (l : LoopId) (c : ConnId) (io : Io) : Option (TcpServer × List Called) := do
  let t ← s.conns c
  guard (t.loop = l)
  match io with
  | .data => return (s, [⟨l, c, .message⟩])
  | .eof => s.handleClose l c
  | .failed | .drained => return (s, [])

def handleWrite (s : TcpServer) (l : LoopId) (c : ConnId) (io : Io) : Option (TcpServer × List Called) := do
  let t ← s.conns c
  guard (t.loop = l)
  match io with
  | .drained =>
    if t.channel.events.write then return (← s.updateChannel c { t.channel.events with write := false }, [])
    else return (s, [])
  | .data | .eof | .failed => return (s, [])

/-- A callback of the channel. -/
def handle (s : TcpServer) (l : LoopId) (c : ConnId) (io : Io) : Handler → Option (TcpServer × List Called)
  | .close => s.handleClose l c
  | .error => do
    let _ ← s.conns c
    return (s, [])
  | .read => s.handleRead l c io
  | .write => s.handleWrite l c io

/-- Whether some of the data stays for the output buffer. -/
def sendInLoop (s : TcpServer) (l : LoopId) (c : ConnId) (stays : Bool) : Option TcpServer := do
  let t ← s.conns c
  guard (t.loop = l)
  if t.state = .kDisconnected then return s
  else if stays ∧ ¬t.channel.events.write then s.updateChannel c { t.channel.events with write := true }
  else return s

def shutdownInLoop (s : TcpServer) (l : LoopId) (c : ConnId) : Option TcpServer := do
  let t ← s.conns c
  guard (t.loop = l)
  return s

/-- The new connection is in the map. -/
def addConnection (s : TcpServer) (next : Nat) (t : ServerConnection) : TcpServer :=
  { s with
    nextConnId := s.nextConnId + 1
    next := next
    connections := Function.update s.connections t.name (some s.nextConnId)
    conns := Function.update s.conns s.nextConnId (some t) }

/-- `newConnection`, with `nextConnId_` an `int`. -/
def newConnection (s : TcpServer) (o : ServerOptions) (sockfd : Nat) : Option (TcpServer × List Called) := do
  let (ioLoop, next) := getNextLoop o.numThreads s.next
  guard (s.nextConnId < 2147483647)
  let s' := s.addConnection next
    { loop := ioLoop, name := connName o s.nextConnId, state := .kConnecting
      channel := ⟨sockfd, Events.kNoneEvent, EPollPoller.kNew⟩ }
  if ioLoop = 0 then s'.connectEstablished ioLoop s.nextConnId
  else return (s'.queueInLoop ioLoop ⟨s.nextConnId, .connectEstablished⟩, [])

/-- The `swap` of `doPendingFunctors`. -/
def swapFunctors (s : TcpServer) (l : LoopId) : TcpServer :=
  { s with
    calling := Function.update s.calling l (s.pendingFunctors l)
    pendingFunctors := Function.update s.pendingFunctors l [] }

/-- The functor is run in the loop `l`. -/
def run (s : TcpServer) (l : LoopId) (stays : Bool) (f : ServerFunctor) : Option (TcpServer × List Called) :=
  match f.call with
  | .connectEstablished => s.connectEstablished l f.conn
  | .removeConnectionInLoop => do return (← s.removeConnectionInLoop l f.conn, [])
  | .connectDestroyed => s.connectDestroyed l f.conn
  | .sendInLoop => do return (← s.sendInLoop l f.conn stays, [])
  | .shutdownInLoop => do return (← s.shutdownInLoop l f.conn, [])

/-- What the program calls on a connection it has. -/
inductive Request
  | send (stays : Bool)
  | shutdown

/-- `TcpConnection::send` and `shutdown`, in the connection's own loop. -/
def request (s : TcpServer) (c : ConnId) (r : Request) : Option TcpServer := do
  let t ← s.conns c
  if t.state = .kConnected then
    match r with
    | .send stays => s.sendInLoop t.loop c stays
    | .shutdown =>
      let s ← s.setState c .kDisconnecting
      s.shutdownInLoop t.loop c
  else return s

/-- The same in another thread: the test of the state. -/
def test (s : TcpServer) (c : ConnId) (m : Midway) : Option TcpServer := do
  let t ← s.conns c
  if t.state = .kConnected then return s.setMidway c (m :: s.midway c)
  else return s

/-- `setState` of `shutdown`. -/
def setDisconnecting (s : TcpServer) (c : ConnId) : Option TcpServer := do
  let s ← s.setState c .kDisconnecting
  return s.setMidway c (.closing :: (s.midway c).erase .shutting)

/-- And the functor, with which either returns. -/
def queue (s : TcpServer) (c : ConnId) (m : Midway) (call : ServerCall) : Option TcpServer := do
  let t ← s.conns c
  return (s.setMidway c ((s.midway c).erase m)).queueInLoop t.loop ⟨c, call⟩

/-- What `fillActiveChannels` asserts of a channel. -/
def registered (s : TcpServer) (l : LoopId) : Ready → Bool
  | .acceptor => true
  | .connection c _ =>
    match s.conns c with
    | some t => (s.poller l).channels_ t.channel.fd = some c
    | none => false

def poll (s : TcpServer) (l : LoopId) (ready : List Ready) : Option TcpServer := do
  guard (ready.all (s.registered l) = true)
  return s.setActive l ready

/-- `tie_.lock()`, and the channel's callbacks. -/
def handleEvent (s : TcpServer) (l : LoopId) (c : ConnId) (r : Revents) : Option TcpServer := do
  let _ ← s.conns c
  return s.setHandling l (some (c, r.handlers))

/-- `~TcpConnection`: the socket is closed, and no `epoll` knows it any more. -/
def destroy (s : TcpServer) (c : ConnId) : Option TcpServer := do
  let t ← s.conns c
  return { s with
    conns := Function.update s.conns c none
    poller := fun l => { s.poller l with interest := Function.update (s.poller l).interest t.channel.fd none } }

/-! ## Runs -/

/-- Something owns the connection. Who calls it has a pointer to it. -/
def Referenced (s : TcpServer) (c : ConnId) : Prop :=
  (∃ name, s.connections name = some c) ∨ s.held c = true ∨ (∃ l hs, s.handling l = some (c, hs)) ∨
    (∃ l, ∃ f ∈ s.calling l ++ s.pendingFunctors l, f.conn = c ∧ f.call.owns = true) ∨ s.midway c ≠ []

/-- The connections among the active channels. -/
def readyConn : Ready → Option ConnId
  | .acceptor => none
  | .connection c _ => some c

/-- What a loop's `poll` can return: channels the kernel watches, each once. -/
def CanPoll (s : TcpServer) (l : LoopId) (ready : List Ready) : Prop :=
  (ready.filterMap readyConn).Nodup ∧
    ∀ r ∈ ready, match r with
      | .acceptor => l = 0
      | .connection c revents => revents.Sound ∧ ∃ fd events, (s.poller l).interest fd = some (c, events)

/-- Between two rounds of its loop. -/
def Idle (s : TcpServer) (l : LoopId) : Prop := s.active l = [] ∧ s.handling l = none ∧ s.calling l = []

inductive Action
  | poll (l : LoopId) (ready : List Ready)
  /-- `Acceptor::handleRead`, and what `accept` returns. -/
  | accept (sockfd : Option Nat)
  | handleEvent (l : LoopId)
  | handle (l : LoopId) (io : Io)
  | handled (l : LoopId)
  | doPendingFunctors (l : LoopId)
  | call (l : LoopId) (stays : Bool)
  | request (c : ConnId) (r : Request)
  | test (c : ConnId) (m : Midway)
  | setDisconnecting (c : ConnId)
  | queue (c : ConnId) (m : Midway)
  | hold (c : ConnId)
  | drop (c : ConnId)
  | destroy (c : ConnId)

/-- What can happen, and what the code then does. -/
inductive Does (o : ServerOptions) (s : TcpServer) : Action → Option (TcpServer × List Called) → Prop
  | poll {l ready} (hidle : s.Idle l) (hready : s.CanPoll l ready) :
      Does o s (.poll l ready) ((s.poll l ready).map (·, []))
  | accept {rest sockfd} (hactive : s.active 0 = .acceptor :: rest) (hhandling : s.handling 0 = none)
      (hfree : ∀ c t, s.conns c = some t → t.channel.fd ≠ sockfd) :
      Does o s (.accept (some sockfd))
        ((s.setActive 0 rest).newConnection o sockfd)
  | acceptFails {rest} (hactive : s.active 0 = .acceptor :: rest) (hhandling : s.handling 0 = none) :
      Does o s (.accept none) (some (s.setActive 0 rest, []))
  | handleEvent {l c revents rest} (hactive : s.active l = .connection c revents :: rest) (hhandling : s.handling l = none) :
      Does o s (.handleEvent l)
        (((s.setActive l rest).handleEvent l c revents).map (·, []))
  | handle {l io c h hs} (hhandling : s.handling l = some (c, h :: hs)) :
      Does o s (.handle l io) ((s.setHandling l (some (c, hs))).handle l c io h)
  | handled {l c} (hhandling : s.handling l = some (c, [])) :
      Does o s (.handled l) (some (s.setHandling l none, []))
  | doPendingFunctors {l} (hidle : s.Idle l) :
      Does o s (.doPendingFunctors l) (some (s.swapFunctors l, []))
  | call {l stays f fs} (hcalling : s.calling l = f :: fs) :
      Does o s (.call l stays) ((s.setCalling l fs).run l stays f)
  | request {c r} (hheld : s.held c = true) : Does o s (.request c r) ((s.request c r).map (·, []))
  | test {c m} (hheld : s.held c = true) (hm : m ≠ .closing) : Does o s (.test c m) ((s.test c m).map (·, []))
  | setDisconnecting {c} (hmidway : .shutting ∈ s.midway c) :
      Does o s (.setDisconnecting c) ((s.setDisconnecting c).map (·, []))
  | queue {c m call} (hmidway : m ∈ s.midway c) (hcall : m.queues = some call) :
      Does o s (.queue c m) ((s.queue c m call).map (·, []))
  | hold {c} (hreferenced : s.Referenced c) :
      Does o s (.hold c) (some ({ s with held := Function.update s.held c true }, []))
  | drop {c} : Does o s (.drop c) (some ({ s with held := Function.update s.held c false }, []))
  | destroy {c t} (hconn : s.conns c = some t) (hreferenced : ¬s.Referenced c) :
      Does o s (.destroy c) ((s.destroy c).map (·, []))

/-- A server that has started, with no connection yet. -/
def start : TcpServer where
  nextConnId := 1
  next := 0
  connections _ := none
  conns _ := none
  held _ := false
  midway _ := []
  poller _ := ⟨fun _ => none, fun _ => none⟩
  active _ := []
  handling _ := none
  calling _ := []
  pendingFunctors _ := []

def system (o : ServerOptions) : System TcpServer (Action × List Called) where
  start s := s = start
  step s a s' := Does o s a.1 (some (s', a.2))

/-! ## Names -/

theorem toDigits_injective : Function.Injective (Nat.toDigits 10) := by
  intro i j h
  rw [← Nat.ofDigitChars_ten_toDigits (n := i), h, Nat.ofDigitChars_ten_toDigits]

/-- A short number is in the name as a whole. -/
theorem connName_eq {o : ServerOptions} {id : ConnId} (h : id < 10 ^ (29 - o.hostport.length)) :
    connName o id = o.name ++ ':' :: o.hostport ++ '#' :: Nat.toDigits 10 id := by
  have hlength := o.hostport_length
  have hdigits := (Nat.length_toDigits_le_iff (by decide) (by omega)).mpr h
  rw [connName, List.take_of_length_le]
  · simp
  · simp only [List.cons_append, List.length_cons, List.length_append]
    omega

/-- **When the names differ**: up to the number whose last digit is cut off, and
no further. -/
theorem connName_injOn (o : ServerOptions) (n : Nat) :
    Set.InjOn (connName o) {id | id < n} ↔ n ≤ 10 ^ (29 - o.hostport.length) := by
  have hlength := o.hostport_length
  obtain ⟨k, hk⟩ : ∃ k, 29 - o.hostport.length = k + 1 := ⟨28 - o.hostport.length, by omega⟩
  constructor
  · intro hinj
    by_contra hlt
    rw [not_le, hk] at hlt
    have hpow : 0 < 10 ^ k := Nat.pow_pos (by decide)
    have hcut : Nat.toDigits 10 (10 ^ (k + 1)) = Nat.toDigits 10 (10 ^ k) ++ ['0'] := by
      have hge : 10 ≤ 10 ^ (k + 1) := by
        rw [pow_succ]
        omega
      rw [Nat.toDigits_of_base_le (by decide) hge, pow_succ, Nat.mul_div_cancel _ (by decide), Nat.mul_mod_left]
      rfl
    have hdigits : (Nat.toDigits 10 (10 ^ k)).length = k + 1 := by
      have hle := (Nat.length_toDigits_le_iff (n := 10 ^ k) (b := 10) (by decide) k.succ_pos).mpr (by rw [pow_succ]; omega)
      have hpos := Nat.length_toDigits_pos (b := 10) (n := 10 ^ k)
      rcases Nat.eq_zero_or_pos k with rfl | hkpos
      · omega
      · have hnot := mt (Nat.length_toDigits_le_iff (n := 10 ^ k) (b := 10) (by decide) hkpos).mp (lt_irrefl _)
        omega
    have hsame : connName o (10 ^ (k + 1)) = connName o (10 ^ k) := by
      rw [connName, connName, hcut, ← List.cons_append, ← List.append_assoc,
        List.take_append_of_le_length]
      simp only [List.cons_append, List.length_cons, List.length_append, hdigits]
      omega
    have heq : (10 : Nat) ^ (k + 1) = 10 ^ k :=
      hinj (show 10 ^ (k + 1) < n from hlt) (show 10 ^ k < n by rw [pow_succ] at hlt; omega) hsame
    rw [pow_succ] at heq
    omega
  · intro hle i hi j hj heq
    rw [connName_eq (lt_of_lt_of_le hi hle), connName_eq (lt_of_lt_of_le hj hle)] at heq
    have hdigits := List.append_cancel_left heq
    exact toDigits_injective (List.cons.inj hdigits).2

end TcpServer

end DictionaryServer.Muduo
