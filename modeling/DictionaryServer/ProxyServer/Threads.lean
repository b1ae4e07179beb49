/-
The proxy on its two threads.

`setThreadNum(1)` gives the client connections one I/O thread. It reads a
connection's bytes and runs the loop of `onMessage` over them; `onQuery` and
`onSet` put a functor into the queue of the base loop, which runs the queued
functors in order and, between them, what happens on the Redis connections.

A functor holds the client connection itself, but the message through
`std::ref`: what it holds is the address of `concrete`, a local variable of
`CallbackT::onMessage`. The object there lives until that call returns, and
the next call may have its own at the same address.
-/
import DictionaryServer.ProxyServer.Requests

namespace DictionaryServer

open Lib Lib.Framing

/-- `TcpConnection::StateE` -/
inductive StateE
  | kDisconnected
  | kConnecting
  | kConnected
  | kDisconnecting
  deriving DecidableEq, Repr

structure TcpConnection where
  state : StateE
  inputBuffer : Buffer

namespace TcpConnection

def connected (c : TcpConnection) : Bool := c.state = .kConnected

def shutdown (c : TcpConnection) : TcpConnection := if c.state = .kConnected then { c with state := .kDisconnecting } else c

/-- The channel is being read. -/
def Reading (c : TcpConnection) : Prop := c.state = .kConnected ∨ c.state = .kDisconnecting

end TcpConnection

/-- An address on the stack of the I/O thread. -/
abbrev Addr := Nat

inductive Task
  | queryInLoop
  | setInLoop
  deriving DecidableEq, Repr

/-- A functor in the queue. Which call of the dispatcher queued it is for the
reader; no operation looks at it. -/
structure PendingFunctor where
  task : Task
  conn : TcpConnectionPtr
  message : Addr
  call : Nat

namespace PendingFunctor

/-- It is bound to a pointer of this type. -/
def takes (f : PendingFunctor) : Message → Prop
  | .query _ => f.task = .queryInLoop
  | .set _ => f.task = .setInLoop
  | .reply _ => False
  | .empty _ => False

/-- The call it makes when it finds `seen`. -/
def event {conf : Configure} (f : PendingFunctor) (seen : Message) (accepted : Bool) : Option (ProxyServer.Event conf) :=
  match f.task, seen with
  | .queryInLoop, .query m => some (.query f.conn m accepted)
  | .setInLoop, .set m => some (.set f.conn m accepted)
  | _, _ => none

end PendingFunctor

/-- Where the I/O thread is. -/
inductive IoThread
  /-- In its event loop. -/
  | poll
  /-- At the head of the loop in `onMessage`. -/
  | decode (conn : TcpConnectionPtr)
  /-- In `messageCallback_`, for a frame of `n` bytes. -/
  | dispatch (conn : TcpConnectionPtr) (concrete : Addr) (n : Nat) (call : Nat)

structure Threads (conf : Configure) where
  proxy : ProxyServer conf
  conns : TcpConnectionPtr → TcpConnection
  io : IoThread
  /-- The local variables that live, and what they point to. -/
  concrete : Addr → Option Message
  pendingFunctors : List PendingFunctor
  calls : Nat

/-- What a step did that can be seen: messages given to `onQuery` or `onSet`,
functors run, each with what it found, and connections shut down. -/
structure Observed where
  handed : List (TcpConnectionPtr × Message) := []
  ran : List (TcpConnectionPtr × Message) := []
  shutdowns : List TcpConnectionPtr := []

/-- The connections a callback shut down. -/
def ProxyServer.Effect.shutdowns (effect : ProxyServer.Effect) : List TcpConnectionPtr :=
  effect.callbacks.flatMap fun (_, outputs) => outputs.filterMap fun
    | .send _ _ => none
    | .shutdown conn => some conn

namespace Threads

variable {conf : Configure}

def setConn (t : Threads conf) (conn : TcpConnectionPtr) (c : TcpConnection) : Threads conf :=
  { t with conns := Function.update t.conns conn c }

def shutdown (t : Threads conf) (conn : TcpConnectionPtr) : Threads conf := t.setConn conn (t.conns conn).shutdown

/-- `buf->retrieve(n)` on the input buffer. -/
def retrieve (t : Threads conf) (conn : TcpConnectionPtr) (n : Nat) : Threads conf :=
  t.setConn conn { t.conns conn with inputBuffer := (t.conns conn).inputBuffer.retrieve n }

/-! ## The I/O thread -/

def queueInLoop (t : Threads conf) (task : Task) (conn : TcpConnectionPtr) (message : Addr) : Threads conf :=
  { t with pendingFunctors := t.pendingFunctors ++ [⟨task, conn, message, t.calls⟩], calls := t.calls + 1 }

def onQuery (t : Threads conf) (conn : TcpConnectionPtr) (message : Addr) : Threads conf :=
  t.queueInLoop .queryInLoop conn message

def onSet (t : Threads conf) (conn : TcpConnectionPtr) (message : Addr) : Threads conf :=
  t.queueInLoop .setInLoop conn message

/-- `onProtobufMessage`, into the callback registered for the type, with
`concrete` at `a`. `onUnknownMessage` only logs. -/
def onProtobufMessage (t : Threads conf) (conn : TcpConnectionPtr) (message : Message) (a : Addr) : Option (Threads conf) :=
  let t' := { t with concrete := Function.update t.concrete a (some message) }
  match message with
  | .query _ => some (t'.onQuery conn a)
  | .set _ => some (t'.onSet conn a)
  | .reply _ => none
  | .empty _ => none

def defaultErrorCallback (t : Threads conf) (conn : TcpConnectionPtr) : Threads conf × Observed :=
  if (t.conns conn).connected then (t.shutdown conn, { shutdowns := [conn] }) else (t, {})

/-- What the loop of `onMessage` finds at the front of a buffer. -/
def front (W : WireFormatLite) (c : TcpConnection) : Head Message ProtobufCodec.ErrorCode :=
  ProtobufCodec.turn (queryProto W) c.inputBuffer

/-- A turn of the loop, up to where `messageCallback_` has queued. -/
def onMessage (W : WireFormatLite) (t : Threads conf) (conn : TcpConnectionPtr) (a : Addr) : Threads conf × Observed :=
  match front W (t.conns conn) with
  | .wait => ({ t with io := .poll }, {})
  | .bad _ =>
    let (t', observed) := t.defaultErrorCallback conn
    ({ t' with io := .poll }, observed)
  | .frame message n =>
    match t.onProtobufMessage conn message a with
    | some t' => ({ t' with io := .dispatch conn a n t.calls }, { handed := [(conn, message)] })
    | none => (t.retrieve conn n, {})

/-- `messageCallback_` returns: `concrete` is gone, and the frame retrieved. -/
def returned (t : Threads conf) (conn : TcpConnectionPtr) (a : Addr) (n : Nat) : Threads conf :=
  { t with concrete := Function.update t.concrete a none, io := .decode conn }.retrieve conn n

/-! ## The base loop -/

/-- What the server does to the client connections. -/
def output (t : Threads conf) : List TcpConnectionPtr → Threads conf
  | [] => t
  | conn :: shutdowns => (t.shutdown conn).output shutdowns

/-- Something happens in the base loop, where `ran` is run. -/
def proxyEvent (charSigned : Bool) (t : Threads conf) (e : ProxyServer.Event conf)
    (ran : List (TcpConnectionPtr × Message)) : Except Fault (Threads conf × Observed) := do
  let (proxy, effect) ← t.proxy.exec charSigned e
  return ({ t with proxy := proxy }.output effect.shutdowns, { ran := ran, shutdowns := effect.shutdowns })

/-- The base loop runs the first functor, which finds `seen`. -/
def runFunctor (charSigned : Bool) (t : Threads conf) (seen : Message) (accepted : Bool) :
    Except Fault (Threads conf × Observed) :=
  match t.pendingFunctors with
  | [] => .ok (t, {})
  | f :: pendingFunctors =>
    match f.event seen accepted with
    | none => .ok (t, {})
    | some e => { t with pendingFunctors := pendingFunctors }.proxyEvent charSigned e [(f.conn, seen)]

/-- What a functor can find at its address: the message, while there is one of
its type; otherwise the behaviour is undefined, and it can be anything. -/
def Finds (t : Threads conf) (f : PendingFunctor) (seen : Message) : Prop :=
  f.takes seen ∧ ∀ message, t.concrete f.message = some message → f.takes message → seen = message

/-! ## Runs -/

inductive Event (conf : Configure)
  /-- `connectEstablished` -/
  | up (conn : TcpConnectionPtr)
  /-- `handleClose` -/
  | down (conn : TcpConnectionPtr)
  /-- `handleRead` reads the chunk. -/
  | read (conn : TcpConnectionPtr) (chunk : Bytes)
  /-- A turn in `onMessage`, with `concrete`, if there is one, at `a`. -/
  | decode (a : Addr)
  | returned
  | run (seen : Message) (accepted : Bool)
  | redis (i : Fin conf.poolSize) (e : Hiredis.Event Request)

def Enabled (t : Threads conf) : Event conf → Prop
  | .up conn => t.io = .poll ∧ (t.conns conn).state = .kConnecting
  | .down conn => t.io = .poll ∧ (t.conns conn).Reading
  | .read conn chunk => t.io = .poll ∧ (t.conns conn).Reading ∧ chunk ≠ []
  | .decode a => (∃ conn, t.io = .decode conn) ∧ t.concrete a = none
  | .returned => ∃ conn a n call, t.io = .dispatch conn a n call
  | .run seen _ => ∃ f pendingFunctors, t.pendingFunctors = f :: pendingFunctors ∧ t.Finds f seen
  | .redis i e => t.proxy.Enabled (.redis i e)

def exec (W : WireFormatLite) (charSigned : Bool) (t : Threads conf) : Event conf → Except Fault (Threads conf × Observed)
  | .up conn => .ok (t.setConn conn { t.conns conn with state := .kConnected }, {})
  | .down conn => .ok (t.setConn conn { t.conns conn with state := .kDisconnected }, {})
  | .read conn chunk =>
    .ok ({ t with io := .decode conn }.setConn conn
      { t.conns conn with inputBuffer := (t.conns conn).inputBuffer.append chunk }, {})
  | .decode a =>
    match t.io with
    | .decode conn => .ok (t.onMessage W conn a)
    | _ => .ok (t, {})
  | .returned =>
    match t.io with
    | .dispatch conn a n _ => .ok (t.returned conn a n, {})
    | _ => .ok (t, {})
  | .run seen accepted => t.runFunctor charSigned seen accepted
  | .redis i e => t.proxyEvent charSigned (.redis i e) []

/-- The runs of the program after `start()`. -/
def system (W : WireFormatLite) (conf : Configure) (charSigned : Bool) :
    System (Threads conf) (Event conf × Observed) where
  start t := (ProxyServer.system conf charSigned).start t.proxy ∧
    (∀ conn, t.conns conn = { state := .kConnecting, inputBuffer := .empty }) ∧ t.io = .poll ∧
    (∀ a, t.concrete a = none) ∧ t.pendingFunctors = [] ∧ t.calls = 0
  step t l t' := t.Enabled l.1 ∧ t.exec W charSigned l.1 = .ok (t', l.2)

end Threads
end DictionaryServer
