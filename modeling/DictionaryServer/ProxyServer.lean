/-
`ProxyServer` (ProxyServer.h, ProxyServer.cc): what it does in the base loop.

`setInLoop` and `queryInLoop` hand a request to a connection of the server its
key selects and write down, under that connection's unique id, which client to
answer; `commandCallback` looks the client up when the reply comes.

The callback that goes with a command binds nothing of the request. So that
one can speak of the request a command carries, the model numbers requests and
puts a `Request` in its place; no operation looks at it.
-/
import DictionaryServer.DAL.HiredisPool
import DictionaryServer.Message.Query
import DictionaryServer.ProxyServer.Reply

namespace DictionaryServer

open Lib

/-- Which client connection it is. -/
abbrev TcpConnectionPtr := Nat

structure Request where
  id : Nat
  conn : TcpConnectionPtr
  deriving DecidableEq

/-- What the server does to a client connection. -/
inductive Output
  | send (conn : TcpConnectionPtr) (answer : Message.Reply)
  | shutdown (conn : TcpConnectionPtr)

structure ProxyServer (conf : Configure) where
  clientConns : Std.ExtTreeMap Int64 TcpConnectionPtr
  backend : HiredisPool conf Request
  /-- How many requests were taken up. -/
  requests : Nat

namespace ProxyServer

variable {conf : Configure}

def commandCallback (s : ProxyServer conf) (upcall : Upcall Request) : List Output :=
  let answer : Message.Reply := { reply := redisReplyToString upcall.reply }
  match s.clientConns[upcall.uniqueConId]? with
  | some conn => [.send conn answer, .shutdown conn]
  | none => []

/-- What `setInLoop` and `queryInLoop` share, with what `command` returned,
which they ignore. `getHiredis` never returns NULL. -/
def commandInLoop (charSigned : Bool) (s : ProxyServer conf) (conn : TcpConnectionPtr) (key cmd : Bytes)
    (accepted : Bool) : Except Fault (Status × ProxyServer conf) := do
  let i := HiredisPool.getHiredis conf charSigned key
  let redis := s.backend i
  let serverId := redis.serverId
  let (ret, conId, redis) ← redis.command (-1) ⟨s.requests, conn⟩ cmd accepted
  return (ret,
    { clientConns := s.clientConns.insert (genUniqueConId serverId conId) conn
      backend := Function.update s.backend i redis
      requests := s.requests + 1 })

/-- The text of a SET command. -/
def setCommand (msg : Message.Set) : Bytes := ofText "set " ++ msg.key ++ ofText " " ++ msg.value

/-- The text of a GET command. -/
def getCommand (msg : Message.Query) : Bytes := ofText "get " ++ msg.key

def setInLoop (charSigned : Bool) (s : ProxyServer conf) (conn : TcpConnectionPtr) (msg : Message.Set)
    (accepted : Bool) : Except Fault (Status × ProxyServer conf) :=
  s.commandInLoop charSigned conn msg.key (setCommand msg) accepted

def queryInLoop (charSigned : Bool) (s : ProxyServer conf) (conn : TcpConnectionPtr) (msg : Message.Query)
    (accepted : Bool) : Except Fault (Status × ProxyServer conf) :=
  s.commandInLoop charSigned conn msg.key (getCommand msg) accepted

/-! ## Runs -/

inductive Event (conf : Configure)
  | set (conn : TcpConnectionPtr) (msg : Message.Set) (accepted : Bool)
  | query (conn : TcpConnectionPtr) (msg : Message.Query) (accepted : Bool)
  /-- Something happens to a connection of a Redis server. -/
  | redis (i : Fin conf.poolSize) (e : Hiredis.Event Request)

/-- What an event did: the requests whose command a connection accepted, and
the command callbacks with what they did. -/
structure Effect where
  issued : List Request
  callbacks : List (Upcall Request × List Output)

/-- The requests answered with a reply, and who the reply was sent to. -/
def Effect.replies (effect : Effect) : List (Request × TcpConnectionPtr) :=
  effect.callbacks.flatMap fun (upcall, outputs) => outputs.filterMap fun
    | .send conn _ => some (upcall.command.cb, conn)
    | .shutdown _ => none

/-- Commands are issued by the two requests only. -/
def Enabled (s : ProxyServer conf) : Event conf → Prop
  | .set .. | .query .. => True
  | .redis i e => (s.backend i).Enabled e ∧ ∀ cb text accepted, e ≠ .command cb text accepted

/-- What a request did. -/
def requested (s : ProxyServer conf) (conn : TcpConnectionPtr) (ret : Status) : Effect where
  issued := if ret = .REDIS_OK then [⟨s.requests, conn⟩] else []
  callbacks := []

def exec (charSigned : Bool) (s : ProxyServer conf) : Event conf → Except Fault (ProxyServer conf × Effect)
  | .set conn msg accepted => do
    let (ret, s') ← s.setInLoop charSigned conn msg accepted
    return (s', s.requested conn ret)
  | .query conn msg accepted => do
    let (ret, s') ← s.queryInLoop charSigned conn msg accepted
    return (s', s.requested conn ret)
  | .redis i e => do
    let (redis, upcalls) ← (s.backend i).exec e
    return ({ s with backend := Function.update s.backend i redis },
      { issued := [], callbacks := upcalls.map fun upcall => (upcall, s.commandCallback upcall) })

/-- The runs of a server after `backend_.connect()`. -/
def system (conf : Configure) (charSigned : Bool) : System (ProxyServer conf) (Event conf × Effect) where
  start s := s.clientConns = ∅ ∧ s.requests = 0 ∧ HiredisPool.Connected s.backend
  step s a s' := s.Enabled a.1 ∧ s.exec charSigned a.1 = .ok (s', a.2)

end ProxyServer
end DictionaryServer
