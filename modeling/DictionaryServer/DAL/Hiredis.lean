/-
`db::Hiredis` (DAL/Hiredis.h, DAL/Hiredis.cc): the connections to one Redis
server.

A `ServerConn*` is the index of an allocation. Beside its own fields a
`ServerConn` carries what hiredis knows of its `redisAsyncContext`: whether it
is connected, and the accepted commands whose callbacks have not run. What
hiredis decides is a parameter of the operation: how a connection attempt
ends, whether `redisvAsyncCommand` accepts, what a reply is. A failed
assertion or a call through a null channel is a `Fault`.

A channel is only removed in its own `handleEvent`, and is destroyed there
(`removeChannel`). With muduo's assertions that is a `Fault` too, and then no
connection ever comes up (`HiredisChannels`). So a server that runs is built
without them (`system`); what it does to a destroyed channel is on record as
`misused`.

`κ` is what identifies a command: the user callback bound in its `privdata`.
-/
import DictionaryServer.Lib.Bytes
import DictionaryServer.Lib.System
import Std.Data.ExtTreeMap

namespace DictionaryServer

open Lib

/-- `redisReply`, by the types `redisReplyToString` names. -/
inductive RedisReply
  | string (str : Bytes)
  | array (element : List RedisReply)
  | integer (integer : Int64)
  | nil
  | status (str : Bytes)
  | error (str : Bytes)

inductive Status
  | REDIS_OK
  | REDIS_ERR
  deriving DecidableEq, Repr

/-- What stops the process. -/
inductive Fault
  | assertion (text : String)
  | nullChannel
  deriving DecidableEq, Repr

/-- How muduo is built: with its assertions, or without (`-DNDEBUG`). -/
inductive Muduo
  | Debug
  | Release
  deriving DecidableEq, Repr

/-- `genUniqueConId` -/
def genUniqueConId (serverId conId : Int32) : Int64 := (serverId.toInt64 <<< 32) ||| conId.toInt64

/-- How far hiredis is with a context. -/
inductive Link
  | connecting
  | connected
  | freed
  deriving DecidableEq, Repr

/-- An accepted command: its text and the user callback. -/
structure Command (κ : Type) where
  text : Bytes
  cb : κ

structure ServerConn (κ : Type) where
  connId : Int32
  /-- `scon->channel` is set. -/
  channel : Bool
  link : Link
  /-- The callbacks hiredis owes, in order. -/
  replies : List (Command κ)
  /-- A channel of this connection was destroyed in its own `handleEvent`. -/
  misused : Bool

/-- A call of a user callback. -/
structure Upcall (κ : Type) where
  command : Command κ
  reply : Option RedisReply
  uniqueConId : Int64

structure Hiredis (κ : Type) where
  muduo : Muduo
  serverId : Int32
  nconns : Int32
  allocated : Nat
  sconns : Nat → ServerConn κ
  inactiveConns : Std.ExtTreeMap Int32 Nat
  activeFreeConns : Std.ExtTreeMap Int32 Nat
  activeBusyConn : Std.ExtTreeMap Int32 Nat

namespace Hiredis

variable {κ : Type}

/-- The constructor, and `setServerId`. -/
def create (serverId nconns : Int32) : Hiredis κ where
  muduo := .Release
  serverId := serverId
  nconns := nconns
  allocated := 0
  sconns _ := { connId := -1, channel := false, link := .connecting, replies := [], misused := false }
  inactiveConns := ∅
  activeFreeConns := ∅
  activeBusyConn := ∅

/-- The same with either build of muduo. -/
def createIn (muduo : Muduo) (serverId nconns : Int32) : Hiredis κ := { create serverId nconns with muduo := muduo }

def setScon (h : Hiredis κ) (p : Nat) (scon : ServerConn κ) : Hiredis κ :=
  { h with sconns := Function.update h.sconns p scon }

def connected (h : Hiredis κ) : Bool := !(h.activeBusyConn.isEmpty && h.activeFreeConns.isEmpty)

def setChannel (h : Hiredis κ) (p : Nat) : Except Fault (Hiredis κ) :=
  let scon := h.sconns p
  if scon.channel then .error (.assertion "!scon->channel")
  else .ok (h.setScon p { scon with channel := true })

/-- What is queued to keep the channel holds `channel_`, which nothing sets, so
`reset` destroys it. Its `handleEvent` is running: only callbacks of the channel
come here. `~Channel` asserts that it is not, and without assertions
`handleEventWithGuard` writes to the channel when the callback returns. -/
def removeChannel (h : Hiredis κ) (p : Nat) : Except Fault (Hiredis κ) :=
  let scon := h.sconns p
  if scon.channel then
    match h.muduo with
    | .Debug => .error (.assertion "!eventHandling_")
    | .Release => .ok (h.setScon p { scon with channel := false, misused := true })
  else .error .nullChannel

/-- `addRead`, `delRead`, `addWrite` and `delWrite` all go through the channel. -/
def useChannel (h : Hiredis κ) (p : Nat) : Except Fault Unit :=
  if (h.sconns p).channel then .ok () else .error .nullChannel

/-! ## Connecting -/

/-- The body of the loop in `connect`. -/
def connectOne (h : Hiredis κ) (i : Int32) : Except Fault (Hiredis κ) := do
  let p := h.allocated
  let scon : ServerConn κ := { connId := i, channel := false, link := .connecting, replies := [], misused := false }
  let h := { h with allocated := p + 1 }.setScon p scon
  let h ← h.setChannel p
  -- `redisAsyncSetConnectCallback` asks for the first write event.
  h.useChannel p
  return { h with inactiveConns := h.inactiveConns.insert i p }

def connectLoop (h : Hiredis κ) : List Int32 → Except Fault (Hiredis κ)
  | [] => .ok h
  | i :: is => do
    let h ← h.connectOne i
    h.connectLoop is

/-- The connection ids, `0` to `nconns - 1`. -/
def ids (nconns : Int32) : List Int32 := (List.range nconns.toInt.toNat).map Int32.ofNat

def connect (h : Hiredis κ) : Except Fault (Hiredis κ) :=
  if h.inactiveConns.isEmpty then h.connectLoop (ids h.nconns)
  else .error (.assertion "inactiveConns_.empty()")

def userConnectCallback (h : Hiredis κ) (p : Nat) (status : Status) : Except Fault (Hiredis κ) :=
  if status ≠ .REDIS_OK then .ok h
  else
    let scon := h.sconns p
    match h.inactiveConns[scon.connId]? with
    | none => .error (.assertion "it != inactiveConns_.end()")
    | some q =>
      { h with
        activeFreeConns := h.activeFreeConns.insert scon.connId q
        inactiveConns := h.inactiveConns.erase scon.connId }.setChannel p

/-- hiredis on a writable socket. `outcome` is how a pending attempt to
connect ends; `none` is that it does not yet. -/
def redisAsyncHandleWrite (h : Hiredis κ) (p : Nat) (outcome : Option Status) : Except Fault (Hiredis κ) :=
  let scon := h.sconns p
  match scon.link, outcome with
  | .connecting, some .REDIS_OK => do
    let h ← (h.setScon p { scon with link := .connected }).userConnectCallback p .REDIS_OK
    h.useChannel p
    return h
  | .connecting, some .REDIS_ERR => do
    let h ← h.userConnectCallback p .REDIS_ERR
    return h.setScon p { h.sconns p with link := .freed }
  | .connecting, none => .ok h
  | .connected, _ => do
    h.useChannel p
    return h
  | .freed, _ => .ok h

def handleWrite (h : Hiredis κ) (p : Nat) (outcome : Option Status) : Except Fault (Hiredis κ) := do
  let h ← if (h.sconns p).link = .connected then pure h else h.removeChannel p
  h.redisAsyncHandleWrite p outcome

/-! ## Commands -/

/-- hiredis takes the command, or returns `REDIS_ERR`. -/
def redisvAsyncCommand (h : Hiredis κ) (p : Nat) (cb : κ) (text : Bytes) (accepted : Bool) :
    Except Fault (Status × Hiredis κ) :=
  let scon := h.sconns p
  if accepted then do
    h.useChannel p
    return (.REDIS_OK, h.setScon p { scon with replies := scon.replies ++ [⟨text, cb⟩] })
  else .ok (.REDIS_ERR, h)

/-- `command`: what it returns, what it leaves in `*connId`, and the object. -/
def command (h : Hiredis κ) (connId : Int32) (cb : κ) (text : Bytes) (accepted : Bool) :
    Except Fault (Status × Int32 × Hiredis κ) :=
  if !h.connected then .ok (.REDIS_ERR, connId, h)
  else
    match h.activeFreeConns.toList.head? with
    | some (i, p) => do
      let scon := h.sconns p
      let h :=
        { h with
          activeFreeConns := h.activeFreeConns.erase i
          activeBusyConn := h.activeBusyConn.insert scon.connId p }
      let (ret, h) ← h.redisvAsyncCommand p cb text accepted
      return (ret, scon.connId, h)
    | none => .ok (.REDIS_ERR, -1, h)

/-- The user callback runs first; it does not touch this object. -/
def commandCallback (h : Hiredis κ) (p : Nat) (c : Command κ) (reply : Option RedisReply) :
    Except Fault (Hiredis κ × Upcall κ) :=
  let scon := h.sconns p
  match h.activeBusyConn[scon.connId]? with
  | none => .error (.assertion "it != activeBusyConn_.end()")
  | some q =>
    if h.activeFreeConns.contains scon.connId then
      .error (.assertion "activeFreeConns_.find(it->first) == activeFreeConns_.end()")
    else
      .ok
        ({ h with
            activeFreeConns := h.activeFreeConns.insert scon.connId q
            activeBusyConn := h.activeBusyConn.erase scon.connId },
          ⟨c, reply, genUniqueConId h.serverId scon.connId⟩)

/-- hiredis has read a reply: it takes the oldest callback and runs it. -/
def handleReply (h : Hiredis κ) (p : Nat) (reply : Option RedisReply) : Except Fault (Hiredis κ × List (Upcall κ)) :=
  let scon := h.sconns p
  match scon.replies with
  | [] => .ok (h, [])
  | c :: replies => do
    let (h, upcall) ← (h.setScon p { scon with replies := replies }).commandCallback p c reply
    return (h, [upcall])

/-! ## Disconnecting -/

def userDisconnectCallback (h : Hiredis κ) (p : Nat) : Except Fault (Hiredis κ) := do
  let h ← h.removeChannel p
  let scon := h.sconns p
  match h.activeBusyConn[scon.connId]? with
  | none => .error (.assertion "it != activeBusyConn_.end()")
  | some q =>
    if h.inactiveConns.contains scon.connId then
      .error (.assertion "inactiveConns_.find(it->first) == inactiveConns_.end()")
    else
      .ok
        { h with
          inactiveConns := h.inactiveConns.insert scon.connId q
          activeBusyConn := h.activeBusyConn.erase scon.connId }

/-- The callbacks of outstanding commands, with a NULL reply. -/
def nullReplies (h : Hiredis κ) (p : Nat) : List (Command κ) → Except Fault (Hiredis κ × List (Upcall κ))
  | [] => .ok (h, [])
  | c :: replies => do
    let (h, upcall) ← h.commandCallback p c none
    let (h, upcalls) ← h.nullReplies p replies
    return (h, upcall :: upcalls)

/-- hiredis has lost the connection: it runs the outstanding callbacks, then
the disconnect callback, and frees the context. -/
def handleDisconnect (h : Hiredis κ) (p : Nat) : Except Fault (Hiredis κ × List (Upcall κ)) := do
  let scon := h.sconns p
  let (h, upcalls) ← (h.setScon p { scon with replies := [] }).nullReplies p scon.replies
  let h ← h.userDisconnectCallback p
  return (h.setScon p { h.sconns p with link := .freed }, upcalls)

/-! ## Runs -/

inductive Event (κ : Type)
  | write (p : Nat) (outcome : Option Status)
  | command (cb : κ) (text : Bytes) (accepted : Bool)
  | reply (p : Nat) (reply : Option RedisReply)
  | disconnect (p : Nat)

/-- What hiredis and the event loop can call: a channel that is set has write
events, an accepted command is answered once, and only a connection that is
up is lost. -/
def Enabled (h : Hiredis κ) : Event κ → Prop
  | .write p _ => p < h.allocated ∧ (h.sconns p).channel = true ∧ (h.sconns p).link ≠ .freed
  | .command .. => True
  | .reply p _ => p < h.allocated ∧ (h.sconns p).link = .connected ∧ (h.sconns p).replies ≠ []
  | .disconnect p => p < h.allocated ∧ (h.sconns p).link = .connected

def exec (h : Hiredis κ) : Event κ → Except Fault (Hiredis κ × List (Upcall κ))
  | .write p outcome => do
    let h ← h.handleWrite p outcome
    return (h, [])
  | .command cb text accepted => do
    let (_, _, h) ← h.command (-1) cb text accepted
    return (h, [])
  | .reply p reply => h.handleReply p reply
  | .disconnect p => h.handleDisconnect p

/-- The runs of one object after `connect`. -/
def system (serverId nconns : Int32) : System (Hiredis κ) (Event κ × List (Upcall κ)) where
  start h := (create serverId nconns).connect = .ok h
  step h a h' := h.Enabled a.1 ∧ h.exec a.1 = .ok (h', a.2)

/-- The same with either build of muduo. -/
def systemIn (muduo : Muduo) (serverId nconns : Int32) : System (Hiredis κ) (Event κ × List (Upcall κ)) where
  start h := (createIn muduo serverId nconns).connect = .ok h
  step h a h' := h.Enabled a.1 ∧ h.exec a.1 = .ok (h', a.2)

end Hiredis
end DictionaryServer
