/-
`DispatchServer` (sender/src/frame/DispatchServer.cc): one message to every
peer.

`SendData` puts a message in the queue `datas_`. Threads in `OnMessage` take
messages out and, holding `mutex_`, queue a task for each in every event loop.
A loop runs its tasks in order; a task gives its message to each peer in the
loop's own set `LocalPeers`, which `OnConnection` inserts into. `NewConnection`
gives each peer one loop, its `owner`.

The threads, the loops and the callers of `SendData` and `OnConnection` take
turns in any order; a step here is what one of them does between two points
where another can see a difference. `ThreadInit` has run in every loop.
-/
import DictionaryServer.Lib.System
import DictionaryServer.Sender.Send
import Mathlib.Data.List.Sort

namespace DictionaryServer

open Lib

namespace Sender

/-- Which peer it is; `std::set` orders by it. -/
abbrev PeerPtr := Nat

/-- Which thread it is. -/
abbrev Thread := Nat

/-- Where a thread is in `OnMessage`. -/
inductive Drainer (n : Nat)
  /-- Outside, or at the test of the `while`. -/
  | idle
  /-- In `datas_.take()`. -/
  | taking
  /-- In `OnStringMessage`, before it has the lock. -/
  | waiting (message : Bytes)
  /-- It has the lock, and these loops to go. -/
  | queueing (message : Bytes) (loops : List (Fin n))

/-- An event loop: the tasks queued, the peers the running one still has to
send its message to, and `LocalPeers`. -/
structure EventLoop where
  pendingFunctors : List Bytes
  running : Option (Bytes × List PeerPtr)
  localPeers : List PeerPtr

end Sender

open Sender

/-- A server with `n` event loops. -/
structure DispatchServer (n : Nat) where
  running : Bool
  datas : List Bytes
  mutex : Option Thread
  drainer : Thread → Drainer n
  loop : Fin n → EventLoop

namespace DispatchServer

variable {n : Nat}

def setDrainer (s : DispatchServer n) (t : Thread) (d : Drainer n) : DispatchServer n :=
  { s with drainer := Function.update s.drainer t d }

def setLoop (s : DispatchServer n) (i : Fin n) (loop : EventLoop) : DispatchServer n :=
  { s with loop := Function.update s.loop i loop }

/-- `std::set::insert` -/
def insertPeer (peer : PeerPtr) (peers : List PeerPtr) : List PeerPtr :=
  if peer ∈ peers then peers else peers.orderedInsert (· ≤ ·) peer

inductive Label (n : Nat)
  | Start
  /-- A call of `SendData`, and whether it kept the data. -/
  | SendData (data : Bytes) (accepted : Bool)
  /-- A thread finds `datas_` not empty. -/
  | test (t : Thread)
  | take (t : Thread) (message : Bytes)
  | lock (t : Thread) (message : Bytes)
  | queueInPeer (t : Thread) (i : Fin n) (message : Bytes)
  | unlock (t : Thread)
  | OnConnection (peer : PeerPtr)
  /-- A loop begins its next task, a call of `DistributeMessage`. -/
  | run (i : Fin n) (message : Bytes)
  /-- It gives bytes to a peer. -/
  | Send (peer : PeerPtr) (sent : Bytes)
  | finish (i : Fin n)

inductive Step (owner : PeerPtr → Fin n) (s : DispatchServer n) : Label n → DispatchServer n → Prop
  | Start : Step owner s .Start { s with running := true }
  | SendData {data} :
      Step owner s (.SendData data s.running) { s with datas := if s.running then s.datas ++ [data] else s.datas }
  | test {t} (hidle : s.drainer t = .idle) (hrunning : s.running = true) (hdatas : s.datas ≠ []) :
      Step owner s (.test t) (s.setDrainer t .taking)
  /-- `BlockingQueue::take` waits until there is something. -/
  | take {t message datas} (htaking : s.drainer t = .taking) (hdatas : s.datas = message :: datas) :
      Step owner s (.take t message) ({ s with datas := datas }.setDrainer t (.waiting message))
  | lock {t message} (hwaiting : s.drainer t = .waiting message) (hmutex : s.mutex = none) :
      Step owner s (.lock t message) ({ s with mutex := some t }.setDrainer t (.queueing message (List.finRange n)))
  | queueInPeer {t i message loops} (hqueueing : s.drainer t = .queueing message (i :: loops)) :
      Step owner s (.queueInPeer t i message)
        ((s.setLoop i { s.loop i with pendingFunctors := (s.loop i).pendingFunctors ++ [message] }).setDrainer t
          (.queueing message loops))
  | unlock {t message} (hqueueing : s.drainer t = .queueing message []) :
      Step owner s (.unlock t) ({ s with mutex := none }.setDrainer t .idle)
  /-- It runs in the loop of the peer, so not during a task. -/
  | OnConnection {peer} (hloop : (s.loop (owner peer)).running = none) :
      Step owner s (.OnConnection peer)
        (s.setLoop (owner peer)
          { s.loop (owner peer) with localPeers := insertPeer peer (s.loop (owner peer)).localPeers })
  | run {i message pendingFunctors} (hloop : (s.loop i).running = none)
      (hpending : (s.loop i).pendingFunctors = message :: pendingFunctors) :
      Step owner s (.run i message)
        (s.setLoop i
          { s.loop i with
            pendingFunctors := pendingFunctors
            running := some (message, (s.loop i).localPeers) })
  | Send {i message peer peers sent} (hloop : (s.loop i).running = some (message, peer :: peers))
      (hsent : Sender.Send message = some sent) :
      Step owner s (.Send peer sent) (s.setLoop i { s.loop i with running := some (message, peers) })
  | finish {i message} (hloop : (s.loop i).running = some (message, [])) :
      Step owner s (.finish i) (s.setLoop i { s.loop i with running := none })

/-- A server as its constructor and `ThreadInit` leave it. -/
def system (owner : PeerPtr → Fin n) : System (DispatchServer n) (Label n) where
  start s := s.running = false ∧ s.datas = [] ∧ s.mutex = none ∧ (∀ t, s.drainer t = .idle) ∧
    ∀ i, s.loop i = { pendingFunctors := [], running := none, localPeers := [] }
  step := Step owner

/-! ## What a run did -/

/-- The data `SendData` kept. -/
def accepted (labels : List (Label n)) : List Bytes :=
  labels.filterMap fun
    | .SendData data true => some data
    | _ => none

/-- The messages in the order in which `OnStringMessage` had the lock. -/
def dispatched (labels : List (Label n)) : List Bytes :=
  labels.filterMap fun
    | .lock _ message => some message
    | _ => none

/-- What a peer was given, in order. -/
def sentTo (peer : PeerPtr) (labels : List (Label n)) : List Bytes :=
  labels.filterMap fun
    | .Send peer' sent => if peer' = peer then some sent else none
    | _ => none

end DispatchServer
end DictionaryServer
