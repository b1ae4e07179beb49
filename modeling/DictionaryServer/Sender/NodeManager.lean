/-
`NodeManager` (sender/src/frame/NodeManager.cc): a table of the nodes in
ZooKeeper that have no children, kept up by watches.

`GetIleafNodes` walks the tree from a path down, sets a watch on what it
visits and stores what has no children. A watch fires once. Its callback
clears the table, walks the tree again from its own path, and sets the watch
again.

`noData` is what the client library's `getData` gives for a path without a
node. Its `getChildren` gives none there, and a watch is set on a node only.
-/
import DictionaryServer.Lib.System
import DictionaryServer.ZooKeeper

namespace DictionaryServer

open Lib

namespace Sender

/-- The fields in the order of the constructor's parameters. -/
structure Node where
  name : Bytes
  path : Bytes
  ip : Bytes
  port : Bytes
  deriving DecidableEq

namespace Node

def IP (node : Node) : Bytes := node.ip
def Port (node : Node) : Bytes := node.port
def Name (node : Node) : Bytes := node.name
def ZkPath (node : Node) : Bytes := node.path

end Node

structure InetAddress where
  ip : Bytes
  port : Bytes
  deriving DecidableEq

def colon : UInt8 := 58

end Sender

open Sender

structure NodeManager where
  nodes : List (Node × InetAddress)
  /-- The paths the session has a watch on. -/
  dataWatches : List Bytes
  childrenWatches : List Bytes
  deriving DecidableEq

namespace NodeManager

def create : NodeManager := { nodes := [], dataWatches := [], childrenWatches := [] }

def StorageNode (node : Node) (m : NodeManager) : NodeManager :=
  { m with nodes := m.nodes ++ [(node, { ip := node.IP, port := node.Port })] }

variable (zk : ZooKeeper) (noData : Bytes)

/-- `getData()->withWatcher(..)->forPath(path)`. -/
def getData (path : Bytes) (m : NodeManager) : Bytes × NodeManager :=
  match (zk.resolve path).bind zk.tree.get? with
  | some node => (node.data, { m with dataWatches := m.dataWatches.insert path })
  | none => (noData, m)

/-- `getChildren()->withWatcher(..)->forPath(path)`. -/
def getChildren (path : Bytes) (m : NodeManager) : List Bytes × NodeManager :=
  match zk.resolve path with
  | some p => (zk.tree.children p, { m with childrenWatches := m.childrenWatches.insert path })
  | none => ([], m)

/-- `make_shared(info[0], info[1], path)`: the constructor takes the name, the
path and the ip first. The assertion wants two fields. -/
def makeNode (path data : Bytes) : Option Node :=
  match data.splitOn colon with
  | info₀ :: info₁ :: _ => some (.mk info₀ info₁ path [])
  | _ => none

/-- `GetIleafNodes`, to some depth. Where an assertion fails there is no result. -/
def visit : Nat → Bytes → NodeManager → Option NodeManager
  | 0, _, _ => none
  | depth + 1, path, m =>
    let (data, m) := m.getData zk noData path
    let (children, m) := m.getChildren zk path
    if children = [] then (makeNode path data).map fun node => m.StorageNode node
    else children.foldlM (fun m child => visit depth (path ++ slash :: child) m) m

/-- No path of a node has more names than the tree is high. -/
def GetIleafNodes (path : Bytes) (m : NodeManager) : Option NodeManager := visit zk noData (zk.tree.height + 1) path m

def DataWatcher (path : Bytes) (m : NodeManager) : Option NodeManager := do
  let m ← GetIleafNodes zk noData path { m with nodes := [] }
  -- `ZOK` is zero: the watch is asked for where there is no node.
  return if zk.checkExists path ≠ 0 then (m.getData zk noData path).2 else m

def ChildrenWatcher (path : Bytes) (m : NodeManager) : Option NodeManager := do
  let m ← GetIleafNodes zk noData path { m with nodes := [] }
  return (m.getChildren zk path).2

end NodeManager

/-! ## Changes and callbacks -/

namespace Sender

/-- What a watch tells of: the data at a path, or its children. -/
inductive Event
  | data (path : Bytes)
  | children (path : Bytes)
  deriving DecidableEq

/-- What some client of ZooKeeper does. A session that expires deletes its nodes. -/
inductive Change
  | create (path : Path) (node : ZNode)
  | delete (path : Path)
  | setData (path : Path) (data : Bytes)

namespace Change

def apply (zk : ZooKeeper) : Change → Option ZooKeeper
  | .create path node => zk.create path node
  | .delete path => zk.delete path
  | .setData path data => zk.setData path data

/-- The watches a change can fire. -/
def events : Change → List Event
  | .create path _ => [.children (renderPath slash path.dropLast)]
  | .delete path =>
    [.data (renderPath slash path), .children (renderPath slash path), .children (renderPath slash path.dropLast)]
  | .setData path _ => [.data (renderPath slash path)]

end Change

namespace Event

def path : Event → Bytes
  | .data path | .children path => path

def Watched (m : NodeManager) : Event → Prop
  | .data path => path ∈ m.dataWatches
  | .children path => path ∈ m.childrenWatches

instance (m : NodeManager) : (e : Event) → Decidable (e.Watched m)
  | .data _ => inferInstanceAs (Decidable (_ ∈ _))
  | .children _ => inferInstanceAs (Decidable (_ ∈ _))

def unwatch (m : NodeManager) : Event → NodeManager
  | .data path => { m with dataWatches := m.dataWatches.filter (· ≠ path) }
  | .children path => { m with childrenWatches := m.childrenWatches.filter (· ≠ path) }

def callback (zk : ZooKeeper) (noData : Bytes) (m : NodeManager) : Event → Option NodeManager
  | .data path => m.DataWatcher zk noData path
  | .children path => m.ChildrenWatcher zk noData path

end Event

/-- The tree, the table, and the callbacks that are on their way. -/
structure NodeTable where
  zk : ZooKeeper
  manager : NodeManager
  pending : List Event
  aborted : Bool

namespace NodeTable

/-- One event reaches the session. -/
def fire (w : NodeTable) (e : Event) : NodeTable :=
  if e.Watched w.manager then { w with manager := e.unwatch w.manager, pending := w.pending ++ [e] } else w

inductive Label
  | change (change : Change)
  | callback (event : Event)

inductive Step (noData : Bytes) (w : NodeTable) : Label → NodeTable → Prop
  | change {c zk} (hc : c.apply w.zk = some zk) : Step noData w (.change c) (c.events.foldl fire { w with zk := zk })
  | callback {e es m} (hrunning : w.aborted = false) (hpending : w.pending = e :: es)
      (hm : e.callback w.zk noData w.manager = some m) :
      Step noData w (.callback e) { w with manager := m, pending := es }
  | abort {e es} (hrunning : w.aborted = false) (hpending : w.pending = e :: es)
      (hm : e.callback w.zk noData w.manager = none) :
      Step noData w (.callback e) { w with pending := es, aborted := true }

/-- A walk from `root` down has filled the table. -/
def system (noData : Bytes) (root : Path) : System NodeTable Label where
  start w := root ∈ w.zk.tree.paths ∧
    NodeManager.create.GetIleafNodes w.zk noData (renderPath slash root) = some w.manager ∧
    w.pending = [] ∧ w.aborted = false
  step := Step noData

end NodeTable
end Sender
end DictionaryServer
