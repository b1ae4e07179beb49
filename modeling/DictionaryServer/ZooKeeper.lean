/-
ZooKeeper as its clients meet it: a tree of nodes with data, changed by its
clients one operation at a time.

The rules are ZooKeeper's: a node is created under one that is there, a node
with children is not deleted, and an ephemeral node has none. A client gives a
path as text. Text that is no path, or the path of no node, finds nothing.
-/
import DictionaryServer.Lib.Bytes
import DictionaryServer.Lib.Hierarchy
import DictionaryServer.Lib.Paths

namespace DictionaryServer

open Lib

def slash : UInt8 := 47

/-- The names of a path. -/
abbrev Path := List Bytes

/-- A node's data, and the session it ends with if it is ephemeral. -/
structure ZNode where
  data : Bytes
  ephemeralOwner : Option Nat
  deriving DecidableEq

structure ZooKeeper where
  tree : Hierarchy Bytes ZNode
  root : [] ∈ tree.paths
  names : ∀ p ∈ tree.paths, ∀ n ∈ p, IsName slash n
  ephemeral : ∀ node ∈ tree.nodes, node.2.ephemeralOwner.isSome → tree.IsLeaf node.1

namespace ZooKeeper

variable (zk : ZooKeeper)

def create (path : Path) (node : ZNode) : Option ZooKeeper :=
  if h : path ∉ zk.tree.paths ∧ path.dropLast ∈ zk.tree.paths ∧ (∀ n ∈ path, IsName slash n) ∧
      ∀ parent ∈ zk.tree.nodes, parent.1 = path.dropLast → parent.2.ephemeralOwner = none then
    some
      { tree := zk.tree.insert path node h.1 h.2.1
        root := by simp [zk.root]
        names := by
          intro p hp
          rw [Hierarchy.paths_insert, List.mem_append, List.mem_singleton] at hp
          rcases hp with hp | rfl
          · exact zk.names p hp
          · exact h.2.2.1
        ephemeral := by
          intro old hold howner
          rw [Hierarchy.isLeaf_iff, Hierarchy.paths_insert]
          intro n hn
          rw [List.mem_append, List.mem_singleton] at hn
          rcases List.mem_append.mp hold with hold | hold
          · rcases hn with hn | hn
            · exact Hierarchy.isLeaf_iff _ |>.mp (zk.ephemeral old hold howner) n hn
            · have hnone := h.2.2.2 old hold (by simp [← hn])
              rw [hnone] at howner
              cases howner
          · rw [List.mem_singleton.mp hold] at hn
            rcases hn with hn | hn
            · exact h.1 (zk.tree.closed _ _ hn)
            · simp at hn }
  else none

def delete (path : Path) : Option ZooKeeper :=
  if h : path ≠ [] ∧ path ∈ zk.tree.paths ∧ zk.tree.IsLeaf path then
    some
      { tree := zk.tree.erase path h.2.2
        root := (zk.tree.mem_paths_erase h.2.2).mpr ⟨zk.root, Ne.symm h.1⟩
        names := fun p hp => zk.names p ((zk.tree.mem_paths_erase h.2.2).mp hp).1
        ephemeral := by
          intro node hnode howner
          have hleaf := zk.ephemeral node (List.mem_of_mem_filter hnode) howner
          rw [Hierarchy.isLeaf_iff] at hleaf ⊢
          exact fun n hn => hleaf n ((zk.tree.mem_paths_erase h.2.2).mp hn).1 }
  else none

def setData (path : Path) (data : Bytes) : Option ZooKeeper :=
  if path ∈ zk.tree.paths then
    some
      { tree := zk.tree.modify path fun node => { node with data := data }
        root := by simp [zk.root]
        names := by simpa using zk.names
        ephemeral := by
          intro node hnode howner
          obtain ⟨old, hold, rfl⟩ := List.mem_map.mp hnode
          have hleaf := zk.ephemeral old hold (by split at howner <;> exact howner)
          rw [Hierarchy.isLeaf_iff] at hleaf ⊢
          simpa using hleaf }
  else none

/-- A session ends, and the nodes it owns are deleted. The root is no session's. -/
def expire (session : Nat) : ZooKeeper where
  tree := zk.tree.prune (fun node => node.1 ≠ [] ∧ node.2.ephemeralOwner = some session) fun node hnode hdrop =>
    zk.ephemeral node hnode (by simp at hdrop; simp [hdrop.2])
  root := by
    obtain ⟨node, hnode, hroot⟩ := List.mem_map.mp zk.root
    rw [Hierarchy.mem_paths_prune]
    exact ⟨node.2, by simpa [← hroot] using hnode, by simp⟩
  names p hp := by
    obtain ⟨node, hnode, -⟩ := (zk.tree.mem_paths_prune _).mp hp
    exact zk.names p (List.mem_map_of_mem hnode)
  ephemeral node hnode howner := by
    have hleaf := zk.ephemeral node (List.mem_of_mem_filter hnode) howner
    rw [Hierarchy.isLeaf_iff] at hleaf ⊢
    intro n hn
    obtain ⟨d, hd, -⟩ := (zk.tree.mem_paths_prune _).mp hn
    exact hleaf n (List.mem_map_of_mem hd)

/-- A tree with nothing but its root. -/
def empty : ZooKeeper where
  tree := { nodes := [([], { data := [], ephemeralOwner := none })], nodup := by simp, closed := by simp }
  root := by simp [Hierarchy.paths]
  names := by simp [Hierarchy.paths]
  ephemeral := by simp

/-- The node a client means by a text. -/
def resolve (path : Bytes) : Option Path := (parsePath slash path).filter (· ∈ zk.tree.paths)

def ZOK : Int := 0
def ZNONODE : Int := -101

/-- `checkExists()->forPath(path)`. -/
def checkExists (path : Bytes) : Int := if (zk.resolve path).isSome then ZOK else ZNONODE

/-- `create()->forPath(path)`, or nothing if it does not give `ZOK`. -/
def createPath (path : Bytes) (node : ZNode) : Option ZooKeeper :=
  (parsePath slash path).bind fun p => zk.create p node

variable {zk}

theorem resolve_eq_some {path : Bytes} {p : Path} :
    zk.resolve path = some p ↔ path = renderPath slash p ∧ p ∈ zk.tree.paths := by
  rw [resolve, Option.filter_eq_some_iff, parsePath_eq_some, decide_eq_true_eq]
  exact ⟨fun h => ⟨h.1.1, h.2⟩, fun h => ⟨⟨h.1, zk.names p h.2⟩, h.2⟩⟩

theorem resolve_renderPath {p : Path} (hp : p ∈ zk.tree.paths) : zk.resolve (renderPath slash p) = some p :=
  resolve_eq_some.mpr ⟨rfl, hp⟩

theorem checkExists_eq_ok {p : Path} (hp : p ∈ zk.tree.paths) : zk.checkExists (renderPath slash p) = ZOK := by
  simp [checkExists, resolve_renderPath hp]

theorem checkExists_eq_ok_iff {path : Bytes} : zk.checkExists path = ZOK ↔ ∃ p, zk.resolve path = some p := by
  rw [← Option.isSome_iff_exists]
  unfold checkExists
  split
  · simp [*]
  · simp [*, ZNONODE, ZOK]

theorem createPath_root (node : ZNode) : zk.createPath [slash] node = none := by
  have hparse : parsePath slash [slash] = some [] := parsePath_renderPath (p := ([] : Path)) (by simp)
  rw [createPath, hparse, Option.bind_some, create, dif_neg]
  simp [zk.root]

/-- A text that starts with two slashes is no path. -/
theorem createPath_doubled (text : Bytes) (node : ZNode) : zk.createPath (slash :: slash :: text) node = none := by
  rw [createPath, parsePath_doubled, Option.bind_none]

theorem create_nodes {zk' : ZooKeeper} {p : Path} {node : ZNode} (h : zk.create p node = some zk') :
    zk'.tree.nodes = zk.tree.nodes ++ [(p, node)] := by
  unfold create at h
  split at h
  · cases h
    rfl
  · cases h

theorem create_paths {zk' : ZooKeeper} {p : Path} {node : ZNode} (h : zk.create p node = some zk') :
    zk'.tree.paths = zk.tree.paths ++ [p] := by
  simp [Hierarchy.paths, create_nodes h]

end ZooKeeper
end DictionaryServer
