/-
What a walk tells of the servers that registered.

A registration makes a node beside the directory, not in it, so the walk does
not come to it. And what a walk stores has the path of the node as its ip,
`info[0]` as its name and `info[1]` as its path. `not_discovered`: whatever is
registered, the walk does not give it back.
-/
import DictionaryServer.ConservatorHandler
import DictionaryServer.Sender.NodeTable

namespace DictionaryServer

open Lib Sender ConservatorHandler

/-- A call of `Register`: who makes it, and the number ZooKeeper chose. -/
structure Registration where
  session : Nat
  number : Nat
  ip : Bytes
  port : Bytes
  deriving DecidableEq

namespace Registration

/-- Neither text holds a colon or a slash. -/
def Plain (reg : Registration) : Prop := (colon ∉ reg.ip ∧ slash ∉ reg.ip) ∧ colon ∉ reg.port ∧ slash ∉ reg.port

instance (reg : Registration) : Decidable reg.Plain := inferInstanceAs (Decidable (_ ∧ _))

/-- Successful calls, one after another. -/
def registerAll (zk : ZooKeeper) (path : Bytes) (regs : List Registration) : Option ZooKeeper :=
  regs.foldlM (fun zk reg => Register zk reg.session reg.number path reg.ip reg.port) zk

/-- The entry tells of the registration: its ip, its port, and a path that is a child of `p`. -/
def ToldBy (p : Path) (reg : Registration) (entry : Node × InetAddress) : Prop :=
  entry.1.IP = reg.ip ∧ entry.1.Port = reg.port ∧
    ∃ child, IsName slash child ∧ entry.1.ZkPath = renderPath slash (p ++ [child])

/-- A walk from `p` stores an entry for every registration, and no other. -/
def Discovered (zk : ZooKeeper) (noData : Bytes) (m : NodeManager) (p : Path) (regs : List Registration) : Prop :=
  ∃ m' stored, m.GetIleafNodes zk noData (renderPath slash p) = some m' ∧ m'.nodes = m.nodes ++ stored ∧
    ∃ entries, entries.Perm stored ∧ List.Forall₂ (ToldBy p) regs entries

variable {zk zk' : ZooKeeper} {noData : Bytes} {p : Path}

/-- The ip of what a walk stores is a path. -/
theorem slash_mem_ip {depth : Nat} {path : Bytes} {m m' : NodeManager} (hpath : slash ∈ path)
    (h : m.visit zk noData depth path = some m') :
    ∃ stored, m'.nodes = m.nodes ++ stored ∧ ∀ entry ∈ stored, slash ∈ entry.1.IP := by
  refine NodeManager.visit_keeps (P := fun path => slash ∈ path)
    (I := fun m₁ => ∃ stored, m₁.nodes = m.nodes ++ stored ∧ ∀ entry ∈ stored, slash ∈ entry.1.IP)
    ?_ ?_ ?_ ?_ hpath ⟨[], by simp⟩ h
  · intro path p c hpath _ _
    exact List.mem_append_left _ hpath
  · intro path m₁ _ hm₁
    simpa using hm₁
  · intro path m₁ _ hm₁
    simpa using hm₁
  · intro path data node m₁ hpath hnode hm₁
    obtain ⟨stored, hstored, hip⟩ := hm₁
    refine ⟨stored ++ [NodeManager.stored node], by simp [hstored], ?_⟩
    intro entry hentry
    rcases List.mem_append.mp hentry with hentry | hentry
    · exact hip entry hentry
    · rw [List.mem_singleton.mp hentry, NodeManager.stored, NodeManager.makeNode_ip hnode]
      exact hpath

/-- With no registration the directory itself is stored. -/
theorem not_discovered_nil (hp : p ∈ zk.tree.paths) (hleaf : zk.tree.IsLeaf p) (m : NodeManager) :
    ¬Discovered zk noData m p [] := by
  intro h
  obtain ⟨m', stored, hvisit, hstored, entries, hperm, hall⟩ := h
  rw [List.forall₂_nil_left_iff.mp hall, List.nil_perm] at hperm
  rw [hperm, List.append_nil] at hstored
  obtain ⟨node, hnode⟩ := Option.isSome_iff_exists.mp (zk.tree.get?_isSome.mpr hp)
  obtain ⟨m₁, hm₁, hfirst⟩ := NodeManager.visit_node noData hp hnode zk.tree.height m
  rw [NodeManager.GetIleafNodes, hfirst, if_pos hleaf] at hvisit
  obtain ⟨entry, -, rfl⟩ := Option.map_eq_some_iff.mp hvisit
  simp [hm₁] at hstored

/-- **No walk discovers what was registered.** -/
theorem not_discovered {regs : List Registration} (hp : p ∈ zk.tree.paths) (hleaf : zk.tree.IsLeaf p)
    (hplain : ∀ reg ∈ regs, reg.Plain) (h : registerAll zk (renderPath slash p) regs = some zk') (noData : Bytes)
    (m : NodeManager) : ¬Discovered zk' noData m p regs := by
  cases regs with
  | nil =>
    cases h
    exact not_discovered_nil hp hleaf m
  | cons reg regs =>
    intro hdiscovered
    obtain ⟨m', stored, hvisit, hstored, entries, hperm, hall⟩ := hdiscovered
    obtain ⟨entry, entries, htold, -, rfl⟩ := List.forall₂_cons_left_iff.mp hall
    obtain ⟨stored', hstored', hip⟩ := slash_mem_ip (mem_renderPath p) hvisit
    have hsame := List.append_cancel_left (hstored.symm.trans hstored')
    have hslash := hip entry (hsame ▸ hperm.mem_iff.mp List.mem_cons_self)
    rw [htold.1] at hslash
    exact (hplain reg List.mem_cons_self).1.2 hslash

def senderDir : Path := [ofText "dict", ofText "sender"]

/-- `/dict/sender`, with this data. -/
def directory (data : Bytes) : Option ZooKeeper := do
  let zk ← ZooKeeper.empty.create [ofText "dict"] { data := [], ephemeralOwner := none }
  zk.create senderDir { data := data, ephemeralOwner := none }

def emptyDir : ZooKeeper := (directory []).get (by decide +kernel)
def addressedDir : ZooKeeper := (directory (ofText "a:b")).get (by decide +kernel)

def oneServer : Registration := { session := 1, number := 0, ip := ofText "1.2.3.4", port := ofText "80" }

/-- A directory whose own data have two fields: it is taken for a server. -/
theorem not_discovered_one : ∃ zk', registerAll addressedDir (renderPath slash senderDir) [oneServer] = some zk' ∧
    ¬Discovered zk' [] .create senderDir [oneServer] := by
  obtain ⟨zk', hzk'⟩ : ∃ zk', registerAll addressedDir (renderPath slash senderDir) [oneServer] = some zk' :=
    Option.isSome_iff_exists.mp (by decide +kernel)
  exact ⟨zk', hzk', not_discovered (by decide +kernel) (by decide +kernel) (by decide +kernel) hzk' [] .create⟩

/-- A directory without data: the server is there, beside it, and the walk aborts. -/
theorem discovery_aborts : senderDir ∈ emptyDir.tree.paths ∧ emptyDir.tree.IsLeaf senderDir ∧ oneServer.Plain ∧
    ∃ zk', registerAll emptyDir (renderPath slash senderDir) [oneServer] = some zk' ∧
      [ofText "dict", ofText "sendernode:0000000000"] ∈ zk'.tree.paths ∧
      ¬Discovered zk' [] .create senderDir [oneServer] := by
  refine ⟨by decide +kernel, by decide +kernel, by decide +kernel, ?_⟩
  obtain ⟨zk', hzk'⟩ : ∃ zk', registerAll emptyDir (renderPath slash senderDir) [oneServer] = some zk' :=
    Option.isSome_iff_exists.mp (by decide +kernel)
  have hthere : ∀ zk' ∈ registerAll emptyDir (renderPath slash senderDir) [oneServer],
      [ofText "dict", ofText "sendernode:0000000000"] ∈ zk'.tree.paths ∧
        NodeManager.create.GetIleafNodes zk' [] (renderPath slash senderDir) = none := by decide +kernel
  obtain ⟨hmem, hnone⟩ := hthere zk' hzk'
  refine ⟨zk', hzk', hmem, ?_⟩
  intro h
  obtain ⟨m', stored, hvisit, -⟩ := h
  rw [hnone] at hvisit
  cases hvisit

end Registration
end DictionaryServer
