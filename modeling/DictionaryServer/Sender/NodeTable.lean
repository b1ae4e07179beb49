/-
When the table of nodes is the tree, and when it is not.

A callback clears the whole table and walks the tree from its own path. So it
leaves the leaves below that path, and those of the rest of the tree are gone.
`nodes_iff`: after the last change the callbacks leave every leaf in the table
exactly when each of them is about a node that all leaves are below.
-/
import DictionaryServer.Lib.Except
import DictionaryServer.Sender.NodeManager

namespace DictionaryServer

open Lib Sender

namespace NodeManager

variable {zk : ZooKeeper} {noData : Bytes} {m m' : NodeManager}

/-- What the table holds for a node. -/
def stored (node : Node) : Node × InetAddress := (node, { ip := node.IP, port := node.Port })

@[simp] theorem StorageNode_nodes (node : Node) (m : NodeManager) :
    (m.StorageNode node).nodes = m.nodes ++ [stored node] := rfl

@[simp] theorem getData_nodes (path : Bytes) (m : NodeManager) : (m.getData zk noData path).2.nodes = m.nodes := by
  unfold getData
  split <;> rfl

@[simp] theorem getChildren_nodes (path : Bytes) (m : NodeManager) : (m.getChildren zk path).2.nodes = m.nodes := by
  unfold getChildren
  split <;> rfl

@[simp] theorem getChildren_renderPath {p : Path} (hp : p ∈ zk.tree.paths) (m : NodeManager) :
    (m.getChildren zk (renderPath slash p)).1 = zk.tree.children p := by
  simp [getChildren, ZooKeeper.resolve_renderPath hp]

theorem makeNode_isSome {path data : Bytes} : (makeNode path data).isSome ↔ colon ∈ data := by
  constructor
  · intro h
    by_contra hnot
    rw [makeNode, List.splitOn_eq_singleton hnot] at h
    cases h
  · intro h
    obtain ⟨info₀, rest, rfl, hinfo⟩ := List.eq_append_cons_of_mem h
    have hsplit := List.splitOn_append_cons_self_of_not_mem hinfo rest
    obtain ⟨info₁, infos, hrest⟩ := List.exists_cons_of_ne_nil (List.splitOn_ne_nil colon rest)
    rw [makeNode, hsplit, hrest]
    rfl

theorem makeNode_ip {path data : Bytes} {node : Node} (h : makeNode path data = some node) : node.IP = path := by
  unfold makeNode at h
  split at h
  · cases h
    rfl
  · cases h

/-- What a walk stores for a leaf of the tree. -/
def leafEntry (zk : ZooKeeper) (p : Path) : Option (Node × InetAddress) :=
  (zk.tree.get? p).bind fun node => (makeNode (renderPath slash p) node.data).map stored

theorem leafEntry_isSome {p : Path} (hp : p ∈ zk.tree.paths) :
    (leafEntry zk p).isSome ↔ ∀ node ∈ zk.tree.get? p, colon ∈ node.data := by
  obtain ⟨node, hnode⟩ := Option.isSome_iff_exists.mp (zk.tree.get?_isSome.mpr hp)
  simp [leafEntry, hnode, makeNode_isSome]

theorem leafEntry_ip {p : Path} {entry : Node × InetAddress} (h : leafEntry zk p = some entry) :
    entry.1.IP = renderPath slash p := by
  rw [leafEntry, Option.bind_eq_some_iff] at h
  obtain ⟨node, -, hentry⟩ := h
  obtain ⟨stored, hstored, rfl⟩ := Option.map_eq_some_iff.mp hentry
  exact makeNode_ip hstored

/-! ## A walk -/

theorem visit_unresolved {path : Bytes} (h : zk.resolve path = none) (depth : Nat) (m : NodeManager) :
    visit zk noData (depth + 1) path m = (makeNode path noData).map fun node => m.StorageNode node := by
  simp [visit, getData, getChildren, h]

/-- A visit of a node: what the watches are is left open. -/
theorem visit_node (noData : Bytes) {p : Path} {node : ZNode} (hp : p ∈ zk.tree.paths) (hnode : zk.tree.get? p = some node)
    (depth : Nat) (m : NodeManager) : ∃ m₁, m₁.nodes = m.nodes ∧
      visit zk noData (depth + 1) (renderPath slash p) m =
        if zk.tree.IsLeaf p then (makeNode (renderPath slash p) node.data).map fun node => m₁.StorageNode node
        else (zk.tree.children p).foldlM
          (fun m child => visit zk noData depth (renderPath slash p ++ slash :: child) m) m₁ := by
  have hdata : (m.getData zk noData (renderPath slash p)).1 = node.data := by
    simp [getData, ZooKeeper.resolve_renderPath hp, hnode]
  refine ⟨((m.getData zk noData (renderPath slash p)).2.getChildren zk (renderPath slash p)).2, by simp, ?_⟩
  rw [visit]
  simp only [hdata, getChildren_renderPath hp]
  rfl

/-- The walk writes the path of a child of the root with two slashes. -/
theorem resolve_rootChild (zk : ZooKeeper) (c : Bytes) : zk.resolve (renderPath slash [] ++ slash :: c) = none := by
  simp [renderPath, ZooKeeper.resolve, parsePath_doubled]

/-- What a walk from a root with children does: it visits texts that find no node. -/
theorem GetIleafNodes_root (noData : Bytes) (hinner : ¬zk.tree.IsLeaf []) (m : NodeManager) :
    ∃ depth m₁ c cs, GetIleafNodes zk noData (renderPath slash []) m = (c :: cs).foldlM
      (fun m child => visit zk noData (depth + 1) (renderPath slash [] ++ slash :: child) m) m₁ := by
  obtain ⟨c, cs, hcs⟩ := List.exists_cons_of_ne_nil hinner
  obtain ⟨node, hnode⟩ := Option.isSome_iff_exists.mp (zk.tree.get?_isSome.mpr zk.root)
  obtain ⟨depth, hdepth⟩ : ∃ depth, zk.tree.height = depth + 1 := by
    have hc : [] ++ [c] ∈ zk.tree.paths := zk.tree.mem_children.mp (hcs ▸ List.mem_cons_self)
    exact Nat.exists_eq_succ_of_ne_zero (Nat.ne_of_gt (zk.tree.length_le_height hc))
  obtain ⟨m₁, -, hloop⟩ := visit_node noData zk.root hnode zk.tree.height m
  refine ⟨depth, m₁, c, cs, ?_⟩
  rw [GetIleafNodes, hloop, if_neg hinner, hcs, hdepth]

/-- **A walk stores what the abstract walk meets**, or an assertion fails. -/
theorem visit_nodes {depth : Nat} {p : Path} (hp : p ∈ zk.tree.paths) (hroot : p = [] → zk.tree.IsLeaf p)
    (hdepth : zk.tree.height < depth + p.length) (m : NodeManager) :
    (visit zk noData depth (renderPath slash p) m).map nodes =
      ((zk.tree.traverse depth p).mapM (leafEntry zk)).map (m.nodes ++ ·) := by
  induction depth generalizing p m with
  | zero => exact absurd (zk.tree.length_le_height hp) (by omega)
  | succ depth ih =>
    obtain ⟨node, hnode⟩ := Option.isSome_iff_exists.mp (zk.tree.get?_isSome.mpr hp)
    obtain ⟨m₁, hm₁, hvisit⟩ := visit_node noData hp hnode depth m
    rw [hvisit, Hierarchy.traverse, ← hm₁]
    by_cases hleaf : zk.tree.IsLeaf p
    · rw [if_pos hleaf, if_pos hleaf]
      cases hmake : makeNode (renderPath slash p) node.data <;> simp [leafEntry, hnode, hmake]
    · rw [if_neg hleaf, if_neg hleaf]
      have hne : p ≠ [] := fun h => hleaf (hroot h)
      have hcs : ∀ c ∈ zk.tree.children p, p ++ [c] ∈ zk.tree.paths := fun c hc => zk.tree.mem_children.mp hc
      -- The loop over the children: the induction is on those that are left.
      generalize zk.tree.children p = cs at hcs
      clear hvisit hm₁
      induction cs generalizing m₁ with
      | nil => simp
      | cons c cs ihcs =>
        have hfirst := ih (hcs c List.mem_cons_self) (by simp) (by simp; omega) m₁
        rw [renderPath_child hne] at hfirst
        rw [List.foldlM_cons, List.flatMap_cons, List.mapM_append]
        rcases hvisit : visit zk noData depth (renderPath slash p ++ slash :: c) m₁ with _ | m₂
        · rw [hvisit, Option.map_none, eq_comm, Option.map_eq_none_iff] at hfirst
          simp [hfirst]
        · rw [hvisit, Option.map_some, eq_comm, Option.map_eq_some_iff] at hfirst
          obtain ⟨entries, hentries, hnodes⟩ := hfirst
          have hrest := ihcs m₂ fun c' hc' => hcs c' (List.mem_cons_of_mem c hc')
          cases hmapped : (cs.flatMap fun c => zk.tree.traverse depth (p ++ [c])).mapM (leafEntry zk) <;>
            simp [hentries, hrest, hmapped, ← hnodes]

/-- The leaves, in the order of the walk. -/
theorem traverse_perm {p : Path} (hp : p ∈ zk.tree.paths) :
    (zk.tree.traverse (zk.tree.height + 1) p).Perm (zk.tree.leaves p) :=
  zk.tree.traverse_perm hp (by omega)

theorem GetIleafNodes_nodes (noData : Bytes) {p : Path} (hp : p ∈ zk.tree.paths) (hroot : p = [] → zk.tree.IsLeaf p)
    (hm : m.nodes = []) : (GetIleafNodes zk noData (renderPath slash p) m).map nodes =
      (zk.tree.traverse (zk.tree.height + 1) p).mapM (leafEntry zk) := by
  rw [GetIleafNodes, visit_nodes hp hroot (by omega), hm]
  simp

/-- **The rule for walks**: what each visit keeps is kept, `P` holding of the
paths that are visited. -/
theorem visit_keeps {P : Bytes → Prop} {I : NodeManager → Prop}
    (hP : ∀ path p c, P path → zk.resolve path = some p → c ∈ zk.tree.children p → P (path ++ slash :: c))
    (hdata : ∀ path m, P path → I m → I (m.getData zk noData path).2)
    (hchildren : ∀ path m, P path → I m → I (m.getChildren zk path).2)
    (hstore : ∀ path data node m, P path → makeNode path data = some node → I m → I (m.StorageNode node))
    {depth : Nat} {path : Bytes} (hpath : P path) (hm : I m) (h : visit zk noData depth path m = some m') : I m' := by
  induction depth generalizing path m m' with
  | zero => cases h
  | succ depth ih =>
    rw [visit] at h
    have hboth := hchildren path _ hpath (hdata path m hpath hm)
    obtain ⟨m₁, hm₁⟩ : ∃ m₁, m₁ = ((m.getData zk noData path).2.getChildren zk path).2 := ⟨_, rfl⟩
    simp only [← hm₁] at h hboth
    split at h
    · obtain ⟨node, hnode, rfl⟩ := Option.map_eq_some_iff.mp h
      exact hstore path _ node _ hpath hnode hboth
    · have hcs : ∀ c ∈ ((m.getData zk noData path).2.getChildren zk path).1, P (path ++ slash :: c) := by
        intro c hc
        rcases hresolve : zk.resolve path with _ | p
        · simp [getChildren, hresolve] at hc
        · simp only [getChildren, hresolve] at hc
          exact hP path p c hpath hresolve hc
      exact foldlM_keeps (fun c hc m₁ m₂ hm₁ hm₂ => ih (hcs c hc) hm₁ hm₂) hboth h

theorem visit_grows {depth : Nat} {path : Bytes} {entry : Node × InetAddress} (hentry : entry ∈ m.nodes)
    (h : visit zk noData depth path m = some m') : entry ∈ m'.nodes := by
  refine visit_keeps (P := fun _ => True) (I := fun m => entry ∈ m.nodes) ?_ ?_ ?_ ?_ trivial hentry h
  · intros
    trivial
  · intro path m _ hm
    simpa using hm
  · intro path m _ hm
    simpa using hm
  · intro path data node m _ _ hm
    simp [hm]

theorem callback_nodes (zk : ZooKeeper) (noData : Bytes) (e : Event) (m : NodeManager) : (e.callback zk noData m).map nodes =
    (GetIleafNodes zk noData e.path { m with nodes := [] }).map nodes := by
  cases e with
  | data path =>
    rcases hm : GetIleafNodes zk noData path { m with nodes := [] } with _ | m₁
    · simp [Event.callback, Event.path, DataWatcher, hm]
    · simp only [Event.callback, Event.path, DataWatcher, hm, Option.map_some]
      split <;> simp
  | children path =>
    rcases hm : GetIleafNodes zk noData path { m with nodes := [] } with _ | m₁ <;>
      simp [Event.callback, Event.path, ChildrenWatcher, hm]

/-! ## Where a walk finds every leaf -/

/-- The path of a node that is or was below `root`. -/
def Under (root : Path) (path : Bytes) : Prop := ∃ p, parsePath slash path = some p ∧ root <+: p

/-- The table is the tree below `root`: an entry for every leaf, and no other. -/
def IsTree (zk : ZooKeeper) (root : Path) (entries : List (Node × InetAddress)) : Prop :=
  (entries.map some).Perm ((zk.tree.leaves root).map (leafEntry zk))

/-- A path that all leaves below `root` are below, and where the walk gets
through: every leaf has an ip and a port, and a child of `/` none of the path
the walk gives it. -/
def SeesAll (zk : ZooKeeper) (root : Path) (path : Bytes) : Prop :=
  ∃ p ∈ zk.tree.paths, path = renderPath slash p ∧ (p = [] → zk.tree.IsLeaf p) ∧
    (∀ q ∈ zk.tree.leaves p, ∀ node ∈ zk.tree.get? q, colon ∈ node.data) ∧ ∀ q ∈ zk.tree.leaves root, p <+: q

theorem IsTree.resolves {root : Path} {entries : List (Node × InetAddress)} (h : IsTree zk root entries)
    {entry : Node × InetAddress} (hentry : entry ∈ entries) :
    ∃ q ∈ zk.tree.paths, entry.1.IP = renderPath slash q := by
  have hmem := h.mem_iff.mp (List.mem_map_of_mem hentry)
  obtain ⟨q, hq, hsome⟩ := List.mem_map.mp hmem
  exact ⟨q, (zk.tree.mem_leaves.mp hq).1, leafEntry_ip hsome⟩

/-- What has no node is taken for a leaf, which the tree has not. -/
theorem not_isTree_of_unresolved {root : Path} {path : Bytes} (hpath : zk.resolve path = none) {depth : Nat}
    {m m₁ : NodeManager} (hvisit : visit zk noData (depth + 1) path m = some m₁) {entries : List (Node × InetAddress)}
    (hgrows : ∀ entry ∈ m₁.nodes, entry ∈ entries) : ¬IsTree zk root entries := by
  intro htree
  rw [visit_unresolved hpath] at hvisit
  obtain ⟨node, hnode, rfl⟩ := Option.map_eq_some_iff.mp hvisit
  obtain ⟨q, hq, hip⟩ := htree.resolves (hgrows (stored node) (by simp))
  have hq' := ZooKeeper.resolve_renderPath hq
  rw [← hip, stored, makeNode_ip hnode, hpath] at hq'
  cases hq'

theorem not_isTree_of_root {root : Path} (hinner : ¬zk.tree.IsLeaf [])
    (hvisit : GetIleafNodes zk noData (renderPath slash []) m = some m') : ¬IsTree zk root m'.nodes := by
  obtain ⟨depth, m₁, c, cs, hloop⟩ := GetIleafNodes_root noData hinner m
  rw [hloop, List.foldlM_cons, Option.bind_eq_bind, Option.bind_eq_some_iff] at hvisit
  obtain ⟨m₂, hfirst, hrest⟩ := hvisit
  refine not_isTree_of_unresolved (resolve_rootChild zk c) hfirst ?_
  intro entry hentry
  exact foldlM_keeps (I := fun m => entry ∈ m.nodes) (fun _ _ _ _ => visit_grows) hentry hrest

/-- **A walk leaves the tree in the table exactly from a path that sees all of it.** -/
theorem isTree_iff (noData : Bytes) {root : Path} {path : Bytes} (hpath : Under root path) (hm : m.nodes = []) :
    (∃ m', GetIleafNodes zk noData path m = some m' ∧ IsTree zk root m'.nodes) ↔ SeesAll zk root path := by
  obtain ⟨p, hparse, hroot⟩ := hpath
  obtain ⟨rfl, hnames⟩ := parsePath_eq_some.mp hparse
  constructor
  · intro h
    obtain ⟨m', hvisit, htree⟩ := h
    -- The path has a node: otherwise it would be in the table itself.
    have hp : p ∈ zk.tree.paths := by
      by_contra hp
      have hnone : zk.resolve (renderPath slash p) = none := by simp [ZooKeeper.resolve, hparse, hp]
      exact not_isTree_of_unresolved hnone hvisit (fun _ h => h) htree
    have hleaf : p = [] → zk.tree.IsLeaf p := by
      intro hnil
      by_contra hinner
      exact not_isTree_of_root (hnil ▸ hinner) (hnil ▸ hvisit) htree
    have hnodes := GetIleafNodes_nodes noData hp hleaf hm
    rw [hvisit, Option.map_some, eq_comm, mapM_eq_some] at hnodes
    have hperm := (traverse_perm hp).map (leafEntry zk)
    rw [hnodes] at hperm
    refine ⟨p, hp, rfl, hleaf, ?_, ?_⟩
    · intro q hq
      rw [← leafEntry_isSome (zk.tree.mem_leaves.mp hq).1]
      obtain ⟨entry, -, hentry⟩ := List.mem_map.mp (hperm.mem_iff.mpr (List.mem_map_of_mem hq))
      rw [← hentry]
      rfl
    · -- As many leaves from here as from the root: they are the same.
      have hlength : (zk.tree.leaves p).length = (zk.tree.leaves root).length := by
        simpa using (hperm.symm.trans htree).length_eq
      have hsame := (zk.tree.leaves_sublist hroot).eq_of_length hlength
      intro q hq
      rw [← hsame] at hq
      exact (zk.tree.mem_leaves.mp hq).2.1
  · intro h
    obtain ⟨p', hp, hpath, hleaf, hdata, hbelow⟩ := h
    obtain rfl := renderPath_inj hnames (zk.names p' hp) hpath
    have hnodes := GetIleafNodes_nodes noData hp hleaf hm
    obtain ⟨entries, hentries⟩ := exists_mapM (f := leafEntry zk) fun q hq => by
      have hq' := (traverse_perm hp).mem_iff.mp hq
      exact (leafEntry_isSome (zk.tree.mem_leaves.mp hq').1).mpr (hdata q hq')
    rw [hentries, Option.map_eq_some_iff] at hnodes
    obtain ⟨m', hvisit, rfl⟩ := hnodes
    refine ⟨m', hvisit, ?_⟩
    have hperm := (traverse_perm hp).map (leafEntry zk)
    rwa [mapM_eq_some.mp hentries, zk.tree.leaves_eq hroot hbelow] at hperm

theorem callback_isTree_iff (noData : Bytes) {root : Path} {e : Event} (he : Under root e.path) (m : NodeManager) :
    (∃ m', e.callback zk noData m = some m' ∧ IsTree zk root m'.nodes) ↔ SeesAll zk root e.path := by
  rw [← isTree_iff noData he (m := { m with nodes := [] }) rfl]
  have hnodes := callback_nodes zk noData e m
  cases hcallback : e.callback zk noData m <;> cases hvisit : GetIleafNodes zk noData e.path { m with nodes := [] } <;>
    simp_all

/-! ## Where the watches are -/

structure WatchesUnder (root : Path) (m : NodeManager) : Prop where
  data : ∀ path ∈ m.dataWatches, Under root path
  children : ∀ path ∈ m.childrenWatches, Under root path

variable {root : Path} {path : Bytes}

theorem under_of_resolve {p : Path} (h : zk.resolve path = some p) (hroot : root <+: p) : Under root path := by
  obtain ⟨rfl, hp⟩ := ZooKeeper.resolve_eq_some.mp h
  exact ⟨p, parsePath_renderPath (zk.names p hp), hroot⟩

theorem Under.insert {paths : List Bytes} (hpath : Under root path) (h : ∀ p ∈ paths, Under root p) :
    ∀ p ∈ paths.insert path, Under root p := by
  intro p hp
  rcases List.mem_insert_iff.mp hp with rfl | hp
  · exact hpath
  · exact h p hp

theorem WatchesUnder.getData (hpath : ∀ p, zk.resolve path = some p → root <+: p) (h : WatchesUnder root m) :
    WatchesUnder root (m.getData zk noData path).2 := by
  unfold NodeManager.getData
  split
  · next node hnode =>
    obtain ⟨p, hp, -⟩ := Option.bind_eq_some_iff.mp hnode
    exact ⟨(under_of_resolve hp (hpath p hp)).insert h.data, h.children⟩
  · exact h

theorem WatchesUnder.getChildren (hpath : ∀ p, zk.resolve path = some p → root <+: p) (h : WatchesUnder root m) :
    WatchesUnder root (m.getChildren zk path).2 := by
  unfold NodeManager.getChildren
  split
  · next p hp => exact ⟨h.data, (under_of_resolve hp (hpath p hp)).insert h.children⟩
  · exact h

theorem WatchesUnder.of_watched {e : Event} (h : WatchesUnder root m) (he : e.Watched m) : Under root e.path := by
  cases e with
  | data path => exact h.data path he
  | children path => exact h.children path he

theorem WatchesUnder.unwatch (e : Event) (h : WatchesUnder root m) : WatchesUnder root (e.unwatch m) := by
  cases e with
  | data path => exact ⟨fun p hp => h.data p (List.mem_of_mem_filter hp), h.children⟩
  | children path => exact ⟨h.data, fun p hp => h.children p (List.mem_of_mem_filter hp)⟩

theorem WatchesUnder.GetIleafNodes (hpath : ∀ p, zk.resolve path = some p → root <+: p) (h : WatchesUnder root m)
    (hvisit : m.GetIleafNodes zk noData path = some m') : WatchesUnder root m' := by
  refine visit_keeps (P := fun path => ∀ p, zk.resolve path = some p → root <+: p) ?_ ?_ ?_ ?_ hpath h hvisit
  · intro path p c hpath hp hc p' hp'
    obtain ⟨rfl, hmem⟩ := ZooKeeper.resolve_eq_some.mp hp
    by_cases hnil : p = []
    · simp [hnil, renderPath, ZooKeeper.resolve, parsePath_doubled] at hp'
    · rw [← renderPath_child hnil, ZooKeeper.resolve_renderPath (zk.tree.mem_children.mp hc)] at hp'
      cases hp'
      exact (hpath p hp).trans (List.prefix_append p [c])
  · exact fun path m hpath hm => hm.getData hpath
  · exact fun path m hpath hm => hm.getChildren hpath
  · exact fun path data node m _ _ hm => ⟨hm.data, hm.children⟩

theorem WatchesUnder.callback {e : Event} (hpath : Under root e.path) (h : WatchesUnder root m)
    (hm : e.callback zk noData m = some m') : WatchesUnder root m' := by
  have hpath' : ∀ p, zk.resolve e.path = some p → root <+: p := by
    intro p hp
    obtain ⟨p', hp', hroot⟩ := hpath
    obtain ⟨hrender, hmem⟩ := ZooKeeper.resolve_eq_some.mp hp
    rw [hrender, parsePath_renderPath (zk.names p hmem)] at hp'
    cases hp'
    exact hroot
  have hcleared : WatchesUnder root { m with nodes := [] } := ⟨h.data, h.children⟩
  cases e with
  | data path =>
    simp only [Event.callback, DataWatcher, Option.bind_eq_bind, Option.bind_eq_some_iff, Option.pure_def] at hm
    obtain ⟨m₁, hvisit, hm⟩ := hm
    have h₁ := hcleared.GetIleafNodes hpath' hvisit
    split at hm
    · cases hm
      exact h₁.getData hpath'
    · cases hm
      exact h₁
  | children path =>
    simp only [Event.callback, ChildrenWatcher, Option.bind_eq_bind, Option.bind_eq_some_iff, Option.pure_def] at hm
    obtain ⟨m₁, hvisit, hm⟩ := hm
    cases hm
    exact (hcleared.GetIleafNodes hpath' hvisit).getChildren hpath'

end NodeManager

namespace Sender.NodeTable

open NodeManager

variable {noData : Bytes} {root : Path} {w w' : NodeTable}

/-- Every watch, set or fired, is below the root of the table. -/
structure Watching (root : Path) (w : NodeTable) : Prop where
  manager : WatchesUnder root w.manager
  pending : ∀ e ∈ w.pending, Under root e.path

theorem Watching.fire (h : Watching root w) (e : Event) : Watching root (w.fire e) := by
  unfold NodeTable.fire
  split
  · next hwatched =>
    refine ⟨h.manager.unwatch e, ?_⟩
    intro e' he'
    rcases List.mem_append.mp he' with he' | he'
    · exact h.pending e' he'
    · rw [List.mem_singleton.mp he']
      exact h.manager.of_watched hwatched
  · exact h

theorem Watching.step {l : Label} (h : Watching root w) (hs : Step noData w l w') : Watching root w' := by
  cases hs with
  | @change c zk hc =>
    have hzk : Watching root { w with zk := zk } := ⟨h.manager, h.pending⟩
    generalize { w with zk := zk } = w₁ at hzk
    induction c.events generalizing w₁ with
    | nil => exact hzk
    | cons e es ih => exact ih (w₁.fire e) (hzk.fire e)
  | @callback e es m hrunning hpending hm =>
    have hunder : Under root e.path := h.pending e (hpending ▸ List.mem_cons_self)
    exact ⟨h.manager.callback hunder hm, fun e' he' => h.pending e' (hpending ▸ List.mem_cons_of_mem e he')⟩
  | @abort e es hrunning hpending hm =>
    exact ⟨h.manager, fun e' he' => h.pending e' (hpending ▸ List.mem_cons_of_mem e he')⟩

theorem watching_reachable (h : (system noData root).Reachable w) : Watching root w := by
  refine System.Invariant.reachable (S := system noData root) ⟨?_, fun s a t => Watching.step⟩ h
  intro w hstart
  obtain ⟨hroot, hvisit, hpending, -⟩ := hstart
  refine ⟨?_, fun e he => by simp [hpending] at he⟩
  refine WatchesUnder.GetIleafNodes ?_ ⟨by simp [create], by simp [create]⟩ hvisit
  intro p hp
  rw [ZooKeeper.resolve_renderPath hroot] at hp
  cases hp
  exact List.prefix_rfl

/-- What a callback has to leave: the process running, and the tree in the table. -/
def Right (root : Path) (_ : NodeTable) (_ : Event) (w' : NodeTable) : Prop :=
  w'.aborted = false ∧ IsTree w'.zk root w'.manager.nodes

/-- Where one does. -/
def Met (root : Path) (w : NodeTable) (e : Event) (_ : NodeTable) : Prop := SeesAll w.zk root e.path

/-- **A callback does right exactly where it sees all.** -/
theorem right_iff {e : Event} (hw : Watching root w) (hs : Step noData w (.callback e) w') :
    Right root w e w' ↔ Met root w e w' := by
  cases hs with
  | @callback e es m hrunning hpending hm =>
    have he : Under root e.path := hw.pending e (hpending ▸ List.mem_cons_self)
    rw [Met, ← callback_isTree_iff noData he w.manager, hm]
    simp [Right, hrunning]
  | @abort e es hrunning hpending hm =>
    have he : Under root e.path := hw.pending e (hpending ▸ List.mem_cons_self)
    rw [Met, ← callback_isTree_iff noData he w.manager, hm]
    simp [Right]

/-- Only callbacks, each with `C`: what follows the last change. -/
def Callbacks (C : NodeTable → Event → NodeTable → Prop) (w : NodeTable) : Label → NodeTable → Prop
  | .change _, _ => False
  | .callback e, w' => C w e w'

/-- **After the last change every callback leaves the tree in the table exactly
if every one is about a path that sees all of it.** -/
theorem nodes_iff {labels : List Label} (hw : (system noData root).Reachable w) :
    ((system noData root).restrict (Callbacks (Right root))).Run w labels w' ↔
      ((system noData root).restrict (Callbacks (Met root))).Run w labels w' := by
  refine System.restrict_congr_of (I := Watching root) (fun _ _ _ => Watching.step) ?_ (watching_reachable hw)
  intro w l w' hw hs
  cases l with
  | change c => exact Iff.rfl
  | callback e => exact right_iff hw hs

/-- The first callback that is on its way comes next, whatever it does. -/
theorem exists_callback (noData : Bytes) {e : Event} {es : List Event} (hrunning : w.aborted = false) (hpending : w.pending = e :: es) :
    ∃ w', Step noData w (.callback e) w' := by
  rcases hm : e.callback w.zk noData w.manager with _ | m
  · exact ⟨_, .abort hrunning hpending hm⟩
  · exact ⟨_, .callback hrunning hpending hm⟩

/-- New data for a node that a walk has visited. -/
theorem reachable_setData {zk zk' : ZooKeeper} {m : NodeManager} {p : Path} {data : Bytes}
    (hroot : root ∈ zk.tree.paths) (hm : NodeManager.create.GetIleafNodes zk noData (renderPath slash root) = some m)
    (hp : renderPath slash p ∈ m.dataWatches) (hset : zk.setData p data = some zk') :
    ∃ m', (system noData root).Reachable
      { zk := zk', manager := m', pending := [.data (renderPath slash p)], aborted := false } := by
  have hstart : (system noData root).start { zk := zk, manager := m, pending := [], aborted := false } :=
    ⟨hroot, hm, rfl, rfl⟩
  have hstep := (System.Reachable.of_start hstart).step (.change (c := .setData p data) hset)
  have hwatched : Event.Watched m (.data (renderPath slash p)) := hp
  simp only [Change.events, List.foldl_cons, List.foldl_nil, NodeTable.fire, if_pos hwatched] at hstep
  exact ⟨_, hstep⟩

def dictRoot : Path := [ofText "dict"]

def senderPath (name : String) : Path := [ofText "dict", ofText name]

/-- `/dict`, and under it senders with these names. -/
def dictOf (names : List String) : Option ZooKeeper := do
  let zk ← ZooKeeper.empty.create dictRoot { data := [], ephemeralOwner := none }
  names.foldlM (fun zk name => zk.create (senderPath name) { data := ofText "1.2.3.4:80", ephemeralOwner := none }) zk

def setSender (zk : ZooKeeper) : Option ZooKeeper := zk.setData (senderPath "a") (ofText "1.2.3.4:81")

def oneSender : ZooKeeper := (dictOf ["a"]).get (by decide +kernel)
def twoSenders : ZooKeeper := (dictOf ["a", "b"]).get (by decide +kernel)
def oneSenderSet : ZooKeeper := (setSender oneSender).get (by decide +kernel)
def twoSendersSet : ZooKeeper := (setSender twoSenders).get (by decide +kernel)

/-- The walk from `/dict` gets through, and watches the data of `/dict/a`. -/
abbrev Watches (zk : ZooKeeper) : Prop :=
  ∃ m ∈ NodeManager.create.GetIleafNodes zk [] (renderPath slash dictRoot), renderPath slash (senderPath "a") ∈ m.dataWatches

/-- Data set at `/dict/a`: the callback that comes of it. -/
theorem exists_setSender (zk zk' : ZooKeeper) (hroot : dictRoot ∈ zk.tree.paths) (hwatches : Watches zk)
    (hset : setSender zk = some zk') : ∃ w w' e, (system [] dictRoot).Reachable w ∧ w.zk = zk' ∧
      e.path = renderPath slash (senderPath "a") ∧ Step [] w (.callback e) w' := by
  obtain ⟨m, hm, hp⟩ := hwatches
  obtain ⟨m', hreach⟩ := reachable_setData hroot hm hp hset
  obtain ⟨w', hs⟩ := exists_callback []
    (w := { zk := zk', manager := m', pending := [.data (renderPath slash (senderPath "a"))], aborted := false }) rfl rfl
  exact ⟨_, w', _, hreach, rfl, rfl, hs⟩

/-- One sender: it is the whole tree. -/
theorem nodes_iff_one : ∃ w e w', (system [] dictRoot).Reachable w ∧
    ((system [] dictRoot).restrict (Callbacks (Right dictRoot))).Run w [.callback e] w' := by
  obtain ⟨w, w', e, hw, hzk, he, hs⟩ := exists_setSender oneSender oneSenderSet
    (by decide +kernel) (by decide +kernel) (by simp [oneSenderSet])
  refine ⟨w, e, w', hw, (nodes_iff hw).mpr (System.Run.single ⟨hs, ?_⟩)⟩
  change SeesAll w.zk dictRoot e.path
  rw [hzk, he]
  exact ⟨senderPath "a", by decide +kernel, rfl, by decide +kernel, by decide +kernel, by decide +kernel⟩

/-- **Two senders**: when one changes, the other is lost. -/
theorem nodes_lost : ∃ w e w', (system [] dictRoot).Reachable w ∧ (system [] dictRoot).step w (.callback e) w' ∧
    ¬Right dictRoot w e w' := by
  obtain ⟨w, w', e, hw, hzk, he, hs⟩ := exists_setSender twoSenders twoSendersSet
    (by decide +kernel) (by decide +kernel) (by simp [twoSendersSet])
  refine ⟨w, e, w', hw, hs, ?_⟩
  rw [right_iff (watching_reachable hw) hs, Met, hzk, he]
  intro hall
  obtain ⟨p, hp, hpath, -, -, hbelow⟩ := hall
  obtain rfl := renderPath_inj (by decide +kernel) (twoSendersSet.names p hp) hpath
  exact absurd (hbelow (senderPath "b") (by decide +kernel)) (by decide +kernel)

end Sender.NodeTable
end DictionaryServer
