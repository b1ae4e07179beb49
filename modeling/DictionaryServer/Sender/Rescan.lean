/-
Walks after sessions have ended.

A walk takes every node without children for a registered one and asserts
that its data have an address. So a directory whose last node went with its
session stops the next walk that comes to it, and so does a callback about a
node that is gone. Over registrations and expiries the callbacks get through
exactly where every node without children that they come to is registered
(`rescan_iff`).
-/
import DictionaryServer.Sender.Registration

namespace DictionaryServer

open Lib Sender

/-! ## What a walk needs -/

/-- Every node without children that a walk from a text comes to is `Good`.
Where there is no node the walk goes by `noData`, as it does for the children
of the root, whose paths it writes with two slashes. -/
def LeavesFrom (zk : ZooKeeper) (noData : Bytes) (Good : ZNode → Prop) (path : Bytes) : Prop :=
  match zk.resolve path with
  | none => colon ∈ noData
  | some p =>
    (p = [] → ¬zk.tree.IsLeaf p → colon ∈ noData) ∧
      ((p = [] → zk.tree.IsLeaf p) → ∀ q ∈ zk.tree.leaves p, ∀ node ∈ zk.tree.get? q, Good node)

namespace NodeManager

variable {zk : ZooKeeper} {noData : Bytes}

/-- A walk from the root takes its children for leaves without a node. -/
theorem GetIleafNodes_root_isSome (hinner : ¬zk.tree.IsLeaf []) (m : NodeManager) :
    (GetIleafNodes zk noData (renderPath slash []) m).isSome ↔ colon ∈ noData := by
  have hchild : ∀ depth c m, (visit zk noData (depth + 1) (renderPath slash [] ++ slash :: c) m).isSome ↔ colon ∈ noData := by
    intro depth c m
    rw [visit_unresolved (resolve_rootChild zk c), Option.isSome_map, makeNode_isSome]
  obtain ⟨depth, m₁, c, cs, hloop⟩ := GetIleafNodes_root noData hinner m
  rw [hloop]
  constructor
  · intro h
    rw [List.foldlM_cons, Option.bind_eq_bind] at h
    obtain ⟨m₂, hm₂⟩ := Option.isSome_iff_exists.mp h
    obtain ⟨m₃, hfirst, -⟩ := Option.bind_eq_some_iff.mp hm₂
    exact (hchild depth c m₁).mp (by simp [hfirst])
  · intro h
    exact foldlM_isSome (fun c _ m => (hchild depth c m).mpr h) m₁

/-- **A walk gets through** exactly where all leaves it comes to have an address. -/
theorem GetIleafNodes_isSome (noData path : Bytes) (m : NodeManager) :
    (GetIleafNodes zk noData path m).isSome ↔ LeavesFrom zk noData (fun node => colon ∈ node.data) path := by
  unfold LeavesFrom
  split
  · next hnone => rw [GetIleafNodes, visit_unresolved hnone, Option.isSome_map, makeNode_isSome]
  · next p hresolve =>
    obtain ⟨rfl, hp⟩ := ZooKeeper.resolve_eq_some.mp hresolve
    by_cases hroot : p = [] → zk.tree.IsLeaf p
    · have hdepth : zk.tree.height < zk.tree.height + 1 + p.length := by omega
      have hnodes : ((visit zk noData (zk.tree.height + 1) (renderPath slash p) m).map nodes).isSome =
          (((zk.tree.traverse (zk.tree.height + 1) p).mapM (leafEntry zk)).map (m.nodes ++ ·)).isSome :=
        congrArg Option.isSome (visit_nodes hp hroot hdepth m)
      rw [Option.isSome_map, Option.isSome_map] at hnodes
      have hleaves : (GetIleafNodes zk noData (renderPath slash p) m).isSome ↔
          ∀ q ∈ zk.tree.leaves p, (leafEntry zk q).isSome := by
        rw [GetIleafNodes, hnodes, mapM_isSome]
        exact forall_congr' fun q => by rw [(traverse_perm hp).mem_iff]
      rw [hleaves]
      constructor
      · intro h
        refine ⟨fun hnil hinner => absurd (hroot hnil) hinner, fun _ q hq => ?_⟩
        exact (leafEntry_isSome (zk.tree.mem_leaves.mp hq).1).mp (h q hq)
      · intro h q hq
        exact (leafEntry_isSome (zk.tree.mem_leaves.mp hq).1).mpr (h.2 hroot q hq)
    · obtain ⟨rfl, hinner⟩ := Classical.not_imp.mp hroot
      simp [GetIleafNodes_root_isSome hinner, hinner]

theorem callback_isSome (zk : ZooKeeper) (noData : Bytes) (e : Event) (m : NodeManager) :
    (e.callback zk noData m).isSome ↔ LeavesFrom zk noData (fun node => colon ∈ node.data) e.path := by
  have hnodes := congrArg Option.isSome (callback_nodes zk noData e m)
  rw [Option.isSome_map, Option.isSome_map] at hnodes
  rw [hnodes, GetIleafNodes_isSome]

end NodeManager

/-! ## Trees of directories and registered nodes -/

/-- A node some session owns. -/
def ZNode.Registered (node : ZNode) : Prop := node.ephemeralOwner.isSome

instance (node : ZNode) : Decidable node.Registered := inferInstanceAs (Decidable (_ = true))

/-- Directories are persistent and have no address in their data; a registered
node has one. -/
structure Layout (zk : ZooKeeper) : Prop where
  directory : ∀ node ∈ zk.tree.nodes, ¬node.2.Registered → colon ∉ node.2.data
  registered : ∀ node ∈ zk.tree.nodes, node.2.Registered → ∃ ip port, node.2.data = ip ++ colon :: port

variable {zk zk' : ZooKeeper} {noData : Bytes}

theorem Layout.colon_iff (h : Layout zk) {q : Path} {node : ZNode} (hnode : zk.tree.get? q = some node) :
    colon ∈ node.data ↔ node.Registered := by
  have hmem := zk.tree.mem_nodes_of_get? hnode
  constructor
  · intro hcolon
    by_contra hnot
    exact h.directory _ hmem hnot hcolon
  · intro hregistered
    obtain ⟨ip, port, hdata⟩ : ∃ ip port, node.data = ip ++ colon :: port := h.registered _ hmem hregistered
    simp [hdata]

/-- In such a tree the leaves with an address are the registered ones. -/
theorem Layout.leavesFrom_iff (h : Layout zk) (path : Bytes) :
    LeavesFrom zk noData (fun node => colon ∈ node.data) path ↔ LeavesFrom zk noData ZNode.Registered path := by
  unfold LeavesFrom
  split
  · rfl
  · refine and_congr_right fun _ => imp_congr_right fun _ => ?_
    refine forall_congr' fun q => imp_congr_right fun _ => ?_
    exact forall_congr' fun node => imp_congr_right fun hnode => h.colon_iff hnode

theorem Layout.create (h : Layout zk) {q : Path} {node : ZNode} {ip port : Bytes} (hregistered : node.Registered)
    (hdata : node.data = ip ++ colon :: port) (hcreate : zk.create q node = some zk') : Layout zk' := by
  have hnodes := ZooKeeper.create_nodes hcreate
  constructor
  · intro node' hnode' hnot
    rcases List.mem_append.mp (hnodes ▸ hnode') with hold | hnew
    · exact h.directory node' hold hnot
    · rw [List.mem_singleton.mp hnew] at hnot
      exact absurd hregistered hnot
  · intro node' hnode' howned
    rcases List.mem_append.mp (hnodes ▸ hnode') with hold | hnew
    · exact h.registered node' hold howned
    · rw [List.mem_singleton.mp hnew]
      exact ⟨ip, port, hdata⟩

theorem Layout.Register (h : Layout zk) {reg : Registration} {path : Bytes}
    (hreg : ConservatorHandler.Register zk reg.session reg.number path reg.ip reg.port = some zk') : Layout zk' := by
  obtain ⟨p, -, -, q, hcreate⟩ := ConservatorHandler.Register_create hreg
  have hcolon : ofText ":" = [colon] := by decide
  have hdata : reg.ip ++ ofText ":" ++ reg.port = reg.ip ++ colon :: reg.port := by simp [hcolon]
  exact h.create (by simp [ZNode.Registered]) hdata hcreate

theorem Layout.expire (h : Layout zk) (session : Nat) : Layout (zk.expire session) := by
  constructor
  · exact fun node hnode => h.directory node (List.mem_of_mem_filter hnode)
  · exact fun node hnode => h.registered node (List.mem_of_mem_filter hnode)

/-! ## Registrations, expiries and callbacks -/

namespace Rescan

open Sender.NodeTable

/-- The watches that can fire when one tree becomes another: those of the
nodes that are gone, and those of the parents of the nodes that are new. -/
def events (zk zk' : ZooKeeper) : List Event :=
  (zk.tree.paths.filter fun p => !zk'.tree.paths.contains p).flatMap (fun p => (Change.delete p).events) ++
    (zk'.tree.paths.filter fun p => !zk.tree.paths.contains p).map fun p => .children (renderPath slash p.dropLast)

def become (w : NodeTable) (zk : ZooKeeper) : NodeTable := (events w.zk zk).foldl fire { w with zk := zk }

inductive Label
  | Register (path : Bytes) (reg : Registration)
  | expire (session : Nat)
  | callback (event : Event)

inductive Step (noData : Bytes) (w : NodeTable) : Label → NodeTable → Prop
  | Register {path reg zk}
      (hreg : ConservatorHandler.Register w.zk reg.session reg.number path reg.ip reg.port = some zk) :
      Step noData w (.Register path reg) (become w zk)
  | expire {session} : Step noData w (.expire session) (become w (w.zk.expire session))
  | callback {e w'} (hstep : NodeTable.Step noData w (.callback e) w') : Step noData w (.callback e) w'

/-- Any watches may be set, and any callbacks on their way. -/
def system (noData : Bytes) : System NodeTable Label where
  start w := Layout w.zk ∧ w.aborted = false
  step := Step noData

/-- A callback comes to no directory without children. -/
def Met (noData : Bytes) (w : NodeTable) : Label → Prop
  | .callback e => LeavesFrom w.zk noData ZNode.Registered e.path
  | _ => True

variable {w w' : NodeTable} {l : Label}

theorem foldl_fire (es : List Event) (w : NodeTable) :
    (es.foldl fire w).zk = w.zk ∧ (es.foldl fire w).aborted = w.aborted := by
  induction es generalizing w with
  | nil => simp
  | cons e es ih =>
    have hfire : (w.fire e).zk = w.zk ∧ (w.fire e).aborted = w.aborted := by
      unfold NodeTable.fire
      split <;> simp
    simpa [hfire] using ih (w.fire e)

@[simp] theorem become_zk (w : NodeTable) (zk : ZooKeeper) : (become w zk).zk = zk := (foldl_fire _ _).1

@[simp] theorem become_aborted (w : NodeTable) (zk : ZooKeeper) : (become w zk).aborted = w.aborted := (foldl_fire _ _).2

theorem Step.layout (h : Layout w.zk) (hs : Step noData w l w') : Layout w'.zk := by
  cases hs with
  | Register hreg => simpa using h.Register hreg
  | @expire session => simpa using h.expire session
  | callback hstep => cases hstep <;> exact h

/-- **A step leaves the process running** exactly if its callback comes to no
directory without children. -/
theorem Step.running (h : Layout w.zk) (hrunning : w.aborted = false) (hs : Step noData w l w') :
    w'.aborted = false ↔ Met noData w l := by
  cases hs with
  | Register => simp [Met, hrunning]
  | expire => simp [Met, hrunning]
  | @callback e w' hstep =>
    rw [Met, ← h.leavesFrom_iff, ← NodeManager.callback_isSome w.zk noData e w.manager]
    cases hstep with
    | callback _ _ hm => simp [hm, hrunning]
    | abort _ _ hm => simp [hm]

/-- **No walk aborts the process** in exactly the runs whose callbacks come to
no directory without children. -/
theorem rescan_iff (hw : (system noData).start w) (labels : List Label) (w' : NodeTable) :
    ((system noData).restrict fun _ _ w' => w'.aborted = false).Run w labels w' ↔
      ((system noData).restrict fun w l _ => Met noData w l).Run w labels w' :=
  System.restrict_states (S := system noData) (J := fun w => Layout w.zk) (fun _ _ _ => Step.layout)
    (fun _ _ _ h hrunning hs => Step.running h hrunning hs) hw.1 hw.2

/-- `/dict/sender`, and in it a node for each of these sessions. -/
def served (sessions : List Nat) : Option ZooKeeper := do
  let zk ← Registration.directory []
  sessions.foldlM
    (fun zk session =>
      zk.create (Registration.senderDir ++ [ConservatorHandler.sequence session])
        { data := ofText "1.2.3.4:80", ephemeralOwner := some session }) zk

def oneServed : ZooKeeper := (served [7]).get (by decide +kernel)
def twoServed : ZooKeeper := (served [7, 8]).get (by decide +kernel)

theorem layout_served (zk : ZooKeeper)
    (h : ∀ node ∈ zk.tree.nodes, colon ∈ node.2.data ↔ node.2.Registered) : Layout zk := by
  constructor
  · exact fun node hnode hnot hcolon => hnot ((h node hnode).mp hcolon)
  · exact fun node hnode hregistered => List.append_of_mem ((h node hnode).mpr hregistered)

/-- The watch on the children of the directory is the only one set. -/
def watched (zk : ZooKeeper) : NodeTable where
  zk := zk
  manager := { nodes := [], dataWatches := [], childrenWatches := [renderPath slash Registration.senderDir] }
  pending := []
  aborted := false

/-- One session of two ends, and the directory is walked again. -/
theorem rescan_iff_two : ∃ w', (system []).start (watched twoServed) ∧
    ((system []).restrict fun _ _ w' => w'.aborted = false).Run (watched twoServed)
      [.expire 7, .callback (.children (renderPath slash Registration.senderDir))] w' := by
  have hstart : (system []).start (watched twoServed) := ⟨layout_served _ (by decide +kernel), rfl⟩
  have hp : Registration.senderDir ∈ (twoServed.expire 7).tree.paths := by decide +kernel
  have hpending : (become (watched twoServed) (twoServed.expire 7)).pending =
      [.children (renderPath slash Registration.senderDir)] := by decide +kernel
  obtain ⟨w', hcallback⟩ := exists_callback [] (become_aborted _ _) hpending
  have hmet : Met [] (become (watched twoServed) (twoServed.expire 7))
      (.callback (.children (renderPath slash Registration.senderDir))) := by
    change LeavesFrom (become (watched twoServed) (twoServed.expire 7)).zk [] ZNode.Registered
      (renderPath slash Registration.senderDir)
    rw [become_zk, LeavesFrom, ZooKeeper.resolve_renderPath hp]
    exact ⟨by decide +kernel, fun _ => by decide +kernel⟩
  have hexpire : ((system []).restrict fun w l _ => Met [] w l).Run (watched twoServed) [.expire 7]
      (become (watched twoServed) (twoServed.expire 7)) := .single ⟨.expire, trivial⟩
  exact ⟨w', hstart, (rescan_iff hstart _ _).mpr (hexpire.snoc ⟨.callback hcallback, hmet⟩)⟩

/-- The directory has been walked. -/
def walked : NodeTable where
  zk := oneServed
  manager := (NodeManager.create.GetIleafNodes oneServed [] (renderPath slash Registration.senderDir)).get
    (by decide +kernel)
  pending := []
  aborted := false

/-- **The only session of a directory ends**: a callback is on its way that
walks the directory, and the next one aborts. -/
theorem rescan_aborts : ∃ w₁ w₂ e, (system []).start walked ∧
    NodeManager.create.GetIleafNodes walked.zk [] (renderPath slash Registration.senderDir) = some walked.manager ∧
    (system []).Run walked [.expire 7] w₁ ∧ .children (renderPath slash Registration.senderDir) ∈ w₁.pending ∧
    (∀ noData m, Event.callback w₁.zk noData m (.children (renderPath slash Registration.senderDir)) = none) ∧
    (system []).Run w₁ [.callback e] w₂ ∧ w₂.aborted = true := by
  obtain ⟨w₁, hw₁⟩ : ∃ w₁, w₁ = become walked (oneServed.expire 7) := ⟨_, rfl⟩
  have hzk : w₁.zk = oneServed.expire 7 := by rw [hw₁, become_zk]
  have hrunning : w₁.aborted = false := by rw [hw₁, become_aborted]; rfl
  obtain ⟨e, es, hpending, hnone⟩ : ∃ e es, w₁.pending = e :: es ∧ e.callback w₁.zk [] w₁.manager = none := by
    rw [hw₁]
    exact ⟨_, _, rfl, by decide +kernel⟩
  refine ⟨w₁, _, e, ⟨layout_served oneServed (by decide +kernel), rfl⟩, by simp [walked], ?_, ?_, ?_,
    .single (.callback (.abort hrunning hpending hnone)), rfl⟩
  · rw [hw₁]
    exact .single .expire
  · rw [hw₁]
    decide +kernel
  · intro noData m
    rw [← Option.not_isSome_iff_eq_none, NodeManager.callback_isSome, hzk, Event.path, LeavesFrom,
      ZooKeeper.resolve_renderPath (by decide +kernel)]
    intro h
    have hleaf : ∀ q ∈ (oneServed.expire 7).tree.leaves Registration.senderDir,
        ∀ node ∈ (oneServed.expire 7).tree.get? q, colon ∈ node.data := h.2 (by decide)
    exact absurd hleaf (by decide +kernel)

end Rescan
end DictionaryServer
