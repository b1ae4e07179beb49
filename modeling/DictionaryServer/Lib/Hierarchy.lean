/-
Finite hierarchies: named nodes, each under its parent, as a file system or a
coordination service keeps them.

`traverse` walks a hierarchy from a node down. `traverse_perm`: with enough
fuel it meets every leaf from there on once, and nothing else.
-/
import Mathlib.Data.List.Perm.Basic
import Mathlib.Data.List.Nodup
import Mathlib.Data.List.Induction

namespace Lib

universe u v

/-- Nodes with their paths. A path is there once, and its parent is there. -/
structure Hierarchy (N : Type u) (D : Type v) where
  nodes : List (List N × D)
  nodup : (nodes.map Prod.fst).Nodup
  closed : ∀ p n, p ++ [n] ∈ nodes.map Prod.fst → p ∈ nodes.map Prod.fst

namespace Hierarchy

variable {N : Type u} {D : Type v} [DecidableEq N] (t : Hierarchy N D) {p q : List N} {n : N}

def paths : List (List N) := t.nodes.map Prod.fst

/-- The data of a node. -/
def get? (p : List N) : Option D := t.nodes.lookup p

/-- The names of the nodes under `p`. -/
def children (p : List N) : List N := t.paths.filterMap fun q => if q.dropLast = p then q.getLast? else none

def IsLeaf (p : List N) : Prop := t.children p = []

instance (p : List N) : Decidable (t.IsLeaf p) := inferInstanceAs (Decidable (_ = _))

/-- The leaves from `p` on, `p` itself included if it is one. -/
def leaves (p : List N) : List (List N) := t.paths.filter fun q => p <+: q ∧ t.IsLeaf q

/-- No path is longer. -/
def height : Nat := (t.paths.map List.length).foldr max 0

omit [DecidableEq N] in
theorem length_le_height (h : p ∈ t.paths) : p.length ≤ t.height := by
  rw [height]
  generalize t.paths = ps at h
  induction ps with
  | nil => cases h
  | cons q ps ih =>
    rw [List.map_cons, List.foldr_cons]
    rcases List.mem_cons.mp h with rfl | h
    · exact Nat.le_max_left _ _
    · exact Nat.le_trans (ih h) (Nat.le_max_right _ _)

theorem get?_isSome : (t.get? p).isSome ↔ p ∈ t.paths := by
  simp [get?, paths, List.lookup_isSome_iff]

theorem mem_nodes_of_get? {d : D} (h : t.get? p = some d) : (p, d) ∈ t.nodes := by
  obtain ⟨before, after, heq, -⟩ := List.lookup_eq_some_iff.mp h
  simp [heq]

omit [DecidableEq N] in
theorem mem_paths_of_prefix (h : q ∈ t.paths) (hp : p <+: q) : p ∈ t.paths := by
  obtain ⟨s, rfl⟩ := hp
  induction s using List.reverseRecOn with
  | nil => simpa using h
  | append_singleton s n ih =>
    rw [← List.append_assoc] at h
    exact ih (t.closed _ _ h)

theorem mem_children : n ∈ t.children p ↔ p ++ [n] ∈ t.paths := by
  rw [children, List.mem_filterMap]
  constructor
  · intro h
    obtain ⟨q, hq, hn⟩ := h
    split at hn
    · next hp =>
      have hlast := List.dropLast_append_getLast? n hn
      rw [hp] at hlast
      rwa [hlast]
    · cases hn
  · intro h
    exact ⟨_, h, by simp⟩

theorem isLeaf_iff : t.IsLeaf p ↔ ∀ n, p ++ [n] ∉ t.paths := by
  simp [IsLeaf, List.eq_nil_iff_forall_not_mem, mem_children]

theorem children_nodup (p : List N) : (t.children p).Nodup := by
  refine t.nodup.filterMap ?_
  intro q q' n hq hq'
  rw [Option.mem_def] at hq hq'
  split at hq
  · next h =>
    split at hq'
    · next h' =>
      rw [← List.dropLast_append_getLast? n hq, ← List.dropLast_append_getLast? n hq', h, h']
    · cases hq'
  · cases hq

theorem mem_leaves : q ∈ t.leaves p ↔ q ∈ t.paths ∧ p <+: q ∧ t.IsLeaf q := by
  simp [leaves]

theorem IsLeaf.eq_of_prefix {t : Hierarchy N D} (h : t.IsLeaf p) (hq : q ∈ t.paths) (hpq : p <+: q) : q = p := by
  obtain ⟨s, rfl⟩ := hpq
  rcases s with _ | ⟨n, s⟩
  · rw [List.append_nil]
  · have hn : n ∈ t.children p := t.mem_children.mpr (t.mem_paths_of_prefix hq ⟨s, by simp⟩)
    rw [h] at hn
    cases hn

/-- The leaves from a node that is none are those from its children on. -/
theorem mem_leaves_children (hp : ¬t.IsLeaf p) : q ∈ t.leaves p ↔ ∃ n ∈ t.children p, q ∈ t.leaves (p ++ [n]) := by
  constructor
  · intro h
    obtain ⟨hq, ⟨s, rfl⟩, hleaf⟩ := t.mem_leaves.mp h
    rcases s with _ | ⟨n, s⟩
    · rw [List.append_nil] at hleaf
      exact absurd hleaf hp
    · have hpre : p ++ [n] <+: p ++ n :: s := ⟨s, by simp⟩
      exact ⟨n, t.mem_children.mpr (t.mem_paths_of_prefix hq hpre), t.mem_leaves.mpr ⟨hq, hpre, hleaf⟩⟩
  · intro h
    obtain ⟨n, -, hn⟩ := h
    obtain ⟨hq, hpre, hleaf⟩ := t.mem_leaves.mp hn
    exact t.mem_leaves.mpr ⟨hq, (List.prefix_append p [n]).trans hpre, hleaf⟩

/-- The walk from a node down: the leaves it meets. -/
def traverse : Nat → List N → List (List N)
  | 0, _ => []
  | fuel + 1, p => if t.IsLeaf p then [p] else (t.children p).flatMap fun n => traverse fuel (p ++ [n])

theorem mem_traverse {fuel : Nat} (hp : p ∈ t.paths) (hfuel : t.height < fuel + p.length) :
    q ∈ t.traverse fuel p ↔ q ∈ t.leaves p := by
  induction fuel generalizing p with
  | zero => exact absurd (t.length_le_height hp) (by omega)
  | succ fuel ih =>
    rw [traverse]
    split
    · next hleaf =>
      rw [List.mem_singleton, mem_leaves]
      constructor
      · intro h
        rw [h]
        exact ⟨hp, List.prefix_rfl, hleaf⟩
      · intro h
        exact hleaf.eq_of_prefix h.1 h.2.1
    · next hleaf =>
      rw [List.mem_flatMap, t.mem_leaves_children hleaf]
      refine exists_congr fun n => and_congr_right fun hn => ?_
      exact ih (t.mem_children.mp hn) (by simp; omega)

/-- A walk meets each leaf once: what is under one child is not under another. -/
theorem traverse_nodup {fuel : Nat} (hp : p ∈ t.paths) (hfuel : t.height < fuel + p.length) :
    (t.traverse fuel p).Nodup := by
  induction fuel generalizing p with
  | zero => exact List.nodup_nil
  | succ fuel ih =>
    rw [traverse]
    split
    · exact List.nodup_singleton p
    · have hfuel' : ∀ n : N, t.height < fuel + (p ++ [n]).length := fun n => by simp; omega
      rw [List.nodup_flatMap]
      refine ⟨fun n hn => ih (t.mem_children.mp hn) (hfuel' n), ?_⟩
      refine (t.children_nodup p).imp_of_mem ?_
      intro n m hn hm hne q hqn hqm
      rw [t.mem_traverse (t.mem_children.mp hn) (hfuel' n), mem_leaves] at hqn
      rw [t.mem_traverse (t.mem_children.mp hm) (hfuel' m), mem_leaves] at hqm
      have heq := List.prefix_of_prefix_length_le hqn.2.1 hqm.2.1 (by simp)
      exact hne (by simpa using heq.eq_of_length (by simp))

/-- **A walk meets every leaf once, and nothing else.** -/
theorem traverse_perm {fuel : Nat} (hp : p ∈ t.paths) (hfuel : t.height < fuel + p.length) :
    (t.traverse fuel p).Perm (t.leaves p) :=
  (List.perm_ext_iff_of_nodup (t.traverse_nodup hp hfuel) (t.nodup.filter _)).mpr fun _ => t.mem_traverse hp hfuel

theorem leaves_sublist (h : p <+: q) : (t.leaves q).Sublist (t.leaves p) := by
  refine List.monotone_filter_right _ ?_
  intro r hr
  simp only [decide_eq_true_eq] at hr ⊢
  exact ⟨h.trans hr.1, hr.2⟩

/-- From a node that all leaves are below there are as many. -/
theorem leaves_eq (h : p <+: q) (hall : ∀ r ∈ t.leaves p, q <+: r) : t.leaves q = t.leaves p := by
  refine List.filter_congr ?_
  intro r hr
  rw [decide_eq_decide]
  constructor
  · intro hq
    exact ⟨h.trans hq.1, hq.2⟩
  · intro hp
    exact ⟨hall r (t.mem_leaves.mpr ⟨hr, hp⟩), hp.2⟩

/-! ## Changes -/

/-- A new node under one that is there. -/
def insert (p : List N) (d : D) (hnew : p ∉ t.paths) (hparent : p.dropLast ∈ t.paths) : Hierarchy N D where
  nodes := t.nodes ++ [(p, d)]
  nodup := by
    rw [List.map_append, List.nodup_append]
    refine ⟨t.nodup, List.nodup_singleton p, ?_⟩
    intro q hq r hr heq
    rw [List.map_singleton, List.mem_singleton] at hr
    rw [heq, hr] at hq
    exact hnew hq
  closed q n h := by
    rw [List.map_append, List.mem_append] at h ⊢
    left
    rcases h with h | h
    · exact t.closed q n h
    · have hp : q ++ [n] = p := by simpa using h
      have hq : p.dropLast = q := by simp [← hp]
      exact hq ▸ hparent

theorem closed_filter {keep : List N × D → Bool} (hleaf : ∀ node ∈ t.nodes, keep node = false → t.IsLeaf node.1)
    (q : List N) (n : N) (h : q ++ [n] ∈ (t.nodes.filter keep).map Prod.fst) :
    q ∈ (t.nodes.filter keep).map Prod.fst := by
  obtain ⟨node, hnode, hq⟩ := List.mem_map.mp h
  have hmem : q ++ [n] ∈ t.paths := List.mem_map.mpr ⟨node, List.mem_of_mem_filter hnode, hq⟩
  obtain ⟨parent, hparent, rfl⟩ := List.mem_map.mp (t.closed q n hmem)
  refine List.mem_map.mpr ⟨parent, List.mem_filter.mpr ⟨hparent, ?_⟩, rfl⟩
  by_contra hdrop
  have hn := t.mem_children.mpr hmem
  rw [hleaf parent hparent (Bool.eq_false_iff.mpr hdrop)] at hn
  cases hn

/-- A leaf taken out. -/
def erase (p : List N) (hleaf : t.IsLeaf p) : Hierarchy N D where
  nodes := t.nodes.filter fun node => node.1 ≠ p
  nodup := t.nodup.sublist (List.filter_sublist.map Prod.fst)
  closed := by
    refine t.closed_filter fun node _ hdrop => ?_
    have hp : node.1 = p := by simpa using hdrop
    exact hp ▸ hleaf

/-- Leaves taken out, all that `drop` picks. -/
def prune (drop : List N × D → Bool) (hleaf : ∀ node ∈ t.nodes, drop node → t.IsLeaf node.1) : Hierarchy N D where
  nodes := t.nodes.filter fun node => !drop node
  nodup := t.nodup.sublist (List.filter_sublist.map Prod.fst)
  closed := t.closed_filter fun node hnode hdrop => hleaf node hnode (by simpa using hdrop)

/-- New data for the node at `p`. -/
def modify (p : List N) (f : D → D) : Hierarchy N D where
  nodes := t.nodes.map fun node => (node.1, if node.1 = p then f node.2 else node.2)
  nodup := by
    rw [List.map_map]
    exact t.nodup
  closed := by
    rw [List.map_map]
    exact t.closed

omit [DecidableEq N] in
@[simp] theorem paths_insert (d : D) (hnew : p ∉ t.paths) (hparent : p.dropLast ∈ t.paths) :
    (t.insert p d hnew hparent).paths = t.paths ++ [p] := by
  simp [paths, insert]

theorem mem_paths_erase (hleaf : t.IsLeaf p) : q ∈ (t.erase p hleaf).paths ↔ q ∈ t.paths ∧ q ≠ p := by
  simp [paths, erase]

theorem mem_paths_prune {drop : List N × D → Bool} (hleaf : ∀ node ∈ t.nodes, drop node → t.IsLeaf node.1) :
    q ∈ (t.prune drop hleaf).paths ↔ ∃ d, (q, d) ∈ t.nodes ∧ drop (q, d) = false := by
  simp [paths, prune]

@[simp] theorem paths_modify (f : D → D) : (t.modify p f).paths = t.paths := by
  simp [paths, modify]

end Hierarchy
end Lib
