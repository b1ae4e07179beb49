/-
Paths in text: an absolute path as its names, each after a separator.

A name is not empty and holds no separator. `parsePath_eq_some` is the round
trip, and `renderPath_child` how the text of a child is made from its
parent's. Made that way, a child of the root has no path
(`parsePath_doubled`).
-/
import Mathlib.Data.List.Basic

namespace Lib

universe u

variable {α : Type u} [DecidableEq α] {sep : α}

/-- A name that can stand in a path. -/
def IsName (sep : α) (n : List α) : Prop := n ≠ [] ∧ sep ∉ n

instance (n : List α) : Decidable (IsName sep n) := inferInstanceAs (Decidable (_ ∧ _))

/-- A path's text: the root is a separator alone. -/
def renderPath (sep : α) : List (List α) → List α
  | [] => [sep]
  | n :: p => [sep].intercalate ([] :: n :: p)

def parsePath (sep : α) (text : List α) : Option (List (List α)) :=
  match text.splitOn sep with
  | [[], []] => some []
  | [] :: n :: p => if ∀ m ∈ n :: p, IsName sep m then some (n :: p) else none
  | _ => none

omit [DecidableEq α] in
theorem renderPath_cons (n : List α) (p : List (List α)) :
    renderPath sep (n :: p) = sep :: [sep].intercalate (n :: p) := List.intercalate_cons_cons

omit [DecidableEq α] in
/-- **The text of a child**, but for the root's. -/
theorem renderPath_child {p : List (List α)} (hp : p ≠ []) (n : List α) :
    renderPath sep (p ++ [n]) = renderPath sep p ++ sep :: n := by
  obtain ⟨m, p, rfl⟩ := List.exists_cons_of_ne_nil hp
  rw [List.cons_append, renderPath_cons, renderPath_cons, List.cons_append]
  congr 1
  clear hp
  induction p generalizing m with
  | nil => simp
  | cons k p ih =>
    rw [List.cons_append, List.intercalate_cons_cons, List.intercalate_cons_cons, ih k]
    simp

theorem splitOn_cons_self (text : List α) : (sep :: text).splitOn sep = [] :: text.splitOn sep :=
  List.splitOn_append_cons_self_of_not_mem List.not_mem_nil text

theorem splitOn_renderPath {n : List α} {p : List (List α)} (h : ∀ m ∈ n :: p, IsName sep m) :
    (renderPath sep (n :: p)).splitOn sep = [] :: n :: p := by
  refine List.splitOn_intercalate sep ?_ (List.cons_ne_nil _ _)
  intro m hm
  rcases List.mem_cons.mp hm with rfl | hm
  · exact List.not_mem_nil
  · exact (h m hm).2

theorem parsePath_renderPath {p : List (List α)} (h : ∀ n ∈ p, IsName sep n) :
    parsePath sep (renderPath sep p) = some p := by
  cases p with
  | nil => simp [parsePath, renderPath, splitOn_cons_self]
  | cons n p =>
    have hne : n ≠ [] := (h n List.mem_cons_self).1
    rw [parsePath, splitOn_renderPath h]
    split
    · next heq =>
      cases heq
      exact absurd rfl hne
    · next heq =>
      cases heq
      rw [if_pos h]
    · next hno => exact absurd rfl (hno n p)

/-- **The round trip**: what is read is what was written, and its names are names. -/
theorem parsePath_eq_some {text : List α} {p : List (List α)} :
    parsePath sep text = some p ↔ text = renderPath sep p ∧ ∀ n ∈ p, IsName sep n := by
  constructor
  · intro h
    have htext : [sep].intercalate (text.splitOn sep) = text := List.intercalate_splitOn sep
    rw [parsePath] at h
    split at h
    · next heq =>
      cases h
      rw [heq] at htext
      refine ⟨?_, fun n hn => absurd hn List.not_mem_nil⟩
      simpa [renderPath] using htext.symm
    · next heq =>
      split at h
      · next hnames =>
        cases h
        rw [heq] at htext
        exact ⟨htext.symm, hnames⟩
      · cases h
    · cases h
  · intro h
    obtain ⟨rfl, hnames⟩ := h
    exact parsePath_renderPath hnames

theorem renderPath_inj {p q : List (List α)} (hp : ∀ n ∈ p, IsName sep n) (hq : ∀ n ∈ q, IsName sep n)
    (h : renderPath sep p = renderPath sep q) : p = q := by
  have hpq := parsePath_renderPath hp
  rw [h, parsePath_renderPath hq] at hpq
  exact (Option.some.inj hpq).symm

/-- Two separators at the start: no path. -/
theorem parsePath_doubled (n : List α) : parsePath sep (sep :: sep :: n) = none := by
  have hsplit : (sep :: sep :: n).splitOn sep = [] :: [] :: n.splitOn sep := by
    rw [splitOn_cons_self, splitOn_cons_self]
  rw [parsePath, hsplit]
  split
  · next heq =>
    have hnil : n.splitOn sep = [] := by simp at heq
    exact absurd hnil (List.splitOn_ne_nil _ _)
  · next heq =>
    cases heq
    rw [if_neg]
    intro hnames
    exact (hnames [] List.mem_cons_self).1 rfl
  · rfl

omit [DecidableEq α] in
theorem exists_renderPath (p : List (List α)) : ∃ text, renderPath sep p = sep :: text := by
  cases p with
  | nil => exact ⟨[], rfl⟩
  | cons n p => exact ⟨_, renderPath_cons n p⟩

omit [DecidableEq α] in
theorem mem_renderPath (p : List (List α)) : sep ∈ renderPath sep p := by
  obtain ⟨text, htext⟩ : ∃ text, renderPath sep p = sep :: text := exists_renderPath p
  simp [htext]

end Lib
