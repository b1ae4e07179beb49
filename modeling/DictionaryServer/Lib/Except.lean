/-
Computations in `Except`, taken apart one bind at a time, and lists mapped and
folded in `Option`.
-/
import Mathlib.Tactic.TypeStar

namespace Lib

@[simp] theorem ok_bind {ε α β : Type} (a : α) (f : α → Except ε β) : (Except.ok a >>= f) = f a := rfl

theorem bind_eq {ε α β : Type} {x : Except ε α} {a : α} (h : x = .ok a) (f : α → Except ε β) : (x >>= f) = f a := by
  rw [h]
  rfl

theorem bind_ok {ε α β : Type} {x : Except ε α} {f : α → Except ε β} {b : β} (h : x >>= f = .ok b) :
    ∃ a, x = .ok a ∧ f a = .ok b := by
  cases x with
  | error e => cases h
  | ok a => exact ⟨a, rfl, h⟩

theorem mapM_eq_some {α β : Type} {f : α → Option β} {xs : List α} {ys : List β} :
    xs.mapM f = some ys ↔ xs.map f = ys.map some := by
  induction xs generalizing ys with
  | nil => cases ys <;> simp
  | cons x xs ih =>
    rw [List.mapM_cons, List.map_cons]
    cases hx : f x with
    | none => cases ys <;> simp
    | some y =>
      cases hxs : xs.mapM f with
      | none =>
        have hno : ∀ ys, xs.map f ≠ List.map some ys := fun ys h => nomatch hxs.symm.trans (ih.mpr h)
        cases ys <;> simp [hno]
      | some ys' =>
        have hmap := ih.mp hxs
        cases ys with
        | nil => simp
        | cons z ys => simp [hmap, List.map_inj_right]

theorem exists_mapM {α β : Type} {f : α → Option β} {xs : List α} (h : ∀ x ∈ xs, (f x).isSome) :
    ∃ ys, xs.mapM f = some ys := by
  induction xs with
  | nil => exact ⟨[], rfl⟩
  | cons x xs ih =>
    obtain ⟨y, hy⟩ := Option.isSome_iff_exists.mp (h x List.mem_cons_self)
    obtain ⟨ys, hys⟩ := ih fun x' hx' => h x' (List.mem_cons_of_mem x hx')
    exact ⟨y :: ys, by simp [hy, hys]⟩

theorem mapM_isSome {α β : Type} {f : α → Option β} {xs : List α} : (xs.mapM f).isSome ↔ ∀ x ∈ xs, (f x).isSome := by
  constructor
  · intro h x hx
    obtain ⟨ys, hys⟩ := Option.isSome_iff_exists.mp h
    have hmem : f x ∈ ys.map some := mapM_eq_some.mp hys ▸ List.mem_map_of_mem hx
    obtain ⟨y, -, hy⟩ := List.mem_map.mp hmem
    simp [← hy]
  · intro h
    obtain ⟨ys, hys⟩ := exists_mapM h
    simp [hys]

theorem foldlM_isSome {α β : Type} {f : β → α → Option β} {xs : List α} (h : ∀ x ∈ xs, ∀ b, (f b x).isSome) (b : β) :
    (xs.foldlM f b).isSome := by
  induction xs generalizing b with
  | nil => rfl
  | cons x xs ih =>
    obtain ⟨b₁, hb₁⟩ := Option.isSome_iff_exists.mp (h x List.mem_cons_self b)
    rw [List.foldlM_cons, hb₁]
    exact ih (fun y hy => h y (List.mem_cons_of_mem x hy)) b₁

theorem foldlM_keeps {α β : Type} {f : β → α → Option β} {I : β → Prop} {xs : List α} {b b' : β}
    (hf : ∀ x ∈ xs, ∀ b b', I b → f b x = some b' → I b') (hb : I b) (h : xs.foldlM f b = some b') : I b' := by
  induction xs generalizing b with
  | nil =>
    cases h
    exact hb
  | cons x xs ih =>
    rw [List.foldlM_cons, Option.bind_eq_bind, Option.bind_eq_some_iff] at h
    obtain ⟨b₁, hfirst, hrest⟩ := h
    exact ih (fun y hy => hf y (List.mem_cons_of_mem x hy)) (hf x List.mem_cons_self b b₁ hb hfirst) hrest

end Lib
