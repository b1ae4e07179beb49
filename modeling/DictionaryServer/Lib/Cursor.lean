/-
A buffer with a position to write at.

Moving the position writes nothing: what is skipped over keeps what was there,
or holds `fill` if nothing was. What has been written up to the position is
`contents`; writing at its end appends to it (`contents_write`), and writing
further back and returning replaces a part (`contents_patch`).
-/
import Mathlib.Data.List.TakeDrop

namespace Lib

universe u

/-- The symbols written so far, and where the next ones go. -/
structure Cursor (α : Type u) where
  data : List α := []
  pos : Nat := 0

namespace Cursor

variable {α : Type u} (fill : α)

def write (c : Cursor α) (xs : List α) : Cursor α where
  data := c.data.takeD c.pos fill ++ xs ++ c.data.drop (c.pos + xs.length)
  pos := c.pos + xs.length

def seek (c : Cursor α) (pos : Nat) : Cursor α := { c with pos := pos }

/-- What stands before the position. -/
def contents (c : Cursor α) : List α := c.data.takeD c.pos fill

@[simp] theorem length_contents (c : Cursor α) : (c.contents fill).length = c.pos := List.takeD_length _ _ _

@[simp] theorem pos_write (c : Cursor α) (xs : List α) : (c.write fill xs).pos = c.pos + xs.length := rfl

@[simp] theorem pos_seek (c : Cursor α) (pos : Nat) : (c.seek pos).pos = pos := rfl

@[simp] theorem seek_seek (c : Cursor α) (p q : Nat) : (c.seek p).seek q = c.seek q := rfl

theorem takeD_append (xs ys : List α) (n : Nat) : (xs ++ ys).takeD (xs.length + n) fill = xs ++ ys.takeD n fill := by
  induction xs with
  | nil => simp
  | cons x xs ih => simp [Nat.add_right_comm, ih]

theorem takeD_add (m n : Nat) (xs : List α) :
    xs.takeD (m + n) fill = xs.takeD m fill ++ (xs.drop m).takeD n fill := by
  induction m generalizing xs with
  | zero => simp
  | succ m ih => cases xs <;> simp [Nat.add_right_comm, ih]

/-- Skipping keeps what has been written. -/
theorem contents_skip (c : Cursor α) (n : Nat) :
    (c.seek (c.pos + n)).contents fill = c.contents fill ++ (c.data.drop c.pos).takeD n fill :=
  takeD_add fill c.pos n c.data

/-- **Writing appends.** -/
theorem contents_write (c : Cursor α) (xs : List α) : (c.write fill xs).contents fill = c.contents fill ++ xs := by
  have happend := takeD_append fill (c.contents fill ++ xs) (c.data.drop (c.pos + xs.length)) 0
  rw [List.length_append, length_contents, Nat.add_zero, List.takeD_zero, List.append_nil] at happend
  exact happend

/-- **Writing further back** replaces what stands there. -/
theorem contents_patch (c : Cursor α) (p : Nat) (xs : List α) (h : p + xs.length ≤ c.pos) :
    (((c.seek p).write fill xs).seek c.pos).contents fill =
      (c.contents fill).take p ++ xs ++ (c.contents fill).drop (p + xs.length) := by
  obtain ⟨n, hn⟩ := Nat.exists_eq_add_of_le h
  have hbefore := takeD_add fill p (xs.length + n) c.data
  have hafter := takeD_add fill (p + xs.length) n c.data
  have hpatched := takeD_append fill (c.data.takeD p fill ++ xs) (c.data.drop (p + xs.length)) n
  rw [List.length_append, List.takeD_length] at hpatched
  rw [← Nat.add_assoc, ← hn] at hbefore
  rw [← hn] at hafter hpatched
  have htake : (c.contents fill).take p = c.data.takeD p fill := by
    rw [contents, hbefore, List.take_left' (List.takeD_length _ _ _)]
  have hdrop : (c.contents fill).drop (p + xs.length) = (c.data.drop (p + xs.length)).takeD n fill := by
    rw [contents, hafter, List.drop_left' (List.takeD_length _ _ _)]
  rw [htake, hdrop]
  exact hpatched

end Cursor
end Lib
