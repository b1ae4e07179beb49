/-
Messages that are taken in block by block.

`absorb` takes in the whole blocks of a message; `rest` is what it leaves. A
message that comes in parts needs the rest of the parts before only
(`absorb_append`, `rest_append`), which is why a buffer of one block is enough.
-/
import Mathlib.Algebra.Order.Group.Nat

namespace Lib.Blocks

variable {α σ : Type} {n : Nat}

/-- The first `k` blocks of a message. -/
def blocks (n : Nat) : Nat → List α → List (List α)
  | 0, _ => []
  | k + 1, m => m.take n :: blocks n k (m.drop n)

@[simp] theorem blocks_length (k : Nat) (m : List α) : (blocks n k m).length = k := by
  induction k generalizing m with
  | zero => rfl
  | succ k ih => rw [blocks, List.length_cons, ih]

theorem getElem_blocks {k i : Nat} (hi : i < k) (m : List α) :
    (blocks n k m)[i]? = some ((m.drop (n * i)).take n) := by
  induction k generalizing m i with
  | zero => omega
  | succ k ih =>
    cases i with
    | zero => rfl
    | succ i =>
      rw [blocks, List.getElem?_cons_succ, ih (by omega), List.drop_drop, Nat.mul_succ, Nat.add_comm]

theorem blocks_add (j k : Nat) (m : List α) : blocks n (j + k) m = blocks n j m ++ blocks n k (m.drop (n * j)) := by
  induction j generalizing m with
  | zero => rw [Nat.zero_add, Nat.mul_zero, List.drop_zero]; rfl
  | succ j ih =>
    rw [Nat.succ_add, blocks, ih, blocks, List.cons_append, List.drop_drop, Nat.mul_succ, Nat.add_comm n]

/-- Blocks are read no further than they reach. -/
theorem blocks_append {k : Nat} {a : List α} (ha : n * k ≤ a.length) (b : List α) :
    blocks n k (a ++ b) = blocks n k a := by
  induction k generalizing a with
  | zero => rfl
  | succ k ih =>
    rw [Nat.mul_succ] at ha
    have hdrop : n * k ≤ (a.drop n).length := by
      rw [List.length_drop]
      omega
    rw [blocks, blocks, List.take_append_of_le_length (by omega), List.drop_append_of_le_length (by omega), ih hdrop]

/-! ## Whole blocks and the rest -/

/-- The whole blocks of a message. -/
def whole (n : Nat) (m : List α) : List (List α) := blocks n (m.length / n) m

/-- What is left after them. -/
def rest (n : Nat) (m : List α) : List α := m.drop (n * (m.length / n))

theorem rest_length (m : List α) : (rest n m).length = m.length % n := by
  rw [rest, List.length_drop, Nat.mod_def]

theorem rest_length_lt (hn : 0 < n) (m : List α) : (rest n m).length < n := by
  rw [rest_length]
  exact Nat.mod_lt _ hn

theorem whole_short {m : List α} (hm : m.length < n) : whole n m = [] := by
  rw [whole, Nat.div_eq_of_lt hm]
  rfl

theorem rest_short {m : List α} (hm : m.length < n) : rest n m = m := by
  rw [rest, Nat.div_eq_of_lt hm, Nat.mul_zero, List.drop_zero]

theorem length_append_div (hn : 0 < n) (a b : List α) :
    (a ++ b).length / n = a.length / n + (rest n a ++ b).length / n := by
  rw [List.length_append, List.length_append, rest_length]
  conv => lhs; rw [← Nat.div_add_mod a.length n, Nat.add_assoc, Nat.mul_add_div hn]

theorem drop_append_rest (a b : List α) : (a ++ b).drop (n * (a.length / n)) = rest n a ++ b :=
  List.drop_append_of_le_length (Nat.mul_div_le _ _)

theorem whole_append (hn : 0 < n) (a b : List α) : whole n (a ++ b) = whole n a ++ whole n (rest n a ++ b) := by
  rw [whole, length_append_div hn, blocks_add, blocks_append (Nat.mul_div_le _ _), drop_append_rest]
  rfl

theorem rest_append (hn : 0 < n) (a b : List α) : rest n (a ++ b) = rest n (rest n a ++ b) := by
  rw [rest, length_append_div hn, Nat.mul_add, ← List.drop_drop, drop_append_rest]
  rfl

theorem rest_block_self {b : List α} (hb : b.length = n) (hn : 0 < n) : rest n b = [] := by
  rw [rest, hb, Nat.div_self hn, Nat.mul_one, ← hb, List.drop_length]

theorem rest_block {b : List α} (hb : b.length = n) (hn : 0 < n) (m : List α) : rest n (b ++ m) = rest n m := by
  rw [rest_append hn, rest_block_self hb hn, List.nil_append]

theorem whole_block {b : List α} (hb : b.length = n) (hn : 0 < n) (m : List α) : whole n (b ++ m) = b :: whole n m := by
  have hone : whole n b = [b] := by
    rw [whole, hb, Nat.div_self hn, blocks, blocks, List.take_of_length_le hb.le]
  rw [whole_append hn, hone, rest_block_self hb hn, List.nil_append, List.singleton_append]

theorem flatten_blocks {k : Nat} {m : List α} (hm : n * k ≤ m.length) : (blocks n k m).flatten = m.take (n * k) := by
  induction k generalizing m with
  | zero => rfl
  | succ k ih =>
    rw [Nat.mul_succ] at hm
    rw [blocks, List.flatten_cons, ih (by rw [List.length_drop]; omega), Nat.mul_succ, Nat.add_comm, List.take_add]

theorem whole_rest (m : List α) : (whole n m).flatten ++ rest n m = m := by
  rw [whole, flatten_blocks (Nat.mul_div_le _ _), rest, List.take_append_drop]

theorem length_of_mem_blocks {k : Nat} {m b : List α} (hm : n * k ≤ m.length) (hb : b ∈ blocks n k m) : b.length = n := by
  induction k generalizing m with
  | zero => cases hb
  | succ k ih =>
    rw [Nat.mul_succ] at hm
    rcases List.mem_cons.mp hb with rfl | hb
    · rw [List.length_take]
      omega
    · exact ih (by rw [List.length_drop]; omega) hb

/-! ## Taking them in -/

variable (f : σ → List α → σ)

/-- The state after the whole blocks of a message. -/
def absorb (n : Nat) (s : σ) (m : List α) : σ := (whole n m).foldl f s

theorem absorb_short {m : List α} (hm : m.length < n) (s : σ) : absorb f n s m = s := by
  rw [absorb, whole_short hm]
  rfl

/-- **A message in parts**: of the parts before, the rest is all that is needed. -/
theorem absorb_append (hn : 0 < n) (s : σ) (a b : List α) :
    absorb f n s (a ++ b) = absorb f n (absorb f n s a) (rest n a ++ b) := by
  rw [absorb, whole_append hn, List.foldl_append]
  rfl

theorem absorb_block {b : List α} (hb : b.length = n) (hn : 0 < n) (s : σ) (m : List α) :
    absorb f n s (b ++ m) = absorb f n (f s b) m := by
  rw [absorb, whole_block hb hn]
  rfl

end Lib.Blocks
