/-
Hashes that take in a message item by item.

If a turn keeps states apart and keeps items apart (`Mixes`), two messages that
differ in one item never collide (`foldl_ne`). The turns of such hashes are made
of sums, exclusive ors, products with an odd number and shifts, which keep words
apart: `mul_injective`, `xor_shift_injective`.
-/
import Mathlib.Logic.Function.Basic

namespace Lib.Mixing

open Function

variable {σ α : Type}

/-- A turn that keeps states apart, and items. -/
structure Mixes (f : σ → α → σ) : Prop where
  state : ∀ c, Injective fun s => f s c
  item : ∀ s, Injective (f s)

theorem foldl_injective {f : σ → α → σ} (hf : Mixes f) (l : List α) : Injective fun s => l.foldl f s := by
  induction l with
  | nil => exact fun _ _ h => h
  | cons c l ih => exact fun s t h => hf.state c (ih h)

/-- **One item** that differs is never lost. -/
theorem foldl_ne {f : σ → α → σ} (hf : Mixes f) {l l' : List α} (hlen : l.length = l'.length) {i : Nat}
    (hother : ∀ j, j ≠ i → l[j]? = l'[j]?) (hne : l ≠ l') (s : σ) : l.foldl f s ≠ l'.foldl f s := by
  induction l generalizing l' i s with
  | nil => exact absurd (List.length_eq_zero_iff.mp hlen.symm).symm hne
  | cons c l ih =>
    cases l' with
    | nil => simp at hlen
    | cons d l' =>
      have hlen' : l.length = l'.length := Nat.succ.inj hlen
      cases i with
      | zero =>
        have hrest : l = l' := List.ext_getElem? fun j => hother (j + 1) (Nat.succ_ne_zero j)
        subst hrest
        have hcd : c ≠ d := fun h => hne (h ▸ rfl)
        exact fun h => hcd (hf.item s (foldl_injective hf l h))
      | succ i =>
        have hcd : c = d := Option.some.inj (hother 0 (Nat.succ_ne_zero i).symm)
        subst hcd
        exact ih (i := i) hlen' (fun j hj => hother (j + 1) (by omega)) (fun h => hne (h ▸ rfl)) (f s c)

/-- Messages of one length that differ within one group of `n` items have different
hashes. -/
def Separates {β : Type} (n : Nat) (hash : List α → β) : Prop :=
  ∀ key key' i, key.length = key'.length → (∀ j, j / n ≠ i → key[j]? = key'[j]?) → key ≠ key' → hash key ≠ hash key'

/-- A fold whose turns mix, and what loses nothing at the end. -/
theorem separates_foldl {β : Type} {f : σ → α → σ} (hf : Mixes f) {finish : σ → β} (hfinish : Injective finish) (s : σ) :
    Separates 1 fun l => finish (l.foldl f s) := by
  intro l l' i hlen hother hne heq
  refine foldl_ne hf hlen (i := i) (fun j hj => hother j ?_) hne s (hfinish heq)
  rwa [Nat.div_one]

/-! ## Words -/

theorem mul_injective {p q : UInt32} (h : p * q = 1) : Injective fun x : UInt32 => x * p := by
  intro x y hxy
  have hq : x * p * q = y * p * q := congrArg (· * q) hxy
  rwa [UInt32.mul_assoc, UInt32.mul_assoc, h, UInt32.mul_one, UInt32.mul_one] at hq

/-- A word and the same word further up: a product. -/
theorem add_shift_eq (x k : UInt32) : x + (x <<< k) = x * (1 + ((1 : UInt32) <<< k)) := by
  have hshift : x <<< k = x * ((1 : UInt32) <<< k) := by
    refine UInt32.toNat_inj.mp ?_
    rw [UInt32.toNat_mul, UInt32.toNat_shiftLeft, UInt32.toNat_shiftLeft, Nat.shiftLeft_eq, Nat.shiftLeft_eq,
      Nat.mul_mod_mod, UInt32.toNat_one, Nat.one_mul]
  rw [hshift, UInt32.mul_add, UInt32.mul_one]

theorem add_shift_injective {k q : UInt32} (h : (1 + ((1 : UInt32) <<< k)) * q = 1) : Injective fun x : UInt32 => x + (x <<< k) := by
  intro x y hxy
  have hmul : x * (1 + ((1 : UInt32) <<< k)) = y * (1 + ((1 : UInt32) <<< k)) := by
    rw [← add_shift_eq, ← add_shift_eq]
    exact hxy
  exact mul_injective h hmul

/-- A word and its high bits: from the top, each bit can be told from those above it. -/
theorem xor_shift_injective {w k : Nat} (hk : 0 < k) : Injective fun x : BitVec w => x ^^^ (x >>> k) := by
  intro x y hxy
  have hbits : ∀ n i, w ≤ i + n → x.getLsbD i = y.getLsbD i := by
    intro n
    induction n with
    | zero => exact fun i hi => by rw [BitVec.getLsbD_of_ge x i hi, BitVec.getLsbD_of_ge y i hi]
    | succ n ih =>
      intro i hi
      have hbit := congrArg (fun z => z.getLsbD i) hxy
      simp only [BitVec.getLsbD_xor, BitVec.getLsbD_ushiftRight] at hbit
      rw [ih (k + i) (by omega)] at hbit
      exact Bool.xor_left_inj.mp hbit
  exact BitVec.eq_of_getLsbD_eq fun i _ => hbits w i (by omega)

theorem xor_injective (a : UInt32) : Injective fun x : UInt32 => x ^^^ a :=
  fun _ _ h => (UInt32.xor_left_inj a).mp h

end Lib.Mixing
