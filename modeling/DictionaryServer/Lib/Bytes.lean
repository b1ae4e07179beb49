/-
Byte strings, and 32-bit machine integers as four bytes in network order.

An `int32_t` is an `Int` between `-2^31` and `2^31 - 1`. A conversion to it
(`static_cast<int32_t>`) is `wrap32`, so a value out of range wraps as it
does on the machine. `be32_read` is the round trip both ends of a wire
format rely on, whatever follows the four bytes.
-/
import Mathlib.Data.Int.ModEq
import Mathlib.Tactic.Ring
import Mathlib.Tactic.IntervalCases

namespace Lib

abbrev Bytes := List UInt8

/-- The bytes of a text, as a C++ string literal holds them. -/
def ofText (s : String) : Bytes := s.toUTF8.data.toList

/-- `static_cast<int32_t>` of a wider integer. -/
def wrap32 (n : Int) : Int := n.bmod (2 ^ 32)

/-- The values an `int32_t` can hold. -/
def Fits32 (n : Int) : Prop := -2 ^ 31 ≤ n ∧ n < 2 ^ 31

instance (n : Int) : Decidable (Fits32 n) := inferInstanceAs (Decidable (_ ∧ _))

theorem wrap32_of_fits {n : Int} (h : Fits32 n) : wrap32 n = n := by
  obtain ⟨h₁, h₂⟩ := h
  exact Int.bmod_eq_of_le (by omega) (by omega)

theorem wrap32_fits (n : Int) : Fits32 (wrap32 n) := by
  have h₁ := Int.le_bmod (x := n) (m := 2 ^ 32) (by decide)
  have h₂ := Int.bmod_lt (x := n) (m := 2 ^ 32) (by decide)
  simp only [Fits32, wrap32]
  omega

/-- The four bytes of an `int32_t` on the wire, most significant first. -/
def be32 (x : Int) : Bytes :=
  let n := (x % 2 ^ 32).toNat
  [UInt8.ofNat (n / 2 ^ 24), UInt8.ofNat (n / 2 ^ 16), UInt8.ofNat (n / 2 ^ 8), UInt8.ofNat n]

@[simp] theorem be32_length (x : Int) : (be32 x).length = 4 := rfl

/-- The `int32_t` the first four bytes of a buffer hold. -/
def readBe32 (b : Bytes) : Int :=
  wrap32 ((b.take 4).foldl (fun n c => 256 * n + c.toNat) 0 : Nat)

/-- Only the first four bytes are read. -/
theorem readBe32_append {a : Bytes} (h : 4 ≤ a.length) (b : Bytes) : readBe32 (a ++ b) = readBe32 a := by
  simp only [readBe32, List.take_append_of_le_length h]

theorem readBe32_take (b : Bytes) : readBe32 (b.take 4) = readBe32 b := by
  simp only [readBe32, List.take_take, Nat.min_self]

theorem wrap32_emod (n : Int) : wrap32 (n % 2 ^ 32) = wrap32 n :=
  Int.emod_bmod n (2 ^ 32)

/-- **The round trip of a length word**: what was written is read back, wrapped. -/
theorem be32_read (x : Int) (b : Bytes) : readBe32 (be32 x ++ b) = wrap32 x := by
  rw [readBe32_append (by simp)]
  have hn : 0 ≤ x % 2 ^ 32 := Int.emod_nonneg _ (by decide)
  have hlt : x % 2 ^ 32 < 2 ^ 32 := Int.emod_lt_of_pos _ (by decide)
  rw [← wrap32_emod x]
  simp only [readBe32, be32, List.take_succ_cons, List.take_zero, List.foldl_cons, List.foldl_nil,
    UInt8.toNat_ofNat']
  congr 1
  omega

theorem emod_wrap32 (n : Int) : wrap32 n % 2 ^ 32 = n % 2 ^ 32 := Int.bmod_emod

theorem be32_wrap32 (x : Int) : be32 (wrap32 x) = be32 x := by
  simp only [be32, emod_wrap32]

theorem wrap32_inj {m n : Int} (hm : 0 ≤ m ∧ m < 2 ^ 32) (hn : 0 ≤ n ∧ n < 2 ^ 32) (h : wrap32 m = wrap32 n) :
    m = n := by
  have hmod : m % 2 ^ 32 = n % 2 ^ 32 := by
    rw [← emod_wrap32 m, h, emod_wrap32]
  rwa [Int.emod_eq_of_lt hm.1 hm.2, Int.emod_eq_of_lt hn.1 hn.2] at hmod

theorem exists_four {b : Bytes} (hb : 4 ≤ b.length) : ∃ x₀ x₁ x₂ x₃ rest, b = x₀ :: x₁ :: x₂ :: x₃ :: rest := by
  rcases b with _ | ⟨x₀, _ | ⟨x₁, _ | ⟨x₂, _ | ⟨x₃, rest⟩⟩⟩⟩
  · simp at hb
  · simp at hb
  · simp at hb
  · simp at hb
  · exact ⟨x₀, x₁, x₂, x₃, rest, rfl⟩

/-- **A word read from four bytes** is written as these. -/
theorem be32_readBe32 {b : Bytes} (hb : 4 ≤ b.length) : be32 (readBe32 b) = b.take 4 := by
  obtain ⟨x₀, x₁, x₂, x₃, rest, rfl⟩ := exists_four hb
  have h₀ := x₀.toNat_lt
  have h₁ := x₁.toNat_lt
  have h₂ := x₂.toNat_lt
  have h₃ := x₃.toNat_lt
  rw [readBe32, be32_wrap32]
  simp only [be32, List.take_succ_cons, List.take_zero, List.foldl_cons, List.foldl_nil, List.cons.injEq, and_true]
  refine ⟨?_, ?_, ?_, ?_⟩
  all_goals
    rw [← UInt8.toNat_inj, UInt8.toNat_ofNat']
    omega

/-- **A changed byte changes the word.** -/
theorem readBe32_set {b : Bytes} {i : Nat} {c : UInt8} (hb : 4 ≤ b.length) (hi : i < 4) (hc : c ≠ b[i]) :
    readBe32 (b.set i c) ≠ readBe32 b := by
  obtain ⟨x₀, x₁, x₂, x₃, rest, rfl⟩ := exists_four hb
  intro heq
  have hne : c.toNat ≠ ((x₀ :: x₁ :: x₂ :: x₃ :: rest)[i]).toNat := fun h => hc (UInt8.toNat_inj.mp h)
  have h₀ := x₀.toNat_lt
  have h₁ := x₁.toNat_lt
  have h₂ := x₂.toNat_lt
  have h₃ := x₃.toNat_lt
  have hlt := c.toNat_lt
  interval_cases i <;>
    simp only [List.set_cons_zero, List.set_cons_succ, readBe32, List.take_succ_cons, List.take_zero,
      List.foldl_cons, List.foldl_nil, List.getElem_cons_zero, List.getElem_cons_succ] at heq hne <;>
    have hword := wrap32_inj ⟨by omega, by omega⟩ ⟨by omega, by omega⟩ heq <;> omega

-- Arithmetic on lengths must not look inside the words it meets.
attribute [irreducible] wrap32 readBe32

end Lib
