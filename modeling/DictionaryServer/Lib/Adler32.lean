/-
The Adler-32 checksum as zlib computes it: two sums modulo 65521, the first
over the bytes and the second over the values the first takes.

A byte is less than the modulus, so a single changed byte moves the first sum
and with it the checksum (`adler32_set`).
-/
import DictionaryServer.Lib.Bytes

namespace Lib.Adler32

/-- The largest prime below `2^16`. -/
def base : Nat := 65521

/-- The two sums after one more byte. -/
def step (s : Nat × Nat) (c : UInt8) : Nat × Nat :=
  let a := (s.1 + c.toNat) % base
  (a, (s.2 + a) % base)

/-- The sums after all of `b`. -/
def sums (s : Nat × Nat) (b : Bytes) : Nat × Nat := b.foldl step s

/-- `adler32(adler, buf, len)`. -/
def adler32 (adler : Nat) (buf : Bytes) (len : Nat) : Nat :=
  let s := sums (adler % 2 ^ 16, adler / 2 ^ 16) (buf.take len)
  s.2 * 2 ^ 16 + s.1

/-- The checksum looks at no more than `len` bytes. -/
theorem adler32_append {buf : Bytes} {len : Nat} (h : len ≤ buf.length) (adler : Nat) (more : Bytes) :
    adler32 adler (buf ++ more) len = adler32 adler buf len := by
  simp only [adler32, List.take_append_of_le_length h]

theorem adler32_take (adler : Nat) (buf : Bytes) (len : Nat) :
    adler32 adler (buf.take len) len = adler32 adler buf len := by
  simp only [adler32, List.take_take, Nat.min_self]

example : adler32 1 (ofText "Wikipedia") 9 = 0x11E60398 := by decide

/-! ## A changed byte -/

theorem sums_fst (s : Nat × Nat) (b : Bytes) (hs : s.1 < base) :
    (sums s b).1 = (s.1 + (b.map UInt8.toNat).sum) % base := by
  induction b generalizing s with
  | nil => simp [sums, Nat.mod_eq_of_lt hs]
  | cons c b ih =>
    have hstep : (step s c).1 < base := Nat.mod_lt _ (by decide)
    simp only [sums, List.foldl_cons, List.map_cons, List.sum_cons] at ih ⊢
    rw [ih _ hstep]
    simp only [step, Nat.mod_add_mod, Nat.add_assoc]

theorem sums_snd_lt (s : Nat × Nat) (b : Bytes) (hs : s.2 < base) : (sums s b).2 < base := by
  induction b generalizing s with
  | nil => exact hs
  | cons c b ih => exact ih _ (Nat.mod_lt _ (by decide))

theorem sum_set {b : Bytes} {i : Nat} (hi : i < b.length) (c : UInt8) :
    ((b.set i c).map UInt8.toNat).sum + b[i].toNat = (b.map UInt8.toNat).sum + c.toNat := by
  induction b generalizing i with
  | nil => simp at hi
  | cons x b ih =>
    cases i with
    | zero =>
      simp only [List.set_cons_zero, List.map_cons, List.sum_cons, List.getElem_cons_zero]
      omega
    | succ i =>
      have h := ih (Nat.lt_of_succ_lt_succ hi)
      simp only [List.set_cons_succ, List.map_cons, List.sum_cons, List.getElem_cons_succ]
      omega

theorem adler32_one (buf : Bytes) (len : Nat) :
    adler32 1 buf len = (sums (1, 0) (buf.take len)).2 * 2 ^ 16 + (sums (1, 0) (buf.take len)).1 := rfl

theorem adler32_lt (buf : Bytes) (len : Nat) : adler32 1 buf len < 2 ^ 32 := by
  have h₁ := sums_fst (1, 0) (buf.take len) (by decide)
  have h₂ := sums_snd_lt (1, 0) (buf.take len) (by decide)
  have hlt : (sums (1, 0) (buf.take len)).1 < base := h₁ ▸ Nat.mod_lt _ (by decide)
  simp only [adler32_one, base] at *
  omega

/-- **A changed byte changes the checksum**, for the first sum moves by less than `base`. -/
theorem adler32_set {buf : Bytes} {i len : Nat} {c : UInt8} (hi : i < len) (hlen : i < buf.length) (hc : c ≠ buf[i]) :
    adler32 1 (buf.set i c) len ≠ adler32 1 buf len := by
  intro heq
  have hne : c.toNat ≠ buf[i].toNat := fun h => hc (UInt8.toNat_inj.mp h)
  have hfst : (sums (1, 0) ((buf.set i c).take len)).1 = (sums (1, 0) (buf.take len)).1 := by
    have h₁ := sums_fst (1, 0) ((buf.set i c).take len) (by decide)
    have h₂ := sums_fst (1, 0) (buf.take len) (by decide)
    have hlt₁ := Nat.mod_lt (1 + (((buf.set i c).take len).map UInt8.toNat).sum) (show 0 < base by decide)
    have hlt₂ := Nat.mod_lt (1 + ((buf.take len).map UInt8.toNat).sum) (show 0 < base by decide)
    simp only [adler32_one, base] at *
    omega
  rw [sums_fst _ _ (by decide), sums_fst _ _ (by decide), List.take_set] at hfst
  have hsum := sum_set (b := buf.take len) (i := i) (by rw [List.length_take]; omega) c
  rw [List.getElem_take] at hsum
  have h₁ := c.toNat_lt
  have h₂ := buf[i].toNat_lt
  simp only [base] at hfst
  omega

end Lib.Adler32
