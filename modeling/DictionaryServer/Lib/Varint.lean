/-
Base-128 varints: a number as groups of seven bits, lowest first, each byte
but the last with its high bit set.

Writer and reader are both bounded by a number of bytes, as a reader of
untrusted input has to be. `readVarint_varint` is the round trip for numbers
that fit.
-/
import DictionaryServer.Lib.Bytes

namespace Lib

/-- The varint of `n` in at most `k` bytes. -/
def varint : Nat → Nat → Bytes
  | 0, _ => []
  | k + 1, n => if n < 128 then [UInt8.ofNat n] else UInt8.ofNat (n % 128 + 128) :: varint k (n / 128)

/-- A varint of at most `k` bytes off the front of `b`, and what follows it. -/
def readVarint : Nat → Bytes → Option (Nat × Bytes)
  | 0, _ => none
  | _ + 1, [] => none
  | k + 1, c :: b =>
    if c.toNat < 128 then some (c.toNat, b)
    else (readVarint k b).map fun (n, rest) => (c.toNat % 128 + 128 * n, rest)

/-- **A varint reads back**, whatever follows it and however long a one the reader accepts. -/
theorem readVarint_varint {k n : Nat} (h : n < 128 ^ k) (hk : 0 < k) (j : Nat) (b : Bytes) :
    readVarint (k + j) (varint k n ++ b) = some (n, b) := by
  induction k generalizing n with
  | zero => exact absurd hk (lt_irrefl 0)
  | succ k ih =>
    rw [Nat.add_right_comm]
    unfold varint
    split
    · next hn =>
      have hc : (UInt8.ofNat n).toNat = n := by rw [UInt8.toNat_ofNat']; omega
      simp only [List.cons_append, List.nil_append, readVarint, hc, hn, if_true]
    · next hn =>
      have hc : (UInt8.ofNat (n % 128 + 128)).toNat = n % 128 + 128 := by rw [UInt8.toNat_ofNat']; omega
      have hdiv : n / 128 < 128 ^ k := by
        rw [Nat.div_lt_iff_lt_mul (by decide), ← pow_succ]
        exact h
      have hk' : 0 < k := by
        rcases Nat.eq_zero_or_pos k with rfl | hk'
        · rw [pow_zero] at hdiv
          omega
        · exact hk'
      have hbig : ¬n % 128 + 128 < 128 := by omega
      simp only [List.cons_append, readVarint, hc, hbig, if_false, ih hdiv hk', Option.map_some,
        Option.some.injEq, Prod.mk.injEq, and_true]
      omega

/-- Room it does not need does not change a varint. -/
theorem varint_add {k n : Nat} (h : n < 128 ^ k) (hk : 0 < k) (j : Nat) : varint (k + j) n = varint k n := by
  induction k generalizing n with
  | zero => exact absurd hk (lt_irrefl 0)
  | succ k ih =>
    rw [Nat.add_right_comm]
    unfold varint
    split
    · rfl
    · next hn =>
      have hdiv : n / 128 < 128 ^ k := by
        rw [Nat.div_lt_iff_lt_mul (by decide), ← pow_succ]
        exact h
      have hk' : 0 < k := by
        rcases Nat.eq_zero_or_pos k with rfl | hk'
        · rw [pow_zero] at hdiv
          omega
        · exact hk'
      rw [ih hdiv hk']

theorem length_varint_le (k n : Nat) : (varint k n).length ≤ k := by
  induction k generalizing n with
  | zero => exact Nat.le_refl _
  | succ k ih =>
    unfold varint
    split
    · exact Nat.succ_le_succ (Nat.zero_le k)
    · exact Nat.succ_le_succ (ih (n / 128))

theorem length_varint_full {k n : Nat} (h : 128 ^ k ≤ n) : (varint (k + 1) n).length = k + 1 := by
  induction k generalizing n with
  | zero =>
    unfold varint
    split <;> rfl
  | succ k ih =>
    have hdiv : 128 ^ k ≤ n / 128 := by
      rw [Nat.le_div_iff_mul_le (by decide), ← pow_succ]
      exact h
    have hpos : 0 < 128 ^ k := Nat.pow_pos (by decide)
    unfold varint
    rw [if_neg (by omega), List.length_cons, ih hdiv]

theorem readVarint_lt {k n : Nat} {b rest : Bytes} (h : readVarint k b = some (n, rest)) : rest.length < b.length := by
  induction k generalizing b n with
  | zero => cases h
  | succ k ih =>
    cases b with
    | nil => cases h
    | cons c b =>
      unfold readVarint at h
      split at h
      · cases h
        exact Nat.lt_succ_self _
      · obtain ⟨⟨m, r⟩, hr, heq⟩ := Option.map_eq_some_iff.mp h
        cases heq
        exact Nat.lt_succ_of_lt (ih hr)

/-- The bytes a 32-bit number takes. -/
def varintSize (n : Nat) : Nat :=
  if n < 2 ^ 7 then 1 else if n < 2 ^ 14 then 2 else if n < 2 ^ 21 then 3 else if n < 2 ^ 28 then 4 else 5

theorem length_varint {n : Nat} (h : n < 2 ^ 32) : (varint 5 n).length = varintSize n := by
  simp only [varint, varintSize]
  split_ifs <;> simp only [List.length_cons, List.length_nil] <;> omega

end Lib
