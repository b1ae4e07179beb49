/-
The hashes of HashKit that never lose a small difference: `HashKit/fnv.c`,
`HashKit/one_at_a_time.c` and `HashKit/murmur.c`.

Keys of one length have different hashes if they differ in one octet only, or
for Murmur within one group of four (`no_collision`). All but Murmur extend the
sign of an octet where `char` has one, and lose nothing by it.
-/
import DictionaryServer.HashKit.Crc
import DictionaryServer.Lib.Blocks
import DictionaryServer.Lib.Mixing

namespace DictionaryServer

open Lib Lib.Mixing Lib.Blocks Function

def FNV_32_INIT : UInt32 := 2166136261

def FNV_32_PRIME : UInt32 := 16777619

/-- The 64-bit constants, in 32-bit arithmetic. -/
def hash_fnv1a_64 (charSigned : Bool) (key : Bytes) : UInt32 :=
  key.foldl (fun hash c => (hash ^^^ charToUInt32 charSigned c) * FNV_64_PRIME.toUInt32) FNV_64_INIT.toUInt32

def hash_fnv1_32 (charSigned : Bool) (key : Bytes) : UInt32 :=
  key.foldl (fun hash c => (hash * FNV_32_PRIME) ^^^ charToUInt32 charSigned c) FNV_32_INIT

def hash_fnv1a_32 (charSigned : Bool) (key : Bytes) : UInt32 :=
  key.foldl (fun hash c => (hash ^^^ charToUInt32 charSigned c) * FNV_32_PRIME) FNV_32_INIT

/-- One turn of the loop of `hash_one_at_a_time`. -/
def one_at_a_time_turn (charSigned : Bool) (value : UInt32) (c : UInt8) : UInt32 :=
  let value := value + charToUInt32 charSigned c
  let value := value + (value <<< 10)
  value ^^^ (value >>> 6)

/-- What `hash_one_at_a_time` does after the loop. -/
def one_at_a_time_end (value : UInt32) : UInt32 :=
  let value := value + (value <<< 3)
  let value := value ^^^ (value >>> 11)
  value + (value <<< 15)

def hash_one_at_a_time (charSigned : Bool) (key : Bytes) : UInt32 :=
  one_at_a_time_end (key.foldl (one_at_a_time_turn charSigned) 0)

/-- `*(unsigned int *)data`, the low octet first. -/
def load32 (b₀ b₁ b₂ b₃ : UInt8) : UInt32 := ⟨b₃.toBitVec ++ b₂.toBitVec ++ b₁.toBitVec ++ b₀.toBitVec⟩

/-- `m` of `hash_murmur`. -/
def murmur_m : UInt32 := 0x5bd1e995

/-- One turn of the loop of `hash_murmur`. -/
def murmur_turn (h k : UInt32) : UInt32 :=
  let k := k * murmur_m
  let k := k ^^^ (k >>> 24)
  let k := k * murmur_m
  (h * murmur_m) ^^^ k

/-- `while (length >= 4)`. -/
def murmur_loop : UInt32 → Bytes → UInt32 × Bytes
  | h, b₀ :: b₁ :: b₂ :: b₃ :: data => murmur_loop (murmur_turn h (load32 b₀ b₁ b₂ b₃)) data
  | h, data => (h, data)

/-- `switch(length)`, whose cases fall through. -/
def murmur_tail (h : UInt32) : Bytes → UInt32
  | [d₀, d₁, d₂] => (h ^^^ (d₂.toUInt32 <<< 16) ^^^ (d₁.toUInt32 <<< 8) ^^^ d₀.toUInt32) * murmur_m
  | [d₀, d₁] => (h ^^^ (d₁.toUInt32 <<< 8) ^^^ d₀.toUInt32) * murmur_m
  | [d₀] => (h ^^^ d₀.toUInt32) * murmur_m
  | _ => h

/-- The last mixes of `hash_murmur`. -/
def murmur_end (h : UInt32) : UInt32 :=
  let h := h ^^^ (h >>> 13)
  let h := h * murmur_m
  h ^^^ (h >>> 15)

def hash_murmur (key : Bytes) : UInt32 :=
  let length := UInt32.ofNat key.length
  let seed := 0xdeadbeef * length
  let (h, data) := murmur_loop (seed ^^^ length) key
  murmur_end (murmur_tail h data)

/-! ## Octets -/

theorem charToUInt32_injective (charSigned : Bool) : Injective (charToUInt32 charSigned) := by
  intro c d h
  rw [← charToUInt32_toUInt8 charSigned c, h, charToUInt32_toUInt8]

theorem charToUInt64_toUInt32 (charSigned : Bool) (c : UInt8) :
    (charToUInt64 charSigned c).toUInt32 = charToUInt32 charSigned c := by
  cases charSigned with
  | false => simp [charToUInt64, charToUInt32]
  | true =>
    refine UInt32.toBitVec_inj.mp (BitVec.eq_of_getLsbD_eq fun i hi => ?_)
    have hwide : i < 64 := by omega
    show ((c.toBitVec.signExtend 64).setWidth 32).getLsbD i = (c.toBitVec.signExtend 32).getLsbD i
    rw [BitVec.getLsbD_setWidth, BitVec.getLsbD_signExtend, BitVec.getLsbD_signExtend, decide_eq_true hi,
      decide_eq_true hwide, Bool.true_and]

/-- The order of FNV-1: the product comes first. -/
theorem fnv1_mixes (charSigned : Bool) {prime q : UInt32} (h : prime * q = 1) :
    Mixes fun hash c => (hash * prime) ^^^ charToUInt32 charSigned c where
  state _ _ _ heq := mul_injective h (xor_injective _ heq)
  item _ _ _ heq := charToUInt32_injective charSigned ((UInt32.xor_right_inj _).mp heq)

/-- The order of FNV-1a: the product comes last. -/
theorem fnv1a_mixes (charSigned : Bool) {prime q : UInt32} (h : prime * q = 1) :
    Mixes fun hash c => (hash ^^^ charToUInt32 charSigned c) * prime where
  state _ _ _ heq := xor_injective _ (mul_injective h heq)
  item _ _ _ heq := charToUInt32_injective charSigned ((UInt32.xor_right_inj _).mp (mul_injective h heq))

/-- The 64-bit hash keeps 32 bits: it is the hash in these. -/
theorem hash_fnv1_64_eq32 (charSigned : Bool) (key : Bytes) :
    hash_fnv1_64 charSigned key =
      key.foldl (fun hash c => (hash * FNV_64_PRIME.toUInt32) ^^^ charToUInt32 charSigned c) FNV_64_INIT.toUInt32 := by
  rw [hash_fnv1_64_eq, map_fnv1 UInt64.toUInt32_mul UInt64.toUInt32_xor]
  simp only [charToUInt64_toUInt32]
  rfl

theorem fnv1_64_separates (charSigned : Bool) : Separates 1 (hash_fnv1_64 charSigned) := by
  rw [show hash_fnv1_64 charSigned = _ from funext (hash_fnv1_64_eq32 charSigned)]
  exact separates_foldl (fnv1_mixes charSigned (q := 0xaff6957b) (by decide)) injective_id _

theorem fnv1a_64_separates (charSigned : Bool) : Separates 1 (hash_fnv1a_64 charSigned) :=
  separates_foldl (fnv1a_mixes charSigned (q := 0xaff6957b) (by decide)) injective_id _

theorem fnv1_32_separates (charSigned : Bool) : Separates 1 (hash_fnv1_32 charSigned) :=
  separates_foldl (fnv1_mixes charSigned (q := 0x359c449b) (by decide)) injective_id _

theorem fnv1a_32_separates (charSigned : Bool) : Separates 1 (hash_fnv1a_32 charSigned) :=
  separates_foldl (fnv1a_mixes charSigned (q := 0x359c449b) (by decide)) injective_id _

theorem xor_shift32_injective {k : UInt32} (hk : 0 < k.toNat % 32) : Injective fun x : UInt32 => x ^^^ (x >>> k) := by
  intro x y h
  have hbits := congrArg UInt32.toBitVec h
  simp only [UInt32.toBitVec_xor, UInt32.toBitVec_shiftRight] at hbits
  exact UInt32.toBitVec_inj.mp (xor_shift_injective hk hbits)

theorem one_at_a_time_separates (charSigned : Bool) : Separates 1 (hash_one_at_a_time charSigned) := by
  have hten : Injective fun x : UInt32 => x + (x <<< 10) := add_shift_injective (q := 0xc00ffc01) (by decide)
  have hthree : Injective fun x : UInt32 => x + (x <<< 3) := add_shift_injective (q := 0x38e38e39) (by decide)
  have hfifteen : Injective fun x : UInt32 => x + (x <<< 15) := add_shift_injective (q := 0x3fff8001) (by decide)
  have hsix : Injective fun x : UInt32 => x ^^^ (x >>> 6) := xor_shift32_injective (by decide)
  have heleven : Injective fun x : UInt32 => x ^^^ (x >>> 11) := xor_shift32_injective (by decide)
  have hmixes : Mixes (one_at_a_time_turn charSigned) :=
    { state := fun _ _ _ heq => UInt32.add_left_inj _ |>.mp (hten (hsix heq))
      item := fun _ _ _ heq => charToUInt32_injective charSigned (UInt32.add_right_inj _ |>.mp (hten (hsix heq))) }
  have hend : Injective one_at_a_time_end := fun _ _ heq => hthree (heleven (hfifteen heq))
  exact separates_foldl hmixes hend 0

/-! ## Groups of four -/

theorem load32_eq (b₀ b₁ b₂ b₃ : UInt8) :
    load32 b₀ b₁ b₂ b₃ = (b₃.toUInt32 <<< 24) ^^^ (b₂.toUInt32 <<< 16) ^^^ (b₁.toUInt32 <<< 8) ^^^ b₀.toUInt32 := by
  have h₈ : ∀ y : UInt32, (y <<< 8).toBitVec = y.toBitVec <<< 8 := fun y => by simp
  have h₁₆ : ∀ y : UInt32, (y <<< 16).toBitVec = y.toBitVec <<< 16 := fun y => by simp
  have h₂₄ : ∀ y : UInt32, (y <<< 24).toBitVec = y.toBitVec <<< 24 := fun y => by simp
  have hwide : ∀ c : UInt8, c.toUInt32.toBitVec = c.toBitVec.setWidth 32 := fun c => rfl
  have hload : (load32 b₀ b₁ b₂ b₃).toBitVec = b₃.toBitVec ++ b₂.toBitVec ++ b₁.toBitVec ++ b₀.toBitVec := rfl
  refine UInt32.toBitVec_inj.mp (BitVec.eq_of_getLsbD_eq fun i hi => ?_)
  simp only [UInt32.toBitVec_xor, h₈, h₁₆, h₂₄, hwide, hload, BitVec.getLsbD_xor, BitVec.getLsbD_shiftLeft,
    BitVec.getLsbD_setWidth]
  rw [BitVec.getLsbD_append, BitVec.getLsbD_append, BitVec.getLsbD_append]
  have h₁ : i - 8 - 8 = i - 16 := by omega
  have h₂ : i - 16 - 8 = i - 24 := by omega
  have hlt : i - 8 < 32 ∧ i - 16 < 32 ∧ i - 24 < 32 := by omega
  have hout : ∀ (c : UInt8) (j : Nat), 8 ≤ j → c.toBitVec.getLsbD j = false := fun c j hj => BitVec.getLsbD_of_ge _ j hj
  have hregions : i < 8 ∨ (8 ≤ i ∧ i < 16) ∨ (16 ≤ i ∧ i < 24) ∨ 24 ≤ i := by omega
  rw [h₁, h₂]
  rcases hregions with h | ⟨h, h'⟩ | ⟨h, h'⟩ | h
  · simp [hi, h, show i < 16 by omega, show i < 24 by omega]
  · simp [hi, h', hlt, show ¬i < 8 by omega, show i < 24 by omega, show i - 8 < 8 by omega, hout b₀ i h]
  · simp [hi, h', hlt, show ¬i < 8 by omega, show ¬i < 16 by omega, show ¬i - 8 < 8 by omega, show i - 16 < 8 by omega,
      hout b₀ i (by omega), hout b₁ (i - 8) (by omega)]
  · simp [hi, hlt, show ¬i < 8 by omega, show ¬i < 16 by omega, show ¬i < 24 by omega, show ¬i - 8 < 8 by omega,
      show ¬i - 16 < 8 by omega, hout b₀ i (by omega), hout b₁ (i - 8) (by omega), hout b₂ (i - 16) (by omega)]

theorem load32_toNat (b₀ b₁ b₂ b₃ : UInt8) :
    (load32 b₀ b₁ b₂ b₃).toNat = b₀.toNat + 256 * b₁.toNat + 65536 * b₂.toNat + 16777216 * b₃.toNat := by
  have h₀ := b₀.toNat_lt
  have h₁ := b₁.toNat_lt
  have h₂ := b₂.toNat_lt
  show (b₃.toBitVec ++ b₂.toBitVec ++ b₁.toBitVec ++ b₀.toBitVec).toNat = _
  rw [BitVec.toNat_append, BitVec.toNat_append, BitVec.toNat_append, ← Nat.shiftLeft_add_eq_or_of_lt (by simpa using h₀),
    ← Nat.shiftLeft_add_eq_or_of_lt (by simpa using h₁), ← Nat.shiftLeft_add_eq_or_of_lt (by simpa using h₂),
    Nat.shiftLeft_eq, Nat.shiftLeft_eq, Nat.shiftLeft_eq]
  simp only [UInt8.toNat_toBitVec]
  omega

/-- Up to four octets as a word. -/
def word32 (data : Bytes) : UInt32 := load32 (data.getD 0 0) (data.getD 1 0) (data.getD 2 0) (data.getD 3 0)

theorem word32_injective {data data' : Bytes} (hlen : data.length = data'.length) (hfour : data.length ≤ 4)
    (h : word32 data = word32 data') : data = data' := by
  have hload := congrArg UInt32.toNat h
  simp only [word32, load32_toNat] at hload
  have hlt : ∀ (d : Bytes) i, (d.getD i 0).toNat < 256 := fun d i => (d.getD i 0).toNat_lt
  have h₀ := hlt data 0
  have h₁ := hlt data 1
  have h₂ := hlt data 2
  have h₀' := hlt data' 0
  have h₁' := hlt data' 1
  have h₂' := hlt data' 2
  have hget : ∀ i < 4, (data.getD i 0).toNat = (data'.getD i 0).toNat := by
    intro i hi
    have hcases : i = 0 ∨ i = 1 ∨ i = 2 ∨ i = 3 := by omega
    rcases hcases with rfl | rfl | rfl | rfl
    all_goals omega
  refine List.ext_getElem hlen fun i hi hi' => ?_
  have hi₄ := hget i (by omega)
  rw [List.getD_eq_getElem _ _ hi, List.getD_eq_getElem _ _ hi'] at hi₄
  exact UInt8.toNat_inj.mp hi₄

/-- Murmur takes in the whole groups of four and leaves the rest. -/
theorem murmur_loop_eq (h : UInt32) (key : Bytes) :
    murmur_loop h key = (((whole 4 key).map word32).foldl murmur_turn h, rest 4 key) := by
  induction h, key using murmur_loop.induct with
  | case1 h b₀ b₁ b₂ b₃ data ih =>
    have hfour : [b₀, b₁, b₂, b₃].length = 4 := rfl
    have hcons : b₀ :: b₁ :: b₂ :: b₃ :: data = [b₀, b₁, b₂, b₃] ++ data := rfl
    rw [murmur_loop, ih, hcons, whole_block hfour (by decide), rest_block hfour (by decide)]
    rfl
  | case2 h data hdata =>
    have hleft : murmur_loop h data = (h, data) := murmur_loop.eq_2 h data hdata
    have hshort : data.length < 4 := by
      rcases data with _ | ⟨b₀, _ | ⟨b₁, _ | ⟨b₂, _ | ⟨b₃, data⟩⟩⟩⟩
      · exact Nat.zero_lt_succ 3
      · exact (by decide : 1 < 4)
      · exact (by decide : 2 < 4)
      · exact (by decide : 3 < 4)
      · exact absurd rfl (hdata b₀ b₁ b₂ b₃ data)
    rw [hleft, whole_short hshort, rest_short hshort]
    rfl

theorem murmur_tail_eq {data : Bytes} (hdata : data.length < 4) (h : UInt32) :
    murmur_tail h data = if data = [] then h else (h ^^^ word32 data) * murmur_m := by
  have hzero : (0 : UInt8).toUInt32 = 0 := rfl
  have hshift : ∀ k : UInt32, (0 : UInt32) <<< k = 0 := fun k => by simp
  rcases data with _ | ⟨b₀, _ | ⟨b₁, _ | ⟨b₂, _ | ⟨b₃, data⟩⟩⟩⟩
  · rfl
  · simp [murmur_tail, word32, load32_eq]
  · simp [murmur_tail, word32, load32_eq, UInt32.xor_assoc]
  · simp [murmur_tail, word32, load32_eq, UInt32.xor_assoc]
  · simp at hdata
    omega

theorem murmur_mixes : Mixes murmur_turn := by
  have hm : Injective fun x : UInt32 => x * murmur_m := mul_injective (q := 0xe59b19bd) (by decide)
  have hshift : Injective fun x : UInt32 => x ^^^ (x >>> 24) := xor_shift32_injective (by decide)
  exact
    { state := fun _ _ _ heq => hm ((UInt32.xor_left_inj _).mp heq)
      item := fun _ _ _ heq => hm (hshift (hm ((UInt32.xor_right_inj _).mp heq))) }

theorem murmur_end_injective : Injective murmur_end := by
  have hm : Injective fun x : UInt32 => x * murmur_m := mul_injective (q := 0xe59b19bd) (by decide)
  have hthirteen : Injective fun x : UInt32 => x ^^^ (x >>> 13) := xor_shift32_injective (by decide)
  have hfifteen : Injective fun x : UInt32 => x ^^^ (x >>> 15) := xor_shift32_injective (by decide)
  exact fun _ _ heq => hthirteen (hm (hfifteen heq))

theorem murmur_tail_injective {data : Bytes} (hdata : data.length < 4) : Injective fun h => murmur_tail h data := by
  intro h h' heq
  simp only [murmur_tail_eq hdata] at heq
  split at heq
  · exact heq
  · exact (UInt32.xor_left_inj _).mp (mul_injective (q := 0xe59b19bd) (by decide) heq)

theorem murmur_tail_item {data data' : Bytes} (hlen : data.length = data'.length) (hdata : data.length < 4) {h : UInt32}
    (heq : murmur_tail h data = murmur_tail h data') : data = data' := by
  cases data with
  | nil => exact (List.length_eq_zero_iff.mp hlen.symm).symm
  | cons c data =>
    have hne' : data' ≠ [] := by
      rintro rfl
      cases hlen
    rw [murmur_tail_eq hdata, murmur_tail_eq (hlen ▸ hdata), if_neg (List.cons_ne_nil _ _), if_neg hne'] at heq
    have hword := (UInt32.xor_right_inj _).mp (mul_injective (q := 0xe59b19bd) (by decide) heq)
    exact word32_injective hlen hdata.le hword

theorem groups_eq {key key' : Bytes} {i : Nat} (hother : ∀ j, j / 4 ≠ i → key[j]? = key'[j]?) {j : Nat} (hj : j ≠ i) :
    (key.drop (4 * j)).take 4 = (key'.drop (4 * j)).take 4 := by
  refine List.ext_getElem? fun k => ?_
  rw [List.getElem?_take, List.getElem?_take, List.getElem?_drop, List.getElem?_drop]
  split
  · exact hother _ (by omega)
  · rfl

/-- Only the last group may reach into the rest. -/
theorem rest_eq {key key' : Bytes} {i : Nat} (hlen : key.length = key'.length)
    (hother : ∀ j, j / 4 ≠ i → key[j]? = key'[j]?) (hi : i ≠ key.length / 4) : rest 4 key = rest 4 key' := by
  refine List.ext_getElem? fun k => ?_
  rw [rest, rest, ← hlen, List.getElem?_drop, List.getElem?_drop]
  by_cases hk : 4 * (key.length / 4) + k < key.length
  · exact hother _ (by omega)
  · rw [List.getElem?_eq_none (by omega), List.getElem?_eq_none (by omega)]

theorem murmur_separates : Separates 4 hash_murmur := by
  intro key key' i hlen hother hne heq
  have hrest_lt : (rest 4 key).length < 4 := rest_length_lt (by decide) key
  have hrest_len : (rest 4 key).length = (rest 4 key').length := by rw [rest_length, rest_length, hlen]
  rw [hash_murmur, hash_murmur, ← hlen] at heq
  simp only [murmur_loop_eq] at heq
  have htail := murmur_end_injective heq
  have hgroup : ∀ j, j ≠ i → (whole 4 key)[j]? = (whole 4 key')[j]? := by
    intro j hj
    rw [whole, whole, ← hlen]
    by_cases hlt : j < key.length / 4
    · rw [getElem_blocks hlt, getElem_blocks hlt, groups_eq hother hj]
    · rw [List.getElem?_eq_none (by simpa using hlt), List.getElem?_eq_none (by simpa using hlt)]
  by_cases hi : i = key.length / 4
  · -- The groups are the same, so the rests differ.
    have hwhole : whole 4 key = whole 4 key' := by
      refine List.ext_getElem? fun j => ?_
      by_cases hj : j = i
      · rw [hj, hi, List.getElem?_eq_none (by simp [whole]), List.getElem?_eq_none (by simp [whole, hlen])]
      · exact hgroup j hj
    rw [hwhole] at htail
    have hrest := murmur_tail_item hrest_len hrest_lt htail
    exact hne ((whole_rest key).symm.trans ((congrArg₂ (· ++ ·) (congrArg _ hwhole) hrest).trans (whole_rest key')))
  · -- The rests are the same, so the groups differ.
    have hrest := rest_eq hlen hother hi
    rw [hrest] at htail
    have hfold := murmur_tail_injective (hrest ▸ hrest_lt) htail
    refine foldl_ne murmur_mixes (i := i) ?_ ?_ ?_ _ hfold
    · simp [whole, hlen]
    · intro j hj
      rw [List.getElem?_map, List.getElem?_map, hgroup j hj]
    · intro hwords
      have hwhole : whole 4 key = whole 4 key' := by
        refine List.ext_getElem (by simp [whole, hlen]) fun j hj hj' => ?_
        have hword : word32 (whole 4 key)[j] = word32 (whole 4 key')[j] := by
          have hget := congrArg (fun l => l[j]?) hwords
          simpa [hj, hj'] using hget
        have hfour := length_of_mem_blocks (Nat.mul_div_le key.length 4) (List.getElem_mem hj)
        have hfour' := length_of_mem_blocks (Nat.mul_div_le key'.length 4) (List.getElem_mem hj')
        exact word32_injective (hfour.trans hfour'.symm) hfour.le hword
      exact hne ((whole_rest key).symm.trans ((congrArg₂ (· ++ ·) (congrArg _ hwhole) hrest).trans (whole_rest key')))

/-- **No small difference is lost**: keys of one length have different hashes if
they differ in one octet, under the hashes that go octet by octet, or within one
group of four, under Murmur. -/
theorem no_collision (charSigned : Bool) :
    Separates 1 (hash_fnv1_64 charSigned) ∧ Separates 1 (hash_fnv1a_64 charSigned) ∧
      Separates 1 (hash_fnv1_32 charSigned) ∧ Separates 1 (hash_fnv1a_32 charSigned) ∧
      Separates 1 (hash_one_at_a_time charSigned) ∧ Separates 4 hash_murmur :=
  ⟨fnv1_64_separates charSigned, fnv1a_64_separates charSigned, fnv1_32_separates charSigned,
    fnv1a_32_separates charSigned, one_at_a_time_separates charSigned, murmur_separates⟩

end DictionaryServer
