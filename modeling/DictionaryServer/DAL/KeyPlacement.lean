/-
Which server a key goes to (`HiredisPool::getHiredis` over `hash_fnv1_64`,
HashKit/fnv.c), against FNV-1 over the key's octets.

Where `char` is signed the hash takes in every byte from 0x80 on with its sign
extended, which changes all but the low eight bits. So such a build places all
keys right in the pools that look at these bits only (`toUInt8_hash`,
`getHiredis_placed_iff`): in any other, one of "é" and "中" goes astray.
-/
import DictionaryServer.DAL.HiredisPool
import DictionaryServer.Lib.Fnv

namespace DictionaryServer

open Lib

/-- The 64-bit FNV-1 hash of the key's octets. -/
def FNV1_64 (key : Bytes) : UInt64 := fnv1 FNV_64_PRIME FNV_64_INIT UInt8.toUInt64 key

theorem hash_fnv1_64_eq (charSigned : Bool) (key : Bytes) :
    hash_fnv1_64 charSigned key = (fnv1 FNV_64_PRIME FNV_64_INIT (charToUInt64 charSigned) key).toUInt32 := rfl

theorem charToUInt64_unsigned (c : UInt8) : charToUInt64 false c = c.toUInt64 := by simp [charToUInt64]

/-- Below 0x80 there is no sign. -/
theorem charToUInt64_ascii {c : UInt8} (hc : c < 0x80) (charSigned : Bool) : charToUInt64 charSigned c = c.toUInt64 := by
  cases charSigned with
  | false => exact charToUInt64_unsigned c
  | true =>
    have hmsb : c.toBitVec.msb = false := by
      rw [BitVec.msb_eq_decide]
      simpa [UInt8.lt_iff_toNat_lt] using hc
    refine UInt64.toBitVec_inj.mp ?_
    simp [charToUInt64, BitVec.signExtend_eq_setWidth_of_msb_false hmsb]

theorem charToUInt64_toUInt8 (charSigned : Bool) (c : UInt8) : (charToUInt64 charSigned c).toUInt8 = c := by
  cases charSigned with
  | false => simp [charToUInt64]
  | true =>
    refine UInt8.toBitVec_inj.mp (BitVec.eq_of_getLsbD_eq fun i hi => ?_)
    simp [charToUInt64, BitVec.getLsbD_signExtend, hi]
    omega

/-! ## Placement -/

namespace HiredisPool

/-- Where FNV-1 places the key among `n` servers. -/
def placement (key : Bytes) (n : Nat) : Nat := (FNV1_64 key).toNat % 2 ^ 32 % n

theorem hash_unsigned (key : Bytes) : (hash_fnv1_64 false key).toNat = (FNV1_64 key).toNat % 2 ^ 32 := by
  have hchar : charToUInt64 false = UInt8.toUInt64 := funext charToUInt64_unsigned
  rw [hash_fnv1_64_eq, hchar, UInt64.toNat_toUInt32]
  rfl

theorem hash_ascii {key : Bytes} (hkey : ∀ c ∈ key, c < 0x80) (charSigned : Bool) :
    hash_fnv1_64 charSigned key = hash_fnv1_64 false key := by
  rw [hash_fnv1_64_eq, hash_fnv1_64_eq]
  congr 1
  refine List.foldl_ext _ _ _ fun hash c hc => ?_
  rw [charToUInt64_ascii (hkey c hc), charToUInt64_unsigned]

/-- The low octet of the hash is the same on every build. -/
theorem toUInt8_hash (charSigned : Bool) (key : Bytes) :
    (hash_fnv1_64 charSigned key).toNat % 256 = (hash_fnv1_64 false key).toNat % 256 := by
  have hlow : ∀ signed, (hash_fnv1_64 signed key).toNat % 256 =
      (fnv1 FNV_64_PRIME.toUInt8 FNV_64_INIT.toUInt8 id key).toNat := by
    intro signed
    have hmap := map_fnv1 UInt64.toUInt8_mul UInt64.toUInt8_xor FNV_64_PRIME FNV_64_INIT (charToUInt64 signed) key
    simp only [charToUInt64_toUInt8] at hmap
    rw [hash_fnv1_64_eq, UInt64.toNat_toUInt32, Nat.mod_mod_of_dvd _ (by decide)]
    exact (UInt64.toNat_toUInt8 _).symm.trans (congrArg UInt8.toNat hmap)
  rw [hlow, hlow]

theorem getHiredis_eq (conf : Configure) (charSigned : Bool) (key : Bytes) :
    (getHiredis conf charSigned key : Nat) = (hash_fnv1_64 charSigned key).toNat % conf.poolSize := rfl

theorem getHiredis_unsigned (conf : Configure) (key : Bytes) :
    (getHiredis conf false key : Nat) = placement key conf.poolSize := by
  rw [getHiredis_eq, hash_unsigned, placement]

theorem getHiredis_ascii (conf : Configure) (charSigned : Bool) {key : Bytes} (hkey : ∀ c ∈ key, c < 0x80) :
    (getHiredis conf charSigned key : Nat) = placement key conf.poolSize := by
  rw [← getHiredis_unsigned, getHiredis_eq, hash_ascii hkey, ← getHiredis_eq]

/-- A pool that looks at the low octet only is served alike by every build. -/
theorem getHiredis_of_dvd {conf : Configure} (h : conf.poolSize ∣ 256) (charSigned : Bool) (key : Bytes) :
    (getHiredis conf charSigned key : Nat) = placement key conf.poolSize := by
  rw [← getHiredis_unsigned, getHiredis_eq, getHiredis_eq, ← Nat.mod_mod_of_dvd _ h, toUInt8_hash,
    Nat.mod_mod_of_dvd _ h]

/-- The hashes of "é" and of "中" on two builds have only the divisors of 256
in common between them. -/
theorem dvd_of_agree {n : Nat} (h : ∀ key, (hash_fnv1_64 true key).toNat % n = (hash_fnv1_64 false key).toNat % n) :
    n ∣ 256 := by
  have hdvd : ∀ key d, (hash_fnv1_64 true key).toNat = (hash_fnv1_64 false key).toNat + d → n ∣ d := by
    intro key d hd
    have hmod : (hash_fnv1_64 false key).toNat + 0 ≡ (hash_fnv1_64 false key).toNat + d [MOD n] := by
      rw [Nat.add_zero, ← hd]
      exact (h key).symm
    exact Nat.dvd_of_mod_eq_zero (Nat.ModEq.add_left_cancel' _ hmod).symm
  have hlatin : n ∣ 87040 := hdvd (ofText "é") 87040 (by decide)
  have hhan : n ∣ 704945408 := hdvd (ofText "中") 704945408 (by decide)
  exact Nat.dvd_gcd hlatin hhan

theorem placed_iff (conf : Configure) (charSigned : Bool) :
    (∀ key, (getHiredis conf charSigned key : Nat) = placement key conf.poolSize) ↔
      charSigned = false ∨ conf.poolSize ∣ 256 := by
  constructor
  · intro h
    cases charSigned with
    | false => exact .inl rfl
    | true =>
      refine .inr (dvd_of_agree fun key => ?_)
      rw [← getHiredis_eq, h, hash_unsigned, placement]
  · rintro (rfl | hdvd) key
    · exact getHiredis_unsigned conf key
    · exact getHiredis_of_dvd hdvd charSigned key

/-- **Which keys go where FNV-1 over their octets places them**: on a build
with an unsigned `char` all, on one with a signed `char` all if the number of
servers divides 256, and else those of ASCII alone for certain. So the two
builds agree on all keys in these pools only. -/
theorem getHiredis_placed_iff (conf : Configure) (charSigned : Bool) :
    ((∀ key, (getHiredis conf charSigned key : Nat) = placement key conf.poolSize) ↔
      charSigned = false ∨ conf.poolSize ∣ 256) ∧
    ((∀ key, getHiredis conf true key = getHiredis conf false key) ↔ conf.poolSize ∣ 256) ∧
    ∀ key, (∀ c ∈ key, c < 0x80) → (getHiredis conf charSigned key : Nat) = placement key conf.poolSize := by
  refine ⟨placed_iff conf charSigned, ?_, fun key hkey => getHiredis_ascii conf charSigned hkey⟩
  have hsigned := placed_iff conf true
  simp only [Bool.true_eq_false, false_or] at hsigned
  rw [← hsigned]
  simp only [Fin.ext_iff, getHiredis_unsigned]

def threeServers : Configure where
  poolSize := 3
  serverAddrs_ne := by decide
  poolSize_lt := by decide
  perServerConn := fun _ => 1
  preConnect := true

/-- With three servers "é" goes to another one where `char` is signed. -/
theorem getHiredis_astray :
    (getHiredis threeServers true (ofText "é") : Nat) ≠ placement (ofText "é") threeServers.poolSize ∧
      getHiredis threeServers true (ofText "é") ≠ getHiredis threeServers false (ofText "é") := by
  decide

end HiredisPool

end DictionaryServer
