/-
`db::HiredisPool` (DAL/HiredisPool.h, DAL/HiredisPool.cc): one `Hiredis`
object for each configured server, and the hash that chooses between them.

The servers have the ids `0` to `poolSize - 1`. `genUniqueConId` packs such an
id and a connection id into the key of `clientConns_`; it does not confuse two
connections (`genUniqueConId_inj`), nor a connection with the `-1` that stands
for none.
-/
import DictionaryServer.DAL.HiredisRuns

namespace DictionaryServer

open Lib

/-- What the pool takes from `Configure`. The program gives every server the
same number of connections; nothing depends on it. -/
structure Configure where
  poolSize : Nat
  /-- `assert(!serverAddrs_.empty())` -/
  serverAddrs_ne : 0 < poolSize
  /-- `poolSize_` is an `int`. -/
  poolSize_lt : poolSize < 2 ^ 31
  perServerConn : Fin poolSize → Int32
  preConnect : Bool

def FNV_64_INIT : UInt64 := 0xcbf29ce484222325
def FNV_64_PRIME : UInt64 := 0x100000001b3

/-- `(uint64_t)key[x]`, which extends the sign where `char` has one. -/
def charToUInt64 (charSigned : Bool) (c : UInt8) : UInt64 :=
  if charSigned then c.toInt8.toInt64.toUInt64 else c.toUInt64

/-- `hash_fnv1_64`, built with a `char` that is signed or not. -/
def hash_fnv1_64 (charSigned : Bool) (key : Bytes) : UInt32 :=
  (key.foldl (fun hash c => (hash * FNV_64_PRIME) ^^^ charToUInt64 charSigned c) FNV_64_INIT).toUInt32

/-- The clients of the pool, `clients_`. -/
abbrev HiredisPool (conf : Configure) (κ : Type) := Fin conf.poolSize → Hiredis κ

namespace HiredisPool

variable {conf : Configure} {κ : Type}

def create (conf : Configure) : HiredisPool conf κ := fun i => Hiredis.create (Int32.ofNat i) (conf.perServerConn i)

/-- Which client `getHiredis` returns. -/
def getHiredis (conf : Configure) (charSigned : Bool) (key : Bytes) : Fin conf.poolSize :=
  ⟨(hash_fnv1_64 charSigned key).toNat % conf.poolSize, Nat.mod_lt _ conf.serverAddrs_ne⟩

/-- What `connect` may leave: each client opened, or, without `preConnect`, none. -/
def Connected (pool : HiredisPool conf κ) : Prop :=
  if conf.preConnect then ∀ i, (create conf i : Hiredis κ).connect = .ok (pool i) else pool = create conf

end HiredisPool

/-! ## Unique connection ids -/

theorem genUniqueConId_low (serverId conId : Int32) {i : Nat} (hi : i < 32) :
    (genUniqueConId serverId conId).toBitVec.getLsbD i = conId.toBitVec.getLsbD i := by
  have h32 : (32 : Int64).toBitVec.smod 64 = 32#64 := by decide
  have h64 : i < 64 := by omega
  simp only [genUniqueConId, Int64.toBitVec_or, Int64.toBitVec_shiftLeft, Int32.toBitVec_toInt64, h32,
    BitVec.getLsbD_or, BitVec.getLsbD_signExtend, BitVec.shiftLeft_eq', BitVec.getLsbD_shiftLeft, BitVec.toNat_ofNat]
  simp [hi, h64]

theorem genUniqueConId_high (serverId conId : Int32) (hc : conId.toBitVec.msb = false) {i : Nat} (hi : i < 32) :
    (genUniqueConId serverId conId).toBitVec.getLsbD (32 + i) = serverId.toBitVec.getLsbD i := by
  have h32 : (32 : Int64).toBitVec.smod 64 = 32#64 := by decide
  have h64 : 32 + i < 64 := by omega
  have h64' : i < 64 := by omega
  simp only [genUniqueConId, Int64.toBitVec_or, Int64.toBitVec_shiftLeft, Int32.toBitVec_toInt64, h32,
    BitVec.getLsbD_or, BitVec.getLsbD_signExtend, BitVec.shiftLeft_eq', BitVec.getLsbD_shiftLeft, BitVec.toNat_ofNat]
  simp [hi, hc, h64, h64']

/-- The low half of a unique id is the connection id. -/
theorem conId_of_unique {s s' c c' : Int32} (h : genUniqueConId s c = genUniqueConId s' c') : c = c' := by
  refine Int32.toBitVec_inj.mp (BitVec.eq_of_getLsbD_eq fun i hi => ?_)
  rw [← genUniqueConId_low s c hi, h, genUniqueConId_low s' c' hi]

theorem serverId_of_unique {s s' c c' : Int32} (hc : c.toBitVec.msb = false)
    (h : genUniqueConId s c = genUniqueConId s' c') : s = s' := by
  have hc' : c'.toBitVec.msb = false := conId_of_unique h ▸ hc
  refine Int32.toBitVec_inj.mp (BitVec.eq_of_getLsbD_eq fun i hi => ?_)
  rw [← genUniqueConId_high s c hc hi, h, genUniqueConId_high s' c' hc' hi]

theorem msb_ofNat {p : Nat} (hp : p < 2 ^ 31) : (Int32.ofNat p).toBitVec.msb = false := by
  show (BitVec.ofNat 32 p).msb = false
  rw [BitVec.msb_eq_decide]
  simp only [BitVec.toNat_ofNat, decide_eq_false_iff_not]
  omega

/-- **Different connections have different unique ids.** -/
theorem genUniqueConId_inj {i j p q : Nat} (hi : i < 2 ^ 31) (hj : j < 2 ^ 31) (hp : p < 2 ^ 31) (hq : q < 2 ^ 31)
    (h : genUniqueConId (Int32.ofNat i) (Int32.ofNat p) = genUniqueConId (Int32.ofNat j) (Int32.ofNat q)) :
    i = j ∧ p = q :=
  ⟨ofNat_inj hi hj (serverId_of_unique (msb_ofNat hp) h), ofNat_inj hp hq (conId_of_unique h)⟩

theorem genUniqueConId_ne_none {p : Nat} (hp : p < 2 ^ 31) (s s' : Int32) :
    genUniqueConId s (Int32.ofNat p) ≠ genUniqueConId s' (-1) := by
  intro h
  have hc := congrArg Int32.toInt (conId_of_unique h)
  rw [Int32.toInt_ofNat_of_lt hp] at hc
  have hneg : (-1 : Int32).toInt = -1 := rfl
  omega

end DictionaryServer
