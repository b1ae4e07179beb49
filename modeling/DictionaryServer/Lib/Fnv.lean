/-
The FNV-1 hash, in words of any kind.

It is made of products and exclusive ors, so whatever keeps these (the low
bits of a word, say) keeps the hash: `map_fnv1`.
-/
import DictionaryServer.Lib.Bytes

namespace Lib

variable {W V : Type} [Mul W] [XorOp W] [Mul V] [XorOp V]

/-- Each octet is put in after a multiplication. -/
def fnv1 (prime init : W) (octet : UInt8 → W) (key : Bytes) : W :=
  key.foldl (fun hash c => (hash * prime) ^^^ octet c) init

/-- What keeps products and exclusive ors keeps the hash. -/
theorem map_fnv1 {f : W → V} (hmul : ∀ a b, f (a * b) = f a * f b) (hxor : ∀ a b, f (a ^^^ b) = f a ^^^ f b)
    (prime init : W) (octet : UInt8 → W) (key : Bytes) :
    f (fnv1 prime init octet key) = fnv1 (f prime) (f init) (fun c => f (octet c)) key := by
  induction key generalizing init with
  | nil => rfl
  | cons c key ih =>
    rw [fnv1, List.foldl_cons, ← fnv1, ih, hxor, hmul]
    rfl

end Lib
