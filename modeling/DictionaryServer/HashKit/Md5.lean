/-
`HashKit/md5.c` against MD5 as RFC 1321 has it: the message is padded, and taken
in by blocks of 64 octets, each in 64 operations of one form.

The code unrolls these operations, and takes the message in parts of any sizes
through a buffer that holds what does not fill a block (`Absorbed`). A write or
a read outside the buffer or the data is `none`; there is none
(`Update_absorbed`, `Final_eq`).
-/
import DictionaryServer.Lib.Blocks
import DictionaryServer.Lib.Bytes

namespace DictionaryServer

open Lib Lib.Blocks

/-! ## The code -/

namespace MD5

structure Registers where
  a : UInt32
  b : UInt32
  c : UInt32
  d : UInt32

/-- The four functions of the rounds. -/
inductive Round
  | F | G | H | I
  deriving DecidableEq

/-- The macros `F`, `G`, `H` and `I`. -/
def Round.apply : Round → UInt32 → UInt32 → UInt32 → UInt32
  | .F, x, y, z => z ^^^ (x &&& (y ^^^ z))
  | .G, x, y, z => y ^^^ (z &&& (x ^^^ y))
  | .H, x, y, z => x ^^^ y ^^^ z
  | .I, x, y, z => y ^^^ (x ||| ~~~z)

/-- The register an operation writes. -/
inductive Register
  | a | b | c | d
  deriving DecidableEq

/-- One use of `STEP`: the function, the register written (the three others follow
it in turn), the word of the block, the constant and the rotation. -/
structure Step where
  f : Round
  target : Register
  n : Nat
  t : UInt32
  s : UInt32
  deriving DecidableEq

/-- What `STEP` assigns to its first register. -/
def STEP (f : Round) (a b c d x t s : UInt32) : UInt32 :=
  let a := a + (f.apply b c d + x + t)
  let a := (a <<< s) ||| ((a &&& 0xffffffff) >>> (32 - s))
  a + b

/-- `SET(n)` and `GET(n)`: a word of the block, its low octet first. -/
def GET (ptr : Bytes) (n : Nat) : UInt32 :=
  (ptr.getD (n * 4) 0).toUInt32 ||| ((ptr.getD (n * 4 + 1) 0).toUInt32 <<< 8) |||
    ((ptr.getD (n * 4 + 2) 0).toUInt32 <<< 16) ||| ((ptr.getD (n * 4 + 3) 0).toUInt32 <<< 24)

def Step.run (ptr : Bytes) (r : Registers) (step : Step) : Registers :=
  match step.target with
  | .a => { r with a := STEP step.f r.a r.b r.c r.d (GET ptr step.n) step.t step.s }
  | .d => { r with d := STEP step.f r.d r.a r.b r.c (GET ptr step.n) step.t step.s }
  | .c => { r with c := STEP step.f r.c r.d r.a r.b (GET ptr step.n) step.t step.s }
  | .b => { r with b := STEP step.f r.b r.c r.d r.a (GET ptr step.n) step.t step.s }

/-- The four rounds, unrolled. -/
def steps : List Step := [
  ⟨.F, .a, 0, 0xd76aa478, 7⟩, ⟨.F, .d, 1, 0xe8c7b756, 12⟩, ⟨.F, .c, 2, 0x242070db, 17⟩, ⟨.F, .b, 3, 0xc1bdceee, 22⟩,
  ⟨.F, .a, 4, 0xf57c0faf, 7⟩, ⟨.F, .d, 5, 0x4787c62a, 12⟩, ⟨.F, .c, 6, 0xa8304613, 17⟩, ⟨.F, .b, 7, 0xfd469501, 22⟩,
  ⟨.F, .a, 8, 0x698098d8, 7⟩, ⟨.F, .d, 9, 0x8b44f7af, 12⟩, ⟨.F, .c, 10, 0xffff5bb1, 17⟩, ⟨.F, .b, 11, 0x895cd7be, 22⟩,
  ⟨.F, .a, 12, 0x6b901122, 7⟩, ⟨.F, .d, 13, 0xfd987193, 12⟩, ⟨.F, .c, 14, 0xa679438e, 17⟩, ⟨.F, .b, 15, 0x49b40821, 22⟩,
  ⟨.G, .a, 1, 0xf61e2562, 5⟩, ⟨.G, .d, 6, 0xc040b340, 9⟩, ⟨.G, .c, 11, 0x265e5a51, 14⟩, ⟨.G, .b, 0, 0xe9b6c7aa, 20⟩,
  ⟨.G, .a, 5, 0xd62f105d, 5⟩, ⟨.G, .d, 10, 0x02441453, 9⟩, ⟨.G, .c, 15, 0xd8a1e681, 14⟩, ⟨.G, .b, 4, 0xe7d3fbc8, 20⟩,
  ⟨.G, .a, 9, 0x21e1cde6, 5⟩, ⟨.G, .d, 14, 0xc33707d6, 9⟩, ⟨.G, .c, 3, 0xf4d50d87, 14⟩, ⟨.G, .b, 8, 0x455a14ed, 20⟩,
  ⟨.G, .a, 13, 0xa9e3e905, 5⟩, ⟨.G, .d, 2, 0xfcefa3f8, 9⟩, ⟨.G, .c, 7, 0x676f02d9, 14⟩, ⟨.G, .b, 12, 0x8d2a4c8a, 20⟩,
  ⟨.H, .a, 5, 0xfffa3942, 4⟩, ⟨.H, .d, 8, 0x8771f681, 11⟩, ⟨.H, .c, 11, 0x6d9d6122, 16⟩, ⟨.H, .b, 14, 0xfde5380c, 23⟩,
  ⟨.H, .a, 1, 0xa4beea44, 4⟩, ⟨.H, .d, 4, 0x4bdecfa9, 11⟩, ⟨.H, .c, 7, 0xf6bb4b60, 16⟩, ⟨.H, .b, 10, 0xbebfbc70, 23⟩,
  ⟨.H, .a, 13, 0x289b7ec6, 4⟩, ⟨.H, .d, 0, 0xeaa127fa, 11⟩, ⟨.H, .c, 3, 0xd4ef3085, 16⟩, ⟨.H, .b, 6, 0x04881d05, 23⟩,
  ⟨.H, .a, 9, 0xd9d4d039, 4⟩, ⟨.H, .d, 12, 0xe6db99e5, 11⟩, ⟨.H, .c, 15, 0x1fa27cf8, 16⟩, ⟨.H, .b, 2, 0xc4ac5665, 23⟩,
  ⟨.I, .a, 0, 0xf4292244, 6⟩, ⟨.I, .d, 7, 0x432aff97, 10⟩, ⟨.I, .c, 14, 0xab9423a7, 15⟩, ⟨.I, .b, 5, 0xfc93a039, 21⟩,
  ⟨.I, .a, 12, 0x655b59c3, 6⟩, ⟨.I, .d, 3, 0x8f0ccc92, 10⟩, ⟨.I, .c, 10, 0xffeff47d, 15⟩, ⟨.I, .b, 1, 0x85845dd1, 21⟩,
  ⟨.I, .a, 8, 0x6fa87e4f, 6⟩, ⟨.I, .d, 15, 0xfe2ce6e0, 10⟩, ⟨.I, .c, 6, 0xa3014314, 15⟩, ⟨.I, .b, 13, 0x4e0811a1, 21⟩,
  ⟨.I, .a, 4, 0xf7537e82, 6⟩, ⟨.I, .d, 11, 0xbd3af235, 10⟩, ⟨.I, .c, 2, 0x2ad7d2bb, 15⟩, ⟨.I, .b, 9, 0xeb86d391, 21⟩]

/-- One turn of the loop of `body`. -/
def turn (r : Registers) (ptr : Bytes) : Registers :=
  let saved := r
  let r := steps.foldl (Step.run ptr) r
  ⟨r.a + saved.a, r.b + saved.b, r.c + saved.c, r.d + saved.d⟩

/-- A `uint32_t` in four octets, the low one first. -/
def octets (x : UInt32) : Bytes := [x.toUInt8, (x >>> 8).toUInt8, (x >>> 16).toUInt8, (x >>> 24).toUInt8]

/-- The 64 octets of `buffer`. -/
abbrev Buffer := { b : Bytes // b.length = 64 }

/-- `memcpy(&buffer[used], data, size)`. -/
def memcpy (buffer : Buffer) (used : Nat) (data : Bytes) (size : Nat) : Option Buffer :=
  if h : used + size ≤ 64 ∧ size ≤ data.length then
    some ⟨buffer.1.take used ++ data.take size ++ buffer.1.drop (used + size), by
      have hb := buffer.2
      simp only [List.length_append, List.length_take, List.length_drop]
      omega⟩
  else none

end MD5

structure MD5_CTX extends MD5.Registers where
  /-- The number of octets so far, its low 29 bits. -/
  lo : UInt32
  hi : UInt32
  buffer : MD5.Buffer

namespace MD5

/-- The size is that of one or more whole blocks. -/
def body (ctx : MD5_CTX) (data : Bytes) (size : Nat) : Option (MD5_CTX × Bytes) :=
  if 64 ≤ data.length then
    let ctx := { ctx with toRegisters := turn ctx.toRegisters (data.take 64) }
    let ptr := data.drop 64
    if size - 64 = 0 then some (ctx, ptr) else body ctx ptr (size - 64)
  else none
termination_by data.length
decreasing_by simp only [List.length_drop]; omega

end MD5

open MD5

/-- The buffer is not written. -/
def MD5_Init (ctx : MD5_CTX) : MD5_CTX :=
  { ctx with a := 0x67452301, b := 0xefcdab89, c := 0x98badcfe, d := 0x10325476, lo := 0, hi := 0 }

/-- The end of `MD5_Update`, where the buffer holds nothing. -/
def MD5_Update_blocks (ctx : MD5_CTX) (data : Bytes) (size : Nat) : Option MD5_CTX := do
  if size ≥ 64 then
    let (ctx, data) ← body ctx data (64 * (size / 64))
    let buffer ← memcpy ctx.buffer 0 data (size % 64)
    return { ctx with buffer := buffer }
  else
    let buffer ← memcpy ctx.buffer 0 data size
    return { ctx with buffer := buffer }

def MD5_Update (ctx : MD5_CTX) (data : Bytes) (size : UInt64) : Option MD5_CTX := do
  let saved_lo := ctx.lo
  let lo := ((saved_lo.toUInt64 + size) &&& 0x1fffffff).toUInt32
  let hi := if lo < saved_lo then ctx.hi + 1 else ctx.hi
  let ctx := { ctx with lo := lo, hi := hi + (size >>> 29).toUInt32 }
  let used := (saved_lo &&& 0x3f).toNat
  if used ≠ 0 then
    let free := 64 - used
    if size.toNat < free then
      let buffer ← memcpy ctx.buffer used data size.toNat
      return { ctx with buffer := buffer }
    else
      let buffer ← memcpy ctx.buffer used data free
      let (ctx, _) ← body { ctx with buffer := buffer } buffer.1 64
      MD5_Update_blocks ctx (data.drop free) (size.toNat - free)
  else MD5_Update_blocks ctx data size.toNat

namespace MD5

/-- What `MD5_Final` writes to `result`. -/
def output (r : Registers) : Bytes := octets r.a ++ octets r.b ++ octets r.c ++ octets r.d

/-- `memset(ctx, 0, sizeof(*ctx))` -/
def cleared : MD5_CTX := ⟨⟨0, 0, 0, 0⟩, 0, 0, ⟨List.replicate 64 0, List.length_replicate⟩⟩

end MD5

/-- The end of `MD5_Final`, where `used` octets of the buffer are in use and eight
more fit. -/
def MD5_Final_length (ctx : MD5_CTX) (used : Nat) : Option (Bytes × MD5_CTX) := do
  let free := 64 - used
  let buffer ← memcpy ctx.buffer used (List.replicate (free - 8) 0) (free - 8)
  let lo := ctx.lo <<< 3
  let buffer ← memcpy buffer 56 (octets lo ++ octets ctx.hi) 8
  let (ctx, _) ← body { ctx with lo := lo, buffer := buffer } buffer.1 64
  return (output ctx.toRegisters, cleared)

/-- It returns `result` and the context. -/
def MD5_Final (ctx : MD5_CTX) : Option (Bytes × MD5_CTX) := do
  let used := (ctx.lo &&& 0x3f).toNat
  let buffer ← memcpy ctx.buffer used [0x80] 1
  let used := used + 1
  let free := 64 - used
  if free < 8 then
    let buffer ← memcpy buffer used (List.replicate free 0) free
    let (ctx, _) ← body { ctx with buffer := buffer } buffer.1 64
    MD5_Final_length ctx 0
  else MD5_Final_length { ctx with buffer := buffer } used

/-- `my_md5` holds whatever was on the stack. -/
def md5_signature (my_md5 : MD5_CTX) (key : Bytes) : Option Bytes := do
  let ctx ← MD5_Update (MD5_Init my_md5) key (UInt64.ofNat key.length)
  let (result, _) ← MD5_Final ctx
  return result

def hash_md5 (my_md5 : MD5_CTX) (key : Bytes) : Option UInt32 := do
  let results ← md5_signature my_md5 key
  let octet := fun i => (results.getD i 0).toUInt32 &&& 0xff
  return (octet 3 <<< 24) ||| (octet 2 <<< 16) ||| (octet 1 <<< 8) ||| octet 0

/-! ## RFC 1321 -/

namespace MD5

/-- The functions of the rounds. -/
def Round.function : Round → UInt32 → UInt32 → UInt32 → UInt32
  | .F, x, y, z => (x &&& y) ||| (~~~x &&& z)
  | .G, x, y, z => (x &&& z) ||| (y &&& ~~~z)
  | .H, x, y, z => x ^^^ y ^^^ z
  | .I, x, y, z => y ^^^ (x ||| ~~~z)

/-- The table `T`. -/
def T : List UInt32 := [
  0xd76aa478, 0xe8c7b756, 0x242070db, 0xc1bdceee, 0xf57c0faf, 0x4787c62a, 0xa8304613, 0xfd469501,
  0x698098d8, 0x8b44f7af, 0xffff5bb1, 0x895cd7be, 0x6b901122, 0xfd987193, 0xa679438e, 0x49b40821,
  0xf61e2562, 0xc040b340, 0x265e5a51, 0xe9b6c7aa, 0xd62f105d, 0x02441453, 0xd8a1e681, 0xe7d3fbc8,
  0x21e1cde6, 0xc33707d6, 0xf4d50d87, 0x455a14ed, 0xa9e3e905, 0xfcefa3f8, 0x676f02d9, 0x8d2a4c8a,
  0xfffa3942, 0x8771f681, 0x6d9d6122, 0xfde5380c, 0xa4beea44, 0x4bdecfa9, 0xf6bb4b60, 0xbebfbc70,
  0x289b7ec6, 0xeaa127fa, 0xd4ef3085, 0x04881d05, 0xd9d4d039, 0xe6db99e5, 0x1fa27cf8, 0xc4ac5665,
  0xf4292244, 0x432aff97, 0xab9423a7, 0xfc93a039, 0x655b59c3, 0x8f0ccc92, 0xffeff47d, 0x85845dd1,
  0x6fa87e4f, 0xfe2ce6e0, 0xa3014314, 0x4e0811a1, 0xf7537e82, 0xbd3af235, 0x2ad7d2bb, 0xeb86d391]

def round (i : Nat) : Round :=
  match i / 16 with
  | 0 => .F
  | 1 => .G
  | 2 => .H
  | _ => .I

/-- The word of the block that operation `i` takes. -/
def index (i : Nat) : Nat :=
  match round i with
  | .F => i % 16
  | .G => (5 * i + 1) % 16
  | .H => (3 * i + 5) % 16
  | .I => 7 * i % 16

/-- The rotation of operation `i`. -/
def rotation (i : Nat) : UInt32 :=
  match round i with
  | .F => [7, 12, 17, 22].getD (i % 4) 0
  | .G => [5, 9, 14, 20].getD (i % 4) 0
  | .H => [4, 11, 16, 23].getD (i % 4) 0
  | .I => [6, 10, 15, 21].getD (i % 4) 0

def rotate (x s : UInt32) : UInt32 := (x <<< s) ||| (x >>> (32 - s))

/-- Operation `i`. It changes the first register, and the registers move on. -/
def operation (ptr : Bytes) (r : Registers) (i : Nat) : Registers :=
  ⟨r.d, r.b + rotate (r.a + (round i).function r.b r.c r.d + GET ptr (index i) + T.getD i 0) (rotation i), r.b, r.c⟩

/-- A block of the message. -/
def compress (r : Registers) (ptr : Bytes) : Registers :=
  let r' := (List.range 64).foldl (operation ptr) r
  ⟨r.a + r'.a, r.b + r'.b, r.c + r'.c, r.d + r'.d⟩

/-- The registers at the start. -/
def initial : Registers := ⟨0x67452301, 0xefcdab89, 0x98badcfe, 0x10325476⟩

/-- The length in bits as eight octets, the low one first, modulo `2 ^ 64`. -/
def bitLength (m : Bytes) : Bytes := (List.range 8).map fun i => UInt8.ofNat (8 * m.length / 256 ^ i)

/-- A one and zeros up to the length, which fills the last block. -/
def padding (m : Bytes) : Bytes := 0x80 :: List.replicate ((119 - m.length % 64) % 64) 0 ++ bitLength m

/-- The message digest, in sixteen octets. -/
def digest (m : Bytes) : Bytes := output (absorb compress 64 initial (m ++ padding m))

end MD5

/-! ## The operations -/

namespace MD5

/-- The code spares an operation in `F` and in `G`. -/
theorem apply_eq (f : Round) : f.apply = f.function := by
  have hF : ∀ x y z : Bool, (z ^^ (x && (y ^^ z))) = ((x && y) || (!x && z)) := by decide
  funext x y z
  refine UInt32.toBitVec_inj.mp (BitVec.eq_of_getLsbD_eq fun i hi => ?_)
  cases f with
  | F => simpa [Round.apply, Round.function, hi] using hF x.toBitVec[i] y.toBitVec[i] z.toBitVec[i]
  | G => simpa [Round.apply, Round.function, hi, Bool.and_comm] using hF z.toBitVec[i] x.toBitVec[i] y.toBitVec[i]
  | H => rfl
  | I => rfl

/-- The register that operation `i` writes. -/
def target (i : Nat) : Register :=
  match i % 4 with
  | 0 => .a
  | 1 => .d
  | 2 => .c
  | _ => .b

/-- The code's rounds are the operations in turn. -/
theorem steps_eq :
    steps = (List.range 64).map fun i => ⟨round i, target i, index i, T.getD i 0, rotation i⟩ := by decide +kernel

/-- The registers in the order operation `i` finds them. -/
def view (i : Nat) (r : Registers) : Registers :=
  match i % 4 with
  | 0 => r
  | 1 => ⟨r.d, r.a, r.b, r.c⟩
  | 2 => ⟨r.c, r.d, r.a, r.b⟩
  | _ => ⟨r.b, r.c, r.d, r.a⟩

theorem STEP_eq (f : Round) (a b c d x t s : UInt32) :
    STEP f a b c d x t s = b + rotate (a + f.function b c d + x + t) s := by
  have hmask : ∀ y : UInt32, y &&& 0xffffffff = y := fun y => by
    refine UInt32.toBitVec_inj.mp ?_
    simpa using BitVec.and_allOnes (x := y.toBitVec)
  rw [STEP, apply_eq]
  simp only [hmask, rotate, UInt32.add_assoc, UInt32.add_comm b]

/-- One use of `STEP` is one operation. -/
theorem view_run (ptr : Bytes) (r : Registers) (i : Nat) :
    view (i + 1) (Step.run ptr r ⟨round i, target i, index i, T.getD i 0, rotation i⟩) =
      operation ptr (view i r) i := by
  have hmod : i % 4 = 0 ∨ i % 4 = 1 ∨ i % 4 = 2 ∨ i % 4 = 3 := by omega
  rcases hmod with h | h | h | h
  all_goals
    have hnext : (i + 1) % 4 = (i % 4 + 1) % 4 := by omega
    simp only [view, target, hnext, h, Step.run, STEP_eq, operation]

theorem foldl_run (ptr : Bytes) (r : Registers) (n : Nat) :
    view n (((List.range n).map fun i => (⟨round i, target i, index i, T.getD i 0, rotation i⟩ : Step)).foldl
      (Step.run ptr) r) = (List.range n).foldl (operation ptr) r := by
  induction n with
  | zero => rfl
  | succ n ih =>
    rw [List.range_succ, List.map_append, List.foldl_append, List.foldl_append, ← ih]
    exact view_run ptr _ n

/-- **A block in the code is a block in the standard.** -/
theorem turn_eq : turn = compress := by
  funext r ptr
  have hrun : steps.foldl (Step.run ptr) r = (List.range 64).foldl (operation ptr) r := by
    rw [steps_eq]
    exact foldl_run ptr r 64
  simp only [turn, compress, hrun, UInt32.add_comm]

end MD5

/-! ## The buffer -/

namespace MD5

theorem take_memcpy (buffer : Buffer) (used size : Nat) (data : Bytes) (hfits : used + size ≤ 64)
    (hsize : size ≤ data.length) :
    ∃ buffer', memcpy buffer used data size = some buffer' ∧
      buffer'.1.take (used + size) = buffer.1.take used ++ data.take size := by
  refine ⟨_, dif_pos ⟨hfits, hsize⟩, ?_⟩
  have hused : (buffer.1.take used ++ data.take size).length = used + size := by
    rw [List.length_append, List.length_take, List.length_take, buffer.2]
    omega
  exact List.take_left' hused

theorem memcpy_full (buffer : Buffer) (used size : Nat) (data : Bytes) (hfits : used + size = 64)
    (hsize : size ≤ data.length) :
    ∃ buffer', memcpy buffer used data size = some buffer' ∧ buffer'.1 = buffer.1.take used ++ data.take size := by
  obtain ⟨buffer', hbuffer, htake⟩ := take_memcpy buffer used size data hfits.le hsize
  rw [hfits, List.take_of_length_le buffer'.2.le] at htake
  exact ⟨buffer', hbuffer, htake⟩

theorem body_eq (ctx : MD5_CTX) (data : Bytes) (k : Nat) (hk : 0 < k) (hdata : 64 * k ≤ data.length) :
    body ctx data (64 * k) =
      some ({ ctx with toRegisters := (blocks 64 k data).foldl compress ctx.toRegisters }, data.drop (64 * k)) := by
  induction k generalizing ctx data with
  | zero => omega
  | succ k ih =>
    rw [Nat.mul_succ] at hdata ⊢
    rw [body, if_pos (by omega), turn_eq, Nat.add_sub_cancel]
    cases k with
    | zero => rfl
    | succ k =>
      have hdrop : 64 * (k + 1) ≤ (data.drop 64).length := by
        rw [List.length_drop]
        omega
      simp only []
      rw [if_neg (by omega), ih _ _ (by omega) hdrop, List.drop_drop, Nat.add_comm 64]
      rfl

theorem body_block (ctx : MD5_CTX) {b : Bytes} (hb : b.length = 64) :
    body ctx b 64 = some ({ ctx with toRegisters := compress ctx.toRegisters b }, []) := by
  have hbody := body_eq ctx b 1 (by omega) (by omega)
  have hdrop : b.drop 64 = [] := List.drop_of_length_le hb.le
  have hblock : blocks 64 1 b = [b] := by rw [blocks, blocks, List.take_of_length_le hb.le]
  rw [Nat.mul_one, hdrop, hblock] at hbody
  exact hbody

/-! ## Parts of a message -/

/-- The context has taken in `m`. -/
structure Absorbed (ctx : MD5_CTX) (m : Bytes) : Prop where
  lo : ctx.lo.toNat = m.length % 536870912
  hi : ctx.hi.toNat = m.length / 536870912 % 4294967296
  registers : ctx.toRegisters = absorb compress 64 initial m
  buffer : ctx.buffer.1.take (m.length % 64) = rest 64 m

theorem Absorbed.used {ctx : MD5_CTX} {m : Bytes} (h : Absorbed ctx m) : (ctx.lo &&& 0x3f).toNat = m.length % 64 := by
  have hmask : (ctx.lo &&& 0x3f).toNat = ctx.lo.toNat % 64 := by
    rw [UInt32.toNat_and]
    exact Nat.and_two_pow_sub_one_eq_mod _ 6
  rw [hmask, h.lo]
  omega

theorem Init_absorbed (ctx : MD5_CTX) : Absorbed (MD5_Init ctx) [] :=
  ⟨rfl, rfl, rfl, rfl⟩

theorem counters {lo hi : UInt32} {n : Nat} (size : UInt64) (hlo : lo.toNat = n % 536870912)
    (hhi : hi.toNat = n / 536870912 % 4294967296) :
    ∀ lo', lo' = ((lo.toUInt64 + size) &&& 0x1fffffff).toUInt32 →
      lo'.toNat = (n + size.toNat) % 536870912 ∧
        ((if lo' < lo then hi + 1 else hi) + (size >>> 29).toUInt32).toNat =
          (n + size.toNat) / 536870912 % 4294967296 := by
  rintro lo' rfl
  have hsize := size.toNat_lt
  have hlo' : (((lo.toUInt64 + size) &&& 0x1fffffff).toUInt32).toNat = (n + size.toNat) % 536870912 := by
    have hmask : ((lo.toUInt64 + size) &&& 0x1fffffff).toNat = (lo.toUInt64 + size).toNat % 536870912 := by
      rw [UInt64.toNat_and]
      exact Nat.and_two_pow_sub_one_eq_mod _ 29
    rw [UInt64.toNat_toUInt32, hmask, UInt64.toNat_add, UInt32.toNat_toUInt64, hlo]
    omega
  have hhigh : ((size >>> 29).toUInt32).toNat = size.toNat / 536870912 % 4294967296 := by
    rw [UInt64.toNat_toUInt32, UInt64.toNat_shiftRight]
    exact congrArg (· % 4294967296) (Nat.shiftRight_eq_div_pow _ 29)
  refine ⟨hlo', ?_⟩
  rw [UInt32.toNat_add, hhigh]
  split
  · next hlt =>
    rw [UInt32.lt_iff_toNat_lt, hlo', hlo] at hlt
    rw [UInt32.toNat_add, hhi]
    simp only [UInt32.toNat_one]
    omega
  · next hge =>
    rw [UInt32.lt_iff_toNat_lt, hlo', hlo] at hge
    rw [hhi]
    omega

/-- What `MD5_Update` does when the buffer is empty. -/
theorem Update_blocks_eq (ctx : MD5_CTX) (data : Bytes) :
    ∃ ctx', MD5_Update_blocks ctx data data.length = some ctx' ∧ ctx'.lo = ctx.lo ∧ ctx'.hi = ctx.hi ∧
      ctx'.toRegisters = absorb compress 64 ctx.toRegisters data ∧
        ctx'.buffer.1.take (data.length % 64) = rest 64 data := by
  by_cases hsize : data.length ≥ 64
  · have hbody := body_eq ctx data (data.length / 64) (by omega) (by omega)
    have hrest : (data.drop (64 * (data.length / 64))).length = data.length % 64 := rest_length data
    obtain ⟨buffer, hbuffer, htake⟩ := take_memcpy ctx.buffer 0 (data.length % 64)
      (data.drop (64 * (data.length / 64))) (by omega) hrest.ge
    rw [List.take_of_length_le hrest.le] at htake
    refine ⟨{ ctx with toRegisters := absorb compress 64 ctx.toRegisters data, buffer := buffer }, ?_, rfl, rfl, rfl, ?_⟩
    · rw [MD5_Update_blocks, if_pos hsize, hbody]
      simp only [Option.bind_eq_bind, Option.bind_some, hbuffer]
      rfl
    · simpa [rest] using htake
  · obtain ⟨buffer, hbuffer, htake⟩ := take_memcpy ctx.buffer 0 data.length data (by omega) (Nat.le_refl _)
    have hmod : data.length % 64 = data.length := Nat.mod_eq_of_lt (by omega)
    refine ⟨{ ctx with buffer := buffer }, ?_, rfl, rfl, ?_, ?_⟩
    · rw [MD5_Update_blocks, if_neg hsize, hbuffer]
      rfl
    · exact (absorb_short compress (by omega) _).symm
    · rw [hmod, rest_short (by omega)]
      simpa using htake

/-- **A part more**: `MD5_Update` takes in what it is given, whatever came before. -/
theorem Update_absorbed {ctx : MD5_CTX} {m data : Bytes} (h : Absorbed ctx m) (hdata : data.length < UInt64.size) :
    ∃ ctx', MD5_Update ctx data (UInt64.ofNat data.length) = some ctx' ∧ Absorbed ctx' (m ++ data) := by
  have hsize : (UInt64.ofNat data.length).toNat = data.length := by
    rw [UInt64.toNat_ofNat']
    exact Nat.mod_eq_of_lt hdata
  have hrest : (rest 64 m).length = m.length % 64 := rest_length m
  obtain ⟨hlo, hhi⟩ := counters (UInt64.ofNat data.length) h.lo h.hi _ rfl
  rw [hsize, ← List.length_append] at hlo hhi
  rw [MD5_Update]
  simp only [h.used, hsize]
  by_cases hused : m.length % 64 = 0
  · have hnil : rest 64 m = [] := List.length_eq_zero_iff.mp (hrest.trans hused)
    rw [if_neg (by simpa using hused)]
    obtain ⟨ctx', hctx', hlo', hhi', hregisters, hbuffer⟩ := Update_blocks_eq _ data
    refine ⟨ctx', hctx', ?_, ?_, ?_, ?_⟩
    · rw [hlo']; exact hlo
    · rw [hhi']; exact hhi
    · rw [hregisters, absorb_append compress (by decide), hnil, List.nil_append, ← h.registers]
    · rw [rest_append (by decide), hnil, List.nil_append, ← hbuffer, List.length_append]
      congr 1
      omega
  · rw [if_pos hused]
    by_cases hfree : data.length < 64 - m.length % 64
    · -- The part stays in the buffer.
      obtain ⟨buffer, hbuffer, htake⟩ := take_memcpy ctx.buffer (m.length % 64) data.length data (by omega)
        (Nat.le_refl _)
      have hshort : (rest 64 m ++ data).length < 64 := by
        rw [List.length_append, hrest]
        omega
      have hmod : (m ++ data).length % 64 = m.length % 64 + data.length := by
        rw [List.length_append]
        omega
      rw [if_pos hfree, hbuffer]
      refine ⟨_, rfl, hlo, hhi, ?_, ?_⟩
      · rw [absorb_append compress (by decide), absorb_short compress hshort, ← h.registers]
      · rw [hmod, htake, h.buffer, List.take_length, rest_append (by decide), rest_short hshort]
    · -- The part fills the buffer, which goes in as a block.
      set free := 64 - m.length % 64
      obtain ⟨buffer, hbuffer, hblock⟩ := memcpy_full ctx.buffer (m.length % 64) free data (by omega) (by omega)
      rw [h.buffer] at hblock
      have hdata : rest 64 m ++ data = buffer.1 ++ data.drop free := by
        rw [hblock, List.append_assoc, List.take_append_drop]
      have hdrop : (data.drop free).length = data.length - free := List.length_drop
      rw [if_neg hfree, hbuffer]
      simp only [Option.bind_eq_bind, Option.bind_some, body_block _ buffer.2, ← hdrop]
      obtain ⟨ctx', hctx', hlo', hhi', hregisters, hbuffer'⟩ := Update_blocks_eq _ (data.drop free)
      refine ⟨ctx', hctx', ?_, ?_, ?_, ?_⟩
      · rw [hlo']; exact hlo
      · rw [hhi']; exact hhi
      · rw [hregisters, absorb_append compress (by decide), hdata, absorb_block compress buffer.2 (by decide), h.registers]
      · rw [rest_append (by decide), hdata, rest_block buffer.2 (by decide), ← hbuffer', hdrop, List.length_append]
        congr 1
        omega

end MD5

/-! ## The end -/

namespace MD5

theorem octets_eq (x : UInt32) :
    octets x = [UInt8.ofNat x.toNat, UInt8.ofNat (x.toNat / 256), UInt8.ofNat (x.toNat / 65536),
      UInt8.ofNat (x.toNat / 16777216)] := by
  have hbyte : ∀ y : UInt32, y.toUInt8 = UInt8.ofNat y.toNat := fun y => by
    refine UInt8.toNat_inj.mp ?_
    rw [UInt32.toNat_toUInt8, UInt8.toNat_ofNat']
  have h₈ : (x >>> 8).toNat = x.toNat / 256 := by
    rw [UInt32.toNat_shiftRight]
    exact Nat.shiftRight_eq_div_pow _ 8
  have h₁₆ : (x >>> 16).toNat = x.toNat / 65536 := by
    rw [UInt32.toNat_shiftRight]
    exact Nat.shiftRight_eq_div_pow _ 16
  have h₂₄ : (x >>> 24).toNat = x.toNat / 16777216 := by
    rw [UInt32.toNat_shiftRight]
    exact Nat.shiftRight_eq_div_pow _ 24
  rw [octets, hbyte, hbyte, hbyte, hbyte, h₈, h₁₆, h₂₄]

theorem octets_counters {lo hi : UInt32} {m : Bytes} (hlo : lo.toNat = m.length % 536870912)
    (hhi : hi.toNat = m.length / 536870912 % 4294967296) : octets (lo <<< 3) ++ octets hi = bitLength m := by
  have hshift : (lo <<< 3).toNat = 8 * (m.length % 536870912) := by
    rw [UInt32.toNat_shiftLeft, hlo, show (3 : UInt32).toNat % 32 = 3 from rfl, Nat.shiftLeft_eq]
    omega
  have hbits : bitLength m = [UInt8.ofNat (8 * m.length / 256 ^ 0), UInt8.ofNat (8 * m.length / 256 ^ 1),
      UInt8.ofNat (8 * m.length / 256 ^ 2), UInt8.ofNat (8 * m.length / 256 ^ 3), UInt8.ofNat (8 * m.length / 256 ^ 4),
      UInt8.ofNat (8 * m.length / 256 ^ 5), UInt8.ofNat (8 * m.length / 256 ^ 6), UInt8.ofNat (8 * m.length / 256 ^ 7)] :=
    rfl
  rw [octets_eq, octets_eq, hshift, hhi, hbits]
  simp only [List.cons_append, List.nil_append, List.cons.injEq, and_true, ← UInt8.toNat_inj, UInt8.toNat_ofNat']
  refine ⟨?_, ?_, ?_, ?_, ?_, ?_, ?_, ?_⟩
  all_goals omega

theorem bitLength_length (m : Bytes) : (bitLength m).length = 8 := by simp [bitLength]

/-- The last block: what the buffer holds, zeros and the length. -/
theorem Final_length_eq (ctx : MD5_CTX) {m : Bytes} (hlo : ctx.lo.toNat = m.length % 536870912)
    (hhi : ctx.hi.toNat = m.length / 536870912 % 4294967296) {used : Nat} (hused : used ≤ 56) :
    MD5_Final_length ctx used = some
      (output (compress ctx.toRegisters (ctx.buffer.1.take used ++ List.replicate (56 - used) 0 ++ bitLength m)),
        cleared) := by
  have hzeros : (List.replicate (64 - used - 8) (0 : UInt8)).length = 64 - used - 8 := List.length_replicate
  obtain ⟨buffer, hbuffer, htake⟩ := take_memcpy ctx.buffer used (64 - used - 8)
    (List.replicate (64 - used - 8) 0) (by omega) hzeros.ge
  have hlength : (octets (ctx.lo <<< 3) ++ octets ctx.hi).length = 8 := rfl
  obtain ⟨buffer', hbuffer', hblock⟩ := memcpy_full buffer 56 8
    (octets (ctx.lo <<< 3) ++ octets ctx.hi) (by decide) hlength.ge
  have h56 : used + (64 - used - 8) = 56 := by omega
  have hsub : 64 - used - 8 = 56 - used := by omega
  rw [List.take_of_length_le hzeros.le, h56, hsub] at htake
  rw [List.take_of_length_le hlength.le, htake, octets_counters hlo hhi] at hblock
  rw [MD5_Final_length, hbuffer, ← hblock]
  simp only [Option.bind_eq_bind, Option.bind_some, hbuffer', body_block _ buffer'.2]
  rfl

/-- **The digest**: after any parts, `MD5_Final` gives the digest of the whole. -/
theorem Final_eq {ctx : MD5_CTX} {m : Bytes} (h : Absorbed ctx m) : MD5_Final ctx = some (digest m, cleared) := by
  have hrest : (rest 64 m).length = m.length % 64 := rest_length m
  have hdigest : digest m = output (absorb compress 64 ctx.toRegisters (rest 64 m ++ padding m)) := by
    rw [digest, absorb_append compress (by decide), h.registers]
  obtain ⟨buffer, hbuffer, htake⟩ := take_memcpy ctx.buffer (m.length % 64) 1 [0x80] (by omega)
    (Nat.le_refl 1)
  rw [h.buffer] at htake
  rw [MD5_Final, hdigest]
  simp only [h.used, hbuffer, Option.bind_eq_bind, Option.bind_some]
  by_cases hfree : 64 - (m.length % 64 + 1) < 8
  · -- The length does not fit into this block.
    set free := 64 - (m.length % 64 + 1)
    have hzeros : (List.replicate free (0 : UInt8)).length = free := List.length_replicate
    obtain ⟨buffer', hbuffer', hblock⟩ := memcpy_full buffer (m.length % 64 + 1) free
      (List.replicate free 0) (by omega) hzeros.ge
    rw [htake, List.take_of_length_le hzeros.le] at hblock
    have hpad : rest 64 m ++ padding m = buffer'.1 ++ ((List.replicate 56 0 ++ bitLength m) ++ []) := by
      have hsum : (119 - m.length % 64) % 64 = free + 56 := by omega
      rw [hblock, padding, hsum, ← List.replicate_append_replicate]
      simp
    have hlast := Final_length_eq
      { ctx with toRegisters := compress ctx.toRegisters buffer'.1, buffer := buffer' } h.lo h.hi (Nat.zero_le 56)
    rw [if_pos hfree, hbuffer', Option.bind_some, body_block _ buffer'.2, Option.bind_some, hpad,
      absorb_block compress buffer'.2 (by decide), absorb_block compress (by simp [bitLength_length]) (by decide),
      absorb_short compress (by simp)]
    exact hlast
  · have hlast := Final_length_eq { ctx with buffer := buffer } h.lo h.hi (show m.length % 64 + 1 ≤ 56 by omega)
    have hpad : rest 64 m ++ padding m =
        (rest 64 m ++ [0x80] ++ List.replicate (56 - (m.length % 64 + 1)) 0 ++ bitLength m) ++ [] := by
      have hsum : (119 - m.length % 64) % 64 = 56 - (m.length % 64 + 1) := by omega
      rw [padding, hsum]
      simp
    have hblock : (rest 64 m ++ [0x80] ++ List.replicate (56 - (m.length % 64 + 1)) 0 ++ bitLength m).length = 64 := by
      simp only [List.length_append, List.length_singleton, List.length_replicate, hrest, bitLength_length]
      omega
    rw [if_neg hfree, hpad, absorb_block compress hblock (by decide), absorb_short compress (by simp)]
    rw [htake] at hlast
    exact hlast

/-! ## The whole -/

/-- `MD5_Update` for each of the parts. -/
def updates (ctx : MD5_CTX) (parts : List Bytes) : Option MD5_CTX :=
  parts.foldlM (fun ctx data => MD5_Update ctx data (UInt64.ofNat data.length)) ctx

theorem updates_absorbed {parts : List Bytes} (hparts : ∀ data ∈ parts, data.length < UInt64.size) {ctx : MD5_CTX}
    {m : Bytes} (h : Absorbed ctx m) : ∃ ctx', updates ctx parts = some ctx' ∧ Absorbed ctx' (m ++ parts.flatten) := by
  induction parts generalizing ctx m with
  | nil => exact ⟨ctx, rfl, by simpa using h⟩
  | cons data parts ih =>
    obtain ⟨ctx', hctx', h'⟩ := Update_absorbed h (hparts data List.mem_cons_self)
    obtain ⟨ctx'', hctx'', h''⟩ := ih (fun d hd => hparts d (List.mem_cons_of_mem _ hd)) h'
    refine ⟨ctx'', ?_, by simpa using h''⟩
    rw [updates, List.foldlM_cons, hctx']
    exact hctx''

/-- **MD5 in parts**: whatever the context held before, and however the message is
cut, `MD5_Final` gives its digest, and no write or read leaves the buffer or the
data. -/
theorem parts_digest (ctx : MD5_CTX) {parts : List Bytes} (hparts : ∀ data ∈ parts, data.length < UInt64.size) :
    (updates (MD5_Init ctx) parts).bind MD5_Final = some (digest parts.flatten, cleared) := by
  obtain ⟨ctx', hctx', h⟩ := updates_absorbed hparts (Init_absorbed ctx)
  rw [hctx', Option.bind_some, Final_eq h, List.nil_append]

theorem parts_digest_two : (updates (MD5_Init cleared) [[0x61], [0x62, 0x63]]).bind MD5_Final =
    some (digest [0x61, 0x62, 0x63], cleared) :=
  parts_digest cleared (by decide)

theorem getLsbD_octet (y : UInt32) (j : Nat) :
    (y.toUInt8.toUInt32 &&& 0xff).toBitVec.getLsbD j = (decide (j < 8) && y.toBitVec.getLsbD j) := by
  have hmask : y.toUInt8.toUInt32 &&& 0xff = y.toUInt8.toUInt32 := by
    refine UInt32.toNat_inj.mp ?_
    rw [UInt32.toNat_and]
    exact (Nat.and_two_pow_sub_one_eq_mod _ 8).trans (Nat.mod_eq_of_lt y.toUInt8.toNat_lt)
  have hj : y.toBitVec.getLsbD j = true → j < 32 := BitVec.lt_of_getLsbD
  rw [hmask]
  show ((y.toBitVec.setWidth 8).setWidth 32).getLsbD j = _
  rw [BitVec.getLsbD_setWidth, BitVec.getLsbD_setWidth]
  cases hbit : y.toBitVec.getLsbD j with
  | false => simp
  | true => simp [hj hbit]

theorem word_octets (x : UInt32) :
    (((x >>> 24).toUInt8.toUInt32 &&& 0xff) <<< 24) ||| (((x >>> 16).toUInt8.toUInt32 &&& 0xff) <<< 16) |||
      (((x >>> 8).toUInt8.toUInt32 &&& 0xff) <<< 8) ||| (x.toUInt8.toUInt32 &&& 0xff) = x := by
  refine UInt32.toBitVec_inj.mp (BitVec.eq_of_getLsbD_eq fun i hi => ?_)
  have hshift : ∀ (y : UInt32) (k : Nat), ((y.toUInt8.toUInt32 &&& 0xff).toBitVec <<< k).getLsbD i =
      (decide (k ≤ i) && (decide (i - k < 8) && y.toBitVec.getLsbD (i - k))) := by
    intro y k
    rw [BitVec.getLsbD_shiftLeft, getLsbD_octet]
    by_cases h : i < k
    · simp [h]
    · simp [h, hi, Nat.le_of_not_lt h]
  have hright : ∀ k, (x.toBitVec >>> k).getLsbD (i - k) = x.toBitVec.getLsbD (k + (i - k)) := fun k =>
    BitVec.getLsbD_ushiftRight _ _ _
  have h₈ : (x >>> 8).toBitVec = x.toBitVec >>> 8 := by simp
  have h₁₆ : (x >>> 16).toBitVec = x.toBitVec >>> 16 := by simp
  have h₂₄ : (x >>> 24).toBitVec = x.toBitVec >>> 24 := by simp
  have hl₈ : ∀ y : UInt32, (y <<< 8).toBitVec = y.toBitVec <<< 8 := fun y => by simp
  have hl₁₆ : ∀ y : UInt32, (y <<< 16).toBitVec = y.toBitVec <<< 16 := fun y => by simp
  have hl₂₄ : ∀ y : UInt32, (y <<< 24).toBitVec = y.toBitVec <<< 24 := fun y => by simp
  simp only [UInt32.toBitVec_or, BitVec.getLsbD_or, getLsbD_octet, hl₈, hl₁₆, hl₂₄, hshift, h₈, h₁₆, h₂₄, hright]
  have hregions : i < 8 ∨ (8 ≤ i ∧ i < 16) ∨ (16 ≤ i ∧ i < 24) ∨ 24 ≤ i := by omega
  rcases hregions with h | ⟨h, h'⟩ | ⟨h, h'⟩ | h
  · simp [h, show ¬8 ≤ i by omega, show ¬16 ≤ i by omega, show ¬24 ≤ i by omega]
  · simp [h, show ¬i < 8 by omega, show ¬16 ≤ i by omega, show ¬24 ≤ i by omega, show i - 8 < 8 by omega]
  · simp [h, show ¬i < 8 by omega, show ¬i - 8 < 8 by omega, show ¬24 ≤ i by omega, show i - 16 < 8 by omega]
  · simp [h, show ¬i < 8 by omega, show ¬i - 8 < 8 by omega, show ¬i - 16 < 8 by omega, show i - 24 < 8 by omega]

/-- **`hash_md5`** is the first word of the digest. -/
theorem hash_md5_eq (my_md5 : MD5_CTX) {key : Bytes} (hkey : key.length < UInt64.size) :
    hash_md5 my_md5 key = some (absorb compress 64 initial (key ++ padding key)).a := by
  obtain ⟨ctx, hctx, h⟩ := Update_absorbed (Init_absorbed my_md5) hkey
  rw [hash_md5, md5_signature, hctx]
  simp only [Option.bind_eq_bind, Option.bind_some, Final_eq h, List.nil_append]
  exact congrArg some (word_octets _)

end MD5

end DictionaryServer
