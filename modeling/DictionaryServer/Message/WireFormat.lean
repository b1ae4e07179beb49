/-
The protobuf wire format, as an instance of what the generated code calls.

A field is its tag, which is its number and a wire type, and its value: a
varint, four or eight bytes, a length and that many bytes, or a group up to
its end tag. `wireFormat_lawful` proves of this instance what the messages'
facts assume of the runtime.
-/
import DictionaryServer.Message.QueryFacts

namespace DictionaryServer

open Lib

namespace WireFormat

/-- `kMaxVarintBytes` -/
def maxVarintBytes : Nat := 10

def maxVarint32Bytes : Nat := 5

/-- `ReadVarint32`, which keeps the low 32 bits. -/
def readVarint32 (b : Bytes) : Option (Nat × Bytes) :=
  (readVarint maxVarintBytes b).map fun (n, rest) => (n % 2 ^ 32, rest)

def writeTag (field type : Nat) : Bytes := varint maxVarint32Bytes (8 * field + type)

def readTag (b : Bytes) : Nat × Bytes := (readVarint32 b).getD (0, b)

def writeString (field : Nat) (s : Bytes) : Bytes :=
  writeTag field 2 ++ (varint maxVarint32Bytes (s.length % 2 ^ 32) ++ s)

def readString (b : Bytes) : Option (Bytes × Bytes) := do
  let (n, rest) ← readVarint32 b
  guard (n < 2 ^ 31 ∧ n ≤ rest.length)
  return (rest.take n, rest.drop n)

/-- An `int32` is written as the 64-bit number it extends to. -/
def writeInt32 (field : Nat) (x : Int) : Bytes := writeTag field 0 ++ varint maxVarintBytes (x % 2 ^ 64).toNat

def readInt32 (b : Bytes) : Option (Int × Bytes) :=
  (readVarint maxVarintBytes b).map fun (n, rest) => (wrap32 n, rest)

def int32Size (x : Int) : Nat := if x < 0 then maxVarintBytes else varintSize x.toNat

/-- `kDefaultRecursionLimit` -/
def recursionLimit : Nat := 100

/-- One value past its tag: the groups then open, and what follows. -/
def skipValue (groups : List Nat) (tag : Nat) (b : Bytes) : Option (List Nat × Bytes) :=
  match tag % 8 with
  | 0 => (readVarint maxVarintBytes b).map fun (_, rest) => (groups, rest)
  | 1 => if 8 ≤ b.length then some (groups, b.drop 8) else none
  | 2 => (readString b).map fun (_, rest) => (groups, rest)
  | 3 => if groups.length < recursionLimit then some (tag / 8 :: groups, b) else none
  | 4 =>
    match groups with
    | group :: groups => if group = tag / 8 then some (groups, b) else none
    | [] => none
  | 5 => if 4 ≤ b.length then some (groups, b.drop 4) else none
  | _ => none

/-- Values are skipped until no group is open. A turn after the first
consumes a tag. -/
def skip : Nat → List Nat → Nat → Bytes → Option Bytes
  | 0, _, _, _ => none
  | fuel + 1, groups, tag, b => do
    guard (tag / 8 ≠ 0)
    let (groups, rest) ← skipValue groups tag b
    if groups = [] then some rest
    else
      let (tag, rest) := readTag rest
      if tag = 0 then none else skip fuel groups tag rest

def skipField (tag : Nat) (b : Bytes) : Option (Bytes × Bytes) :=
  (skip (b.length + 1) [] tag b).map fun rest =>
    (varint maxVarint32Bytes tag ++ b.take (b.length - rest.length), rest)

end WireFormat

def wireFormat : WireFormatLite where
  stringSize s := varintSize (s.length % 2 ^ 32) + s.length
  int32Size := WireFormat.int32Size
  writeStringToArray := WireFormat.writeString
  writeInt32ToArray := WireFormat.writeInt32
  readTag := WireFormat.readTag
  readString := WireFormat.readString
  readInt32 := WireFormat.readInt32
  verifyUtf8String s := decide (ValidUtf8 s)
  skipField := WireFormat.skipField

namespace WireFormat

theorem readVarint32_varint {n : Nat} (h : n < 2 ^ 32) (b : Bytes) :
    readVarint32 (varint maxVarint32Bytes n ++ b) = some (n, b) := by
  have hread := readVarint_varint (k := 5) (n := n) (by omega) (by decide) 5 b
  simp only [readVarint32, maxVarintBytes, maxVarint32Bytes, hread, Option.map_some, Nat.mod_eq_of_lt h]

theorem readVarint32_lt {n : Nat} {b rest : Bytes} (h : readVarint32 b = some (n, rest)) : rest.length < b.length := by
  obtain ⟨⟨m, rest'⟩, hread, heq⟩ := Option.map_eq_some_iff.mp h
  cases heq
  exact readVarint_lt hread

theorem length_writeTag {field type : Nat} (h : 8 * field + type < 128) : (writeTag field type).length = 1 := by
  rw [writeTag, maxVarint32Bytes, varint, if_pos h]
  rfl

theorem readTag_writeTag {field type : Nat} (h : 8 * field + type < 128) (b : Bytes) :
    readTag (writeTag field type ++ b) = (8 * field + type, b) := by
  rw [readTag, writeTag, readVarint32_varint (by omega)]
  rfl

theorem readTag_lt {b : Bytes} (h : (readTag b).1 ≠ 0) : (readTag b).2.length < b.length := by
  unfold readTag at h ⊢
  rcases hread : readVarint32 b with _ | ⟨n, rest⟩
  · rw [hread] at h
    exact absurd rfl h
  · exact readVarint32_lt hread

theorem readString_writeString {s : Bytes} (h : s.length < 2 ^ 31) (b : Bytes) :
    readString (varint maxVarint32Bytes (s.length % 2 ^ 32) ++ s ++ b) = some (s, b) := by
  have hmod : s.length % 2 ^ 32 = s.length := Nat.mod_eq_of_lt (by omega)
  have hlen : s.length ≤ (s ++ b).length := by rw [List.length_append]; omega
  rw [readString, List.append_assoc, hmod, readVarint32_varint (by omega)]
  simp only [Option.bind_eq_bind, Option.bind_some, guard, if_pos (And.intro h hlen), List.take_left, List.drop_left]
  rfl

theorem readString_le {b s rest : Bytes} (h : readString b = some (s, rest)) : rest.length ≤ b.length := by
  simp only [readString, Option.bind_eq_bind, Option.bind_eq_some_iff] at h
  obtain ⟨⟨n, rest'⟩, hread, -, -, heq⟩ := h
  cases heq
  have hlt := readVarint32_lt hread
  show (rest'.drop n).length ≤ b.length
  rw [List.length_drop]
  omega

theorem readInt32_writeInt32 {x : Int} (h : Fits32 x) (b : Bytes) :
    readInt32 (varint maxVarintBytes (x % 2 ^ 64).toNat ++ b) = some (x, b) := by
  have hread := readVarint_varint (k := 10) (n := (x % 2 ^ 64).toNat) (by omega) (by decide) 0 b
  have hwrap : wrap32 ((x % 2 ^ 64).toNat : Int) = x := by
    rw [Int.toNat_of_nonneg (Int.emod_nonneg _ (by decide)), ← wrap32_emod,
      Int.emod_emod_of_dvd _ (by decide), wrap32_emod, wrap32_of_fits h]
  simp only [readInt32, maxVarintBytes, hread, Option.map_some, hwrap]

theorem readInt32_le {b rest : Bytes} {x : Int} (h : readInt32 b = some (x, rest)) : rest.length ≤ b.length := by
  obtain ⟨⟨m, rest'⟩, hread, heq⟩ := Option.map_eq_some_iff.mp h
  cases heq
  exact Nat.le_of_lt (readVarint_lt hread)

theorem length_writeInt32 {field : Nat} {x : Int} (hfield : 8 * field < 128) (h : Fits32 x) :
    (writeInt32 field x).length = 1 + int32Size x := by
  obtain ⟨hlow, hhigh⟩ := h
  rw [writeInt32, List.length_append, length_writeTag (by omega), int32Size]
  congr 1
  split
  · exact length_varint_full (k := 9) (by omega)
  · have hn : (x % 2 ^ 64).toNat = x.toNat := by omega
    rw [hn, maxVarintBytes, varint_add (k := 5) (by omega) (by decide) 5, length_varint (by omega)]

theorem skipValue_le {groups groups' : List Nat} {tag : Nat} {b rest : Bytes}
    (h : skipValue groups tag b = some (groups', rest)) : rest.length ≤ b.length := by
  unfold skipValue at h
  split at h
  · obtain ⟨⟨n, rest'⟩, hread, heq⟩ := Option.map_eq_some_iff.mp h
    cases heq
    exact Nat.le_of_lt (readVarint_lt hread)
  · split at h <;> cases h
    exact (List.drop_sublist _ _).length_le
  · obtain ⟨⟨s, rest'⟩, hread, heq⟩ := Option.map_eq_some_iff.mp h
    cases heq
    exact readString_le hread
  · split at h <;> cases h
    exact Nat.le_refl _
  · split at h
    · split at h <;> cases h
      exact Nat.le_refl _
    · cases h
  · split at h <;> cases h
    exact (List.drop_sublist _ _).length_le
  · cases h

theorem skip_le {fuel tag : Nat} {groups : List Nat} {b rest : Bytes} (h : skip fuel groups tag b = some rest) :
    rest.length ≤ b.length := by
  induction fuel generalizing groups tag b with
  | zero => cases h
  | succ fuel ih =>
    simp only [skip, Option.bind_eq_bind, Option.bind_eq_some_iff] at h
    obtain ⟨-, -, ⟨groups', rest'⟩, hvalue, h⟩ := h
    have hle := skipValue_le hvalue
    split at h
    · cases h
      exact hle
    · split at h
      · cases h
      · next htag =>
        exact le_trans (ih h) (le_trans (Nat.le_of_lt (readTag_lt htag)) hle)

end WireFormat

/-- **The wire format meets what the generated code relies on.** -/
theorem wireFormat_lawful : wireFormat.Lawful where
  stringSize _ := rfl
  length_writeString {n} s hn hn' := by
    simp only [wireFormat, WireFormat.writeString, List.length_append]
    rw [WireFormat.length_writeTag (by omega), WireFormat.maxVarint32Bytes, length_varint (Nat.mod_lt _ (by decide))]
  length_writeInt32 _ hn' hx := WireFormat.length_writeInt32 (by omega) hx
  readTag_nil := rfl
  read_string {n s} b hn hn' hs := by
    refine ⟨_, ?_, WireFormat.readString_writeString hs b⟩
    show WireFormat.readTag (WireFormat.writeTag n 2 ++ _ ++ b) = _
    rw [List.append_assoc, WireFormat.readTag_writeTag (by omega)]
  read_int32 {n x} b hn hn' hx := by
    refine ⟨_, ?_, WireFormat.readInt32_writeInt32 hx b⟩
    show WireFormat.readTag (WireFormat.writeTag n 0 ++ _ ++ b) = _
    rw [List.append_assoc, WireFormat.readTag_writeTag (by omega), Nat.add_zero]
  verifyUtf8String _ := decide_eq_true_iff
  readTag_lt := WireFormat.readTag_lt
  readString_le := WireFormat.readString_le
  readInt32_le := WireFormat.readInt32_le
  skipField_le h := by
    obtain ⟨rest, hskip, heq⟩ := Option.map_eq_some_iff.mp h
    cases heq
    exact WireFormat.skip_le hskip

end DictionaryServer
