/-
`PrerankScore::Execute` (sender/src/cmd/PreRankScore.cc): the packet that
carries a dictionary.

    cmd : uint16 | length : uint16 | rows | hash : 8 bytes

The length is written last, at the position kept for it (`Execute_eq`). It
counts the rows and the hash, in 16 bits, so it is right as long as the rows
leave room in these (`Execute_length_iff`).
-/
import DictionaryServer.Lib.Cursor
import DictionaryServer.Sender.DictionaryUpdate

namespace DictionaryServer

open Lib Sender

/-- How `JOutStream` writes numbers, each in its fixed width, and what they are
read as. -/
structure NumberFormat where
  put : Nat → Nat → Bytes
  putDouble : Binary64 → Bytes
  get : Bytes → Nat
  length_put : ∀ width value, (put width value).length = width
  length_putDouble : ∀ value, (putDouble value).length = 8
  get_put : ∀ width value, get (put width value) = value % 256 ^ width

abbrev JOutStream := Cursor UInt8

namespace JOutStream

def empty : JOutStream := {}

def Length (jos : JOutStream) : Nat := jos.pos

/-- `Data()`, of which a caller takes `Length()` bytes. -/
def Data (jos : JOutStream) : Bytes := jos.contents 0

def Skip (jos : JOutStream) (n : Nat) : JOutStream := jos.seek (jos.pos + n)

def Reposition (jos : JOutStream) (pos : Nat) : JOutStream := jos.seek pos

def WriteBytes (jos : JOutStream) (bytes : Bytes) : JOutStream := jos.write 0 bytes

@[simp] theorem Data_empty : empty.Data = [] := rfl

@[simp] theorem length_Data (jos : JOutStream) : jos.Data.length = jos.Length := Cursor.length_contents _ _

@[simp] theorem Data_WriteBytes (jos : JOutStream) (bytes : Bytes) : (jos.WriteBytes bytes).Data = jos.Data ++ bytes :=
  Cursor.contents_write _ _ _

theorem Data_Skip (jos : JOutStream) (n : Nat) : ∃ skipped : Bytes, skipped.length = n ∧
    (jos.Skip n).Data = jos.Data ++ skipped :=
  ⟨_, List.takeD_length _ _ _, Cursor.contents_skip _ _ _⟩

/-- Bytes written at a position kept for them. -/
theorem Data_patch {jos : JOutStream} {before after bytes old : Bytes} (h : jos.Data = before ++ old ++ after)
    (hlength : bytes.length = old.length) :
    (((jos.Reposition before.length).WriteBytes bytes).Reposition jos.Length).Data = before ++ bytes ++ after := by
  have hpos : jos.pos = before.length + old.length + after.length := by
    have hdata := length_Data jos
    rw [h, List.length_append, List.length_append] at hdata
    exact hdata.symm
  have hpatch := Cursor.contents_patch 0 jos before.length bytes (by omega)
  have htake : (before ++ old ++ after).take before.length = before := by rw [List.append_assoc, List.take_left]
  have hdrop : (before ++ old ++ after).drop (before.length + old.length) = after := by
    rw [← List.length_append, List.drop_left]
  rw [show jos.contents 0 = before ++ old ++ after from h, hlength, htake, hdrop] at hpatch
  exact hpatch

end JOutStream

namespace PrerankScore

variable (F : NumberFormat)

/-- `sizeof(RequestHead)` -/
def sizeofRequestHead : Nat := 4

/-- One turn of the loop over `datas_`. The time stamp is not sent. -/
def writeRow (jos : JOutStream) (data : RankScoreData) : JOutStream :=
  let jos := jos.WriteBytes (F.put 8 data.adspaceId.toNat)
  let jos := jos.WriteBytes (F.put 4 data.solutionId.toNat)
  let jos := jos.WriteBytes (F.putDouble data.ctr)
  let jos := jos.WriteBytes (F.putDouble data.cvr)
  jos.WriteBytes (ofText "\n")

/-- The hash folded to eight bytes, with the command in it. -/
def tail (hash : Fin 16 → UInt8) (cmd : UInt16) : Bytes :=
  List.ofFn fun i : Fin 8 =>
    (hash ⟨i, by omega⟩ ^^^ hash ⟨i + 8, by omega⟩) ^^^ ((cmd >>> .ofNat (i % 2)) &&& 0xff).toUInt8

/-- The packet that is given to `session.Send`. -/
def Execute (MD5Make : Bytes → Fin 16 → UInt8) (CMD_RANK_SCORE : UInt16) (datas : List RankScoreData) : Bytes :=
  let cmd := CMD_RANK_SCORE
  let jos := JOutStream.empty
  let jos := jos.WriteBytes (F.put 2 cmd.toNat)
  let lengthPos := jos.Length
  let jos := jos.Skip 2
  let jos := datas.foldl (writeRow F) jos
  let tailPos := jos.Length
  let jos := jos.Reposition lengthPos
  let jos := jos.WriteBytes (F.put 2 (UInt16.ofNat (tailPos + 8 - sizeofRequestHead)).toNat)
  let jos := jos.Reposition tailPos
  let hash := MD5Make jos.Data
  let jos := jos.WriteBytes (tail hash cmd)
  jos.Data

/-! ## The layout -/

/-- A row as it is written. -/
def row (data : RankScoreData) : Bytes :=
  F.put 8 data.adspaceId.toNat ++ F.put 4 data.solutionId.toNat ++ F.putDouble data.ctr ++ F.putDouble data.cvr ++ ofText "\n"

theorem length_row (data : RankScoreData) : (row F data).length = 29 := by
  simp only [row, List.length_append, F.length_put, F.length_putDouble]
  rfl

theorem length_rows (datas : List RankScoreData) : (datas.flatMap (row F)).length = 29 * datas.length := by
  induction datas with
  | nil => rfl
  | cons data datas ih =>
    rw [List.flatMap_cons, List.length_append, length_row, ih, List.length_cons]
    omega

theorem length_tail (hash : Fin 16 → UInt8) (cmd : UInt16) : (tail hash cmd).length = 8 := List.length_ofFn

theorem Data_writeRow (jos : JOutStream) (data : RankScoreData) :
    (writeRow F jos data).Data = jos.Data ++ row F data := by
  simp [writeRow, row]

/-- **The loop** appends the rows. -/
theorem Data_rows (jos : JOutStream) (datas : List RankScoreData) :
    (datas.foldl (writeRow F) jos).Data = jos.Data ++ datas.flatMap (row F) := by
  induction datas generalizing jos with
  | nil => simp
  | cons data datas ih => simp [ih, Data_writeRow]

/-- The packet up to the hash, with `length` in its head. -/
def covered (cmd : UInt16) (length : Nat) (datas : List RankScoreData) : Bytes :=
  F.put 2 cmd.toNat ++ F.put 2 length ++ datas.flatMap (row F)

/-- **The packet.** -/
theorem Execute_eq (MD5Make : Bytes → Fin 16 → UInt8) (cmd : UInt16) (datas : List RankScoreData) :
    Execute F MD5Make cmd datas =
      let body := covered F cmd (UInt16.ofNat (29 * datas.length + 8)).toNat datas
      body ++ tail (MD5Make body) cmd := by
  obtain ⟨head, hhead⟩ : ∃ head, head = JOutStream.empty.WriteBytes (F.put 2 cmd.toNat) := ⟨_, rfl⟩
  have hdata : head.Data = F.put 2 cmd.toNat := by simp [hhead]
  have hlength : head.Length = (F.put 2 cmd.toNat).length := by rw [← JOutStream.length_Data, hdata]
  obtain ⟨skipped, hskipped, hskip⟩ := head.Data_Skip 2
  obtain ⟨jos, hjos⟩ : ∃ jos, jos = datas.foldl (writeRow F) (head.Skip 2) := ⟨_, rfl⟩
  have hrows : jos.Data = F.put 2 cmd.toNat ++ skipped ++ datas.flatMap (row F) := by
    rw [hjos, Data_rows, hskip, hdata]
  have htail : jos.Length + 8 - sizeofRequestHead = 29 * datas.length + 8 := by
    rw [← JOutStream.length_Data, hrows]
    simp only [List.length_append, F.length_put, hskipped, length_rows, sizeofRequestHead]
    omega
  have hfield : (F.put 2 (UInt16.ofNat (29 * datas.length + 8)).toNat).length = skipped.length := by
    rw [F.length_put, hskipped]
  have hbody := JOutStream.Data_patch hrows hfield
  unfold Execute
  simp only [← hhead, ← hjos, htail, hlength, JOutStream.Data_WriteBytes, hbody]
  rfl

theorem length_Execute (MD5Make : Bytes → Fin 16 → UInt8) (cmd : UInt16) (datas : List RankScoreData) :
    (Execute F MD5Make cmd datas).length - sizeofRequestHead = 29 * datas.length + 8 := by
  rw [Execute_eq]
  simp only [covered, List.length_append, F.length_put, length_rows, length_tail, sizeofRequestHead]
  omega

/-- The length in the head, as the receiver reads it. -/
theorem lengthField_Execute (MD5Make : Bytes → Fin 16 → UInt8) (cmd : UInt16) (datas : List RankScoreData) :
    F.get (((Execute F MD5Make cmd datas).drop 2).take 2) = (29 * datas.length + 8) % 2 ^ 16 := by
  rw [Execute_eq]
  simp only [covered, List.append_assoc]
  rw [List.drop_left' (F.length_put _ _), List.take_left' (F.length_put _ _), F.get_put, UInt16.toNat_ofNat']
  exact Nat.mod_mod _ _

/-- **The length is right** as long as the rows and the hash fit 16 bits, which
are 2259 rows. -/
theorem Execute_length_iff (MD5Make : Bytes → Fin 16 → UInt8) (cmd : UInt16) (datas : List RankScoreData) :
    F.get (((Execute F MD5Make cmd datas).drop 2).take 2) = (Execute F MD5Make cmd datas).length - sizeofRequestHead ↔
      datas.length ≤ 2259 := by
  rw [length_Execute, lengthField_Execute]
  omega

/-! ## A longer dictionary -/

def putNat : Nat → Nat → Bytes
  | 0, _ => []
  | width + 1, value => putNat width (value / 256) ++ [UInt8.ofNat value]

def getNat (b : Bytes) : Nat := b.foldl (fun n c => 256 * n + c.toNat) 0

theorem length_putNat (width value : Nat) : (putNat width value).length = width := by
  induction width generalizing value with
  | zero => rfl
  | succ width ih => simp [putNat, ih]

theorem getNat_putNat (width value : Nat) : getNat (putNat width value) = value % 256 ^ width := by
  induction width generalizing value with
  | zero => simp [putNat, getNat, Nat.mod_one]
  | succ width ih =>
    have hrest := ih (value / 256)
    have hmod : value % 256 ^ (width + 1) = value % 256 + 256 * (value / 256 % 256 ^ width) := by
      rw [Nat.pow_succ', Nat.mod_mul]
    unfold getNat at hrest ⊢
    rw [putNat, List.foldl_append, hrest, List.foldl_cons, List.foldl_nil, UInt8.toNat_ofNat', hmod]
    omega

/-- Numbers in network order, doubles as their bits. -/
def networkOrder : NumberFormat where
  put := putNat
  putDouble value := putNat 8 value.bits.toNat
  get := getNat
  length_put := length_putNat
  length_putDouble _ := length_putNat 8 _
  get_put := getNat_putNat

/-- One row more than there is room for. -/
theorem Execute_length_wraps : ¬∀ (MD5Make : Bytes → Fin 16 → UInt8)
    (cmd : UInt16) (datas : List RankScoreData),
    networkOrder.get (((Execute networkOrder MD5Make cmd datas).drop 2).take 2) =
      (Execute networkOrder MD5Make cmd datas).length - sizeofRequestHead := by
  intro h
  have hlength := h (fun _ _ => 0) 1 (List.replicate 2260 {})
  rw [length_Execute, lengthField_Execute, List.length_replicate] at hlength
  exact absurd hlength (by decide)

end PrerankScore
end DictionaryServer
