/-
`muduo::net::Buffer`: a vector with a reader and a writer index. The bytes
between the two are the ones that can be read; the codecs speak of nothing
else, so each operation comes with what it does to `peek`.

The order of the indices is part of the type. `makeSpace` has two ways to
find room, growing the vector or moving the readable bytes to the front, and
`peek` does not tell which was taken (`peek_append`).
-/
import DictionaryServer.Lib.Bytes

namespace DictionaryServer

open Lib

def kCheapPrepend : Nat := 8
def kInitialSize : Nat := 1024

structure Buffer where
  buffer : Bytes
  readerIndex : Nat
  writerIndex : Nat
  reader_le : readerIndex ≤ writerIndex
  writer_le : writerIndex ≤ buffer.length
  cheap_le : kCheapPrepend ≤ buffer.length

namespace Buffer

/-- The default constructor. -/
def empty : Buffer where
  buffer := List.replicate (kCheapPrepend + kInitialSize) 0
  readerIndex := kCheapPrepend
  writerIndex := kCheapPrepend
  reader_le := Nat.le_refl _
  writer_le := by simp
  cheap_le := by simp

def readableBytes (b : Buffer) : Nat := b.writerIndex - b.readerIndex

def writableBytes (b : Buffer) : Nat := b.buffer.length - b.writerIndex

def prependableBytes (b : Buffer) : Nat := b.readerIndex

/-- The readable bytes, which `peek` points at. -/
def peek (b : Buffer) : Bytes := (b.buffer.take b.writerIndex).drop b.readerIndex

theorem length_peek (b : Buffer) : b.peek.length = b.readableBytes := by
  have := b.writer_le
  simp only [peek, readableBytes, List.length_drop, List.length_take]
  omega

@[simp] theorem peek_empty : empty.peek = [] := by
  apply List.eq_nil_of_length_eq_zero
  rw [length_peek]
  rfl

def retrieveAll (b : Buffer) : Buffer :=
  { b with readerIndex := kCheapPrepend, writerIndex := kCheapPrepend, reader_le := Nat.le_refl _, writer_le := b.cheap_le }

/-- `retrieve`, whose assertion `len <= readableBytes()` is the caller's. -/
def retrieve (b : Buffer) (len : Nat) : Buffer :=
  if h : len < b.readableBytes then
    { b with readerIndex := b.readerIndex + len, reader_le := by simp only [readableBytes] at h; omega }
  else b.retrieveAll

theorem peek_retrieve (b : Buffer) (len : Nat) : (b.retrieve len).peek = b.peek.drop len := by
  by_cases h : len < b.readableBytes
  · simp only [retrieve, h, dite_true, peek, List.drop_drop]
  · have hl : b.peek.length ≤ len := by rw [length_peek]; omega
    have hr : (b.retrieve len).readableBytes = 0 := by
      rw [retrieve, dif_neg h]
      exact Nat.sub_self _
    rw [List.drop_eq_nil_of_le hl]
    exact List.eq_nil_of_length_eq_zero (by rw [length_peek, hr])

/-- `std::vector::resize`. -/
def resize (v : Bytes) (n : Nat) : Bytes := v.take n ++ List.replicate (n - v.length) 0

theorem length_resize (v : Bytes) (n : Nat) : (resize v n).length = n := by
  simp only [resize, List.length_append, List.length_take, List.length_replicate]
  omega

/-- Overwriting the bytes of `v` from `i` on, as `std::copy` does. -/
def overwrite (v : Bytes) (i : Nat) (data : Bytes) : Bytes := v.take i ++ data ++ v.drop (i + data.length)

theorem length_overwrite {v : Bytes} {i : Nat} {data : Bytes} (h : i ≤ v.length) :
    (overwrite v i data).length = max v.length (i + data.length) := by
  simp only [overwrite, List.length_append, List.length_take, List.length_drop]
  omega

theorem take_overwrite {v : Bytes} {i : Nat} {data : Bytes} (h : i ≤ v.length) :
    (overwrite v i data).take (i + data.length) = v.take i ++ data := by
  rw [overwrite]
  refine List.take_left' ?_
  simp only [List.length_append, List.length_take]
  omega

/-- `makeSpace`, called when the room behind is too small: grow the vector,
or move the readable bytes to the front. -/
def makeSpace (b : Buffer) (len : Nat) (h : b.writableBytes < len) : Buffer :=
  if b.writableBytes + b.prependableBytes < len + kCheapPrepend then
    { b with
      buffer := resize b.buffer (b.writerIndex + len)
      writer_le := by rw [length_resize]; exact Nat.le_add_right _ _
      cheap_le := by
        have := b.writer_le; have := b.cheap_le
        simp only [writableBytes] at h
        rw [length_resize]; omega }
  else
    { buffer := overwrite b.buffer kCheapPrepend b.peek
      readerIndex := kCheapPrepend
      writerIndex := kCheapPrepend + b.readableBytes
      reader_le := Nat.le_add_right _ _
      writer_le := by rw [length_overwrite b.cheap_le, length_peek]; exact le_max_right _ _
      cheap_le := by rw [length_overwrite b.cheap_le]; exact le_trans b.cheap_le (le_max_left _ _) }

theorem peek_makeSpace (b : Buffer) (len : Nat) (hl : b.writableBytes < len) : (b.makeSpace len hl).peek = b.peek := by
  have hw := b.writer_le
  by_cases h : b.writableBytes + b.prependableBytes < len + kCheapPrepend
  · simp only [makeSpace, h, if_true, peek, resize]
    rw [List.take_append_of_le_length (by simp only [List.length_take]; omega), List.take_take]
    congr 2
    omega
  · simp only [makeSpace, h, if_false]
    have ht := @take_overwrite b.buffer _ b.peek b.cheap_le
    rw [length_peek] at ht
    simp only [peek] at ht ⊢
    rw [ht]
    refine List.drop_left' ?_
    simp [b.cheap_le]

/-- What `ensureWritableBytes` promises, for either way of making room. -/
theorem writableBytes_makeSpace (b : Buffer) (len : Nat) (hl : b.writableBytes < len) :
    len ≤ (b.makeSpace len hl).writableBytes := by
  have hw := b.writer_le
  have hr := b.reader_le
  have hc := b.cheap_le
  by_cases h : b.writableBytes + b.prependableBytes < len + kCheapPrepend
  · rw [makeSpace, if_pos h]
    simp only [writableBytes, length_resize]
    omega
  · rw [makeSpace, if_neg h]
    simp only [writableBytes, prependableBytes, readableBytes, length_overwrite b.cheap_le, length_peek] at h ⊢
    omega

def ensureWritableBytes (b : Buffer) (len : Nat) : Buffer :=
  if h : b.writableBytes < len then b.makeSpace len h else b

/-- The assertion at the end of `ensureWritableBytes`. -/
theorem writableBytes_ensure (b : Buffer) (len : Nat) : len ≤ (b.ensureWritableBytes len).writableBytes := by
  unfold ensureWritableBytes
  split
  · exact writableBytes_makeSpace b len _
  · omega

theorem peek_ensureWritableBytes (b : Buffer) (len : Nat) : (b.ensureWritableBytes len).peek = b.peek := by
  unfold ensureWritableBytes
  split
  · exact peek_makeSpace b len _
  · rfl

/-- The copy to `beginWrite()` and `hasWritten` that follow. -/
def write (b : Buffer) (data : Bytes) : Buffer where
  buffer := overwrite b.buffer b.writerIndex data
  readerIndex := b.readerIndex
  writerIndex := b.writerIndex + data.length
  reader_le := le_trans b.reader_le (Nat.le_add_right _ _)
  writer_le := by rw [length_overwrite b.writer_le]; exact le_max_right _ _
  cheap_le := by rw [length_overwrite b.writer_le]; exact le_trans b.cheap_le (le_max_left _ _)

theorem peek_write (b : Buffer) (data : Bytes) : (b.write data).peek = b.peek ++ data := by
  have hr := b.reader_le
  have hw := b.writer_le
  simp only [peek, write, take_overwrite b.writer_le]
  rw [List.drop_append_of_le_length (by simp only [List.length_take]; omega)]

def append (b : Buffer) (data : Bytes) : Buffer := (b.ensureWritableBytes data.length).write data

theorem peek_append (b : Buffer) (data : Bytes) : (b.append data).peek = b.peek ++ data := by
  rw [append, peek_write, peek_ensureWritableBytes]

def appendInt32 (b : Buffer) (x : Int) : Buffer := b.append (be32 x)

def peekInt32 (b : Buffer) : Int := readBe32 b.peek

/-- `prepend`; its assertion is that the data fits in front. -/
def prepend (b : Buffer) (data : Bytes) : Option Buffer :=
  if h : data.length ≤ b.prependableBytes then
    some
      { buffer := overwrite b.buffer (b.readerIndex - data.length) data
        readerIndex := b.readerIndex - data.length
        writerIndex := b.writerIndex
        reader_le := le_trans (Nat.sub_le _ _) b.reader_le
        writer_le := by
          have := b.reader_le; have := b.writer_le
          rw [length_overwrite (by omega)]; exact le_trans b.writer_le (le_max_left _ _)
        cheap_le := by
          have := b.reader_le; have := b.writer_le
          rw [length_overwrite (by omega)]; exact le_trans b.cheap_le (le_max_left _ _) }
  else none

theorem peek_prepend {b : Buffer} {data : Bytes} (h : data.length ≤ b.prependableBytes) :
    ∃ b', b.prepend data = some b' ∧ b'.peek = data ++ b.peek := by
  have hr := b.reader_le
  have hw := b.writer_le
  refine ⟨_, dif_pos h, ?_⟩
  simp only [prependableBytes] at h
  have hi : b.readerIndex - data.length + data.length = b.readerIndex := by omega
  simp only [peek, overwrite, hi]
  rw [List.append_assoc, List.take_append, List.drop_append]
  simp only [List.length_take, List.take_take]
  rw [List.drop_eq_nil_of_le (by simp only [List.length_take]; omega), List.nil_append]
  have e₁ : b.readerIndex - data.length - min (min b.writerIndex (b.readerIndex - data.length)) b.buffer.length = 0 := by
    omega
  rw [e₁, List.drop_zero, List.take_append, List.take_of_length_le (by omega)]
  congr 1
  rw [List.take_drop]
  congr 1
  congr 1
  omega

theorem readableBytes_append (b : Buffer) (data : Bytes) :
    (b.append data).readableBytes = b.readableBytes + data.length := by
  rw [← length_peek, peek_append, List.length_append, length_peek]

theorem prependableBytes_append (b : Buffer) (data : Bytes) (h : kCheapPrepend ≤ b.prependableBytes) :
    kCheapPrepend ≤ (b.append data).prependableBytes := by
  simp only [append, write, prependableBytes, ensureWritableBytes] at h ⊢
  split
  · unfold makeSpace
    split
    · exact h
    · exact Nat.le_refl _
  · exact h

end Buffer
end DictionaryServer
