/-
Well-formed UTF-8, as a property of byte strings.

A byte string is well formed when it is the encoding of some characters. The
rule a formatter needs is `validUtf8_split`: text around an ASCII byte is well
formed exactly when the two sides are, since no longer character has such a
byte in it.
-/
import DictionaryServer.Lib.Bytes

namespace Lib

/-- The bytes encode some list of characters. -/
def ValidUtf8 (b : Bytes) : Prop := ∃ cs : List Char, cs.flatMap String.utf8EncodeChar = b

theorem validUtf8_nil : ValidUtf8 [] := ⟨[], rfl⟩

theorem ValidUtf8.append {a b : Bytes} (ha : ValidUtf8 a) (hb : ValidUtf8 b) : ValidUtf8 (a ++ b) := by
  obtain ⟨cs, rfl⟩ := ha
  obtain ⟨ds, rfl⟩ := hb
  exact ⟨cs ++ ds, List.flatMap_append⟩

/-- A character is an ASCII byte, or all its bytes have the high bit set. -/
theorem utf8EncodeChar_cases (ch : Char) :
    (ch.val.toNat < 128 ∧ String.utf8EncodeChar ch = [UInt8.ofNat ch.val.toNat]) ∨
      ∀ c ∈ String.utf8EncodeChar ch, 128 ≤ c.toNat := by
  unfold String.utf8EncodeChar
  simp only
  split_ifs with h₁ h₂ h₃
  · exact .inl ⟨by omega, rfl⟩
  all_goals
    refine .inr ?_
    intro c hc
    simp only [List.mem_cons, List.not_mem_nil, or_false] at hc
  · rcases hc with rfl | rfl <;> rw [UInt8.toNat_ofNat'] <;> omega
  · rcases hc with rfl | rfl | rfl <;> rw [UInt8.toNat_ofNat'] <;> omega
  · rcases hc with rfl | rfl | rfl | rfl <;> rw [UInt8.toNat_ofNat'] <;> omega

theorem validUtf8_ascii {c : UInt8} (h : c.toNat < 128) : ValidUtf8 [c] := by
  refine ⟨[Char.ofNat c.toNat], ?_⟩
  have hv : (Char.ofNat c.toNat).val.toNat = c.toNat := by
    have hvalid : c.toNat.isValidChar := .inl (by omega)
    rw [Char.ofNat, dif_pos hvalid]
    rfl
  simp only [List.flatMap_cons, List.flatMap_nil, List.append_nil, String.utf8EncodeChar, hv]
  rw [if_pos (by omega), UInt8.ofNat_toNat]

/-- **Text around an ASCII byte** is well formed exactly when both sides are. -/
theorem validUtf8_split {c : UInt8} (h : c.toNat < 128) (a b : Bytes) :
    ValidUtf8 (a ++ c :: b) ↔ ValidUtf8 a ∧ ValidUtf8 b := by
  refine ⟨?_, fun ⟨ha, hb⟩ => ha.append (a := a) (b := [c] ++ b) ((validUtf8_ascii h).append hb)⟩
  intro hvalid
  obtain ⟨cs, hcs⟩ := hvalid
  induction cs generalizing a with
  | nil => simp at hcs
  | cons ch cs ih =>
    rw [List.flatMap_cons] at hcs
    rcases utf8EncodeChar_cases ch with ⟨-, hd⟩ | hhigh
    · rw [hd] at hcs
      cases a with
      | nil =>
        obtain ⟨-, rfl⟩ := List.cons.inj hcs
        exact ⟨validUtf8_nil, cs, rfl⟩
      | cons x a =>
        obtain ⟨rfl, hrest⟩ := List.cons.inj hcs
        obtain ⟨ha, hb⟩ := ih a hrest
        exact ⟨ValidUtf8.append (a := [_]) ⟨[ch], by simp [hd]⟩ ha, hb⟩
    · -- The character lies before the byte, for it cannot hold it.
      rcases List.append_eq_append_iff.mp hcs with ⟨a', ha', hrest⟩ | ⟨c', hc', hrest⟩
      · obtain ⟨ha, hb⟩ := ih a' hrest
        rw [ha']
        exact ⟨ValidUtf8.append ⟨[ch], by simp⟩ ha, hb⟩
      · cases c' with
        | nil =>
          rw [List.append_nil] at hc'
          obtain ⟨-, hb⟩ := ih [] hrest.symm
          rw [← hc']
          exact ⟨⟨[ch], by simp⟩, hb⟩
        | cons x c' =>
          obtain ⟨rfl, -⟩ := List.cons.inj hrest
          have := hhigh c (by rw [hc']; simp)
          omega

/-! ## The core library's validator -/

theorem validUtf8_iff {b : Bytes} : ValidUtf8 b ↔ b.toByteArray.IsValidUTF8 := by
  refine ⟨fun ⟨cs, hcs⟩ => ⟨cs, by rw [List.utf8Encode, hcs]⟩, fun ⟨cs, hcs⟩ => ⟨cs, ?_⟩⟩
  have h := congrArg (fun a => a.data.toList) hcs
  simpa only [List.utf8Encode, List.toList_data_toByteArray] using h.symm

instance (b : Bytes) : Decidable (ValidUtf8 b) := decidable_of_iff _ validUtf8_iff.symm

/-- **Well-formed text in front** of a text makes no difference to it. -/
theorem ValidUtf8.append_iff {a : Bytes} (ha : ValidUtf8 a) (b : Bytes) : ValidUtf8 (a ++ b) ↔ ValidUtf8 b := by
  refine ⟨?_, ha.append⟩
  intro hab
  obtain ⟨cs, rfl⟩ := ha
  induction cs with
  | nil => exact hab
  | cons ch cs ih =>
    refine ih ?_
    rw [List.flatMap_cons, List.append_assoc, validUtf8_iff, List.toByteArray_append] at hab
    rw [validUtf8_iff]
    rw [← List.utf8Encode_singleton] at hab
    exact ByteArray.isValidUTF8_utf8Encode_singleton_append_iff.mp hab

theorem validUtf8_ofText (s : String) : ValidUtf8 (ofText s) := by
  obtain ⟨cs, hcs⟩ := s.isValidUTF8
  refine ⟨cs, ?_⟩
  rw [ofText, String.toUTF8, hcs, List.utf8Encode, List.toList_data_toByteArray]

/-! ## Texts -/

theorem ofText_inj {s t : String} (h : ofText s = ofText t) : s = t :=
  String.toByteArray_inj.mp (ByteArray.ext (Array.toList_inj.mp h))

/-- An ASCII byte of a text is a character of it. -/
theorem mem_ofText_ascii {s : String} {c : Char} (hc : c.val.toNat < 128) (h : UInt8.ofNat c.val.toNat ∈ ofText s) :
    c ∈ s.toList := by
  rw [ofText, String.toUTF8, ← String.utf8Encode_toList, List.utf8Encode, List.toList_data_toByteArray,
    List.mem_flatMap] at h
  obtain ⟨c', hmem, hbyte⟩ := h
  suffices heq : c' = c from heq ▸ hmem
  have hlow : (UInt8.ofNat c.val.toNat).toNat = c.val.toNat := by
    rw [UInt8.toNat_ofNat']
    omega
  rcases utf8EncodeChar_cases c' with ⟨hascii, hencode⟩ | hhigh
  · rw [hencode, List.mem_singleton] at hbyte
    have hval := congrArg UInt8.toNat hbyte
    rw [hlow, UInt8.toNat_ofNat'] at hval
    exact Char.ext (UInt32.toNat_inj.mp (by omega))
  · have := hhigh _ hbyte
    omega

end Lib
