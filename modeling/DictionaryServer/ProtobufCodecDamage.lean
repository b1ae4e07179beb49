/-
A frame with a damaged byte.

Encoder and decoder take the checksum of the same range, so a byte changed
there moves the checksum the decoder computes, and one changed in the checksum
word moves the one it expects (`checkSum_damaged`). The length word aside,
`parse` compares the two before it uses anything else of the frame.
-/
import DictionaryServer.Message.WireFormat

namespace DictionaryServer.ProtobufCodec

open Lib Lib.Framing Lib.Adler32

variable {P : Protobuf}

/-- `parse` looks at the checksum first. -/
theorem parse_checkSum {b : Bytes} {len : Int}
    (h : wrap32 (adler32 1 b (len - 4).toNat) ≠ asInt32 (b.drop (len - 4).toNat)) :
    parse P b len = (none, .kCheckSumError) := by
  unfold parse
  rw [kHeaderLen_eq]
  exact if_neg h

/-- **No changed byte leaves the checksums equal.** -/
theorem checkSum_damaged (x : P.Message) {j : Nat} {c : UInt8} (hj : j < (body P x ++ be32 (checkSum P x)).length)
    (hc : c ≠ (body P x ++ be32 (checkSum P x))[j]) :
    wrap32 (adler32 1 ((body P x ++ be32 (checkSum P x)).set j c) (body P x).length) ≠
      asInt32 (((body P x ++ be32 (checkSum P x)).set j c).drop (body P x).length) := by
  unfold asInt32
  have hsum : readBe32 (be32 (checkSum P x)) = checkSum P x := by
    have hread := be32_read (checkSum P x) []
    rwa [List.append_nil, checkSum, wrap32_of_fits (wrap32_fits _)] at hread
  by_cases hbody : j < (body P x).length
  · -- The word is as it was written, the sum is of other bytes.
    rw [List.getElem_append_left hbody] at hc
    rw [List.set_append_left _ _ hbody, List.drop_left' (List.length_set ..), hsum,
      adler32_append (Nat.le_of_eq (List.length_set ..).symm)]
    intro heq
    have hword := wrap32_inj ⟨Int.natCast_nonneg _, by exact_mod_cast adler32_lt _ _⟩
      ⟨Int.natCast_nonneg _, by exact_mod_cast adler32_lt _ _⟩ heq
    exact adler32_set hbody hbody hc (Int.ofNat_inj.mp hword)
  · -- The sum is as it was, the word is another.
    have hle : (body P x).length ≤ j := not_lt.mp hbody
    rw [List.length_append, be32_length] at hj
    rw [List.getElem_append_right hle] at hc
    rw [List.set_append_right _ _ hle, List.drop_left, adler32_append (Nat.le_refl _)]
    intro heq
    exact readBe32_set (b := be32 (checkSum P x)) (by rw [be32_length]) (by omega) hc (heq.symm.trans hsum.symm)

/-- **A single changed byte never gets through**: the damaged frame is refused
for its checksum and left in the buffer. -/
theorem onMessage_damaged {x : P.Message} {buf damaged : Buffer} (hfill : fillEmptyBuffer P .empty x = some buf)
    (hne : P.getTypeName x ≠ [])
    (hfits : 4 + (P.getTypeName x).length + 1 + (P.serializeWithCachedSizesToArray x).length + 4 ≤ kMaxMessageLen)
    {i : Nat} {c : UInt8} (hi : 4 ≤ i) (hlt : i < buf.peek.length) (hc : c ≠ buf.peek[i])
    (hdamaged : damaged.peek = buf.peek.set i c) :
    onMessage P damaged = ⟨[], some .kCheckSumError, damaged⟩ := by
  rw [kMaxMessageLen_eq] at hfits
  have hname := List.length_pos_of_ne_nil hne
  have hbody := length_body x
  have hpeek : buf.peek = frame P x := fillEmptyBuffer_some (by omega) hfill
  have hset : damaged.peek = be32 ((body P x).length + 4) ++ (body P x ++ be32 (checkSum P x)).set (i - 4) c := by
    rw [hdamaged, hpeek, frame, List.set_append_right _ _ (by rw [be32_length]; exact hi), be32_length]
  have hread : readBe32 damaged.peek = (body P x).length + 4 := by
    rw [hset, be32_read, wrap32_of_fits ⟨by omega, by omega⟩]
  have hlength : damaged.peek.length = (body P x).length + 8 := by
    rw [hdamaged, List.length_set, hpeek, length_frame]
  have hok : LenOk damaged.peek := by
    rw [LenOk, hread, kMinMessageLen_eq, kMaxMessageLen_eq]
    omega
  have hj : i - 4 < (body P x ++ be32 (checkSum P x)).length := by
    rw [hpeek, length_frame] at hlt
    rw [List.length_append, be32_length]
    omega
  have hc' : c ≠ (body P x ++ be32 (checkSum P x))[i - 4] := by
    simp only [hpeek, frame] at hc
    rwa [List.getElem_append_right (by rw [be32_length]; exact hi)] at hc
  have hdrop : damaged.peek.drop 4 = (body P x ++ be32 (checkSum P x)).set (i - 4) c := by
    rw [hset, List.drop_left' (be32_length _)]
  have hlen : ((body P x).length + 4 - 4 : Int).toNat = (body P x).length := by omega
  have hturn : turn P damaged = .bad .kCheckSumError := by
    rw [turn_whole (by omega) hok (by rw [hread]; omega), hread, hdrop,
      parse_checkSum (by rw [hlen]; exact checkSum_damaged x hj hc')]
    rfl
  exact onMessage_bad hturn

/-- A query whose type name has lost a letter. -/
theorem onMessage_damaged_query : ∃ buf damaged : Buffer,
    fillEmptyBuffer (queryProto wireFormat) .empty (Message.query { key := ofText "k" }) = some buf ∧
    damaged.peek = buf.peek.set 12 0 ∧ damaged.peek ≠ buf.peek ∧
    onMessage (queryProto wireFormat) damaged = ⟨[], some .kCheckSumError, damaged⟩ := by
  have henc : Encodable (queryProto wireFormat) (Message.query { key := ofText "k" }) :=
    encodable wireFormat_lawful ⟨by simp [Message.strings, validUtf8_ofText], rfl, trivial⟩ (by decide)
  obtain ⟨buf, hfill, hpeek⟩ := henc.fillEmptyBuffer
  have hbyte : (frame (queryProto wireFormat) (Message.query { key := ofText "k" }))[12]? = some 0x6F := by
    decide +kernel
  obtain ⟨hlt, hget⟩ := List.getElem?_eq_some_iff.mp (hpeek ▸ hbyte : buf.peek[12]? = some 0x6F)
  have hc : (0 : UInt8) ≠ buf.peek[12] := by
    rw [hget]
    decide
  refine ⟨buf, ofBytes (buf.peek.set 12 0), hfill, peek_ofBytes _, ?_,
    onMessage_damaged hfill henc.typeName_ne henc.fits (by decide) hlt hc (peek_ofBytes _)⟩
  intro heq
  rw [peek_ofBytes] at heq
  exact hc ((List.getElem_set_self (by rwa [List.length_set])).symm.trans (List.getElem_of_eq heq _))

end DictionaryServer.ProtobufCodec
