/-
The header of a body that `parse` accepts, written again.

`parse` reads the name length and the bytes of the name, and finds a type by
this name; the byte that ends the name it skips. So the message it returns is
written again with the same header up to that byte, and with a NUL there
(`header_rewritten`): the two headers are one exactly when the NUL is there
already (`header_canonical_iff`).
-/
import DictionaryServer.Message.Parsed

namespace DictionaryServer

open Lib Lib.Adler32

namespace ProtobufCodec

variable {P : Protobuf}

/-- What `parse` found in a body it accepted. -/
structure Accepted (P : Protobuf) (b : Bytes) (len : Int) (m : P.Message) (nameLen : Nat) : Prop where
  nameLen_eq : asInt32 b = nameLen
  two_le : 2 ≤ nameLen
  le : (nameLen : Int) + 8 ≤ len
  parsed : ∃ message, createMessage P ((b.drop 4).take (nameLen - 1)) = some message ∧
    P.parseFromArray message ((b.drop (4 + nameLen)).take (len - nameLen - 8).toNat) = some m

theorem parse_accepted {b : Bytes} {len : Int} {m : P.Message} (h : parse P b len = (some m, .kNoError)) :
    ∃ nameLen, Accepted P b len m nameLen := by
  unfold parse at h
  rw [kHeaderLen_eq] at h
  dsimp only at h
  split at h
  swap
  · cases h
  split at h
  swap
  · cases h
  next hname =>
  obtain ⟨nameLen, hnameLen⟩ := Int.eq_ofNat_of_zero_le (show 0 ≤ asInt32 b by omega)
  rw [hnameLen] at h hname
  have e₁ : ((nameLen : Int) - 1).toNat = nameLen - 1 := by omega
  have e₂ : (4 + (nameLen : Int)).toNat = 4 + nameLen := by omega
  have e₃ : (len - nameLen - 2 * 4).toNat = (len - nameLen - 8).toNat := by omega
  have e₄ : Int.toNat 4 = 4 := rfl
  rw [e₁, e₂, e₃, e₄] at h
  split at h
  swap
  · cases h
  next message hcreate =>
  split at h
  swap
  · cases h
  next parsed hparse =>
  cases h
  exact ⟨nameLen, hnameLen, by omega, by omega, message, hcreate, hparse⟩

theorem getTypeName_create (hP : P.Lawful) {name : Bytes} {message : P.Message}
    (h : createMessage P name = some message) : P.getTypeName message = name := by
  simp only [createMessage, Option.bind_eq_bind, Option.bind_eq_some_iff] at h
  obtain ⟨descriptor, hfind, prototype, hprototype, heq⟩ := h
  cases heq
  exact hP.getTypeName_new hfind hprototype

/-- **The header written again** is the one read, but for the byte after the name. -/
theorem header_rewritten (hP : P.Lawful) {b : Bytes} {len : Int} {m : P.Message} {nameLen : Nat}
    (h : Accepted P b len m nameLen) (hmax : len ≤ kMaxMessageLen) (hlen : len ≤ b.length) :
    ∃ buf, fillEmptyBuffer P .empty m = some buf ∧
      (buf.peek.drop 4).take (4 + nameLen) = b.take (4 + nameLen - 1) ++ [0] := by
  obtain ⟨message, hcreate, hparse⟩ := h.parsed
  have htwo := h.two_le
  have hle := h.le
  have hname : P.getTypeName m = (b.drop 4).take (nameLen - 1) :=
    (hP.getTypeName_parse hparse).trans (getTypeName_create hP hcreate)
  have hlength : (P.getTypeName m).length = nameLen - 1 := by
    rw [hname, List.length_take, List.length_drop]
    omega
  rw [kMaxMessageLen_eq] at hmax
  have hdata : ((b.drop (4 + nameLen)).take (len - nameLen - 8).toNat).length ≤ kMaxMessageLen := by
    rw [kMaxMessageLen_eq, List.length_take]
    omega
  obtain ⟨buf, hfill, hpeek⟩ := fillEmptyBuffer_peek (hP.isInitialized_parse hparse) (by omega)
    (byteSize_wrap (hP.byteSize_parse hparse) (hP.byteSize_lt hparse hdata))
  refine ⟨buf, hfill, ?_⟩
  have hword : be32 ((P.getTypeName m).length + 1) = b.take 4 := by
    have hcast : ((P.getTypeName m).length + 1 : Int) = readBe32 b := by
      rw [hlength]
      exact Eq.trans (by omega) h.nameLen_eq.symm
    rw [hcast, be32_readBe32 (by omega)]
  have hheader : (be32 ((P.getTypeName m).length + 1) ++ (P.getTypeName m ++ [0])).length = 4 + nameLen := by
    rw [List.length_append, List.length_append, be32_length, hlength, List.length_singleton]
    omega
  have hsplit : 4 + nameLen - 1 = 4 + (nameLen - 1) := by omega
  rw [hpeek, frame, List.drop_left' (be32_length _), body, List.append_assoc, List.take_left' hheader, hword, hname,
    ← List.append_assoc, ← List.take_add, hsplit]

/-- **The decoder accepts a header the encoder writes** exactly when the name in it ends in a NUL. -/
theorem header_canonical_iff (hP : P.Lawful) {b : Bytes} {len : Int} {m : P.Message} (hmax : len ≤ kMaxMessageLen)
    (hlen : len ≤ b.length) (h : parse P b len = (some m, .kNoError)) :
    (∃ buf, fillEmptyBuffer P .empty m = some buf ∧
      (buf.peek.drop 4).take (4 + (asInt32 b).toNat) = b.take (4 + (asInt32 b).toNat)) ↔
    b[4 + (asInt32 b).toNat - 1]? = some 0 := by
  obtain ⟨nameLen, haccepted⟩ := parse_accepted h
  obtain ⟨buf, hfill, hrewritten⟩ := header_rewritten hP haccepted hmax hlen
  have htwo := haccepted.two_le
  have hle := haccepted.le
  rw [haccepted.nameLen_eq, Int.toNat_natCast, hfill]
  simp only [Option.some.injEq, exists_eq_left', hrewritten]
  obtain ⟨i, hi⟩ : ∃ i, 4 + nameLen = i + 1 := ⟨3 + nameLen, by omega⟩
  rw [hi, Nat.add_sub_cancel, List.take_add_one, List.append_cancel_left_eq]
  have hlt : i < b.length := by omega
  rw [List.getElem?_eq_getElem hlt, Option.toList_some, List.cons.injEq, Option.some.injEq, and_iff_left rfl]
  exact eq_comm

def emptyQuery : (queryProto wireFormat).Message := Message.query {}

instance (W : WireFormatLite) : DecidableEq (queryProto W).Message := inferInstanceAs (DecidableEq Message)

/-- The body of its frame, with a byte of choice after the type name. -/
def queryBody (c : UInt8) : Bytes :=
  let covered := be32 12 ++ ofText "muduo.Query" ++ [c]
  covered ++ be32 (adler32 1 covered covered.length)

theorem asInt32_queryBody (c : UInt8) : asInt32 (queryBody c) = 12 := by
  rw [asInt32, queryBody, List.append_assoc, List.append_assoc, be32_read, wrap32_of_fits ⟨by decide, by decide⟩]

theorem parse_queryBody (c : UInt8) (h : c = 0 ∨ c = 1) :
    parse (queryProto wireFormat) (queryBody c) 20 = (some emptyQuery, .kNoError) := by
  rcases h with rfl | rfl <;> decide +kernel

/-- As the encoder writes it. -/
theorem header_canonical_iff_query :
    (∃ buf, fillEmptyBuffer (queryProto wireFormat) .empty emptyQuery = some buf ∧
      (buf.peek.drop 4).take (4 + (asInt32 (queryBody 0)).toNat) =
        (queryBody 0).take (4 + (asInt32 (queryBody 0)).toNat)) ↔
    (queryBody 0)[4 + (asInt32 (queryBody 0)).toNat - 1]? = some 0 :=
  header_canonical_iff queryProto_lawful (by decide) (by decide) (parse_queryBody 0 (.inl rfl))

/-- A name that ends in another byte is accepted. -/
theorem header_not_canonical : ¬∀ (b : Bytes) (len : Int) (m : (queryProto wireFormat).Message),
    len ≤ kMaxMessageLen → len ≤ b.length →
    parse (queryProto wireFormat) b len = (some m, .kNoError) →
    ∃ buf, fillEmptyBuffer (queryProto wireFormat) .empty m = some buf ∧
      (buf.peek.drop 4).take (4 + (asInt32 b).toNat) = b.take (4 + (asInt32 b).toNat) := by
  intro h
  obtain ⟨buf, hfill, htake⟩ := h (queryBody 1) 20 emptyQuery (by decide) (by decide) (parse_queryBody 1 (.inr rfl))
  obtain ⟨nameLen, haccepted⟩ := parse_accepted (parse_queryBody 1 (.inr rfl))
  obtain ⟨buf', hfill', hrewritten⟩ := header_rewritten queryProto_lawful haccepted (by decide) (by decide)
  obtain rfl := Option.some.inj (hfill.symm.trans hfill')
  obtain rfl : 12 = nameLen := Int.ofNat_inj.mp ((asInt32_queryBody 1).symm.trans haccepted.nameLen_eq)
  rw [asInt32_queryBody] at htake
  exact absurd (hrewritten.symm.trans htake) (by decide +kernel)

end ProtobufCodec
end DictionaryServer
