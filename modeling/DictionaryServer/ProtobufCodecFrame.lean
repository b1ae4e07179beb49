/-
What `fillEmptyBuffer` writes, a turn of `onMessage` reads back.

`frame` is the byte string of a message's frame. `fillEmptyBuffer` writes it
(`fillEmptyBuffer_peek`), and since the offsets of encoder and decoder agree
(`parse_body`) a turn delivers the message and no proper prefix of the frame
does more than wait (`frame_encodes`).
-/
import DictionaryServer.ProtobufCodecFacts

namespace DictionaryServer.ProtobufCodec

open Lib Lib.Framing Lib.Adler32

variable {P : Protobuf}

/-! ## The frame -/

variable (P) in
/-- What the checksum covers: the name length, the name with its NUL, the data. -/
def body (x : P.Message) : Bytes :=
  be32 ((P.getTypeName x).length + 1) ++ (P.getTypeName x ++ [0]) ++ P.serializeWithCachedSizesToArray x

variable (P) in
def checkSum (x : P.Message) : Int := wrap32 (adler32 1 (body P x) (body P x).length)

variable (P) in
def frame (x : P.Message) : Bytes := be32 ((body P x).length + 4) ++ (body P x ++ be32 (checkSum P x))

theorem length_body (x : P.Message) : (body P x).length =
    4 + (P.getTypeName x).length + 1 + (P.serializeWithCachedSizesToArray x).length := by
  simp only [body, List.length_append, be32_length, List.length_singleton]
  omega

theorem length_frame (x : P.Message) : (frame P x).length = (body P x).length + 8 := by
  simp only [frame, List.length_append, be32_length]
  omega

theorem guard_bind {α : Type} {p : Prop} [Decidable p] (h : p) (f : Unit → Option α) : (guard p >>= f) = f () := by
  rw [guard, if_pos h]
  rfl

theorem guard_bind_none {α : Type} {p : Prop} [Decidable p] (h : ¬p) (f : Unit → Option α) : (guard p >>= f) = none := by
  rw [guard, if_neg h]
  rfl

/-- **`fillEmptyBuffer` writes the frame** of a message whose size is what it says it is. -/
theorem fillEmptyBuffer_peek {x : P.Message} (hinit : P.isInitialized x = true)
    (hname : (P.getTypeName x).length + 1 < 2 ^ 30)
    (hbyte_size : wrap32 (P.byteSize x) = (P.serializeWithCachedSizesToArray x).length) :
    ∃ buf, fillEmptyBuffer P .empty x = some buf ∧ buf.peek = frame P x := by
  have hnameLen : wrap32 ((P.getTypeName x).length + 1) = (P.getTypeName x).length + 1 :=
    wrap32_of_fits ⟨by omega, by omega⟩
  have hdata : ((P.serializeWithCachedSizesToArray x).length : Int) < 2 ^ 31 := hbyte_size ▸ (wrap32_fits _).2
  have htake : (P.getTypeName x ++ [0]).take ((P.getTypeName x).length + 1 : Int).toNat = P.getTypeName x ++ [0] := by
    refine List.take_of_length_le ?_
    simp only [List.length_append, List.length_singleton]
    omega
  obtain ⟨b, hb⟩ : ∃ b, b = ((Buffer.empty.appendInt32 ((P.getTypeName x).length + 1)).append
    (P.getTypeName x ++ [0])).append (P.serializeWithCachedSizesToArray x) := ⟨_, rfl⟩
  have hpeek : b.peek = body P x := by
    rw [hb, body]
    simp only [Buffer.peek_append, Buffer.appendInt32, Buffer.peek_empty, List.nil_append]
  have hroom : kCheapPrepend ≤ b.prependableBytes := by
    rw [hb]
    exact Buffer.prependableBytes_append _ _ (Buffer.prependableBytes_append _ _
      (Buffer.prependableBytes_append _ _ (Nat.le_refl _)))
  have hread : b.readableBytes = (body P x).length := by rw [← hpeek, Buffer.length_peek]
  have hsum : wrap32 (adler32 1 b.peek (b.readableBytes % 2 ^ 32)) = checkSum P x := by
    rw [hpeek, hread, Nat.mod_eq_of_lt (by rw [length_body]; omega), checkSum]
  have hread' : (b.appendInt32 (checkSum P x)).readableBytes = (body P x).length + 4 := by
    rw [Buffer.appendInt32, Buffer.readableBytes_append, hread, be32_length]
  have hfit : (be32 (wrap32 ((body P x).length + 4 : Nat))).length ≤ (b.appendInt32 (checkSum P x)).prependableBytes :=
    le_trans (by rw [be32_length]; decide) (Buffer.prependableBytes_append _ _ hroom)
  obtain ⟨buf, hbuf, hp⟩ := Buffer.peek_prepend hfit
  refine ⟨buf, ?_, ?_⟩
  · unfold fillEmptyBuffer
    refine (guard_bind (show Buffer.empty.readableBytes = 0 from rfl) _).trans ?_
    simp only [hnameLen, htake, hbyte_size]
    refine (guard_bind hinit _).trans ((guard_bind trivial _).trans ?_)
    rw [← hb, hsum, hread', hbuf]
    refine guard_bind ?_ _
    rw [length_body]
    push_cast
    omega
  · rw [hp, be32_wrap32, Buffer.appendInt32, Buffer.peek_append, hpeek, frame]
    rfl

theorem fillEmptyBuffer_some {x : P.Message} {buf : Buffer} (hname : (P.getTypeName x).length + 1 < 2 ^ 30)
    (h : fillEmptyBuffer P .empty x = some buf) : buf.peek = frame P x := by
  by_cases hinit : P.isInitialized x = true
  · by_cases hsize : wrap32 (P.byteSize x) = (P.serializeWithCachedSizesToArray x).length
    · obtain ⟨buf', hbuf, hpeek⟩ := fillEmptyBuffer_peek hinit hname hsize
      cases hbuf.symm.trans h
      exact hpeek
    · unfold fillEmptyBuffer at h
      cases ((guard_bind rfl _).trans ((guard_bind hinit _).trans (guard_bind_none (Ne.symm hsize) _))).symm.trans h
  · unfold fillEmptyBuffer at h
    cases ((guard_bind rfl _).trans (guard_bind_none hinit _)).symm.trans h

theorem byteSize_wrap {x : P.Message} (hsize : P.byteSize x = (P.serializeWithCachedSizesToArray x).length)
    (hdata : P.byteSize x < 2 ^ 31) : wrap32 (P.byteSize x) = (P.serializeWithCachedSizesToArray x).length := by
  rw [wrap32_of_fits ⟨by omega, by omega⟩, hsize]

theorem fillEmptyBuffer_none {x : P.Message} (hinit : P.isInitialized x = true)
    (hsize : P.byteSize x = (P.serializeWithCachedSizesToArray x).length) (hdata : 2 ^ 31 ≤ P.byteSize x) :
    fillEmptyBuffer P .empty x = none := by
  have hfits := (wrap32_fits (P.byteSize x)).2
  have hbyte_size : ¬((P.serializeWithCachedSizesToArray x).length : Int) = wrap32 (P.byteSize x) := by
    rw [← hsize]
    omega
  unfold fillEmptyBuffer
  refine (guard_bind (show Buffer.empty.readableBytes = 0 from rfl) _).trans ?_
  exact (guard_bind hinit _).trans (guard_bind_none hbyte_size _)

/-! ## What a decoder makes of it -/

/-- What the codec needs of a message and of protobuf to carry it. -/
structure Encodable (P : Protobuf) (x : P.Message) : Prop where
  initialized : P.isInitialized x = true
  byteSize : P.byteSize x = (P.serializeWithCachedSizesToArray x).length
  typeName_ne : P.getTypeName x ≠ []
  /-- The type is registered, and parsing undoes serialization. -/
  registered : ∃ message, createMessage P (P.getTypeName x) = some message ∧
    P.parseFromArray message (P.serializeWithCachedSizesToArray x) = some x
  fits : 4 + (P.getTypeName x).length + 1 + (P.serializeWithCachedSizesToArray x).length + 4 ≤ kMaxMessageLen

theorem Encodable.length_body_le {x : P.Message} (h : Encodable P x) : (body P x).length + 4 ≤ 67108864 := by
  have hfits := h.fits
  rw [kMaxMessageLen_eq] at hfits
  rw [length_body]
  omega

theorem Encodable.le_length_body {x : P.Message} (h : Encodable P x) : 6 ≤ (body P x).length := by
  have hname := List.length_pos_of_ne_nil h.typeName_ne
  rw [length_body]
  omega

theorem Encodable.fillEmptyBuffer {x : P.Message} (h : Encodable P x) :
    ∃ buf, fillEmptyBuffer P .empty x = some buf ∧ buf.peek = frame P x := by
  have hbody := h.length_body_le
  rw [length_body] at hbody
  exact fillEmptyBuffer_peek h.initialized (by omega) (byteSize_wrap h.byteSize (by rw [h.byteSize]; omega))

/-- **The decoder's offsets are the encoder's**: from the body of a frame on,
whatever follows, `parse` reads the checksum, the name and the data written. -/
theorem parse_body (x : P.Message) (hname : P.getTypeName x ≠ []) (hlen : (body P x).length + 4 < 2 ^ 31)
    (c : Bytes) : parse P (body P x ++ be32 (checkSum P x) ++ c) ((body P x).length + 4) =
      match createMessage P (P.getTypeName x) with
      | some message =>
        match P.parseFromArray message (P.serializeWithCachedSizesToArray x) with
        | some message => (some message, .kNoError)
        | none => (some message, .kParseError)
      | none => (none, .kUnknownMessageType) := by
  have hpos := List.length_pos_of_ne_nil hname
  have hbody := length_body x
  have hsum : asInt32 ((body P x ++ be32 (checkSum P x) ++ c).drop (body P x).length) = checkSum P x := by
    rw [List.append_assoc, List.drop_left]
    unfold asInt32 checkSum
    rw [be32_read, wrap32_of_fits (wrap32_fits _)]
  have hadler : wrap32 (adler32 1 (body P x ++ be32 (checkSum P x) ++ c) (body P x).length) = checkSum P x := by
    rw [List.append_assoc, adler32_append (Nat.le_refl _), checkSum]
  have hread : asInt32 (body P x ++ be32 (checkSum P x) ++ c) = (P.getTypeName x).length + 1 := by
    unfold asInt32 body
    rw [List.append_assoc, List.append_assoc, List.append_assoc, be32_read]
    exact wrap32_of_fits ⟨by omega, by omega⟩
  have htype : ((body P x ++ be32 (checkSum P x) ++ c).drop 4).take (P.getTypeName x).length = P.getTypeName x := by
    simp only [body, List.append_assoc]
    rw [List.drop_left' (be32_length _), List.take_left]
  have hdata : ((body P x ++ be32 (checkSum P x) ++ c).drop (4 + ((P.getTypeName x).length + 1))).take
      (P.serializeWithCachedSizesToArray x).length = P.serializeWithCachedSizesToArray x := by
    simp only [body, List.append_assoc]
    rw [← List.drop_drop, List.drop_left' (be32_length _), ← List.append_assoc,
      List.drop_left' (by simp only [List.length_append, List.length_singleton]), List.take_left]
  have e₁ : ((body P x).length + 4 - 4 : Int).toNat = (body P x).length := by omega
  have e₂ : Int.toNat 4 = 4 := rfl
  have e₃ : ((P.getTypeName x).length + 1 - 1 : Int).toNat = (P.getTypeName x).length := by omega
  have e₄ : (4 + ((P.getTypeName x).length + 1) : Int).toNat = 4 + ((P.getTypeName x).length + 1) := by omega
  have e₅ : ((body P x).length + 4 - ((P.getTypeName x).length + 1) - 2 * 4 : Int).toNat =
      (P.serializeWithCachedSizesToArray x).length := by omega
  have hrange : ((P.getTypeName x).length + 1 : Int) ≥ 2 ∧
      ((P.getTypeName x).length + 1 : Int) ≤ (body P x).length + 4 - 2 * 4 := ⟨by omega, by omega⟩
  unfold parse
  rw [kHeaderLen_eq]
  dsimp only
  rw [e₁, hsum, hadler, if_pos rfl, hread, if_pos hrange, e₂, e₃, htype, e₄, e₅]
  rcases createMessage P (P.getTypeName x) with _ | message
  · rfl
  · dsimp only
    rcases hparse : P.parseFromArray message (P.serializeWithCachedSizesToArray x) with _ | m
    · simp only [hdata, hparse]
    · simp only [hdata, hparse]

theorem parse_encodable {x : P.Message} (h : Encodable P x) (c : Bytes) :
    parse P (body P x ++ be32 (checkSum P x) ++ c) ((body P x).length + 4) = (some x, .kNoError) := by
  have hle := h.length_body_le
  obtain ⟨message, hcreate, hparse⟩ := h.registered
  rw [parse_body x h.typeName_ne (by omega), hcreate]
  simp only [hparse]

/-- What a turn sees of a buffer that starts with a frame. -/
theorem frame_append (x : P.Message) (c : Bytes) : frame P x ++ c =
    be32 ((body P x).length + 4) ++ (body P x ++ be32 (checkSum P x) ++ c) := by
  simp only [frame, List.append_assoc]

theorem readBe32_frame {x : P.Message} (hlen : (body P x).length + 4 < 2 ^ 31) {p q : Bytes} (h : frame P x = p ++ q)
    (hp : 4 ≤ p.length) : readBe32 p = (body P x).length + 4 := by
  have hread : readBe32 (frame P x) = (body P x).length + 4 := by
    rw [frame, be32_read, wrap32_of_fits ⟨by omega, by omega⟩]
  rw [← hread, h, readBe32_append hp]

theorem turn_frame {x : P.Message} (hlen₁ : 6 ≤ (body P x).length) (hlen₂ : (body P x).length + 4 ≤ 67108864)
    (c : Bytes) : (decoder P).head (frame P x ++ c) =
      bodyHead ((body P x).length + 4) (parse P (body P x ++ be32 (checkSum P x) ++ c) ((body P x).length + 4)) := by
  have hread : readBe32 (frame P x ++ c) = (body P x).length + 4 := by
    rw [readBe32_append (by rw [length_frame]; omega)]
    exact readBe32_frame (by omega) (List.append_nil _).symm (by rw [length_frame]; omega)
  have hlength : (frame P x ++ c).length = (body P x).length + 8 + c.length := by
    rw [List.length_append, length_frame]
  have hok : LenOk (frame P x ++ c) := by
    rw [LenOk, hread, kMinMessageLen_eq, kMaxMessageLen_eq]
    omega
  have hbody : (frame P x ++ c).drop 4 = body P x ++ be32 (checkSum P x) ++ c := by
    rw [frame_append, List.drop_left' (be32_length _)]
  have hpeek : (ofBytes (frame P x ++ c)).peek = frame P x ++ c := peek_ofBytes _
  have hturn : turn P (ofBytes (frame P x ++ c)) = _ :=
    turn_whole (by rw [hpeek]; omega) (by rwa [hpeek]) (by rw [hpeek, hread]; omega)
  rw [hpeek, hread, hbody] at hturn
  exact hturn

/-- **A frame above the limit is refused**, also where its length wraps. -/
theorem turn_frame_long {x : P.Message} (hlen₁ : 67108864 < (body P x).length + 4)
    (hlen₂ : (body P x).length + 4 < 2 ^ 32) (c : Bytes) :
    (decoder P).head (frame P x ++ c) = .bad .kInvalidLength := by
  have hread : readBe32 (frame P x ++ c) = wrap32 ((body P x).length + 4) := by
    rw [frame_append, be32_read]
  have hpeek : (ofBytes (frame P x ++ c)).peek = frame P x ++ c := peek_ofBytes _
  refine turn_bad_length (by rw [hpeek, List.length_append, length_frame]; omega) ?_
  intro hok
  rw [hpeek, LenOk, hread, kMinMessageLen_eq, kMaxMessageLen_eq] at hok
  by_cases hfits : (body P x).length + 4 < 2 ^ 31
  · rw [wrap32_of_fits ⟨by omega, by omega⟩] at hok
    omega
  · have hneg : wrap32 ((body P x).length + 4) = (body P x).length + 4 - 2 ^ 32 := by
      rw [← wrap32_emod, ← Int.sub_emod_right, wrap32_emod, wrap32_of_fits ⟨by omega, by omega⟩]
    omega

/-- **A frame decodes to its message, and a cut one waits.** -/
theorem frame_encodes {x : P.Message} (h : Encodable P x) : Decoder.Encodes (decoder P) (frame P x) x where
  frame c := by
    rw [turn_frame h.le_length_body h.length_body_le, parse_encodable h, length_frame, bodyHead]
    congr 1
    omega
  wait p q hpq hq := by
    have hlength : (body P x).length + 8 = p.length + q.length := by
      rw [← length_frame, hpq, List.length_append]
    have hq' := List.length_pos_of_ne_nil hq
    have hle := h.length_body_le
    have hge := h.le_length_body
    have hp : (ofBytes p).peek = p := peek_ofBytes p
    by_cases h14 : 14 ≤ p.length
    · have hread : readBe32 p = (body P x).length + 4 := readBe32_frame (by omega) hpq (by omega)
      refine turn_unfinished (by rwa [hp]) ?_ (by rw [hp, hread]; omega)
      rw [hp, LenOk, hread, kMinMessageLen_eq, kMaxMessageLen_eq]
      omega
    · exact turn_short (by rw [hp]; omega)

/-! ## Sent and received -/

theorem onMessage_frame (x : P.Message) :
    (onMessage P (Buffer.empty.append (frame P x))).delivered = ((decoder P).drain (frame P x)).delivered := by
  have hcall := onMessage_outcome (P := P) (Buffer.empty.append (frame P x))
  rw [Buffer.peek_append, Buffer.peek_empty, List.nil_append] at hcall
  exact congrArg Outcome.delivered hcall

/-- A frame within the limit delivers what protobuf makes of its data. -/
theorem drain_frame_registered {x message : P.Message} (hne : P.getTypeName x ≠ [])
    (hcreate : createMessage P (P.getTypeName x) = some message) (hfits : (body P x).length + 4 ≤ 67108864) :
    ((decoder P).drain (frame P x)).delivered =
      (P.parseFromArray message (P.serializeWithCachedSizesToArray x)).toList := by
  have hpos := List.length_pos_of_ne_nil hne
  have hturn := turn_frame (P := P) (x := x) (by rw [length_body]; omega) hfits []
  rw [List.append_nil, parse_body x hne (by omega), hcreate] at hturn
  have hnil : (decoder P).head [] = .wait := turn_short (by rw [peek_ofBytes]; exact Nat.zero_lt_succ _)
  rcases hparse : P.parseFromArray message (P.serializeWithCachedSizesToArray x) with _ | m
  · simp only [hparse, bodyHead] at hturn
    rw [Decoder.drain_bad hturn]
    rfl
  · simp only [hparse, bodyHead] at hturn
    have hall : (4 + ((body P x).length + 4 : Int)).toNat = (frame P x).length := by
      rw [length_frame]
      omega
    rw [Decoder.drain_frame hturn, hall, List.drop_length, Decoder.drain_wait hnil]
    rfl

/-- **A peer delivers what was sent to it** exactly when the frame is within
the limit and protobuf parses the data back. -/
theorem delivered_iff {x message : P.Message} (hinit : P.isInitialized x = true) (hne : P.getTypeName x ≠ [])
    (hname : (P.getTypeName x).length + 1 < 2 ^ 30)
    (hsize : P.byteSize x = (P.serializeWithCachedSizesToArray x).length)
    (hcreate : createMessage P (P.getTypeName x) = some message) (m : P.Message) :
    (∃ bytes, send P x = some bytes ∧ (onMessage P (Buffer.empty.append bytes)).delivered = [m]) ↔
      (body P x).length + 4 ≤ 67108864 ∧
        P.parseFromArray message (P.serializeWithCachedSizesToArray x) = some m := by
  have hbody := length_body x
  by_cases hdata : P.byteSize x < 2 ^ 31
  · obtain ⟨buf, hfill, hpeek⟩ := fillEmptyBuffer_peek hinit hname (byteSize_wrap hsize hdata)
    have hsend : send P x = some (frame P x) := by rw [send, hfill, ← hpeek]; rfl
    simp only [hsend, Option.some.injEq, exists_eq_left', onMessage_frame]
    by_cases hfits : (body P x).length + 4 ≤ 67108864
    · rw [drain_frame_registered hne hcreate hfits, and_iff_right hfits]
      exact Option.toList_eq_singleton_iff
    · have hturn := turn_frame_long (P := P) (x := x) (by omega) (by omega) []
      rw [List.append_nil] at hturn
      rw [Decoder.drain_bad hturn]
      exact iff_of_false (List.cons_ne_nil _ _).symm fun h => hfits h.1
  · have hsend : send P x = none := by rw [send, fillEmptyBuffer_none hinit hsize (not_lt.mp hdata)]; rfl
    refine iff_of_false ?_ fun h => ?_
    · intro hsent
      obtain ⟨bytes, hbytes, -⟩ := hsent
      rw [hsend] at hbytes
      cases hbytes
    · omega

end DictionaryServer.ProtobufCodec
