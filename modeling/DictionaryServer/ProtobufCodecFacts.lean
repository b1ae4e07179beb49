/-
A turn of `onMessage` looks at the readable bytes alone (`turn_congr`) and
what it has decided it decides again when more of them arrive
(`turn_append`). So it is a decoder in the sense of `Lib.Framing`
(`decoder`), and a call of `onMessage` drains it (`onMessage_outcome`).
-/
import DictionaryServer.ProtobufCodec

namespace DictionaryServer.ProtobufCodec

open Lib Lib.Framing Lib.Adler32

variable {P : Protobuf}

theorem kHeaderLen_eq : kHeaderLen = 4 := rfl
theorem kMinMessageLen_eq : kMinMessageLen = 10 := by decide
theorem kMaxMessageLen_eq : kMaxMessageLen = 67108864 := by decide

/-! ## A turn is a decoder's step -/

/-- An `int32_t` lies within the first `n + 4` bytes. -/
theorem asInt32_drop_append {b : Bytes} {n : Nat} (h : n + 4 ≤ b.length) (c : Bytes) :
    asInt32 ((b ++ c).drop n) = asInt32 (b.drop n) := by
  rw [List.drop_append_of_le_length (by omega)]
  exact readBe32_append (by rw [List.length_drop]; omega) c

theorem take_drop_append {b : Bytes} {i n : Nat} (h : i + n ≤ b.length) (c : Bytes) :
    ((b ++ c).drop i).take n = (b.drop i).take n := by
  rw [List.drop_append_of_le_length (by omega), List.take_append_of_le_length]
  rw [List.length_drop]
  omega

theorem parse_append {b : Bytes} {len : Int} (h₁ : kMinMessageLen ≤ len) (h₂ : len ≤ b.length) (c : Bytes) :
    parse P (b ++ c) len = parse P b len := by
  rw [kMinMessageLen_eq] at h₁
  have hl : (len - 4).toNat + 4 ≤ b.length := by omega
  have hsum := asInt32_drop_append hl c
  have hadler := adler32_append (show (len - 4).toNat ≤ b.length by omega) 1 c
  have hname : asInt32 (b ++ c) = asInt32 b := asInt32_drop_append (n := 0) (by omega) c
  unfold parse
  rw [kHeaderLen_eq, hsum, hadler, hname]
  dsimp only
  split_ifs with hc hn
  · generalize asInt32 b = nameLen at hn
    clear hc hname hsum hadler
    rw [take_drop_append (by simp only [Int.reduceToNat]; omega), take_drop_append (by omega)]
  · rfl
  · rfl

/-- The length word of a buffer is one `onMessage` accepts. -/
def LenOk (b : Bytes) : Prop := kMinMessageLen ≤ readBe32 b ∧ readBe32 b ≤ kMaxMessageLen

theorem lenOk_iff {b : Bytes} : LenOk b ↔ ¬(readBe32 b > kMaxMessageLen ∨ readBe32 b < kMinMessageLen) := by
  simp only [LenOk]
  omega

/-- What a turn makes of the body it parsed. -/
def bodyHead (len : Int) : Option P.Message × ErrorCode → Head P.Message ErrorCode
  | (some message, .kNoError) => .frame message (4 + len).toNat
  | (_, errorCode) => .bad errorCode

/-! What a turn decides, case by case. -/

theorem turn_short {buf : Buffer} (h : buf.peek.length < 14) : turn P buf = .wait := by
  rw [Buffer.length_peek] at h
  unfold turn
  rw [kMinMessageLen_eq, kHeaderLen_eq, if_neg (by omega)]

theorem turn_bad_length {buf : Buffer} (h₁ : 14 ≤ buf.peek.length) (h₂ : ¬LenOk buf.peek) :
    turn P buf = .bad .kInvalidLength := by
  rw [Buffer.length_peek] at h₁
  unfold turn
  rw [if_pos (by rw [kMinMessageLen_eq, kHeaderLen_eq]; omega)]
  exact if_pos (not_not.mp (mt lenOk_iff.mpr h₂))

theorem turn_unfinished {buf : Buffer} (h₁ : 14 ≤ buf.peek.length) (h₂ : LenOk buf.peek)
    (h₃ : (buf.peek.length : Int) < readBe32 buf.peek + 4) : turn P buf = .wait := by
  rw [Buffer.length_peek] at h₁ h₃
  unfold turn
  rw [if_pos (by rw [kMinMessageLen_eq, kHeaderLen_eq]; omega)]
  refine (if_neg (lenOk_iff.mp h₂)).trans ?_
  exact if_neg (by rw [kHeaderLen_eq]; exact not_le.mpr h₃)

theorem turn_whole {buf : Buffer} (h₁ : 14 ≤ buf.peek.length) (h₂ : LenOk buf.peek)
    (h₃ : readBe32 buf.peek + 4 ≤ buf.peek.length) :
    turn P buf = bodyHead (readBe32 buf.peek) (parse P (buf.peek.drop 4) (readBe32 buf.peek)) := by
  rw [Buffer.length_peek] at h₁ h₃
  unfold turn
  rw [if_pos (by rw [kMinMessageLen_eq, kHeaderLen_eq]; omega)]
  refine (if_neg (lenOk_iff.mp h₂)).trans ?_
  have hlen : buf.peekInt32 = readBe32 buf.peek := rfl
  have hhead : Int.toNat 4 = 4 := rfl
  rw [kHeaderLen_eq, hlen, hhead, if_pos h₃]
  generalize parse P (buf.peek.drop 4) (readBe32 buf.peek) = parsed
  generalize readBe32 buf.peek = len
  rcases parsed with ⟨_ | _, _ | _⟩ <;> rfl

theorem turn_congr {b b' : Buffer} (h : b.peek = b'.peek) : turn P b = turn P b' := by
  simp only [turn, Buffer.peekInt32, ← Buffer.length_peek, h]

/-- **What a turn has decided it decides again** when more has arrived. -/
theorem turn_append {b b' : Buffer} {c : Bytes} (hb : b'.peek = b.peek ++ c) (h : turn P b ≠ .wait) :
    turn P b' = turn P b := by
  by_cases h₁ : 14 ≤ b.peek.length
  swap
  · exact absurd (turn_short (not_le.mp h₁)) h
  have h₁' : 14 ≤ b'.peek.length := by rw [hb, List.length_append]; omega
  have hlen : readBe32 b'.peek = readBe32 b.peek := by rw [hb, readBe32_append (by omega)]
  have hok : LenOk b'.peek ↔ LenOk b.peek := by simp only [LenOk, hlen]
  by_cases h₂ : LenOk b.peek
  · by_cases h₃ : readBe32 b.peek + 4 ≤ b.peek.length
    · rw [turn_whole h₁ h₂ h₃, turn_whole h₁' (hok.mpr h₂) (by rw [hlen, hb, List.length_append]; omega), hlen, hb,
        List.drop_append_of_le_length (by omega), parse_append h₂.1 (by rw [List.length_drop]; omega)]
    · exact absurd (turn_unfinished h₁ h₂ (not_le.mp h₃)) h
  · rw [turn_bad_length h₁ h₂, turn_bad_length h₁' (mt hok.mp h₂)]

/-! What a call does then. -/

theorem onMessage_wait {buf : Buffer} (h : turn P buf = .wait) : onMessage P buf = ⟨[], none, buf⟩ := by
  rw [onMessage]
  split
  · rfl
  · next h' => cases h.symm.trans h'
  · next h' => cases h.symm.trans h'

theorem onMessage_deliver {buf : Buffer} {message : P.Message} {n : Nat} (h : turn P buf = .frame message n) :
    onMessage P buf =
      { onMessage P (buf.retrieve n) with delivered := message :: (onMessage P (buf.retrieve n)).delivered } := by
  rw [onMessage]
  split
  · next h' => cases h.symm.trans h'
  · next h' =>
    cases h.symm.trans h'
    rfl
  · next h' => cases h.symm.trans h'

theorem onMessage_bad {buf : Buffer} {errorCode : ErrorCode} (h : turn P buf = .bad errorCode) :
    onMessage P buf = ⟨[], some errorCode, buf⟩ := by
  rw [onMessage]
  split
  · next h' => cases h.symm.trans h'
  · next h' => cases h.symm.trans h'
  · next h' =>
    cases h.symm.trans h'
    rfl

/-- A buffer whose readable bytes are `b`. -/
def ofBytes (b : Bytes) : Buffer := Buffer.empty.append b

@[simp] theorem peek_ofBytes (b : Bytes) : (ofBytes b).peek = b := by simp [ofBytes, Buffer.peek_append]

attribute [irreducible] ofBytes

variable (P) in
/-- `onMessage` as a decoder of frames. -/
def decoder : Decoder UInt8 P.Message ErrorCode where
  head b := turn P (ofBytes b)
  frame_pos {b m n} h := by
    have hn := turn_frame_pos h
    rwa [← Buffer.length_peek, peek_ofBytes] at hn
  frame_append {b m n} c h := by rw [turn_append (b := ofBytes b) (c := c) (by simp) (by rw [h]; nofun), h]
  bad_append {b e} c h := by rw [turn_append (b := ofBytes b) (c := c) (by simp) (by rw [h]; nofun), h]

/-- A call of `onMessage` as an outcome of that decoder. -/
def Call.outcome (call : Call P) : Outcome UInt8 P.Message ErrorCode := ⟨call.delivered, call.error, call.buf.peek⟩

/-- **A call of `onMessage` drains the readable bytes.** -/
theorem onMessage_outcome (buf : Buffer) : (onMessage P buf).outcome = (decoder P).drain buf.peek := by
  have hhead : (decoder P).head buf.peek = turn P buf := turn_congr (peek_ofBytes _)
  rcases hturn : turn P buf with _ | ⟨message, n⟩ | errorCode
  · rw [onMessage_wait hturn, Decoder.drain_wait (hhead.trans hturn)]
    rfl
  · have ih := onMessage_outcome (buf.retrieve n)
    rw [Buffer.peek_retrieve] at ih
    rw [onMessage_deliver hturn, Decoder.drain_frame (hhead.trans hturn), ← ih]
    rfl
  · rw [onMessage_bad hturn, Decoder.drain_bad (hhead.trans hturn)]
    rfl
termination_by buf.readableBytes
decreasing_by exact turn_frame_lt hturn

theorem onChunks_outcomes (buf : Buffer) (chunks : List Bytes) :
    (onChunks P buf chunks).map Call.outcome = (decoder P).calls buf.peek chunks := by
  induction chunks generalizing buf with
  | nil => rfl
  | cons chunk chunks ih =>
    have hcall := onMessage_outcome (P := P) (buf.append chunk)
    rw [Buffer.peek_append] at hcall
    simp only [onChunks, List.map_cons, Decoder.calls, ih, ← hcall]
    rfl

end DictionaryServer.ProtobufCodec
