/-
`onMessage` and `parse` with every operation that could go wrong checked.

`turnChecked` and `parseChecked` go through the source operation by operation.
An `int` that overflows, a pointer or a read outside the body of the current
frame, a type name without a byte, a data range that is not the bytes between
the name and the checksum, and a `retrieve` of more than there is are each a
`Violation`. There is none, for any buffer, and the results are those of the
unchecked functions (`onMessage_checked`). The body handed to `parseChecked`
ends where the frame does, so nothing that follows has a part in them.
-/
import DictionaryServer.Lib.Except
import DictionaryServer.ProtobufCodecFacts

namespace DictionaryServer.ProtobufCodec

open Lib Lib.Framing Lib.Adler32

/-- What could go wrong. -/
inductive Violation
  /-- An `int` operation overflows. -/
  | overflow
  /-- A pointer, or a range of bytes read, is not inside the body. -/
  | outside
  /-- The type name has no byte. -/
  | typeName
  /-- The data handed to `ParseFromArray` does not end at the checksum. -/
  | data
  /-- `assert(len <= readableBytes())` in `Buffer::retrieve`. -/
  | retrieve

/-- The result of an `int` operation. -/
def int32 (n : Int) : Except Violation Int := if Fits32 n then .ok n else .error .overflow

/-- A pointer into the body, or to its end. -/
def ptr (body : Bytes) (p : Int) : Except Violation Int :=
  if 0 ≤ p ∧ p ≤ body.length then .ok p else .error .outside

/-- The `n` bytes at `p`. -/
def read (body : Bytes) (p n : Int) : Except Violation Bytes :=
  if 0 ≤ p ∧ 0 ≤ n ∧ p + n ≤ body.length then .ok ((body.drop p.toNat).take n.toNat) else .error .outside

def require (p : Prop) [Decidable p] (violation : Violation) : Except Violation Unit :=
  if p then .ok () else .error violation

variable (P : Protobuf)

/-- `parse`, on the body of a frame and nothing else. -/
def parseChecked (body : Bytes) (len : Int) : Except Violation (Option P.Message × ErrorCode) := do
  let word ← ptr body len
  let word ← ptr body (word - kHeaderLen)
  let expectedCheckSum := asInt32 (← read body word 4)
  let covered ← int32 (len - kHeaderLen)
  let checkSum := wrap32 (adler32 1 (← read body 0 covered) covered.toNat)
  if checkSum = expectedCheckSum then
    let nameLen := asInt32 (← read body 0 4)
    let words ← int32 (2 * kHeaderLen)
    let room ← int32 (len - words)
    if nameLen ≥ 2 ∧ nameLen ≤ room then
      let first ← ptr body kHeaderLen
      let last ← ptr body (kHeaderLen + nameLen)
      let last ← ptr body (last - 1)
      let typeName ← read body first (last - first)
      require (1 ≤ typeName.length) .typeName
      match createMessage P typeName with
      | some message =>
        let data ← ptr body (kHeaderLen + nameLen)
        let dataLen ← int32 (len - nameLen)
        let dataLen ← int32 (dataLen - words)
        require (0 ≤ dataLen ∧ data + dataLen = len - kHeaderLen) .data
        match P.parseFromArray message (← read body data dataLen) with
        | some message => return (some message, .kNoError)
        | none => return (some message, .kParseError)
      | none => return (none, .kUnknownMessageType)
    else return (none, .kInvalidNameLen)
  else return (none, .kCheckSumError)

/-- A turn of the loop in `onMessage`. -/
def turnChecked (buf : Buffer) : Except Violation (Head P.Message ErrorCode) := do
  let least ← int32 (kMinMessageLen + kHeaderLen)
  if (buf.readableBytes : Int) ≥ least then
    let len := asInt32 (← read buf.peek 0 4)
    if len > kMaxMessageLen ∨ len < kMinMessageLen then
      return .bad .kInvalidLength
    else
      let whole ← int32 (len + kHeaderLen)
      if (buf.readableBytes : Int) ≥ whole then
        let body ← read buf.peek kHeaderLen len
        match ← parseChecked P body len with
        | (some message, .kNoError) =>
          let n ← int32 (kHeaderLen + len)
          require (n ≤ buf.readableBytes) .retrieve
          return .frame message n.toNat
        | (_, errorCode) => return .bad errorCode
      else return .wait
  else return .wait

variable {P}

theorem int32_ok {n : Int} (h : Fits32 n) : int32 n = .ok n := if_pos h

theorem ptr_ok {body : Bytes} {p : Int} (h : 0 ≤ p ∧ p ≤ body.length) : ptr body p = .ok p := if_pos h

theorem read_ok {body : Bytes} {p n : Int} (h : 0 ≤ p ∧ 0 ≤ n ∧ p + n ≤ body.length) :
    read body p n = .ok ((body.drop p.toNat).take n.toNat) := if_pos h

theorem require_ok {p : Prop} [Decidable p] (h : p) (violation : Violation) : require p violation = .ok () := if_pos h

/-- **No step of `parse` goes wrong**, on a body of a length `onMessage` accepts. -/
theorem parseChecked_eq {body : Bytes} {len : Int} (hlen : body.length = len) (hmin : kMinMessageLen ≤ len)
    (hmax : len ≤ kMaxMessageLen) : parseChecked P body len = .ok (parse P body len) := by
  rw [kMinMessageLen_eq] at hmin
  rw [kMaxMessageLen_eq] at hmax
  have hword : read body (len - 4) 4 = .ok ((body.drop (len - 4).toNat).take 4) := read_ok (by omega)
  have hsummed : read body 0 (len - 4) = .ok (body.take (len - 4).toNat) := read_ok (by omega)
  have hname : read body 0 4 = .ok (body.take 4) := read_ok (by omega)
  have hend : ptr body len = .ok len := ptr_ok (by omega)
  have hback : ptr body (len - 4) = .ok (len - 4) := ptr_ok (by omega)
  have hcovered : int32 (len - 4) = .ok (len - 4) := int32_ok ⟨by omega, by omega⟩
  have hwords : int32 (2 * 4) = .ok (2 * 4) := int32_ok ⟨by omega, by omega⟩
  have hroom : int32 (len - 2 * 4) = .ok (len - 2 * 4) := int32_ok ⟨by omega, by omega⟩
  unfold parseChecked parse
  rw [kHeaderLen_eq]
  refine (bind_eq hend _).trans ((bind_eq hback _).trans ((bind_eq hword _).trans ((bind_eq hcovered _).trans
    ((bind_eq hsummed _).trans ?_))))
  unfold asInt32
  rw [readBe32_take, adler32_take]
  dsimp only
  generalize readBe32 (body.drop (len - 4).toNat) = expectedCheckSum
  generalize wrap32 (adler32 1 body (len - 4).toNat) = checkSum
  by_cases hsum : checkSum = expectedCheckSum
  swap
  · rw [if_neg hsum, if_neg hsum]
    rfl
  rw [if_pos hsum, if_pos hsum]
  refine (bind_eq hname _).trans ?_
  rw [readBe32_take]
  refine (bind_eq hwords _).trans ((bind_eq hroom _).trans ?_)
  generalize readBe32 body = nameLen
  by_cases hrange : nameLen ≥ 2 ∧ nameLen ≤ len - 2 * 4
  swap
  · rw [if_neg hrange, if_neg hrange]
    rfl
  rw [if_pos hrange, if_pos hrange]
  have hlast : ptr body (4 + nameLen) = .ok (4 + nameLen) := ptr_ok (by omega)
  have hname : read body 4 (4 + nameLen - 1 - 4) = .ok ((body.drop 4).take (nameLen - 1).toNat) := by
    rw [read_ok (by omega)]
    congr 3
    omega
  have hlength : 1 ≤ ((body.drop 4).take (nameLen - 1).toNat).length := by
    rw [List.length_take, List.length_drop]
    omega
  refine (bind_eq (ptr_ok (by omega)) _).trans ((bind_eq hlast _).trans ((bind_eq (ptr_ok (by omega)) _).trans
    ((bind_eq hname _).trans ((bind_eq (require_ok hlength _) _).trans ?_))))
  have hfour : Int.toNat 4 = 4 := rfl
  rw [hfour]
  rcases createMessage P ((body.drop 4).take (nameLen - 1).toNat) with _ | message
  · rfl
  · refine (bind_eq hlast _).trans ((bind_eq (int32_ok ⟨by omega, by omega⟩) _).trans
      ((bind_eq (int32_ok ⟨by omega, by omega⟩) _).trans ((bind_eq (require_ok ⟨by omega, by omega⟩ _) _).trans
      ((bind_eq (read_ok ⟨by omega, by omega, by omega⟩) _).trans ?_))))
    dsimp only
    rcases P.parseFromArray message ((body.drop (4 + nameLen).toNat).take (len - nameLen - 2 * 4).toNat) with _ | m
    · rfl
    · rfl

theorem turnChecked_eq (buf : Buffer) : turnChecked P buf = .ok (turn P buf) := by
  have hleast : int32 (kMinMessageLen + kHeaderLen) = .ok (kMinMessageLen + kHeaderLen) := int32_ok (by decide)
  unfold turnChecked turn
  refine (bind_eq hleast _).trans ?_
  by_cases hshort : (buf.readableBytes : Int) ≥ kMinMessageLen + kHeaderLen
  swap
  · rw [if_neg hshort, if_neg hshort]
    rfl
  rw [if_pos hshort, if_pos hshort]
  rw [kMinMessageLen_eq, kHeaderLen_eq] at hshort
  have hpeek := Buffer.length_peek buf
  have hword : read buf.peek 0 4 = .ok (buf.peek.take 4) := read_ok (by omega)
  have hlen : asInt32 (buf.peek.take 4) = buf.peekInt32 := readBe32_take _
  refine (bind_eq hword _).trans ?_
  rw [hlen]
  dsimp only
  generalize buf.peekInt32 = len
  by_cases hok : len > kMaxMessageLen ∨ len < kMinMessageLen
  · rw [if_pos hok, if_pos hok]
    rfl
  rw [if_neg hok, if_neg hok]
  have hmin : kMinMessageLen ≤ len := by omega
  have hmax : len ≤ kMaxMessageLen := by omega
  rw [kMinMessageLen_eq, kMaxMessageLen_eq] at hok
  rw [kHeaderLen_eq]
  refine (bind_eq (int32_ok ⟨by omega, by omega⟩) _).trans ?_
  by_cases hwhole : (buf.readableBytes : Int) ≥ len + 4
  swap
  · rw [if_neg hwhole, if_neg hwhole]
    rfl
  rw [if_pos hwhole, if_pos hwhole]
  have hbody : ((buf.peek.drop 4).take len.toNat).length = len := by
    rw [List.length_take, List.length_drop]
    omega
  have hparse : parseChecked P ((buf.peek.drop 4).take len.toNat) len = .ok (parse P (buf.peek.drop 4) len) := by
    rw [parseChecked_eq hbody hmin hmax, ← parse_append hmin (le_of_eq hbody.symm) ((buf.peek.drop 4).drop len.toNat),
      List.take_append_drop]
  refine (bind_eq (read_ok (by omega)) _).trans ((bind_eq hparse _).trans ?_)
  have hfour : Int.toNat 4 = 4 := rfl
  rw [hfour]
  generalize parse P (buf.peek.drop 4) len = parsed
  rcases parsed with ⟨_ | message, _ | _⟩
  all_goals try rfl
  exact (bind_eq (int32_ok ⟨by omega, by omega⟩) _).trans (bind_eq (require_ok (by omega) _) _)

variable (P) in
/-- `onMessage`, turn by turn. -/
def onMessageChecked (buf : Buffer) : Except Violation (Call P) :=
  match _h : turnChecked P buf with
  | .error violation => .error violation
  | .ok .wait => .ok ⟨[], none, buf⟩
  | .ok (.frame message n) => do
    let call ← onMessageChecked (buf.retrieve n)
    return { call with delivered := message :: call.delivered }
  | .ok (.bad errorCode) => .ok ⟨[], some errorCode, buf⟩
termination_by buf.readableBytes
decreasing_by exact turn_frame_lt (Except.ok.inj ((turnChecked_eq buf).symm.trans _h))

/-- **`onMessage` stays inside the frame**: whatever the buffer holds, no step
of it goes wrong. -/
theorem onMessage_checked (buf : Buffer) : onMessageChecked P buf = .ok (onMessage P buf) := by
  have hchecked := turnChecked_eq (P := P) buf
  rcases hturn : turn P buf with _ | ⟨message, n⟩ | errorCode
  · rw [hturn] at hchecked
    rw [onMessage_wait hturn, onMessageChecked]
    split
    · next h => cases hchecked.symm.trans h
    · rfl
    · next h => cases hchecked.symm.trans h
    · next h => cases hchecked.symm.trans h
  · rw [hturn] at hchecked
    have hrest := onMessage_checked (buf.retrieve n)
    rw [onMessage_deliver hturn, onMessageChecked]
    split
    · next h => cases hchecked.symm.trans h
    · next h => cases hchecked.symm.trans h
    · next h =>
      cases hchecked.symm.trans h
      exact bind_eq hrest _
    · next h => cases hchecked.symm.trans h
  · rw [hturn] at hchecked
    rw [onMessage_bad hturn, onMessageChecked]
    split
    · next h => cases hchecked.symm.trans h
    · next h => cases hchecked.symm.trans h
    · next h => cases hchecked.symm.trans h
    · next h =>
      cases hchecked.symm.trans h
      rfl
termination_by buf.readableBytes
decreasing_by exact turn_frame_lt hturn

end DictionaryServer.ProtobufCodec
