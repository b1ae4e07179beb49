/-
`LengthHeaderCodec` (sender/src/frame/codec.h): messages, each after its length
as a big-endian `int32_t`.

`onMessage` is a decoder of `Lib.Framing`, so what `send` writes comes out of
it however the stream is cut (`send_onChunks`), and as much of it as has
arrived after each chunk (`onChunks_decodes`).
-/
import DictionaryServer.Lib.Framing
import DictionaryServer.Muduo.Buffer
import Mathlib.Data.List.Forall2

namespace DictionaryServer.LengthHeaderCodec

open Lib Lib.Framing

def kHeaderLen : Nat := 4

/-- One turn of the loop in `onMessage`: a message to deliver, with the bytes
it takes, an invalid length, or neither. -/
def turn (buf : Buffer) : Head Bytes Int :=
  if buf.readableBytes ≥ kHeaderLen then
    let len := buf.peekInt32
    if len > 65536 ∨ len < 0 then .bad len
    else if buf.readableBytes ≥ len.toNat + kHeaderLen then
      .frame ((buf.retrieve kHeaderLen).peek.take len.toNat) (kHeaderLen + len.toNat)
    else .wait
  else .wait

/-- The same, of the readable bytes. -/
def front (b : Bytes) : Head Bytes Int :=
  if b.length ≥ kHeaderLen then
    if readBe32 b > 65536 ∨ readBe32 b < 0 then .bad (readBe32 b)
    else if b.length ≥ (readBe32 b).toNat + kHeaderLen then
      .frame ((b.drop kHeaderLen).take (readBe32 b).toNat) (kHeaderLen + (readBe32 b).toNat)
    else .wait
  else .wait

theorem turn_eq (buf : Buffer) : turn buf = front buf.peek := by
  simp only [turn, front, Buffer.length_peek, Buffer.peekInt32, Buffer.peek_retrieve]

theorem front_frame {b m : Bytes} {n : Nat} (h : front b = .frame m n) : n = kHeaderLen + m.length ∧ n ≤ b.length := by
  unfold front at h
  split at h
  · split at h
    · cases h
    split at h
    · next hlen =>
      cases h
      simp only [List.length_take, List.length_drop]
      omega
    · cases h
  · cases h

/-- What a call of `onMessage` did: the messages given to `messageCallback_`,
the invalid length it logged before it shut the connection down, and the
buffer it left. -/
structure Call where
  delivered : List Bytes
  invalidLength : Option Int
  buf : Buffer

def onMessage (buf : Buffer) : Call :=
  match _h : turn buf with
  | .wait => ⟨[], none, buf⟩
  | .frame message n =>
    let call := onMessage ((buf.retrieve kHeaderLen).retrieve (n - kHeaderLen))
    { call with delivered := message :: call.delivered }
  | .bad len => ⟨[], some len, buf⟩
termination_by buf.readableBytes
decreasing_by
  have hpos : 0 < kHeaderLen := Nat.succ_pos 3
  have := front_frame ((turn_eq buf).symm.trans _h)
  rw [← Buffer.length_peek, ← Buffer.length_peek, Buffer.peek_retrieve, Buffer.peek_retrieve, List.length_drop,
    List.length_drop]
  omega

/-- `send`: the bytes it gives to the connection. -/
def send (message : Bytes) : Option Bytes := do
  let buf := Buffer.empty.append message
  let len := wrap32 message.length
  let buf ← buf.prepend (be32 len)
  return buf.peek

/-- The input of a connection arrives in chunks. -/
def onChunks : Buffer → List Bytes → List Call
  | _, [] => []
  | buf, chunk :: chunks =>
    let call := onMessage (buf.append chunk)
    call :: onChunks call.buf chunks

/-! ## The decoder -/

theorem front_append {b c : Bytes} (h : front b ≠ .wait) : front (b ++ c) = front b := by
  by_cases hhead : b.length ≥ kHeaderLen
  · have hread : readBe32 (b ++ c) = readBe32 b := readBe32_append hhead c
    have hlong : (b ++ c).length ≥ kHeaderLen := by rw [List.length_append]; omega
    unfold front at h ⊢
    rw [if_pos hhead] at h ⊢
    rw [if_pos hlong, hread]
    by_cases hbad : readBe32 b > 65536 ∨ readBe32 b < 0
    · rw [if_pos hbad, if_pos hbad]
    · rw [if_neg hbad] at h ⊢
      rw [if_neg hbad]
      by_cases hlen : b.length ≥ (readBe32 b).toNat + kHeaderLen
      · have hlen' : (b ++ c).length ≥ (readBe32 b).toNat + kHeaderLen := by rw [List.length_append]; omega
        rw [if_pos hlen, if_pos hlen', List.drop_append_of_le_length hhead,
          List.take_append_of_le_length (by rw [List.length_drop]; omega)]
      · exact absurd (if_neg hlen) h
  · exact absurd (if_neg hhead) h

def decoder : Decoder UInt8 Bytes Int where
  head := front
  frame_pos {b m n} h := by
    have := front_frame h
    simp only [kHeaderLen] at this
    omega
  frame_append {b m n} c h := by rw [front_append (by rw [h]; nofun), h]
  bad_append {b e} c h := by rw [front_append (by rw [h]; nofun), h]

@[simp] theorem decoder_head (b : Bytes) : decoder.head b = front b := rfl

def Call.outcome (call : Call) : Outcome UInt8 Bytes Int := ⟨call.delivered, call.invalidLength, call.buf.peek⟩

theorem onMessage_wait {buf : Buffer} (h : turn buf = .wait) : onMessage buf = ⟨[], none, buf⟩ := by
  rw [onMessage]
  split <;> next h' => cases h.symm.trans h' <;> rfl

theorem onMessage_frame {buf : Buffer} {message : Bytes} {n : Nat} (h : turn buf = .frame message n) :
    onMessage buf =
      let call := onMessage ((buf.retrieve kHeaderLen).retrieve (n - kHeaderLen))
      { call with delivered := message :: call.delivered } := by
  rw [onMessage]
  split <;> next h' => cases h.symm.trans h' <;> rfl

theorem onMessage_bad {buf : Buffer} {len : Int} (h : turn buf = .bad len) : onMessage buf = ⟨[], some len, buf⟩ := by
  rw [onMessage]
  split <;> next h' => cases h.symm.trans h' <;> rfl

/-- **A call of `onMessage` drains the readable bytes.** -/
theorem onMessage_outcome (buf : Buffer) : (onMessage buf).outcome = decoder.drain buf.peek := by
  have hhead : decoder.head buf.peek = turn buf := (turn_eq buf).symm
  rcases hturn : turn buf with _ | ⟨message, n⟩ | len
  · rw [onMessage_wait hturn, Decoder.drain_wait (hhead.trans hturn)]
    rfl
  · have hn := front_frame (hhead.trans hturn)
    have ih := onMessage_outcome ((buf.retrieve kHeaderLen).retrieve (n - kHeaderLen))
    rw [Buffer.peek_retrieve, Buffer.peek_retrieve, List.drop_drop, Nat.add_sub_cancel' (by omega)] at ih
    rw [onMessage_frame hturn, Decoder.drain_frame (hhead.trans hturn), ← ih]
    rfl
  · rw [onMessage_bad hturn, Decoder.drain_bad (hhead.trans hturn)]
    rfl
termination_by buf.readableBytes
decreasing_by
  have hpos : 0 < kHeaderLen := Nat.succ_pos 3
  rw [← Buffer.length_peek, ← Buffer.length_peek, Buffer.peek_retrieve, Buffer.peek_retrieve, List.length_drop,
    List.length_drop]
  omega

theorem onChunks_outcomes (buf : Buffer) (chunks : List Bytes) :
    (onChunks buf chunks).map Call.outcome = decoder.calls buf.peek chunks := by
  induction chunks generalizing buf with
  | nil => rfl
  | cons chunk chunks ih =>
    have hcall := onMessage_outcome (buf.append chunk)
    rw [Buffer.peek_append] at hcall
    simp only [onChunks, List.map_cons, Decoder.calls, ih, ← hcall]
    rfl

/-! ## The round trip -/

theorem front_nil : decoder.head [] = .wait := rfl

/-- A message of at most 65536 bytes comes out of its frame, whatever follows. -/
theorem encodes {message : Bytes} (h : message.length ≤ 65536) :
    Decoder.Encodes decoder (be32 (wrap32 message.length) ++ message) message := by
  have hfits : wrap32 message.length = message.length := wrap32_of_fits ⟨by omega, by omega⟩
  have hread : ∀ b, readBe32 (be32 (wrap32 message.length) ++ b) = message.length := by
    intro b
    rw [be32_read, hfits, hfits]
  have hvalid : ¬((message.length : Int) > 65536 ∨ (message.length : Int) < 0) := by omega
  constructor
  · intro c
    rw [decoder_head, front, List.append_assoc, hread, if_pos (by simp [kHeaderLen]), if_neg hvalid,
      if_pos (by simp [kHeaderLen]; omega), List.drop_left' (by simp [kHeaderLen])]
    simp [kHeaderLen]
  · intro p q hpq hq
    rw [decoder_head]
    have hlen := congrArg List.length hpq
    have hqlen := List.length_pos_of_ne_nil hq
    rw [List.length_append, List.length_append, be32_length] at hlen
    unfold front
    by_cases hhead : p.length ≥ kHeaderLen
    · have hread' : readBe32 p = message.length := by
        rw [← readBe32_append hhead q, ← hpq, hread]
      rw [if_pos hhead, hread', if_neg hvalid, if_neg]
      simp only [kHeaderLen]
      omega
    · exact if_neg hhead

theorem send_eq (message : Bytes) : send message = some (be32 (wrap32 message.length) ++ message) := by
  have hroom : (be32 (wrap32 message.length)).length ≤ (Buffer.empty.append message).prependableBytes :=
    le_trans (Nat.le_add_left 4 4) (Buffer.prependableBytes_append _ _ (Nat.le_refl _))
  obtain ⟨buf, hbuf, hpeek⟩ := Buffer.peek_prepend hroom
  rw [send, hbuf]
  simp [hpeek, Buffer.peek_append]

theorem frames_encode {messages frames : List Bytes} (h : ∀ m ∈ messages, m.length ≤ 65536)
    (hframes : List.Forall₂ (fun m frame => send m = some frame) messages frames) :
    List.Forall₂ (Decoder.Encodes decoder) frames messages := by
  induction hframes with
  | nil => exact .nil
  | @cons m frame messages frames hsend _ ih =>
    obtain rfl := Option.some.inj ((send_eq m).symm.trans hsend)
    exact .cons (encodes (h m List.mem_cons_self)) (ih fun m' hm' => h m' (List.mem_cons_of_mem _ hm'))

/-- However the stream is cut, the codec delivers the messages and finds no
length invalid. -/
def Reads (messages : List Bytes) (stream : Bytes) : Prop :=
  ∀ chunks : List Bytes, chunks.flatten = stream →
    (onChunks .empty chunks).flatMap Call.delivered = messages ∧
      ∀ call ∈ onChunks .empty chunks, call.invalidLength = none

theorem Reads.length_le {messages : List Bytes} {stream : Bytes} (h : Reads messages stream) :
    (messages.map fun m => kHeaderLen + m.length).sum ≤ stream.length := by
  have hread := (h [stream] (by simp)).1
  have hcalls := onChunks_outcomes .empty [stream]
  have hweight := Decoder.drain_weight (D := decoder) (w := fun m => kHeaderLen + m.length)
    (fun hframe => (front_frame hframe).1.ge) stream
  simp only [Buffer.peek_empty, Decoder.calls, List.nil_append] at hcalls
  simp only [onChunks, List.map_cons, List.map_nil, List.cons.injEq, and_true] at hcalls hread
  simp only [List.flatMap_cons, List.flatMap_nil, List.append_nil] at hread
  rw [← hcalls] at hweight
  have hdelivered : (onMessage (Buffer.empty.append stream)).outcome.delivered = messages := hread
  rw [hdelivered] at hweight
  omega

/-- **What `send` writes, the codec reads.** -/
theorem send_onChunks {messages : List Bytes} (h : ∀ m ∈ messages, m.length ≤ 65536) :
    ∃ frames, List.Forall₂ (fun m frame => send m = some frame) messages frames ∧ Reads messages frames.flatten := by
  have hframes : List.Forall₂ (fun m frame => send m = some frame) messages
      (messages.map fun m => be32 (wrap32 m.length) ++ m) := by
    rw [List.forall₂_map_right_iff, List.forall₂_same]
    exact fun m _ => send_eq m
  refine ⟨_, hframes, fun chunks hchunks => ?_⟩
  obtain ⟨hdelivered, herror⟩ := Decoder.calls_encoded (frames_encode h hframes) front_nil hchunks
  have hcalls := onChunks_outcomes .empty chunks
  rw [Buffer.peek_empty] at hcalls
  rw [← hcalls] at hdelivered herror
  rw [List.flatMap_map] at hdelivered
  exact ⟨hdelivered, fun call hcall => herror _ (List.mem_map_of_mem hcall)⟩

/-! ## Streams that break off -/

theorem onChunks_take (buf : Buffer) (chunks : List Bytes) (k : Nat) :
    (onChunks buf chunks).take k = onChunks buf (chunks.take k) := by
  induction chunks generalizing buf k with
  | nil => simp [onChunks]
  | cons chunk chunks ih => cases k <;> simp [onChunks, ih]

/-- The bytes a list of calls leaves in the buffer. -/
def leftover (buf : Buffer) (calls : List Call) : Bytes :=
  (calls.getLast?.map fun call => call.buf.peek).getD buf.peek

theorem leftover_outcomes (buf : Buffer) (calls : List Call) :
    Decoder.leftover buf.peek (calls.map Call.outcome) = leftover buf calls := by
  rw [Decoder.leftover, leftover, List.getLast?_map, Option.map_map]
  rfl

/-- What the calls did when the stream has broken off. -/
theorem onChunks_of_cut {messages frames : List Bytes} (h : List.Forall₂ (Decoder.Encodes decoder) frames messages)
    {chunks : List Bytes} {n : Nat} {rest : Bytes} (hcut : Decoder.Cut frames chunks.flatten n rest) :
    (onChunks .empty chunks).flatMap Call.delivered = messages.take n ∧ leftover .empty (onChunks .empty chunks) = rest ∧
      ∀ call ∈ onChunks .empty chunks, call.invalidLength = none := by
  obtain ⟨hdelivered, hrest, herror⟩ := Decoder.calls_cut h front_nil hcut
  have hcalls := onChunks_outcomes .empty chunks
  rw [Buffer.peek_empty] at hcalls
  rw [← hcalls, List.flatMap_map] at hdelivered
  rw [← hcalls, ← Buffer.peek_empty, leftover_outcomes] at hrest
  refine ⟨hdelivered, hrest, fun call hcall => herror call.outcome ?_⟩
  rw [← hcalls]
  exact List.mem_map_of_mem hcall

/-- **A stream of `send` is decoded faithfully.** After any number of chunks
the messages whose frames are complete have been delivered, the buffer holds
what there is of the next frame, and no length was invalid. -/
theorem onChunks_decodes {messages : List Bytes} (h : ∀ m ∈ messages, m.length ≤ 65536) :
    ∃ frames, List.Forall₂ (fun m frame => send m = some frame) messages frames ∧
      ∀ chunks : List Bytes, chunks.flatten = frames.flatten → ∀ k, ∃ n rest,
        Decoder.Cut frames (chunks.take k).flatten n rest ∧
        ((onChunks .empty chunks).take k).flatMap Call.delivered = messages.take n ∧
        leftover .empty ((onChunks .empty chunks).take k) = rest ∧
        ∀ call ∈ (onChunks .empty chunks).take k, call.invalidLength = none := by
  obtain ⟨frames, hframes, -⟩ := send_onChunks h
  refine ⟨frames, hframes, fun chunks hchunks k => ?_⟩
  have hprefix : (chunks.take k).flatten <+: frames.flatten :=
    ⟨(chunks.drop k).flatten, by rw [← List.flatten_append, List.take_append_drop, hchunks]⟩
  obtain ⟨n, rest, hcut⟩ := Decoder.exists_cut hprefix
  rw [onChunks_take]
  exact ⟨n, rest, hcut, onChunks_of_cut (frames_encode h hframes) hcut⟩

/-- A message, an empty one and another. -/
theorem onChunks_decodes_three :
    ∃ frames, List.Forall₂ (fun m frame => send m = some frame) [ofText "a", [], ofText "dict"] frames ∧
      ∀ chunks : List Bytes, chunks.flatten = frames.flatten → ∀ k, ∃ n rest,
        Decoder.Cut frames (chunks.take k).flatten n rest ∧
        ((onChunks .empty chunks).take k).flatMap Call.delivered = [ofText "a", [], ofText "dict"].take n ∧
        leftover .empty ((onChunks .empty chunks).take k) = rest ∧
        ∀ call ∈ (onChunks .empty chunks).take k, call.invalidLength = none :=
  onChunks_decodes (by decide)

end DictionaryServer.LengthHeaderCodec
