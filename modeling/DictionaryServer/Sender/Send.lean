/-
`Send` (sender/src/frame/DispatchServer.cc), which gives a message to a peer.

It builds a frame as `LengthHeaderCodec::send` does, and then sends the message
and not the frame. A peer that reads the stream with `LengthHeaderCodec` gets
no list of messages but the empty one (`Send_delivers_iff`).
-/
import DictionaryServer.Sender.LengthHeaderCodec

namespace DictionaryServer.Sender

open Lib Lib.Framing LengthHeaderCodec

/-- `Send`: the bytes it gives to `peer->Send`. -/
def Send (message : Bytes) : Option Bytes := do
  let buf := Buffer.empty.append message
  let len := wrap32 message.length
  -- The buffer with the length in front is dropped.
  let _ ← buf.prepend (be32 len)
  return message

theorem Send_eq (message : Bytes) : Send message = some message := by
  have hroom : (be32 (wrap32 message.length)).length ≤ (Buffer.empty.append message).prependableBytes :=
    le_trans (Nat.le_add_left 4 4) (Buffer.prependableBytes_append _ _ (Nat.le_refl _))
  obtain ⟨buf, hbuf, -⟩ := Buffer.peek_prepend hroom
  rw [Send, hbuf]
  rfl

theorem Send_all (messages : List Bytes) : messages.mapM Send = some messages := by
  induction messages with
  | nil => rfl
  | cons message messages ih => simp [List.mapM_cons, Send_eq, ih]

/-- **What a peer reads of messages sent to it** is these messages only if
there are none. -/
theorem Send_delivers_iff (messages : List Bytes) :
    ∃ sent, messages.mapM Send = some sent ∧ (Reads messages sent.flatten ↔ messages = []) := by
  refine ⟨messages, Send_all messages, ?_, ?_⟩
  · intro hreads
    have hle := hreads.length_le
    rcases messages with _ | ⟨message, messages⟩
    · rfl
    · -- Every header is missing from the stream.
      have hsum : ∀ ms : List Bytes, ms.flatten.length ≤ (ms.map fun m => kHeaderLen + m.length).sum := by
        intro ms
        induction ms with
        | nil => rfl
        | cons m ms ih =>
          simp only [List.flatten_cons, List.length_append, List.map_cons, List.sum_cons]
          omega
      have hrest := hsum messages
      have hpos : 0 < kHeaderLen := Nat.succ_pos 3
      simp only [List.flatten_cons, List.length_append, List.map_cons, List.sum_cons] at hle
      omega
  · intro hnil
    subst hnil
    have hnone : ∀ m ∈ ([] : List Bytes), m.length ≤ 65536 := by simp
    obtain ⟨frames, hframes, hreads⟩ := send_onChunks hnone
    cases hframes
    exact hreads

theorem readBe32_dict : readBe32 (ofText "dict") = 1684628340 := by decide +kernel

/-- A message of four bytes is read as a length. -/
theorem Send_dict : ∃ sent, [ofText "dict"].mapM Send = some sent ∧ ¬Reads [ofText "dict"] sent.flatten ∧
    ∃ call, onChunks .empty [sent.flatten] = [call] ∧ call.delivered = [] ∧ call.invalidLength = some 1684628340 := by
  have hpeek : (Buffer.empty.append (ofText "dict")).peek = ofText "dict" := by simp [Buffer.peek_append]
  have hturn : turn (Buffer.empty.append (ofText "dict")) = .bad 1684628340 := by
    rw [turn_eq, hpeek, front, readBe32_dict]
    rfl
  have hcalls : onChunks .empty [ofText "dict"] = [⟨[], some 1684628340, Buffer.empty.append (ofText "dict")⟩] := by
    rw [onChunks, onMessage_bad hturn]
    rfl
  refine ⟨[ofText "dict"], Send_all _, ?_, _, hcalls, rfl, rfl⟩
  intro hreads
  have hdelivered := (hreads [ofText "dict"] rfl).1
  rw [hcalls] at hdelivered
  cases hdelivered

end DictionaryServer.Sender
