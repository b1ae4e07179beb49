/-
Streams of frames, as TCP brings them.

Both properties are rules of `Lib.Framing` at the codec's decoder: the round
trip is its rule for encoded streams, and independence of the cuts its rule
for input in chunks.
-/
import DictionaryServer.Message.WireFormat
import Mathlib.Data.List.Forall2

namespace DictionaryServer.ProtobufCodec

open Lib Lib.Framing

variable {P : Protobuf}

/-! ## The round trip -/

theorem fillEmptyBuffer_all {messages : List P.Message} (h : ∀ x ∈ messages, Encodable P x) :
    ∃ frames, List.Forall₂ (fun x buf => fillEmptyBuffer P .empty x = some buf) messages frames ∧
      frames.map Buffer.peek = messages.map (frame P) := by
  induction messages with
  | nil => exact ⟨[], .nil, rfl⟩
  | cons x messages ih =>
    obtain ⟨buf, hbuf, hpeek⟩ := (h x List.mem_cons_self).fillEmptyBuffer
    obtain ⟨frames, hframes, hpeeks⟩ := ih fun y hy => h y (List.mem_cons_of_mem _ hy)
    exact ⟨buf :: frames, .cons hbuf hframes, by rw [List.map_cons, List.map_cons, hpeek, hpeeks]⟩

/-- **The wire-format round trip.** The frames of any messages, followed by a
proper prefix of one more, come out of `onMessage` as those messages, and the
prefix is what it leaves. -/
theorem onMessage_frames {messages : List P.Message} {last : P.Message} (h : ∀ x ∈ messages, Encodable P x)
    (hlast : Encodable P last) :
    ∃ frames lastFrame, List.Forall₂ (fun x buf => fillEmptyBuffer P .empty x = some buf) messages frames ∧
      fillEmptyBuffer P .empty last = some lastFrame ∧
      ∀ p q, lastFrame.peek = p ++ q → q ≠ [] →
        ∀ buf : Buffer, buf.peek = (frames.map Buffer.peek).flatten ++ p →
          (onMessage P buf).delivered = messages ∧ (onMessage P buf).error = none ∧
            (onMessage P buf).buf.peek = p := by
  obtain ⟨frames, hframes, hpeeks⟩ := fillEmptyBuffer_all h
  obtain ⟨lastFrame, hfill, hpeek⟩ := hlast.fillEmptyBuffer
  refine ⟨frames, lastFrame, hframes, hfill, ?_⟩
  intro p q hpq hq buf hbuf
  have henc : List.Forall₂ (Decoder.Encodes (decoder P)) (messages.map (frame P)) messages :=
    List.forall₂_map_left_iff.2 (List.forall₂_same.mpr fun x hx => frame_encodes (h x hx))
  have hwait : (decoder P).head p = .wait := (frame_encodes hlast).wait p q (hpeek ▸ hpq) hq
  have hcall := onMessage_outcome (P := P) buf
  rw [hbuf, hpeeks, Decoder.drain_encoded henc hwait] at hcall
  exact ⟨congrArg Outcome.delivered hcall, congrArg Outcome.error hcall, congrArg Outcome.rest hcall⟩

/-- A request and its query, as a client sends them. -/
theorem onMessage_frames_query :
    ∃ frames lastFrame,
      List.Forall₂ (fun x buf => fillEmptyBuffer (queryProto wireFormat) .empty x = some buf)
        [Message.set { key := ofText "k", value := ofText "v" }, Message.query { key := ofText "k" }] frames ∧
      fillEmptyBuffer (queryProto wireFormat) .empty (Message.query {}) = some lastFrame ∧
      ∀ p q, lastFrame.peek = p ++ q → q ≠ [] →
        ∀ buf : Buffer, buf.peek = (frames.map Buffer.peek).flatten ++ p →
          (onMessage (queryProto wireFormat) buf).delivered =
            [Message.set { key := ofText "k", value := ofText "v" }, Message.query { key := ofText "k" }] ∧
          (onMessage (queryProto wireFormat) buf).error = none ∧
            (onMessage (queryProto wireFormat) buf).buf.peek = p := by
  refine @onMessage_frames (queryProto wireFormat) _ _ ?_ ?_
  · intro x hx
    rcases List.mem_pair.mp hx with rfl | rfl
    · exact encodable wireFormat_lawful ⟨by simp [Message.strings, validUtf8_ofText], rfl, trivial⟩ (by decide)
    · exact encodable wireFormat_lawful ⟨by simp [Message.strings, validUtf8_ofText], rfl, trivial⟩ (by decide)
  · exact encodable wireFormat_lawful ⟨by simp [Message.strings, validUtf8_nil], rfl, trivial⟩ (by decide)

/-! ## Independence of the cuts -/

/-- The bytes a run of calls leaves. -/
def leftover (buf : Buffer) (calls : List (Call P)) : Bytes :=
  (calls.getLast?.map fun call => call.buf.peek).getD buf.peek

/-- The error its last call reports. -/
def lastError (calls : List (Call P)) : Option ErrorCode := calls.getLast?.bind Call.error

/-- A run over chunks does what draining all of them at once does. -/
theorem onChunks_spec {chunks : List Bytes} (h : chunks ≠ []) :
    (onChunks P .empty chunks).flatMap Call.delivered = ((decoder P).drain chunks.flatten).delivered ∧
    leftover .empty (onChunks P .empty chunks) = ((decoder P).drain chunks.flatten).rest ∧
    lastError (onChunks P .empty chunks) = ((decoder P).drain chunks.flatten).error := by
  have hnil : (decoder P).drain [] = ⟨[], none, []⟩ :=
    Decoder.drain_wait (turn_short (by rw [peek_ofBytes]; exact Nat.zero_lt_succ _))
  obtain ⟨os, o, hcalls, hdelivered, hrest, herror⟩ :=
    Decoder.calls_spec (D := decoder P) (b := []) (by simp [hnil]) chunks h
  have hmap := onChunks_outcomes (P := P) .empty chunks
  rw [Buffer.peek_empty] at hmap
  have hlast : (onChunks P .empty chunks).getLast?.map Call.outcome = some o := by
    rw [← List.getLast?_map, hmap, hcalls, List.getLast?_concat]
  obtain ⟨call, hcall, rfl⟩ := Option.map_eq_some_iff.mp hlast
  refine ⟨?_, ?_, ?_⟩
  · rw [← hmap, List.flatMap_map] at hdelivered
    exact hdelivered
  · rw [leftover, hcall]
    exact hrest
  · rw [lastError, hcall]
    exact herror

theorem onChunks_after_error {buf : Buffer} {chunks : List Bytes} {calls calls' : List (Call P)} {call : Call P} {e}
    (h : onChunks P buf chunks = calls ++ call :: calls') (he : call.error = some e) :
    ∀ call' ∈ calls', call'.delivered = [] := by
  have hmap := onChunks_outcomes (P := P) buf chunks
  rw [h, List.map_append, List.map_cons] at hmap
  intro call' hmem
  exact (Decoder.calls_error_split hmap.symm (e := e) he _ (List.mem_map_of_mem hmem)).1

theorem chunks_eq_nil {chunks : List Bytes} (hne : [] ∉ chunks) (h : chunks.flatten = []) : chunks = [] := by
  cases chunks with
  | nil => rfl
  | cons chunk chunks =>
    have hc : chunk = [] := List.flatten_eq_nil_iff.mp h chunk List.mem_cons_self
    exact absurd (hc ▸ List.mem_cons_self) hne

/-- **Decoding does not depend on how the stream is cut**, malformed or not. -/
theorem onChunks_cut {s : Bytes} {chunks chunks' : List Bytes} (h : chunks.flatten = s) (h' : chunks'.flatten = s)
    (hne : [] ∉ chunks) (hne' : [] ∉ chunks') :
    ((onChunks P .empty chunks).flatMap Call.delivered = (onChunks P .empty chunks').flatMap Call.delivered ∧
      leftover .empty (onChunks P .empty chunks) = leftover .empty (onChunks P .empty chunks') ∧
      lastError (onChunks P .empty chunks) = lastError (onChunks P .empty chunks')) ∧
    ∀ calls call calls', onChunks P .empty chunks = calls ++ call :: calls' → call.error ≠ none →
      ∀ call' ∈ calls', call'.delivered = [] := by
  refine ⟨?_, fun calls call calls' hsplit herr => ?_⟩
  · by_cases hs : s = []
    · subst hs
      rw [chunks_eq_nil hne h, chunks_eq_nil hne' h']
      exact ⟨rfl, rfl, rfl⟩
    · have hc : chunks ≠ [] := by rintro rfl; exact hs h.symm
      have hc' : chunks' ≠ [] := by rintro rfl; exact hs h'.symm
      obtain ⟨hd, hl, he⟩ := onChunks_spec (P := P) hc
      obtain ⟨hd', hl', he'⟩ := onChunks_spec (P := P) hc'
      rw [hd, hl, he, hd', hl', he', h, h']
      exact ⟨rfl, rfl, rfl⟩
  · obtain ⟨e, he⟩ := Option.ne_none_iff_exists'.mp herr
    exact onChunks_after_error hsplit he

/-- A length word of zero, in two pieces and in one. -/
theorem onChunks_cut_zeros :
    ((onChunks (queryProto wireFormat) .empty [List.replicate 3 0, List.replicate 11 0]).flatMap Call.delivered =
        (onChunks (queryProto wireFormat) .empty [List.replicate 14 0]).flatMap Call.delivered ∧
      leftover .empty (onChunks (queryProto wireFormat) .empty [List.replicate 3 0, List.replicate 11 0]) =
        leftover .empty (onChunks (queryProto wireFormat) .empty [List.replicate 14 0]) ∧
      lastError (onChunks (queryProto wireFormat) .empty [List.replicate 3 0, List.replicate 11 0]) =
        lastError (onChunks (queryProto wireFormat) .empty [List.replicate 14 0])) ∧
    ∀ calls call calls',
      onChunks (queryProto wireFormat) .empty [List.replicate 3 0, List.replicate 11 0] = calls ++ call :: calls' →
      call.error ≠ none → ∀ call' ∈ calls', call'.delivered = [] :=
  @onChunks_cut (queryProto wireFormat) (List.replicate 14 0) _ _ rfl rfl (by decide) (by decide)

end DictionaryServer.ProtobufCodec
