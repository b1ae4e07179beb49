/-
Whether the client can receive what it is sent.

`commandCallback` sends the text of any reply. The client's codec delivers
only strings that are UTF-8, in frames of at most `kMaxMessageLen` bytes, and
the sender looks at neither (`reply_received_iff`).
-/
import DictionaryServer.Message.WireFormat
import DictionaryServer.ProxyServer.Routing

namespace DictionaryServer

open Lib ProtobufCodec

variable {W : WireFormatLite} {text : Bytes}

/-- A client that is sent the answer delivers a `Reply` of the text. -/
def Received (W : WireFormatLite) (answer : Message.Reply) (text : Bytes) : Prop :=
  ∃ bytes, send (queryProto W) (Message.reply answer) = some bytes ∧
    ∃ m : Message.Reply,
      (onMessage (queryProto W) (Buffer.empty.append bytes)).delivered = [Message.reply m] ∧ m.reply = text

/-- The data of an answer: the one field it sets. -/
theorem serialize_answer (W : WireFormatLite) (text : Bytes) :
    Message.Reply.serializeWithCachedSizesToArray W { reply := text } = Message.stringToArray W 1 text := by
  simp [Message.Reply.serializeWithCachedSizesToArray, Message.stringsToArray]

theorem length_serialize_answer (h : W.Lawful) (hne : text ≠ []) :
    (Message.Reply.serializeWithCachedSizesToArray W { reply := text }).length =
      1 + varintSize (text.length % 2 ^ 32) + text.length := by
  rw [serialize_answer, Message.length_stringToArray h (by decide) (by decide), Message.stringByteSize,
    if_pos (List.length_pos_of_ne_nil hne), h.stringSize]
  omega

theorem fits_iff (h : W.Lawful) (hne : text ≠ []) :
    (body (queryProto W) (Message.reply { reply := text })).length + 4 ≤ 67108864 ↔ text.length ≤ 67108839 := by
  have hbody : (body (queryProto W) (Message.reply { reply := text })).length =
      4 + 11 + 1 + (Message.Reply.serializeWithCachedSizesToArray W { reply := text }).length :=
    length_body (P := queryProto W) (Message.reply { reply := text })
  rw [length_serialize_answer h hne] at hbody
  constructor
  · intro hfits
    by_contra hlong
    have hsmall : text.length % 2 ^ 32 = text.length := Nat.mod_eq_of_lt (by omega)
    have hsize : 4 ≤ varintSize text.length := by
      simp only [varintSize]
      split_ifs <;> omega
    rw [hsmall] at hbody
    omega
  · intro hle
    have hsmall : text.length % 2 ^ 32 = text.length := Nat.mod_eq_of_lt (by omega)
    have hsize : varintSize text.length ≤ 4 := by
      simp only [varintSize]
      split_ifs <;> omega
    rw [hsmall] at hbody
    omega

theorem parse_answer (h : W.Lawful) (hlen : text.length < 2 ^ 31) (m : Message.Reply) :
    Message.Reply.parseFromArray W (Message.Reply.serializeWithCachedSizesToArray W { reply := text }) = some m ↔
      ValidUtf8 text ∧ m = { reply := text } := by
  by_cases hutf8 : ValidUtf8 text
  · have hm : Message.WellFormed (.reply { reply := text }) := ⟨by simpa [Message.strings] using hutf8, rfl, trivial⟩
    rw [Message.Reply.parseFromArray_serialize h hm (by simpa using hlen), and_iff_right hutf8]
    exact Option.some_inj.trans eq_comm
  · rw [parseFromArray_reply_invalid h hutf8 hlen]
    exact iff_of_false (Option.some_ne_none m).symm fun hboth => hutf8 hboth.1

/-- **A text is received** exactly when it is UTF-8 and fits a frame. -/
theorem received_iff (h : W.Lawful) (hne : text ≠ []) :
    Received W { reply := text } text ↔ ValidUtf8 text ∧ text.length ≤ 67108839 := by
  obtain ⟨message, hcreate, hparse⟩ := createMessage_getTypeName W (.reply { reply := text })
  have hdelivered (m : Message.Reply) := delivered_iff (P := queryProto W) (x := Message.reply { reply := text }) rfl
    (List.cons_ne_nil _ _) (show 11 + 1 < 2 ^ 30 by decide) (byteSize_eq h (m := .reply { reply := text }) trivial)
    hcreate (Message.reply m)
  have hread (m : Message.Reply) : (queryProto W).parseFromArray message
      ((queryProto W).serializeWithCachedSizesToArray (Message.reply { reply := text })) = some (Message.reply m) ↔
      Message.Reply.parseFromArray W (Message.Reply.serializeWithCachedSizesToArray W { reply := text }) = some m := by
    rw [hparse]
    exact Option.map_eq_some_iff.trans ⟨fun ⟨m', hm, heq⟩ => by cases heq; exact hm, fun hm => ⟨m, hm, rfl⟩⟩
  constructor
  · intro hreceived
    obtain ⟨bytes, hsend, m, hmem, -⟩ := hreceived
    obtain ⟨hfits, hm⟩ := (hdelivered m).mp ⟨bytes, hsend, hmem⟩
    have hlen := (fits_iff h hne).mp hfits
    exact ⟨((parse_answer h (by omega) m).mp ((hread m).mp hm)).1, hlen⟩
  · intro hok
    obtain ⟨hutf8, hlen⟩ := hok
    have hm := (parse_answer h (by omega) { reply := text }).mpr ⟨hutf8, rfl⟩
    obtain ⟨bytes, hsend, hmem⟩ := (hdelivered _).mpr ⟨(fits_iff h hne).mpr hlen, (hread _).mpr hm⟩
    exact ⟨bytes, hsend, _, hmem, rfl⟩

namespace ProxyServer

variable {conf : Configure} {s : ProxyServer conf}

/-- What `commandCallback` sends is the text of the reply. -/
theorem commandCallback_send {upcall : Upcall Request} {conn : TcpConnectionPtr} {answer : Message.Reply}
    (h : Output.send conn answer ∈ s.commandCallback upcall) : answer = { reply := redisReplyToString upcall.reply } := by
  unfold commandCallback at h
  split at h
  · rcases List.mem_pair.mp h with heq | heq
    · cases heq; rfl
    · cases heq
  · cases h

theorem text_ne (r : RedisReply) : r.text ≠ [] := by
  refine List.ne_nil_of_length_pos ?_
  rw [RedisReply.length_text]
  cases r <;> simp only [RedisReply.textLen] <;> omega

theorem received_text_iff (h : W.Lawful) (r : RedisReply) :
    Received W { reply := r.text } r.text ↔ (∀ str ∈ r.payloads, ValidUtf8 str) ∧ r.textLen ≤ 67108839 := by
  rw [← RedisReply.validUtf8_text, ← RedisReply.length_text]
  exact received_iff h (text_ne r)

/-- **The client receives a reply** exactly when the payloads are UTF-8 and the
text of the reply, with what goes around it, fits a frame. -/
theorem reply_received_iff (h : W.Lawful) {upcall : Upcall Request} {r : RedisReply} (hr : upcall.reply = some r)
    {conn : TcpConnectionPtr} {answer : Message.Reply} (hsend : Output.send conn answer ∈ s.commandCallback upcall) :
    Received W answer (redisReplyToString (some r)) ↔
      (∀ str ∈ r.payloads, ValidUtf8 str) ∧ r.textLen ≤ 67108839 := by
  have hanswer := commandCallback_send hsend
  rw [hr] at hanswer
  subst hanswer
  exact received_text_iff h r

/-- A client waits on the only connection. -/
def waiting : ProxyServer oneServer := { opened with clientConns := (∅ : Std.ExtTreeMap Int64 TcpConnectionPtr).insert 0 7 }

/-- The value of its key is one byte, which is not UTF-8. -/
theorem reply_not_received : ∃ answer,
    Output.send 7 answer ∈ waiting.commandCallback ⟨⟨ofText "get k", ⟨0, 7⟩⟩, some (.string [0xFF]), 0⟩ ∧
      ¬Received wireFormat answer (redisReplyToString (some (.string [0xFF]))) := by
  refine ⟨_, List.mem_cons_self, ?_⟩
  intro hreceived
  have hpayload := ((received_text_iff wireFormat_lawful _).mp hreceived).1 [0xFF] List.mem_cons_self
  exact absurd hpayload (by decide)

/-- The value of its key is text. -/
theorem reply_received_one : ∃ answer,
    Output.send 7 answer ∈ waiting.commandCallback ⟨⟨ofText "get k", ⟨0, 7⟩⟩, some (.string (ofText "v")), 0⟩ ∧
      Received wireFormat answer (redisReplyToString (some (.string (ofText "v")))) := by
  have hsend : Output.send 7 { reply := redisReplyToString (some (.string (ofText "v"))) } ∈
      waiting.commandCallback ⟨⟨ofText "get k", ⟨0, 7⟩⟩, some (.string (ofText "v")), 0⟩ := List.mem_cons_self
  refine ⟨_, hsend, (reply_received_iff wireFormat_lawful rfl hsend).mpr ⟨?_, by decide⟩⟩
  intro str hstr
  rw [List.mem_singleton.mp hstr]
  exact validUtf8_ofText "v"

end ProxyServer
end DictionaryServer
