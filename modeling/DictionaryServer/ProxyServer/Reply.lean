/-
`redisReplyToString` (ProxyServer.cc): the text a client is sent for a Redis
reply.

The text is payload and ASCII, so it is UTF-8 exactly when the payloads are
(`validUtf8_reply`), and its length is a sum over the tree (`length_reply`).
-/
import DictionaryServer.DAL.Hiredis
import DictionaryServer.Lib.Utf8

namespace DictionaryServer

open Lib

/-- `toString(long long)` -/
def decimal (value : Int) : Bytes := ofText (toString value)

namespace RedisReply

/-- `reply->type` -/
def type : RedisReply → Int
  | .string _ => 1
  | .array _ => 2
  | .integer _ => 3
  | .nil => 4
  | .status _ => 5
  | .error _ => 6

/-- `types[reply->type]` -/
def typeName : RedisReply → Bytes
  | .string _ => ofText "REDIS_REPLY_STRING"
  | .array _ => ofText "REDIS_REPLY_ARRAY"
  | .integer _ => ofText "REDIS_REPLY_INTEGER"
  | .nil => ofText "REDIS_REPLY_NIL"
  | .status _ => ofText "REDIS_REPLY_STATUS"
  | .error _ => ofText "REDIS_REPLY_ERROR"

def head (reply : RedisReply) : Bytes :=
  reply.typeName ++ ofText "(" ++ decimal reply.type ++ ofText ") " ++ ofText "\x7b "

mutual

/-- `redisReplyToString` of a reply that is not NULL. -/
def text : RedisReply → Bytes
  | .string str => head (.string str) ++ (ofText "\"" ++ str ++ ofText "\"") ++ ofText " \x7d"
  | .array element =>
    head (.array element) ++ (decimal element.length ++ ofText " " ++ elements element) ++ ofText " \x7d"
  | .integer value => head (.integer value) ++ decimal value.toInt ++ ofText " \x7d"
  | .nil => head .nil ++ [] ++ ofText " \x7d"
  | .status str => head (.status str) ++ (ofText "\"" ++ str ++ ofText "\"") ++ ofText " \x7d"
  | .error str => head (.error str) ++ (ofText "\"" ++ str ++ ofText "\"") ++ ofText " \x7d"

/-- The loop over `reply->element`. -/
def elements : List RedisReply → Bytes
  | [] => []
  | reply :: replies => ofText " " ++ text reply ++ elements replies

end

end RedisReply

def redisReplyToString : Option RedisReply → Bytes
  | none => []
  | some reply => reply.text

example : redisReplyToString (some (.array [.string (ofText "a"), .nil])) =
    ofText "REDIS_REPLY_ARRAY(2) \x7b 2  REDIS_REPLY_STRING(1) \x7b \"a\" \x7d REDIS_REPLY_NIL(4) \x7b  \x7d \x7d" := by decide

namespace RedisReply

mutual

/-- The byte strings in a reply. -/
def payloads : RedisReply → List Bytes
  | .string str => [str]
  | .array element => elementPayloads element
  | .integer _ => []
  | .nil => []
  | .status str => [str]
  | .error str => [str]

def elementPayloads : List RedisReply → List Bytes
  | [] => []
  | reply :: replies => payloads reply ++ elementPayloads replies

end

mutual

/-- The bytes a reply takes as text: its payloads, the names of the types, the
decimal digits and the punctuation. -/
def textLen : RedisReply → Nat
  | .string str => 28 + str.length
  | .array element => 26 + (decimal element.length).length + elementsLen element
  | .integer value => 27 + (decimal value.toInt).length
  | .nil => 23
  | .status str => 28 + str.length
  | .error str => 27 + str.length

def elementsLen : List RedisReply → Nat
  | [] => 0
  | reply :: replies => 1 + textLen reply + elementsLen replies

end

theorem elements_cons (reply : RedisReply) (replies : List RedisReply) :
    elements (reply :: replies) = 0x20 :: (text reply ++ elements replies) := by
  rw [elements, List.append_assoc]
  rfl

/-- A payload between quotes, in the text around it. -/
theorem length_quoted (before str : Bytes) :
    (before ++ (ofText "\"" ++ str ++ ofText "\"") ++ ofText " \x7d").length = before.length + str.length + 4 := by
  have hquote : (ofText "\"").length = 1 := rfl
  have hend : (ofText " \x7d").length = 2 := rfl
  simp only [List.length_append, hquote, hend]
  omega

mutual

theorem length_text : ∀ reply, (text reply).length = textLen reply
  | .string str => by
    have hhead : (head (.string str)).length = 24 := rfl
    rw [text, textLen, length_quoted, hhead]
    omega
  | .array element => by
    have hhead : (head (.array element)).length = 23 := rfl
    simp only [text, textLen, List.length_append, hhead, length_elements element]
    show 23 + (_ + 1 + _) + 2 = _
    omega
  | .integer value => by
    have hhead : (head (.integer value)).length = 25 := rfl
    simp only [text, textLen, List.length_append, hhead]
    show 25 + _ + 2 = _
    omega
  | .nil => rfl
  | .status str => by
    have hhead : (head (.status str)).length = 24 := rfl
    rw [text, textLen, length_quoted, hhead]
    omega
  | .error str => by
    have hhead : (head (.error str)).length = 23 := rfl
    rw [text, textLen, length_quoted, hhead]
    omega

theorem length_elements : ∀ replies, (elements replies).length = elementsLen replies
  | [] => rfl
  | reply :: replies => by
    rw [elements_cons, elementsLen, List.length_cons, List.length_append, length_text reply, length_elements replies]
    omega

end

theorem validUtf8_head (reply : RedisReply) : ValidUtf8 reply.head := by
  unfold head
  refine ((((?_ : ValidUtf8 reply.typeName).append ?_).append ?_).append ?_).append ?_
  · cases reply <;> exact validUtf8_ofText _
  all_goals exact validUtf8_ofText _

theorem validUtf8_blank (a b : Bytes) : ValidUtf8 (a ++ 0x20 :: b) ↔ ValidUtf8 a ∧ ValidUtf8 b :=
  validUtf8_split (by decide) a b

theorem validUtf8_quoted {before : Bytes} (hbefore : ValidUtf8 before) (str : Bytes) :
    ValidUtf8 (before ++ (ofText "\"" ++ str ++ ofText "\"") ++ ofText " \x7d") ↔ ValidUtf8 str := by
  have hquote : ofText "\"" = [0x22] := rfl
  rw [List.append_assoc, hbefore.append_iff, List.append_assoc, List.append_assoc,
    (validUtf8_ofText "\"").append_iff, hquote, List.singleton_append, validUtf8_split (by decide)]
  exact and_iff_left (validUtf8_ofText " \x7d")

mutual

/-- **The text of a reply is UTF-8 exactly when its payloads are.** -/
theorem validUtf8_text : ∀ reply, ValidUtf8 (text reply) ↔ ∀ str ∈ payloads reply, ValidUtf8 str
  | .string str => by
    rw [text, validUtf8_quoted (validUtf8_head _), payloads, List.forall_mem_singleton]
  | .array element => by
    have hafter : ofText " \x7d" = 0x20 :: ofText "\x7d" := rfl
    rw [text, List.append_assoc, (validUtf8_head _).append_iff, List.append_assoc, List.append_assoc,
      (show ValidUtf8 (decimal element.length) from validUtf8_ofText _).append_iff, (validUtf8_ofText " ").append_iff,
      hafter, validUtf8_elements element, payloads]
    exact and_iff_left (validUtf8_ofText "\x7d")
  | .integer value => by
    rw [text, payloads]
    exact iff_of_true (((validUtf8_head _).append (validUtf8_ofText _)).append (validUtf8_ofText _)) nofun
  | .nil => by
    rw [text, payloads, List.append_nil]
    exact iff_of_true ((validUtf8_head _).append (validUtf8_ofText _)) nofun
  | .status str => by
    rw [text, validUtf8_quoted (validUtf8_head _), payloads, List.forall_mem_singleton]
  | .error str => by
    rw [text, validUtf8_quoted (validUtf8_head _), payloads, List.forall_mem_singleton]

theorem validUtf8_elements : ∀ (replies : List RedisReply) (b : Bytes), ValidUtf8 (elements replies ++ 0x20 :: b) ↔
    (∀ str ∈ elementPayloads replies, ValidUtf8 str) ∧ ValidUtf8 b
  | [], b => by
    rw [elements, elementPayloads, List.nil_append]
    exact (validUtf8_blank [] b).trans (and_congr_left' (iff_of_true validUtf8_nil (by simp)))
  | reply :: replies, b => by
    -- What follows the first element starts with a blank again.
    obtain ⟨rest, hrest⟩ : ∃ rest, elements replies ++ 0x20 :: b = 0x20 :: rest := by
      cases replies with
      | nil => exact ⟨b, rfl⟩
      | cons reply replies => exact ⟨_, by rw [elements_cons, List.cons_append]⟩
    have hskip : ∀ a, ValidUtf8 (0x20 :: a) ↔ ValidUtf8 a := fun a =>
      (validUtf8_blank [] a).trans (and_iff_right validUtf8_nil)
    have ih := validUtf8_elements replies b
    rw [hrest, hskip] at ih
    rw [elements_cons, elementPayloads, List.cons_append, List.append_assoc, hrest, hskip, validUtf8_blank,
      validUtf8_text reply, List.forall_mem_append, and_assoc, ih]

end

end RedisReply
end DictionaryServer
