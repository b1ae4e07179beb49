/-
What a client can read back from the text of a reply.

A payload is printed as it is, between quotes. If something stands after it,
the text cannot tell where it ends when the payload holds the end of a payload
itself (`text_shift`). Payloads at the very end of the text are free: their
end is the end of the text. With this condition on the others the text
determines the reply (`text_inj`).
-/
import DictionaryServer.Lib.Delimiter
import DictionaryServer.ProxyServer.Reply
import Std.Data.String.ToInt

namespace DictionaryServer

open Lib

/-! ## Numbers -/

theorem decimal_inj {m n : Int} (h : decimal m = decimal n) : m = n := by
  rw [decimal, decimal, Int.toString_eq_repr, Int.toString_eq_repr] at h
  exact Int.repr_injective (ofText_inj h)

theorem isDigit_or_minus {n : Int} {ch : Char} (h : ch ∈ (toString n).toList) : ch.isDigit ∨ ch = '-' := by
  have hdigit {m : Nat} (h : ch ∈ m.repr.toList) : ch.isDigit := by
    rw [Nat.toList_repr] at h
    exact Nat.isDigit_of_mem_toDigits (by decide) (by decide) h
  rw [Int.toString_eq_repr, Int.repr_eq_if] at h
  split at h
  · exact .inl (hdigit h)
  · rw [String.toList_append, List.mem_append] at h
    rcases h with h | h
    · exact .inr (by simpa using h)
    · exact .inl (hdigit h)

theorem blank_notMem_decimal (n : Int) : (0x20 : UInt8) ∉ decimal n := by
  intro h
  rcases isDigit_or_minus (mem_ofText_ascii (c := ' ') (by decide) h) with h | h
  · exact absurd h (by decide)
  · exact absurd h (by decide)

theorem decimal_blank_inj {m n : Int} {x y : Bytes} (h : decimal m ++ 0x20 :: x = decimal n ++ 0x20 :: y) :
    m = n ∧ x = y := by
  obtain ⟨hdecimal, hrest⟩ := symbol_inj (blank_notMem_decimal m) (blank_notMem_decimal n) h
  exact ⟨decimal_inj hdecimal, hrest⟩

namespace RedisReply

/-! ## Payloads -/

/-- The closing braces of `k` replies. -/
def braces (k : Nat) : Bytes := (List.replicate k (ofText " \x7d")).flatten

theorem braces_succ (k : Nat) : braces (k + 1) = 0x20 :: 0x7d :: braces k := by
  rw [braces, List.replicate_succ, List.flatten_cons]
  rfl

/-- What stands after a payload that another element follows: the end of its
reply and of `k` arrays around it, and the start of the next. -/
def closing (k : Nat) : Bytes := ofText "\"" ++ (braces (k + 1) ++ ofText " REDIS_REPLY_")

/-- The payload holds what ends a payload itself. -/
def Closes (str : Bytes) : Prop := ∃ k, closing k <:+: str

theorem length_closing (k : Nat) : k < (closing k).length := by
  have hbraces : ∀ n, n ≤ (braces n).length := by
    intro n
    induction n with
    | zero => exact Nat.zero_le _
    | succ n ih =>
      rw [braces_succ, List.length_cons, List.length_cons]
      omega
  have := hbraces (k + 1)
  simp only [closing, List.length_append]
  omega

instance (str : Bytes) : Decidable (Closes str) :=
  decidable_of_iff (∃ k < str.length, closing k <:+: str)
    ⟨fun ⟨k, _, h⟩ => ⟨k, h⟩, fun ⟨k, h⟩ => ⟨k, lt_of_lt_of_le (length_closing k) h.length_le, h⟩⟩

mutual

/-- The payloads that something follows: an element, in this array or in an
outer one. -/
def followed : RedisReply → List Bytes
  | .array element => elementFollowed element
  | _ => []

def elementFollowed : List RedisReply → List Bytes
  | [] => []
  | [reply] => followed reply
  | reply :: next :: replies => payloads reply ++ elementFollowed (next :: replies)

end

/-! ## The type -/

/-- Two replies of one type. -/
inductive SameType : RedisReply → RedisReply → Prop
  | string (s t : Bytes) : SameType (.string s) (.string t)
  | array (es fs : List RedisReply) : SameType (.array es) (.array fs)
  | integer (m n : Int64) : SameType (.integer m) (.integer n)
  | nil : SameType .nil .nil
  | status (s t : Bytes) : SameType (.status s) (.status t)
  | error (s t : Bytes) : SameType (.error s) (.error t)

theorem text_eq_typeName (reply : RedisReply) : ∃ rest, text reply = typeName reply ++ rest := by
  cases reply <;> simp only [text, head, List.append_assoc] <;> exact ⟨_, rfl⟩

/-- As much of the name as tells the types apart. -/
theorem length_typeName (reply : RedisReply) : 15 ≤ (typeName reply).length := by
  cases reply <;> simp only [typeName] <;> decide

theorem sameType {a b : RedisReply} {x y : Bytes} (h : text a ++ x = text b ++ y) : SameType a b := by
  have htake : (typeName a).take 15 = (typeName b).take 15 := by
    obtain ⟨ra, hra⟩ := text_eq_typeName a
    obtain ⟨rb, hrb⟩ := text_eq_typeName b
    rw [hra, hrb, List.append_assoc, List.append_assoc] at h
    have ha : (typeName a ++ (ra ++ x)).take 15 = (typeName a).take 15 :=
      List.take_append_of_le_length (length_typeName a)
    rw [← ha, h, List.take_append_of_le_length (length_typeName b)]
  cases a <;> cases b <;> simp only [typeName] at htake <;> first | constructor | exact absurd htake (by decide)

/-! ## Replies that something follows -/

/-- The text goes on with another reply, after the braces of those that end here. -/
def Continues (x : Bytes) : Prop := ∃ k rest, x = braces k ++ ofText " REDIS_REPLY_" ++ rest

theorem Continues.brace {x : Bytes} (h : Continues x) : Continues (0x20 :: 0x7d :: x) := by
  obtain ⟨k, rest, rfl⟩ := h
  exact ⟨k + 1, rest, by rw [braces_succ]; rfl⟩

theorem continues_cons (reply : RedisReply) (replies : List RedisReply) (x : Bytes) :
    Continues (elements (reply :: replies) ++ x) := by
  obtain ⟨rest, hrest⟩ : ∃ rest, typeName reply = ofText "REDIS_REPLY_" ++ rest := by
    cases reply <;> exact ⟨_, rfl⟩
  obtain ⟨rest', htext⟩ := text_eq_typeName reply
  refine ⟨0, rest ++ (rest' ++ (elements replies ++ x)), ?_⟩
  rw [elements_cons, htext, hrest]
  simp only [List.cons_append, List.append_assoc]
  rfl

theorem Continues.elements {x : Bytes} (h : Continues x) (replies : List RedisReply) :
    Continues (elements replies ++ x) := by
  cases replies with
  | nil => exact h
  | cons reply replies => exact continues_cons reply replies x

theorem quote_notMem_braces (k : Nat) : (0x22 : UInt8) ∉ braces k ++ ofText " REDIS_REPLY_" := by
  intro h
  rw [List.mem_append, braces, List.mem_flatten] at h
  rcases h with ⟨brace, hbrace, h⟩ | h
  · rw [(List.mem_replicate.mp hbrace).2] at h
    exact absurd h (by decide)
  · exact absurd h (by decide)

/-- A payload that does not close itself can be read. -/
theorem quoted_inj {head s t x y : Bytes} {a b : RedisReply}
    (ha : text a = head ++ (ofText "\"" ++ s ++ ofText "\"") ++ ofText " \x7d")
    (hb : text b = head ++ (ofText "\"" ++ t ++ ofText "\"") ++ ofText " \x7d") (hs : ¬Closes s) (ht : ¬Closes t)
    (hx : Continues x) (hy : Continues y) (h : text a ++ x = text b ++ y) : s = t ∧ x = y := by
  obtain ⟨j, x, rfl⟩ := hx
  obtain ⟨k, y, rfl⟩ := hy
  have hsplit (u : Bytes) (k : Nat) (z : Bytes) :
      head ++ (ofText "\"" ++ u ++ ofText "\"") ++ ofText " \x7d" ++ (braces k ++ ofText " REDIS_REPLY_" ++ z) =
        head ++ ofText "\"" ++ (u ++ (0x22 :: (braces (k + 1) ++ ofText " REDIS_REPLY_") ++ z)) := by
    simp only [List.append_assoc, List.cons_append, braces_succ]
    rfl
  rw [ha, hb, hsplit, hsplit] at h
  obtain ⟨hst, hrest⟩ := delimiter_inj (quote_notMem_braces _) (quote_notMem_braces _) (fun hin => hs ⟨k, hin⟩)
    (fun hin => ht ⟨j, hin⟩) (List.append_cancel_left h)
  rw [braces_succ, braces_succ] at hrest
  exact ⟨hst, (List.cons.inj (List.cons.inj hrest).2).2⟩

/-- The text of an array goes on with its elements once its length is read. -/
theorem array_inj {es fs : List RedisReply} {x y : Bytes} (h : text (.array es) ++ x = text (.array fs) ++ y) :
    es.length = fs.length ∧ elements es ++ (0x20 :: 0x7d :: x) = elements fs ++ (0x20 :: 0x7d :: y) := by
  have hsplit (rs : List RedisReply) (z : Bytes) : text (.array rs) ++ z =
      head (.array []) ++ (decimal rs.length ++ 0x20 :: (elements rs ++ (0x20 :: 0x7d :: z))) := by
    rw [text]
    simp only [List.append_assoc]
    rfl
  rw [hsplit, hsplit] at h
  obtain ⟨hlen, hrest⟩ := decimal_blank_inj (List.append_cancel_left h)
  exact ⟨Int.ofNat_inj.mp hlen, hrest⟩

theorem integer_inj {m n : Int64} {x y : Bytes} (h : text (.integer m) ++ x = text (.integer n) ++ y) :
    m = n ∧ x = y := by
  have hsplit (i : Int64) (z : Bytes) : text (.integer i) ++ z =
      head (.integer 0) ++ (decimal i.toInt ++ 0x20 :: (0x7d :: z)) := by
    rw [text]
    simp only [List.append_assoc]
    rfl
  rw [hsplit, hsplit] at h
  obtain ⟨hvalue, hrest⟩ := decimal_blank_inj (List.append_cancel_left h)
  exact ⟨Int64.toInt_inj.mp hvalue, (List.cons.inj hrest).2⟩

mutual

/-- **A reply that something follows** can be read back, if none of its payloads closes itself. -/
theorem text_follow_inj : ∀ (a b : RedisReply) (x y : Bytes), (∀ str ∈ payloads a, ¬Closes str) →
    (∀ str ∈ payloads b, ¬Closes str) → Continues x → Continues y → text a ++ x = text b ++ y → a = b ∧ x = y
  | .string s, b, x, y, ha, hb, hx, hy, h => by
    cases sameType h with
    | string _ t =>
      simp only [payloads, List.forall_mem_singleton] at ha hb
      obtain ⟨rfl, hrest⟩ := quoted_inj rfl rfl ha hb hx hy h
      exact ⟨rfl, hrest⟩
  | .array es, b, x, y, ha, hb, hx, hy, h => by
    cases sameType h with
    | array _ fs =>
      obtain ⟨hlen, helements⟩ := array_inj h
      obtain ⟨rfl, hrest⟩ := elements_follow_inj es fs _ _ hlen ha hb hx.brace hy.brace helements
      exact ⟨rfl, (List.cons.inj (List.cons.inj hrest).2).2⟩
  | .integer m, b, x, y, _, _, _, _, h => by
    cases sameType h with
    | integer _ n =>
      obtain ⟨hvalue, hrest⟩ := integer_inj h
      exact ⟨congrArg RedisReply.integer hvalue, hrest⟩
  | .nil, b, x, y, _, _, _, _, h => by
    cases sameType h with
    | nil => exact ⟨rfl, List.append_cancel_left h⟩
  | .status s, b, x, y, ha, hb, hx, hy, h => by
    cases sameType h with
    | status _ t =>
      simp only [payloads, List.forall_mem_singleton] at ha hb
      obtain ⟨rfl, hrest⟩ := quoted_inj rfl rfl ha hb hx hy h
      exact ⟨rfl, hrest⟩
  | .error s, b, x, y, ha, hb, hx, hy, h => by
    cases sameType h with
    | error _ t =>
      simp only [payloads, List.forall_mem_singleton] at ha hb
      obtain ⟨rfl, hrest⟩ := quoted_inj rfl rfl ha hb hx hy h
      exact ⟨rfl, hrest⟩

theorem elements_follow_inj : ∀ (es fs : List RedisReply) (x y : Bytes), es.length = fs.length →
    (∀ str ∈ elementPayloads es, ¬Closes str) → (∀ str ∈ elementPayloads fs, ¬Closes str) → Continues x →
    Continues y → elements es ++ x = elements fs ++ y → es = fs ∧ x = y
  | [], [], x, y, _, _, _, _, _, h => ⟨rfl, h⟩
  | e :: es, f :: fs, x, y, hlen, he, hf, hx, hy, h => by
    rw [elementPayloads, List.forall_mem_append] at he hf
    rw [elements_cons, elements_cons, List.cons_append, List.cons_append, List.append_assoc, List.append_assoc] at h
    obtain ⟨rfl, hrest⟩ :=
      text_follow_inj e f _ _ he.1 hf.1 (hx.elements es) (hy.elements fs) (List.cons.inj h).2
    obtain ⟨rfl, hxy⟩ := elements_follow_inj es fs x y (Nat.succ.inj hlen) he.2 hf.2 hx hy hrest
    exact ⟨rfl, hxy⟩

end

/-! ## Whole replies -/

theorem last_inj {head s t : Bytes} (h : head ++ (ofText "\"" ++ s ++ ofText "\"") ++ ofText " \x7d" =
    head ++ (ofText "\"" ++ t ++ ofText "\"") ++ ofText " \x7d") : s = t :=
  List.append_cancel_left (List.append_cancel_right (List.append_cancel_left (List.append_cancel_right h)))

mutual

/-- **The text of a whole reply** determines it, if no payload that something follows closes itself. -/
theorem text_inj : ∀ a b : RedisReply, (∀ str ∈ followed a, ¬Closes str) → (∀ str ∈ followed b, ¬Closes str) →
    text a = text b → a = b
  | .string s, b, _, _, h => by
    cases sameType (congrArg (· ++ []) h) with
    | string _ t => exact congrArg RedisReply.string (last_inj h)
  | .array es, b, ha, hb, h => by
    cases sameType (congrArg (· ++ []) h) with
    | array _ fs =>
      obtain ⟨hlen, helements⟩ := array_inj (congrArg (· ++ []) h)
      exact congrArg RedisReply.array (elements_inj es fs hlen ha hb (List.append_cancel_right helements))
  | .integer m, b, _, _, h => by
    cases sameType (congrArg (· ++ []) h) with
    | integer _ n => exact congrArg RedisReply.integer (integer_inj (congrArg (· ++ []) h)).1
  | .nil, b, _, _, h => by
    cases sameType (congrArg (· ++ []) h) with
    | nil => rfl
  | .status s, b, _, _, h => by
    cases sameType (congrArg (· ++ []) h) with
    | status _ t => exact congrArg RedisReply.status (last_inj h)
  | .error s, b, _, _, h => by
    cases sameType (congrArg (· ++ []) h) with
    | error _ t => exact congrArg RedisReply.error (last_inj h)

theorem elements_inj : ∀ es fs : List RedisReply, es.length = fs.length → (∀ str ∈ elementFollowed es, ¬Closes str) →
    (∀ str ∈ elementFollowed fs, ¬Closes str) → elements es = elements fs → es = fs
  | [], [], _, _, _, _ => rfl
  | [e], [f], _, he, hf, h => by
    rw [elements_cons, elements_cons] at h
    rw [text_inj e f he hf (List.append_cancel_right (List.cons.inj h).2)]
  | e :: e' :: es, f :: f' :: fs, hlen, he, hf, h => by
    rw [elementFollowed, List.forall_mem_append] at he hf
    rw [elements_cons e, elements_cons f] at h
    have hx : Continues (elements (e' :: es)) := by simpa using continues_cons e' es []
    have hy : Continues (elements (f' :: fs)) := by simpa using continues_cons f' fs []
    obtain ⟨rfl, hrest⟩ := text_follow_inj e f _ _ he.1 hf.1 hx hy (List.cons.inj h).2
    rw [elements_inj (e' :: es) (f' :: fs) (Nat.succ.inj hlen) he.2 hf.2 hrest]

end

end RedisReply

open RedisReply

/-- **The text determines the reply** when no payload that something follows
closes itself. -/
theorem redisReplyToString_inj {a b : RedisReply} (ha : ∀ str ∈ followed a, ¬Closes str)
    (hb : ∀ str ∈ followed b, ¬Closes str) : redisReplyToString (some a) = redisReplyToString (some b) ↔ a = b :=
  ⟨text_inj a b ha hb, fun h => h ▸ rfl⟩

/-- A quote alone does not make two replies look the same, nor does the end of
a payload in the last one. -/
theorem redisReplyToString_inj_quotes :
    redisReplyToString (some (.array [.string (ofText "a\""), .string (ofText "\" \x7d REDIS_REPLY_")])) =
        redisReplyToString (some (.array [.string (ofText "a"), .string (ofText "\"\" \x7d REDIS_REPLY_")])) ↔
      RedisReply.array [.string (ofText "a\""), .string (ofText "\" \x7d REDIS_REPLY_")] =
        .array [.string (ofText "a"), .string (ofText "\"\" \x7d REDIS_REPLY_")] :=
  redisReplyToString_inj (by decide) (by decide)

/-- What stands between the payloads of two strings in an array. -/
def between : Bytes := ofText "\" \x7d REDIS_REPLY_STRING(1) \x7b \""

/-- What stands between two payloads may as well be part of either. -/
theorem text_shift (s t u : Bytes) :
    redisReplyToString (some (.array [.string (s ++ between ++ t), .string u])) =
      redisReplyToString (some (.array [.string s, .string (t ++ between ++ u)])) := by
  have hbetween : between = ofText "\"" ++ ofText " \x7d" ++ ofText " " ++ head (.string []) ++ ofText "\"" := by decide
  have hhead (v : Bytes) : head (.string v) = head (.string []) := rfl
  simp only [redisReplyToString, text, elements, hhead, hbetween, List.append_assoc, List.append_nil]
  rfl

/-- Two replies with one text. -/
theorem redisReplyToString_ambiguous :
    ¬∀ a b : RedisReply, redisReplyToString (some a) = redisReplyToString (some b) → a = b := by
  intro h
  have heq := h _ _ (text_shift (ofText "a") (ofText "b") (ofText "c"))
  simp only [RedisReply.array.injEq, List.cons.injEq, RedisReply.string.injEq, and_true] at heq
  exact absurd heq.1 (by decide)

end DictionaryServer
