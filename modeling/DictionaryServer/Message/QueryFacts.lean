/-
The messages of Query.proto survive the wire.

`WireFormatLite.Lawful` states what is documented of the protobuf runtime:
what was written is read back, a reader moves forward, a string is as long as
its bytes and their length word, and strings are checked to be UTF-8 when they
are parsed. Under it a message whose strings are UTF-8 and which fits a frame
can be encoded (`encodable`), and a `Reply` whose text is not UTF-8 is refused
by its own parser (`parseFromArray_reply_invalid`).
-/
import DictionaryServer.Lib.Utf8
import DictionaryServer.Lib.Varint
import DictionaryServer.Message.Query
import DictionaryServer.ProtobufCodecFrame

namespace DictionaryServer

open Lib

/-- What the generated code relies on. -/
structure WireFormatLite.Lawful (W : WireFormatLite) : Prop where
  stringSize : ∀ s, W.stringSize s = varintSize (s.length % 2 ^ 32) + s.length
  length_writeString : ∀ {n} s, 0 < n → n < 16 → (W.writeStringToArray n s).length = 1 + W.stringSize s
  length_writeInt32 : ∀ {n x}, 0 < n → n < 16 → Fits32 x → (W.writeInt32ToArray n x).length = 1 + W.int32Size x
  readTag_nil : (W.readTag []).1 = 0
  read_string : ∀ {n s} b, 0 < n → n < 16 → s.length < 2 ^ 31 →
    ∃ rest, W.readTag (W.writeStringToArray n s ++ b) = (8 * n + 2, rest) ∧ W.readString rest = some (s, b)
  read_int32 : ∀ {n x} b, 0 < n → n < 16 → Fits32 x →
    ∃ rest, W.readTag (W.writeInt32ToArray n x ++ b) = (8 * n, rest) ∧ W.readInt32 rest = some (x, b)
  verifyUtf8String : ∀ s, W.verifyUtf8String s = true ↔ ValidUtf8 s
  readTag_lt : ∀ {b}, (W.readTag b).1 ≠ 0 → (W.readTag b).2.length < b.length
  readString_le : ∀ {b s rest}, W.readString b = some (s, rest) → rest.length ≤ b.length
  readInt32_le : ∀ {b x rest}, W.readInt32 b = some (x, rest) → rest.length ≤ b.length
  skipField_le : ∀ {tag b kept rest}, W.skipField tag b = some (kept, rest) → rest.length ≤ b.length

namespace Message

variable {W : WireFormatLite}

/-! ## The parser's loop -/

/-- The readers of a table only move forward. -/
def Forward {M : Type} (fields : Nat → Option (FieldReader M)) : Prop :=
  ∀ tag read m input m' rest, fields tag = some read → read m input = some (m', rest) → rest.length ≤ input.length

theorem readStringField_le (h : W.Lawful) {M : Type} {set : M → Bytes → M} {m m' : M} {input rest : Bytes}
    (hr : readStringField W set m input = some (m', rest)) : rest.length ≤ input.length := by
  simp only [readStringField, Option.bind_eq_bind, Option.bind_eq_some_iff] at hr
  obtain ⟨⟨s, rest'⟩, hs, -, -, heq⟩ := hr
  cases heq
  exact h.readString_le hs

theorem readInt32Field_le (h : W.Lawful) {M : Type} {set : M → Int → M} {m m' : M} {input rest : Bytes}
    (hr : readInt32Field W set m input = some (m', rest)) : rest.length ≤ input.length := by
  simp only [readInt32Field, Option.bind_eq_bind, Option.bind_eq_some_iff] at hr
  obtain ⟨⟨x, rest'⟩, hx, heq⟩ := hr
  cases heq
  exact h.readInt32_le hx

section Loop

variable {M : Type} {fields : Nat → Option (FieldReader M)} {unknown : M → Bytes → M}

/-- **The fuel is never used up**: any two amounts above the length of the
input parse it alike. -/
theorem merge_fuel (h : W.Lawful) (hf : Forward fields) {fuel fuel' : Nat} {m : M} {input : Bytes}
    (hlt : input.length < fuel) (hlt' : input.length < fuel') :
    mergePartialFromCodedStream W fields unknown fuel m input =
      mergePartialFromCodedStream W fields unknown fuel' m input := by
  induction fuel generalizing fuel' m input with
  | zero => exact absurd hlt (Nat.not_lt_zero _)
  | succ fuel ih =>
    cases fuel' with
    | zero => exact absurd hlt' (Nat.not_lt_zero _)
    | succ fuel' =>
      simp only [mergePartialFromCodedStream]
      split
      · rfl
      · next htag =>
        have hrest := h.readTag_lt htag
        split
        · next read hread =>
          refine Option.bind_congr fun ⟨m', rest⟩ hr => ?_
          have hle : rest.length ≤ (W.readTag input).2.length := hf _ _ _ _ _ _ hread hr
          exact ih (show rest.length < fuel by omega) (show rest.length < fuel' by omega)
        · refine Option.bind_congr fun ⟨kept, rest⟩ hr => ?_
          have hle : rest.length ≤ (W.readTag input).2.length := h.skipField_le hr
          exact ih (show rest.length < fuel by omega) (show rest.length < fuel' by omega)

variable (W fields unknown) in
/-- The loop with fuel for all of the input. -/
def merge (m : M) (input : Bytes) : Option (M × Bytes) :=
  mergePartialFromCodedStream W fields unknown (input.length + 1) m input

theorem merge_nil (h : W.Lawful) (m : M) : merge W fields unknown m [] = some (m, []) := by
  simp only [merge, mergePartialFromCodedStream, h.readTag_nil, if_true]

/-- One string field at the front: the parser takes it in, if it is UTF-8. -/
theorem merge_string (h : W.Lawful) (hf : Forward fields) {n : Nat} {set : M → Bytes → M}
    (hset : fields (8 * n + 2) = some (readStringField W set)) (hn : 0 < n) (hn' : n < 16) {s : Bytes}
    (hs : s.length < 2 ^ 31) (m : M) (b : Bytes) :
    merge W fields unknown m (W.writeStringToArray n s ++ b) =
      if ValidUtf8 s then merge W fields unknown (set m s) b else none := by
  obtain ⟨rest, htag, hread⟩ := h.read_string b hn hn' hs
  have hlen := h.length_writeString s hn hn'
  simp only [merge, mergePartialFromCodedStream, htag, hset]
  rw [if_neg (by omega)]
  simp only [readStringField, hread, Option.bind_eq_bind, Option.bind_some]
  by_cases hv : ValidUtf8 s
  · rw [if_pos hv, guard, if_pos ((h.verifyUtf8String s).mpr hv)]
    refine merge_fuel h hf ?_ (Nat.lt_succ_self _)
    show b.length < (W.writeStringToArray n s ++ b).length
    rw [List.length_append]
    omega
  · rw [if_neg hv, guard, if_neg (mt (h.verifyUtf8String s).mp hv)]
    rfl

/-- A singular field at the front, which is left out when empty. -/
theorem merge_stringToArray (h : W.Lawful) (hf : Forward fields) {n : Nat} {set : M → Bytes → M}
    (hset : fields (8 * n + 2) = some (readStringField W set)) (hn : 0 < n) (hn' : n < 16) {s : Bytes}
    (hs : s.length < 2 ^ 31) (hv : ValidUtf8 s) (m : M) (hnil : s = [] → set m s = m) (b : Bytes) :
    merge W fields unknown m (stringToArray W n s ++ b) = merge W fields unknown (set m s) b := by
  unfold stringToArray
  split
  · rw [merge_string h hf hset hn hn' hs, if_pos hv]
  · next hlen =>
    rw [hnil (List.eq_nil_of_length_eq_zero (by omega))]
    rfl

theorem merge_stringsToArray (h : W.Lawful) (hf : Forward fields) {n : Nat} {add : M → Bytes → M}
    (hadd : fields (8 * n + 2) = some (readStringField W add)) (hn : 0 < n) (hn' : n < 16) {ss : List Bytes}
    (hss : ∀ s ∈ ss, s.length < 2 ^ 31 ∧ ValidUtf8 s) (m : M) (b : Bytes) :
    merge W fields unknown m (stringsToArray W n ss ++ b) = merge W fields unknown (ss.foldl add m) b := by
  induction ss generalizing m with
  | nil => rfl
  | cons s ss ih =>
    obtain ⟨hs, hv⟩ := hss s List.mem_cons_self
    simp only [stringsToArray, List.flatMap_cons, List.append_assoc, List.foldl_cons]
    rw [merge_string h hf hadd hn hn' hs, if_pos hv]
    exact ih (fun s hs => hss s (List.mem_cons_of_mem _ hs)) _

end Loop

theorem Query.forward (h : W.Lawful) : Forward (Query.fields W) := by
  intro tag read m input m' rest hread hr
  unfold Query.fields at hread
  split at hread <;> cases hread <;> exact readStringField_le h hr

theorem Reply.forward (h : W.Lawful) : Forward (Reply.fields W) := by
  intro tag read m input m' rest hread hr
  unfold Reply.fields at hread
  split at hread <;> cases hread <;> exact readStringField_le h hr

theorem Set.forward (h : W.Lawful) : Forward (Set.fields W) := by
  intro tag read m input m' rest hread hr
  unfold Set.fields at hread
  split at hread <;> cases hread <;> exact readStringField_le h hr

theorem Empty.forward (h : W.Lawful) : Forward (Empty.fields W) := by
  intro tag read m input m' rest hread hr
  unfold Empty.fields at hread
  split at hread <;> cases hread
  exact readInt32Field_le h hr

/-! ## A message reads back -/

/-- The strings of a message. -/
def strings : Message → List Bytes
  | .query m => m.key :: m.question
  | .reply m => m.reply :: m.solution
  | .set m => [m.key, m.value]
  | .empty _ => []

/-- An `int32` field holds what fits one. -/
def IdFits : Message → Prop
  | .empty m => Fits32 m.id
  | _ => True

/-- What the program builds and expects: strings in UTF-8, no unknown fields. -/
structure WellFormed (m : Message) : Prop where
  utf8 : ∀ s ∈ m.strings, ValidUtf8 s
  known : match m with
    | .query m => m.unknown_fields = []
    | .reply m => m.unknown_fields = []
    | .set m => m.unknown_fields = []
    | .empty m => m.unknown_fields = []
  id_fits : m.IdFits

theorem foldl_question (ss : List Bytes) (m : Query) :
    ss.foldl (fun m s => { m with question := m.question ++ [s] }) m = { m with question := m.question ++ ss } := by
  induction ss generalizing m with
  | nil => simp
  | cons s ss ih => simp [ih]

theorem foldl_solution (ss : List Bytes) (m : Reply) :
    ss.foldl (fun m s => { m with solution := m.solution ++ [s] }) m = { m with solution := m.solution ++ ss } := by
  induction ss generalizing m with
  | nil => simp
  | cons s ss ih => simp [ih]

theorem parseFromArray_of_merge {M : Type} {fields : Nat → Option (FieldReader M)} {unknown : M → Bytes → M}
    {cleared m : M} {data : Bytes} (h : merge W fields unknown cleared data = some (m, [])) :
    Message.parseFromArray W fields unknown cleared data = some m := by
  unfold merge at h
  unfold Message.parseFromArray
  rw [h]
  rfl

theorem Query.parseFromArray_serialize (h : W.Lawful) {m : Query} (hm : WellFormed (.query m))
    (hlen : ∀ s ∈ m.key :: m.question, s.length < 2 ^ 31) :
    Query.parseFromArray W (m.serializeWithCachedSizesToArray W) = some m := by
  obtain ⟨key, question, unknown_fields⟩ := m
  obtain ⟨hutf8, hknown, -⟩ := hm
  simp only [strings] at hutf8 hknown hlen
  subst hknown
  refine parseFromArray_of_merge ?_
  rw [Query.serializeWithCachedSizesToArray, List.append_assoc,
    merge_stringToArray h (Query.forward h) (n := 1) rfl (by decide) (by decide) (hlen _ List.mem_cons_self)
      (hutf8 _ List.mem_cons_self) {} (by rintro rfl; rfl),
    merge_stringsToArray h (Query.forward h) (n := 2) rfl (by decide) (by decide)
      (fun s hs => ⟨hlen s (List.mem_cons_of_mem _ hs), hutf8 s (List.mem_cons_of_mem _ hs)⟩),
    merge_nil h, foldl_question]
  rfl

theorem Reply.parseFromArray_serialize (h : W.Lawful) {m : Reply} (hm : WellFormed (.reply m))
    (hlen : ∀ s ∈ m.reply :: m.solution, s.length < 2 ^ 31) :
    Reply.parseFromArray W (m.serializeWithCachedSizesToArray W) = some m := by
  obtain ⟨reply, solution, unknown_fields⟩ := m
  obtain ⟨hutf8, hknown, -⟩ := hm
  simp only [strings] at hutf8 hknown hlen
  subst hknown
  refine parseFromArray_of_merge ?_
  rw [Reply.serializeWithCachedSizesToArray, List.append_assoc,
    merge_stringToArray h (Reply.forward h) (n := 1) rfl (by decide) (by decide) (hlen _ List.mem_cons_self)
      (hutf8 _ List.mem_cons_self) {} (by rintro rfl; rfl),
    merge_stringsToArray h (Reply.forward h) (n := 3) rfl (by decide) (by decide)
      (fun s hs => ⟨hlen s (List.mem_cons_of_mem _ hs), hutf8 s (List.mem_cons_of_mem _ hs)⟩),
    merge_nil h, foldl_solution]
  rfl

theorem Set.parseFromArray_serialize (h : W.Lawful) {m : Set} (hm : WellFormed (.set m))
    (hlen : ∀ s ∈ [m.key, m.value], s.length < 2 ^ 31) :
    Set.parseFromArray W (m.serializeWithCachedSizesToArray W) = some m := by
  obtain ⟨key, value, unknown_fields⟩ := m
  obtain ⟨hutf8, hknown, -⟩ := hm
  simp only [strings] at hutf8 hknown hlen
  subst hknown
  refine parseFromArray_of_merge ?_
  rw [Set.serializeWithCachedSizesToArray, List.append_assoc,
    merge_stringToArray h (Set.forward h) (n := 1) rfl (by decide) (by decide) (hlen _ List.mem_cons_self)
      (hutf8 _ List.mem_cons_self) {} (by rintro rfl; rfl),
    merge_stringToArray h (Set.forward h) (n := 2) rfl (by decide) (by decide) (hlen _ (by simp))
      (hutf8 _ (by simp)) { key := key } (by rintro rfl; rfl),
    merge_nil h]

theorem Empty.parseFromArray_serialize (h : W.Lawful) {m : Empty} (hm : WellFormed (.empty m)) :
    Empty.parseFromArray W (m.serializeWithCachedSizesToArray W) = some m := by
  obtain ⟨id, unknown_fields⟩ := m
  have hknown : unknown_fields = [] := hm.known
  have hid : Fits32 id := hm.id_fits
  subst hknown
  refine parseFromArray_of_merge ?_
  rw [Empty.serializeWithCachedSizesToArray, List.append_nil]
  split
  · next hne =>
    obtain ⟨rest, htag, hread⟩ := h.read_int32 [] (n := 1) (by decide) (by decide) hid
    have hlen := h.length_writeInt32 (n := 1) (by decide) (by decide) hid
    rw [List.append_nil] at htag
    simp only [merge, mergePartialFromCodedStream, htag]
    rw [if_neg (by decide)]
    simp only [Empty.fields, readInt32Field, hread, Option.bind_eq_bind, Option.bind_some]
    exact (merge_fuel h (Empty.forward h) (by simp only [List.length_nil]; omega) (Nat.lt_succ_self _)).trans
      (merge_nil h _)
  · next hzero =>
    simp only [ne_eq, not_not] at hzero
    rw [hzero]
    exact merge_nil h _

/-! ## And fits its size -/

theorem length_stringToArray (h : W.Lawful) {n : Nat} (hn : 0 < n) (hn' : n < 16) (s : Bytes) :
    (stringToArray W n s).length = stringByteSize W s := by
  unfold stringToArray stringByteSize
  split
  · exact h.length_writeString s hn hn'
  · rfl

theorem length_stringsToArray (h : W.Lawful) {n : Nat} (hn : 0 < n) (hn' : n < 16) (ss : List Bytes) :
    (stringsToArray W n ss).length = stringsByteSize W ss := by
  induction ss with
  | nil => rfl
  | cons s ss ih =>
    simp only [stringsToArray, stringsByteSize] at ih ⊢
    simp only [List.flatMap_cons, List.length_append, h.length_writeString s hn hn', ih, List.length_cons,
      List.map_cons, List.sum_cons]
    omega

end Message

open Message

variable {W : WireFormatLite}

theorem byteSize_eq (h : W.Lawful) {m : Message} (hid : m.IdFits) :
    (queryProto W).byteSize m = ((queryProto W).serializeWithCachedSizesToArray m).length := by
  cases m with
  | query m =>
    simp only [queryProto, Query.byteSizeLong, Query.serializeWithCachedSizesToArray, List.length_append,
      length_stringToArray h (n := 1) (by decide) (by decide), length_stringsToArray h (n := 2) (by decide) (by decide)]
    omega
  | reply m =>
    simp only [queryProto, Reply.byteSizeLong, Reply.serializeWithCachedSizesToArray, List.length_append,
      length_stringToArray h (n := 1) (by decide) (by decide), length_stringsToArray h (n := 3) (by decide) (by decide)]
    omega
  | set m =>
    simp only [queryProto, Set.byteSizeLong, Set.serializeWithCachedSizesToArray, List.length_append,
      length_stringToArray h (n := 1) (by decide) (by decide), length_stringToArray h (n := 2) (by decide) (by decide)]
    omega
  | empty m =>
    simp only [queryProto, Empty.byteSizeLong, Empty.serializeWithCachedSizesToArray, List.length_append]
    split
    · rw [h.length_writeInt32 (by decide) (by decide) hid]
      omega
    · simp only [List.length_nil]
      omega

theorem length_le_stringToArray (h : W.Lawful) {n : Nat} (hn : 0 < n) (hn' : n < 16) (s : Bytes) :
    s.length ≤ (stringToArray W n s).length := by
  rw [length_stringToArray h hn hn', stringByteSize, h.stringSize]
  split <;> omega

theorem length_le_stringsToArray (h : W.Lawful) {n : Nat} (hn : 0 < n) (hn' : n < 16) {ss : List Bytes} {s : Bytes}
    (hs : s ∈ ss) : s.length ≤ (stringsToArray W n ss).length := by
  obtain ⟨before, after, rfl⟩ := List.append_of_mem hs
  simp only [stringsToArray, List.flatMap_append, List.flatMap_cons, List.length_append,
    h.length_writeString s hn hn', h.stringSize]
  omega

theorem length_le_serialize (h : W.Lawful) {m : Message} {s : Bytes} (hs : s ∈ m.strings) :
    s.length ≤ ((queryProto W).serializeWithCachedSizesToArray m).length := by
  cases m with
  | query m =>
    simp only [queryProto, Query.serializeWithCachedSizesToArray, List.length_append]
    rcases List.mem_cons.mp hs with rfl | hs
    · have := length_le_stringToArray h (n := 1) (by decide) (by decide) m.key
      omega
    · have := length_le_stringsToArray h (n := 2) (by decide) (by decide) hs
      omega
  | reply m =>
    simp only [queryProto, Reply.serializeWithCachedSizesToArray, List.length_append]
    rcases List.mem_cons.mp hs with rfl | hs
    · have := length_le_stringToArray h (n := 1) (by decide) (by decide) m.reply
      omega
    · have := length_le_stringsToArray h (n := 3) (by decide) (by decide) hs
      omega
  | set m =>
    simp only [queryProto, Set.serializeWithCachedSizesToArray, List.length_append]
    have hkey := length_le_stringToArray h (n := 1) (by decide) (by decide) m.key
    have hvalue := length_le_stringToArray h (n := 2) (by decide) (by decide) m.value
    simp only [strings, List.mem_cons, List.not_mem_nil, or_false] at hs
    rcases hs with rfl | rfl <;> omega
  | empty m => cases hs

/-- Each type is found under its own name. -/
theorem createMessage_getTypeName (W : WireFormatLite) (m : Message) :
    ∃ message, ProtobufCodec.createMessage (queryProto W) m.getTypeName = some message ∧
      ∀ data, (queryProto W).parseFromArray message data = (queryProto W).parseFromArray m data := by
  cases m with
  | query m => exact ⟨.query {}, rfl, fun data => rfl⟩
  | reply m => exact ⟨.reply {}, rfl, fun data => rfl⟩
  | set m => exact ⟨.set {}, rfl, fun data => rfl⟩
  | empty m => exact ⟨.empty {}, rfl, fun data => rfl⟩

theorem parseFromArray_serialize (h : W.Lawful) {m : Message} (hm : WellFormed m)
    (hlen : ∀ s ∈ m.strings, s.length < 2 ^ 31) :
    (queryProto W).parseFromArray m ((queryProto W).serializeWithCachedSizesToArray m) = some m := by
  cases m with
  | query m => exact congrArg (Option.map Message.query) (Query.parseFromArray_serialize h hm hlen)
  | reply m => exact congrArg (Option.map Message.reply) (Reply.parseFromArray_serialize h hm hlen)
  | set m => exact congrArg (Option.map Message.set) (Set.parseFromArray_serialize h hm hlen)
  | empty m => exact congrArg (Option.map Message.empty) (Empty.parseFromArray_serialize h hm)

/-- **A well-formed message that fits a frame can be sent.** -/
theorem encodable (h : W.Lawful) {m : Message} (hm : WellFormed m)
    (hfits : (4 + m.getTypeName.length + 1 + ((queryProto W).serializeWithCachedSizesToArray m).length + 4 : Int) ≤
      ProtobufCodec.kMaxMessageLen) : ProtobufCodec.Encodable (queryProto W) m where
  initialized := rfl
  byteSize := byteSize_eq h hm.id_fits
  typeName_ne := by cases m <;> exact List.cons_ne_nil _ _
  registered := by
    obtain ⟨message, hcreate, hparse⟩ := createMessage_getTypeName W m
    refine ⟨message, hcreate, ?_⟩
    rw [hparse]
    refine parseFromArray_serialize h hm ?_
    intro s hs
    have hle := length_le_serialize h hs
    rw [ProtobufCodec.kMaxMessageLen_eq] at hfits
    omega
  fits := hfits

/-- **A reply that is not UTF-8 is refused.** -/
theorem parseFromArray_reply_invalid (h : W.Lawful) {s : Bytes} (hs : ¬ValidUtf8 s) (hlen : s.length < 2 ^ 31) :
    Reply.parseFromArray W (({ reply := s } : Reply).serializeWithCachedSizesToArray W) = none := by
  have hne : s.length > 0 := by
    rcases s with _ | ⟨c, s⟩
    · exact absurd validUtf8_nil hs
    · exact Nat.succ_pos _
  obtain ⟨unknown, hunknown⟩ : ∃ unknown, unknown = fun (m : Reply) u => { m with unknown_fields := m.unknown_fields ++ u } :=
    ⟨_, rfl⟩
  have hmerge : merge W (Reply.fields W) unknown {} (W.writeStringToArray 1 s ++ []) = none := by
    rw [merge_string h (Reply.forward h) (n := 1) rfl (by decide) (by decide) hlen, if_neg hs]
  rw [List.append_nil, merge] at hmerge
  unfold Reply.parseFromArray Message.parseFromArray Reply.serializeWithCachedSizesToArray stringToArray stringsToArray
  rw [if_pos hne, List.flatMap_nil, List.append_nil, List.append_nil, ← hunknown, hmerge]
  rfl

end DictionaryServer
