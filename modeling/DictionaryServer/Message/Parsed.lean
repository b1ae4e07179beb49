/-
What a parsed message is like.

`Protobuf.Lawful` states what is documented of the runtime for a message that
`ParseFromArray` has accepted: it has the type it was parsed as, it is
initialised, and its size is known and within the runtime's limit.
`queryProto_lawful` proves it of the messages of Query.proto in the wire
format, whatever bytes they are parsed from: each turn of a parser's loop adds
to a message little more than it consumes (`merge_weight`).
-/
import DictionaryServer.Message.WireFormat

namespace DictionaryServer

open Lib

/-- What the codec relies on of the protobuf runtime when it writes a message
it has parsed. -/
structure Protobuf.Lawful (P : Protobuf) : Prop where
  /-- The type found under a name has this name. -/
  getTypeName_new : ∀ {name descriptor prototype}, P.findMessageTypeByName name = some descriptor →
    P.getPrototype descriptor = some prototype → P.getTypeName (P.new prototype) = name
  getTypeName_parse : ∀ {message data parsed}, P.parseFromArray message data = some parsed →
    P.getTypeName parsed = P.getTypeName message
  /-- A message that lacks a required field is not parsed. -/
  isInitialized_parse : ∀ {message data parsed}, P.parseFromArray message data = some parsed →
    P.isInitialized parsed = true
  byteSize_parse : ∀ {message data parsed}, P.parseFromArray message data = some parsed →
    P.byteSize parsed = (P.serializeWithCachedSizesToArray parsed).length
  /-- What was read from a frame is within the runtime's limit of 2 GB. -/
  byteSize_lt : ∀ {message data parsed}, P.parseFromArray message data = some parsed →
    data.length ≤ ProtobufCodec.kMaxMessageLen → P.byteSize parsed < 2 ^ 31

namespace Message

/-! ## The parser's loop -/

section Loop

variable {W : WireFormatLite} {M : Type} {fields : Nat → Option (FieldReader M)} {unknown : M → Bytes → M}

/-- What each turn of the loop keeps, of the message and the input that is
left, holds at its end. -/
theorem merge_invariant {I : M → Bytes → Prop}
    (hread : ∀ {tag read m input m' rest}, fields tag = some read → tag ≠ 0 → (W.readTag input).1 = tag →
      read m (W.readTag input).2 = some (m', rest) → I m input → I m' rest)
    (hunknown : ∀ {tag m input kept rest}, tag ≠ 0 → (W.readTag input).1 = tag →
      W.skipField tag (W.readTag input).2 = some (kept, rest) → I m input → I (unknown m kept) rest)
    {fuel : Nat} {m m' : M} {input rest : Bytes}
    (h : mergePartialFromCodedStream W fields unknown fuel m input = some (m', rest)) (hI : I m input) : I m' rest := by
  induction fuel generalizing m input with
  | zero => cases h
  | succ fuel ih =>
    simp only [mergePartialFromCodedStream] at h
    split at h
    · cases h
      exact hI
    · next htag =>
      split at h
      · next read hfield =>
        obtain ⟨⟨m₁, rest₁⟩, hr, h⟩ := Option.bind_eq_some_iff.mp h
        exact ih h (hread hfield htag rfl hr hI)
      · obtain ⟨⟨kept, rest₁⟩, hr, h⟩ := Option.bind_eq_some_iff.mp h
        exact ih h (hunknown htag rfl hr hI)

theorem merge_of_parse {cleared m : M} {data : Bytes} (h : Message.parseFromArray W fields unknown cleared data = some m) :
    mergePartialFromCodedStream W fields unknown (data.length + 1) cleared data = some (m, []) := by
  simp only [Message.parseFromArray, Option.bind_eq_bind, Option.bind_eq_some_iff] at h
  obtain ⟨⟨m', rest⟩, hmerge, u, hguard, heq⟩ := h
  obtain rfl : rest = [] := (Option.guard_eq_some' u).mp hguard
  obtain rfl : m' = m := Option.some.inj heq
  exact hmerge

end Loop

/-! ## What a turn adds -/

theorem varintSize_le (n : Nat) : varintSize n ≤ 5 := by
  unfold varintSize
  split_ifs <;> decide

theorem stringSize_le (s : Bytes) : wireFormat.stringSize s ≤ s.length + 5 := by
  have := varintSize_le (s.length % 2 ^ 32)
  simp only [wireFormat]
  omega

theorem length_readString {b s rest : Bytes} (h : wireFormat.readString b = some (s, rest)) :
    s.length + rest.length ≤ b.length := by
  simp only [wireFormat, WireFormat.readString, Option.bind_eq_bind, Option.bind_eq_some_iff] at h
  obtain ⟨⟨n, rest'⟩, hread, -, -, heq⟩ := h
  cases heq
  have hlt := WireFormat.readVarint32_lt hread
  show (rest'.take n).length + (rest'.drop n).length ≤ b.length
  rw [List.length_take, List.length_drop]
  omega

/-- What is kept of a skipped field: its tag, written again, and the bytes skipped. -/
theorem length_skipField {tag : Nat} {b kept rest : Bytes} (h : wireFormat.skipField tag b = some (kept, rest)) :
    kept.length + rest.length ≤ b.length + 5 := by
  have hrest := wireFormat_lawful.skipField_le h
  obtain ⟨rest', hskip, heq⟩ := Option.map_eq_some_iff.mp h
  cases heq
  have htag := length_varint_le 5 tag
  rw [List.length_append, List.length_take, WireFormat.maxVarint32Bytes]
  omega

/-- The readers of a table add to a message no more than they consume, and a
tag and a length word. -/
def Light {M : Type} (w : M → Nat) (fields : Nat → Option (FieldReader M)) : Prop :=
  ∀ tag read m input m' rest, fields tag = some read → read m input = some (m', rest) →
    w m' + rest.length ≤ w m + input.length + 6

theorem readStringField_light {M : Type} {w : M → Nat} {set : M → Bytes → M}
    (hset : ∀ m s, w (set m s) ≤ w m + (1 + wireFormat.stringSize s)) {m m' : M} {input rest : Bytes}
    (h : readStringField wireFormat set m input = some (m', rest)) : w m' + rest.length ≤ w m + input.length + 6 := by
  simp only [readStringField, Option.bind_eq_bind, Option.bind_eq_some_iff] at h
  obtain ⟨⟨s, rest'⟩, hs, -, -, heq⟩ := h
  cases heq
  have hlength := length_readString hs
  have hsize := stringSize_le s
  have hadds := hset m s
  show w (set m s) + rest'.length ≤ w m + input.length + 6
  omega

/-- **A parsed message** is at most seven times as long as what it was parsed from. -/
theorem parse_weight {M : Type} {fields : Nat → Option (FieldReader M)} {unknown : M → Bytes → M} {w : M → Nat}
    (hforward : Forward fields) (hlight : Light w fields) (hunknown : ∀ m kept, w (unknown m kept) ≤ w m + kept.length)
    {cleared m : M} {data : Bytes} (h : Message.parseFromArray wireFormat fields unknown cleared data = some m) :
    w m ≤ w cleared + 7 * data.length := by
  have hweight := merge_invariant (I := fun m input => w m + 7 * input.length ≤ w cleared + 7 * data.length) ?_ ?_
    (merge_of_parse h) (Nat.le_refl _)
  · simpa using hweight
  · intro tag read m input m' rest hfield htag htag' hr hI
    have hlt := wireFormat_lawful.readTag_lt (b := input) (htag' ▸ htag)
    have hle := hforward _ _ _ _ _ _ hfield hr
    have hadd := hlight _ _ _ _ _ _ hfield hr
    omega
  · intro tag m input kept rest htag htag' hr hI
    have hlt := wireFormat_lawful.readTag_lt (b := input) (htag' ▸ htag)
    have hle := wireFormat_lawful.skipField_le hr
    have hkept := length_skipField hr
    have hadd := hunknown m kept
    omega

/-! ## The messages -/

theorem stringByteSize_le (s : Bytes) : stringByteSize wireFormat s ≤ 1 + wireFormat.stringSize s := by
  unfold stringByteSize
  split
  · exact Nat.le_refl _
  · exact Nat.zero_le _

theorem stringsByteSize_concat (ss : List Bytes) (s : Bytes) :
    stringsByteSize wireFormat (ss ++ [s]) = stringsByteSize wireFormat ss + (1 + wireFormat.stringSize s) := by
  simp only [stringsByteSize, List.map_append, List.sum_append, List.map_cons, List.map_nil, List.sum_singleton,
    List.length_append, List.length_singleton]
  omega

theorem Query.light : Light (Query.byteSizeLong wireFormat) (Query.fields wireFormat) := by
  intro tag read m input m' rest hread hr
  unfold Query.fields at hread
  split at hread <;> cases hread
  · refine readStringField_light (fun m s => ?_) hr
    have := stringByteSize_le s
    simp only [Query.byteSizeLong]
    omega
  · refine readStringField_light (fun m s => ?_) hr
    simp only [Query.byteSizeLong, stringsByteSize_concat]
    omega

theorem Reply.light : Light (Reply.byteSizeLong wireFormat) (Reply.fields wireFormat) := by
  intro tag read m input m' rest hread hr
  unfold Reply.fields at hread
  split at hread <;> cases hread
  · refine readStringField_light (fun m s => ?_) hr
    have := stringByteSize_le s
    simp only [Reply.byteSizeLong]
    omega
  · refine readStringField_light (fun m s => ?_) hr
    simp only [Reply.byteSizeLong, stringsByteSize_concat]
    omega

theorem Set.light : Light (Set.byteSizeLong wireFormat) (Set.fields wireFormat) := by
  intro tag read m input m' rest hread hr
  unfold Set.fields at hread
  split at hread <;> cases hread
  all_goals
    refine readStringField_light (fun m s => ?_) hr
    have := stringByteSize_le s
    simp only [Set.byteSizeLong]
    omega

theorem Query.parse_le {m : Query} {data : Bytes} (h : Query.parseFromArray wireFormat data = some m) :
    m.byteSizeLong wireFormat ≤ 7 * data.length := by
  refine (parse_weight (Query.forward wireFormat_lawful) Query.light (fun m kept => ?_) h).trans (Nat.zero_add _).le
  simp only [Query.byteSizeLong, List.length_append]
  omega

theorem Reply.parse_le {m : Reply} {data : Bytes} (h : Reply.parseFromArray wireFormat data = some m) :
    m.byteSizeLong wireFormat ≤ 7 * data.length := by
  refine (parse_weight (Reply.forward wireFormat_lawful) Reply.light (fun m kept => ?_) h).trans (Nat.zero_add _).le
  simp only [Reply.byteSizeLong, List.length_append]
  omega

theorem Set.parse_le {m : Set} {data : Bytes} (h : Set.parseFromArray wireFormat data = some m) :
    m.byteSizeLong wireFormat ≤ 7 * data.length := by
  refine (parse_weight (Set.forward wireFormat_lawful) Set.light (fun m kept => ?_) h).trans (Nat.zero_add _).le
  simp only [Set.byteSizeLong, List.length_append]
  omega

/-- The number of an `Empty` is an `int32`, of at most ten bytes. -/
theorem Empty.parse_fits {m : Empty} {data : Bytes} (h : Empty.parseFromArray wireFormat data = some m) :
    Fits32 m.id := by
  refine merge_invariant (I := fun m _ => Fits32 m.id) ?_ (fun _ _ _ hI => hI) (merge_of_parse h) ⟨by decide, by decide⟩
  intro tag read m input m' rest hfield _ _ hr _
  unfold Empty.fields at hfield
  split at hfield <;> cases hfield
  simp only [readInt32Field, Option.bind_eq_bind, Option.bind_eq_some_iff] at hr
  obtain ⟨⟨x, rest'⟩, hx, heq⟩ := hr
  cases heq
  obtain ⟨⟨n, rest''⟩, -, heq⟩ := Option.map_eq_some_iff.mp hx
  cases heq
  exact wrap32_fits n

theorem Empty.parse_le {m : Empty} {data : Bytes} (h : Empty.parseFromArray wireFormat data = some m) :
    m.byteSizeLong wireFormat ≤ 7 * data.length + 11 := by
  have hlight : Light (fun m : Empty => m.unknown_fields.length) (Empty.fields wireFormat) := by
    intro tag read m input m' rest hread hr
    unfold Empty.fields at hread
    split at hread <;> cases hread
    have hle := readInt32Field_le wireFormat_lawful hr
    simp only [readInt32Field, Option.bind_eq_bind, Option.bind_eq_some_iff] at hr
    obtain ⟨⟨x, rest'⟩, hx, heq⟩ := hr
    cases heq
    show m.unknown_fields.length + _ ≤ m.unknown_fields.length + _ + 6
    omega
  have hweight := parse_weight (Empty.forward wireFormat_lawful) hlight (fun m kept => by simp) h
  have hint (x : Int) : wireFormat.int32Size x ≤ 10 := by
    have := varintSize_le x.toNat
    simp only [wireFormat, WireFormat.int32Size, WireFormat.maxVarintBytes]
    split <;> omega
  have hid := hint m.id
  simp only [List.length_nil] at hweight
  simp only [Empty.byteSizeLong]
  split <;> omega

end Message

open Message

/-- **The messages of Query.proto** are what the codec relies on. -/
theorem queryProto_lawful : (queryProto wireFormat).Lawful where
  getTypeName_new {name descriptor prototype} hfind hprototype := by
    cases hprototype
    simp only [queryProto, findMessageTypeByName] at hfind
    split_ifs at hfind with h₁ h₂ h₃ h₄ <;> cases hfind
    · exact h₁.symm
    · exact h₂.symm
    · exact h₃.symm
    · exact h₄.symm
  getTypeName_parse {message data parsed} h := by
    cases message <;>
      obtain ⟨m, -, rfl⟩ := Option.map_eq_some_iff.mp h <;> rfl
  isInitialized_parse _ := rfl
  byteSize_parse {message data parsed} h := by
    refine byteSize_eq wireFormat_lawful ?_
    cases message <;> obtain ⟨m, hm, rfl⟩ := Option.map_eq_some_iff.mp h
    · trivial
    · trivial
    · trivial
    · exact Empty.parse_fits hm
  byteSize_lt {message data parsed} h hdata := by
    rw [ProtobufCodec.kMaxMessageLen_eq] at hdata
    cases message <;> obtain ⟨m, hm, rfl⟩ := Option.map_eq_some_iff.mp h
    · exact lt_of_le_of_lt (Query.parse_le hm) (by omega)
    · exact lt_of_le_of_lt (Reply.parse_le hm) (by omega)
    · exact lt_of_le_of_lt (Set.parse_le hm) (by omega)
    · exact lt_of_le_of_lt (Empty.parse_le hm) (by omega)

end DictionaryServer
