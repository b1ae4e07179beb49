/-
The messages of Query.proto and the code generated for them (Query.pb.cc).

What that code calls of the protobuf runtime is the structure
`WireFormatLite`. The four generated parsers are one loop
(`mergePartialFromCodedStream`) over each message's own table of fields; what
a parser does not know it keeps in the message's unknown fields, which are
serialized again after the known ones.
-/
import DictionaryServer.ProtobufCodec

namespace DictionaryServer

open Lib

/-- What the generated code calls of `WireFormatLite` and `CodedInputStream`.
A reader returns what it read and the rest of the input. -/
structure WireFormatLite where
  stringSize : Bytes → Nat
  int32Size : Int → Nat
  writeStringToArray : Nat → Bytes → Bytes
  writeInt32ToArray : Nat → Int → Bytes
  /-- `ReadTagWithCutoffNoLastTag`, 0 at the end of the input or on a malformed tag. -/
  readTag : Bytes → Nat × Bytes
  readString : Bytes → Option (Bytes × Bytes)
  readInt32 : Bytes → Option (Int × Bytes)
  verifyUtf8String : Bytes → Bool
  /-- `SkipField`, which copies the field it skips to the unknown ones. -/
  skipField : Nat → Bytes → Option (Bytes × Bytes)

namespace Message

structure Query where
  key : Bytes := []
  question : List Bytes := []
  unknown_fields : Bytes := []
  deriving DecidableEq

structure Reply where
  reply : Bytes := []
  solution : List Bytes := []
  unknown_fields : Bytes := []
  deriving DecidableEq

structure Set where
  key : Bytes := []
  value : Bytes := []
  unknown_fields : Bytes := []
  deriving DecidableEq

structure Empty where
  id : Int := 0
  unknown_fields : Bytes := []
  deriving DecidableEq

variable (W : WireFormatLite)

/-! ## Writing -/

/-- A singular string field; an empty one is left out. -/
def stringToArray (n : Nat) (s : Bytes) : Bytes := if s.length > 0 then W.writeStringToArray n s else []

def stringByteSize (s : Bytes) : Nat := if s.length > 0 then 1 + W.stringSize s else 0

/-- A repeated string field. -/
def stringsToArray (n : Nat) (ss : List Bytes) : Bytes := ss.flatMap (W.writeStringToArray n)

def stringsByteSize (ss : List Bytes) : Nat := 1 * ss.length + (ss.map W.stringSize).sum

def Query.serializeWithCachedSizesToArray (m : Query) : Bytes :=
  stringToArray W 1 m.key ++ stringsToArray W 2 m.question ++ m.unknown_fields

def Query.byteSizeLong (m : Query) : Nat :=
  m.unknown_fields.length + stringsByteSize W m.question + stringByteSize W m.key

def Reply.serializeWithCachedSizesToArray (m : Reply) : Bytes :=
  stringToArray W 1 m.reply ++ stringsToArray W 3 m.solution ++ m.unknown_fields

def Reply.byteSizeLong (m : Reply) : Nat :=
  m.unknown_fields.length + stringsByteSize W m.solution + stringByteSize W m.reply

def Set.serializeWithCachedSizesToArray (m : Set) : Bytes :=
  stringToArray W 1 m.key ++ stringToArray W 2 m.value ++ m.unknown_fields

def Set.byteSizeLong (m : Set) : Nat :=
  m.unknown_fields.length + stringByteSize W m.key + stringByteSize W m.value

def Empty.serializeWithCachedSizesToArray (m : Empty) : Bytes :=
  (if m.id ≠ 0 then W.writeInt32ToArray 1 m.id else []) ++ m.unknown_fields

def Empty.byteSizeLong (m : Empty) : Nat :=
  m.unknown_fields.length + if m.id ≠ 0 then 1 + W.int32Size m.id else 0

/-! ## Reading -/

/-- How a parser reads one field into the message, and what follows it. -/
abbrev FieldReader (M : Type) := M → Bytes → Option (M × Bytes)

/-- `ReadString`, then `VerifyUtf8String` in mode `PARSE`. -/
def readStringField {M : Type} (set : M → Bytes → M) : FieldReader M := fun m input => do
  let (s, rest) ← W.readString input
  guard (W.verifyUtf8String s)
  return (set m s, rest)

def readInt32Field {M : Type} (set : M → Int → M) : FieldReader M := fun m input => do
  let (x, rest) ← W.readInt32 input
  return (set m x, rest)

/-- The loop of a generated parser. `fields` are the tags it knows. At tag 0
it succeeds and leaves the input there. A turn consumes the tag, so a `fuel`
above the length of the input is never used up. -/
def mergePartialFromCodedStream {M : Type} (fields : Nat → Option (FieldReader M)) (unknown : M → Bytes → M) :
    Nat → M → Bytes → Option (M × Bytes)
  | 0, _, _ => none
  | fuel + 1, m, input =>
    let (tag, rest) := W.readTag input
    if tag = 0 then some (m, input)
    else
      match fields tag with
      | some read => do
        let (m, rest) ← read m rest
        mergePartialFromCodedStream fields unknown fuel m rest
      | none => do
        let (kept, rest) ← W.skipField tag rest
        mergePartialFromCodedStream fields unknown fuel (unknown m kept) rest

/-- `ParseFromArray`: the message is cleared, merged into, and the input must
have been consumed. -/
def parseFromArray {M : Type} (fields : Nat → Option (FieldReader M)) (unknown : M → Bytes → M) (cleared : M)
    (data : Bytes) : Option M := do
  let (m, rest) ← mergePartialFromCodedStream W fields unknown (data.length + 1) cleared data
  guard (rest = [])
  return m

def Query.fields : Nat → Option (FieldReader Query)
  | 10 => some (readStringField W fun m s => { m with key := s })
  | 18 => some (readStringField W fun m s => { m with question := m.question ++ [s] })
  | _ => none

def Reply.fields : Nat → Option (FieldReader Reply)
  | 10 => some (readStringField W fun m s => { m with reply := s })
  | 26 => some (readStringField W fun m s => { m with solution := m.solution ++ [s] })
  | _ => none

def Set.fields : Nat → Option (FieldReader Set)
  | 10 => some (readStringField W fun m s => { m with key := s })
  | 18 => some (readStringField W fun m s => { m with value := s })
  | _ => none

def Empty.fields : Nat → Option (FieldReader Empty)
  | 8 => some (readInt32Field W fun m x => { m with id := x })
  | _ => none

def Query.parseFromArray (data : Bytes) : Option Query :=
  Message.parseFromArray W (Query.fields W) (fun m u => { m with unknown_fields := m.unknown_fields ++ u }) {} data

def Reply.parseFromArray (data : Bytes) : Option Reply :=
  Message.parseFromArray W (Reply.fields W) (fun m u => { m with unknown_fields := m.unknown_fields ++ u }) {} data

def Set.parseFromArray (data : Bytes) : Option Set :=
  Message.parseFromArray W (Set.fields W) (fun m u => { m with unknown_fields := m.unknown_fields ++ u }) {} data

def Empty.parseFromArray (data : Bytes) : Option Empty :=
  Message.parseFromArray W (Empty.fields W) (fun m u => { m with unknown_fields := m.unknown_fields ++ u }) {} data

end Message

/-! ## The registered types -/

/-- A message of one of the types Query.proto registers. -/
inductive Message
  | query (m : Message.Query)
  | reply (m : Message.Reply)
  | set (m : Message.Set)
  | empty (m : Message.Empty)
  deriving DecidableEq

namespace Message

inductive Descriptor
  | query | reply | set | empty

def getTypeName : Message → Bytes
  | .query _ => ofText "muduo.Query"
  | .reply _ => ofText "muduo.Reply"
  | .set _ => ofText "muduo.Set"
  | .empty _ => ofText "muduo.Empty"

def findMessageTypeByName (name : Bytes) : Option Descriptor :=
  if name = ofText "muduo.Query" then some .query
  else if name = ofText "muduo.Reply" then some .reply
  else if name = ofText "muduo.Set" then some .set
  else if name = ofText "muduo.Empty" then some .empty
  else none

def getPrototype : Descriptor → Message
  | .query => .query {}
  | .reply => .reply {}
  | .set => .set {}
  | .empty => .empty {}

end Message

/-- The protobuf runtime with Query.proto registered. Every message of it is
initialised: it has no required fields. -/
def queryProto (W : WireFormatLite) : Protobuf where
  Message := Message
  Descriptor := Message.Descriptor
  getTypeName := Message.getTypeName
  isInitialized _ := true
  byteSize
    | .query m => m.byteSizeLong W
    | .reply m => m.byteSizeLong W
    | .set m => m.byteSizeLong W
    | .empty m => m.byteSizeLong W
  serializeWithCachedSizesToArray
    | .query m => m.serializeWithCachedSizesToArray W
    | .reply m => m.serializeWithCachedSizesToArray W
    | .set m => m.serializeWithCachedSizesToArray W
    | .empty m => m.serializeWithCachedSizesToArray W
  findMessageTypeByName := Message.findMessageTypeByName
  getPrototype d := some (Message.getPrototype d)
  new
    | .query _ => .query {}
    | .reply _ => .reply {}
    | .set _ => .set {}
    | .empty _ => .empty {}
  parseFromArray
    | .query _, data => (Message.Query.parseFromArray W data).map .query
    | .reply _, data => (Message.Reply.parseFromArray W data).map .reply
    | .set _, data => (Message.Set.parseFromArray W data).map .set
    | .empty _, data => (Message.Empty.parseFromArray W data).map .empty

end DictionaryServer
