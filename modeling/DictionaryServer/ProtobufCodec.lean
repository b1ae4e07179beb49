/-
`ProtobufCodec` (ProtobufCodec.h, ProtobufCodec.cc): the frames the proxy and
its clients exchange.

    len : int32 | nameLen : int32 | typeName, NUL | data | checkSum : int32

`len` counts everything after itself. `fillEmptyBuffer` writes a frame,
`onMessage` takes frames off the front of an input buffer and `parse` reads
the body of one. What they call of the protobuf runtime is the structure
`Protobuf`; the generated messages of Query.proto are an instance of it.

A `const char*` into a buffer is the list of the bytes from there on, so a
read past the end of a frame sees what follows it.
-/
import DictionaryServer.Lib.Adler32
import DictionaryServer.Lib.Framing
import DictionaryServer.Muduo.Buffer

namespace DictionaryServer

open Lib Lib.Framing Lib.Adler32

/-- What the codec calls of the protobuf runtime. -/
structure Protobuf where
  Message : Type
  Descriptor : Type
  getTypeName : Message → Bytes
  isInitialized : Message → Bool
  byteSize : Message → Nat
  serializeWithCachedSizesToArray : Message → Bytes
  /-- `DescriptorPool::generated_pool()->FindMessageTypeByName` -/
  findMessageTypeByName : Bytes → Option Descriptor
  /-- `MessageFactory::generated_factory()->GetPrototype` -/
  getPrototype : Descriptor → Option Message
  /-- `Message::New`, a default instance of the prototype's type. -/
  new : Message → Message
  /-- `ParseFromArray`, which may fail. -/
  parseFromArray : Message → Bytes → Option Message

namespace ProtobufCodec

inductive ErrorCode
  | kNoError
  | kInvalidLength
  | kCheckSumError
  | kInvalidNameLen
  | kUnknownMessageType
  | kParseError
  deriving DecidableEq, Repr

def kHeaderLen : Int := 4
def kMinMessageLen : Int := 2 * kHeaderLen + 2
def kMaxMessageLen : Int := 64 * 1024 * 1024

variable (P : Protobuf)

/-- The frame of a message. `none` is a stop of the process: an assertion, the
check that the message is initialised, or `ByteSizeConsistencyError`. -/
def fillEmptyBuffer (buf : Buffer) (message : P.Message) : Option Buffer := do
  guard (buf.readableBytes = 0)
  let typeName := P.getTypeName message
  let nameLen := wrap32 (typeName.length + 1)
  let buf := buf.appendInt32 nameLen
  -- `c_str()` ends in a NUL, which `nameLen` counts.
  let buf := buf.append ((typeName ++ [0]).take nameLen.toNat)
  guard (P.isInitialized message)
  let byte_size := wrap32 (P.byteSize message)
  let data := P.serializeWithCachedSizesToArray message
  guard ((data.length : Int) = byte_size)
  let buf := buf.append data
  -- The length goes to zlib as an unsigned 32-bit integer.
  let checkSum := wrap32 (adler32 1 buf.peek (buf.readableBytes % 2 ^ 32))
  let buf := buf.appendInt32 checkSum
  guard ((buf.readableBytes : Int) = 4 + nameLen + byte_size + 4)
  let len := wrap32 buf.readableBytes
  buf.prepend (be32 len)

/-- `send`: the bytes it gives to the connection. -/
def send (message : P.Message) : Option Bytes := do
  let buf ← fillEmptyBuffer P .empty message
  return buf.peek

def asInt32 (buf : Bytes) : Int := readBe32 buf

def createMessage (typeName : Bytes) : Option P.Message := do
  let descriptor ← P.findMessageTypeByName typeName
  let prototype ← P.getPrototype descriptor
  return P.new prototype

/-- The body of a frame: `len` bytes from `buf` on. -/
def parse (buf : Bytes) (len : Int) : Option P.Message × ErrorCode :=
  let expectedCheckSum := asInt32 (buf.drop (len - kHeaderLen).toNat)
  let checkSum := wrap32 (adler32 1 buf (len - kHeaderLen).toNat)
  if checkSum = expectedCheckSum then
    let nameLen := asInt32 buf
    if nameLen ≥ 2 ∧ nameLen ≤ len - 2 * kHeaderLen then
      let typeName := (buf.drop kHeaderLen.toNat).take (nameLen - 1).toNat
      match createMessage P typeName with
      | some message =>
        let data := buf.drop (kHeaderLen + nameLen).toNat
        let dataLen := len - nameLen - 2 * kHeaderLen
        match P.parseFromArray message (data.take dataLen.toNat) with
        | some message => (some message, .kNoError)
        | none => (some message, .kParseError)
      | none => (none, .kUnknownMessageType)
    else (none, .kInvalidNameLen)
  else (none, .kCheckSumError)

/-- One turn of the loop in `onMessage`, up to the callback it makes: a frame
to deliver and retrieve, an error to report, or neither. -/
def turn (buf : Buffer) : Head P.Message ErrorCode :=
  if (buf.readableBytes : Int) ≥ kMinMessageLen + kHeaderLen then
    let len := buf.peekInt32
    if len > kMaxMessageLen ∨ len < kMinMessageLen then
      .bad .kInvalidLength
    else if (buf.readableBytes : Int) ≥ len + kHeaderLen then
      match parse P (buf.peek.drop kHeaderLen.toNat) len with
      | (some message, .kNoError) => .frame message (kHeaderLen + len).toNat
      | (_, errorCode) => .bad errorCode
    else .wait
  else .wait

/-- What a call of `onMessage` did: the messages given to `messageCallback_`,
the error given to `errorCallback_`, and the buffer it left. -/
structure Call where
  delivered : List P.Message
  error : Option ErrorCode
  buf : Buffer

variable {P}

/-- A frame that a turn delivers is one the buffer holds. -/
theorem turn_frame_pos {buf : Buffer} {message : P.Message} {n : Nat} (h : turn P buf = .frame message n) :
    0 < n ∧ n ≤ buf.readableBytes := by
  unfold turn at h
  split at h
  · simp only at h
    split at h
    · cases h
    split at h
    · next hlen hread =>
      split at h
      · cases h
        simp only [kHeaderLen, kMinMessageLen, kMaxMessageLen] at hlen hread ⊢
        omega
      · cases h
    · cases h
  · cases h

/-- So less is left of the buffer after it. -/
theorem turn_frame_lt {buf : Buffer} {message : P.Message} {n : Nat} (h : turn P buf = .frame message n) :
    (buf.retrieve n).readableBytes < buf.readableBytes := by
  have hpos := turn_frame_pos h
  rw [← Buffer.length_peek, ← Buffer.length_peek, Buffer.peek_retrieve, List.length_drop, Buffer.length_peek]
  omega

variable (P)

def onMessage (buf : Buffer) : Call P :=
  match _h : turn P buf with
  | .wait => ⟨[], none, buf⟩
  | .frame message n =>
    let call := onMessage (buf.retrieve n)
    { call with delivered := message :: call.delivered }
  | .bad errorCode => ⟨[], some errorCode, buf⟩
termination_by buf.readableBytes
decreasing_by exact turn_frame_lt _h

/-- The input of a connection arrives in chunks; each is appended to its
buffer and `onMessage` called. -/
def onChunks : Buffer → List Bytes → List (Call P)
  | _, [] => []
  | buf, chunk :: chunks =>
    let call := onMessage P (buf.append chunk)
    call :: onChunks call.buf chunks

end ProtobufCodec
end DictionaryServer
