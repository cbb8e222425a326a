import DeepFry.Lmdb.Index

namespace DeepFry.Lmdb
open Bytes

-- A Rust String is modelled by its UTF-8 bytes.
abbrev Str := Bytes

structure NostrEvent where
  id : Str
  pubkey : Str
  createdAt : Nat
  kind : Nat
  tags : List (List Str)
  content : Str
  sig : Str
  deriving DecidableEq, Repr

structure DecodedEvent where
  event : NostrEvent
  rawJson : Bytes
  deriving DecidableEq, Repr

-- serde_json::from_slice::<NostrEvent> and zstd decompression with a prepared dictionary.
structure Codec where
  fromSlice : Bytes → Option NostrEvent
  decompress : Bytes → Bytes → Nat → Option Bytes

-- The dictionary get_or_load answers for an id. Dictionary rows are written once, so the cached
-- answer and the stored one are the same and the cache is a function of the id.
structure DictCache where
  getOrLoad : Nat → Option Bytes

inductive PayloadError where
  | LevIdNotFound (levId : LevId)
  | UnknownTypeTag (tag : UInt8)
  | TruncatedZstdPayload (len : Nat)
  | DictNotFound (dictId : Nat)
  | ZstdError
  | JsonDecode
  deriving DecidableEq, Repr

def PAYLOAD_TAG_RAW_JSON : UInt8 := 0x00
def PAYLOAD_TAG_ZSTD_DICT : UInt8 := 0x01
def MAX_EVENT_DECOMPRESSED_SIZE : Nat := 4 * 1024 * 1024

def decodeJson (codec : Codec) (json : Bytes) : Except PayloadError DecodedEvent :=
  match codec.fromSlice json with
  | some event => .ok ⟨event,json⟩
  | none => .error .JsonDecode

def decodeEventPayloadWithCache (codec : Codec) (raw : Bytes) (dictCache : DictCache) :
    Except PayloadError DecodedEvent :=
  match raw with
  | [] => .error (.UnknownTypeTag 0)
  | tag :: body =>
    if tag = PAYLOAD_TAG_RAW_JSON then decodeJson codec body
    else if tag = PAYLOAD_TAG_ZSTD_DICT then
      if raw.length < 5 then .error (.TruncatedZstdPayload raw.length)
      else
        let dictId := fromLe (body.take 4)
        match dictCache.getOrLoad dictId with
        | none => .error (.DictNotFound dictId)
        | some dictionary =>
          match codec.decompress dictionary (body.drop 4) MAX_EVENT_DECOMPRESSED_SIZE with
          | none => .error .ZstdError
          | some json => decodeJson codec json
    else .error (.UnknownTypeTag tag)

def getEventPayload (env : Env) (levId : LevId) : Except PayloadError Bytes :=
  match env.eventPayload levId with
  | some raw => .ok raw
  | none => .error (.LevIdNotFound levId)

-- One read transaction for the whole batch; the first missing levId fails it.
def batchGetEventPayloads (env : Env) : List LevId → Except PayloadError (List (LevId × Bytes))
  | [] => .ok []
  | levId :: rest => do
    let raw ← getEventPayload env levId
    let tail ← batchGetEventPayloads env rest
    return (levId,raw) :: tail

end DeepFry.Lmdb
