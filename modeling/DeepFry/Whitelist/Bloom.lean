import DeepFry.Lib.Stream
import DeepFry.Whitelist.Pubkey

namespace DeepFry.Whitelist

-- What bloom.go uses of the bloom library. The length of a slice is an int.
structure Library (B : Type) where
  newWithEstimates : Nat → UInt64 → B
  add : B → Bytes → B
  test : B → Bytes → Bool
  marshalBinary : B → Except Str Bytes
  unmarshalBinary : Bytes → Except Str B
  sliced : ∀ bf payload, marshalBinary bf = .ok payload → payload.length < 2^63

-- What is documented of it: no false negative, and a binary form that is read back as it was.
structure Library.Lawful {B : Type} (lib : Library B) : Prop where
  added : ∀ bf k, lib.test (lib.add bf k) k = true
  kept : ∀ bf k other, lib.test bf k = true → lib.test (lib.add bf other) k = true
  inverts : ∀ bf payload, lib.marshalBinary bf = .ok payload → lib.unmarshalBinary payload = .ok bf

def magic : Bytes := Bytes.text "DFBF"

def formatVersion : UInt8 := 1

def maxPayloadBytes : Nat := 2^30

-- A rate is held by the bits of its float64: those of the numbers strictly between 0 and 1 lie strictly between those of 0 and of 1.
def validRate (fp : UInt64) : Bool := decide (0 < fp ∧ fp < 0x3FF0000000000000)

structure Builder (B : Type) where
  bf : B
  fp : UInt64

structure Filter (B : Type) where
  bf : B
  fp : UInt64
  gen : Bytes32
  payload : Bytes

inductive ReadError where
  | truncated (context : Str)
  | badMagic (found : Bytes)
  | unsupportedVersion (version : UInt8)
  | invalidRate (fp : UInt64)
  | payloadTooLong (payloadLen : Nat)
  | library (error : Str)
deriving DecidableEq

inductive Sentinel where
  | ErrBadFormat
  | ErrTruncated
  | ErrUnsupportedVersion
deriving DecidableEq

-- The sentinel that errors.Is finds.
def ReadError.wraps : ReadError → Option Sentinel
  | .truncated _ => some .ErrTruncated
  | .badMagic _ => some .ErrBadFormat
  | .unsupportedVersion _ => some .ErrUnsupportedVersion
  | .invalidRate _ => some .ErrBadFormat
  | .payloadTooLong _ => some .ErrBadFormat
  | .library _ => none

section Codec
variable {B : Type} (lib : Library B) (sha256 : Bytes → Bytes32)

def newBuilder (n : Nat) (fp : UInt64) : Builder B := ⟨lib.newWithEstimates n fp,fp⟩

def Builder.add (b : Builder B) (k : Bytes32) : Builder B := { b with bf := lib.add b.bf k.bytes }

def Builder.build (b : Builder B) : Except Str (Filter B) :=
  match lib.marshalBinary b.bf with
  | .error error => .error (Bytes.text "bloom: Build: MarshalBinary: " ++ error)
  | .ok payload => .ok ⟨b.bf,b.fp,sha256 payload,payload⟩

def Filter.contains (f : Filter B) (k : Bytes) : Bool := lib.test f.bf k

def Filter.containsHex (unicode : Unicode) (f : Filter B) (s : Str) : Answer := lookup unicode (f.contains lib) s

def Filter.etag (f : Filter B) : Str := [34] ++ Bytes.hexEncode f.gen.bytes ++ [34]

def Filter.writeTo (f : Filter B) : Bytes :=
  magic ++ ([formatVersion] ++ (Stream.toBe 8 f.fp.toNat ++ (f.gen.bytes ++ (Stream.toBe 8 f.payload.length ++ f.payload))))

-- The filter, or why there is none, and what is left of the stream.
def readFilter (stream : Bytes) : Except ReadError (Filter B) × Bytes :=
  match Stream.readFull 4 stream with
  | (none,stream) => (.error (.truncated (Bytes.text "read magic")),stream)
  | (some magicBuf,stream) =>
    if magicBuf.val ≠ magic then (.error (.badMagic magicBuf.val),stream)
    else match Stream.readFull 1 stream with
    | (none,stream) => (.error (.truncated (Bytes.text "read version")),stream)
    | (some ver,stream) =>
      if ver.val ≠ [formatVersion] then (.error (.unsupportedVersion (ver.val.headD 0)),stream)
      else match Stream.readFull 8 stream with
      | (none,stream) => (.error (.truncated (Bytes.text "read fpRate")),stream)
      | (some fpBits,stream) =>
        let fp := UInt64.ofNat (Stream.fromBe fpBits.val)
        if validRate fp = false then (.error (.invalidRate fp),stream)
        else match Stream.readFull 32 stream with
        | (none,stream) => (.error (.truncated (Bytes.text "read gen")),stream)
        | (some gen,stream) =>
          match Stream.readFull 8 stream with
          | (none,stream) => (.error (.truncated (Bytes.text "read payloadLen")),stream)
          | (some length,stream) =>
            let payloadLen := Stream.fromBe length.val
            if payloadLen > maxPayloadBytes then (.error (.payloadTooLong payloadLen),stream)
            else match Stream.readFull payloadLen stream with
            | (none,stream) => (.error (.truncated (Bytes.text "read payload")),stream)
            | (some payload,stream) =>
              match lib.unmarshalBinary payload.val with
              | .error error => (.error (.library error),stream)
              | .ok bf => (.ok ⟨bf,fp,⟨gen.val,gen.property⟩,payload.val⟩,stream)

end Codec

section Reading
variable {B : Type} {lib : Library B} {f : Filter B} {stream rest : Bytes}

-- What is written is read back with whatever follows it.
theorem readFilter_writeTo (valid : validRate f.fp = true) (fits : f.payload.length ≤ maxPayloadBytes)
    (readable : lib.unmarshalBinary f.payload = .ok f.bf) (rest : Bytes) : readFilter lib (f.writeTo ++ rest) = (.ok f,rest) := by
  have rate : UInt64.ofNat (Stream.fromBe (Stream.toBe 8 f.fp.toNat)) = f.fp := by
    rw [Stream.fromBe_exact (UInt64.toNat_lt f.fp),UInt64.ofNat_toNat]
  have length : Stream.fromBe (Stream.toBe 8 f.payload.length) = f.payload.length := by
    apply Stream.fromBe_exact
    unfold maxPayloadBytes at fits
    omega
  unfold readFilter Filter.writeTo
  simp only [List.append_assoc]
  rw [Stream.readFull_append (show magic.length = 4 by decide)]
  dsimp only
  rw [if_neg (not_not.mpr rfl),Stream.readFull_append (show [formatVersion].length = 1 from rfl)]
  dsimp only
  rw [if_neg (not_not.mpr rfl),Stream.readFull_append (Stream.toBe_length 8 f.fp.toNat)]
  dsimp only
  rw [rate,valid,if_neg (show ¬ true = false from nofun),Stream.readFull_append f.gen.size]
  dsimp only
  rw [Stream.readFull_append (Stream.toBe_length 8 f.payload.length)]
  dsimp only
  generalize Stream.fromBe (Stream.toBe 8 f.payload.length) = declared at length
  subst length
  rw [if_neg (by omega),Stream.readFull_append rfl]
  dsimp only
  rw [readable]

-- An accepted stream begins with what the filter would write.
theorem readFilter_ok (read : readFilter lib stream = (.ok f,rest)) : stream = f.writeTo ++ rest ∧ validRate f.fp = true ∧
    f.payload.length ≤ maxPayloadBytes ∧ lib.unmarshalBinary f.payload = .ok f.bf := by
  unfold readFilter at read
  split at read
  · cases read
  · rename_i magicBuf _ first
    split at read
    · cases read
    rename_i named
    split at read
    · cases read
    rename_i ver _ second
    split at read
    · cases read
    rename_i versioned
    split at read
    · cases read
    rename_i fpBits _ third
    dsimp only at read
    split at read
    · cases read
    rename_i rate
    split at read
    · cases read
    rename_i gen _ fourth
    split at read
    · cases read
    rename_i length _ fifth
    split at read
    · cases read
    rename_i capped
    split at read
    · cases read
    rename_i payload _ sixth
    split at read
    · cases read
    · rename_i readable
      cases read
      have bits := Stream.fromBe_bound fpBits.property
      have whole : (UInt64.ofNat (Stream.fromBe fpBits.val)).toNat = Stream.fromBe fpBits.val := by
        rw [UInt64.toNat_ofNat']
        exact Nat.mod_eq_of_lt bits
      refine ⟨?_,Bool.eq_true_of_not_eq_false rate,?_,readable⟩
      · unfold Filter.writeTo
        dsimp only
        rw [Stream.readFull_some first,Stream.readFull_some second,Stream.readFull_some third,Stream.readFull_some fourth,
          Stream.readFull_some fifth,Stream.readFull_some sixth,not_not.mp named,not_not.mp versioned,whole,
          Stream.toBe_fromBe fpBits.property,payload.property,Stream.toBe_fromBe length.property]
        simp only [List.append_assoc]
      · dsimp only
        rw [payload.property]
        exact not_lt.mp capped

-- The written form of a filter determines its rate, its marker and its payload.
theorem writeTo_injective {g : Filter B} (left : f.payload.length < 2^63) (right : g.payload.length < 2^63)
    (same : f.writeTo ++ rest = g.writeTo) : f.fp = g.fp ∧ f.gen = g.gen ∧ f.payload = g.payload := by
  unfold Filter.writeTo at same
  simp only [List.append_assoc] at same
  have same := List.append_cancel_left (List.append_cancel_left same)
  obtain ⟨rate,same⟩ := List.append_inj same (by rw [Stream.toBe_length,Stream.toBe_length])
  obtain ⟨gen,same⟩ := List.append_inj same (by rw [f.gen.size,g.gen.size])
  obtain ⟨length,same⟩ := List.append_inj same (by rw [Stream.toBe_length,Stream.toBe_length])
  have rate : f.fp.toNat = g.fp.toNat := by
    have read := congrArg Stream.fromBe rate
    rwa [Stream.fromBe_exact (UInt64.toNat_lt f.fp),Stream.fromBe_exact (UInt64.toNat_lt g.fp)] at read
  have length : f.payload.length = g.payload.length := by
    have read := congrArg Stream.fromBe length
    rwa [Stream.fromBe_exact (by omega),Stream.fromBe_exact (by omega)] at read
  have payload := (List.append_inj (same.trans (List.append_nil _).symm) length).1
  refine ⟨UInt64.toNat_inj.mp rate,?_,payload⟩
  cases whole : f.gen with
  | mk bytes size =>
    cases other : g.gen with
    | mk bytes' size' =>
      rw [whole,other] at gen
      dsimp only at gen
      subst gen
      rfl

theorem etag_injective {g : Filter B} (same : f.etag = g.etag) : f.gen.bytes = g.gen.bytes := by
  unfold Filter.etag at same
  have digits := List.append_cancel_left (List.append_cancel_right same)
  have read := congrArg Bytes.decodeHex digits
  rw [Bytes.decodeHex_hexEncode,Bytes.decodeHex_hexEncode] at read
  exact Option.some.inj read

end Reading

end DeepFry.Whitelist
