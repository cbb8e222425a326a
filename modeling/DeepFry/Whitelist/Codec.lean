import DeepFry.Lib.Float64
import DeepFry.Whitelist.Membership

namespace DeepFry.Whitelist
open DeepFry.Stream

-- The checks on the rate accept the numbers strictly between 0 and 1.
theorem validRate_value (fp : UInt64) : validRate fp = true ↔ ∃ q, Float64.value fp = some q ∧ 0 < q ∧ q < 1 := by
  rw [← Float64.value_between,validRate,decide_eq_true_iff]

def headerBytes : Nat := 53

-- The payload length that a header declares.
def declared (stream : Bytes) : Nat := fromBe ((stream.drop 45).take 8)

section Streams
variable {B : Type} {lib : Library B} {f : Filter B}

-- A stream that ends inside an encoding is truncated, whatever field it ends in.
theorem readFilter_cut (valid : validRate f.fp = true) (fits : f.payload.length ≤ maxPayloadBytes) {k : Nat}
    (short : k < f.writeTo.length) : ∃ context, readFilter lib (f.writeTo.take k) = (.error (.truncated context),[]) := by
  have rate : UInt64.ofNat (fromBe (toBe 8 f.fp.toNat)) = f.fp := by
    rw [fromBe_exact (UInt64.toNat_lt f.fp),UInt64.ofNat_toNat]
  have length : fromBe (toBe 8 f.payload.length) = f.payload.length := by
    apply fromBe_exact
    unfold maxPayloadBytes at fits
    omega
  have size : f.writeTo.length = 53 + f.payload.length := by
    unfold Filter.writeTo
    simp only [List.length_append,toBe_length,f.gen.size,List.length_singleton]
    have four : magic.length = 4 := by decide
    omega
  rw [size] at short
  unfold readFilter Filter.writeTo
  rw [readFull_cut (show magic.length = 4 by decide)]
  by_cases one : k < 4
  · rw [if_pos one]
    exact ⟨_,rfl⟩
  rw [if_neg one]
  dsimp only
  rw [if_neg (not_not.mpr rfl),readFull_cut (show [formatVersion].length = 1 from rfl)]
  by_cases two : k - 4 < 1
  · rw [if_pos two]
    exact ⟨_,rfl⟩
  rw [if_neg two]
  dsimp only
  rw [if_neg (not_not.mpr rfl),readFull_cut (toBe_length 8 f.fp.toNat)]
  by_cases three : k - 4 - 1 < 8
  · rw [if_pos three]
    exact ⟨_,rfl⟩
  rw [if_neg three]
  dsimp only
  rw [rate,valid,if_neg (show ¬ true = false from Bool.noConfusion),readFull_cut f.gen.size]
  by_cases four : k - 4 - 1 - 8 < 32
  · rw [if_pos four]
    exact ⟨_,rfl⟩
  rw [if_neg four]
  dsimp only
  rw [readFull_cut (toBe_length 8 f.payload.length)]
  by_cases five : k - 4 - 1 - 8 - 32 < 8
  · rw [if_pos five]
    exact ⟨_,rfl⟩
  rw [if_neg five]
  dsimp only
  generalize fromBe (toBe 8 f.payload.length) = declared at length
  subst length
  have cut : (f.payload.take (k - 4 - 1 - 8 - 32 - 8)).length < f.payload.length := by
    rw [List.length_take]
    omega
  rw [if_neg (by omega),readFull_short cut]
  exact ⟨_,rfl⟩

theorem declared_parts {magicBuf ver fpBits gen length : Bytes} (one : magicBuf.length = 4) (two : ver.length = 1)
    (three : fpBits.length = 8) (four : gen.length = 32) (five : length.length = 8) (rest : Bytes) :
    declared (magicBuf ++ (ver ++ (fpBits ++ (gen ++ (length ++ rest))))) = fromBe length := by
  have front : magicBuf ++ (ver ++ (fpBits ++ (gen ++ (length ++ rest)))) =
      (magicBuf ++ (ver ++ (fpBits ++ gen))) ++ (length ++ rest) := by simp only [List.append_assoc]
  have size : (magicBuf ++ (ver ++ (fpBits ++ gen))).length = 45 := by
    simp only [List.length_append]
    omega
  unfold declared
  rw [front,List.drop_left' size,List.take_left' five]

-- No stream makes the reader go past its header and the declared payload, nor past the cap.
theorem readFilter_within (lib : Library B) (stream : Bytes) :
    Within (headerBytes + min (declared stream) maxPayloadBytes) stream (readFilter lib stream).2 := by
  unfold headerBytes readFilter
  split
  · rename_i first
    exact (readFull_within first).mono (by omega)
  rename_i magicBuf _ first
  have one := readFull_within first
  split
  · exact one.mono (by omega)
  split
  · rename_i second
    exact (one.trans (readFull_within second)).mono (by omega)
  rename_i ver _ second
  have two := one.trans (readFull_within second)
  split
  · exact two.mono (by omega)
  split
  · rename_i third
    exact (two.trans (readFull_within third)).mono (by omega)
  rename_i fpBits _ third
  have three := two.trans (readFull_within third)
  dsimp only
  split
  · exact three.mono (by omega)
  split
  · rename_i fourth
    exact (three.trans (readFull_within fourth)).mono (by omega)
  rename_i gen _ fourth
  have four := three.trans (readFull_within fourth)
  split
  · rename_i fifth
    exact (four.trans (readFull_within fifth)).mono (by omega)
  rename_i length later fifth
  have five := four.trans (readFull_within fifth)
  have told : declared stream = fromBe length.val := by
    rw [readFull_some first,readFull_some second,readFull_some third,readFull_some fourth,readFull_some fifth]
    exact declared_parts magicBuf.property ver.property fpBits.property gen.property length.property later
  rw [told]
  split
  · exact five.mono (by omega)
  rename_i capped
  rw [min_eq_left (not_lt.mp capped)]
  split
  · rename_i sixth
    exact five.trans (readFull_within sixth)
  · rename_i sixth
    have six := five.trans (readFull_within sixth)
    split <;> exact six

-- What is assumed of the library's binary form: it is read back as a filter with the same members.
def Library.RoundTrips (lib : Library B) : Prop :=
  ∀ bf payload, lib.marshalBinary bf = .ok payload → ∃ again, lib.unmarshalBinary payload = .ok again ∧ lib.test again = lib.test bf

theorem build_parts {sha256 : Bytes → Bytes32} {b : Builder B} (built : b.build lib sha256 = .ok f) :
    f.fp = b.fp ∧ lib.marshalBinary f.bf = .ok f.payload := by
  unfold Builder.build at built
  split at built
  · cases built
  · rename_i payload marshalled
    cases built
    exact ⟨rfl,marshalled⟩

theorem dfbf_codec (lib : Library B) (sha256 : Bytes → Bytes32) (roundTrips : lib.RoundTrips) :
    (∀ (b : Builder B) (f : Filter B), b.build lib sha256 = .ok f → (∃ q, Float64.value b.fp = some q ∧ 0 < q ∧ q < 1) →
      f.payload.length ≤ maxPayloadBytes →
      (∀ rest, ∃ g, readFilter lib (f.writeTo ++ rest) = (.ok g,rest) ∧ g.fp = f.fp ∧ g.gen = f.gen ∧ g.payload = f.payload ∧
        ∀ k, g.contains lib k = f.contains lib k) ∧
      ∀ k < f.writeTo.length, ∃ error, readFilter lib (f.writeTo.take k) = (.error error,[]) ∧
        error.wraps = some .ErrTruncated) ∧
    (∀ stream f rest, readFilter lib stream = (.ok f,rest) → stream = f.writeTo ++ rest) ∧
    ∀ stream, Within (headerBytes + min (declared stream) maxPayloadBytes) stream (readFilter lib stream).2 := by
  refine ⟨?_,?_,readFilter_within lib⟩
  · intro b f built rate fits
    obtain ⟨same,marshalled⟩ := build_parts built
    rw [← same,← validRate_value] at rate
    constructor
    · intro rest
      obtain ⟨again,readable,members⟩ := roundTrips f.bf f.payload marshalled
      have read := @readFilter_writeTo B lib ⟨again,f.fp,f.gen,f.payload⟩ rate fits readable rest
      refine ⟨_,read,rfl,rfl,rfl,?_⟩
      intro k
      exact congrFun members k
    · intro k short
      obtain ⟨context,cut⟩ := @readFilter_cut B lib f rate fits k short
      exact ⟨_,cut,rfl⟩
  · intro stream f rest read
    exact (readFilter_ok read).1

end Streams

theorem setLibrary_roundTrips : setLibrary.RoundTrips :=
  fun bf payload marshalled => ⟨bf,setLibrary_lawful.inverts bf payload marshalled,rfl⟩

-- The filter of one key is read back in front of other bytes, and is not read from all of its bytes but the last.
theorem dfbf_codec_one : ∃ f g, ((newBuilder setLibrary 1 millionth).add setLibrary oneKey).build setLibrary firstBytes = .ok f ∧
    readFilter setLibrary (f.writeTo ++ [7]) = (.ok g,[7]) ∧ g.contains setLibrary oneKey.bytes = true ∧
    ∃ error, readFilter setLibrary (f.writeTo.take 52) = (.error error,[]) ∧ error.wraps = some .ErrTruncated := by
  obtain ⟨reads,_,_⟩ := dfbf_codec setLibrary firstBytes setLibrary_roundTrips
  obtain ⟨f,built,fits,member,long⟩ : ∃ f, ((newBuilder setLibrary 1 millionth).add setLibrary oneKey).build setLibrary firstBytes = .ok f ∧
      f.payload.length ≤ maxPayloadBytes ∧ f.contains setLibrary oneKey.bytes = true ∧ 52 < f.writeTo.length :=
    ⟨_,rfl,by decide +kernel,by decide +kernel,by decide +kernel⟩
  have rate := (validRate_value millionth).mp (by decide)
  obtain ⟨whole,cut⟩ := reads _ f built rate fits
  obtain ⟨g,read,_,_,_,members⟩ := whole [7]
  exact ⟨f,g,built,read,(members oneKey.bytes).trans member,cut 52 long⟩

end DeepFry.Whitelist
