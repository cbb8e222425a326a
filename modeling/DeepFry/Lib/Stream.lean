import DeepFry.Lib.Bytes

namespace DeepFry.Stream

-- Library layer: a reader of a finite byte stream, big-endian words, and runs of little-endian words.

theorem take_size {stream : Bytes} {n : Nat} (enough : n ≤ stream.length) : (stream.take n).length = n := by
  rw [List.length_take,Nat.min_eq_left enough]

-- All of the bytes or none; what is left of a short stream is nothing.
def readFull (n : Nat) (stream : Bytes) : Option { bytes : Bytes // bytes.length = n } × Bytes :=
  (if enough : n ≤ stream.length then some ⟨stream.take n,take_size enough⟩ else none,stream.drop n)

theorem readFull_append {n : Nat} {bytes : Bytes} (size : bytes.length = n) (rest : Bytes) :
    readFull n (bytes ++ rest) = (some ⟨bytes,size⟩,rest) := by
  subst size
  unfold readFull
  have enough : bytes.length ≤ (bytes ++ rest).length := by
    rw [List.length_append]
    omega
  rw [dif_pos enough,List.drop_left]
  congr 2
  exact Subtype.ext List.take_left

theorem readFull_some {n : Nat} {stream rest : Bytes} {bytes : { bytes : Bytes // bytes.length = n }}
    (read : readFull n stream = (some bytes,rest)) : stream = bytes.val ++ rest := by
  unfold readFull at read
  obtain ⟨first,rfl⟩ := Prod.mk.inj read
  split at first
  · obtain rfl := Option.some.inj first
    exact (List.take_append_drop n stream).symm
  · cases first

theorem readFull_short {n : Nat} {stream : Bytes} (short : stream.length < n) : readFull n stream = (none,[]) := by
  unfold readFull
  rw [dif_neg (by omega),List.drop_eq_nil_of_le short.le]

-- A stream that ends inside the bytes or after them.
theorem readFull_cut {n : Nat} {bytes : Bytes} (size : bytes.length = n) (rest : Bytes) (k : Nat) :
    readFull n ((bytes ++ rest).take k) = if k < n then (none,[]) else (some ⟨bytes,size⟩,rest.take (k - n)) := by
  split
  · apply readFull_short
    rw [List.length_take]
    omega
  · subst size
    rw [List.take_append,List.take_of_length_le (by omega)]
    exact readFull_append rfl _

-- A reader went over at most so many bytes.
def Within (limit : Nat) (stream rest : Bytes) : Prop := ∃ used, stream = used ++ rest ∧ used.length ≤ limit

theorem Within.mono {few many : Nat} {stream rest : Bytes} (within : Within few stream rest) (more : few ≤ many) :
    Within many stream rest := by
  obtain ⟨used,split,size⟩ := within
  exact ⟨used,split,size.trans more⟩

theorem Within.trans {first second : Nat} {stream middle rest : Bytes} (before : Within first stream middle)
    (after : Within second middle rest) : Within (first + second) stream rest := by
  obtain ⟨used,split,size⟩ := before
  obtain ⟨more,again,length⟩ := after
  refine ⟨used ++ more,?_,?_⟩
  · rw [split,again,List.append_assoc]
  · rw [List.length_append]
    omega

theorem readFull_within {n : Nat} {stream rest : Bytes} {answer : Option { bytes : Bytes // bytes.length = n }}
    (read : readFull n stream = (answer,rest)) : Within n stream rest := by
  cases read
  exact ⟨stream.take n,(List.take_append_drop n stream).symm,List.length_take_le n stream⟩

def toBe (width n : Nat) : Bytes := (Bytes.toLe width n).reverse

def fromBe (bytes : Bytes) : Nat := Bytes.fromLe bytes.reverse

theorem toBe_length (width n : Nat) : (toBe width n).length = width := by
  unfold toBe
  rw [List.length_reverse,Bytes.toLe_length]

theorem fromBe_exact {width n : Nat} (small : n < 256^width) : fromBe (toBe width n) = n := by
  unfold fromBe toBe
  rw [List.reverse_reverse,Bytes.fromLe_exact small]

theorem toBe_fromBe {width : Nat} {bytes : Bytes} (size : bytes.length = width) : toBe width (fromBe bytes) = bytes := by
  subst size
  have same := Bytes.toLe_fromLe bytes.reverse
  rw [List.length_reverse] at same
  unfold toBe fromBe
  rw [same,List.reverse_reverse]

theorem fromBe_bound {width : Nat} {bytes : Bytes} (size : bytes.length = width) : fromBe bytes < 256^width := by
  subst size
  have bound := Bytes.fromLe_bound bytes.reverse
  rwa [List.length_reverse] at bound

-- A run of little-endian words of one width from the head of a stream.
def readWords (width : Nat) : Nat → Bytes → List Nat
  | 0,_ => []
  | count+1,bytes => Bytes.fromLe (bytes.take width) :: readWords width count (bytes.drop width)

theorem readWords_flatMap {α : Type} {width : Nat} {write : α → Bytes} (size : ∀ value, (write value).length = width)
    (values : List α) (rest : Bytes) : readWords width values.length (values.flatMap write ++ rest) =
      values.map fun value => Bytes.fromLe (write value) := by
  induction values with
  | nil => rfl
  | cons value values ih =>
    rw [List.length_cons,readWords,List.flatMap_cons,List.append_assoc,List.take_left' (size value),
      List.drop_left' (size value),ih,List.map_cons]

theorem flatMap_size {α : Type} {width : Nat} {write : α → Bytes} (size : ∀ value, (write value).length = width)
    (values : List α) : (values.flatMap write).length = values.length * width := by
  induction values with
  | nil => simp
  | cons value values ih =>
    rw [List.flatMap_cons,List.length_append,ih,size,List.length_cons]
    ring

theorem readWords_bytes (bytes rest : Bytes) : readWords 1 bytes.length (bytes ++ rest) = bytes.map UInt8.toNat := by
  have apart : bytes = bytes.flatMap fun byte => [byte] := by simp
  have read := readWords_flatMap (fun byte : UInt8 => (rfl : [byte].length = 1)) bytes rest
  rw [← apart] at read
  rw [read]
  simp [Bytes.fromLe]

end DeepFry.Stream
