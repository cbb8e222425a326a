import DeepFry.Lib.Buffered
import DeepFry.Lib.Decimal
import DeepFry.Lib.JsonText
import DeepFry.SpamExplorer.Explore

namespace DeepFry.SpamExplorer.Output
open Buffered

-- The size of a bufio writer.
def bufferSize : Nat := 4096

def newline : UInt8 := 10

-- Record in JSON; the fields are named by their tags.
def json (rec : Record) : Bytes :=
  [123] ++ JsonText.quoted (Bytes.text "pubkey") ++ [58] ++ JsonText.quoted rec.pubkey ++ [44] ++
    JsonText.quoted (Bytes.text "valid_follower_count") ++ [58] ++ Bytes.digits rec.validFollowerCount ++ [125]

-- What one Encode writes, in one write.
def line (rec : Record) : Bytes := json rec ++ [newline]

-- Where the file lies: creating it empties it, a failed write takes only the first bytes, and a failed close may lose the last ones.
structure Device (δ : Type) where
  create : Str → Option δ
  write : Sink δ
  close : Bytes → Bytes × Option δ
  lost : ∀ content, (close content).1 <+: content
  kept : ∀ content, (close content).2 = none → (close content).1 = content

-- What is in the file in the end, and what Write returns.
structure Emitted (δ : Type) where
  file : Bytes
  emitted : Nat
  err : Option (WriteError δ)

variable {δ : Type}

def emitAll (device : Device δ) : Writer δ → Nat → List Record → Writer δ × Nat × Option (WriteError δ)
  | w,emitted,[] => (w,emitted,none)
  | w,emitted,rec :: rest =>
    let next := w.write device.write bufferSize (line rec)
    match next.err with
    | some err => (next,emitted,some (.encode rec.pubkey err))
    | none => emitAll device next (emitted + 1) rest

-- The deferred Flush and then the deferred Close, the errors of both dropped.
def emit (device : Device δ) (path : Str) (records : List Record) : Emitted δ :=
  match device.create path with
  | some err => ⟨[],0,some (.create path err)⟩
  | none =>
    let (w,emitted,err) := emitAll device Writer.empty 0 records
    ⟨(device.close (w.flush device.write).content).1,emitted,err⟩

def output (device : Device δ) (sorter : SortSlice) (order : Tally.Order (Σ _ : Str, Nat)) (path : Str) (scored levels : Table Nat)
    (pubkeys : Table Str) (threshold k : Int) : Emitted δ :=
  emit device path (sorter.sort (collected order scored levels pubkeys threshold k))

-- All of the records stand in the file, by pubkey and one a line.
def Complete (collected : List Record) (emitted : Nat) (file : Bytes) : Prop :=
  ∃ records : List Record, records.Perm collected ∧ (records.Pairwise fun a b => a.pubkey ≤ b.pubkey) ∧ emitted = records.length ∧
    file.splitOn newline = records.map json ++ [[]]

-- The blocks the lines fill before the end, and what they leave in the buffer.
def blocks (records : List Record) : List Bytes := (cutAll bufferSize [] (records.map line)).1

def left (records : List Record) : Bytes := (cutAll bufferSize [] (records.map line)).2

def text (records : List Record) : Bytes := (records.map line).flatten

-- A write fails while there are records to encode.
def Noticed (device : Device δ) (records : List Record) : Prop :=
  ∃ i block n e, (blocks records)[i]? = some block ∧ device.write i block = some (n,e)

-- What is left in the buffer reaches the file whole, and stays there when it is closed.
def Landed (device : Device δ) (records : List Record) : Prop :=
  (∀ n e, device.write (blocks records).length (left records) = some (n,e) → (left records).length ≤ n) ∧
    (device.close (text records)).1 = text records

theorem json_plain (rec : Record) : ∀ x ∈ json rec, 32 ≤ x := by
  intro x member
  have numeral : ∀ y ∈ Bytes.digits rec.validFollowerCount, 32 ≤ y := by
    intro y listed
    obtain ⟨c,digit,rfl⟩ := List.mem_map.mp listed
    exact le_trans (by decide) (Decimal.digit_byte (Nat.isDigit_of_mem_toDigits (b := 10) (by decide) (by decide) digit)).1
  simp only [json,List.mem_append,List.mem_singleton] at member
  obtain (((((((rfl | key) | rfl) | value) | rfl) | key) | rfl) | digit) | rfl := member
  · decide
  · exact JsonText.quoted_plain _ x key
  · decide
  · exact JsonText.quoted_plain _ x value
  · decide
  · exact JsonText.quoted_plain _ x key
  · decide
  · exact numeral x digit
  · decide

theorem text_lines (records : List Record) : text records = [newline].intercalate (records.map json ++ [[]]) := by
  induction records with
  | nil => rfl
  | cons rec records ih =>
    unfold text at ih ⊢
    have more : records.map json ++ [[]] ≠ [] := by simp
    obtain ⟨next,rest,split⟩ := List.exists_cons_of_ne_nil more
    rw [List.map_cons,List.flatten_cons,ih,List.map_cons,List.cons_append,split,List.intercalate_cons_cons,line]

-- The lines of a file are the records' exactly when it is their text.
theorem lines_iff (file : Bytes) (records : List Record) : file.splitOn newline = records.map json ++ [[]] ↔ file = text records := by
  constructor
  · intro same
    rw [text_lines,← same,List.intercalate_splitOn]
  · intro same
    rw [same,text_lines,List.splitOn_intercalate]
    · intro part member inside
      obtain listed | last := List.mem_append.mp member
      · obtain ⟨rec,_,rfl⟩ := List.mem_map.mp listed
        exact absurd (json_plain rec newline inside) (by decide)
      · rw [List.mem_singleton.mp last] at inside
        cases inside
    · simp

theorem blocks_text (records : List Record) : (blocks records).flatten ++ left records = text records :=
  cutAll_flatten bufferSize [] (records.map line)

theorem emitAll_passed (device : Device δ) {w : Writer δ} (clean : w.err = none) (emitted : Nat) (records : List Record) :
    Writer.Passed device.write w (emitAll device w emitted records).1 (cutAll bufferSize w.buf (records.map line)).1
        (cutAll bufferSize w.buf (records.map line)).2 ∧
      ((emitAll device w emitted records).2.2 = none ↔ (emitAll device w emitted records).1.err = none) ∧
      ((emitAll device w emitted records).2.2 = none → (emitAll device w emitted records).2.1 = emitted + records.length) := by
  induction records generalizing w emitted with
  | nil => exact ⟨.refl device.write clean,⟨fun _ => clean,fun _ => rfl⟩,fun _ => rfl⟩
  | cons rec rest ih =>
    have written := Writer.write_passed device.write bufferSize w (line rec) clean
    rw [emitAll,List.map_cons,cutAll]
    cases failed : (w.write device.write bufferSize (line rec)).err with
    | some err =>
      dsimp only
      refine ⟨written.stop (by rw [failed]; exact Option.some_ne_none err) _ _,?_,fun none => by cases none⟩
      simp [failed]
    | none =>
      obtain ⟨passed,same,counted⟩ := ih failed (emitted + 1)
      rw [(written.held (written.err.symm.trans failed)).2] at passed
      refine ⟨written.trans failed passed,same,?_⟩
      intro ended
      rw [counted ended,List.length_cons]
      omega

-- The records are all encoded unless the write of a block they fill fails.
theorem emitAll_noticed (device : Device δ) (records : List Record) :
    (emitAll device Writer.empty 0 records).2.2 = none ↔ ¬ Noticed device records := by
  obtain ⟨passed,same,_⟩ := emitAll_passed device (w := Writer.empty) rfl 0 records
  have failures : (deliver device.write 0 (blocks records)).2 ≠ none ↔
      ∃ i block n e, (blocks records)[i]? = some block ∧ device.write (0 + i) block = some (n,e) := deliver_failure 0 (blocks records)
  simp only [Nat.zero_add] at failures
  rw [same,passed.err,← not_iff_not,not_not]
  exact failures

theorem emit_create {device : Device δ} {path : Str} {err : δ} (failed : device.create path = some err) (records : List Record) :
    (emit device path records).err ≠ none := by
  rw [emit,failed]
  exact Option.some_ne_none _

theorem emit_noticed {device : Device δ} {path : Str} (created : device.create path = none) (records : List Record) :
    (emit device path records).err = none ↔ ¬ Noticed device records := by
  rw [← emitAll_noticed,emit,created]

-- What is in the file when it is closed, without an error seen: the last block as far as it was taken.
def flushed (device : Device δ) (records : List Record) : Bytes :=
  (blocks records).flatten ++ (deliver device.write (blocks records).length (tail (left records))).1

theorem flushed_prefix (device : Device δ) (records : List Record) : flushed device records <+: text records := by
  have reached : (deliver device.write (blocks records).length (tail (left records))).1 <+: (tail (left records)).flatten :=
    deliver_prefix _ _
  rw [tail_flatten] at reached
  rw [flushed,← blocks_text]
  exact (List.prefix_append_right_inj _).mpr reached

theorem flushed_whole (device : Device δ) (records : List Record) : flushed device records = text records ↔
    ∀ n e, device.write (blocks records).length (left records) = some (n,e) → (left records).length ≤ n := by
  rw [flushed,← blocks_text,← deliver_tail]
  exact List.append_right_inj _

theorem emit_unseen {device : Device δ} {path : Str} (created : device.create path = none) {records : List Record}
    (unseen : ¬ Noticed device records) :
    (emit device path records).emitted = records.length ∧ (emit device path records).file = (device.close (flushed device records)).1 := by
  obtain ⟨passed,same,counted⟩ := emitAll_passed device (w := Writer.empty) rfl 0 records
  have ended := (emitAll_noticed device records).mpr unseen
  have clean := same.mp ended
  have taken := passed.err.symm.trans clean
  obtain ⟨calls,buffer⟩ := passed.held taken
  have content := (Writer.flush_passed device.write _ clean).content
  rw [passed.content,deliver_clean taken,calls,buffer] at content
  rw [emit,created]
  dsimp only
  constructor
  · rw [counted ended,Nat.zero_add]
  · rw [content]
    simp only [Writer.empty,List.nil_append,Nat.zero_add]
    rfl

theorem text_length {one other : List Record} (same : one.Perm other) : (text one).length = (text other).length :=
  (same.map line).flatten.length_eq

theorem emit_complete {device : Device δ} {path : Str} (created : device.create path = none) {records collected : List Record}
    (unseen : ¬ Noticed device records) (same : records.Perm collected) (ordered : records.Pairwise fun a b => a.pubkey ≤ b.pubkey) :
    Complete collected (emit device path records).emitted (emit device path records).file ↔ Landed device records := by
  obtain ⟨count,file⟩ := emit_unseen created unseen
  have inside := flushed_prefix device records
  have closed := device.lost (flushed device records)
  rw [count,file,Landed,← flushed_whole]
  constructor
  · intro complete
    obtain ⟨others,permuted,_,_,lines⟩ := complete
    rw [lines_iff] at lines
    have size := text_length (permuted.trans same.symm)
    rw [← lines] at size
    -- Nothing can be missing from a prefix of the same length.
    have all := closed.eq_of_length_le (size ▸ inside.length_le)
    have content := inside.eq_of_length_le (by rw [← all,size])
    refine ⟨content,?_⟩
    rw [← content]
    exact all
  · intro landed
    refine ⟨records,same,ordered,rfl,?_⟩
    rw [lines_iff,landed.1]
    exact landed.2

-- What Write returns is what it would with an encoder that fails where the buffered writes do.
theorem emitAll_encodeAll (device : Device δ) {disk : Disk δ} (w : Writer δ) (emitted : Nat) (records : List Record)
    (agrees : ∀ i rec, disk.encode (emitted + i) rec =
      ((records.take (i + 1)).foldl (fun w rec => w.write device.write bufferSize (line rec)) w).err) :
    (encodeAll disk emitted records).emitted = (emitAll device w emitted records).2.1 ∧
      (encodeAll disk emitted records).err = (emitAll device w emitted records).2.2 := by
  induction records generalizing w emitted with
  | nil => exact ⟨rfl,rfl⟩
  | cons rec rest ih =>
    have first : disk.encode emitted rec = (w.write device.write bufferSize (line rec)).err := agrees 0 rec
    rw [encodeAll,emitAll,first]
    cases (w.write device.write bufferSize (line rec)).err with
    | some err => exact ⟨rfl,rfl⟩
    | none =>
      apply ih
      intro i other
      rw [Nat.add_right_comm,Nat.add_assoc,agrees (i + 1) other]
      rfl

theorem output_write (device : Device δ) (sorter : SortSlice) (order : Tally.Order (Σ _ : Str, Nat)) (path : Str)
    (scored levels : Table Nat) (pubkeys : Table Str) (threshold k : Int) :
    ∃ disk : Disk δ, (write disk sorter order path scored levels pubkeys threshold k).emitted =
        (output device sorter order path scored levels pubkeys threshold k).emitted ∧
      (write disk sorter order path scored levels pubkeys threshold k).err =
        (output device sorter order path scored levels pubkeys threshold k).err := by
  refine ⟨⟨device.create,fun i _ => (((sorter.sort (collected order scored levels pubkeys threshold k)).take (i + 1)).foldl
    (fun w rec => w.write device.write bufferSize (line rec)) Writer.empty).err⟩,?_⟩
  cases created : device.create path with
  | some err => simp only [write,output,emit,created,and_self]
  | none =>
    simp only [write,output,emit,created]
    apply emitAll_encodeAll device Writer.empty 0
    intro i rec
    rw [Nat.zero_add]

theorem write_complete_iff (device : Device δ) (sorter : SortSlice) (order : Tally.Order (Σ _ : Str, Nat)) (path : Str)
    (scored levels : Table Nat) (pubkeys : Table Str) (threshold k : Int) :
    ((output device sorter order path scored levels pubkeys threshold k).err = none →
      Complete (collected order scored levels pubkeys threshold k) (output device sorter order path scored levels pubkeys threshold k).emitted
        (output device sorter order path scored levels pubkeys threshold k).file) ↔
    (device.create path).isSome ∨ Noticed device (sorter.sort (collected order scored levels pubkeys threshold k)) ∨
      Landed device (sorter.sort (collected order scored levels pubkeys threshold k)) := by
  unfold output
  cases created : device.create path with
  | some err =>
    have failed := emit_create created (sorter.sort (collected order scored levels pubkeys threshold k))
    exact ⟨fun _ => .inl rfl,fun _ ended => absurd ended failed⟩
  | none =>
    rw [emit_noticed created]
    by_cases seen : Noticed device (sorter.sort (collected order scored levels pubkeys threshold k))
    · exact ⟨fun _ => .inr (.inl seen),fun _ unseen => absurd seen unseen⟩
    · rw [emit_complete created seen (sorter.complete _) (sorter.sorted _)]
      simp [seen]

-- A full disk: one record, whose line only the last flush tries to write.
def full : Device Unit where
  create _ := none
  write _ _ := some (0,())
  close content := (content,none)
  lost _ := List.prefix_rfl
  kept _ _ := rfl

def leaf : Emitted Unit :=
  output full byPubkey asListed [] (AList.singleton [1] 0) (AList.singleton [1] 2) (AList.singleton [1] [97]) 5 1

theorem write_complete_full : leaf.emitted = 1 ∧ leaf.err = none ∧
    ¬ Complete (collected asListed (AList.singleton [1] 0) (AList.singleton [1] 2) (AList.singleton [1] [97]) 5 1) leaf.emitted leaf.file := by
  have file : leaf.file = [] := by decide +kernel
  have one : leaf.emitted = 1 := by decide +kernel
  refine ⟨one,by rfl,?_⟩
  rw [file,one]
  intro complete
  obtain ⟨records,_,_,count,lines⟩ := complete
  have sizes := congrArg List.length lines
  rw [List.length_append,List.length_map,← count] at sizes
  cases sizes

end DeepFry.SpamExplorer.Output
