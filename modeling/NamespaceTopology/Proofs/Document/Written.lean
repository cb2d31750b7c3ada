import NamespaceTopology.Document.Decode
import NamespaceTopology.Document.Encode
import NamespaceTopology.Proofs.Wire.Fields

set_option autoImplicit false

/-!
What is written as a document is read back. Of each message the fields are listed that are written; the
bytes are those of the fields, and merging the fields into a blank message gives the message. What is left
out is what a blank message has.
-/
namespace NamespaceTopology.Document

open Wire

/-! ### The fields that are written -/

def flagFields (number : Nat) (b : Bool) : List Field := if b then [⟨number, .number 1⟩] else []

def nanosFields (number : Nat) (n : Int64) : List Field :=
  if n = 0 then [] else [⟨number, .number (bits n)⟩]

def sectionFields {α : Type} (number : Nat) (encode : α → List UInt8) : Option α → List Field
  | none => []
  | some s => [⟨number, .counted (encode s)⟩]

def Retention.fields (r : Retention) : List Field :=
  nanosFields 1 r.periodNanos ++ nanosFields 2 r.blockSizeNanos ++
    nanosFields 3 r.bufferFutureNanos ++ nanosFields 4 r.bufferPastNanos ++ flagFields 5 r.expiry ++
    nanosFields 6 r.expiryAfterNanos

def Index.fields (x : Index) : List Field := flagFields 1 x.enabled ++ nanosFields 2 x.blockSizeNanos

def Entry.fields (e : Entry) : List Field :=
  flagFields 1 e.bootstrap ++ flagFields 2 e.flush ++ flagFields 3 e.commitLog ++
    flagFields 4 e.cleanup ++ flagFields 5 e.repair ++
    sectionFields 6 Retention.encode e.retention ++ flagFields 7 e.snapshot ++
    sectionFields 8 Index.encode e.index ++ flagFields 9 e.coldWrites

def pairFields (pair : String × Entry) : List Field :=
  (if pair.1 = "" then [] else [⟨1, .counted (Text.utf8 pair.1)⟩]) ++
    if pair.2 = .blank then [] else [⟨2, .counted pair.2.encode⟩]

def entryField (pair : String × Entry) : Field := ⟨1, .counted (encodePair pair)⟩

theorem writeFlag_eq (number : Nat) (b : Bool) :
    writeFlag number b = (flagFields number b).flatMap Field.write := by
  cases b <;> simp [writeFlag, flagFields, Field.write]

theorem writeNanos_eq (number : Nat) (n : Int64) :
    writeNanos number n = (nanosFields number n).flatMap Field.write := by
  unfold writeNanos nanosFields
  split <;> simp [Field.write]

theorem writeSection_eq {α : Type} (number : Nat) (encode : α → List UInt8) (s : Option α) :
    writeSection number encode s = (sectionFields number encode s).flatMap Field.write := by
  cases s <;> simp [writeSection, sectionFields, Field.write]

theorem Retention.encode_eq (r : Retention) : r.encode = r.fields.flatMap Field.write := by
  simp only [encode, fields, writeNanos_eq, writeFlag_eq, List.flatMap_append]

theorem Index.encode_eq (x : Index) : x.encode = x.fields.flatMap Field.write := by
  simp only [encode, fields, writeNanos_eq, writeFlag_eq, List.flatMap_append]

theorem Entry.encode_eq (e : Entry) : e.encode = e.fields.flatMap Field.write := by
  simp only [encode, fields, writeSection_eq, writeFlag_eq, List.flatMap_append]

theorem encodePair_eq (pair : String × Entry) :
    encodePair pair = (pairFields pair).flatMap Field.write := by
  unfold encodePair pairFields
  rw [List.flatMap_append]
  congr 1 <;> split <;> simp [Field.write]

theorem encodePairs_eq (pairs : List (String × Entry)) :
    encodePairs pairs = (pairs.map entryField).flatMap Field.write := by
  rw [List.flatMap_map]
  rfl

/-! ### Lengths -/

theorem length_writeCounted_le (number : Nat) (h : number < 15) {bytes : List UInt8}
    (hfits : bytes.length < 18446744073709551616) :
    (writeCounted number bytes).length ≤ 11 + bytes.length := by
  have hkey := length_writeKey number .counted (by simp [Kind.code]; omega)
  have hcount := length_writeVarint hfits
  rw [writeCounted, List.length_append, List.length_append]
  omega

theorem length_writeNumber_le (number : Nat) (h : number < 15) {n : Nat}
    (hfits : n < 18446744073709551616) : (writeNumber number n).length ≤ 11 := by
  have hkey := length_writeKey number .number (by simp [Kind.code]; omega)
  have hnumber := length_writeVarint hfits
  rw [writeNumber, List.length_append]
  omega

theorem bits_lt (n : Int64) : bits n < 18446744073709551616 := n.toUInt64.toNat_lt

theorem length_writeFlag_le (number : Nat) (h : number < 15) (b : Bool) :
    (writeFlag number b).length ≤ 11 := by
  cases b with
  | false => exact Nat.zero_le _
  | true => exact length_writeNumber_le number h (by decide)

theorem length_writeNanos_le (number : Nat) (h : number < 15) (n : Int64) :
    (writeNanos number n).length ≤ 11 := by
  unfold writeNanos
  split
  · exact Nat.zero_le _
  · exact length_writeNumber_le number h (bits_lt n)

theorem length_writeSection_le {α : Type} (number : Nat) {bound : Nat} (h : number < 15)
    {encode : α → List UInt8} (hbound : ∀ s, (encode s).length ≤ bound)
    (hfits : bound < 18446744073709551616) (s : Option α) :
    (writeSection number encode s).length ≤ 11 + bound := by
  cases s with
  | none => exact Nat.zero_le _
  | some s =>
    have hcounted := length_writeCounted_le number h (Nat.lt_of_le_of_lt (hbound s) hfits)
    exact Nat.le_trans hcounted (Nat.add_le_add_left (hbound s) 11)

theorem Retention.length_encode_le (r : Retention) : r.encode.length ≤ 66 := by
  have hperiod := length_writeNanos_le 1 (by decide) r.periodNanos
  have hblock := length_writeNanos_le 2 (by decide) r.blockSizeNanos
  have hfuture := length_writeNanos_le 3 (by decide) r.bufferFutureNanos
  have hpast := length_writeNanos_le 4 (by decide) r.bufferPastNanos
  have hexpiry := length_writeFlag_le 5 (by decide) r.expiry
  have hafter := length_writeNanos_le 6 (by decide) r.expiryAfterNanos
  simp only [encode, List.length_append]
  omega

theorem Index.length_encode_le (x : Index) : x.encode.length ≤ 22 := by
  have henabled := length_writeFlag_le 1 (by decide) x.enabled
  have hblock := length_writeNanos_le 2 (by decide) x.blockSizeNanos
  simp only [encode, List.length_append]
  omega

theorem Entry.length_encode_le (e : Entry) : e.encode.length ≤ 187 := by
  have hretention := length_writeSection_le 6 (by decide) Retention.length_encode_le
    (by decide) e.retention
  have hindex := length_writeSection_le 8 (by decide) Index.length_encode_le
    (by decide) e.index
  have h1 := length_writeFlag_le 1 (by decide) e.bootstrap
  have h2 := length_writeFlag_le 2 (by decide) e.flush
  have h3 := length_writeFlag_le 3 (by decide) e.commitLog
  have h4 := length_writeFlag_le 4 (by decide) e.cleanup
  have h5 := length_writeFlag_le 5 (by decide) e.repair
  have h7 := length_writeFlag_le 7 (by decide) e.snapshot
  have h9 := length_writeFlag_le 9 (by decide) e.coldWrites
  simp only [encode, List.length_append]
  omega

theorem length_utf8 (s : String) : (Text.utf8 s).length = s.utf8ByteSize := by
  simp [Text.utf8]

/-- An id may take nearly all that a length can count. -/
theorem length_encodePair_le {pair : String × Entry} (h : pair.1.utf8ByteSize < 9223372036854775808) :
    (encodePair pair).length ≤ pair.1.utf8ByteSize + 209 := by
  have hentry := pair.2.length_encode_le
  have hid : (Text.utf8 pair.1).length < 18446744073709551616 := by
    rw [length_utf8]
    omega
  have hfirst : (if pair.1 = "" then [] else writeCounted 1 (Text.utf8 pair.1)).length ≤
      11 + pair.1.utf8ByteSize := by
    split
    · exact Nat.zero_le _
    · rw [← length_utf8]
      exact length_writeCounted_le 1 (by decide) hid
  have hsecond : (if pair.2 = .blank then [] else writeCounted 2 pair.2.encode).length ≤
      11 + pair.2.encode.length := by
    split
    · exact Nat.zero_le _
    · exact length_writeCounted_le 2 (by decide) (by omega)
  rw [encodePair, List.length_append]
  omega

/-! ### Every field fits -/

section Fits

variable {number : Nat} {f : Field}

theorem fits_number (hpos : 0 < number) (hlt : number < 15) {n : Nat}
    (hn : n < 18446744073709551616) : Field.Fits announced ⟨number, .number n⟩ :=
  ⟨hpos, Nat.lt_trans hlt (by decide), hn, fun h => absurd h Bool.false_ne_true⟩

theorem fits_counted {embedded : Nat → Bool} (hpos : 0 < number) (hlt : number < 15)
    {bytes : List UInt8} (hbytes : bytes.length < 18446744073709551616) :
    Field.Fits embedded ⟨number, .counted bytes⟩ :=
  ⟨hpos, Nat.lt_trans hlt (by decide), hbytes, fun _ => ⟨bytes, rfl⟩⟩

theorem fits_flag (hpos : 0 < number) (hlt : number < 15) {b : Bool}
    (h : f ∈ flagFields number b) : f.Fits announced := by
  cases b with
  | false => cases h
  | true =>
    rw [List.mem_singleton.mp h]
    exact fits_number hpos hlt (by decide)

theorem fits_nanos (hpos : 0 < number) (hlt : number < 15) {n : Int64}
    (h : f ∈ nanosFields number n) : f.Fits announced := by
  unfold nanosFields at h
  split at h
  · cases h
  · rw [List.mem_singleton.mp h]
    exact fits_number hpos hlt (bits_lt n)

theorem fits_section {α : Type} {encode : α → List UInt8} (hpos : 0 < number) (hlt : number < 15)
    (hbound : ∀ s, (encode s).length < 18446744073709551616) {s : Option α}
    (h : f ∈ sectionFields number encode s) : f.Fits announced := by
  cases s with
  | none => cases h
  | some s =>
    rw [List.mem_singleton.mp h]
    exact fits_counted hpos hlt (hbound s)

theorem Retention.fits {r : Retention} (h : f ∈ r.fields) : f.Fits announced := by
  simp only [fields, List.mem_append] at h
  rcases h with (((((h | h) | h) | h) | h) | h)
  all_goals first
    | exact fits_nanos (by decide) (by decide) h
    | exact fits_flag (by decide) (by decide) h

theorem Index.fits {x : Index} (h : f ∈ x.fields) : f.Fits announced := by
  rcases List.mem_append.mp h with h | h
  · exact fits_flag (by decide) (by decide) h
  · exact fits_nanos (by decide) (by decide) h

theorem Entry.fits {e : Entry} (h : f ∈ e.fields) : f.Fits announced := by
  have hretention (r : Retention) : r.encode.length < 18446744073709551616 :=
    Nat.lt_of_le_of_lt r.length_encode_le (by decide)
  have hindex (x : Index) : x.encode.length < 18446744073709551616 :=
    Nat.lt_of_le_of_lt x.length_encode_le (by decide)
  simp only [fields, List.mem_append] at h
  rcases h with ((((((((h | h) | h) | h) | h) | h) | h) | h) | h)
  all_goals first
    | exact fits_flag (by decide) (by decide) h
    | exact fits_section (by decide) (by decide) hretention h
    | exact fits_section (by decide) (by decide) hindex h

theorem fits_pairFields {pair : String × Entry} (hid : pair.1.utf8ByteSize < 9223372036854775808)
    (h : f ∈ pairFields pair) : f.Fits announced := by
  rcases List.mem_append.mp h with h | h
  · split at h
    · cases h
    · rw [List.mem_singleton.mp h]
      refine fits_counted (by decide) (by decide) ?_
      rw [length_utf8]
      omega
  · split at h
    · cases h
    · rw [List.mem_singleton.mp h]
      exact fits_counted (by decide) (by decide)
        (Nat.lt_of_le_of_lt pair.2.length_encode_le (by decide))

theorem fits_entryField {pair : String × Entry} (hid : pair.1.utf8ByteSize < 9223372036854775808) :
    (entryField pair).Fits isEntry := by
  have hlength := length_encodePair_le hid
  exact fits_counted (by decide) (by decide) (by omega)

end Fits

/-! ### Merging what is written into a blank message -/

theorem asNanos_bits (n : Int64) : asNanos (.number (bits n)) = some n := by
  simp [asNanos, bits]

section Merging

variable {σ : Type} (merge : σ → Field → Option σ) (number : Nat)

theorem foldlM_flagFields (set : Bool → σ)
    (h : ∀ payload, merge (set false) ⟨number, payload⟩ = (asFlag payload).map set) (b : Bool) :
    (flagFields number b).foldlM merge (set false) = some (set b) := by
  cases b with
  | false => rfl
  | true =>
    have hone : merge (set false) ⟨number, .number 1⟩ = some (set true) := h (.number 1)
    simp [flagFields, hone]

theorem foldlM_nanosFields (set : Int64 → σ)
    (h : ∀ payload, merge (set 0) ⟨number, payload⟩ = (asNanos payload).map set) (n : Int64) :
    (nanosFields number n).foldlM merge (set 0) = some (set n) := by
  unfold nanosFields
  split
  next hn =>
    rw [hn]
    rfl
  next hn => simp [h, asNanos_bits]

theorem foldlM_sectionFields {α : Type} (encode : α → List UInt8) (set : Option α → σ)
    (h : ∀ a, merge (set none) ⟨number, .counted (encode a)⟩ = some (set (some a))) (s : Option α) :
    (sectionFields number encode s).foldlM merge (set none) = some (set s) := by
  cases s with
  | none => rfl
  | some a => simp [sectionFields, h]

end Merging

theorem Retention.foldlM_fields (r : Retention) :
    r.fields.foldlM Retention.merge Retention.blank = some r := by
  obtain ⟨period, block, future, past, expiry, expiryAfter⟩ := r
  have hperiod := foldlM_nanosFields Retention.merge 1
    (fun n => ⟨n, 0, 0, 0, false, 0⟩) (fun _ => rfl) period
  have hblock := foldlM_nanosFields Retention.merge 2
    (fun n => ⟨period, n, 0, 0, false, 0⟩) (fun _ => rfl) block
  have hfuture := foldlM_nanosFields Retention.merge 3
    (fun n => ⟨period, block, n, 0, false, 0⟩) (fun _ => rfl) future
  have hpast := foldlM_nanosFields Retention.merge 4
    (fun n => ⟨period, block, future, n, false, 0⟩) (fun _ => rfl) past
  have hexpiry := foldlM_flagFields Retention.merge 5
    (fun b => ⟨period, block, future, past, b, 0⟩) (fun _ => rfl) expiry
  have hafter := foldlM_nanosFields Retention.merge 6
    (fun n => ⟨period, block, future, past, expiry, n⟩) (fun _ => rfl) expiryAfter
  simp only [fields, blank, List.foldlM_append, Option.bind_eq_bind, hperiod, hblock, hfuture, hpast,
    hexpiry, hafter, Option.bind_some]

theorem Index.foldlM_fields (x : Index) : x.fields.foldlM Index.merge Index.blank = some x := by
  obtain ⟨enabled, block⟩ := x
  have henabled := foldlM_flagFields Index.merge 1 (fun b => ⟨b, 0⟩) (fun _ => rfl) enabled
  have hblock := foldlM_nanosFields Index.merge 2 (fun n => ⟨enabled, n⟩) (fun _ => rfl) block
  simp only [fields, blank, List.foldlM_append, Option.bind_eq_bind, henabled, hblock,
    Option.bind_some]

theorem Retention.join_encode (depth : Nat) (r : Retention) :
    Retention.blank.join depth r.encode = some r := by
  rw [join, encode_eq, readFields_written fun _ h => fits h]
  exact r.foldlM_fields

theorem Index.join_encode (depth : Nat) (x : Index) :
    Index.blank.join depth x.encode = some x := by
  rw [join, encode_eq, readFields_written fun _ h => fits h]
  exact x.foldlM_fields

theorem Entry.foldlM_fields (depth : Nat) (e : Entry) :
    e.fields.foldlM (Entry.merge depth) Entry.blank = some e := by
  obtain ⟨bootstrap, flush, commitLog, cleanup, repair, retention, snapshot, index, coldWrites⟩ := e
  have hbootstrap := foldlM_flagFields (Entry.merge depth) 1
    (fun b => ⟨b, false, false, false, false, none, false, none, false⟩) (fun _ => rfl) bootstrap
  have hflush := foldlM_flagFields (Entry.merge depth) 2
    (fun b => ⟨bootstrap, b, false, false, false, none, false, none, false⟩) (fun _ => rfl) flush
  have hcommitLog := foldlM_flagFields (Entry.merge depth) 3
    (fun b => ⟨bootstrap, flush, b, false, false, none, false, none, false⟩) (fun _ => rfl)
    commitLog
  have hcleanup := foldlM_flagFields (Entry.merge depth) 4
    (fun b => ⟨bootstrap, flush, commitLog, b, false, none, false, none, false⟩) (fun _ => rfl)
    cleanup
  have hrepair := foldlM_flagFields (Entry.merge depth) 5
    (fun b => ⟨bootstrap, flush, commitLog, cleanup, b, none, false, none, false⟩)
    (fun _ => rfl) repair
  have hretention := foldlM_sectionFields (Entry.merge depth) 6 Retention.encode
    (fun r => ⟨bootstrap, flush, commitLog, cleanup, repair, r, false, none, false⟩)
    (fun r => by simp [Entry.merge, asBytes, Retention.join_encode]) retention
  have hsnapshot := foldlM_flagFields (Entry.merge depth) 7
    (fun b => ⟨bootstrap, flush, commitLog, cleanup, repair, retention, b, none, false⟩)
    (fun _ => rfl) snapshot
  have hindex := foldlM_sectionFields (Entry.merge depth) 8 Index.encode
    (fun x => ⟨bootstrap, flush, commitLog, cleanup, repair, retention, snapshot, x, false⟩)
    (fun x => by simp [Entry.merge, asBytes, Index.join_encode]) index
  have hcoldWrites := foldlM_flagFields (Entry.merge depth) 9
    (fun b => ⟨bootstrap, flush, commitLog, cleanup, repair, retention, snapshot, index, b⟩)
    (fun _ => rfl) coldWrites
  simp only [fields, blank, List.foldlM_append, Option.bind_eq_bind, hbootstrap, hflush, hcommitLog,
    hcleanup, hrepair, hretention, hsnapshot, hindex, hcoldWrites, Option.bind_some]

theorem Entry.join_encode (depth : Nat) (e : Entry) : Entry.blank.join depth e.encode = some e := by
  rw [join, encode_eq, readFields_written fun _ h => fits h]
  exact e.foldlM_fields depth

/-- An id or entry that is blank is not written, and a pair starts with both blank. -/
theorem foldlM_pairFields (depth : Nat) (pair : String × Entry) :
    (pairFields pair).foldlM (mergePair depth) ("", .blank) = some pair := by
  obtain ⟨id, e⟩ := pair
  have hid : (if id = "" then [] else [⟨1, .counted (Text.utf8 id)⟩] : List Field).foldlM
      (mergePair depth) ("", .blank) = some (id, .blank) := by
    split
    next h =>
      rw [h]
      rfl
    next h => simp [mergePair, asBytes, Text.ofUtf8?_utf8]
  have hentry : (if e = .blank then [] else [⟨2, .counted e.encode⟩] : List Field).foldlM
      (mergePair depth) (id, .blank) = some (id, e) := by
    split
    next h =>
      rw [h]
      rfl
    next h => simp [mergePair, asBytes, Entry.join_encode]
  rw [pairFields, List.foldlM_append, hid]
  exact hentry

theorem readPair_encodePair (depth : Nat) {pair : String × Entry}
    (h : pair.1.utf8ByteSize < 9223372036854775808) :
    readPair depth (encodePair pair) = some pair := by
  rw [readPair, encodePair_eq, readFields_written fun _ hf => fits_pairFields h hf]
  exact foldlM_pairFields depth pair

theorem merge_entryField {pair : String × Entry} (h : pair.1.utf8ByteSize < 9223372036854775808)
    (d : Document) : merge d (entryField pair) = some (d.insert pair) := by
  have hpair := readPair_encodePair (groupLimit - 1) h
  simp [merge, entryField, isEntry, asBytes, hpair]

theorem foldlM_entryFields {pairs : List (String × Entry)}
    (h : ∀ pair ∈ pairs, pair.1.utf8ByteSize < 9223372036854775808) (d : Document) :
    (pairs.map entryField).foldlM merge d = some (pairs.foldl (fun d pair => d.insert pair) d) := by
  induction pairs generalizing d with
  | nil => rfl
  | cons pair pairs ih =>
    rw [List.map_cons, List.foldlM_cons, merge_entryField (h pair List.mem_cons_self)]
    exact ih (fun p hp => h p (List.mem_cons_of_mem pair hp)) (d.insert pair)

/-- Entries are read back as they were written, and of two with one id the later stays. An id takes less
than half of what the length before it could count. -/
theorem decode_encodePairs {pairs : List (String × Entry)}
    (h : ∀ pair ∈ pairs, pair.1.utf8ByteSize < 9223372036854775808) :
    decode (encodePairs pairs) = some (Keyed.ofList pairs) := by
  have hfits : ∀ f ∈ pairs.map entryField, f.Fits isEntry := by
    intro f hf
    obtain ⟨pair, hpair, rfl⟩ := List.mem_map.mp hf
    exact fits_entryField (h pair hpair)
  rw [decode, encodePairs_eq, readFields_written hfits]
  exact foldlM_entryFields h Keyed.empty

end NamespaceTopology.Document
