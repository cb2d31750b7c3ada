import NamespaceTopology.Proofs.Document.Written
import NamespaceTopology.Proofs.Keyed
import NamespaceTopology.Store.Value

set_option autoImplicit false

/-!
The lengths of what is written, counted ahead of the bytes, and the messages that the bytes hold. Every
length is the sum of the lengths of the parts; a message of any kind is read back from its bytes, whatever
its numbers are and whichever of its sections are there.
-/
namespace NamespaceTopology

/-! ### Numbers -/

namespace Wire

theorem log2_half {n : Nat} (h : 2 ≤ n) : n.log2 = (n / 2).log2 + 1 := by
  rw [Nat.log2_def, if_pos h]

/-- Seven binary digits make one digit on the wire. -/
theorem log2_digit {n : Nat} (h : 128 ≤ n) : n.log2 = (n / 128).log2 + 7 := by
  rw [log2_half (by omega), log2_half (n := n / 2) (by omega), log2_half (n := n / 2 / 2) (by omega),
    log2_half (n := n / 2 / 2 / 2) (by omega), log2_half (n := n / 2 / 2 / 2 / 2) (by omega),
    log2_half (n := n / 2 / 2 / 2 / 2 / 2) (by omega),
    log2_half (n := n / 2 / 2 / 2 / 2 / 2 / 2) (by omega)]
  have hdiv : n / 2 / 2 / 2 / 2 / 2 / 2 / 2 = n / 128 := by omega
  rw [hdiv]

theorem log2_lt_seven {n : Nat} (h : n < 128) : n.log2 < 7 := by
  rcases Nat.eq_zero_or_pos n with rfl | hpos
  · decide
  · exact (Nat.log2_lt (Nat.ne_of_gt hpos)).mpr h

theorem length_writeVarint_eq (n : Nat) : (writeVarint n).length = varintLength n := by
  induction n using Nat.strongRecOn with
  | ind n ih =>
    rw [writeVarint, varintLength]
    split
    next hn =>
      have hlog := log2_lt_seven hn
      rw [List.length_singleton]
      omega
    next hn =>
      have hlog := log2_digit (Nat.not_lt.mp hn)
      rw [List.length_cons, ih (n / 128) (by omega), varintLength]
      omega

end Wire

namespace Document

open Wire

/-! ### Fields -/

theorem length_writeNumber (number : Nat) (h : number < 15) (n : Nat) :
    (writeNumber number n).length = fieldLength (varintLength n) := by
  have hkey := length_writeKey number .number (by simp [Kind.code]; omega)
  rw [writeNumber, List.length_append, hkey, length_writeVarint_eq, fieldLength]

theorem length_writeCounted (number : Nat) (h : number < 15) (bytes : List UInt8) :
    (writeCounted number bytes).length = countedLength bytes.length := by
  have hkey := length_writeKey number .counted (by simp [Kind.code]; omega)
  rw [writeCounted, List.length_append, List.length_append, hkey, length_writeVarint_eq,
    countedLength, fieldLength]

theorem length_writeFlag (number : Nat) (h : number < 15) (b : Bool) :
    (writeFlag number b).length = flagLength b := by
  cases b with
  | false => rfl
  | true => exact length_writeNumber number h 1

theorem length_writeNanos (number : Nat) (h : number < 15) (n : Int64) :
    (writeNanos number n).length = nanosLength n := by
  unfold writeNanos nanosLength
  split
  · rfl
  · exact length_writeNumber number h (bits n)

theorem length_writeSection {α : Type} (number : Nat) (h : number < 15) {encode : α → List UInt8}
    {length : α → Nat} (hlength : ∀ s, (encode s).length = length s) (s : Option α) :
    (writeSection number encode s).length = sectionLength length s := by
  cases s with
  | none => rfl
  | some s =>
    have hcounted := length_writeCounted number h (encode s)
    rwa [hlength] at hcounted

/-! ### Messages -/

theorem Retention.length_encode (r : Retention) : r.encode.length = r.encodedLength := by
  simp only [encode, encodedLength, List.length_append]
  rw [length_writeNanos 1 (by decide), length_writeNanos 2 (by decide), length_writeNanos 3 (by decide),
    length_writeNanos 4 (by decide), length_writeFlag 5 (by decide), length_writeNanos 6 (by decide)]

theorem Index.length_encode (x : Index) : x.encode.length = x.encodedLength := by
  rw [encode, encodedLength, List.length_append, length_writeFlag 1 (by decide),
    length_writeNanos 2 (by decide)]

theorem Entry.length_encode (e : Entry) : e.encode.length = e.encodedLength := by
  simp only [encode, encodedLength, List.length_append]
  rw [length_writeFlag 1 (by decide), length_writeFlag 2 (by decide), length_writeFlag 3 (by decide),
    length_writeFlag 4 (by decide), length_writeFlag 5 (by decide),
    length_writeSection 6 (by decide) Retention.length_encode, length_writeFlag 7 (by decide),
    length_writeSection 8 (by decide) Index.length_encode, length_writeFlag 9 (by decide)]

theorem length_encodePair (pair : String × Entry) : (encodePair pair).length = pairLength pair := by
  have hid : (if pair.1 = "" then [] else writeCounted 1 (Text.utf8 pair.1)).length =
      if pair.1 = "" then 0 else countedLength pair.1.utf8ByteSize := by
    split
    · rfl
    · rw [length_writeCounted 1 (by decide), length_utf8]
  have hentry : (if pair.2 = .blank then [] else writeCounted 2 pair.2.encode).length =
      if pair.2 = .blank then 0 else countedLength pair.2.encodedLength := by
    split
    · rfl
    · rw [length_writeCounted 2 (by decide), Entry.length_encode]
  rw [encodePair, pairLength, List.length_append, hid, hentry]

theorem foldl_pairLength (pairs : List (String × Entry)) (total : Nat) :
    pairs.foldl (fun total pair => total + countedLength (pairLength pair)) total =
      total + (encodePairs pairs).length := by
  induction pairs generalizing total with
  | nil => rfl
  | cons pair pairs ih =>
    have hsplit : encodePairs (pair :: pairs) = writeCounted 1 (encodePair pair) ++ encodePairs pairs :=
      rfl
    rw [List.foldl_cons, ih, hsplit, List.length_append, length_writeCounted 1 (by decide),
      length_encodePair, Nat.add_assoc]

theorem length_encode (d : Document) : d.encode.length = d.encodedLength := by
  rw [Document.encodedLength, foldl_pairLength, Nat.zero_add]
  rfl

/-- The entries of a document take as many bytes in one order as in another. -/
theorem length_encodePairs_of_perm {d : Document} {pairs : List (String × Entry)}
    (h : pairs.Perm d.items) : (encodePairs pairs).length = d.encodedLength := by
  rw [← length_encode]
  exact (h.flatMap_right _).length_eq

/-! ### What the bytes hold -/

/-- The bytes are those of a message: it is read back from a value that holds them, at any version, and
their number is known before they are written. -/
structure Holds {α : Type} (decode : List UInt8 → Option α) (bytes : List UInt8) (length : Nat)
    (message : α) : Prop where
  read : ∀ version, (⟨version, bytes⟩ : Value).read decode = .ok message
  counted : bytes.length = length

theorem holds_of_decode {α : Type} {decode : List UInt8 → Option α} {bytes : List UInt8} {length : Nat}
    {message : α} (hread : decode bytes = some message) (hlength : bytes.length = length) :
    Holds decode bytes length message where
  read version := by simp only [Value.read, hread]
  counted := hlength

theorem decode_of_perm {d : Document} {pairs : List (String × Entry)} (hperm : pairs.Perm d.items)
    (hids : ∀ pair ∈ pairs, pair.1.utf8ByteSize < 9223372036854775808) :
    decode (encodePairs pairs) = some d := by
  rw [decode_encodePairs hids, Keyed.ofList_of_perm hperm]

/-- A document is read back from its entries in any order, and every message that stands in one from its
own bytes. No text has 2 ^ 63 bytes. -/
theorem every_message_is_held {d : Document} {pairs : List (String × Entry)}
    (hperm : pairs.Perm d.items) (hids : ∀ pair ∈ pairs, pair.1.utf8ByteSize < 9223372036854775808) :
    Holds Document.decode (encodePairs pairs) d.encodedLength d ∧
    (∀ e : Entry, Holds Entry.decode e.encode e.encodedLength e) ∧
    (∀ r : Retention, Holds Retention.decode r.encode r.encodedLength r) ∧
    ∀ x : Index, Holds Index.decode x.encode x.encodedLength x := by
  refine ⟨?_, ?_, ?_, ?_⟩
  · exact holds_of_decode (decode_of_perm hperm hids) (length_encodePairs_of_perm hperm)
  · exact fun e => holds_of_decode (e.join_encode groupLimit) e.length_encode
  · exact fun r => holds_of_decode (r.join_encode groupLimit) r.length_encode
  · exact fun x => holds_of_decode (x.join_encode groupLimit) x.length_encode

def assortedEntries : List (String × Entry) :=
  [("", .blank),
    ("π", ⟨false, true, false, false, false, some .blank, false, some ⟨true, -300⟩, false⟩)]

theorem every_message_is_held_assorted :
    Holds Document.decode (encodePairs assortedEntries.reverse) 29
      (Keyed.ofList assortedEntries : Document) := by
  have hids : ∀ pair ∈ assortedEntries.reverse, pair.1.utf8ByteSize < 9223372036854775808 := by
    simp only [assortedEntries, List.reverse_cons, List.reverse_nil, List.nil_append,
      List.cons_append, List.forall_mem_cons]
    exact ⟨by decide, by decide, fun _ h => absurd h List.not_mem_nil⟩
  have hperm : assortedEntries.reverse.Perm (Keyed.ofList assortedEntries : Document).items :=
    List.reverse_perm assortedEntries
  have hlength : Document.encodedLength (Keyed.ofList assortedEntries) = 29 := by decide +kernel
  exact hlength ▸ (every_message_is_held hperm hids).1

end Document

end NamespaceTopology
