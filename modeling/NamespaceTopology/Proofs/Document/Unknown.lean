import NamespaceTopology.Proofs.Document.RoundTrip
import NamespaceTopology.Proofs.Wire.Spelling

set_option autoImplicit false

/-!
Fields with unknown numbers. One may be inserted between any two fields of a document, or of a message that
stands in it at any depth; the lengths before the messages around it are then others. Nothing that is read
changes.
-/
namespace NamespaceTopology.Document

open Wire

inductive Message where
  | registry
  | pair
  | entry
  | retention
  | index
deriving DecidableEq

namespace Message

/-- How many groups may stand inside one another in a message. Each message around it takes one away. -/
def depth : Message → Nat
  | .registry => groupLimit
  | .pair => groupLimit - 1
  | .entry => groupLimit - 2
  | .retention | .index => groupLimit - 3

/-- The numbers that are read as counted bytes whatever their keys announce. -/
def embedded : Message → Nat → Bool
  | .registry => isEntry
  | _ => announced

def declared : Message → List Nat
  | .registry => [1]
  | .pair | .index => [1, 2]
  | .entry => [1, 2, 3, 4, 5, 6, 7, 8, 9]
  | .retention => [1, 2, 3, 4, 5, 6]

def inner? : Message → Nat → Option Message
  | .registry, 1 => some .pair
  | .pair, 2 => some .entry
  | .entry, 6 => some .retention
  | .entry, 8 => some .index
  | _, _ => none

def State : Message → Type
  | .registry => Document
  | .pair => String × Entry
  | .entry => Entry
  | .retention => Retention
  | .index => Index

def merge : (m : Message) → m.State → Field → Option m.State
  | .registry => Document.merge
  | .pair => mergePair (depth .pair)
  | .entry => Entry.merge (depth .entry)
  | .retention => Retention.merge
  | .index => Index.merge

def join (m : Message) (s : m.State) (bytes : List UInt8) : Option m.State := do
  (← readFields m.embedded m.depth bytes).foldlM m.merge s

/-- The second bytes are the first ones with an unknown field inserted: between two fields of the message
itself, or of a message that a field of it holds. There the field is spelled anew. -/
inductive Inserted : Message → List UInt8 → List UInt8 → Prop
  | here {m : Message} {fs : List Field} {f : Field} {before unknown after : List UInt8}
      (hbefore : SpellsFields m.embedded m.depth fs before)
      (hunknown : SpellsField m.embedded m.depth f unknown) (hnumber : f.number ∉ m.declared) :
      Inserted m (before ++ after) (before ++ (unknown ++ after))
  | inside {m inner : Message} {fs : List Field} {number : Nat}
      {before after old new bytes bytes' : List UInt8}
      (hbefore : SpellsFields m.embedded m.depth fs before) (hinner : m.inner? number = some inner)
      (hold : SpellsField m.embedded m.depth ⟨number, .counted bytes⟩ old)
      (hnew : SpellsField m.embedded m.depth ⟨number, .counted bytes'⟩ new)
      (hinserted : Inserted inner bytes bytes') :
      Inserted m (before ++ (old ++ after)) (before ++ (new ++ after))

variable {m : Message}

theorem merge_unknown {f : Field} (h : f.number ∉ m.declared) (s : m.State) :
    m.merge s f = some s := by
  obtain ⟨number, payload⟩ := f
  cases m with
  | registry =>
    have hne : isEntry number = false := by simpa [declared, isEntry] using h
    exact if_neg (Bool.eq_false_iff.mp hne)
  | pair =>
    simp only [merge, mergePair]
    split <;> first | rfl | simp [declared] at h
  | entry =>
    simp only [merge, Entry.merge]
    split <;> first | rfl | simp [declared] at h
  | retention =>
    simp only [merge, Retention.merge]
    split <;> first | rfl | simp [declared] at h
  | index =>
    simp only [merge, Index.merge]
    split <;> first | rfl | simp [declared] at h

/-- What a field adds that holds a message depends only on what the message adds. -/
theorem merge_congr {inner : Message} {number : Nat} (h : m.inner? number = some inner)
    {bytes bytes' : List UInt8} (hjoin : ∀ s, inner.join s bytes' = inner.join s bytes)
    (s : m.State) : m.merge s ⟨number, .counted bytes'⟩ = m.merge s ⟨number, .counted bytes⟩ := by
  unfold inner? at h
  split at h
  · obtain rfl := Option.some.inj h
    have hpair : readPair (groupLimit - 1) bytes' = readPair (groupLimit - 1) bytes :=
      hjoin ("", .blank)
    change Document.merge s ⟨1, .counted bytes'⟩ = Document.merge s ⟨1, .counted bytes⟩
    simp [Document.merge, asBytes, hpair]
  · obtain rfl := Option.some.inj h
    have hentry : s.2.join (depth .pair - 1) bytes' = s.2.join (depth .pair - 1) bytes := hjoin s.2
    change mergePair (depth .pair) s ⟨2, .counted bytes'⟩ =
      mergePair (depth .pair) s ⟨2, .counted bytes⟩
    simp [mergePair, asBytes, hentry]
  · obtain rfl := Option.some.inj h
    have hretention (r : Retention) :
        r.join (depth .entry - 1) bytes' = r.join (depth .entry - 1) bytes := hjoin r
    change Entry.merge (depth .entry) s ⟨6, .counted bytes'⟩ =
      Entry.merge (depth .entry) s ⟨6, .counted bytes⟩
    simp [Entry.merge, asBytes, hretention]
  · obtain rfl := Option.some.inj h
    have hindex (x : Index) :
        x.join (depth .entry - 1) bytes' = x.join (depth .entry - 1) bytes := hjoin x
    change Entry.merge (depth .entry) s ⟨8, .counted bytes'⟩ =
      Entry.merge (depth .entry) s ⟨8, .counted bytes⟩
    simp [Entry.merge, asBytes, hindex]
  · cases h

theorem join_append {fs : List Field} {bytes : List UInt8}
    (h : SpellsFields m.embedded m.depth fs bytes) (s : m.State) (rest : List UInt8) :
    m.join s (bytes ++ rest) = (fs.foldlM m.merge s).bind (m.join · rest) := by
  rw [join, readFields_of_spellsFields h]
  cases hrest : readFields m.embedded m.depth rest with
  | none => simp [join, hrest]
  | some gs => simp [join, hrest, List.foldlM_append]

theorem join_cons {f : Field} {first : List UInt8} (h : SpellsField m.embedded m.depth f first)
    (s : m.State) (rest : List UInt8) :
    m.join s (first ++ rest) = (m.merge s f).bind (m.join · rest) := by
  have hfields : SpellsFields m.embedded m.depth [f] (first ++ []) := .cons h .nil
  rw [List.append_nil] at hfields
  rw [join_append hfields, List.foldlM_cons]
  cases m.merge s f <;> rfl

theorem join_inserted {bytes bytes' : List UInt8} (h : Inserted m bytes bytes') (s : m.State) :
    m.join s bytes' = m.join s bytes := by
  induction h with
  | here hbefore hunknown hnumber =>
    rw [join_append hbefore, join_append hbefore]
    refine congrArg _ (funext fun s' => ?_)
    rw [join_cons hunknown, merge_unknown hnumber, Option.bind_some]
  | inside hbefore hinner hold hnew _ ih =>
    rw [join_append hbefore, join_append hbefore]
    refine congrArg _ (funext fun s' => ?_)
    rw [join_cons hnew, join_cons hold, merge_congr hinner ih]

end Message

/-- Whether a document can be read, which entries it then has and what they describe do not change with a
field whose number nobody knows: it may stand between any two fields of the document, of a pair, of an entry
or of a section, and groups in it as deep as the place allows. -/
theorem decode_inserted {bytes bytes' : List UInt8} (h : Message.Inserted .registry bytes bytes') :
    decode bytes' = decode bytes ∧
      ∀ version, (⟨version, bytes'⟩ : Value).topology = (⟨version, bytes⟩ : Value).topology := by
  have hdecode : decode bytes' = decode bytes := Message.join_inserted h Keyed.empty
  refine ⟨hdecode, fun version => ?_⟩
  simp only [Value.topology, hdecode]

/-- `Value.unusualValue` with a group, in which another stands, in the section of the first entry. -/
def groupInserted : List UInt8 :=
  [10, 25, 18, 20, 50, 18, 8, 2, 163, 1, 171, 1, 8, 1, 172, 1, 164, 1, 16, 2, 24, 1, 32, 1, 10, 1, 97] ++
    Value.unusualValue.data.drop 17

theorem decode_inserted_group :
    decode groupInserted = decode Value.unusualValue.data ∧
      (decode Value.unusualValue.data).isSome := by
  have hbefore : SpellsFields announced 97 [⟨1, .number 2⟩] [8, 2] :=
    readFields_eq_some_iff.mp (by decide +kernel)
  have hunknown : SpellsField announced 97 ⟨20, .group⟩ [163, 1, 171, 1, 8, 1, 172, 1, 164, 1] :=
    spellsField_of_readField (by decide +kernel)
  have hsection := @Message.Inserted.here .retention _ _ _ _ [16, 2, 24, 1, 32, 1] hbefore hunknown
    (by decide)
  have hentry := @Message.Inserted.inside .entry _ [] 6 [] []
    [50, 8, 8, 2, 16, 2, 24, 1, 32, 1]
    [50, 18, 8, 2, 163, 1, 171, 1, 8, 1, 172, 1, 164, 1, 16, 2, 24, 1, 32, 1] _ _ .nil rfl
    (spellsField_of_readField (by decide +kernel)) (spellsField_of_readField (by decide +kernel))
    hsection
  have hpair := @Message.Inserted.inside .pair _ [] 2 [] [10, 1, 97]
    [18, 10, 50, 8, 8, 2, 16, 2, 24, 1, 32, 1]
    [18, 20, 50, 18, 8, 2, 163, 1, 171, 1, 8, 1, 172, 1, 164, 1, 16, 2, 24, 1, 32, 1] _ _ .nil rfl
    (spellsField_of_readField (by decide +kernel)) (spellsField_of_readField (by decide +kernel))
    hentry
  have hregistry := @Message.Inserted.inside .registry _ [] 1 [] (Value.unusualValue.data.drop 17)
    (Value.unusualValue.data.take 17) (groupInserted.take 27) _ _ .nil rfl
    (spellsField_of_readField (by decide +kernel)) (spellsField_of_readField (by decide +kernel)) hpair
  exact ⟨(decode_inserted hregistry).1, by decide +kernel⟩

end NamespaceTopology.Document
