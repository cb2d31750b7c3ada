import NamespaceTopology.Proofs.Document.RoundTrip
import NamespaceTopology.Proofs.Namespace.Construction
import NamespaceTopology.Proofs.Wire.Spelling

set_option autoImplicit false

/-!
Documents in parts. Bytes behind a whole document add their entries to it, and an entry replaces all of an
earlier entry of its id. Of the bytes that are written for a document a part can be read only if it ends
between two entries: the entries before that place are then read, each as it was written.
-/
namespace NamespaceTopology

namespace Keyed

variable {α : Type} {key : α → String}

/-- All elements of both, the new one where both have one of the same key. -/
def override (old new : Keyed key) : Keyed key := new.items.foldl (fun k x => k.insert x) old

theorem mem_override_iff {old new : Keyed key} {x : α} :
    x ∈ (old.override new).items ↔
      x ∈ new.items ∨ (x ∈ old.items ∧ ∀ y ∈ new.items, key x ≠ key y) :=
  mem_foldl_insert_iff new.distinct_items

theorem find?_override (old new : Keyed key) (id : String) :
    (old.override new).find? id = (new.find? id).or (old.find? id) := by
  refine Option.ext fun x => ?_
  rw [Option.or_eq_some_iff, find?_eq_some_iff, find?_eq_some_iff, find?_eq_none_iff,
    find?_eq_some_iff, mem_override_iff]
  constructor
  · rintro ⟨hnew | ⟨hold, hother⟩, rfl⟩
    · exact Or.inl ⟨hnew, rfl⟩
    · exact Or.inr ⟨fun y hy => (hother y hy).symm, hold, rfl⟩
  · rintro (⟨hnew, rfl⟩ | ⟨hother, hold, rfl⟩)
    · exact ⟨Or.inl hnew, rfl⟩
    · exact ⟨Or.inr ⟨hold, fun y hy => (hother y hy).symm⟩, rfl⟩

theorem override_empty (old : Keyed key) : old.override empty = old := rfl

theorem override_insert (old new : Keyed key) (x : α) :
    old.override (new.insert x) = (old.override new).insert x := by
  refine eq_of_mem_iff fun y => ?_
  rw [mem_override_iff, mem_insert_iff, mem_insert_iff, mem_override_iff]
  constructor
  · rintro ((rfl | ⟨hnew, hne⟩) | ⟨hold, hother⟩)
    · exact Or.inl rfl
    · exact Or.inr ⟨Or.inl hnew, hne⟩
    · refine Or.inr ⟨Or.inr ⟨hold, fun z hz => ?_⟩, hother x (mem_insert_iff.mpr (Or.inl rfl))⟩
      by_cases hsame : key z = key x
      · exact hsame ▸ hother x (mem_insert_iff.mpr (Or.inl rfl))
      · exact hother z (mem_insert_iff.mpr (Or.inr ⟨hz, hsame⟩))
  · rintro (rfl | ⟨hnew | ⟨hold, hother⟩, hne⟩)
    · exact Or.inl (Or.inl rfl)
    · exact Or.inl (Or.inr ⟨hnew, hne⟩)
    · refine Or.inr ⟨hold, fun z hz => ?_⟩
      rcases mem_insert_iff.mp hz with rfl | ⟨hz, _⟩
      · exact hne
      · exact hother z hz

end Keyed

theorem Value.topology_unreadable {v : Value} (h : Document.decode v.data = none) :
    v.topology = .error .unreadable := by
  rw [topology, h]

namespace Document

open Wire

/-! ### One document behind another -/

theorem merge_override (d d' : Document) (f : Field) :
    merge (d.override d') f = (merge d' f).map d.override := by
  unfold merge
  split
  · cases asBytes f.payload with
    | none => rfl
    | some bytes =>
      cases hpair : readPair (groupLimit - 1) bytes with
      | none => simp [hpair]
      | some pair => simp [hpair, Keyed.override_insert]
  · rfl

theorem foldlM_override (d d' : Document) (fs : List Field) :
    fs.foldlM merge (d.override d') = (fs.foldlM merge d').map d.override := by
  induction fs generalizing d' with
  | nil => rfl
  | cons f fs ih =>
    rw [List.foldlM_cons, List.foldlM_cons, merge_override]
    cases merge d' f with
    | none => rfl
    | some next => exact ih next

theorem decode_append_eq {first : List UInt8} {d : Document} (h : decode first = some d)
    (second : List UInt8) : decode (first ++ second) = (decode second).map d.override := by
  obtain ⟨fs, hfs, hfold⟩ := Option.bind_eq_some_iff.mp h
  rw [decode, decode, readFields_append hfs]
  cases readFields isEntry groupLimit second with
  | none => rfl
  | some gs =>
    have hrest := foldlM_override d Keyed.empty gs
    rw [Keyed.override_empty] at hrest
    simp [List.foldlM_append, hfold, hrest]

/-- Whatever bytes follow a document, they can be read with it just if they can be read alone, and then
its entries stay but for those whose ids come again: of these the later entries stand as they are. -/
theorem decode_append {first : List UInt8} {d : Document} (h : decode first = some d)
    (second : List UInt8) :
    ((decode (first ++ second)).isSome ↔ (decode second).isSome) ∧
    ∀ d', decode second = some d' → ∃ both, decode (first ++ second) = some both ∧
      ∀ id, both.find? id = (d'.find? id).or (d.find? id) := by
  have happend := decode_append_eq h second
  constructor
  · rw [happend, Option.isSome_map]
  · intro d' hd'
    exact ⟨d.override d', by rw [happend, hd', Option.map_some], Keyed.find?_override d d'⟩

/-- A new id, and then one that `Value.unusualValue` has, without the section that it has there. -/
def laterPairs : List (String × Entry) := [("b", .blank), ("a", { Entry.blank with bootstrap := true })]

theorem small_laterPairs : ∀ pair ∈ laterPairs, pair.1.utf8ByteSize < 9223372036854775808 := by
  have hb : "b".utf8ByteSize < 9223372036854775808 := by decide
  have ha : "a".utf8ByteSize < 9223372036854775808 := by decide
  simp [laterPairs, hb, ha]

theorem decode_append_later : ∃ both,
    decode (Value.unusualValue.data ++ encodePairs laterPairs) = some both ∧
      both.find? "a" = some ("a", { Entry.blank with bootstrap := true }) ∧
      both.find? "b" = some ("b", .blank) := by
  obtain ⟨d, hd⟩ := Option.isSome_iff_exists.mp
    (by decide +kernel : (decode Value.unusualValue.data).isSome)
  obtain ⟨both, hboth, hfind⟩ := (decode_append hd _).2 _ (decode_encodePairs small_laterPairs)
  exact ⟨both, hboth, by rw [hfind]; rfl, by rw [hfind]; rfl⟩

/-! ### Part of a document -/

theorem exists_cut {α β : Type} {write : α → List β} {xs : List α} {cut : List β}
    (hcut : cut <+: xs.flatMap write) (hne : cut ≠ xs.flatMap write) :
    ∃ before x after part, xs = before ++ x :: after ∧ cut = before.flatMap write ++ part ∧
      part <+: write x ∧ part ≠ write x := by
  induction xs generalizing cut with
  | nil => exact absurd (List.prefix_nil.mp hcut) hne
  | cons x xs ih =>
    rw [List.flatMap_cons] at hcut hne
    by_cases hwhole : write x <+: cut
    · obtain ⟨rest, rfl⟩ := hwhole
      rw [List.prefix_append_right_inj] at hcut
      obtain ⟨before, y, after, part, rfl, rfl, hpart, hshort⟩ :=
        ih hcut fun heq => hne (congrArg (write x ++ ·) heq)
      exact ⟨x :: before, y, after, part, rfl, by simp, hpart, hshort⟩
    · have hpart : cut <+: write x :=
        (List.prefix_or_prefix_of_prefix hcut (List.prefix_append ..)).resolve_right hwhole
      refine ⟨[], x, xs, cut, rfl, rfl, hpart, ?_⟩
      rintro rfl
      exact hwhole (List.prefix_refl _)

theorem decode_cut_inside {pairs : List (String × Entry)} {pair : String × Entry}
    (hids : ∀ p ∈ pair :: pairs, p.1.utf8ByteSize < 9223372036854775808) {part : List UInt8}
    (hpart : part <+: writeCounted 1 (encodePair pair))
    (hshort : part ≠ writeCounted 1 (encodePair pair)) (hsome : part ≠ []) :
    decode (encodePairs pairs ++ part) = none := by
  obtain ⟨hid, hids⟩ := List.forall_mem_cons.mp hids
  have hfits : ∀ f ∈ pairs.map entryField, f.Fits isEntry := by
    intro f hf
    obtain ⟨p, hp, rfl⟩ := List.mem_map.mp hf
    exact fits_entryField (hids p hp)
  have hpartial : readFields isEntry groupLimit part = none :=
    readFields_cut (spellsField_write (fits_entryField hid) groupLimit) hpart hshort hsome
  rw [decode, encodePairs_eq, readFields_write hfits, hpartial]
  rfl

/-- Of the entries of a document, written in any order, a part that ends between two of them gives the
entries before that place, unchanged, and a part that ends anywhere else cannot be read. -/
theorem decode_cut {d : Document} {pairs : List (String × Entry)} (hperm : pairs.Perm d.items)
    (hids : ∀ pair ∈ pairs, pair.1.utf8ByteSize < 9223372036854775808) {cut : List UInt8}
    (hcut : cut <+: encodePairs pairs) (hne : cut ≠ encodePairs pairs) :
    (∀ k < pairs.length, cut = encodePairs (pairs.take k) →
      ∃ part, decode cut = some part ∧ part.items.Perm (pairs.take k)) ∧
    ((∀ k < pairs.length, cut ≠ encodePairs (pairs.take k)) →
      decode cut = none ∧ ∀ version, (⟨version, cut⟩ : Value).topology = .error .unreadable) := by
  constructor
  · rintro k _ rfl
    have hdistinct : Keyed.Distinct Prod.fst (pairs.take k) :=
      (d.distinct_items.perm hperm).sublist (List.take_sublist k pairs)
    refine ⟨_, decode_encodePairs fun pair h => hids pair (List.mem_of_mem_take h), ?_⟩
    refine (List.perm_ext_iff_of_nodup (Keyed.distinct_items _).nodup hdistinct.nodup).mpr fun pair => ?_
    exact Keyed.mem_ofList_iff hdistinct
  · intro hinside
    -- The cut leaves whole entries and then a part of one, which is not empty here.
    obtain ⟨before, pair, after, part, rfl, rfl, hpart, hshort⟩ := exists_cut hcut hne
    have hsome : part ≠ [] := by
      rintro rfl
      refine hinside before.length (by simp) ?_
      rw [List.take_left, List.append_nil]
      rfl
    have hnone : decode (encodePairs before ++ part) = none := by
      refine decode_cut_inside (fun p hp => hids p ?_) hpart hshort hsome
      rcases List.mem_cons.mp hp with rfl | hp
      · exact List.mem_append_right _ List.mem_cons_self
      · exact List.mem_append_left _ hp
    exact ⟨hnone, fun version => Value.topology_unreadable (v := ⟨version, _⟩) hnone⟩

/-- The second of the two entries that are cut off has only its key and its count left. -/
theorem decode_cut_later :
    (∃ part, decode ((encodePairs laterPairs).take 5) = some part ∧
      part.items.Perm [("b", .blank)]) ∧
    decode ((encodePairs laterPairs).take 7) = none := by
  have hperm : laterPairs.Perm (Keyed.ofList laterPairs : Document).items :=
    List.Perm.swap _ _ []
  constructor
  · exact (decode_cut hperm small_laterPairs (List.take_prefix 5 _) (by decide +kernel)).1 1
      (by decide) (by decide +kernel)
  · exact ((decode_cut hperm small_laterPairs (List.take_prefix 7 _) (by decide +kernel)).2
      (by decide +kernel)).1

end Document

end NamespaceTopology
