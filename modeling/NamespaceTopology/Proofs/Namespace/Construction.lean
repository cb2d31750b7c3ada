import Mathlib.Data.List.Induction
import Mathlib.Data.List.Nodup
import NamespaceTopology.Proofs.Document.Topology

set_option autoImplicit false

/-!
Building a topology of namespaces that come one after another. It fails at the first namespace whose id has
come before, and otherwise holds each namespace under its id, in the byte order of the ids; the order in
which the namespaces came is forgotten.
-/
namespace NamespaceTopology

namespace Keyed

variable {α : Type} {key : α → String}

/-- The first element whose key has come before has this one. -/
def Repeats (key : α → String) (xs : List α) (id : String) : Prop :=
  ∃ earlier x later, xs = earlier ++ x :: later ∧ key x = id ∧ (earlier.map key).Nodup ∧
    id ∈ earlier.map key

/-- Either no key comes twice, or one is the first to do so. -/
theorem nodup_or_repeats (key : α → String) (xs : List α) :
    (xs.map key).Nodup ∨ ∃ id, Repeats key xs id := by
  -- From the end: a first repeat stays the first one whatever comes after it.
  induction xs using List.reverseRecOn with
  | nil => exact Or.inl List.nodup_nil
  | append_singleton xs x ih =>
    rcases ih with hnodup | ⟨id, earlier, y, later, rfl, hrepeats⟩
    · by_cases hx : key x ∈ xs.map key
      · exact Or.inr ⟨key x, xs, x, [], rfl, rfl, hnodup, hx⟩
      · refine Or.inl ?_
        rw [List.map_append, List.map_singleton, List.nodup_append]
        refine ⟨hnodup, List.nodup_singleton _, ?_⟩
        rintro a ha b hb rfl
        exact hx (List.mem_singleton.mp hb ▸ ha)
    · refine Or.inr ⟨id, earlier, y, later ++ [x], ?_, hrepeats⟩
      rw [List.append_assoc, List.cons_append]

end Keyed

namespace Topology

open Keyed (Repeats)

theorem extend_append {xs ys : List Namespace} {t t' : Topology} (h : extend t xs = .ok t') :
    extend t (xs ++ ys) = extend t' ys := by
  induction xs generalizing t with
  | nil =>
    obtain rfl := Except.ok.inj h
    rfl
  | cons n xs ih =>
    rw [extend] at h
    rw [List.cons_append, extend]
    split at h
    · cases h
    next hfree =>
      rw [if_neg hfree]
      exact ih h

theorem extend_ofList {ns : List Namespace} (h : (ns.map Namespace.id).Nodup) :
    extend Keyed.empty ns = .ok (Keyed.ofList ns) :=
  extend_eq_ok.mpr ⟨Keyed.distinct_iff_nodup.mpr h, fun _ _ => rfl, rfl⟩

/-- What follows the first namespace whose id has come before is not looked at. -/
theorem extend_of_repeats {ns : List Namespace} {id : String} (h : Repeats Namespace.id ns id) :
    extend Keyed.empty ns = .error (.duplicate id) := by
  obtain ⟨earlier, n, later, rfl, rfl, hnodup, hid⟩ := h
  obtain ⟨m, hm, hsame⟩ := List.mem_map.mp hid
  have hmem : m ∈ (Keyed.ofList earlier : Topology).items :=
    (Keyed.mem_ofList_iff (Keyed.distinct_iff_nodup.mpr hnodup)).mpr hm
  have hfind : (Keyed.ofList earlier : Topology).find? n.id = some m :=
    Keyed.find?_eq_some_iff.mpr ⟨hmem, hsame⟩
  rw [extend_append (extend_ofList hnodup), extend, hfind]
  rfl

theorem isEmpty_ofList {n : Namespace} {ns : List Namespace}
    (h : ((n :: ns).map Namespace.id).Nodup) : (Keyed.ofList (n :: ns) : Topology).isEmpty = false := by
  have hmem : n ∈ (Keyed.ofList (n :: ns) : Topology).items :=
    (Keyed.mem_ofList_iff (Keyed.distinct_iff_nodup.mpr h)).mpr List.mem_cons_self
  rw [Keyed.isEmpty, List.isEmpty_eq_false_iff]
  exact List.ne_nil_of_mem hmem

theorem ofNamespaces_of_nodup {n : Namespace} {ns : List Namespace}
    (h : ((n :: ns).map Namespace.id).Nodup) :
    ofNamespaces (n :: ns) = .ok (Keyed.ofList (n :: ns)) :=
  bind_eq_ok.mpr ⟨_, extend_ofList h, if_neg (Bool.eq_false_iff.mp (isEmpty_ofList h))⟩

theorem ofNamespaces_of_repeats {ns : List Namespace} {id : String}
    (h : Repeats Namespace.id ns id) : ofNamespaces ns = .error (.duplicate id) := by
  rw [ofNamespaces, extend_of_repeats h]
  rfl

/-- The three ways in which building a topology can end. -/
theorem ofNamespaces_cases (ns : List Namespace) :
    (ns = [] ∧ ofNamespaces ns = .error .noMetadata) ∨
    (∃ id, Repeats Namespace.id ns id ∧ ofNamespaces ns = .error (.duplicate id)) ∨
    (ns ≠ [] ∧ (ns.map Namespace.id).Nodup ∧ ofNamespaces ns = .ok (Keyed.ofList ns)) := by
  rcases Keyed.nodup_or_repeats Namespace.id ns with hnodup | ⟨id, hrepeats⟩
  · cases ns with
    | nil => exact Or.inl ⟨rfl, rfl⟩
    | cons n ns => exact Or.inr (Or.inr ⟨List.cons_ne_nil n ns, hnodup, ofNamespaces_of_nodup hnodup⟩)
  · exact Or.inr (Or.inl ⟨id, hrepeats, ofNamespaces_of_repeats hrepeats⟩)

theorem not_nodup_of_repeats {ns : List Namespace} {id : String} (h : Repeats Namespace.id ns id) :
    ¬ (ns.map Namespace.id).Nodup := by
  obtain ⟨earlier, n, later, rfl, rfl, _, hid⟩ := h
  rw [List.map_append, List.map_cons, List.nodup_append]
  rintro ⟨_, _, hdisjoint⟩
  exact hdisjoint n.id hid n.id List.mem_cons_self rfl

theorem repeats_ne_nil {ns : List Namespace} {id : String} (h : Repeats Namespace.id ns id) :
    ns ≠ [] := by
  obtain ⟨earlier, n, later, rfl, _⟩ := h
  exact List.append_ne_nil_of_right_ne_nil earlier (List.cons_ne_nil n later)

theorem exists_ofNamespaces_iff {ns : List Namespace} :
    (∃ t, ofNamespaces ns = .ok t) ↔ ns ≠ [] ∧ (ns.map Namespace.id).Nodup := by
  rcases ofNamespaces_cases ns with ⟨rfl, h⟩ | ⟨id, hrepeats, h⟩ | ⟨hsome, hnodup, h⟩
  · rw [h]
    simp
  · have hnot := not_nodup_of_repeats hrepeats
    rw [h]
    simp [hnot]
  · exact ⟨fun _ => ⟨hsome, hnodup⟩, fun _ => ⟨_, h⟩⟩

theorem ofNamespaces_eq_duplicate {ns : List Namespace} {id : String} :
    ofNamespaces ns = .error (.duplicate id) ↔ Repeats Namespace.id ns id := by
  refine ⟨fun herror => ?_, ofNamespaces_of_repeats⟩
  rcases ofNamespaces_cases ns with ⟨_, h⟩ | ⟨id', hrepeats, h⟩ | ⟨_, _, h⟩
  · rw [h] at herror
    cases herror
  · rw [h] at herror
    cases herror
    exact hrepeats
  · rw [h] at herror
    cases herror

theorem ofNamespaces_eq_noMetadata {ns : List Namespace} :
    ofNamespaces ns = .error .noMetadata ↔ ns = [] := by
  rcases ofNamespaces_cases ns with ⟨rfl, h⟩ | ⟨id, hrepeats, h⟩ | ⟨hsome, _, h⟩
  · exact ⟨fun _ => rfl, fun _ => h⟩
  · have hsome := repeats_ne_nil hrepeats
    simp [h, hsome]
  · simp [h, hsome]

theorem cause_of_ofNamespaces {ns : List Namespace} {cause : NamespaceError}
    (h : ofNamespaces ns = .error cause) : cause = .noMetadata ∨ ∃ id, cause = .duplicate id := by
  rcases ofNamespaces_cases ns with ⟨_, hend⟩ | ⟨id, _, hend⟩ | ⟨_, _, hend⟩
  · rw [hend] at h
    cases h
    exact Or.inl rfl
  · rw [hend] at h
    cases h
    exact Or.inr ⟨id, rfl⟩
  · rw [hend] at h
    cases h

structure Collects (t : Topology) (ns : List Namespace) : Prop where
  /-- In the byte order of the ids. -/
  ascending : t.keys.Pairwise fun a b => Text.utf8 a < Text.utf8 b
  size : t.size = ns.length
  found : ∀ id n, t.find? id = some n ↔ n ∈ ns ∧ n.id = id
  missing : ∀ id, t.find? id = none ↔ id ∉ ns.map Namespace.id
  /-- The namespace at a place is the one with the id at that place. -/
  aligned : ∀ (i : Nat) (id : String),
    t.keys[i]? = some id ↔ ∃ n, t.items[i]? = some n ∧ t.find? id = some n

theorem collects_of_perm {t : Topology} {ns : List Namespace} (h : ns.Perm t.items) :
    Collects t ns where
  ascending := List.pairwise_map.mpr t.ascending
  size := h.length_eq.symm
  found id n := by rw [Keyed.find?_eq_some_iff, h.mem_iff]
  missing id := by
    rw [Keyed.find?_eq_none_iff, List.mem_map]
    refine ⟨?_, ?_⟩
    · rintro hnone ⟨n, hn, hid⟩
      exact hnone n (h.mem_iff.mp hn) hid
    · exact fun hnone n hn hid => hnone ⟨n, h.mem_iff.mpr hn, hid⟩
  aligned i id := by
    rw [Keyed.keys, List.getElem?_map, Option.map_eq_some_iff]
    constructor
    · rintro ⟨n, hn, rfl⟩
      exact ⟨n, hn, Keyed.find?_eq_some_iff.mpr ⟨List.mem_of_getElem? hn, rfl⟩⟩
    · rintro ⟨n, hn, hfind⟩
      exact ⟨n, hn, Keyed.key_of_find? hfind⟩

/-- A topology is built of namespaces if there are any and no id comes twice. Otherwise the first id that
comes again is told, or that there are none. What is built holds these namespaces, and is the same for
every order in which they come. -/
theorem ofNamespaces_collects (ns : List Namespace) :
    ((∃ t, ofNamespaces ns = .ok t) ↔ ns ≠ [] ∧ (ns.map Namespace.id).Nodup) ∧
    (∀ id, ofNamespaces ns = .error (.duplicate id) ↔ Repeats Namespace.id ns id) ∧
    (ofNamespaces ns = .error .noMetadata ↔ ns = []) ∧
    (∀ cause, ofNamespaces ns = .error cause → cause = .noMetadata ∨ ∃ id, cause = .duplicate id) ∧
    ∀ t, ofNamespaces ns = .ok t →
      Collects t ns ∧ ∀ ns', ns'.Perm ns → ofNamespaces ns' = .ok t := by
  refine ⟨exists_ofNamespaces_iff, fun id => ofNamespaces_eq_duplicate, ofNamespaces_eq_noMetadata,
    fun cause => cause_of_ofNamespaces, fun t ht => ?_⟩
  obtain ⟨hsome, hitems⟩ := ofNamespaces_eq_ok.mp ht
  refine ⟨collects_of_perm hitems, fun ns' hperm => ?_⟩
  exact ofNamespaces_eq_ok.mpr ⟨hsome, hperm.trans hitems⟩

def usual (id : String) (hid : id ≠ "") : Namespace := ⟨id, .default, hid, rfl⟩

theorem a_ne_empty : "a" ≠ "" := by decide

theorem b_ne_empty : "b" ≠ "" := by decide

def unsorted : List Namespace := [usual "b" b_ne_empty, usual "a" a_ne_empty]

theorem ofNamespaces_collects_unsorted :
    (∃ t, ofNamespaces unsorted = .ok t ∧ Collects t unsorted ∧ t.keys = ["a", "b"] ∧
      ofNamespaces unsorted.reverse = .ok t) ∧
    ofNamespaces (unsorted ++ unsorted) = .error (.duplicate "b") := by
  constructor
  · obtain ⟨hok, _, _, _, hcollects⟩ := ofNamespaces_collects unsorted
    obtain ⟨t, ht⟩ := hok.mpr ⟨List.cons_ne_nil _ _, by decide⟩
    obtain ⟨hcollected, hreverse⟩ := hcollects t ht
    have hkeys : t = Keyed.ofList unsorted := Except.ok.inj (ht.symm.trans rfl)
    exact ⟨t, ht, hcollected, hkeys ▸ rfl, hreverse _ (List.reverse_perm unsorted)⟩
  · refine ((ofNamespaces_collects (unsorted ++ unsorted)).2.1 "b").mpr ?_
    exact ⟨unsorted, usual "b" b_ne_empty, [usual "a" a_ne_empty], rfl, rfl, by decide, by decide⟩

end Topology

end NamespaceTopology
