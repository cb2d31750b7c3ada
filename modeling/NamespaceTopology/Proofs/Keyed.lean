import Mathlib.Data.List.Nodup
import NamespaceTopology.Keyed

set_option autoImplicit false

/-!
Finite collections as sets of elements with different keys. A collection is determined by its elements,
an element that is added replaces the one with its key, and the order in which elements are added does not
matter as long as their keys differ.
-/
namespace NamespaceTopology.Keyed

variable {α : Type} {key : α → String}

theorem before_asymm {a b : String} (h : before a b) : ¬ before b a := fun h' =>
  before_irrefl a (before_trans h h')

theorem ne_of_before {a b : String} (h : before a b) : a ≠ b := by
  rintro rfl
  exact before_irrefl a h

def Distinct (key : α → String) (xs : List α) : Prop := xs.Pairwise fun x y => key x ≠ key y

theorem Distinct.perm {xs ys : List α} (h : Distinct key xs) (hperm : ys.Perm xs) :
    Distinct key ys :=
  (hperm.pairwise_iff Ne.symm).mpr h

theorem distinct_items (k : Keyed key) : Distinct key k.items := k.ascending.imp ne_of_before

theorem Distinct.nodup {xs : List α} (h : Distinct key xs) : xs.Nodup :=
  h.imp fun hne heq => hne (congrArg key heq)

theorem eq_of_perm {a b : Keyed key} (h : a.items.Perm b.items) : a = b := by
  refine ext_items (h.eq_of_pairwise ?_ a.ascending b.ascending)
  intro x y _ _ hxy hyx
  exact absurd hyx (before_asymm hxy)

theorem eq_of_mem_iff {a b : Keyed key} (h : ∀ x, x ∈ a.items ↔ x ∈ b.items) : a = b :=
  eq_of_perm ((List.perm_ext_iff_of_nodup a.distinct_items.nodup b.distinct_items.nodup).mpr h)

/-- Collections of any two kinds that have the same keys list them in the same order. -/
theorem keys_eq_of_perm {β : Type} {key' : β → String} {a : Keyed key} {b : Keyed key'}
    (h : a.keys.Perm b.keys) : a.keys = b.keys := by
  refine h.eq_of_pairwise ?_ (List.pairwise_map.mpr a.ascending) (List.pairwise_map.mpr b.ascending)
  intro x y _ _ hxy hyx
  exact absurd hyx (before_asymm hxy)

/-! ### Adding elements -/

theorem mem_place_iff {x y : α} {ys : List α}
    (h : ys.Pairwise fun a b => before (key a) (key b)) :
    x ∈ place key y ys ↔ x = y ∨ (x ∈ ys ∧ key x ≠ key y) := by
  induction ys with
  | nil => simp [place]
  | cons z zs ih =>
    obtain ⟨hz, hzs⟩ := List.pairwise_cons.mp h
    simp only [place]
    split
    next hlt =>
      have hafter (w : α) (hw : w ∈ z :: zs) : key w ≠ key y := by
        rcases List.mem_cons.mp hw with rfl | hw
        · exact (ne_of_before hlt).symm
        · exact (ne_of_before (before_trans hlt (hz w hw))).symm
      rw [List.mem_cons]
      exact or_congr_right ⟨fun hx => ⟨hx, hafter x hx⟩, And.left⟩
    next =>
      split
      next heq =>
        rw [List.mem_cons, List.mem_cons]
        refine or_congr_right ⟨fun hx => ⟨Or.inr hx, ?_⟩, ?_⟩
        · exact heq ▸ (ne_of_before (hz x hx)).symm
        · rintro ⟨rfl | hx, hne⟩
          · exact absurd heq.symm hne
          · exact hx
      next hne =>
        rw [List.mem_cons, List.mem_cons, ih hzs]
        constructor
        · rintro (rfl | rfl | ⟨hx, hne'⟩)
          · exact Or.inr ⟨Or.inl rfl, Ne.symm hne⟩
          · exact Or.inl rfl
          · exact Or.inr ⟨Or.inr hx, hne'⟩
        · rintro (rfl | ⟨rfl | hx, hne'⟩)
          · exact Or.inr (Or.inl rfl)
          · exact Or.inl rfl
          · exact Or.inr (Or.inr ⟨hx, hne'⟩)

/-- An element that is added replaces the one with its key. -/
theorem mem_insert_iff {x y : α} {k : Keyed key} :
    x ∈ (k.insert y).items ↔ x = y ∨ (x ∈ k.items ∧ key x ≠ key y) :=
  mem_place_iff k.ascending

/-- What the elements of a list leave of a collection to which they are added one after another. -/
theorem mem_foldl_insert_iff {x : α} {xs : List α} (h : Distinct key xs) {k : Keyed key} :
    x ∈ (xs.foldl (fun k x => k.insert x) k).items ↔
      x ∈ xs ∨ (x ∈ k.items ∧ ∀ y ∈ xs, key x ≠ key y) := by
  induction xs generalizing k with
  | nil => simp
  | cons y ys ih =>
    obtain ⟨hy, hys⟩ := List.pairwise_cons.mp h
    have hrest := ih hys (k := k.insert y)
    rw [mem_insert_iff] at hrest
    refine hrest.trans ?_
    rw [List.mem_cons, List.forall_mem_cons]
    constructor
    · rintro (hx | ⟨rfl | ⟨hx, hne⟩, hnone⟩)
      · exact Or.inl (Or.inr hx)
      · exact Or.inl (Or.inl rfl)
      · exact Or.inr ⟨hx, hne, hnone⟩
    · rintro ((rfl | hx) | ⟨hx, hne, hnone⟩)
      · exact Or.inr ⟨Or.inl rfl, hy⟩
      · exact Or.inl hx
      · exact Or.inr ⟨Or.inr ⟨hx, hne⟩, hnone⟩

theorem mem_ofList_iff {x : α} {xs : List α} (h : Distinct key xs) :
    x ∈ (ofList xs : Keyed key).items ↔ x ∈ xs := by
  rw [ofList, mem_foldl_insert_iff h]
  simp [empty]

/-- A collection is built from its elements in any order. -/
theorem ofList_of_perm {xs : List α} {k : Keyed key} (h : xs.Perm k.items) : ofList xs = k := by
  refine eq_of_mem_iff fun x => ?_
  rw [mem_ofList_iff (k.distinct_items.perm h), h.mem_iff]

theorem find?_eq_none_iff {k : Keyed key} {id : String} :
    k.find? id = none ↔ ∀ x ∈ k.items, key x ≠ id := by
  simp [find?]

theorem find?_insert_eq_none_iff {k : Keyed key} {x : α} {id : String} :
    (k.insert x).find? id = none ↔ key x ≠ id ∧ k.find? id = none := by
  rw [find?_eq_none_iff, find?_eq_none_iff]
  constructor
  · intro h
    have hx := h x (mem_insert_iff.mpr (Or.inl rfl))
    refine ⟨hx, fun y hy => ?_⟩
    by_cases hsame : key y = key x
    · exact hsame ▸ hx
    · exact h y (mem_insert_iff.mpr (Or.inr ⟨hy, hsame⟩))
  · rintro ⟨hx, hk⟩ y hy
    rcases mem_insert_iff.mp hy with rfl | ⟨hy, _⟩
    · exact hx
    · exact hk y hy

theorem key_of_find? {k : Keyed key} {id : String} {x : α} (h : k.find? id = some x) :
    key x = id := by
  simpa using List.find?_some h

theorem distinct_iff_nodup {xs : List α} : Distinct key xs ↔ (xs.map key).Nodup :=
  List.pairwise_map.symm

theorem find?_eq_some_iff {k : Keyed key} {id : String} {x : α} :
    k.find? id = some x ↔ x ∈ k.items ∧ key x = id := by
  constructor
  · intro h
    exact ⟨List.mem_of_find?_eq_some h, key_of_find? h⟩
  · rintro ⟨hx, rfl⟩
    cases hfind : k.find? (key x) with
    | none => exact absurd rfl (find?_eq_none_iff.mp hfind x hx)
    | some y =>
      have hy : y ∈ k.items := List.mem_of_find?_eq_some hfind
      have hsame : y = x := List.inj_on_of_nodup_map (distinct_iff_nodup.mp k.distinct_items) hy hx
        (key_of_find? hfind)
      exact congrArg some hsame

theorem find?_insert_of_ne {k : Keyed key} {x : α} {id : String}
    (h : key x ≠ id) : (k.insert x).find? id = k.find? id := by
  ext y
  rw [find?_eq_some_iff, find?_eq_some_iff, mem_insert_iff]
  constructor
  · rintro ⟨rfl | ⟨hy, _⟩, hid⟩
    · exact absurd hid h
    · exact ⟨hy, hid⟩
  · rintro ⟨hy, hid⟩
    exact ⟨Or.inr ⟨hy, fun heq => h (heq.symm.trans hid)⟩, hid⟩

end NamespaceTopology.Keyed
