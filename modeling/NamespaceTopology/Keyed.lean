set_option autoImplicit false

/-!
Finite collections with one element per key, kept in the byte order of the keys. Two collections with
the same elements are equal, whatever order built them. `Text.utf8` gives the bytes of a text and
`Text.ofUtf8?` reads them back.
-/
namespace NamespaceTopology

namespace Text

def utf8 (s : String) : List UInt8 := s.toByteArray.data.toList

def ofUtf8? (bytes : List UInt8) : Option String := String.fromUTF8? ⟨bytes.toArray⟩

theorem ofUtf8?_utf8 (s : String) : ofUtf8? (utf8 s) = some s := by
  simp [ofUtf8?, utf8, String.fromUTF8?, s.isValidUTF8, String.fromUTF8]

theorem utf8_of_ofUtf8? {bytes : List UInt8} {s : String} (h : ofUtf8? bytes = some s) :
    utf8 s = bytes := by
  simp only [ofUtf8?, String.fromUTF8?] at h
  split at h
  · cases h; simp [utf8, String.fromUTF8]
  · cases h

theorem utf8_inj {s t : String} (h : utf8 s = utf8 t) : s = t := by
  have hs := ofUtf8?_utf8 s
  rw [h, ofUtf8?_utf8] at hs
  exact (Option.some.inj hs).symm

end Text

/-- The byte order of texts. -/
def before (a b : String) : Prop := Text.utf8 a < Text.utf8 b

instance (a b : String) : Decidable (before a b) := inferInstanceAs (Decidable (_ < _))

/-- Elements in strictly ascending order of their keys. -/
structure Keyed {α : Type} (key : α → String) where
  items : List α
  ascending : items.Pairwise fun x y => before (key x) (key y)

theorem before_irrefl (a : String) : ¬ before a a := List.lt_irrefl (Text.utf8 a)

theorem before_trans {a b c : String} (hab : before a b) (hbc : before b c) : before a c :=
  List.lt_trans hab hbc

theorem before_of_not_before {a b : String} (h : ¬ before a b) (hne : a ≠ b) : before b a := by
  have hle : Text.utf8 b ≤ Text.utf8 a := h
  rcases List.le_iff_lt_or_eq.mp hle with hlt | heq
  · exact hlt
  · exact absurd (Text.utf8_inj heq).symm hne

namespace Keyed

variable {α : Type} {key : α → String}

instance [DecidableEq α] : DecidableEq (Keyed key) := fun a b =>
  if h : a.items = b.items then isTrue (by cases a; cases b; simp_all)
  else isFalse fun hab => h (by rw [hab])

theorem ext_items {a b : Keyed key} (h : a.items = b.items) : a = b := by
  cases a; cases b; simp_all

def empty : Keyed key := ⟨[], List.Pairwise.nil⟩

/-- The list with `x` in the place of its key. An element that holds the key gives way. -/
def place (key : α → String) (x : α) : List α → List α
  | [] => [x]
  | y :: ys =>
    if before (key x) (key y) then x :: y :: ys
    else if key x = key y then x :: ys
    else y :: place key x ys

theorem mem_place {x y : α} {ys : List α} (h : y ∈ place key x ys) : y = x ∨ y ∈ ys := by
  induction ys with
  | nil => simpa [place] using h
  | cons z zs ih =>
    simp only [place] at h
    split at h
    · simpa using h
    · split at h
      · simp only [List.mem_cons] at h ⊢
        exact h.imp id Or.inr
      · simp only [List.mem_cons] at h ⊢
        rcases h with h | h
        · exact Or.inr (Or.inl h)
        · exact (ih h).imp id Or.inr

theorem ascending_place {x : α} {ys : List α}
    (h : ys.Pairwise fun x y => before (key x) (key y)) :
    (place key x ys).Pairwise fun x y => before (key x) (key y) := by
  induction ys with
  | nil => simp [place]
  | cons z zs ih =>
    have hz := List.pairwise_cons.mp h
    simp only [place]
    split
    next hlt =>
      refine List.pairwise_cons.mpr ⟨fun y hy => ?_, h⟩
      rcases List.mem_cons.mp hy with rfl | hy
      · exact hlt
      · exact before_trans hlt (hz.1 y hy)
    next hlt =>
      split
      next heq => exact List.pairwise_cons.mpr ⟨fun y hy => heq ▸ hz.1 y hy, hz.2⟩
      next hne =>
        refine List.pairwise_cons.mpr ⟨fun y hy => ?_, ih hz.2⟩
        rcases mem_place hy with rfl | hy
        · exact before_of_not_before hlt hne
        · exact hz.1 y hy

/-- Adds an element. An element that holds its key gives way. -/
def insert (x : α) (k : Keyed key) : Keyed key := ⟨place key x k.items, ascending_place k.ascending⟩

def erase (id : String) (k : Keyed key) : Keyed key :=
  ⟨k.items.filter fun x => key x ≠ id, k.ascending.sublist List.filter_sublist⟩

def find? (k : Keyed key) (id : String) : Option α := k.items.find? fun x => key x = id

def keys (k : Keyed key) : List String := k.items.map key

def size (k : Keyed key) : Nat := k.items.length

def isEmpty (k : Keyed key) : Bool := k.items.isEmpty

/-- The elements of a list. Of two with one key the later stays. -/
def ofList (xs : List α) : Keyed key := xs.foldl (fun k x => k.insert x) empty

end Keyed

end NamespaceTopology
