import Mathlib.Data.List.Perm.Basic
import NamespaceTopology.Config.Tree

set_option autoImplicit false

/-!
What the layers of sources make of one field of a section. Whatever lies below, the last entry that assigns
anything to the field decides what is there. Which values the entries of a source assign can be told from the
source alone, and in another order of its entries they are the same ones in another order.
-/
namespace NamespaceTopology.Config

def Tree.field? (sec name : String) (t : Tree) : Option Tree :=
  (t.entries.lookup sec).bind fun x => x.entries.lookup name

/-- A value as far as a setting can be made of it. An empty table only joins what is there and counts for
nothing. No setting can be made of an array or of any other table, so they all count as one. -/
def Tree.gist : Tree → Option Tree
  | .table [] => none
  | .table (_ :: _) | .array _ => some (.array [])
  | v => some v

def Tree.isTable : Tree → Bool
  | .table _ => true
  | _ => false

def Tree.joined (value : Tree) (old : Option Tree) : Tree :=
  match value with
  | .table incoming => Tree.assignAll incoming (old.getD (.table []))
  | value => value

theorem Tree.assign_eq (name : String) (value root : Tree) : Tree.assign name value root =
    .table (put (lower name) (value.joined (root.entries.lookup (lower name))) root.entries) := by
  cases value <;> rw [Tree.assign] <;> first | rfl | (intro _ h; cases h)

theorem Tree.lookup_assign (name other : String) (value root : Tree) :
    (Tree.assign name value root).entries.lookup other =
      if other = lower name then some (value.joined (root.entries.lookup other))
      else root.entries.lookup other := by
  rw [Tree.assign_eq]
  change (put _ _ _).lookup other = _
  rw [lookup_put]
  split
  next h => rw [h]
  next => rfl

/-- A longer path leads through what stands under its first name. -/
theorem Tree.lookup_place (s other : String) (step : Step) (path : List Step) (value root : Tree) :
    (Tree.place (.name s :: step :: path) value root).entries.lookup other =
      if other = s then some (Tree.place (step :: path) value ((root.entries.lookup other).getD .blank))
      else root.entries.lookup other := by
  rw [Tree.place]
  · change (put _ _ _).lookup other = _
    rw [lookup_put]
    split
    next h => rw [h]
    next => rfl
  · exact List.cons_ne_nil step path

theorem Tree.gist_of_ne_table {v : Tree} (h : ∀ es, v ≠ .table es) : ∃ w, v.gist = some w := by
  cases v with
  | table es => exact absurd rfl (h es)
  | blank | bool _ | int _ | float _ | text _ | array _ => exact ⟨_, rfl⟩

/-! ### Tables with something in them -/

theorem gist_table_put {α : Tree} (name : String) (es : List (String × Tree)) :
    (Tree.table (put name α es)).gist = some (.array []) := by
  cases es with
  | nil => rfl
  | cons e es =>
    unfold put
    split <;> rfl

theorem gist_assign (name : String) (value root : Tree) :
    (Tree.assign name value root).gist = some (.array []) := by
  rw [Tree.assign_eq]
  exact gist_table_put _ _

theorem gist_assignAll {incoming : List (String × Tree)} {root : Tree}
    (h : incoming ≠ [] ∨ root.gist = some (.array [])) :
    (Tree.assignAll incoming root).gist = some (.array []) := by
  induction incoming generalizing root with
  | nil => exact h.resolve_left fun hne => hne rfl
  | cons e es ih =>
    rw [Tree.assignAll]
    exact ih (Or.inr (gist_assign e.1 e.2 root))

theorem gist_place {path : List Step} (h : path ≠ []) (value root : Tree) :
    (Tree.place path value root).gist = some (.array []) := by
  unfold Tree.place
  split
  · exact absurd rfl h
  · exact gist_assign _ _ _
  · rfl
  · exact gist_table_put _ _
  · rfl

theorem Tree.gist_joined (value : Tree) (old : Option Tree) :
    (value.joined old).gist = value.gist.or (old.bind Tree.gist) := by
  cases value with
  | table incoming =>
    cases incoming with
    | nil =>
      rw [Tree.joined, Tree.assignAll]
      cases old <;> rfl
    | cons e es => exact gist_assignAll (Or.inl (List.cons_ne_nil e es))
  | blank | bool _ | int _ | float _ | text _ | array _ => rfl

/-! ### What is assigned -/

def assignedTo (name : String) (e : String × Tree) : List Tree :=
  if lower e.1 = name then e.2.gist.toList else []

/-- What a value assigns to a field when it is put where a path leads. -/
def assignedAlong (sec name : String) : List Step → Tree → List Tree
  | [.name s], value => if lower s = sec then value.entries.flatMap (assignedTo name) else []
  | [.name s, .name n], value => if s = sec then assignedTo name (n, value) else []
  | .name s :: .name n :: _, _ => if s = sec ∧ n = name then [.array []] else []
  | _, _ => []

def assigned (sec name : String) (source : List (String × Tree)) : List Tree :=
  source.flatMap fun e => assignedAlong sec name (path e.1) e.2

theorem gist_lookup_assign (name s : String) (value root : Tree) :
    ((Tree.assign s value root).entries.lookup name).bind Tree.gist =
      (assignedTo name (s, value)).getLast?.or ((root.entries.lookup name).bind Tree.gist) := by
  rw [Tree.lookup_assign]
  unfold assignedTo
  by_cases h : name = lower s
  · rw [if_pos h, if_pos h.symm, Option.bind_some, Tree.gist_joined]
    cases value.gist <;> rfl
  · rw [if_neg h, if_neg (Ne.symm h)]
    rfl

theorem gist_lookup_assignAll (name : String) (incoming : List (String × Tree)) (root : Tree) :
    ((Tree.assignAll incoming root).entries.lookup name).bind Tree.gist =
      (incoming.flatMap (assignedTo name)).getLast?.or ((root.entries.lookup name).bind Tree.gist) := by
  induction incoming generalizing root with
  | nil =>
    rw [Tree.assignAll]
    rfl
  | cons e es ih =>
    rw [Tree.assignAll, ih, gist_lookup_assign, List.flatMap_cons, List.getLast?_append, Option.or_assoc]

/-! ### Sections -/

/-- What is put where a path leads makes nothing but a table of a section. -/
def KeepsSection (sec : String) (path : List Step) (value : Tree) : Prop :=
  ∀ x ∈ (Tree.place path value (.table [])).entries.lookup sec, x.isTable = true

instance (sec : String) (path : List Step) (value : Tree) : Decidable (KeepsSection sec path value) :=
  inferInstanceAs (Decidable (∀ x ∈ (Tree.place path value (.table [])).entries.lookup sec, x.isTable = true))

/-- Such a value is put elsewhere, or its entries join the section, or its path goes on by a name. -/
theorem KeepsSection.cases {sec s : String} {path : List Step} {value : Tree}
    (h : KeepsSection sec (.name s :: path) value) :
    ((∀ t : Tree, (Tree.place (.name s :: path) value t).entries.lookup sec = t.entries.lookup sec) ∧
      ∀ name, assignedAlong sec name (.name s :: path) value = []) ∨
    (∃ incoming, sec = lower s ∧ path = [] ∧ value = .table incoming) ∨
    ∃ n path', sec = s ∧ path = .name n :: path' := by
  cases path with
  | nil =>
    by_cases hsec : sec = lower s
    · have htable := h (value.joined none) (by
        rw [Tree.place, Tree.lookup_assign, if_pos hsec]
        rfl)
      cases value with
      | table incoming => exact Or.inr (Or.inl ⟨incoming, hsec, rfl, rfl⟩)
      | blank | bool _ | int _ | float _ | text _ | array _ => cases htable
    · refine Or.inl ⟨fun t => ?_, fun name => if_neg (Ne.symm hsec)⟩
      rw [Tree.place, Tree.lookup_assign, if_neg hsec]
  | cons step path =>
    by_cases hsec : sec = s
    · cases step with
      | name n => exact Or.inr (Or.inr ⟨n, path, hsec, rfl⟩)
      | index n =>
        have htable := h _ (by rw [Tree.lookup_place, if_pos hsec]; rfl)
        cases path <;> cases htable
    · refine Or.inl ⟨fun t => ?_, fun name => ?_⟩
      · rw [Tree.lookup_place, if_neg hsec]
      · unfold assignedAlong
        split
        next heq => cases heq
        next heq =>
          obtain rfl := Step.name.inj (List.cons.inj heq).1
          exact if_neg (Ne.symm hsec)
        next heq =>
          obtain rfl := Step.name.inj (List.cons.inj heq).1
          exact if_neg fun hand => hsec hand.1.symm
        next => rfl

theorem entries_getD (c : Option Tree) (t : Tree) (name : String) (ht : t.entries = []) :
    (c.getD t).entries.lookup name = c.bind fun x => x.entries.lookup name := by
  cases c with
  | none =>
    rw [Option.getD_none, ht]
    rfl
  | some x => rfl

theorem KeepsSection.gist_place {sec s : String} {path : List Step} {value : Tree}
    (h : KeepsSection sec (.name s :: path) value) (name : String) (t : Tree) :
    ((Tree.place (.name s :: path) value t).field? sec name).bind Tree.gist =
      (assignedAlong sec name (.name s :: path) value).getLast?.or ((t.field? sec name).bind Tree.gist) := by
  rcases h.cases with ⟨helse, hnone⟩ | ⟨incoming, hsec, rfl, rfl⟩ | ⟨n, path, hsec, rfl⟩
  · rw [Tree.field?, helse, hnone]
    rfl
  · rw [Tree.field?, Tree.place, Tree.lookup_assign, if_pos hsec, Option.bind_some, Tree.joined,
      gist_lookup_assignAll, entries_getD _ _ _ rfl, assignedAlong, if_pos hsec.symm]
    rfl
  · rw [Tree.field?, Tree.lookup_place, if_pos hsec, Option.bind_some]
    have hbelow := entries_getD (t.entries.lookup sec) .blank name rfl
    cases path with
    | nil =>
      rw [Tree.place, gist_lookup_assign, hbelow, assignedAlong, if_pos hsec.symm]
      rfl
    | cons step path =>
      rw [Tree.lookup_place, assignedAlong]
      · by_cases hname : name = n
        · rw [if_pos hname, if_pos ⟨hsec.symm, hname.symm⟩, Option.bind_some,
            Config.gist_place (List.cons_ne_nil step path)]
          rfl
        · rw [if_neg hname, if_neg fun hand => hname hand.2.symm, hbelow]
          rfl
      · exact List.cons_ne_nil step path

theorem isTable_place (s : String) (path : List Step) (value t : Tree) :
    (Tree.place (.name s :: path) value t).isTable = true := by
  cases path with
  | nil =>
    rw [Tree.place, Tree.assign_eq]
    rfl
  | cons step path =>
    rw [Tree.place]
    · rfl
    · exact List.cons_ne_nil step path

theorem isTable_assignAll (incoming : List (String × Tree)) {t : Tree} (h : t.isTable = true) :
    (Tree.assignAll incoming t).isTable = true := by
  induction incoming generalizing t with
  | nil => rwa [Tree.assignAll]
  | cons e es ih =>
    rw [Tree.assignAll]
    refine ih ?_
    rw [Tree.assign_eq]
    rfl

def SectionIsTable (sec : String) (t : Tree) : Prop := ∀ x ∈ t.entries.lookup sec, x.isTable = true

theorem KeepsSection.isTable {sec s : String} {path : List Step} {value t : Tree}
    (h : KeepsSection sec (.name s :: path) value) (ht : SectionIsTable sec t) :
    SectionIsTable sec (Tree.place (.name s :: path) value t) := by
  intro x hx
  rcases h.cases with ⟨helse, _⟩ | ⟨incoming, hsec, rfl, rfl⟩ | ⟨n, path, hsec, rfl⟩
  · exact ht x (helse t ▸ hx)
  · rw [Tree.place, Tree.lookup_assign, if_pos hsec] at hx
    obtain rfl := Option.some.inj hx
    refine isTable_assignAll incoming ?_
    cases hold : t.entries.lookup sec with
    | none => rfl
    | some old => exact ht old hold
  · rw [Tree.lookup_place, if_pos hsec] at hx
    obtain rfl := Option.some.inj hx
    exact isTable_place n path value _

/-! ### Sources -/

theorem exists_path_eq (key : String) : ∃ s steps, path key = .name s :: steps := by
  unfold path
  simp only
  split
  · exact ⟨_, _, rfl⟩
  · exact ⟨_, _, rfl⟩

def KeepsTable (sec : String) (source : List (String × Tree)) : Prop :=
  ∀ e ∈ source, KeepsSection sec (path e.1) e.2

instance (sec : String) (source : List (String × Tree)) : Decidable (KeepsTable sec source) :=
  inferInstanceAs (Decidable (∀ e ∈ source, KeepsSection sec (path e.1) e.2))

/-- A field holds what the last entry of a source assigns to it, or else what it held before. -/
theorem KeepsTable.gist_layer {sec : String} {source : List (String × Tree)}
    (h : KeepsTable sec source) (name : String) (t : Tree) :
    ((t.layer source).field? sec name).bind Tree.gist =
      (assigned sec name source).getLast?.or ((t.field? sec name).bind Tree.gist) := by
  induction source generalizing t with
  | nil => rfl
  | cons e es ih =>
    obtain ⟨s, steps, hpath⟩ := exists_path_eq e.1
    have hkeeps : KeepsSection sec (.name s :: steps) e.2 := hpath ▸ h e List.mem_cons_self
    have hrest := ih (fun e' he' => h e' (List.mem_cons_of_mem e he')) (Tree.place (path e.1) e.2 t)
    change (((Tree.place (path e.1) e.2 t).layer es).field? sec name).bind Tree.gist = _
    rw [hrest, hpath, hkeeps.gist_place, ← hpath, ← Option.or_assoc, ← List.getLast?_append]
    rfl

theorem KeepsTable.isTable {sec : String} {source : List (String × Tree)}
    (h : KeepsTable sec source) {t : Tree} (ht : SectionIsTable sec t) :
    SectionIsTable sec (t.layer source) := by
  induction source generalizing t with
  | nil => exact ht
  | cons e es ih =>
    obtain ⟨s, steps, hpath⟩ := exists_path_eq e.1
    have hkeeps : KeepsSection sec (.name s :: steps) e.2 := hpath ▸ h e List.mem_cons_self
    refine ih (fun e' he' => h e' (List.mem_cons_of_mem e he')) ?_
    change SectionIsTable sec (Tree.place (path e.1) e.2 t)
    rw [hpath]
    exact hkeeps.isTable ht

/-! ### Orders -/

variable {es es' : List (String × Tree)}

theorem Reordered.eq_nil_iff (h : Reordered es es') : es = [] ↔ es' = [] := by
  induction h with
  | refl | swap | cons | inside => simp
  | trans _ _ ih ih' => exact ih.trans ih'

/-- What is told of each entry, and of a table whatever order its own entries have, is told in any order. -/
theorem Reordered.flatMap {α : Type} {g : String × Tree → List α}
    (hg : ∀ key es es', Reordered es es' → (g (key, .table es)).Perm (g (key, .table es')))
    (h : Reordered es es') : (es.flatMap g).Perm (es'.flatMap g) := by
  induction h with
  | refl es => exact List.Perm.refl _
  | swap e e' es => exact (List.Perm.swap e' e es).flatMap_right g
  | cons e _ ih =>
    rw [List.flatMap_cons, List.flatMap_cons]
    exact ih.append_left (g e)
  | inside key h rest _ =>
    rw [List.flatMap_cons, List.flatMap_cons]
    exact (hg key _ _ h).append_right _
  | trans _ _ ih ih' => exact ih.trans ih'

theorem Reordered.gist_table (h : Reordered es es') : (Tree.table es).gist = (Tree.table es').gist := by
  have hiff := h.eq_nil_iff
  cases es <;> cases es' <;> simp [Tree.gist] at hiff ⊢

theorem Reordered.assignedTo (h : Reordered es es') (name key : String) :
    assignedTo name (key, .table es) = assignedTo name (key, .table es') := by
  rw [Config.assignedTo, h.gist_table]
  rfl

theorem Reordered.assignedAlong (h : Reordered es es') (sec name : String) (path : List Step) :
    (assignedAlong sec name path (.table es)).Perm (assignedAlong sec name path (.table es')) := by
  unfold Config.assignedAlong
  split
  · split
    · exact h.flatMap fun key es es' h => by rw [h.assignedTo]
    · exact List.Perm.refl []
  · rw [h.assignedTo]
  · exact List.Perm.refl _
  · exact List.Perm.refl []

theorem Reordered.assigned (h : Reordered es es') (sec name : String) :
    (assigned sec name es).Perm (assigned sec name es') :=
  h.flatMap fun key _ _ h => h.assignedAlong sec name (path key)

theorem keepsSection_table (sec s : String) (es : List (String × Tree)) :
    KeepsSection sec [.name s] (.table es) := by
  intro x hx
  rw [Tree.place, Tree.lookup_assign] at hx
  split at hx
  · obtain rfl := Option.some.inj hx
    exact isTable_assignAll es rfl
  · cases hx

/-- Whether a table keeps a section does not depend on what is in it. -/
theorem KeepsSection.of_table {sec s : String} {path : List Step}
    (h : KeepsSection sec (.name s :: path) (.table es)) : KeepsSection sec (.name s :: path) (.table es') := by
  cases path with
  | nil => exact keepsSection_table sec s es'
  | cons step path =>
    intro x hx
    rw [Tree.lookup_place] at hx
    split at hx
    next hsec =>
      obtain rfl := Option.some.inj hx
      cases step with
      | name n => exact isTable_place n path _ _
      | index n =>
        have htable := h _ (by rw [Tree.lookup_place, if_pos hsec]; rfl)
        cases path <;> cases htable
    next => cases hx

theorem KeepsTable.of_reordered {sec : String} (hkeeps : KeepsTable sec es) (h : Reordered es es') :
    KeepsTable sec es' := by
  induction h with
  | refl => exact hkeeps
  | swap e e' es =>
    intro d hd
    exact hkeeps d ((List.Perm.swap e e' es).mem_iff.mp hd)
  | cons e _ ih =>
    obtain ⟨hfirst, hrest⟩ := List.forall_mem_cons.mp hkeeps
    exact List.forall_mem_cons.mpr ⟨hfirst, ih hrest⟩
  | inside key _ rest _ =>
    obtain ⟨hfirst, hrest⟩ := List.forall_mem_cons.mp hkeeps
    refine List.forall_mem_cons.mpr ⟨?_, hrest⟩
    obtain ⟨s, steps, hpath⟩ := exists_path_eq key
    simp only [hpath] at hfirst ⊢
    exact hfirst.of_table
  | trans _ _ ih ih' => exact ih' (ih hkeeps)

end NamespaceTopology.Config
