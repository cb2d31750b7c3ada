import NamespaceTopology.Proofs.Node.Moves
import NamespaceTopology.Proofs.Registry.Acceptance
import NamespaceTopology.Proofs.Store.Tracking

set_option autoImplicit false

/-!
The watches that registries and calls hold on the store. Each has one holder and follows the holder's
key, and unless a signal is due the content of that key has nothing to bring to the registry.
-/
namespace NamespaceTopology

def Stage.remote? : Stage → Option Remote
  | .waiting remote _ => some remote
  | _ => none

namespace Node

inductive Holder where
  | registry (r : Nat)
  | call (a : Nat)

def Holds (n : Node) : Holder → Nat → Prop
  | .registry r, w => ∃ f, n.followers[r]? = some f ∧ f.remote = .watch w
  | .call a, w => ∃ x, n.attempts[a]? = some x ∧ x.stage.remote? = some (.watch w)

/-- The invariant of following, in which nothing is said of the content for the registry `loose`. -/
structure AttachedBut (loose : Option Nat) (n : Node) : Prop where
  bounded : n.store.Bounded
  registry : ∀ (r : Nat) (f : Follower) (w : Nat), n.followers[r]? = some f → f.remote = .watch w →
    n.store.Tracks w f.registry.key fun content => loose = some r ∨ f.registry.Settled content
  call : ∀ (a : Nat) (x : Attempt) (w : Nat), n.attempts[a]? = some x →
    x.stage.remote? = some (.watch w) → ∃ i : Initializer, n.initializers[x.initializer]? = some i ∧
      n.store.Tracks w i.options.key fun _ => True
  alone : ∀ h h' w, n.Holds h w → n.Holds h' w → h = h'

def Attached (n : Node) : Prop := n.AttachedBut none

theorem attached_start : start.Attached where
  bounded p hp := absurd hp List.not_mem_nil
  registry r f w hf := by simp [start] at hf
  call a x w hx := by simp [start] at hx
  alone h h' w hw := by
    cases h <;> simp [Holds, start] at hw

theorem AttachedBut.lt_of_holds {loose : Option Nat} {n : Node} (hn : n.AttachedBut loose)
    {h : Holder} {w : Nat} (hw : n.Holds h w) : w < n.store.watches.length := by
  cases h with
  | registry r =>
    obtain ⟨f, hf, hremote⟩ := hw
    exact (hn.registry r f w hf hremote).lt
  | call a =>
    obtain ⟨x, hx, hremote⟩ := hw
    obtain ⟨_, _, htracks⟩ := hn.call a x w hx hremote
    exact htracks.lt

/-! ### Changes that following does not notice -/

/-- A change that leaves every watch as it follows its key, every registry with what it follows and
serves, and nobody with a new watch. -/
structure Quiet (n n' : Node) : Prop where
  bounded : n.store.Bounded → n'.store.Bounded
  tracks : ∀ w key P, n.store.Tracks w key P → n'.store.Tracks w key P
  registry : ∀ (r : Nat) (f' : Follower), n'.followers[r]? = some f' →
    ∃ f : Follower, n.followers[r]? = some f ∧ f'.remote = f.remote ∧
      f'.registry.key = f.registry.key ∧
      ∀ content, f.registry.Settled content → f'.registry.Settled content
  call : ∀ (a : Nat) (x' : Attempt), n'.attempts[a]? = some x' → x'.stage.remote? ≠ none →
    ∃ x : Attempt, n.attempts[a]? = some x ∧ x'.initializer = x.initializer ∧
      x'.stage.remote? = x.stage.remote?
  initializer : ∀ (i : Nat) (y : Initializer), n.initializers[i]? = some y →
    ∃ y' : Initializer, n'.initializers[i]? = some y' ∧ y'.options = y.options

theorem Quiet.refl (n : Node) : Quiet n n where
  bounded h := h
  tracks _ _ _ h := h
  registry _ f hf := ⟨f, hf, rfl, rfl, fun _ h => h⟩
  call _ x hx _ := ⟨x, hx, rfl, rfl⟩
  initializer _ y hy := ⟨y, hy, rfl⟩

theorem Quiet.trans {n m k : Node} (h : Quiet n m) (h' : Quiet m k) : Quiet n k where
  bounded hn := h'.bounded (h.bounded hn)
  tracks w key P hw := h'.tracks w key P (h.tracks w key P hw)
  registry r f' hf' := by
    obtain ⟨f, hf, hremote, hkey, hsettled⟩ := h'.registry r f' hf'
    obtain ⟨g, hg, hremote', hkey', hsettled'⟩ := h.registry r f hf
    exact ⟨g, hg, hremote.trans hremote', hkey.trans hkey', fun c hc => hsettled c (hsettled' c hc)⟩
  call a x' hx' hwaits := by
    obtain ⟨x, hx, hinit, hstage⟩ := h'.call a x' hx' hwaits
    obtain ⟨y, hy, hinit', hstage'⟩ := h.call a x hx (hstage ▸ hwaits)
    exact ⟨y, hy, hinit.trans hinit', hstage.trans hstage'⟩
  initializer i y hy := by
    obtain ⟨y', hy', hoptions⟩ := h.initializer i y hy
    obtain ⟨z, hz, hoptions'⟩ := h'.initializer i y' hy'
    exact ⟨z, hz, hoptions'.trans hoptions⟩

theorem Quiet.of_core {n n' : Node} (h : n'.core = n.core) : Quiet n n' := by
  obtain ⟨hstore, hfollowers, hattempts, hinitializers⟩ := Core.mk.inj h
  refine ⟨?_, ?_, ?_, ?_, ?_⟩
  · rw [hstore]
    exact id
  · rw [hstore]
    exact fun _ _ _ hw => hw
  · rw [hfollowers]
    exact (Quiet.refl n).registry
  · rw [hattempts]
    exact (Quiet.refl n).call
  · rw [hinitializers]
    exact (Quiet.refl n).initializer

theorem Quiet.holds {n n' : Node} (hq : Quiet n n') {h : Holder} {w : Nat} (hw : n'.Holds h w) :
    n.Holds h w := by
  cases h with
  | registry r =>
    obtain ⟨f', hf', hremote⟩ := hw
    obtain ⟨f, hf, hsame, _⟩ := hq.registry r f' hf'
    exact ⟨f, hf, hsame ▸ hremote⟩
  | call a =>
    obtain ⟨x', hx', hremote⟩ := hw
    obtain ⟨x, hx, _, hsame⟩ := hq.call a x' hx' (by simp [hremote])
    exact ⟨x, hx, hsame ▸ hremote⟩

theorem AttachedBut.quiet {loose : Option Nat} {n n' : Node} (hn : n.AttachedBut loose)
    (hq : Quiet n n') : n'.AttachedBut loose where
  bounded := hq.bounded hn.bounded
  registry r f' w hf' hremote := by
    obtain ⟨f, hf, hsame, hkey, hsettled⟩ := hq.registry r f' hf'
    rw [hkey]
    have htracks := hq.tracks w _ _ (hn.registry r f w hf (hsame ▸ hremote))
    exact htracks.mono fun content hcontent => hcontent.imp_right (hsettled content)
  call a x' w hx' hremote := by
    obtain ⟨x, hx, hinit, hsame⟩ := hq.call a x' hx' (by simp [hremote])
    obtain ⟨i, hi, htracks⟩ := hn.call a x w hx (hsame ▸ hremote)
    obtain ⟨i', hi', hoptions⟩ := hq.initializer x.initializer i hi
    rw [hinit]
    refine ⟨i', hi', ?_⟩
    rw [hoptions]
    exact hq.tracks w _ _ htracks
  alone h h' w hw hw' := hn.alone h h' w (hq.holds hw) (hq.holds hw')

theorem Attached.quiet {n n' : Node} (hn : n.Attached) (hq : Quiet n n') : n'.Attached :=
  AttachedBut.quiet hn hq

/-! ### Quiet steps -/

theorem getElem?_modify_cases {α : Type} {xs : List α} {i j : Nat} {f : α → α} {y : α}
    (h : (xs.modify i f)[j]? = some y) : ∃ x, xs[j]? = some x ∧ (y = x ∨ y = f x) := by
  rw [List.getElem?_modify] at h
  obtain ⟨x, hx, rfl⟩ := Option.map_eq_some_iff.mp h
  refine ⟨x, hx, ?_⟩
  split
  · exact Or.inr rfl
  · exact Or.inl rfl

/-- A change of the store that keeps all that watches know of it. -/
theorem Quiet.of_store {n : Node} {store : Store} (hbounded : n.store.Bounded → store.Bounded)
    (htracks : ∀ w key P, n.store.Tracks w key P → store.Tracks w key P) :
    Quiet n { n with store } :=
  ⟨hbounded, htracks, (Quiet.refl n).registry, (Quiet.refl n).call, (Quiet.refl n).initializer⟩

theorem quiet_modifyFollower {r : Nat} {f : Follower → Follower} {n : Node}
    (hf : ∀ x, n.followers[r]? = some x → (f x).remote = x.remote ∧
      (f x).registry.key = x.registry.key ∧
      ∀ content, x.registry.Settled content → (f x).registry.Settled content) :
    Quiet n (n.modifyFollower r f) := by
  refine ⟨id, fun _ _ _ h => h, ?_, (Quiet.refl n).call, (Quiet.refl n).initializer⟩
  intro s f' hf'
  by_cases hs : r = s
  · subst hs
    obtain ⟨x, hx, rfl⟩ : ∃ x, n.followers[r]? = some x ∧ f x = f' := by
      simpa [modifyFollower] using hf'
    exact ⟨x, hx, hf x hx⟩
  · rw [modifyFollower, List.getElem?_modify_ne _ _ hs] at hf'
    exact ⟨f', hf', rfl, rfl, fun _ h => h⟩

theorem quiet_modifyAttempt (a : Nat) {f : Attempt → Attempt} (n : Node)
    (hinit : ∀ x, (f x).initializer = x.initializer)
    (hstage : ∀ x, (f x).stage.remote? = none ∨ (f x).stage.remote? = x.stage.remote?) :
    Quiet n (n.modifyAttempt a f) := by
  refine ⟨id, fun _ _ _ h => h, (Quiet.refl n).registry, ?_, (Quiet.refl n).initializer⟩
  intro b x' hx' hwaits
  obtain ⟨x, hx, rfl | rfl⟩ := getElem?_modify_cases hx'
  · exact ⟨x', hx, rfl, rfl⟩
  · exact ⟨x, hx, hinit x, (hstage x).resolve_left hwaits⟩

theorem quiet_modifyInitializer (i : Nat) {f : Initializer → Initializer} (n : Node)
    (hf : ∀ x, (f x).options = x.options) : Quiet n (n.modifyInitializer i f) := by
  refine ⟨id, fun _ _ _ h => h, (Quiet.refl n).registry, (Quiet.refl n).call, ?_⟩
  intro j y hy
  refine ⟨if i = j then f y else y, ?_, ?_⟩
  · simp [modifyInitializer, List.getElem?_modify, hy]
  · split
    · exact hf y
    · rfl

theorem quiet_tell (notices : List Notice) (n : Node) : Quiet n (n.tell notices) := .of_core rfl

theorem quiet_closeRemote (remote : Remote) (n : Node) : Quiet n (n.closeRemote remote) := by
  cases remote with
  | watch w => exact .of_store id fun _ _ _ h => h.closeWatch w
  | feed => exact .of_core rfl

theorem quiet_dropRemote (remote : Remote) (n : Node) : Quiet n (n.dropRemote remote) := by
  cases remote with
  | watch w => exact .of_store id fun _ _ _ h => h.dropWatch w
  | feed => exact .refl n

theorem quiet_endAttempt (a i : Nat) {stage : Stage} (hstage : stage.remote? = none) (n : Node) :
    Quiet n (n.endAttempt a i stage) := by
  have hend : Quiet n (n.modifyAttempt a fun x => { x with stage }) :=
    quiet_modifyAttempt a n (fun _ => rfl) fun _ => Or.inl hstage
  refine (hend.trans (quiet_modifyInitializer i _ ?_)).trans (.of_core rfl)
  intro x
  rfl

theorem quiet_fail (a i : Nat) (remote : Remote) (e : Error) (n : Node) :
    Quiet n (n.fail a i remote e) :=
  ((quiet_closeRemote remote n).trans (quiet_dropRemote remote _)).trans (quiet_endAttempt a i rfl _)

theorem quiet_abandon (a i : Nat) (stage : Stage) (n : Node) : Quiet n (n.abandon a i stage) := by
  unfold abandon
  cases stage with
  | waiting remote deadline => exact (quiet_dropRemote remote n).trans (quiet_endAttempt a i rfl _)
  | fresh | queued | finished _ | abandoned => exact quiet_endAttempt a i rfl n

/-- A registry that is closed has nothing more to apply. -/
theorem quiet_closeDynamic {r : Nat} {n m : Node} (h : n.closeDynamic r = .ok m) : Quiet n m := by
  obtain ⟨f, d, e, notices, hf, hc, rfl⟩ := closeDynamic_eq_ok h
  obtain ⟨hkey, hsettled⟩ := Dynamic.settled_close hc
  have hchange : Quiet n (n.modifyFollower r fun f => { f with registry := d }) := by
    refine quiet_modifyFollower fun x hx => ?_
    obtain rfl := Option.some.inj (hf.symm.trans hx)
    exact ⟨rfl, hkey, fun content _ => hsettled content⟩
  have htell : Quiet n (((n.modifyFollower r fun f => { f with registry := d }).setExposition
      f.exposition e).tell notices) := hchange.trans (.of_core rfl)
  exact htell.trans (quiet_closeRemote f.remote _)

theorem quiet_withdrawDynamic (r : Nat) (n : Node) : Quiet n (n.withdrawDynamic r) := by
  unfold withdrawDynamic
  split
  next => exact .refl n
  next f hf =>
    have hchange : Quiet n (n.modifyFollower r fun g =>
        { g with registry := (f.registry.withdraw (n.exposition f.exposition)).1 }) := by
      refine quiet_modifyFollower fun x hx => ?_
      obtain rfl := Option.some.inj (hf.symm.trans hx)
      exact ⟨rfl, rfl, fun _ h => h⟩
    exact hchange.trans (.of_core rfl)

theorem quiet_ensureClosed (r : Nat) (n : Node) : Quiet n (n.ensureClosed r) := by
  unfold ensureClosed
  split
  next m hm => exact quiet_closeDynamic hm
  next => exact .refl n

theorem quiet_readRemote (remote : Remote) (n : Node) : Quiet n (n.readRemote remote).1 := by
  have hstep := read_step remote n
  generalize (n.readRemote remote).1 = m at hstep ⊢
  cases hstep with
  | watch | feed _ => exact .of_core rfl
  | closes _ =>
    refine Quiet.trans ?_ (quiet_ensureClosed _ _)
    exact .of_core rfl

theorem quiet_endLoop (r : Nat) (n : Node) : Quiet n (n.endLoop r) := by
  have hdone : Quiet n (n.modifyFollower r fun f => { f with loopDone := true }) :=
    quiet_modifyFollower fun _ _ => ⟨rfl, rfl, fun _ h => h⟩
  exact hdone.trans (.of_core rfl)

theorem quiet_modifyHub (source : Source) (change : {α : Type} → Hub α → Hub α) (n : Node) :
    Quiet n (n.modifyHub source change) := by
  cases source with
  | hub h => exact .of_core rfl
  | static s => exact .of_core rfl
  | dynamic r => exact quiet_modifyFollower fun _ _ => ⟨rfl, rfl, fun _ h => h⟩

theorem quiet_next (source : Source) (id : Nat) (n : Node) : Quiet n (n.next source id).1 :=
  quiet_modifyHub source (fun h => (h.next id).1) n

theorem quiet_watch (source : Source) (n : Node) : Quiet n (n.occur (.watch source)) := by
  have hstep := watch_step source n
  generalize n.occur (.watch source) = m at hstep ⊢
  cases hstep with
  | refused _ | static _ _ | hub _ _ => exact .of_core rfl
  | dynamic hf hw =>
    obtain ⟨_, hub, _, rfl⟩ := Dynamic.watch_eq_ok hw
    refine quiet_modifyFollower fun x hx => ?_
    obtain rfl := Option.some.inj (hf.symm.trans hx)
    exact ⟨rfl, rfl, fun _ h => h⟩

theorem quiet_close (source : Source) (n : Node) : Quiet n (n.occur (.close source)) := by
  have hstep := close_step source n
  generalize n.occur (.close source) = m at hstep ⊢
  cases hstep with
  | refused _ | static _ _ | hub _ _ => exact .of_core rfl
  | dynamic hc => exact quiet_closeDynamic hc

theorem quiet_stepSamples (r : Nat) (n : Node) : Quiet n (n.stepSamples r) := by
  have hstep := sample_step r n
  generalize n.stepSamples r = m at hstep ⊢
  cases hstep with
  | gone _ | waits _ _ _ => exact .of_core rfl
  | ends _ _ =>
    have hdone : Quiet n (n.modifyFollower r fun f => { f with samplerDone := true }) :=
      quiet_modifyFollower fun _ _ => ⟨rfl, rfl, fun _ h => h⟩
    exact hdone.trans (.of_core rfl)
  | samples _ _ _ =>
    refine quiet_modifyFollower fun x _ => ?_
    obtain ⟨instruments, _, hsample⟩ := Dynamic.after_sample x.registry
    change x.registry.sample = _ at hsample
    simp only [hsample]
    exact ⟨trivial, trivial, fun _ h => h⟩

theorem quiet_stepConsumer (c : Nat) (n : Node) : Quiet n (n.stepConsumer c) := by
  have hstep := consume_step c n
  generalize n.stepConsumer c = m at hstep ⊢
  cases hstep with
  | gone _ => exact .of_core rfl
  | waits _ _ _ => exact quiet_next _ _ n
  | takes _ _ _ | stops _ _ _ => exact (quiet_next _ _ n).trans (.of_core rfl)

theorem quiet_release (h : Handles) (n : Node) : Quiet n (n.release h) := by
  refine release_related (R := Quiet) .refl (fun _ _ _ => .trans) (fun n i => ?_)
    (fun n _ _ => quiet_modifyHub _ _ n) h n
  -- Dropping a watch keeps all that is known of it.
  exact .of_store id fun w key P hw => hw.dropWatch i

end Node

end NamespaceTopology
