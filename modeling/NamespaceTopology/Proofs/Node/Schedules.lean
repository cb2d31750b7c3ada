import NamespaceTopology.Proofs.Node.Changes
import NamespaceTopology.Proofs.Node.Deliveries
import NamespaceTopology.Proofs.Node.Following

set_option autoImplicit false

/-!
The order in which writes and tasks take turns does not matter. However the writes to a key interleave
with everything else, a registry that follows the key serves what was written last once its update loop
is at rest, and whoever has taken everything from a watch on it has seen just that.
-/
namespace NamespaceTopology.Node

open NamespaceTopology.Dynamic (Move SeenLast)

/-! ### What a key holds -/

def written? (key : String) (n : Node) : Event → Option (Option Value)
  | .store e => e.written? key n.store
  | _ => none

def writtenAlong (key : String) : Node → List Event → List (Option Value)
  | _, [] => []
  | n, e :: es => (n.written? key e).toList ++ writtenAlong key (n.occur e) es

/-- A store is as sound as another one and holds the same, and what has ended there has ended here. -/
structure Carries (s s' : Store) : Prop where
  sound : s.Sound → s'.Sound
  get : s.Sound → ∀ key, s'.get key = s.get key
  ended : ∀ w, s.Ended w → s'.Ended w

theorem Carries.refl (s : Store) : Carries s s := ⟨id, fun _ _ => rfl, fun _ => id⟩

theorem Carries.trans {s t u : Store} (h : Carries s t) (h' : Carries t u) : Carries s u :=
  ⟨fun hs => h'.sound (h.sound hs), fun hs key => (h'.get (h.sound hs) key).trans (h.get hs key),
    fun w hw => h'.ended w (h.ended w hw)⟩

theorem carries_occur {e : Store.Event} (he : e.writes = false) (s : Store) :
    Carries s (s.occur e) := by
  refine ⟨fun hs => hs.occur e, fun hs key => ?_, fun w hw => hw.occur e⟩
  rw [hs.get_occur key e, Store.written?_of_not_writes he]
  rfl

theorem Changes.carries {C : Nat → Prop} {n n' : Node} (h : Changes C n n') :
    Carries n.store n'.store := by
  refine h.keep (P := fun m => Carries n.store m.store) (fun m k hc hm => ?_) (.refl n.store)
  rcases hc.store_cases with hsame | ⟨e, he, hstore⟩
  · rw [hsame]
    exact hm
  · rw [hstore]
    exact hm.trans (carries_occur he m.store)

theorem carries_of_indirect {n : Node} {e : Event} (he : e.isDirect = false) :
    Carries n.store (n.occur e).store := by
  obtain ⟨m, hm, hsame | ⟨f, hf⟩⟩ := becomes_occur he n
  · have hstore : (n.occur e).store = m.store := congrArg Inner.store hsame
    rw [hstore]
    exact hm.carries
  · rw [hf.store]
    exact hm.carries

/-- After an event a key holds what the event writes to it, and else what it held before. -/
theorem get_occur {n : Node} (hs : n.store.Sound) (e : Event) :
    (n.occur e).store.Sound ∧
    (∀ key, (n.occur e).store.get key = (n.written? key e).getD (n.store.get key)) ∧
    ∀ w, n.store.Ended w → (n.occur e).store.Ended w := by
  have hcarries (h : Carries n.store (n.occur e).store) (hnone : ∀ key, n.written? key e = none) :
      (n.occur e).store.Sound ∧
      (∀ key, (n.occur e).store.get key = (n.written? key e).getD (n.store.get key)) ∧
      ∀ w, n.store.Ended w → (n.occur e).store.Ended w := by
    refine ⟨h.sound hs, fun key => ?_, h.ended⟩
    rw [hnone key]
    exact h.get hs key
  cases hdirect : e.isDirect with
  | false =>
    refine hcarries (carries_of_indirect hdirect) fun key => ?_
    cases e <;> first | rfl | cases hdirect
  | true =>
    cases e with
    | store e => exact ⟨hs.occur e, fun key => hs.get_occur key e, fun w hw => hw.occur e⟩
    | closeOnRead r => exact hcarries (.refl n.store) fun _ => rfl
    | register exposition c =>
      have hstore : (n.occur (.register exposition c)).store = n.store :=
        congrArg Core.store (core_register exposition c n)
      refine hcarries ?_ fun _ => rfl
      rw [hstore]
      exact .refl n.store
    | _ => cases hdirect

theorem sound_run {n : Node} (hs : n.store.Sound) (es : List Event) : (n.run es).store.Sound := by
  induction es generalizing n with
  | nil => exact hs
  | cons e es ih => exact ih (get_occur hs e).1

/-! ### What a registry reads -/

theorem contentOf_of_stays {s s' : Store} {w : Nat} {x : Watch} (hx : s.watches[w]? = some x)
    (hcells : s'.cells = s.cells) (hstays : s.Stays s') : s'.contentOf w = s.contentOf w := by
  obtain ⟨x', hx', hcell⟩ := hstays w x hx
  simp only [Store.contentOf, Store.contentAt, hx, hx', hcell, hcells, Option.bind_some]

theorem reading?_watch {r w : Nat} {n : Node} {f : Follower} (hf : n.followers[r]? = some f)
    (hremote : f.remote = .watch w) (hw : w < n.store.watches.length) {content : Option Value}
    (h : n.reading? r = some content) : content = n.store.contentOf w := by
  have hlook : (n.store.look w).1.contentOf w = n.store.contentOf w :=
    contentOf_of_stays (List.getElem?_eq_getElem hw) (Store.cells_look w n.store).2
      (Store.stays_occur n.store (.look w))
  simp only [reading?, hf, hremote] at h
  split at h
  · cases h
  · split at h
    next m htake =>
      have hm : m.store = (n.store.look w).1 := by
        have htake := congrArg (fun p : Node × Signal => p.1.store) htake
        exact htake.symm
      obtain rfl := Option.some.inj h
      change m.store.contentOf w = _
      rw [hm, hlook]
    next => cases h

theorem follower_of_reading? {r : Nat} {n : Node} {content : Option Value} (h : n.reading? r = some content) :
    ∃ f, n.followers[r]? = some f ∧ f.registry.closed = false ∧
      (n.takeSignal f.remote).2 = .changed := by
  unfold reading? at h
  split at h
  · cases h
  next f hf =>
    split at h
    · cases h
    next hopen =>
      split at h
      next htake => exact ⟨f, hf, Bool.eq_false_iff.mpr hopen, congrArg Prod.snd htake⟩
      next => cases h

/-- A registry is handed something only if its own loop has a turn and was signalled. -/
theorem handed_of_allows {r : Nat} {n : Node} {e : Event} (he : n.Allows e) : n.handed r e = [] ∨
    (e = .turn (.updates r) ∧ ∃ content, n.reading? r = some content ∧ n.handed r e = [content]) := by
  cases e with
  | wake s content => cases he
  | turn t =>
    cases t with
    | updates s =>
      by_cases hs : s = r
      · subst hs
        cases hread : n.reading? s with
        | none => exact Or.inl (by simp [handed, hread])
        | some content => exact Or.inr ⟨rfl, content, rfl, by simp [handed, hread]⟩
      · exact Or.inl (if_neg hs)
    | samples _ | attempt _ | consumer _ => exact Or.inl rfl
  | _ => exact Or.inl rfl

/-! ### A registry that starts -/

/-- A registry that was not there before an event is founded by it. -/
theorem founded_of_new {r : Nat} {n : Node} {e : Event} {f : Follower}
    (hnew : n.registryAt r = none) (hf : (n.occur e).followers[r]? = some f) :
    ∃ m, Founds m (n.occur e) f := by
  have hlength : n.followers.length ≤ r := by
    rw [registryAt, Option.map_eq_none_iff] at hnew
    exact List.getElem?_eq_none_iff.mp hnew
  have hlt := (List.getElem?_eq_some_iff.mp hf).1
  have hdirect : e.isDirect = false := by
    cases he : e.isDirect with
    | false => rfl
    | true =>
      have hsame : (n.occur e).followers = n.followers := by
        cases e with
        | store _ | closeOnRead _ => rfl
        | register exposition c => exact congrArg Core.followers (core_register exposition c n)
        | _ => cases he
      rw [hsame] at hlt
      omega
  obtain ⟨m, hm, hsame | ⟨g, hg⟩⟩ := becomes_occur hdirect n
  · have hfollowers : (n.occur e).followers = m.followers := congrArg Inner.followers hsame
    rw [hfollowers, hm.length_followers] at hlt
    omega
  · refine ⟨m, ?_⟩
    have hfollowers := hg.followers
    rw [hfollowers, List.getElem?_append_right (by rw [hm.length_followers]; exact hlength)] at hf
    obtain rfl := List.mem_singleton.mp (List.mem_of_getElem? hf)
    exact hg

/-! ### What the last write leads to -/

structure Steady (r w : Nat) (key : String) (n : Node) : Prop where
  attached : n.Attached
  sound : n.store.Sound
  coherent : n.Coherent
  follower : ∃ f, n.followers[r]? = some f ∧ f.remote = .watch w ∧ f.registry.key = key

theorem Steady.occur {r w : Nat} {key : String} {n : Node} (h : n.Steady r w key) {e : Event}
    (he : n.Allows e) : (n.occur e).Steady r w key := by
  refine ⟨h.attached.occur he, (get_occur h.sound e).1, h.coherent.occur e, ?_⟩
  obtain ⟨f, hf, hremote, hkey⟩ := h.follower
  obtain ⟨f', hf', hpersists⟩ := persists_occur hf e
  exact ⟨f', hf', hpersists.remote.trans hremote, hpersists.key.trans hkey⟩

theorem Steady.run {r w : Nat} {key : String} {n : Node} (h : n.Steady r w key) {es : List Event}
    (hes : n.Orderly es) : (n.run es).Steady r w key := by
  induction es generalizing n with
  | nil => exact h
  | cons e es ih => exact ih (h.occur hes.1) hes.2

/-- Unless the key was closed it holds the last of some values, and the registry stores one of them. -/
def Follows (r w : Nat) (key : String) (vs : List Value) (n : Node) : Prop :=
  n.store.Ended w ∨ (n.store.get key = vs.getLast? ∧
    ∃ d v, n.registryAt r = some d ∧ d.value = some v ∧ v ∈ vs)

/-- What a registry stores after an event it stored before, or it has just been handed that. -/
theorem Traced.value_cases {r : Nat} {n : Node} {e : Event} {d k : Dynamic} {last : Option Move}
    (ht : Traced r n e d k last) (hco : d.Coherent) : (k.run last.toList).value = d.value ∨
      (k.run last.toList).value ∈ n.handed r e := by
  have halike := ht.alike hco
  rw [ht.handed]
  cases hlast : last.bind Move.content? with
  | none =>
    left
    have hnone : last.toList.filterMap Move.content? = [] := by
      cases last with
      | none => rfl
      | some m => exact List.filterMap_cons_none hlast
    exact (halike.trans (Dynamic.alike_run (ht.coherent hco) hnone)).value
  | some content =>
    obtain ⟨m, rfl, hm⟩ := Option.bind_eq_some_iff.mp hlast
    obtain rfl := Move.content?_eq_some hm
    have hafter : k.run (some (Move.receive content)).toList = (k.receive content).1 := rfl
    rw [hafter]
    rcases Dynamic.receive_cases (ht.coherent hco) content with ⟨v, t, hub, hok, _, hr⟩ | ⟨_, _, hr⟩ |
      ⟨_, hr⟩
    · right
      obtain ⟨hcontent, _⟩ := Dynamic.examine_eq_ok.mp hok
      rw [hr, hcontent]
      exact List.mem_cons_self
    · left
      rw [hr]
      exact halike.value
    · left
      rw [hr]
      exact halike.value

/-- What a registry stores after an event it stored before, or it was the content of the key. -/
theorem Steady.value_occur {r w : Nat} {key : String} {n : Node} (h : n.Steady r w key) {e : Event}
    (he : n.Allows e) (hlive : ¬ n.store.Ended w) {d : Dynamic} (hd : n.registryAt r = some d) :
    ∃ d', (n.occur e).registryAt r = some d' ∧
      (d'.value = d.value ∨ d'.value = n.store.get key) := by
  obtain ⟨k, last, ht⟩ := exists_traced hd e
  refine ⟨_, ht.registry, (ht.value_cases (h.coherent r d hd)).imp_right fun hmem => ?_⟩
  rcases handed_of_allows (r := r) he with hnothing | ⟨_, content, hread, hhanded⟩
  · rw [hnothing] at hmem
    cases hmem
  · obtain ⟨f, hf, hremote, hkey⟩ := h.follower
    have htracks := h.attached.registry r f w hf hremote
    rw [hhanded] at hmem
    rw [List.mem_singleton.mp hmem, reading?_watch hf hremote htracks.lt hread,
      htracks.contentOf_eq_get hlive, hkey]

theorem Follows.occur {r w : Nat} {key : String} {vs us : List Value} {n : Node}
    (h : n.Follows r w key vs) (hn : n.Steady r w key) {e : Event} (he : n.Allows e)
    (hus : (n.written? key e).toList = us.map some) : (n.occur e).Follows r w key (vs ++ us) := by
  obtain ⟨_, hget, hended⟩ := get_occur hn.sound e
  by_cases hlive : n.store.Ended w
  · exact Or.inl (hended w hlive)
  right
  obtain ⟨hlast, d, v, hd, hv, hmem⟩ := h.resolve_left hlive
  refine ⟨?_, ?_⟩
  · rw [hget, hlast]
    cases hwritten : n.written? key e with
    | none =>
      rw [hwritten] at hus
      rw [List.map_eq_nil_iff.mp hus.symm, List.append_nil]
      rfl
    | some content =>
      rw [hwritten] at hus
      obtain ⟨u, rfl, hu⟩ := List.map_eq_singleton_iff.mp hus.symm
      rw [List.getLast?_concat, ← hu]
      rfl
  · obtain ⟨d', hd', hvalue⟩ := hn.value_occur he hlive hd
    rcases hvalue with hsame | hnew
    · exact ⟨d', v, hd', hsame.trans hv, List.mem_append_left us hmem⟩
    · rw [hlast] at hnew
      obtain ⟨u, hu⟩ : ∃ u, vs.getLast? = some u :=
        ⟨_, List.getLast?_eq_some_getLast (List.ne_nil_of_mem hmem)⟩
      exact ⟨d', u, hd', hnew.trans hu, List.mem_append_left us (List.mem_of_getLast? hu)⟩

theorem Follows.run {r w : Nat} {key : String} {vs us : List Value} {n : Node}
    (h : n.Follows r w key vs) (hn : n.Steady r w key) {es : List Event} (hes : n.Orderly es)
    (hus : n.writtenAlong key es = us.map some) : (n.run es).Follows r w key (vs ++ us) := by
  induction es generalizing n vs us with
  | nil =>
    rw [List.map_eq_nil_iff.mp hus.symm, List.append_nil]
    exact h
  | cons e es ih =>
    obtain ⟨us₁, us₂, rfl, h₁, h₂⟩ := List.map_eq_append_iff.mp hus.symm
    have hstep := h.occur hn hes.1 h₁.symm
    rw [← List.append_assoc]
    exact ih hstep (hn.occur hes.1) hes.2 h₂.symm

theorem eq_last_of_le {vs : List Value} {v last : Value}
    (hrising : vs.Pairwise fun u v => u.version < v.version) (hlast : vs.getLast? = some last)
    (hmem : v ∈ vs) (hle : last.version ≤ v.version) : v = last := by
  obtain ⟨before, rfl⟩ := List.getLast?_eq_some_iff.mp hlast
  rcases List.mem_append.mp hmem with hold | hsame
  · have hlt := (List.pairwise_append.mp hrising).2.2 v hold last List.mem_cons_self
    exact absurd hle (Int64.not_le.mpr hlt)
  · exact List.mem_singleton.mp hsame

/-- At rest an open registry serves what was written last. -/
theorem Follows.served_last {r w : Nat} {key : String} {vs : List Value} {n : Node}
    (h : n.Follows r w key vs) (hn : n.Steady r w key)
    (hopen : ∀ d, n.registryAt r = some d → d.closed = false)
    (hrest : n.signal (.watch w) = .waiting)
    (hrising : vs.Pairwise fun u v => u.version < v.version)
    (hparse : ∀ v ∈ vs, ∃ t, v.topology = .ok t) :
    ∃ d v last, n.registryAt r = some d ∧ d.value = some v ∧ vs.getLast? = some last ∧
      last.topology = .ok d.topology := by
  obtain ⟨hget, d, v, hd, hv, hmem⟩ := h.resolve_left (Store.not_ended_of_waiting hrest)
  obtain ⟨last, hlast⟩ : ∃ u, vs.getLast? = some u :=
    ⟨_, List.getLast?_eq_some_getLast (List.ne_nil_of_mem hmem)⟩
  refine ⟨d, v, last, hd, hv, hlast, ?_⟩
  obtain ⟨f, hf, hremote, hkey⟩ := hn.follower
  have hfd : f.registry = d := by
    rw [registryAt, hf] at hd
    exact Option.some.inj hd
  have hsettled := (hn.attached.registry r f w hf hremote).get_of_waiting hrest
  rw [hkey, hget, hlast, hfd] at hsettled
  have hbrought := (hsettled.resolve_left (by simp)) (hopen d hd)
  rcases not_brought hbrought with ⟨u, hu, hle⟩ | ⟨cause, herror⟩ | hok
  · rw [hv] at hu
    obtain rfl := Option.some.inj hu
    obtain rfl := eq_last_of_le hrising hlast hmem hle
    exact (hn.coherent r d hd).stored v hv
  · obtain ⟨t, ht⟩ := hparse last (List.mem_of_getLast? hlast)
    rw [ht] at herror
    cases herror
  · exact hok

/-! ### What a watch was delivered last -/

theorem Traced.seenLast {r id : Nat} {n : Node} {e : Event} {d k : Dynamic} {last : Option Move}
    (ht : Traced r n e d k last) (hco : d.Coherent) {t : Option Topology} (h : SeenLast id t d) :
    ∃ t', SeenLast id t' (k.run last.toList) ∧ t'.map Item.topology =
      ((n.answer (.dynamic r) id e).bind Delivery.value?).or (t.map .topology) := by
  have hends : SeenLast id t k := by
    obtain ⟨ms, hms, rfl⟩ := ht.ends
    exact h.ends hco hms
  rw [ht.answer id]
  cases last with
  | none => exact ⟨t, hends, rfl⟩
  | some m =>
    refine ⟨_, hends.after (ht.coherent hco) m, ?_⟩
    rw [Option.bind_some]
    cases k.answer id m with
    | none => rfl
    | some x => cases x <;> rfl

theorem exists_seenLast {r id : Nat} {n : Node} {d : Dynamic} (hd : n.registryAt r = some d)
    (hco : d.Coherent) {t : Option Topology} (h : SeenLast id t d) (es : List Event) :
    ∃ d' t', (n.run es).registryAt r = some d' ∧ SeenLast id t' d' ∧ t'.map Item.topology =
      (n.deliveredAlong (.dynamic r) id es).getLast?.or (t.map .topology) := by
  induction es generalizing n d t with
  | nil => exact ⟨d, t, hd, h, rfl⟩
  | cons e es ih =>
    obtain ⟨k, last, ht⟩ := exists_traced hd e
    obtain ⟨t₁, h₁, heq₁⟩ := ht.seenLast hco h
    obtain ⟨d', t', hd', h', heq⟩ := ih ht.registry ((ht.coherent hco).run last.toList) h₁
    refine ⟨d', t', hd', h', ?_⟩
    have hsingle (x : Option Item) : x.toList.getLast? = x := by cases x <;> rfl
    rw [heq, heq₁, deliveredAlong, List.getLast?_append, hsingle, Option.or_assoc]

/-! ### Schedules -/

/-- A run in which some values are written to the key of a registry, and nothing else, and in the end the
registry is open, its update loop waits and has met every signal. -/
structure Schedule (r w : Nat) (key : String) (vs : List Value) (n : Node) (es : List Event) :
    Prop where
  orderly : n.Orderly es
  written : n.writtenAlong key es = vs.map some
  opened : ∀ d, (n.run es).registryAt r = some d → d.closed = false
  rest : (n.run es).signal (.watch w) = .waiting

/-- Everybody who has started to watch a registry during a run, and in the end waits for the next
topology, was delivered `t` last. -/
def AllSaw (r : Nat) (t : Topology) (n : Node) (es : List Event) : Prop :=
  ∀ before after m id, es = before ++ .watch (.dynamic r) :: after →
    (n.run before).watch (.dynamic r) = .ok (m, id) →
    (n.run es).peek (.dynamic r) id = .waiting →
    (m.deliveredAlong (.dynamic r) id after).getLast? = some (.topology t)

theorem allSaw_topology {r : Nat} {n : Node} (hn : n.Coherent) {es : List Event} {d : Dynamic}
    {v : Value} (hd : (n.run es).registryAt r = some d) (hv : d.value = some v) :
    n.AllSaw r d.topology es := by
  rintro before after m id rfl hwatch hwaits
  obtain ⟨d₀, d₁, hd₀, hw, hd₁⟩ := registryAt_of_watch hwatch
  have hco₀ := hn.run before r d₀ hd₀
  have hco₁ : d₁.Coherent := by
    have hafter := hco₀.after .watch
    simpa only [Dynamic.after, hw] using hafter
  have hm : (n.run before).occur (.watch (.dynamic r)) = m := by
    simp only [occur, hwatch]
  have hrun : n.run (before ++ .watch (.dynamic r) :: after) = m.run after := by
    rw [run_append, ← hm]
    rfl
  obtain ⟨d', t', hd', hseen, hlast⟩ :=
    exists_seenLast hd₁ hco₁ (Dynamic.seenLast_watch hco₀ hw) after
  rw [hrun] at hd hwaits
  obtain rfl := Option.some.inj (hd.symm.trans hd')
  have hpeek : d.hub.peek id = .waiting := by
    rw [peek_dynamic hd] at hwaits
    cases hp : d.hub.peek id with
    | waiting => rfl
    | value _ | ended =>
      rw [hp] at hwaits
      cases hwaits
  have hco : d.Coherent := hn.run _ r d (hrun ▸ hd)
  rw [hseen.of_waiting hco hv hpeek] at hlast
  rw [Option.map_none, Option.or_none] at hlast
  exact hlast.symm

theorem follows_founded {r w : Nat} {n : Node} {e : Event} {f : Follower} {first : Value}
    (hes : (n.occur e).Attached) (hnew : n.registryAt r = none)
    (hf : (n.occur e).followers[r]? = some f) (hremote : f.remote = .watch w)
    (hfirst : f.registry.value = some first) :
    (n.occur e).Follows r w f.registry.key [first] := by
  by_cases hlive : (n.occur e).store.Ended w
  · exact Or.inl hlive
  right
  obtain ⟨m, hm⟩ := founded_of_new hnew hf
  have hcontent := (hes.registry r f w hf hremote).contentOf_eq_get hlive
  rw [hm.store, hm.content w hremote, hfirst] at hcontent
  rw [hm.store]
  refine ⟨hcontent.symm, f.registry, first, ?_, hfirst, List.mem_cons_self⟩
  rw [registryAt, hf]
  rfl

/-- Where schedules lead: an open registry at rest serves what was written last, and so it was seen by
everybody who has taken what a watch had for him. -/
theorem Schedule.served_last {r w : Nat} {key : String} {first : Value} {vs : List Value} {n : Node}
    (hn : n.Steady r w key) (h : n.Follows r w key [first])
    (hrising : (first :: vs).Pairwise fun u v => u.version < v.version)
    (hparse : ∀ v ∈ first :: vs, ∃ t, v.topology = .ok t) {es : List Event}
    (hes : n.Schedule r w key vs es) :
    ((first :: vs).getLast (List.cons_ne_nil first vs)).topology =
      .ok ((n.run es).topology (.dynamic r)) ∧
    n.AllSaw r ((n.run es).topology (.dynamic r)) es := by
  have hfollows := h.run hn hes.orderly hes.written
  obtain ⟨d, v, last, hd, hv, hlast, ht⟩ :=
    hfollows.served_last (hn.run hes.orderly) hes.opened hes.rest hrising hparse
  rw [List.singleton_append, List.getLast?_eq_some_getLast (List.cons_ne_nil first vs)] at hlast
  rw [topology_of_registryAt hd, Option.some.inj hlast]
  exact ⟨ht, allSaw_topology hn.coherent hd hv⟩

/-- Two runs that write the same readable values with rising versions to the key of a registry, which has
started from a value before them, agree in the end, whatever else happens in them and in whatever order:
once its update loop is at rest the registry serves what the last value describes, and whoever has taken
everything from his watch has seen that last. -/
theorem schedules_agree (es : List Event) (e : Event) (hes : start.Orderly (es ++ [e])) (r w : Nat)
    (f : Follower) (first : Value) (hnew : (start.run es).registryAt r = none)
    (hf : (start.run (es ++ [e])).followers[r]? = some f) (hremote : f.remote = .watch w)
    (hfirst : f.registry.value = some first) (vs : List Value)
    (hrising : (first :: vs).Pairwise fun u v => u.version < v.version)
    (hparse : ∀ v ∈ vs, ∃ t, v.topology = .ok t) (es₁ es₂ : List Event)
    (h₁ : (start.run (es ++ [e])).Schedule r w f.registry.key vs es₁)
    (h₂ : (start.run (es ++ [e])).Schedule r w f.registry.key vs es₂) :
    let n := start.run (es ++ [e])
    ∃ t, ((first :: vs).getLast (List.cons_ne_nil first vs)).topology = .ok t ∧
      (n.run es₁).topology (.dynamic r) = t ∧ (n.run es₂).topology (.dynamic r) = t ∧
      n.AllSaw r t es₁ ∧ n.AllSaw r t es₂ := by
  intro n
  have hco : n.Coherent := coherent_start.run (es ++ [e])
  have hsteady : n.Steady r w f.registry.key :=
    ⟨attached_start.run hes, sound_run Store.sound_empty _, hco, f, hf, hremote, rfl⟩
  have hlast : n = (start.run es).occur e := run_append start es [e]
  have hfollows : n.Follows r w f.registry.key [first] := by
    have hattached : n.Attached := hsteady.attached
    rw [hlast] at hattached ⊢
    exact follows_founded hattached hnew (hlast ▸ hf) hremote hfirst
  have hreadable : ∀ v ∈ first :: vs, ∃ t, v.topology = .ok t := by
    intro v hv
    rcases List.mem_cons.mp hv with rfl | hmem
    · refine ⟨f.registry.topology, (hco r f.registry ?_).stored v hfirst⟩
      rw [registryAt, hf]
      rfl
    · exact hparse v hmem
  obtain ⟨ht₁, hsaw₁⟩ := Schedule.served_last hsteady hfollows hrising hreadable h₁
  obtain ⟨ht₂, hsaw₂⟩ := Schedule.served_last hsteady hfollows hrising hreadable h₂
  have hsame := Except.ok.inj (ht₁.symm.trans ht₂)
  refine ⟨_, ht₁, rfl, hsame.symm, hsaw₁, ?_⟩
  rw [hsame]
  exact hsaw₂

def smallEager : List Event :=
  [.watch (.dynamic 0), .store (.set "namespaces" (smallDocument 98)), .turn (.updates 0),
    .next (.dynamic 0) 1, .store (.set "namespaces" (smallDocument 99)), .turn (.updates 0),
    .next (.dynamic 0) 1]

def smallLazy : List Event :=
  [.store (.setWithVersion "namespaces" 2 (smallDocument 98)),
    .store (.setWithVersion "namespaces" 3 (smallDocument 99)), .turn (.updates 0)]

theorem schedules_agree_small : ∃ t, Value.topology ⟨3, smallDocument 99⟩ = .ok t ∧
    ((start.run smallRun).run smallEager).topology (.dynamic 0) = t ∧
    ((start.run smallRun).run smallLazy).topology (.dynamic 0) = t ∧
    (start.run smallRun).AllSaw 0 t smallEager := by
  have hes : start.Orderly (smallRun.dropLast ++ [.turn (.attempt 0)]) := by
    simp [smallRun, Orderly, Allows, Store.Event.taken?]
  have hnew : ((start.run smallRun.dropLast).registryAt 0).isNone = true := by
    decide +kernel
  have hfollower : ((start.run smallRun).followers[0]?).any (fun f => f.remote = .watch 0 &&
      f.registry.value = some ⟨1, smallDocument 97⟩ && f.registry.key = "namespaces") = true := by
    decide +kernel
  have hopened (es : List Event) (h : (((start.run smallRun).run es).registryAt 0).all
      (fun d => !d.closed) = true) (d : Dynamic)
      (hd : ((start.run smallRun).run es).registryAt 0 = some d) : d.closed = false := by
    rw [hd] at h
    simpa using h
  obtain ⟨f, hf, hknown⟩ := (Option.any_eq_true ..).mp hfollower
  simp only [Bool.and_eq_true, decide_eq_true_eq] at hknown
  obtain ⟨⟨hremote, hfirst⟩, hkey⟩ := hknown
  have heager : (start.run smallRun).Schedule 0 0 "namespaces"
      [⟨2, smallDocument 98⟩, ⟨3, smallDocument 99⟩] smallEager := by
    refine ⟨?_, by decide +kernel, hopened _ (by decide +kernel), by decide +kernel⟩
    simp [smallEager, Orderly, Allows, Store.Event.taken?]
  have hlazy : (start.run smallRun).Schedule 0 0 "namespaces"
      [⟨2, smallDocument 98⟩, ⟨3, smallDocument 99⟩] smallLazy := by
    refine ⟨?_, by decide +kernel, hopened _ (by decide +kernel), by decide +kernel⟩
    simp [smallLazy, Orderly, Allows, Store.Event.taken?]
  have hreadable : ∀ v ∈ ([⟨2, smallDocument 98⟩, ⟨3, smallDocument 99⟩] : List Value),
      ∃ t, v.topology = .ok t := by
    have hsome : ∀ v ∈ ([⟨2, smallDocument 98⟩, ⟨3, smallDocument 99⟩] : List Value),
        v.topology.toOption.isSome = true := by
      decide +kernel
    intro v hv
    have hread := hsome v hv
    cases ht : v.topology with
    | ok t => exact ⟨t, rfl⟩
    | error cause =>
      rw [ht] at hread
      cases hread
  rw [← hkey] at heager hlazy
  obtain ⟨t, ht, hserved, hserved', hsaw, _⟩ := schedules_agree smallRun.dropLast (.turn (.attempt 0))
    hes 0 0 f ⟨1, smallDocument 97⟩ (Option.isNone_iff_eq_none.mp hnew) hf hremote hfirst
    [⟨2, smallDocument 98⟩, ⟨3, smallDocument 99⟩] (by decide +kernel) hreadable
    smallEager smallLazy heager hlazy
  exact ⟨t, ht, hserved, hserved', hsaw⟩

end NamespaceTopology.Node
