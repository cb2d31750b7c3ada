import NamespaceTopology.Proofs.Node.Loops

set_option autoImplicit false

/-!
Those who come to a key after it was closed. Each follows the key through a watch of its own, which was
started on the key's new cell or on a later one, so it meets nothing but what was written since.
-/
namespace NamespaceTopology

namespace Store

theorem put?_of_not_writes {e : Event} (he : e.writes = false) (key : String) (s : Store) :
    e.put? key s = none := by
  rw [Event.put?, written?_of_not_writes he, ite_self]

theorem Draws.leads {w : Nat} {key : String} {contents : List (Option Value)} {s s' : Store}
    (h : s.Draws w key contents) (hs : s.Sound) (hn : s.Numbered)
    (hleads : s.Leads (fun e => !e.writes) s') : s'.Draws w key contents := by
  refine (hleads.keep (P := fun s => s.Sound ∧ s.Numbered ∧ s.Draws w key contents) ?_
    ⟨hs, hn, h⟩).2.2
  rintro s e he ⟨hs, hn, h⟩
  have hafter := h.occur hs hn e
  rw [put?_of_not_writes (Bool.not_eq_true' _ |>.mp he), Option.toList_none, List.append_nil] at hafter
  exact ⟨hs.occur e, hn.occur e, hafter⟩

end Store

namespace Node

variable {key : String} {w : Nat} {n m : Node}

/-! ### Who follows a key -/

/-- Somebody follows a key through a watch: a registry of the key, or a call that waits for the key's first
value. -/
inductive Followed (n : Node) (key : String) (w : Nat) : Prop where
  | registry {r : Nat} {f : Follower} (hf : n.followers[r]? = some f) (hremote : f.remote = .watch w)
      (hkey : f.registry.key = key)
  | call {a : Nat} {x : Attempt} {y : Initializer} (hx : n.attempts[a]? = some x)
      (hremote : x.stage.remote? = some (.watch w)) (hy : n.initializers[x.initializer]? = some y)
      (hkey : y.options.key = key)

def Known (n : Node) : Prop := ∀ (a : Nat) (x : Attempt) (w : Nat), n.attempts[a]? = some x →
  x.stage.remote? = some (.watch w) → ∃ y : Initializer, n.initializers[x.initializer]? = some y

theorem Attached.known (hn : n.Attached) : n.Known := by
  intro a x w hx hremote
  obtain ⟨y, hy, _⟩ := hn.call a x w hx hremote
  exact ⟨y, hy⟩

theorem Known.quiet (hn : n.Known) (hq : Quiet n m) : m.Known := by
  intro a x' w hx' hremote
  obtain ⟨x, hx, hinit, hsame⟩ := hq.call a x' hx' (by simp [hremote])
  obtain ⟨y, hy⟩ := hn a x w hx (hsame ▸ hremote)
  obtain ⟨y', hy', _⟩ := hq.initializer _ y hy
  exact ⟨y', hinit ▸ hy'⟩

theorem Followed.lt (h : n.Followed key w) (hn : n.Attached) : w < n.store.watches.length := by
  cases h with
  | registry hf hremote _ => exact hn.lt_of_holds (h := .registry _) ⟨_, hf, hremote⟩
  | call hx hremote _ _ => exact hn.lt_of_holds (h := .call _) ⟨_, hx, hremote⟩

theorem Followed.of_quiet (h : m.Followed key w) (hq : Quiet n m) (hn : n.Known) :
    n.Followed key w := by
  cases h with
  | registry hf hremote hkey =>
    obtain ⟨f, hf, hsame, hkey', _⟩ := hq.registry _ _ hf
    exact .registry hf (hsame ▸ hremote) (hkey' ▸ hkey)
  | call hx hremote hy hkey =>
    obtain ⟨x, hx, hinit, hsame⟩ := hq.call _ _ hx (by simp [hremote])
    obtain ⟨y, hy'⟩ := hn _ x w hx (hsame ▸ hremote)
    obtain ⟨y', hy'', hoptions⟩ := hq.initializer _ y hy'
    rw [hinit, hy''] at hy
    obtain rfl := Option.some.inj hy
    exact .call hx (hsame ▸ hremote) hy' (hoptions ▸ hkey)

/-- What leaves the registries and the calls as they are. -/
theorem Followed.congr (h : m.Followed key w) (hfollowers : m.followers = n.followers)
    (hlines : m.lines = n.lines) : n.Followed key w := by
  obtain ⟨hattempts, hinitializers, _⟩ := Lines.mk.inj hlines
  cases h with
  | registry hf hremote hkey => exact .registry (hfollowers ▸ hf) hremote hkey
  | call hx hremote hy hkey => exact .call (hattempts ▸ hx) hremote (hinitializers ▸ hy) hkey

/-- Whatever is no turn of a call leaves everybody with the key and the watch that he had. -/
theorem Followed.of_comes (h : m.Followed key w) (hlines : n.lines.Comes m.lines)
    (hpersists : ∀ (r : Nat) (f : Follower), n.followers[r]? = some f →
      ∃ f', m.followers[r]? = some f' ∧ Persists f f')
    (hn : n.Known) : n.Followed key w := by
  cases h with
  | @registry r f' hf' hremote hkey =>
    have hlength : m.followers.length = n.followers.length := hlines.same.1
    have hlt : r < n.followers.length := hlength ▸ (List.getElem?_eq_some_iff.mp hf').1
    obtain ⟨g, hg, hsame⟩ := hpersists r _ (List.getElem?_eq_getElem hlt)
    obtain rfl := Option.some.inj (hf'.symm.trans hg)
    exact .registry (List.getElem?_eq_getElem hlt) (hsame.remote ▸ hremote) (hsame.key ▸ hkey)
  | @call a x y hx hremote hy hkey =>
    generalize hl : m.lines = l at hlines
    obtain ⟨hattempts, hinitializers, _⟩ := Lines.mk.inj hl
    change m.attempts = l.attempts at hattempts
    change m.initializers = l.initializers at hinitializers
    rw [hattempts] at hx
    rw [hinitializers] at hy
    cases hlines with
    | stays => exact .call hx hremote hy hkey
    | calls i =>
      rcases Lines.getElem?_concat_split hx with hold | ⟨_, rfl⟩
      · exact .call hold hremote hy hkey
      · cases hremote
    | cancels b =>
      obtain ⟨x', hx', rfl | rfl⟩ := getElem?_modify_cases hx
      · exact .call hx' hremote hy hkey
      · exact .call hx' hremote hy hkey
    | opens o =>
      obtain ⟨y', hy'⟩ := hn a x w hx hremote
      have hold : n.initializers[x.initializer]? = some y := by
        refine (Lines.getElem?_concat_split hy).resolve_right fun hnew => ?_
        have hlt := (List.getElem?_eq_some_iff.mp hy').1
        exact absurd hnew.1 (Nat.ne_of_lt hlt)
      exact .call hx hremote hold hkey

/-! ### Turns of calls -/

section Calls

variable {a i : Nat} {o : DynamicOptions} {remote : Remote}

theorem followed_build (hn : n.Known) {first : Option (Value × Topology)}
    (h : (n.build a i o remote first).Followed key w) :
    n.Followed key w ∨ (remote = .watch w ∧ o.key = key) := by
  have hcore := core_createInstruments o.exposition o.scope n
  have hstep := build_step a i o remote first n
  generalize n.build a i o remote first = last at hstep h
  cases hstep with
  | @fails m cause hmade =>
    rw [hmade] at hcore
    have hm : Quiet n m := .of_core hcore
    exact Or.inl (h.of_quiet (hm.trans ((quiet_tell _ m).trans (quiet_fail a i remote _ _))) hn)
  | @founds m instruments f hmade hf =>
    subst hf
    rw [hmade] at hcore
    have hm : Quiet n m := .of_core hcore
    let r := m.followers.length
    let f : Follower := ⟨.start o instruments first, remote, o.exposition, false, false, none⟩
    let founded : Node := { m with followers := m.followers ++ [f] }
    let staffed := (founded.addTask (.updates r)).addTask (.samples r)
    let built := staffed.modifyInitializer i fun x => { x with registry := some r }
    have hstaffed : Quiet founded staffed := .of_core rfl
    have hbuilt : Quiet staffed built := quiet_modifyInitializer i staffed fun _ => rfl
    have hended : Quiet built (built.endAttempt a i (.finished (.ok r))) :=
      quiet_endAttempt a i rfl built
    have hknown : m.Known := hn.quiet hm
    have hfounded : founded.Followed key w := h.of_quiet ((hstaffed.trans hbuilt).trans hended) hknown
    have hback (h : m.Followed key w) : n.Followed key w := h.of_quiet hm hn
    cases hfounded with
    | registry hg hremote hkey =>
      rcases Lines.getElem?_concat_split hg with hold | ⟨_, rfl⟩
      · exact Or.inl (hback (.registry hold hremote hkey))
      · exact Or.inr ⟨hremote, hkey⟩
    | call hx hremote hy hkey => exact Or.inl (hback (.call hx hremote hy hkey))

theorem followed_conclude (hn : n.Known) (h : (n.conclude a i o remote).Followed key w) :
    n.Followed key w ∨ (remote = .watch w ∧ o.key = key) := by
  have hread := quiet_readRemote remote n
  have hstep := conclude_step a i o remote n
  generalize n.conclude a i o remote = m at hstep h
  cases hstep with
  | builds _ _ | empty _ _ =>
    exact (followed_build (hn.quiet hread) h).imp_left fun hm => hm.of_quiet hread hn
  | invalid _ _ | absent _ _ =>
    exact Or.inl (h.of_quiet (hread.trans ((quiet_tell _ _).trans (quiet_fail a i remote _ _))) hn)

theorem followed_await (hn : n.Known) (ho : n.HasOptions a o) {deadline : Nat}
    (h : (n.await a i o remote deadline).Followed key w) :
    n.Followed key w ∨ (remote = .watch w ∧ o.key = key) := by
  have hfollowers := followers_takeSignal remote n
  have hlines := lines_takeSignal remote n
  have hattempts : (n.takeSignal remote).1.attempts = n.attempts := congrArg Lines.attempts hlines
  have hinitializers : (n.takeSignal remote).1.initializers = n.initializers :=
    congrArg Lines.initializers hlines
  have hm : (n.takeSignal remote).1.Known := by
    intro b x w hx hremote
    rw [hinitializers]
    exact hn b x w (hattempts ▸ hx) hremote
  have hback (h : (n.takeSignal remote).1.Followed key w) : n.Followed key w :=
    h.congr hfollowers hlines
  have hstep := await_step a i o remote deadline n
  generalize n.await a i o remote deadline = k at hstep h
  cases hstep with
  | changed _ => exact (followed_conclude hm h).imp_left hback
  | ended _ =>
    have htold := quiet_tell [.warning "namespace registry watch ended during the initial wait"]
      (n.takeSignal remote).1
    exact (followed_conclude (hm.quiet htold) h).imp_left fun h => hback (h.of_quiet htold hm)
  | late _ _ => exact Or.inl (hback (h.of_quiet ((quiet_tell _ _).trans (quiet_fail a i remote _ _)) hm))
  | waits _ _ =>
    cases h with
    | registry hf hremote hkey => exact Or.inl (hback (.registry hf hremote hkey))
    | @call b x y hx hremote hy hkey =>
      rcases Lines.getElem?_modify_split hx with ⟨rfl, z, hz, rfl⟩ | ⟨_, hold⟩
      · -- The call itself, which waits on what it waited on.
        obtain ⟨z', j, hz', hj, rfl⟩ := ho
        rw [hattempts, hz'] at hz
        obtain rfl := Option.some.inj hz
        change (n.takeSignal remote).1.initializers[z'.initializer]? = some y at hy
        rw [hinitializers, hj] at hy
        obtain rfl := Option.some.inj hy
        exact Or.inr ⟨Option.some.inj hremote, hkey⟩
      · exact Or.inl (hback (.call hold hremote hy hkey))

/-- What a node does by itself writes nothing. -/
theorem Changes.leads {C : Nat → Prop} (h : Changes C n m) :
    n.store.Leads (fun e => !e.writes) m.store := by
  induction h with
  | refl n => exact .refl n.store
  | next hc _ ih =>
    rcases hc.store_cases with hsame | ⟨e, he, hstore⟩
    · exact hsame ▸ ih
    · rw [hstore] at ih
      refine (Store.Leads.of ?_ _).trans ih
      simp [he]

theorem Becomes.leads {C : Nat → Prop} (h : Becomes C n m) :
    n.store.Leads (fun e => !e.writes) m.store := by
  obtain ⟨k, hk, hsame | ⟨f, hf⟩⟩ := h
  · have hstore : m.store = k.store := congrArg Inner.store hsame
    exact hstore ▸ hk.leads
  · exact hf.store ▸ hk.leads

/-- A watch on a key that somebody has just started, before anything was written. -/
def Fresh (n : Node) (key : String) (w : Nat) (m : Node) : Prop :=
  w = (n.store.watch key).2 ∧ (n.store.watch key).1.Leads (fun e => !e.writes) m.store

/-- A call that takes its turn may start to follow its key, through a new watch. -/
theorem followed_takeTurn (hn : n.Attached) {x : Initializer} (ho : n.HasOptions a x.options)
    (h : (n.takeTurn a i x).Followed key w) :
    n.Followed key w ∨ n.Fresh key w (n.takeTurn a i x) := by
  have hstep := turn_step a i x n
  generalize n.takeTurn a i x = k at h hstep ⊢
  -- A call that follows its key from now on follows it through the watch that it has just got.
  have hfollows {client : Client} {m : Node} {remote : Remote}
      (hf : n.follow client x.options.key = .ok (m, remote)) (hleads : m.store.Leads (fun e => !e.writes) k.store)
      (hfollowed : m.Followed key w ∨ (remote = .watch w ∧ x.options.key = key)) :
      n.Followed key w ∨ n.Fresh key w k := by
    rcases hfollowed with hold | ⟨rfl, rfl⟩
    · exact Or.inl (hold.of_quiet (hn.follow hf a).1 hn.known)
    · cases follow_step hf with
      | store => exact Or.inr ⟨rfl, hleads⟩
  cases hstep with
  | stands _ | invalid _ _ | unfollowed _ _ _ _ =>
    exact Or.inl (h.of_quiet (quiet_endAttempt a i rfl n) hn.known)
  | @concludes client m remote _ _ _ hf _ =>
    obtain ⟨hquiet, _, _⟩ := hn.follow hf a
    exact hfollows hf (becomes_conclude (C := fun _ => True) a i x.options remote m).leads
      (followed_conclude (hn.known.quiet hquiet) h)
  | @awaits client m remote _ _ _ hf _ =>
    obtain ⟨hquiet, _, hoptions⟩ := hn.follow hf a
    exact hfollows hf (becomes_await (C := fun _ => True) a i x.options remote _ m).leads
      (followed_await (hn.known.quiet hquiet) (hoptions ho) h)

theorem followed_stepAttempt (hn : n.Attached) (h : (n.stepAttempt a).Followed key w) :
    n.Followed key w ∨ n.Fresh key w (n.stepAttempt a) := by
  have hturned := turned_stepAttempt a n
  generalize n.stepAttempt a = k at h hturned ⊢
  cases hturned with
  | stays => exact Or.inl h
  | ends => exact Or.inl (h.of_quiet (.of_core rfl) hn.known)
  | abandons _ _ => exact Or.inl (h.of_quiet (quiet_abandon _ _ _ n) hn.known)
  | queues _ _ _ _ =>
    refine Or.inl (h.of_quiet ?_ hn.known)
    refine (quiet_modifyInitializer _ n ?_).trans (quiet_modifyAttempt a _ ?_ ?_)
    · exact fun _ => rfl
    · exact fun _ => rfl
    · exact fun _ => Or.inl rfl
  | @takes x y m hx hy hm =>
    cases hm with
    | fresh _ _ =>
      have hqueue : Quiet n (n.modifyInitializer x.initializer fun y =>
          { y with queue := y.queue ++ [a] }) := quiet_modifyInitializer _ n fun _ => rfl
      have ho : (n.modifyInitializer x.initializer fun y =>
          { y with queue := y.queue ++ [a] }).HasOptions a y.options := by
        refine ⟨x, { y with queue := y.queue ++ [a] }, hx, ?_, rfl⟩
        simp [modifyInitializer, hy]
      exact (followed_takeTurn (hn.quiet hqueue) ho h).imp_left fun h => h.of_quiet hqueue hn.known
    | queued _ _ => exact followed_takeTurn hn ⟨x, y, hx, hy, rfl⟩ h
  | @resumes x y remote deadline hx hy hstage =>
    rcases followed_await hn.known ⟨x, y, hx, hy, rfl⟩ h with hold | ⟨rfl, hkey⟩
    · exact Or.inl hold
    · refine Or.inl (.call hx ?_ hy hkey)
      rw [hstage]
      rfl

end Calls

/-- Whoever follows a key after an event did so before, or has just started. -/
theorem followed_occur (hn : n.Attached) (hlined : n.Lined) {e : Event}
    (h : (n.occur e).Followed key w) : n.Followed key w ∨ n.Fresh key w (n.occur e) := by
  rcases lines_occur hlined e with hcomes | ⟨a, rfl, _⟩
  · exact Or.inl (h.of_comes hcomes (fun _ _ hf => persists_occur hf e) hn.known)
  · have hstep : (n.stepAttempt a).Followed key w := h.of_quiet (.of_core rfl) ?_
    · exact followed_stepAttempt hn hstep
    · exact (hn.stepAttempt a).known

theorem leads_occur {e : Event} (he : ∀ e', e ≠ .store e') (n : Node) :
    n.store.Leads (fun e => !e.writes) (n.occur e).store := by
  cases hdirect : e.isDirect with
  | false => exact (becomes_occur hdirect n).leads
  | true =>
    cases e with
    | store e' => exact absurd rfl (he e')
    | closeOnRead r => exact .refl n.store
    | register exposition c =>
      have hsame : (n.occur (.register exposition c)).store = n.store :=
        congrArg Core.store (core_register exposition c n)
      rw [hsame]
      exact .refl n.store
    | _ => cases hdirect

/-! ### Whatever is known of every node -/

structure Regular (n : Node) : Prop where
  attached : n.Attached
  lined : n.Lined
  sound : n.store.Sound
  numbered : n.store.Numbered
  coherent : n.Coherent
  releasing : n.Releasing
  staffed : n.Staffed
  working : n.Working

theorem regular_start : start.Regular :=
  ⟨attached_start, lined_start, Store.sound_empty, Store.numbered_empty, coherent_start,
    releasing_start, staffed_start, working_start⟩

theorem Regular.occur (hn : n.Regular) {e : Event} (he : n.Allows e) : (n.occur e).Regular where
  attached := hn.attached.occur he
  lined := hn.lined.occur e
  sound := (get_occur hn.sound e).1
  numbered := store_occur_of (fun _ e h => h.occur e) hn.numbered e
  coherent := hn.coherent.occur e
  releasing := hn.releasing.run hn.coherent [e]
  staffed := hn.staffed.occur e
  working := hn.working.occur e

theorem Regular.run (hn : n.Regular) {es : List Event} (hes : n.Orderly es) : (n.run es).Regular := by
  induction es generalizing n with
  | nil => exact hn
  | cons e es ih => exact ih (hn.occur hes.1) hes.2

theorem persists_run {r : Nat} {f : Follower} (hf : n.followers[r]? = some f) (es : List Event) :
    ∃ f', (n.run es).followers[r]? = some f' ∧ Persists f f' := by
  induction es generalizing n f with
  | nil => exact ⟨f, hf, .refl f⟩
  | cons e es ih =>
    obtain ⟨g, hg, hfg⟩ := persists_occur hf e
    obtain ⟨f', hf', hgf'⟩ := ih hg
    exact ⟨f', hf', hfg.trans hgf'⟩

/-! ### After a key was closed -/

/-- Since a key was closed, when there were so many watches, some contents have been put under it. Whoever
has come to the key since has met nothing else. -/
structure Renewed (key : String) (count : Nat) (contents : List (Option Value)) (n : Node) : Prop where
  serves : n.store.Serves key contents
  draws : ∀ w, count ≤ w → n.Followed key w → n.store.Draws w key contents
  stored : ∀ (r : Nat) (f : Follower) (w : Nat), n.followers[r]? = some f → f.remote = .watch w →
    count ≤ w → f.registry.key = key → f.registry.value = none ∨ f.registry.value ∈ contents

variable {count : Nat} {contents : List (Option Value)}

/-- Nobody has come to a key that has just been closed. -/
theorem renewed_closeKey (hn : n.Regular) (hm : m = n.occur (.store (.closeKey key))) :
    m.Renewed key m.store.watches.length [] := by
  have hattached : m.Attached := hm ▸ hn.attached.occur (by simp [Allows, Store.Event.taken?])
  refine ⟨Or.inl ?_, ?_, ?_⟩
  · rw [hm]
    change (n.store.occur (.closeKey key)).get key = none
    rw [hn.sound.get_occur]
    simp [Store.Event.written?]
  · intro w hw hfollowed
    exact absurd (hfollowed.lt hattached) (Nat.not_lt.mpr hw)
  · intro r f w hf hremote hw _
    exact absurd (hattached.lt_of_holds (h := .registry r) ⟨f, hf, hremote⟩) (Nat.not_lt.mpr hw)

theorem put?_of_indirect {e : Event} (he : ∀ e', e ≠ .store e') (key : String) (n : Node) :
    n.put? key e = none := by
  cases e with
  | store e' => exact absurd rfl (he e')
  | _ => rfl

theorem Renewed.serves_occur (h : n.Renewed key count contents) (hn : n.Regular) (e : Event) :
    (n.occur e).store.Serves key (contents ++ (n.put? key e).toList) := by
  by_cases hstore : ∃ e', e = .store e'
  · obtain ⟨e', rfl⟩ := hstore
    exact h.serves.occur hn.sound e'
  · have he (e' : Store.Event) : e ≠ .store e' := fun hsame => hstore ⟨e', hsame⟩
    obtain ⟨_, hget, _⟩ := get_occur hn.sound e
    have hwritten : n.written? key e = none := by
      cases e with
      | store e' => exact absurd rfl (he e')
      | _ => rfl
    rw [put?_of_indirect he, Option.toList_none, List.append_nil, Store.Serves, hget key, hwritten]
    exact h.serves

theorem Renewed.draws_occur (h : n.Renewed key count contents) (hn : n.Regular) {e : Event}
    (hw : count ≤ w) (hfollowed : (n.occur e).Followed key w) :
    (n.occur e).store.Draws w key (contents ++ (n.put? key e).toList) := by
  by_cases hstore : ∃ e', e = .store e'
  · obtain ⟨e', rfl⟩ := hstore
    exact (h.draws w hw (hfollowed.congr rfl rfl)).occur hn.sound hn.numbered e'
  · have he (e' : Store.Event) : e ≠ .store e' := fun hsame => hstore ⟨e', hsame⟩
    rw [put?_of_indirect he, Option.toList_none, List.append_nil]
    rcases followed_occur hn.attached hn.lined hfollowed with hold | ⟨rfl, hleads⟩
    · exact (h.draws w hw hold).leads hn.sound hn.numbered (leads_occur he n)
    · have hwatch := Store.draws_watch h.serves hn.sound
      exact hwatch.leads (hn.sound.occur (.watch key)) (hn.numbered.occur (.watch key)) hleads

/-- What a registry is handed that has come since. -/
theorem Renewed.handed (h : n.Renewed key count contents) (hn : n.Regular) {e : Event}
    (he : n.Allows e) {r : Nat} {f : Follower} (hf : n.followers[r]? = some f)
    (hremote : f.remote = .watch w) (hw : count ≤ w) (hkey : f.registry.key = key)
    {content : Option Value} (hcontent : content ∈ n.handed r e) : content ∈ contents := by
  rcases handed_of_allows he with hnothing | ⟨_, read, hread, hhanded⟩
  · rw [hnothing] at hcontent
    cases hcontent
  · rw [hhanded] at hcontent
    obtain rfl := List.mem_singleton.mp hcontent
    obtain ⟨g, hg, _, hchanged⟩ := follower_of_reading? hread
    obtain rfl := Option.some.inj (hf.symm.trans hg)
    have htracks := hn.attached.registry r f w hf hremote
    rw [reading?_watch hf hremote htracks.lt hread]
    rw [hremote] at hchanged
    exact (h.draws w hw (.registry hf hremote hkey)).contentOf_mem htracks.queueOf_eq hchanged

theorem Renewed.stored_occur (h : n.Renewed key count contents) (hn : n.Regular) {e : Event}
    (he : n.Allows e) {r : Nat} {f : Follower} (hf : (n.occur e).followers[r]? = some f)
    (hremote : f.remote = .watch w) (hw : count ≤ w) (hkey : f.registry.key = key) :
    f.registry.value = none ∨ f.registry.value ∈ contents ++ (n.put? key e).toList := by
  cases hr : n.followers[r]? with
  | none =>
    -- The registry is new, and the first content that it has is what its watch shows.
    obtain ⟨m, hm⟩ := founded_of_new (by rw [registryAt, hr]; rfl) hf
    obtain ⟨v, hv, hcontent⟩ := h.draws_occur hn hw (.registry hf hremote hkey)
    rw [← hm.content w hremote, ← hm.store, hv.contentOf_eq]
    exact hcontent.symm.imp_left And.left
  | some g =>
    obtain ⟨f', hf', hpersists⟩ := persists_occur hr e
    obtain rfl := Option.some.inj (hf.symm.trans hf')
    have hremote' : g.remote = .watch w := hpersists.remote.symm.trans hremote
    have hkey' : g.registry.key = key := hpersists.key.symm.trans hkey
    have hd : n.registryAt r = some g.registry := registryAt_of_follower hr
    obtain ⟨k, last, ht⟩ := exists_traced hd e
    have hafter : f.registry = k.run last.toList := by
      have hd' : (n.occur e).registryAt r = some f.registry := registryAt_of_follower hf
      exact Option.some.inj (hd'.symm.trans ht.registry)
    rw [hafter]
    rcases ht.value_cases (hn.coherent r _ hd) with hsame | hhanded
    · rw [hsame]
      exact (h.stored r g w hr hremote' hw hkey').imp_right (List.mem_append_left _)
    · exact Or.inr (List.mem_append_left _ (h.handed hn he hr hremote' hw hkey' hhanded))

theorem Renewed.occur (h : n.Renewed key count contents) (hn : n.Regular) {e : Event}
    (he : n.Allows e) : (n.occur e).Renewed key count (contents ++ (n.put? key e).toList) where
  serves := h.serves_occur hn e
  draws _ hw hfollowed := h.draws_occur hn hw hfollowed
  stored _ _ _ hf hremote hw hkey := h.stored_occur hn he hf hremote hw hkey

theorem Renewed.run (h : n.Renewed key count contents) (hn : n.Regular) {es : List Event}
    (hes : n.Orderly es) : (n.run es).Renewed key count (contents ++ n.putAlong key es) := by
  induction es generalizing n contents with
  | nil =>
    rw [putAlong, List.append_nil]
    exact h
  | cons e es ih =>
    rw [putAlong, ← List.append_assoc]
    exact ih (h.occur hn hes.1) (hn.occur hes.1) hes.2

theorem Renewed.handedAlong (h : n.Renewed key count contents) (hn : n.Regular) {es : List Event}
    (hes : n.Orderly es) {r : Nat} {f : Follower} (hf : (n.run es).followers[r]? = some f)
    (hremote : f.remote = .watch w) (hw : count ≤ w) (hkey : f.registry.key = key)
    {content : Option Value} (hcontent : content ∈ n.handedAlong r es) :
    content ∈ contents ++ n.putAlong key es := by
  induction es generalizing n contents with
  | nil => cases hcontent
  | cons e es ih =>
    rcases List.mem_append.mp hcontent with hfirst | hrest
    · refine List.mem_append_left _ ?_
      rcases handed_of_allows hes.1 with hnothing | ⟨_, read, hread, _⟩
      · rw [hnothing] at hfirst
        cases hfirst
      · obtain ⟨g, hg, _⟩ := follower_of_reading? hread
        obtain ⟨f', hf', hpersists⟩ := persists_run hg (e :: es)
        obtain rfl := Option.some.inj (hf.symm.trans hf')
        exact h.handed hn hes.1 hg (hpersists.remote.symm.trans hremote) hw
          (hpersists.key.symm.trans hkey) hfirst
    · rw [putAlong, ← List.append_assoc]
      exact ih (h.occur hn hes.1) (hn.occur hes.1) hes.2 hf hrest

end Node

end NamespaceTopology
