import NamespaceTopology.Proofs.Document.RoundTrip
import NamespaceTopology.Proofs.Node.LastWrites
import NamespaceTopology.Proofs.Node.Served
import NamespaceTopology.Proofs.Node.Waiting

set_option autoImplicit false

/-!
Static and dynamic registries agree. Whoever asks a dynamic registry of which the key is not written any
more cannot tell it from a static one that serves the same topology, whatever else goes on behind it: the
update loop meets at most the value that the registry has already.
-/
namespace NamespaceTopology

theorem Feed.look_snd (f : Feed) : f.look.2 = f.peek := by
  unfold look
  cases f.peek <;> rfl

theorem Feed.content_look (f : Feed) : f.look.1.content = f.content := by
  unfold look
  split <;> rfl

/-- What happens at a node where somebody talks to a registry: he asks it, or something else goes on. -/
inductive Step where
  | ask (q : Request)
  | other (e : Node.Event)

def Step.request? : Step → Option Request
  | .ask q => some q
  | .other _ => none

namespace Node

variable {r : Nat} {remote : Remote} {key : String} {first : Value} {x : Static} {n m : Node}

def converse (source : Source) : Node → List Step → List (Request × Reply)
  | _, [] => []
  | n, .ask q :: steps => (q, n.reply source q) :: converse source (n.ask source q) steps
  | n, .other e :: steps => converse source (n.occur e) steps

def Others (P : Node → Event → Prop) (source : Source) : Node → List Step → Prop
  | _, [] => True
  | n, .ask q :: steps => Others P source (n.ask source q) steps
  | n, .other e :: steps => P n e ∧ Others P source (n.occur e) steps

/-- A relation to what a registry serves, kept by every request and by whatever else goes on, tells the
replies. -/
theorem converse_eq {source : Source} {P : Node → Event → Prop} {R : Static → Node → Prop}
    (hask : ∀ x n q, R x n → n.reply source q = x.reply q ∧ R (x.after q) (n.ask source q))
    (hother : ∀ x n e, R x n → P n e → R x (n.occur e)) (hx : R x n) {steps : List Step}
    (hsteps : Others P source n steps) :
    n.converse source steps = x.converse (steps.filterMap Step.request?) := by
  induction steps generalizing x n with
  | nil => rfl
  | cons step steps ih =>
    cases step with
    | ask q =>
      obtain ⟨hreply, hafter⟩ := hask x n q hx
      have hrest := ih hafter hsteps
      change (q, n.reply source q) :: _ = (q, x.reply q) :: _
      rw [hreply, hrest]
    | other e => exact ih (hother x n e hx hsteps.1) hsteps.2

/-! ### A static registry -/

structure MadeStatic (t : Topology) (s : Nat) (n : Node) : Prop where
  run : ∃ es, s = (start.run es).statics.length ∧ n = (start.run es).occur (.addStatic t)

def Unasked (s : Nat) (n : Node) (e : Event) : Prop := n.requests (.static s) e = []

theorem converse_static {t : Topology} {s : Nat} (hn : n.MadeStatic t s) {steps : List Step}
    (hsteps : Others (Unasked s) (.static s) n steps) :
    n.converse (.static s) steps = (Static.start t).converse (steps.filterMap Step.request?) := by
  refine converse_eq (R := fun x n => n.statics[s]? = some x) (fun x n q hx => ?_)
    (fun x n e hx he => ?_) ?_ hsteps
  · refine ⟨reply_static hx q, ?_⟩
    rw [statics_ask, hx, Option.map_some]
  · rcases statics_occur s e n with hasked | ⟨hnone, _⟩
    · rw [hasked, he, hx]
      rfl
    · cases hnone.symm.trans hx
  · obtain ⟨es, rfl, rfl⟩ := hn.run
    simp [occur, addStatic]

/-! ### A dynamic registry -/

/-- What a registry follows has a value, and the stream goes on. -/
def Offers (remote : Remote) (key : String) (v : Value) (n : Node) : Prop :=
  match remote with
  | .watch w => n.store.get key = some v ∧ n.store.Streams w
  | .feed => n.feed.content = some v ∧ n.feed.ended = false ∧ n.feed.closed = false

/-- What a registry follows is not written, and the stream goes on as it did. -/
def Unwritten (remote : Remote) (key : String) (n : Node) (e : Event) : Prop :=
  match remote with
  | .watch w => n.written? key e = none ∧ e ≠ .store (.closeWatch w)
  | .feed => (n.occur e).feed.content = n.feed.content ∧ (n.occur e).feed.ended = n.feed.ended ∧
    (n.occur e).feed.closed = n.feed.closed

theorem Unwritten.offers_feed {e : Event} (h : Unwritten .feed key n e) (hn : Offers .feed key first n) :
    Offers .feed key first (n.occur e) :=
  ⟨h.1.trans hn.1, h.2.1.trans hn.2.1, h.2.2.trans hn.2.2⟩

/-- Whatever else goes on while somebody talks to a dynamic registry: nobody else asks it, it does not hear
the end from somewhere, and what it follows is not written. -/
structure Behind (r : Nat) (remote : Remote) (key : String) (n : Node) (e : Event) : Prop where
  allows : n.Allows e
  unasked : n.requests (.dynamic r) e = []
  goesOn : e ≠ .streamEnd r
  notDue : n.closeOnRead ≠ some r
  unwritten : Unwritten remote key n e

def Has (r : Nat) (first : Value) (x : Static) (n : Node) : Prop :=
  ∃ d, n.registryAt r = some d ∧ d.value = some first ∧ d.asStatic = x

theorem Has.of_stays (h : n.Has r first x) (hstays : Stays (.dynamic r) n m) : m.Has r first x := by
  obtain ⟨d, hd, hv, hx⟩ := h
  exact ⟨d, hstays d hd, hv, hx⟩

/-- A dynamic registry with the value that it started from, and what it serves. Unless it is closed, what
it follows offers that value still. -/
structure Lasting (r : Nat) (remote : Remote) (key : String) (first : Value) (x : Static) (n : Node) :
    Prop where
  regular : n.Regular
  follower : ∃ f, n.followers[r]? = some f ∧ f.remote = remote ∧ f.registry.key = key
  has : n.Has r first x
  offers : x.closed = true ∨ Offers remote key first n

/-- A registry lasts if it has its value still, and if what it follows offers that value still should it be
open. -/
theorem Lasting.occur_of_has {e : Event} {x' : Static} (h : n.Lasting r remote key first x)
    (he : n.Allows e) (hhas : (n.occur e).Has r first x') (hcloses : x.closed = true → x'.closed = true)
    (hoffers : x'.closed = false → Offers remote key first n → Offers remote key first (n.occur e)) :
    (n.occur e).Lasting r remote key first x' := by
  obtain ⟨f, hf, hremote, hkey⟩ := h.follower
  obtain ⟨g, hg, hpersists⟩ := persists_occur hf e
  refine ⟨h.regular.occur he, ⟨g, hg, hpersists.remote.trans hremote, hpersists.key.trans hkey⟩, hhas, ?_⟩
  cases hopen : x'.closed with
  | true => exact Or.inl rfl
  | false =>
    refine Or.inr (hoffers hopen (h.offers.resolve_left fun hclosed => ?_))
    cases hopen.symm.trans (hcloses hclosed)

/-- The registry with its tasks. -/
theorem Lasting.exists_follower (h : n.Lasting r remote key first x) : ∃ f, n.followers[r]? = some f ∧
    f.remote = remote ∧ f.registry.key = key ∧ f.registry.value = some first ∧ f.registry.asStatic = x := by
  obtain ⟨f, hf, hremote, hkey⟩ := h.follower
  obtain ⟨d, hd, hv, hx⟩ := h.has
  have hfd : n.registryAt r = some f.registry := registryAt_of_follower hf
  obtain rfl := Option.some.inj (hfd.symm.trans hd)
  exact ⟨f, hf, hremote, hkey, hv, hx⟩

theorem Offers.shows {w : Nat} (h : Offers (.watch w) key first n) {f : Follower} (hn : n.Attached)
    (hf : n.followers[r]? = some f) (hremote : f.remote = .watch w) (hkey : f.registry.key = key) :
    ∃ due, n.store.Shows w key ⟨some first, due, false, false⟩ := by
  obtain ⟨hget, hstreams⟩ := h
  obtain ⟨v, hv⟩ := (hn.registry r f w hf hremote).shows
  rw [hkey] at hv
  obtain ⟨hclosed, hended⟩ := hv.of_streams hstreams
  obtain ⟨content, due, closed, ended⟩ := v
  obtain rfl : closed = false := hclosed
  obtain rfl : ended = false := hended
  obtain rfl : content = some first := (hv.get_eq rfl).symm.trans hget
  exact ⟨due, hv⟩

theorem offers_of_shows {w : Nat} {due : Bool}
    (h : n.store.Shows w key ⟨some first, due, false, false⟩) : Offers (.watch w) key first n := by
  refine ⟨h.get_eq rfl, h.isClosed_eq, fun hended => ?_⟩
  cases h.ended_iff.mpr hended

theorem Lasting.steady {w : Nat} (h : n.Lasting r (.watch w) key first x) : n.Steady r w key := by
  obtain ⟨f, hf, hremote, hkey⟩ := h.follower
  exact ⟨h.regular.attached, h.regular.sound, h.regular.coherent, f, hf, hremote, hkey⟩

/-- What is written neither to the key nor ends its stream leaves what the registry follows as it is, if
the update loop has no turn and the registry stays open. -/
theorem Lasting.offers_occur {e : Event} (h : n.Lasting r remote key first x)
    (hbefore : Offers remote key first n) (he : n.Allows e)
    (haside : ∀ w, remote = .watch w → e.isAside r w = true) (hunwritten : Unwritten remote key n e)
    {x' : Static} (hhas : (n.occur e).Has r first x') (hopen : x'.closed = false) :
    Offers remote key first (n.occur e) := by
  have hstays (d : Dynamic) (hd : (n.occur e).registryAt r = some d) : d.closed = false := by
    obtain ⟨d', hd', _, rfl⟩ := hhas
    obtain rfl := Option.some.inj (hd'.symm.trans hd)
    exact hopen
  cases remote with
  | feed => exact hunwritten.offers_feed hbefore
  | watch w =>
    obtain ⟨f, hf, hremote, hkey⟩ := h.follower
    obtain ⟨due, hshows⟩ := hbefore.shows h.regular.attached hf hremote hkey
    have hkeyopen : e ≠ .store (.closeKey key) := by
      rintro rfl
      simpa [written?, Store.Event.written?] using hunwritten.1
    have hput : n.put? key e = none := by
      cases e with
      | store e =>
        simp only [put?, Store.Event.put?]
        split
        · rfl
        · exact hunwritten.1
      | _ => rfl
    have hafter := shows_occur h.steady h.regular.numbered he (haside w rfl) hstays (Or.inr hkeyopen) hshows
    rw [hput] at hafter
    exact offers_of_shows hafter

/-! ### Its tasks -/

/-- The value that a registry has already brings nothing. -/
theorem receive_first {d : Dynamic} (hd : d.Coherent) (hopen : d.closed = false)
    (hv : d.value = some first) :
    (d.receive (some first)).1 = { d with instruments := d.instruments.count 1 } := by
  refine Dynamic.receive_of_not_brought hd hopen ?_
  cases hb : brought (some first) d.value d.topology with
  | none => rfl
  | some p =>
    obtain ⟨v, t⟩ := p
    obtain ⟨hsame, hnewer, _⟩ := brought_eq_some.mp hb
    obtain rfl := Option.some.inj hsame
    exact (Int64.lt_irrefl (hnewer first hv)).elim

theorem feed_ensureClosed (s : Nat) (n : Node) :
    (n.ensureClosed s).feed.content = n.feed.content := by
  unfold ensureClosed
  split
  next m hm =>
    obtain ⟨f, d, e, notices, _, _, rfl⟩ := closeDynamic_eq_ok hm
    cases f.remote <;> rfl
  next => rfl

theorem readRemote_feed (n : Node) : (n.readRemote .feed).2 = n.feed.content := by
  simp only [readRemote]
  split
  · exact feed_ensureClosed _ _
  · rfl

/-- What the update loop takes in brings nothing to a registry that has it already. -/
theorem has_of_receive {f : Follower} (hco : f.registry.Coherent) (hopen : f.registry.closed = false)
    (hv : f.registry.value = some first)
    (h : n.registryAt r = some (f.registry.receive (some first)).1) :
    n.Has r first f.registry.asStatic := by
  rw [receive_first hco hopen hv] at h
  exact ⟨_, h, hv, rfl⟩

section Updates

variable {f : Follower} (hn : n.Regular) (hf : n.followers[r]? = some f)
  (hopen : f.registry.closed = false) (hv : f.registry.value = some first)

include hn hf hopen hv

/-- The update loop may be signalled once more, though the key is not written. -/
theorem updates_of_watch {w : Nat} (hremote : f.remote = .watch w)
    (hoffers : Offers (.watch w) f.registry.key first n) :
    (n.occur (.turn (.updates r))).Has r first f.registry.asStatic ∧
    Offers (.watch w) f.registry.key first (n.occur (.turn (.updates r))) := by
  have hd : n.registryAt r = some f.registry := registryAt_of_follower hf
  obtain ⟨due, hshows⟩ := hoffers.shows hn.attached hf hremote rfl
  have hsignal := hshows.look_eq (hn.attached.registry r f w hf hremote).queueOf_eq
  have hlook : Offers (.watch w) f.registry.key first (n.takeSignal (.watch w)).1 :=
    offers_of_shows (hshows.look w)
  cases due with
  | true =>
    obtain ⟨_, hstore, hafter⟩ := updates_of_changed hf hremote hopen hshows hsignal
    refine ⟨has_of_receive (hn.coherent r _ hd) hopen hv hafter, ?_⟩
    rw [Offers, hstore]
    exact hlook
  | false =>
    have hstep : n.stepUpdates r = (n.takeSignal (.watch w)).1 := by
      rw [← hremote]
      exact stepUpdates_of_waiting hf hopen (by rw [hremote]; exact hsignal)
    constructor
    · refine ⟨f.registry, ?_, hv, rfl⟩
      change (n.stepUpdates r).registryAt r = _
      rw [hstep, registryAt_congr (followers_takeSignal _ n), hd]
    · have hstore : (n.occur (.turn (.updates r))).store = (n.stepUpdates r).store := rfl
      rw [Offers, hstore, hstep]
      exact hlook

theorem updates_of_feed (hremote : f.remote = .feed) (hoffers : Offers .feed f.registry.key first n)
    (hdue : n.closeOnRead ≠ some r) :
    (n.occur (.turn (.updates r))).Has r first f.registry.asStatic := by
  have hd : n.registryAt r = some f.registry := registryAt_of_follower hf
  have hstep : (n.occur (.turn (.updates r))).registryAt r = (n.stepUpdates r).registryAt r := rfl
  obtain ⟨hcontent, hended, hclosed⟩ := hoffers
  let m := (n.takeSignal .feed).1
  have htake : m.registryAt r = some f.registry := by
    rw [registryAt_congr (followers_takeSignal _ n), hd]
  have hsignal : (n.takeSignal .feed).2 = if 0 < n.feed.signals then .changed else .waiting := by
    rw [takeSignal, Feed.look_snd, Feed.peek, hclosed, hended]
    rfl
  by_cases hsignals : 0 < n.feed.signals
  · rw [if_pos hsignals] at hsignal
    have hwake := stepUpdates_of_changed hf hopen (by rw [hremote]; exact hsignal)
    have hread : (m.readRemote .feed).2 = some first := by
      rw [readRemote_feed]
      exact (Feed.content_look n.feed).trans hcontent
    have hreads : m.NotDue (.dynamic r) := fun s hs => Source.dynamic.inj hs ▸ hdue
    have hstays : Stays (.dynamic r) m (m.readRemote .feed).1 :=
      stays_readRemote hreads .feed
    refine has_of_receive (hn.coherent r _ hd) hopen hv ?_
    rw [hstep, hwake, hremote, registryAt_wake, if_pos rfl, hstays _ htake, hread]
    rfl
  · rw [if_neg hsignals] at hsignal
    have hwaiting := stepUpdates_of_waiting hf hopen (by rw [hremote]; exact hsignal)
    refine ⟨f.registry, ?_, hv, rfl⟩
    rw [hstep, hwaiting, hremote]
    exact htake

end Updates

theorem Has.samples (h : n.Has r first x) : (n.occur (.turn (.samples r))).Has r first x := by
  obtain ⟨d, hd, hv, hx⟩ := h
  have hturn : (n.occur (.turn (.samples r))).registryAt r = (n.stepSamples r).registryAt r := rfl
  rw [Has, hturn]
  have hstep := sample_step r n
  generalize n.stepSamples r = m at hstep ⊢
  cases hstep with
  | gone _ | waits _ _ _ => exact ⟨d, hd, hv, hx⟩
  | ends _ _ =>
    refine ⟨d, ?_, hv, hx⟩
    rw [registryAt_endTask, registryAt_modifyFollower_of_eq, hd]
    exact fun _ => rfl
  | @samples f hf _ _ =>
    obtain rfl := Option.some.inj ((registryAt_of_follower hf).symm.trans hd)
    obtain ⟨instruments, _, hsample⟩ := Dynamic.after_sample f.registry
    rw [registryAt_modifyFollower, if_pos rfl, hf]
    refine ⟨f.registry.sample, rfl, ?_⟩
    rw [show f.registry.sample = { f.registry with instruments } from hsample]
    exact ⟨hv, hx⟩

theorem Has.withdrawn (h : n.Has r first x) : (n.occur (.withdrawDynamic r)).Has r first x := by
  obtain ⟨d, hd, hv, hx⟩ := h
  obtain ⟨f, hf, rfl⟩ := Option.map_eq_some_iff.mp hd
  refine ⟨(f.registry.withdraw (n.exposition f.exposition)).1, ?_, hv, hx⟩
  simp [occur, withdrawDynamic, hf, registryAt, tell, setExposition, modifyFollower]

/-- A loop that finds its registry closed ends. -/
theorem Has.updates_of_closed (h : n.Has r first x) (hclosed : x.closed = true) :
    (n.occur (.turn (.updates r))).Has r first x := by
  obtain ⟨d, hd, hv, rfl⟩ := h
  obtain ⟨f, hf, rfl⟩ := Option.map_eq_some_iff.mp hd
  refine ⟨f.registry, ?_, hv, rfl⟩
  change (n.stepUpdates r).registryAt r = _
  rw [stepUpdates_of_closed hf hclosed, registryAt_endLoop, hd]

/-! ### Every step -/

theorem Lasting.updates (h : n.Lasting r remote key first x) (hdue : n.closeOnRead ≠ some r) :
    (n.occur (.turn (.updates r))).Has r first x := by
  rcases h.offers with hclosed | hoffers
  · exact h.has.updates_of_closed hclosed
  · obtain ⟨f, hf, hremote, rfl, hv, rfl⟩ := h.exists_follower
    cases hopen : f.registry.closed with
    | true => exact h.has.updates_of_closed hopen
    | false =>
      cases remote with
      | watch w => exact (updates_of_watch h.regular hf hopen hv hremote hoffers).1
      | feed => exact updates_of_feed h.regular hf hopen hv hremote hoffers hdue

/-- Whatever goes on behind a registry, it has the value that it started from, and serves what it served. -/
theorem Lasting.has_occur {e : Event} (h : n.Lasting r remote key first x) (he : Behind r remote key n e) :
    (n.occur e).Has r first x := by
  have hdue : n.NotDue (.dynamic r) := fun s hs => Source.dynamic.inj hs ▸ he.notDue
  cases hdrives : e.drives (.dynamic r) with
  | false => exact h.has.of_stays (stays_occur he.unasked hdrives nofun hdue)
  | true =>
    cases e with
    | wake _ _ => exact he.allows.elim
    | streamEnd s =>
      obtain rfl : r = s := by simpa [Event.drives] using hdrives
      exact absurd rfl he.goesOn
    | withdrawDynamic s =>
      obtain rfl : r = s := by simpa [Event.drives] using hdrives
      exact h.has.withdrawn
    | turn t =>
      cases t with
      | updates s =>
        obtain rfl : r = s := by simpa [Event.drives] using hdrives
        exact h.updates he.notDue
      | samples s =>
        obtain rfl : r = s := by simpa [Event.drives] using hdrives
        exact h.has.samples
      | attempt _ | consumer _ => cases hdrives
    | _ => cases hdrives

theorem Lasting.other {e : Event} (h : n.Lasting r remote key first x) (he : Behind r remote key n e) :
    (n.occur e).Lasting r remote key first x := by
  have hhas := h.has_occur he
  refine h.occur_of_has he.allows hhas id fun hopen hoffers => ?_
  -- Nobody but the update loop takes the signal that may be due.
  by_cases hturn : e = .turn (.updates r)
  · subst hturn
    cases remote with
    | feed => exact he.unwritten.offers_feed hoffers
    | watch w =>
      obtain ⟨f, hf, hremote, rfl, hv, rfl⟩ := h.exists_follower
      exact (updates_of_watch h.regular hf hopen hv hremote hoffers).2
  · refine h.offers_occur hoffers he.allows (fun w hw => ?_) he.unwritten hhas hopen
    subst hw
    refine Bool.not_eq_false _ |>.mp fun haside => ?_
    exact (not_aside_iff.mp haside).elim hturn he.unwritten.2

/-- As long as the registry is not closed, its requests leave the service alone. -/
theorem feed_ask {q : Request} (hq : q ≠ .close) (n : Node) :
    (n.ask (.dynamic r) q).feed = n.feed := by
  cases q with
  | close => exact absurd rfl hq
  | watch =>
    change (n.occur (.watch (.dynamic r))).feed = _
    have hstep := watch_step (.dynamic r) n
    generalize n.occur (.watch (.dynamic r)) = m at hstep ⊢
    cases hstep <;> rfl
  | _ => rfl

theorem Lasting.ask (h : n.Lasting r remote key first x) (q : Request) :
    n.reply (.dynamic r) q = x.reply q ∧
    (n.ask (.dynamic r) q).Lasting r remote key first (x.after q) := by
  obtain ⟨d, hd, hv, rfl⟩ := h.has
  have hco := h.regular.coherent r d hd
  refine ⟨reply_dynamic hd hco q, ?_⟩
  obtain ⟨d', hd', hv', hx'⟩ := registryAt_ask hd hco q
  cases hevent : q.event? (.dynamic r) with
  | none =>
    have hask : n.ask (.dynamic r) q = n := by rw [Node.ask, hevent]; rfl
    have hafter : d.asStatic.after q = d.asStatic := by
      cases q with
      | watch | close | next _ | drop _ => cases hevent
      | namespaces | get _ | hasPending _ => rfl
    rw [hask, hafter]
    exact h
  | some e =>
    have hask : n.ask (.dynamic r) q = n.occur e := by rw [Node.ask, hevent]; rfl
    have hallowed : n.Allows e := by
      cases q <;> cases hevent <;> trivial
    rw [hask] at hd' ⊢
    have hhas : (n.occur e).Has r first (d.asStatic.after q) := ⟨d', hd', hv'.trans hv, hx'⟩
    have hclosed := (Static.passes_after (x := d.asStatic) hco.closed q).closed
    refine h.occur_of_has hallowed hhas (fun hbefore => by simp [hclosed, hbefore]) fun hopen hoffers => ?_
    refine h.offers_occur hoffers hallowed (fun w _ => ?_) ?_ hhas hopen
    · cases q <;> cases hevent <;> rfl
    · cases remote with
      | watch w => cases q <;> cases hevent <;> exact ⟨rfl, nofun⟩
      | feed =>
        have hq : q ≠ .close := by
          rintro rfl
          simp [hopen] at hclosed
        have hfeed := feed_ask (r := r) hq n
        rw [hask] at hfeed
        rw [Unwritten, hfeed]
        exact ⟨rfl, rfl, rfl⟩

/-! ### Both kinds -/

/-- A dynamic registry that has just started, from a value that describes `t`. What it follows offers that
value still. -/
structure Initialized (t : Topology) (r : Nat) (f : Follower) (n : Node) : Prop where
  run : ∃ es e, start.Orderly (es ++ [e]) ∧ (start.run es).registryAt r = none ∧
    n = start.run (es ++ [e])
  follower : n.followers[r]? = some f
  offers : ∃ first, f.registry.value = some first ∧ first.topology = .ok t ∧
    Offers f.remote f.registry.key first n

theorem Initialized.lasting {t : Topology} {f : Follower} (h : n.Initialized t r f) :
    ∃ first, n.Lasting r f.remote f.registry.key first (Static.start t) := by
  obtain ⟨es, e, hes, hnew, rfl⟩ := h.run
  obtain ⟨first, hv, ht, hoffers⟩ := h.offers
  have hd := registryAt_of_follower h.follower
  have hstart : f.registry.asStatic = Static.start t := by
    rw [run_append] at hd
    obtain ⟨o, i, start, heq, hreads⟩ := isStart_of_new hnew hd
    rw [heq] at hv ⊢
    cases start with
    | none => cases hv
    | some p =>
      obtain ⟨v, u⟩ := p
      obtain rfl := Option.some.inj hv
      obtain rfl := Except.ok.inj ((hreads v u rfl).symm.trans ht)
      rfl
  exact ⟨first, regular_start.run hes, ⟨f, h.follower, rfl, rfl⟩, ⟨f.registry, hd, hv, hstart⟩,
    Or.inr hoffers⟩

theorem converse_dynamic {t : Topology} {f : Follower} (hn : n.Initialized t r f) {steps : List Step}
    (hsteps : Others (Behind r f.remote f.registry.key) (.dynamic r) n steps) :
    n.converse (.dynamic r) steps = (Static.start t).converse (steps.filterMap Step.request?) := by
  obtain ⟨first, hlasting⟩ := hn.lasting
  exact converse_eq (fun _ _ q h => h.ask q) (fun _ _ _ h he => h.other he) hlasting hsteps

/-! ### A dynamic registry of any topology -/

theorem Orderly.concat {es : List Event} {e : Event} (hes : n.Orderly es) (he : (n.run es).Allows e) :
    n.Orderly (es ++ [e]) := by
  induction es generalizing n with
  | nil => exact ⟨he, trivial⟩
  | cons e' es ih => exact ⟨hes.1, ih hes.2 he⟩

theorem build_of_accepts {a i : Nat} {o : DynamicOptions} (h : n.AcceptsMetrics o) (remote : Remote)
    (first : Option (Value × Topology)) : ∃ instruments, (n.build a i o remote first).followers =
      n.followers ++ [⟨.start o instruments first, remote, o.exposition, false, false, none⟩] ∧
    (n.build a i o remote first).store = n.store := by
  obtain ⟨instruments, hmade⟩ := h
  have hstep := build_step a i o remote first n
  generalize n.build a i o remote first = built at hstep ⊢
  cases hstep with
  | fails hfails =>
    rw [hfails] at hmade
    cases hmade
  | @founds k instruments f hk hf =>
    have hfollowers : k.followers = n.followers := congrArg (fun p => p.1.followers) hk.symm
    have hstore : k.store = n.store := congrArg (fun p => p.1.store) hk.symm
    subst hf
    refine ⟨instruments, ?_, ?_⟩
    · simp only [endAttempt, endTask, modifyInitializer, modifyAttempt, addTask, hfollowers]
    · simp only [endAttempt, endTask, modifyInitializer, modifyAttempt, addTask, hstore]

/-- A call that may not wait, and finds a value that describes `t`, starts such a registry. -/
theorem initialized_of_firstTurn {past : List Event} (hpast : start.Orderly past) {i a : Nat}
    {y : Initializer} (h : (start.run past).FirstTurn i a y) (hzero : y.options.initTimeout.nanos = 0)
    {v : Value} {t : Topology} (hget : (start.run past).store.get y.options.key = some v)
    (ht : v.topology = .ok t) :
    ∃ f, (start.run (past ++ [.turn (.attempt a)])).Initialized t (start.run past).followers.length f := by
  obtain ⟨k, hk⟩ := h.exists_watches
  generalize hn : start.run past = n at h hget hk ⊢
  have hshows := Store.shows_watch h.sound y.options.key
  rw [hget, ← hk.store] at hshows
  have hturn := hk.step
  rw [if_pos hzero] at hturn
  generalize (n.store.watch y.options.key).2 = w at hshows hturn
  have hstep : n.stepAttempt a = k.build a i y.options (.watch w) (some (v, t)) := by
    have hread : k.readRemote (.watch w) = (k, some v) := congrArg (Prod.mk k) hshows.contentOf_eq
    simp only [hturn, conclude, hread, ht]
  obtain ⟨instruments, hfollowers, hstore⟩ := build_of_accepts (a := a) (i := i) (hk.metrics h) (.watch w)
    (some (v, t))
  have hsame : k.followers = n.followers := congrArg World.followers hk.world
  have hend : start.run (past ++ [.turn (.attempt a)]) = n.occur (.turn (.attempt a)) := by
    rw [run_append, hn]
    rfl
  have hf : (n.occur (.turn (.attempt a))).followers[n.followers.length]? =
      some ⟨.start y.options instruments (some (v, t)), .watch w, y.options.exposition, false, false,
        none⟩ := by
    rw [followers_occur_attempt, hstep, hfollowers, hsame, List.getElem?_concat_length]
  have hafter : (n.occur (.turn (.attempt a))).store = k.store := by
    rw [← hstore, ← hstep]
    rfl
  refine ⟨_, ⟨past, .turn (.attempt a), hpast.concat trivial, ?_, rfl⟩, hend ▸ hf, v, rfl, ht, ?_⟩
  · rw [hn, registryAt, List.getElem?_eq_none (Nat.le_refl _)]
    rfl
  · rw [hend]
    exact offers_of_shows (hafter ▸ hshows)

def founding (data : List UInt8) : List Event :=
  [.store (.set "namespaces" data),
   .addInitializer ⟨some .store, "namespaces", Span.zero, "app", Span.ofSeconds 60, "main"⟩, .call 0]

theorem initialized_founding {data : List UInt8} {t : Topology}
    (ht : (⟨1, data⟩ : Value).topology = .ok t) :
    ∃ f, (start.run (founding data ++ [.turn (.attempt 0)])).Initialized t 0 f := by
  let o : DynamicOptions :=
    ⟨some .store, "namespaces", Span.zero, "app", Span.ofSeconds 60, "main"⟩
  have hmetrics : start.AcceptsMetrics o := exists_ok (by decide +kernel)
  have hnumbered : (start.run (founding data)).store.Numbered :=
    store_run_of (fun _ e h => h.occur e) Store.numbered_empty _
  have hturn : (start.run (founding data)).HasTurn 0 0 :=
    ⟨_, _, rfl, rfl, rfl, rfl, Or.inl ⟨rfl, rfl⟩⟩
  have hfirst : (start.run (founding data)).FirstTurn 0 0 ⟨o, none, []⟩ :=
    ⟨hturn, rfl, rfl, by decide +kernel, rfl, hmetrics.congr rfl rfl, sound_run Store.sound_empty _,
      hnumbered⟩
  have hfounding : start.Orderly (founding data) := by
    simp [founding, Orderly, Allows, Store.Event.taken?]
  have hget : (start.run (founding data)).store.get "namespaces" = some ⟨1, data⟩ := rfl
  exact initialized_of_firstTurn hfounding hfirst rfl hget ht

/-- Static and dynamic registries agree. Whoever talks to a static registry of `t`, and whoever talks to a
dynamic one that was initialized from a document of `t` and of which the key is not written any more, get
the same replies to the same requests, whatever else goes on: each watch yields `t` once, also after the
registry was closed, and then waits or has ended, and the registry can be closed once. There is such a
dynamic registry for every topology of which the lengths of time fit, and a static registry is always
closed together with its hub. -/
theorem static_and_dynamic_agree (t : Topology) (hsome : t.isEmpty = false)
    (hfits : ∀ n ∈ t.items, n.Fits) :
    ((∀ n ∈ t.items, n.id.utf8ByteSize < 9223372036854775808) → ∃ m r f, Initialized t r f m) ∧
    (∀ (n m : Node) (s r : Nat) (f : Follower) (steps steps' : List Step),
      n.MadeStatic t s → Others (Unasked s) (.static s) n steps →
      m.Initialized t r f → Others (Behind r f.remote f.registry.key) (.dynamic r) m steps' →
      steps.filterMap Step.request? = steps'.filterMap Step.request? →
      n.converse (.static s) steps = m.converse (.dynamic r) steps' ∧
      Serves t (n.converse (.static s) steps) ∧ Serves t (m.converse (.dynamic r) steps')) ∧
    ∀ (es : List Event) (s : Nat) (x : Static), (start.run es).statics[s]? = some x →
      x.closed = x.hub.closed := by
  refine ⟨fun hids => ?_, ?_, fun es s x hx => (allEven_start.run es s x hx).symm⟩
  · have ht := Value.topology_of_written hsome hids hfits 1 (List.Perm.refl _)
    obtain ⟨f, hf⟩ := initialized_founding ht
    exact ⟨_, 0, f, hf⟩
  · intro n m s r f steps steps' hn hsteps hm hsteps' hsame
    rw [converse_static hn hsteps, converse_dynamic hm hsteps', hsame]
    exact ⟨rfl, Static.serves_converse t _, Static.serves_converse t _⟩

/-- A registry is closed before the first one who watches it asks, and the update loop takes its turns. -/
def smallTalk : List Step :=
  [.ask .watch, .other (.turn (.updates 0)), .ask .close, .ask (.next 1), .other (.turn (.updates 0)),
   .ask (.next 1)]

theorem static_and_dynamic_agree_small : ∃ t, Value.topology ⟨1, smallDocument 97⟩ = .ok t ∧
    (start.occur (.addStatic t)).converse (.static 0) smallTalk =
      (start.run smallRun).converse (.dynamic 0) smallTalk ∧
    Serves t ((start.run smallRun).converse (.dynamic 0) smallTalk) := by
  obtain ⟨t, ht⟩ : ∃ t, Value.topology ⟨1, smallDocument 97⟩ = .ok t := exists_ok (by decide +kernel)
  obtain ⟨f, hf⟩ := initialized_founding ht
  have hfollower : ((start.run smallRun).followers[0]?).all
      (fun f => f.remote = .watch 0 && f.registry.key = "namespaces") = true := by
    decide +kernel
  have hknown : f.remote = .watch 0 ∧ f.registry.key = "namespaces" := by
    rw [show (start.run smallRun).followers[0]? = some f from hf.follower] at hfollower
    simpa using hfollower
  have hloop (n : Node) (hdue : n.closeOnRead = none) :
      Behind 0 (.watch 0) "namespaces" n (.turn (.updates 0)) :=
    ⟨trivial, rfl, nofun, by simp [hdue], rfl, nofun⟩
  have hothers : Others (Behind 0 f.remote f.registry.key) (.dynamic 0) (start.run smallRun) smallTalk := by
    rw [hknown.1, hknown.2]
    exact ⟨hloop _ (by decide +kernel), hloop _ (by decide +kernel), trivial⟩
  have hunasked : Others (Unasked 0) (.static 0) (start.occur (.addStatic t)) smallTalk :=
    ⟨rfl, rfl, trivial⟩
  obtain ⟨_, hagree, _⟩ := static_and_dynamic_agree t (Value.isEmpty_of_topology ht)
    (Value.fits_of_topology ht)
  obtain ⟨hsame, _, hserves⟩ := hagree _ _ 0 0 f _ _ ⟨[], rfl, rfl⟩ hunasked hf hothers rfl
  exact ⟨t, ht, hsame, hserves⟩

end Node

end NamespaceTopology
