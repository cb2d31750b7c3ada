import NamespaceTopology.Node.Subscribe
import NamespaceTopology.Proofs.Broadcast.Deliveries

set_option autoImplicit false

/-!
What registries are asked and what they reply, for a registry that serves one topology for good. Each watch
on it yields the topology once, whether the registry has been closed meanwhile or not. Then it waits until
the registry is closed. The registry can be closed once.
-/
namespace NamespaceTopology

inductive Request where
  | watch
  | namespaces
  | close
  | next (id : Nat)
  | get (id : Nat)
  | hasPending (id : Nat)
  | drop (id : Nat)
deriving DecidableEq

inductive Reply where
  | started (result : Except Error Nat)
  | namespaces (t : Topology)
  | closed (result : Except Error Unit)
  | delivery (d : Delivery Item)
  | held (item : Option Item)
  | pending (b : Bool)
  | dropped

def Request.hubEvent? : Request → Option (Hub.Event Topology)
  | .watch => some .subscribe
  | .close => some .close
  | .next id => some (.next id)
  | .drop id => some (.drop id)
  | .namespaces | .get _ | .hasPending _ => none

def asked (d : List (Request × Reply)) : List Request := d.map Prod.fst

namespace Static

def reply (x : Static) : Request → Reply
  | .watch => .started (x.watch.map Prod.snd)
  | .namespaces => .namespaces x.topology
  | .close => .closed (x.close.map fun _ => ())
  | .next id => .delivery ((x.hub.next id).2.map .topology)
  | .get id => .held ((x.hub.get id).map .topology)
  | .hasPending id => .pending (x.hub.hasPending id)
  | .drop _ => .dropped

def after (x : Static) : Request → Static
  | .watch => match x.watch with
    | .ok (x, _) => x
    | .error _ => x
  | .close => match x.close with
    | .ok x => x
    | .error _ => x
  | .next id => { x with hub := (x.hub.next id).1 }
  | .drop id => { x with hub := x.hub.drop id }
  | .namespaces | .get _ | .hasPending _ => x

def run (x : Static) (qs : List Request) : Static := qs.foldl after x

def converse : Static → List Request → List (Request × Reply)
  | _, [] => []
  | x, q :: qs => (q, x.reply q) :: converse (x.after q) qs

theorem run_append (x : Static) (qs qs' : List Request) : x.run (qs ++ qs') = (x.run qs).run qs' :=
  List.foldl_append

theorem reply_of_converse {x : Static} {qs : List Request} {before after : List (Request × Reply)}
    {q : Request} {reply : Reply} (h : x.converse qs = before ++ (q, reply) :: after) :
    reply = (x.run (asked before)).reply q := by
  induction before generalizing x qs with
  | nil =>
    cases qs with
    | nil => cases h
    | cons q' qs =>
      obtain ⟨hfirst, _⟩ := List.cons.inj h
      obtain ⟨rfl, rfl⟩ := Prod.mk.inj hfirst
      rfl
  | cons p before ih =>
    cases qs with
    | nil => cases h
    | cons q' qs =>
      obtain ⟨rfl, hrest⟩ := List.cons.inj h
      exact ih hrest

/-! ### One request -/

/-- The flag of a registry and that of its hub tell the same. -/
def Even (x : Static) : Prop := x.hub.closed = x.closed

theorem even_start (t : Topology) : (start t).Even := rfl

variable {x : Static}

theorem watch_of_open (hx : x.Even) (hopen : x.closed = false) : x.watch = .ok ({ x with
    hub := { x.hub with
      nextId := x.hub.nextId + 1
      registered := x.hub.registered ++ [x.hub.nextId]
      subscriptions := x.hub.subscriptions ++ [⟨x.hub.nextId, .ofLatest x.hub.latest⟩] } },
    x.hub.nextId) := by
  simp [watch, Hub.subscribe, hx.trans hopen]

theorem watch_of_closed (hx : x.Even) (hclosed : x.closed = true) :
    x.watch = .error (.lifecycle .closed) := by
  simp [watch, Hub.subscribe_of_closed (hx.trans hclosed)]

theorem close_of_open (hx : x.Even) (hopen : x.closed = false) :
    x.close = .ok { x with closed := true, hub := { x.hub with closed := true, registered := [] } } := by
  simp [close, hopen, Hub.close_of_open (hx.trans hopen)]

theorem close_of_closed (hclosed : x.closed = true) : x.close = .error (.lifecycle .alreadyClosed) :=
  if_pos hclosed

/-- What every request leaves of a registry: it goes on to serve the one topology, its flags stay equal,
and it is closed if it was so before or is closed now. -/
structure Passes (x x' : Static) (q : Request) : Prop where
  topology : x'.topology = x.topology
  latest : x'.hub.latest = x.hub.latest
  closed : x'.closed = (x.closed || q = .close)
  even : x'.Even
  hub : x'.hub = x.hub.run q.hubEvent?.toList
  /-- As long as it is open it gives out a new number for each watch. -/
  nextId : x'.closed = false → x'.hub.nextId = x.hub.nextId + if q = .watch then 1 else 0

theorem passes_after (hx : x.Even) (q : Request) : Passes x (x.after q) q := by
  cases q with
  | watch =>
    cases hclosed : x.closed with
    | true =>
      have hsame : x.after .watch = x := by simp [after, watch_of_closed hx hclosed]
      have hhub := (Hub.refuses_of_closed (hx.trans hclosed)).subscribe.2
      rw [hsame]
      exact ⟨rfl, rfl, by simp, hx, hhub.symm, fun hopen => by simp [hclosed] at hopen⟩
    | false =>
      have hhub : x.hub.occur .subscribe = (x.after .watch).hub := by
        simp [Hub.occur, Hub.subscribe, hx.trans hclosed, after, watch_of_open hx hclosed]
      rw [after, watch_of_open hx hclosed] at hhub ⊢
      exact ⟨rfl, rfl, by simp, hx, hhub.symm, fun _ => rfl⟩
  | close =>
    cases hclosed : x.closed with
    | true =>
      have hsame : x.after .close = x := by simp [after, close_of_closed hclosed]
      have hhub := (Hub.refuses_of_closed (hx.trans hclosed)).close.2
      rw [hsame]
      exact ⟨rfl, rfl, by simp [hclosed], hx, hhub.symm, fun _ => rfl⟩
    | false =>
      have hhub : x.hub.occur .close = (x.after .close).hub := by
        simp [Hub.occur, Hub.close_of_open (hx.trans hclosed), after, close_of_open hx hclosed]
      rw [after, close_of_open hx hclosed] at hhub ⊢
      exact ⟨rfl, rfl, by simp, rfl, hhub.symm, fun hopen => by cases hopen⟩
  | next id =>
    refine ⟨rfl, Hub.latest_next x.hub id, by simp [after], (Hub.closed_next x.hub id).trans hx, rfl,
      fun _ => ?_⟩
    simp only [after, Hub.next]
    split <;> rfl
  | namespaces | get _ | hasPending _ | drop _ => exact ⟨rfl, rfl, by simp [after], hx, rfl, fun _ => rfl⟩

/-! ### Requests in turn -/

theorem Even.run (hx : x.Even) (qs : List Request) : (x.run qs).Even := by
  induction qs generalizing x with
  | nil => exact hx
  | cons q qs ih => exact ih (passes_after hx q).even

theorem topology_run (hx : x.Even) (qs : List Request) : (x.run qs).topology = x.topology := by
  induction qs generalizing x with
  | nil => rfl
  | cons q qs ih => exact (ih (passes_after hx q).even).trans (passes_after hx q).topology

theorem latest_run (hx : x.Even) (qs : List Request) : (x.run qs).hub.latest = x.hub.latest := by
  induction qs generalizing x with
  | nil => rfl
  | cons q qs ih => exact (ih (passes_after hx q).even).trans (passes_after hx q).latest

theorem closed_run (hx : x.Even) (qs : List Request) :
    (x.run qs).closed = (x.closed || .close ∈ qs) := by
  induction qs generalizing x with
  | nil => simp [run]
  | cons q qs ih =>
    have hrest := ih (passes_after hx q).even
    rw [(passes_after hx q).closed] at hrest
    change ((x.after q).run qs).closed = _
    rw [hrest, Bool.or_assoc]
    simp [eq_comm]

theorem hub_run (hx : x.Even) (qs : List Request) :
    (x.run qs).hub = x.hub.run (qs.filterMap Request.hubEvent?) := by
  induction qs generalizing x with
  | nil => rfl
  | cons q qs ih =>
    have hpasses := passes_after hx q
    change ((x.after q).run qs).hub = _
    rw [ih hpasses.even, hpasses.hub]
    cases q <;> rfl

theorem nextId_run (hx : x.Even) {qs : List Request} (hopen : (x.run qs).closed = false) :
    (x.run qs).hub.nextId = x.hub.nextId + qs.count .watch := by
  induction qs generalizing x with
  | nil => rfl
  | cons q qs ih =>
    have hpasses := passes_after hx q
    have hrest : (x.after q).closed = false := by
      have hall := closed_run hpasses.even qs
      change ((x.after q).run qs).closed = false at hopen
      rw [hopen] at hall
      exact (Bool.or_eq_false_iff.mp hall.symm).1
    change ((x.after q).run qs).hub.nextId = _
    rw [ih hpasses.even hopen, hpasses.nextId hrest, List.count_cons, Nat.add_assoc, Nat.add_comm (ite ..)]
    simp

/-! ### One watch -/

/-- What is due to a watch stays due until its next value is asked for. -/
theorem owes_after {id : Nat} {due : Option Topology} (hx : x.Even) (hs : x.hub.Synced)
    (ho : x.hub.Owes id due) (q : Request) :
    (x.after q).hub.Owes id (if q = .next id then none else due) := by
  rw [(passes_after hx q).hub]
  cases hevent : q.hubEvent? with
  | none =>
    rw [if_neg (by rintro rfl; cases hevent)]
    exact ho
  | some e =>
    change (x.hub.occur e).Owes id _
    have hnothing : x.hub.published? e = none := by
      cases q <;> cases hevent <;> rfl
    split
    next hq =>
      subst hq
      obtain rfl := Option.some.inj hevent
      exact ho.next
    next hq =>
      cases hd : x.hub.delivered? id e with
      | some a =>
        obtain ⟨rfl, _⟩ := Hub.delivered?_eq_some hd
        cases q <;> cases hevent
        exact absurd rfl hq
      | none =>
        have hkept := ho.occur hs hd
        rw [hnothing] at hkept
        exact hkept

theorem owes_run {id : Nat} {due : Option Topology} (hx : x.Even) (hs : x.hub.Synced)
    (ho : x.hub.Owes id due) (qs : List Request) :
    (x.run qs).hub.Owes id (if .next id ∈ qs then none else due) := by
  induction qs generalizing x due with
  | nil => exact ho
  | cons q qs ih =>
    have hpasses := passes_after hx q
    have hsynced : (x.after q).hub.Synced := by
      rw [hpasses.hub]
      exact hs.run _
    have hrest := ih hpasses.even hsynced (owes_after hx hs ho q)
    change ((x.after q).run qs).hub.Owes id _
    by_cases hq : q = .next id
    · simpa [hq] using hrest
    · simpa [hq, Ne.symm hq] using hrest

end Static

/-! ### What everybody hears -/

/-- Somebody who has started to watch a registry asks something of his watch, which he has not dropped. It
tells what was asked of the registry since he started. -/
def Watched (d : List (Request × Reply)) (id : Nat) (since : List Request) (q : Request) (reply : Reply) :
    Prop :=
  ∃ before between after, d = before ++ (.watch, .started (.ok id)) :: between ++ (q, reply) :: after ∧
    asked between = since ∧ .drop id ∉ since

/-- What is heard of a registry that serves `t` for good. -/
structure Serves (t : Topology) (d : List (Request × Reply)) : Prop where
  namespaces (before after : List (Request × Reply)) (reply : Reply) :
    d = before ++ (.namespaces, reply) :: after → reply = .namespaces t
  /-- The first one who closes the registry can, and nobody else. -/
  close (before after : List (Request × Reply)) (reply : Reply) :
    d = before ++ (.close, reply) :: after → reply =
      .closed (if .close ∈ asked before then .error (.lifecycle .alreadyClosed) else .ok ())
  watch (before after : List (Request × Reply)) (reply : Reply) :
    d = before ++ (.watch, reply) :: after → reply =
      .started (if .close ∈ asked before then .error (.lifecycle .closed)
        else .ok ((asked before).count .watch + 1))
  /-- Each watch yields `t` once. Then it waits while the registry is open, and has ended once it is
  closed. -/
  next (id : Nat) (since : List Request) (reply : Reply) : Watched d id since (.next id) reply →
    reply = .delivery (if .next id ∉ since then .value (.topology t)
      else if .close ∈ since then .ended else .waiting)
  get (id : Nat) (since : List Request) (reply : Reply) : Watched d id since (.get id) reply →
    reply = .held (some (.topology t))
  hasPending (id : Nat) (since : List Request) (reply : Reply) :
    Watched d id since (.hasPending id) reply →
    reply = .pending (.next id ∉ since && .close ∉ since)

namespace Static

/-- A watch of a registry that has served `t` since before it, at some point after it started. -/
structure Watching (t : Topology) (id : Nat) (since : List Request) (x : Static) : Prop where
  synced : x.hub.Synced
  latest : x.hub.latest = some t
  closed : x.hub.closed = decide (.close ∈ since)
  knows : ∃ ids, x.hub.Knows ids ∧ id ∈ ids
  owes : x.hub.Owes id (if .next id ∈ since then none else some t)

/-- A watch that was just started, as long as it is not dropped. -/
theorem watching_run {t : Topology} {b : Static} (heven : b.Even) (hs : b.hub.Synced)
    (hlatest : b.hub.latest = some t) {ids : List Nat} (hknows : b.hub.Knows ids) {id : Nat}
    (hwatch : b.watch.map Prod.snd = .ok id) {since : List Request} (hdrop : .drop id ∉ since) :
    ((b.after .watch).run since).Watching t id since := by
  have hopen : b.closed = false := by
    cases hclosed : b.closed with
    | false => rfl
    | true =>
      rw [watch_of_closed heven hclosed] at hwatch
      cases hwatch
  have hpasses := passes_after heven .watch
  have hsub : b.hub.subscribe = .ok ((b.after .watch).hub, id) := by
    rw [watch_of_open heven hopen] at hwatch
    obtain rfl := Except.ok.inj hwatch
    simp [after, watch_of_open heven hopen, Hub.subscribe, heven.trans hopen]
  generalize b.after .watch = a at hpasses hsub ⊢
  have ha : a.Even := hpasses.even
  have hknows' := (hknows.subscribe hsub).run (since.filterMap Request.hubEvent?)
  have hsynced := hs.subscribe hsub
  have hhub := hub_run ha since
  refine ⟨hhub ▸ hsynced.run _, ?_, ?_, ⟨_, hhub ▸ hknows', ?_⟩, ?_⟩
  · rw [latest_run ha, hpasses.latest, hlatest]
  · rw [ha.run since, closed_run ha, hpasses.closed, hopen]
    rfl
  · refine Hub.mem_hadAlong (List.mem_append_right _ List.mem_cons_self) _ fun hmem => hdrop ?_
    obtain ⟨q, hq, hevent⟩ := List.mem_filterMap.mp hmem
    cases q <;> cases hevent
    exact hq
  · refine owes_run ha hsynced ?_ since
    rw [← hlatest]
    exact Hub.owes_subscribe hs hsub

theorem watching_of_watched {t : Topology} {qs : List Request} {id : Nat} {since : List Request}
    {q : Request} {reply : Reply} (h : Watched ((start t).converse qs) id since q reply) :
    ∃ x : Static, x.Watching t id since ∧ reply = x.reply q := by
  obtain ⟨before, between, after, hall, rfl, hdrop⟩ := h
  have hreply := reply_of_converse hall
  rw [List.append_assoc] at hall
  have hstarted : Except.ok id = ((start t).run (asked before)).watch.map Prod.snd :=
    Reply.started.inj (reply_of_converse hall)
  have hasked : asked (before ++ (.watch, .started (.ok id)) :: between) =
      asked before ++ .watch :: asked between := by simp [asked]
  rw [hasked, run_append] at hreply
  refine ⟨_, ?_, hreply⟩
  have hhub := hub_run (even_start t) (asked before)
  exact watching_run ((even_start t).run _) (hhub ▸ (Hub.synced_start _).run _) (latest_run (even_start t) _)
    (hhub ▸ (Hub.knows_start _).run _) hstarted.symm hdrop

section Watching

variable {t : Topology} {id : Nat} {since : List Request} {x : Static}

theorem Watching.told (h : x.Watching t id since) : (x.hub.next id).2 =
    if .next id ∉ since then .value t else if .close ∈ since then .ended else .waiting := by
  obtain ⟨ids, hknows, hid⟩ := h.knows
  rw [h.owes.next_snd hknows hid]
  by_cases hasked : .next id ∈ since
  · simp [hasked, Hub.told, h.closed]
  · simp [hasked, Hub.told]

theorem Watching.hasPending_eq (h : x.Watching t id since) :
    x.hub.hasPending id = (.next id ∉ since && .close ∉ since) := by
  obtain ⟨ids, hknows, hid⟩ := h.knows
  have hclosed := h.closed
  by_cases hclose : .close ∈ since
  · have hnobody : x.hub.registered = [] := by
      rw [hknows.registered, hclosed, decide_eq_true hclose, if_pos rfl]
    simp [Hub.hasPending, hnobody, hclose]
  · rw [decide_eq_false hclose] at hclosed
    rw [Bool.eq_iff_iff, Hub.hasPending_of_open hclosed hknows hid, h.told]
    by_cases hasked : .next id ∈ since <;> simp [hasked, hclose]

end Watching

theorem closed_run_start (t : Topology) (qs : List Request) :
    ((start t).run qs).closed = decide (.close ∈ qs) :=
  (closed_run (even_start t) qs).trans (Bool.false_or _)

/-- Whoever asks a registry that has just started to serve `t` hears what is heard of one that serves `t`
for good. -/
theorem serves_converse (t : Topology) (qs : List Request) : Serves t ((start t).converse qs) where
  namespaces before after reply h := by
    rw [reply_of_converse h]
    exact congrArg Reply.namespaces (topology_run (even_start t) _)
  close before after reply h := by
    have hclosed := closed_run_start t (asked before)
    rw [reply_of_converse h, Static.reply]
    by_cases hclose : .close ∈ asked before
    · rw [if_pos hclose, close_of_closed (hclosed.trans (decide_eq_true hclose))]
      rfl
    · have heven := (even_start t).run (asked before)
      rw [if_neg hclose, close_of_open heven (hclosed.trans (decide_eq_false hclose))]
      rfl
  watch before after reply h := by
    have hclosed := closed_run_start t (asked before)
    have heven := (even_start t).run (asked before)
    rw [reply_of_converse h, Static.reply]
    by_cases hclose : .close ∈ asked before
    · rw [if_pos hclose, watch_of_closed heven (hclosed.trans (decide_eq_true hclose))]
      rfl
    · have hopen := hclosed.trans (decide_eq_false hclose)
      have hnumber : ((start t).run (asked before)).hub.nextId = (asked before).count .watch + 1 :=
        (nextId_run (even_start t) hopen).trans (Nat.add_comm ..)
      rw [if_neg hclose, watch_of_open heven hopen, ← hnumber]
      rfl
  next id since reply h := by
    obtain ⟨x, hx, rfl⟩ := watching_of_watched h
    rw [Static.reply, hx.told]
    by_cases hasked : .next id ∈ since
    · by_cases hclose : .close ∈ since <;> simp [hasked, hclose, Delivery.map]
    · simp [hasked, Delivery.map]
  get id since reply h := by
    obtain ⟨x, hx, rfl⟩ := watching_of_watched h
    obtain ⟨ids, hknows, hid⟩ := hx.knows
    rw [Static.reply, hx.synced.get_eq_latest hknows hid, hx.latest]
    rfl
  hasPending id since reply h := by
    obtain ⟨x, hx, rfl⟩ := watching_of_watched h
    rw [Static.reply, hx.hasPending_eq]

end Static

end NamespaceTopology
