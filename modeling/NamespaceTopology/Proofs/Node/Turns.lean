import NamespaceTopology.Proofs.Node.Changes
import NamespaceTopology.Proofs.Node.Lines

set_option autoImplicit false

/-!
Turns of calls: what a call that initializes can do when it is its turn, and how it moves in its line.
Nothing else that happens to a node moves a call.
-/
namespace NamespaceTopology.Node

def lines (n : Node) : Lines := ⟨n.attempts, n.initializers, n.followers.length⟩

/-! ### What moves nobody -/

theorem lines_of_core {n n' : Node} (h : n'.core = n.core) : n'.lines = n.lines := by
  obtain ⟨_, hfollowers, hattempts, hinitializers⟩ := Core.mk.inj h
  rw [lines, lines, hfollowers, hattempts, hinitializers]

theorem lines_modifyFollower (r : Nat) (f : Follower → Follower) (n : Node) :
    (n.modifyFollower r f).lines = n.lines :=
  congrArg (Lines.mk n.attempts n.initializers) (List.length_modify ..)

theorem lines_closeRemote (remote : Remote) (n : Node) : (n.closeRemote remote).lines = n.lines := by
  cases remote <;> rfl

theorem lines_dropRemote (remote : Remote) (n : Node) : (n.dropRemote remote).lines = n.lines := by
  cases remote <;> rfl

theorem lines_takeSignal (remote : Remote) (n : Node) : (n.takeSignal remote).1.lines = n.lines := by
  cases remote <;> rfl

theorem lines_follow {client : Client} {key : String} {n m : Node} {remote : Remote}
    (h : n.follow client key = .ok (m, remote)) : m.lines = n.lines := by
  cases follow_step h <;> rfl

theorem lines_closeDynamic {r : Nat} {n m : Node} (h : n.closeDynamic r = .ok m) :
    m.lines = n.lines := by
  obtain ⟨f, d, e, notices, _, _, rfl⟩ := closeDynamic_eq_ok h
  exact (lines_closeRemote f.remote _).trans (lines_modifyFollower r _ n)

theorem lines_ensureClosed (r : Nat) (n : Node) : (n.ensureClosed r).lines = n.lines := by
  unfold ensureClosed
  split
  next m hm => exact lines_closeDynamic hm
  next => rfl

theorem lines_withdrawDynamic (r : Nat) (n : Node) : (n.withdrawDynamic r).lines = n.lines := by
  unfold withdrawDynamic
  split
  next => rfl
  next => exact lines_modifyFollower r _ n

theorem lines_readRemote (remote : Remote) (n : Node) : (n.readRemote remote).1.lines = n.lines := by
  have hstep := read_step remote n
  generalize (n.readRemote remote).1 = m at hstep ⊢
  cases hstep with
  | watch | feed _ => rfl
  | closes _ => exact lines_ensureClosed _ _

theorem lines_modifyHub (source : Source) (change : {α : Type} → Hub α → Hub α) (n : Node) :
    (n.modifyHub source change).lines = n.lines := by
  cases source with
  | hub h => rfl
  | static s => rfl
  | dynamic r => exact lines_modifyFollower r _ n

theorem lines_watch (source : Source) (n : Node) : (n.occur (.watch source)).lines = n.lines := by
  have hstep := watch_step source n
  generalize n.occur (.watch source) = m at hstep ⊢
  cases hstep with
  | refused _ | static _ _ | hub _ _ => rfl
  | @dynamic r f d id hf hw => exact lines_modifyFollower r _ n

theorem lines_close (source : Source) (n : Node) : (n.occur (.close source)).lines = n.lines := by
  have hstep := close_step source n
  generalize n.occur (.close source) = m at hstep ⊢
  cases hstep with
  | refused _ | static _ _ | hub _ _ => rfl
  | dynamic hc => exact lines_closeDynamic hc

theorem lines_endLoop (r : Nat) (n : Node) : (n.endLoop r).lines = n.lines :=
  lines_modifyFollower r _ n

theorem lines_wake (r : Nat) (content : Option Value) (n : Node) :
    (n.wake r content).lines = n.lines := by
  unfold wake
  cases n.followers[r]? with
  | none => rfl
  | some f => exact lines_modifyFollower r _ n

theorem lines_stepUpdates (r : Nat) (n : Node) : (n.stepUpdates r).lines = n.lines := by
  have hstep := update_step r n
  generalize n.stepUpdates r = m at hstep ⊢
  cases hstep with
  | gone _ => rfl
  | ends _ _ => exact lines_endLoop r n
  | waits _ _ _ => exact lines_takeSignal _ n
  | ended _ _ _ =>
    exact (lines_endLoop r _).trans ((lines_ensureClosed r _).trans (lines_takeSignal _ n))
  | wakes _ _ _ =>
    exact (lines_wake r _ _).trans ((lines_readRemote _ _).trans (lines_takeSignal _ n))

theorem lines_stepSamples (r : Nat) (n : Node) : (n.stepSamples r).lines = n.lines := by
  have hstep := sample_step r n
  generalize n.stepSamples r = m at hstep ⊢
  cases hstep with
  | gone _ | waits _ _ _ => rfl
  | ends _ _ | samples _ _ _ => exact lines_modifyFollower r _ n

theorem lines_stepConsumer (c : Nat) (n : Node) : (n.stepConsumer c).lines = n.lines := by
  have hstep := consume_step c n
  generalize n.stepConsumer c = m at hstep ⊢
  cases hstep with
  | gone _ => rfl
  | waits _ _ _ | takes _ _ _ | stops _ _ _ => exact lines_modifyHub _ _ n

theorem lines_release (h : Handles) (n : Node) : (n.release h).lines = n.lines :=
  release_related (R := fun n m => m.lines = n.lines) (fun _ => rfl) (fun _ _ _ h h' => h'.trans h)
    (fun _ _ => rfl) (fun n source _ => lines_modifyHub source _ n) h n

/-! ### Turns -/

theorem lines_fail (a i : Nat) (remote : Remote) (e : Error) (n : Node) :
    (n.fail a i remote e).lines = n.lines.leave a i (.finished (.error e)) := by
  have hlines : ((n.closeRemote remote).dropRemote remote).lines = n.lines :=
    (lines_dropRemote remote _).trans (lines_closeRemote remote n)
  rw [← hlines]
  rfl

theorem built_build (a i : Nat) (o : DynamicOptions) (remote : Remote)
    (first : Option (Value × Topology)) (n : Node) :
    n.lines.Built a i (n.build a i o remote first).lines := by
  have hlines : (n.createInstruments o.exposition o.scope).1.lines = n.lines := rfl
  have hstep := build_step a i o remote first n
  generalize n.build a i o remote first = built at hstep ⊢
  cases hstep with
  | fails hmade =>
    rw [hmade] at hlines
    rw [lines_fail, ← hlines]
    exact .fails _
  | @founds m instruments f hmade hf =>
    rw [hmade] at hlines
    rw [← hlines]
    have hbuilt (f : Follower) : m.lines.Built a i { (m.lines.found i).leave a i
        (.finished (.ok m.followers.length)) with founded := (m.followers ++ [f]).length } := by
      rw [List.length_append]
      exact .founds
    exact hbuilt f

theorem built_conclude (a i : Nat) (o : DynamicOptions) (remote : Remote) (n : Node) :
    n.lines.Built a i (n.conclude a i o remote).lines := by
  have hread := lines_readRemote remote n
  have hstep := conclude_step a i o remote n
  generalize n.conclude a i o remote = m at hstep ⊢
  rw [← hread]
  cases hstep with
  | builds _ _ | empty _ _ => exact built_build a i o remote _ _
  | invalid _ _ | absent _ _ =>
    rw [lines_fail]
    exact .fails _

theorem built_await (a i : Nat) (o : DynamicOptions) (remote : Remote) (deadline : Nat) (n : Node) :
    n.lines.Built a i (n.await a i o remote deadline).lines := by
  have htake := lines_takeSignal remote n
  have hstep := await_step a i o remote deadline n
  generalize n.await a i o remote deadline = m at hstep ⊢
  rw [← htake]
  cases hstep with
  | changed _ => exact built_conclude a i o remote _
  | ended _ => exact built_conclude a i o remote ((n.takeSignal remote).1.tell _)
  | late _ _ =>
    rw [lines_fail]
    exact .fails _
  | waits _ _ => exact .waits remote deadline

theorem built_takeTurn (a i : Nat) {y : Initializer} (hy : y.registry = none) (n : Node) :
    n.lines.Built a i (n.takeTurn a i y).lines := by
  have hstep := turn_step a i y n
  generalize n.takeTurn a i y = m at hstep ⊢
  cases hstep with
  | stands hr =>
    rw [hy] at hr
    cases hr
  | invalid _ _ | unfollowed _ _ _ _ => exact .fails _
  | concludes _ _ _ hf _ =>
    rw [← lines_follow hf]
    exact built_conclude a i y.options _ _
  | awaits _ _ _ hf _ =>
    rw [← lines_follow hf]
    exact built_await a i y.options _ _ _

/-! ### Lines -/

theorem lines_abandon (a i : Nat) (stage : Stage) (n : Node) :
    (n.abandon a i stage).lines = n.lines.leave a i .abandoned := by
  unfold abandon
  cases stage with
  | waiting remote deadline =>
    change (n.dropRemote remote).lines.leave a i .abandoned = _
    rw [lines_dropRemote]
  | fresh | queued | finished _ | abandoned => rfl

/-- The call that has its turn might as well stand in line as the first. -/
theorem Reaches.enters {a : Nat} {n m : Node} {x : Attempt} {y : Initializer} (h : n.Reaches a x y m)
    (hx : n.attempts[a]? = some x) (hy : n.initializers[x.initializer]? = some y) :
    ∃ (k : Lines) (x' : Attempt) (y' : Initializer), n.lines.Enters a k ∧ k.attempts[a]? = some x' ∧
      x'.initializer = x.initializer ∧ x'.stage.inLine = true ∧
      k.initializers[x.initializer]? = some y' ∧ y'.queue.head? = some a ∧ y'.registry = y.registry ∧
      (∀ stage, k.leave a x.initializer stage = m.lines.leave a x.initializer stage) ∧
      ∀ l', m.lines.Built a x.initializer l' → k.Built a x.initializer l' := by
  cases h with
  | queued hstage hfirst =>
    have hline : x.stage.inLine = true := by
      rw [hstage]
      rfl
    exact ⟨n.lines, x, y, .stays, hx, rfl, hline, hy, hfirst, rfl, fun _ => rfl, fun _ h => h⟩
  | fresh hstage hempty =>
    let joined := n.lines.join a x.initializer
    refine ⟨joined.mark a .queued, { x with stage := .queued }, { y with queue := [a] },
      .queues hx hstage hy, Lines.getElem?_attempts_mark .queued hx, rfl, rfl, ?_, rfl, rfl,
      fun stage => Lines.leave_mark a _ .queued stage joined, fun l' h => h.of_mark .queued⟩
    simp [joined, Lines.mark, Lines.join, lines, hy, hempty]

theorem turn_stepAttempt {n : Node} (hn : n.lines.Orderly) (a : Nat) :
    n.lines.Turn a (n.stepAttempt a).lines := by
  have hturned := turned_stepAttempt a n
  generalize n.stepAttempt a = m at hturned ⊢
  cases hturned with
  | stays | ends => exact ⟨n.lines, .stays, Or.inl rfl⟩
  | abandons hx _ =>
    rw [lines_abandon]
    exact ⟨n.lines, .stays, Or.inr (.abandons hx)⟩
  | queues hx hstage hy _ => exact ⟨_, .queues hx hstage hy, Or.inl rfl⟩
  | resumes hx hy hstage =>
    obtain ⟨z, hz, hfirst, hr⟩ := hn.waiting a _ _ _ hx hstage
    refine ⟨n.lines, .stays, Or.inr (.builds hx ?_ hz hfirst hr (built_await a _ _ _ _ n))⟩
    rw [hstage]
    rfl
  | @takes x y m hx hy hm =>
    obtain ⟨k, x', y', henters, hx', hsame, hline, hy', hfirst, hr, hleave, hbuilt⟩ := hm.enters hx hy
    refine ⟨k, henters, Or.inr ?_⟩
    rw [← hsame] at hy' hleave hbuilt ⊢
    cases hstands : y.registry with
    | some r =>
      have hanswer : (m.takeTurn a x'.initializer y).lines =
          k.leave a x'.initializer (.finished (.ok r)) := by
        rw [hleave, takeTurn, hstands]
        rfl
      rw [hanswer]
      exact .answers hx' hline hy' (hr.trans hstands)
    | none =>
      exact .builds hx' hline hy' hfirst (hr.trans hstands) (hbuilt _ (built_takeTurn a _ hstands m))

/-- Only a turn of a call moves somebody. -/
theorem lines_occur {n : Node} (hn : n.lines.Orderly) (e : Event) :
    n.lines.Comes (n.occur e).lines ∨
      ∃ a, e = .turn (.attempt a) ∧ n.lines.Turn a (n.occur e).lines := by
  have hstays (h : (n.occur e).lines = n.lines) : n.lines.Comes (n.occur e).lines ∨
      ∃ a, e = .turn (.attempt a) ∧ n.lines.Turn a (n.occur e).lines := by
    rw [h]
    exact Or.inl .stays
  cases e with
  | store _ => exact hstays rfl
  | feed _ | closeOnRead _ | addMeter _ _ | count _ _ | report _ _ | withdraw _ | register _ _
  | unregister _ _ | addHub _ | publish _ _ | addStatic _ | consume _ _ _ | look _ | join _
  | readNotices | refresh | pass _ => exact hstays (lines_of_core (core_occur rfl n))
  | call i | spawnInit i => exact Or.inl (.calls i)
  | cancel a => exact Or.inl (.cancels a)
  | addInitializer o => exact Or.inl (.opens o)
  | watch source => exact hstays (lines_watch source n)
  | close source => exact hstays (lines_close source n)
  | withdrawDynamic r => exact hstays (lines_withdrawDynamic r n)
  | next source id => exact hstays (lines_modifyHub source _ n)
  | unsubscribe source id => exact hstays (lines_modifyHub source _ n)
  | release h => exact hstays (lines_release h n)
  | wake r content => exact hstays (lines_wake r content n)
  | streamEnd r => exact hstays ((lines_endLoop r _).trans (lines_ensureClosed r n))
  | turn t =>
    cases t with
    | updates r => exact hstays (lines_stepUpdates r n)
    | samples r => exact hstays (lines_stepSamples r n)
    | consumer c => exact hstays (lines_stepConsumer c n)
    | attempt a => exact Or.inr ⟨a, rfl, turn_stepAttempt hn a⟩

def Lined (n : Node) : Prop := n.lines.Orderly

theorem lined_start : start.Lined where
  queued i y a hy := by simp [lines, start] at hy
  waiting a x remote deadline hx := by simp [lines, start] at hx
  answered a x r hx := by simp [lines, start] at hx

theorem Lined.occur {n : Node} (hn : n.Lined) (e : Event) : (n.occur e).Lined := by
  rcases lines_occur hn e with h | ⟨a, _, h⟩
  · exact Lines.Orderly.comes hn h
  · exact Lines.Orderly.turn hn h

theorem Lined.run {n : Node} (hn : n.Lined) (es : List Event) : (n.run es).Lined := by
  induction es generalizing n with
  | nil => exact hn
  | cons e es ih => exact ih (hn.occur e)

theorem Lined.over_run {n : Node} (hn : n.Lined) {b : Nat} {x : Attempt} (hx : n.attempts[b]? = some x)
    (hover : x.stage.isOver = true) (es : List Event) : ∃ x' : Attempt,
      (n.run es).attempts[b]? = some x' ∧ (x'.stage = x.stage ∨ x'.stage = .abandoned) := by
  induction es generalizing n x with
  | nil => exact ⟨x, hx, Or.inl rfl⟩
  | cons e es ih =>
    obtain ⟨y, hy, hstage⟩ : ∃ y : Attempt, (n.occur e).attempts[b]? = some y ∧
        (y.stage = x.stage ∨ y.stage = .abandoned) := by
      rcases lines_occur hn e with hcomes | ⟨a, _, hturn⟩
      · obtain ⟨y, hy, hstage⟩ := hcomes.stage hx
        exact ⟨y, hy, Or.inl hstage⟩
      · exact hturn.stage_of_isOver hx hover
    have hyover : y.stage.isOver = true := by
      rcases hstage with hsame | hgone
      · rw [hsame]
        exact hover
      · rw [hgone]
        rfl
    obtain ⟨x', hx', hlater⟩ := ih (hn.occur e) hy hyover
    refine ⟨x', hx', ?_⟩
    rcases hlater with hsame | hgone
    · exact hstage.imp (hsame.trans ·) (hsame.trans ·)
    · exact Or.inr hgone

end NamespaceTopology.Node
