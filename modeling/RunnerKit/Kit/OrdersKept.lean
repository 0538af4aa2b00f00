import RunnerKit.Kit.CancelFeed
import RunnerKit.Kit.LoopKept

/-!
# Cancel orders and the tokens of the runs

The feed gives a reset in the step in which it holds a new watch, so no drop comes
between them, and the entries of a watch stand behind its reset. The token of a run that
is not joined is the one in the map: a claim needs a slot that no such run has, also
when the slots of panicked runs are never given back.
-/

namespace RunnerKit.Kit

open RunnerKit.Jobs RunnerKit.Lib

/-! ## What the feed gives -/

namespace CancelEvent

def isReset : CancelEvent → Bool
  | .reset => true
  | _ => false

end CancelEvent

/-- One order applied to the runs that are cancelled: a put adds its run, whatever removes
the key takes the run out, and nothing stands behind a reset. -/
def applyOrder (cancelled : Finset Uuid) : CancelEvent → Finset Uuid
  | .cancelled runId => insert runId cancelled
  | .cleared runId => cancelled.erase runId
  | .reset => ∅

/-- The order of an entry: a put of a run id cancels the run, and whatever else is done to
that key clears it. -/
def orderOf (parseStr : String → Option Uuid) (entry : WatchEntry) : Option CancelEvent :=
  match parseStr entry.key with
  | none => none
  | some runId => some (if entry.operation = .put then .cancelled runId else .cleared runId)

/-- The events of a watch: a reset, unless it is the first watch, and the orders of its
entries. -/
def ofWatch (parseStr : String → Option Uuid) (yielded : List (ℕ × WatchEntry))
    (watch : ℕ) : List CancelEvent :=
  (if watch = 0 then [] else [.reset]) ++
    (yielded.filter fun entry => entry.1 = watch).filterMap fun entry =>
      orderOf parseStr entry.2

/-- The feed gives the events of its watches one watch after the other, the set is the
fold of the entries given since the last reset, and the token of each running run with
an order is cancelled. -/
structure OrdersKept (parseStr : String → Option Uuid) (s : Fed) : Prop where
  given : s.given = (List.range s.feed.opened).flatMap (ofWatch parseStr s.yielded)
  folded : s.loop.cancels =
    (since CancelEvent.isReset s.given).foldl applyOrder ∅
  cancelled : s.loop.point = .head → ∀ t ∈ s.loop.runs, t.state = .running →
    t.runId ∈ s.loop.cancels →
    ∃ token, s.loop.tokens t.runId = some token ∧ token = t.number ∧ token ∈ s.loop.fired

namespace Fed

variable {parseStr : String → Option Uuid} {decode : Value → Decoded} {s s' : Fed}

/-! ## The feed -/

/-- `next` makes of an entry its order. -/
theorem eventOf_eq (entry : WatchEntry) :
    CancelFeed.eventOf parseStr entry = orderOf parseStr entry := by
  unfold CancelFeed.eventOf orderOf
  cases parseStr entry.key with
  | none => rfl
  | some runId =>
      cases entry.operation with
      | put => rfl
      | delete => rfl
      | purge => rfl

/-- The feed holds the watch that was opened last, or none. -/
structure Numbered (parseStr : String → Option Uuid) (s : Fed) : Prop where
  opened : 0 < s.feed.opened
  watch : ∀ watch, s.feed.watch = some watch → watch + 1 = s.feed.opened
  yielded : ∀ entry ∈ s.yielded, entry.1 < s.feed.opened
  watching : s.feed.place = .watching → s.feed.watch.isSome
  given : s.given = (List.range s.feed.opened).flatMap (ofWatch parseStr s.yielded)

/-- An entry of the last watch stands behind all that was given. -/
theorem flatMap_yield {yielded : List (ℕ × WatchEntry)} (watch : ℕ) (entry : WatchEntry) :
    (List.range (watch + 1)).flatMap (ofWatch parseStr (yielded ++ [(watch, entry)])) =
      (List.range (watch + 1)).flatMap (ofWatch parseStr yielded) ++
        (CancelFeed.eventOf parseStr entry).toList := by
  rw [eventOf_eq]
  have hbefore : (List.range watch).flatMap (ofWatch parseStr (yielded ++ [(watch, entry)])) =
      (List.range watch).flatMap (ofWatch parseStr yielded) := by
    apply List.flatMap_congr
    intro earlier hearlier
    have hne : watch ≠ earlier := (List.mem_range.mp hearlier).ne'
    simp [ofWatch, hne]
  have hlast : ofWatch parseStr (yielded ++ [(watch, entry)]) watch =
      ofWatch parseStr yielded watch ++ (orderOf parseStr entry).toList := by
    cases h : orderOf parseStr entry <;> simp [ofWatch, h]
  rw [List.range_succ, List.flatMap_append, List.flatMap_append, hbefore]
  simp [hlast]

/-- A watch that is opened gives its reset behind all that was given. -/
theorem flatMap_reopened {yielded : List (ℕ × WatchEntry)} {opened : ℕ} (hpos : 0 < opened)
    (hyielded : ∀ entry ∈ yielded, entry.1 < opened) :
    (List.range (opened + 1)).flatMap (ofWatch parseStr yielded) =
      (List.range opened).flatMap (ofWatch parseStr yielded) ++ [.reset] := by
  have hnone : (yielded.filter fun entry => entry.1 = opened) = [] := by
    apply List.filter_eq_nil_iff.mpr
    intro entry hentry
    simpa using (hyielded entry hentry).ne
  rw [List.range_succ, List.flatMap_append]
  simp [ofWatch, hnone, hpos.ne']

/-- The feed goes on with the watch that it held, or with none. -/
theorem Numbered.move (h : Numbered parseStr s) (feed : CancelFeed)
    (hopened : feed.opened = s.feed.opened)
    (hwatch : feed.watch = s.feed.watch ∨ feed.watch = none)
    (hplace : feed.place = .watching → feed.watch.isSome) (loop : Sys) :
    Numbered parseStr { s with loop := loop, feed := feed } where
  opened := hopened ▸ h.opened
  watch := by
    intro watch hsome
    rcases hwatch with heq | hnone
    · rw [hopened]
      exact h.watch watch (heq ▸ hsome)
    · rw [hnone] at hsome
      cases hsome
  yielded := by
    rw [hopened]
    exact h.yielded
  watching := hplace
  given := by
    rw [hopened]
    exact h.given

/-- An entry of the watch, with the event that `next` makes of it. -/
theorem Numbered.entry (h : Numbered parseStr s) (entry : WatchEntry) (place : FeedPlace)
    {watch : ℕ} (hwatch : s.feed.watch = some watch) (loop : Sys) :
    Numbered parseStr
      { loop := loop, feed := { s.feed with place := place }
        yielded := s.yielded ++ [(watch, entry)]
        given := s.given ++ (CancelFeed.eventOf parseStr entry).toList } where
  opened := h.opened
  watch := h.watch
  yielded := by
    intro other hother
    rcases List.mem_append.mp hother with hother | hother
    · exact h.yielded other hother
    · rw [List.mem_singleton.mp hother]
      exact Nat.lt_of_lt_of_eq (Nat.lt_succ_self watch) (h.watch watch hwatch)
  watching := fun _ => by rw [hwatch]; rfl
  given := by
    rw [h.given, ← h.watch watch hwatch]
    exact (flatMap_yield watch entry).symm

theorem Numbered.reopened (h : Numbered parseStr s) (loop : Sys) :
    Numbered parseStr
      { s with
        loop := loop, feed := ⟨some s.feed.opened, s.feed.opened + 1, .idle⟩
        given := s.given ++ [.reset] } where
  opened := Nat.succ_pos _
  watch := by
    intro watch hsome
    cases hsome
    rfl
  yielded := fun entry hentry => (h.yielded entry hentry).trans (Nat.lt_succ_self _)
  watching := fun _ => rfl
  given := by
    rw [h.given]
    exact (flatMap_reopened h.opened h.yielded).symm

theorem Numbered.feedStep (h : Numbered parseStr s) {event : FeedEvent}
    (hs : s.feedStep parseStr event = some s') : Numbered parseStr s' := by
  obtain ⟨⟨feed, given⟩, hfeed, rfl⟩ := Option.map_eq_some_iff.mp hs
  cases event with
  | poll =>
      simp only [CancelFeed.step, Option.ite_none_right_eq_some, Option.some.injEq,
        Prod.mk.injEq] at hfeed
      obtain ⟨-, rfl, rfl⟩ := hfeed
      have hplace : (if s.feed.watch.isSome then FeedPlace.watching else .sleeping) =
          .watching → s.feed.watch.isSome := by
        intro hplace
        by_contra hnone
        simp [hnone] at hplace
      simpa [yields] using
        h.move { s.feed with place := if s.feed.watch.isSome then .watching else .sleeping }
          rfl (Or.inl rfl) hplace s.loop
  | entry entry =>
      simp only [CancelFeed.step, Option.ite_none_right_eq_some] at hfeed
      obtain ⟨hplace, hfeed⟩ := hfeed
      obtain ⟨watch, hwatch⟩ := Option.isSome_iff_exists.mp (h.watching hplace)
      have hyields : s.yields (.entry entry) = [(watch, entry)] := by simp [yields, hwatch]
      split at hfeed
      · rename_i hnone
        cases hfeed
        simpa [hyields, hnone] using
          h.entry entry s.feed.place hwatch s.loop
      · rename_i event hsome
        cases hfeed
        simpa [hyields, hsome] using
          h.entry entry .idle hwatch (s.loop.onCancel event)
  | failed =>
      simp only [CancelFeed.step, Option.ite_none_right_eq_some, Option.some.injEq,
        Prod.mk.injEq] at hfeed
      obtain ⟨-, rfl, rfl⟩ := hfeed
      simpa [yields] using h.move { s.feed with watch := none, place := .sleeping }
        rfl (Or.inr rfl) (by simp) s.loop
  | ended =>
      simp only [CancelFeed.step, Option.ite_none_right_eq_some, Option.some.injEq,
        Prod.mk.injEq] at hfeed
      obtain ⟨-, rfl, rfl⟩ := hfeed
      simpa [yields] using h.move { s.feed with watch := none, place := .sleeping }
        rfl (Or.inr rfl) (by simp) s.loop
  | slept =>
      simp only [CancelFeed.step, Option.ite_none_right_eq_some, Option.some.injEq,
        Prod.mk.injEq] at hfeed
      obtain ⟨-, rfl, rfl⟩ := hfeed
      simpa [yields] using h.move { s.feed with place := .reopening }
        rfl (Or.inl rfl) (by simp) s.loop
  | reopened ok =>
      cases ok with
      | false =>
          simp only [CancelFeed.step, Option.ite_none_right_eq_some, Option.some.injEq,
            Prod.mk.injEq] at hfeed
          obtain ⟨-, rfl, rfl⟩ := hfeed
          simpa [yields] using h.move { s.feed with place := .sleeping }
            rfl (Or.inl rfl) (by simp) s.loop
      | true =>
          simp only [CancelFeed.step, Option.ite_none_right_eq_some, Option.some.injEq,
            Prod.mk.injEq] at hfeed
          obtain ⟨-, rfl, rfl⟩ := hfeed
          simpa [yields] using h.reopened (s.loop.onCancel .reset)

end Fed

/-! ## The tokens of the loop -/

namespace Sys

variable {s s' : Sys} {decode : Value → Decoded}

/-- Every task that is not joined has its slot and its token, also behind a panic. -/
structure Armed (s : Sys) : Prop where
  slots : ∀ t ∈ s.runs, t.runId ∈ s.slots.inFlight
  claimed : ∀ id, s.point.claimed = some id →
    id ∈ s.slots.inFlight ∧ ∀ t ∈ s.runs, t.runId ≠ id
  distinct : (s.runs.map Task.runId).Nodup
  tokens : ∀ t ∈ s.runs, s.tokens t.runId = some t.number
  fired : ∀ t ∈ s.runs, t.runId ∈ s.cancels → t.number ∈ s.fired

theorem armed_init (pool : SlotPool) : (init pool).Armed := by
  constructor <;> simp [init, Point.claimed]

/-- Only the place of the loop changes, and it claims nothing new. -/
theorem Armed.move (h : s.Armed) {point : Point}
    (hclaimed : ∀ id, point.claimed = some id → s.point.claimed = some id)
    {slots : SlotPool} (hslots : slots.inFlight = s.slots.inFlight) (draining : Bool)
    (next : ℕ) (log : List Obs) :
    ({ s with point := point, slots := slots, draining := draining, next := next
              log := log } : Sys).Armed := by
  obtain ⟨h1, h2, h3, h4, h5⟩ := h
  refine ⟨?_, ?_, h3, h4, h5⟩
  · simpa [hslots] using h1
  · simpa [hslots] using fun id hid => h2 id (hclaimed id hid)

theorem acceptTrigger_armed (h : s.Armed) (trigger : Option Trigger) :
    (s.acceptTrigger trigger).Armed := by
  unfold acceptTrigger
  cases trigger with
  | none => exact h.move (by simp [Point.claimed]) rfl _ _ _
  | some trigger =>
      dsimp only
      split
      · exact h.move (by simp [Point.claimed]) rfl _ _ _
      · have hclaim := s.slots.tryClaim_cases trigger.runId
        rcases hpair : s.slots.tryClaim trigger.runId with ⟨decision, slots⟩
        rw [hpair] at hclaim
        rcases hclaim with ⟨hdec, hnot, hin⟩ | ⟨hdec, hsame⟩
        · simp only at hdec hin
          subst hdec
          obtain ⟨h1, h2, h3, h4, h5⟩ := h
          refine ⟨?_, ?_, h3, h4, h5⟩
          · intro t ht
            rw [hin]
            exact Finset.mem_insert_of_mem (h1 t ht)
          · intro id hid
            cases hid
            rw [hin]
            refine ⟨Finset.mem_insert_self _ _, fun t ht heq => hnot ?_⟩
            rw [← heq]
            exact h1 t ht
        · cases decision with
          | claimed => exact absurd rfl hdec
          | alreadyInFlight => exact h.move (by simp [Point.claimed]) rfl _ _ _
          | atCapacity => exact h.move (by simp [Point.claimed]) rfl _ _ _
          | draining => exact h.move (by simp [Point.claimed]) rfl _ _ _

theorem publishedStarted_armed (h : s.Armed) {n : ℕ} {trigger : Trigger}
    (hpoint : s.point = .publishing n trigger) (accepted : Bool) :
    (s.publishedStarted n trigger accepted).Armed := by
  cases accepted with
  | true => exact h.move (by simp [hpoint, Point.claimed]) rfl _ _ _
  | false =>
      obtain ⟨h1, h2, h3, h4, h5⟩ := h
      refine ⟨?_, by simp [publishedStarted, Point.claimed], h3, h4, h5⟩
      intro t ht
      have hne := (h2 trigger.runId (by rw [hpoint]; rfl)).2 t ht
      simpa [publishedStarted] using ⟨hne, h1 t ht⟩

/-- The new task has a token of its own, cancelled if its order is there already. -/
theorem spawn_armed (h : s.Armed) {n : ℕ} {trigger : Trigger}
    (hpoint : s.point = .accepted n trigger) : (s.spawn n trigger).Armed := by
  obtain ⟨h1, h2, h3, h4, h5⟩ := h
  obtain ⟨hin, hnew⟩ := h2 trigger.runId (by rw [hpoint]; rfl)
  refine ⟨?_, by simp [spawn, Point.claimed], ?_, ?_, ?_⟩
  · simp only [spawn, List.mem_append, List.mem_singleton]
    rintro t (ht | rfl)
    · exact h1 t ht
    · exact hin
  · simp only [spawn, List.map_append, List.map_cons, List.map_nil]
    grind [List.nodup_append]
  · simp only [spawn, List.mem_append, List.mem_singleton]
    rintro t (ht | rfl)
    · rw [Function.update_of_ne (hnew t ht)]
      exact h4 t ht
    · simp
  · simp only [spawn, List.mem_append, List.mem_singleton]
    rintro t (ht | rfl) hcancel
    · have hfired := h5 t ht hcancel
      split
      · exact Finset.mem_insert_of_mem hfired
      · exact hfired
    · rw [if_pos (by simpa [CancelSet.isCancelled] using hcancel)]
      exact Finset.mem_insert_self _ _

theorem onCancel_armed (h : s.Armed) (event : CancelEvent) : (s.onCancel event).Armed := by
  obtain ⟨h1, h2, h3, h4, h5⟩ := h
  refine ⟨?_, ?_, ?_, ?_, ?_⟩
  any_goals cases event <;> assumption
  cases event with
  | reset => simp [onCancel, CancelSet.replaceWithReplay]
  | cleared runId => exact fun t ht hmem => h5 t ht (Finset.mem_of_mem_erase hmem)
  | cancelled runId =>
      intro t ht hmem
      rcases Finset.mem_insert.mp hmem with heq | hmem
      · have htoken := h4 t ht
        rw [heq] at htoken
        simp [onCancel, htoken]
      · have hfired := h5 t ht hmem
        simp only [onCancel]
        split
        · exact Finset.mem_insert_of_mem hfired
        · exact hfired

/-- Tasks are left out and the slot and the token of another run are given back. -/
theorem Armed.removeTask (h : s.Armed) {task : Task} (ht : task ∈ s.runs)
    {slots : SlotPool} {tokens : Uuid → Option ℕ} {point : Point}
    (hclaimed : point.claimed = none)
    (hslots : ∀ id, id ≠ task.runId → id ∈ s.slots.inFlight → id ∈ slots.inFlight)
    (htokens : ∀ id, id ≠ task.runId → tokens id = s.tokens id) (log : List Obs) :
    ({ s with slots := slots, tokens := tokens, runs := s.removeTask task.number
              point := point, log := log } : Sys).Armed := by
  obtain ⟨h1, h2, h3, h4, h5⟩ := h
  have hother : ∀ t ∈ s.removeTask task.number, t ∈ s.runs ∧ t.runId ≠ task.runId := by
    intro t hmem
    obtain ⟨hin, hnum⟩ := mem_removeTask.mp hmem
    exact ⟨hin, fun heq => hnum (by rw [List.inj_on_of_nodup_map h3 hin ht heq])⟩
  refine ⟨?_, by simp [hclaimed], (removeTask_sublist task.number).map _ |>.nodup h3, ?_, ?_⟩
  · exact fun t hmem => hslots _ (hother t hmem).2 (h1 t (hother t hmem).1)
  · exact fun t hmem => (htokens _ (hother t hmem).2).trans (h4 t (hother t hmem).1)
  · exact fun t hmem => h5 t (hother t hmem).1

theorem joinNext_armed (h : s.Armed) {task : Task} (ht : task ∈ s.runs)
    (hpoint : s.point = .head) (hs : s.joinNext task = some s') : s'.Armed := by
  have hclaimed : s.point.claimed = none := by rw [hpoint]; rfl
  unfold joinNext at hs
  split at hs
  · cases hs
  · cases hs
    apply h.removeTask ht hclaimed
    · exact fun id hne hin => Finset.mem_erase.mpr ⟨hne, hin⟩
    · exact fun id hne => Function.update_of_ne hne _ _
  · cases hs
    exact h.removeTask ht hclaimed (fun id _ hin => hin) (fun id _ => rfl) _

/-- A task that ends keeps its number and its run id. -/
theorem taskEnded_armed (h : s.Armed) (task : Task) (ended : TaskEnd) :
    (s.taskEnded task ended).Armed := by
  obtain ⟨h1, h2, h3, h4, h5⟩ := h
  have hsame : ∀ state, ∀ t ∈ s.setState task.number state,
      ∃ u ∈ s.runs, u.runId = t.runId ∧ u.number = t.number := by
    intro state t hmem
    obtain ⟨u, hu, rfl⟩ := mem_setState.mp hmem
    refine ⟨u, hu, ?_⟩
    split <;> exact ⟨rfl, rfl⟩
  cases ended with
  | returned outcome =>
      refine ⟨?_, ?_, by simpa [taskEnded] using h3, ?_, ?_⟩ <;> simp only [taskEnded] <;>
        grind
  | panicked =>
      refine ⟨?_, ?_, by simpa [taskEnded] using h3, ?_, ?_⟩ <;> simp only [taskEnded] <;>
        grind

theorem acceptTrigger_cancels (trigger : Option Trigger) :
    (s.acceptTrigger trigger).cancels = s.cancels := by
  unfold acceptTrigger
  cases trigger with
  | none => rfl
  | some trigger =>
      dsimp only
      split
      · rfl
      · split <;> rfl

/-- Each step keeps the tokens, and only an order changes the cancelled runs. -/
theorem armed_step (h : s.Armed) {event : Event} (hs : s.step decode event = some s') :
    s'.Armed ∧ ((∀ order, event ≠ .cancel order) → s'.cancels = s.cancels) := by
  cases event with
  | shutdown =>
      simp only [step, Option.ite_none_right_eq_some, Option.some.injEq] at hs
      obtain ⟨-, rfl⟩ := hs
      exact ⟨h.move (fun _ hid => hid) SlotPool.beginDrain_inFlight _ _ _, fun _ => rfl⟩
  | deadline =>
      simp only [step, Option.ite_none_right_eq_some, Option.some.injEq] at hs
      obtain ⟨-, rfl⟩ := hs
      exact ⟨h.move (by simp [Point.claimed]) rfl _ _ _, fun _ => rfl⟩
  | message trigger =>
      simp only [step, Option.ite_none_right_eq_some, Option.some.injEq] at hs
      obtain ⟨-, rfl⟩ := hs
      exact ⟨acceptTrigger_armed h trigger, fun _ => acceptTrigger_cancels trigger⟩
  | published accepted =>
      simp only [step] at hs
      split at hs
      · rename_i n trigger hpoint
        cases hs
        exact ⟨publishedStarted_armed h hpoint accepted, fun _ => by cases accepted <;> rfl⟩
      · cases hs
  | settled =>
      simp only [step] at hs
      split at hs
      · cases hs
        exact ⟨h.move (by simp [Point.claimed]) rfl _ _ _, fun _ => rfl⟩
      · rename_i n trigger hpoint
        cases hs
        exact ⟨spawn_armed h hpoint, fun _ => rfl⟩
      · cases hs
  | cancel order =>
      simp only [step, Option.ite_none_right_eq_some, Option.some.injEq] at hs
      obtain ⟨-, rfl⟩ := hs
      exact ⟨onCancel_armed h order, fun hne => absurd rfl (hne order)⟩
  | join number =>
      simp only [step, Option.ite_none_right_eq_some] at hs
      obtain ⟨hsel, hs⟩ := hs
      obtain ⟨task, htask, hjoin⟩ := Option.bind_eq_some_iff.mp hs
      refine ⟨joinNext_armed h (taskOf_some htask).1 (selecting_head hsel) hjoin, fun _ => ?_⟩
      unfold joinNext at hjoin
      split at hjoin <;> cases hjoin <;> rfl
  | leave =>
      simp only [step] at hs
      split at hs
      · split at hs
        · cases hs
          exact ⟨h.move (by simp [Point.claimed]) rfl _ _ _, fun _ => rfl⟩
        · cases hs
      · cases hs
  | ended number workload =>
      obtain ⟨task, htask, hend⟩ := Option.bind_eq_some_iff.mp hs
      simp only [Option.ite_none_right_eq_some, Option.some.injEq] at hend
      obtain ⟨-, rfl⟩ := hend
      refine ⟨taskEnded_armed h task _, fun _ => ?_⟩
      cases executeRun decode task.config workload <;> rfl
  | dropped number =>
      simp only [step] at hs
      split at hs
      · rename_i hpoint
        obtain ⟨task, htask, hend⟩ := Option.bind_eq_some_iff.mp hs
        simp only [Option.ite_none_right_eq_some, Option.some.injEq] at hend
        obtain ⟨-, rfl⟩ := hend
        obtain ⟨hmem, rfl⟩ := taskOf_some htask
        exact ⟨h.removeTask hmem (by rw [hpoint]; rfl) (fun _ _ hin => hin) (fun _ _ => rfl) _,
          fun _ => rfl⟩
      · cases hs

end Sys

/-! ## Whole runs -/

namespace Fed

variable {parseStr : String → Option Uuid} {decode : Value → Decoded} {s s' : Fed}

theorem since_order (given : List CancelEvent) (order : CancelEvent) :
    (since CancelEvent.isReset (given ++ [order])).foldl applyOrder ∅ =
      applyOrder ((since CancelEvent.isReset given).foldl applyOrder ∅) order := by
  rw [since_snoc]
  cases order <;> simp [CancelEvent.isReset, applyOrder]

theorem onCancel_cancels (s : Sys) (order : CancelEvent) :
    (s.onCancel order).cancels = applyOrder s.cancels order := by
  cases order <;> rfl

/-- What holds in every state of the loop and its feed. -/
structure Inv (parseStr : String → Option Uuid) (s : Fed) : Prop where
  numbered : Numbered parseStr s
  folded : s.loop.cancels = (since CancelEvent.isReset s.given).foldl applyOrder ∅
  armed : s.loop.Armed

theorem inv_init (pool : SlotPool) : Inv parseStr (init pool) where
  numbered := by
    constructor <;> simp [init, CancelFeed.opened0, ofWatch]
  folded := rfl
  armed := Sys.armed_init pool

/-- The future of `next` is dropped, and the feed keeps its watch. -/
theorem Inv.dropped (h : Inv parseStr s) {loop : Sys} (harmed : loop.Armed)
    (hcancels : loop.cancels = s.loop.cancels) (dropped : Bool) :
    Inv parseStr
      { s with loop := loop, feed := if dropped then s.feed.drop else s.feed } where
  numbered := by
    cases dropped with
    | true => exact h.numbered.move s.feed.drop rfl (Or.inl rfl) (by simp [CancelFeed.drop]) loop
    | false => exact h.numbered.move s.feed rfl (Or.inl rfl) h.numbered.watching loop
  folded := hcancels.trans h.folded
  armed := harmed

theorem Inv.feedStep (h : Inv parseStr s) {event : FeedEvent}
    (hs : s.feedStep parseStr event = some s') : Inv parseStr s' := by
  have hnumbered := h.numbered.feedStep hs
  obtain ⟨⟨feed, given⟩, -, rfl⟩ := Option.map_eq_some_iff.mp hs
  cases given with
  | none => exact ⟨hnumbered, by simpa using h.folded, h.armed⟩
  | some order =>
      refine ⟨hnumbered, ?_, Sys.onCancel_armed h.armed order⟩
      have horder := since_order s.given order
      rw [← h.folded] at horder
      exact (onCancel_cancels s.loop order).trans horder.symm

theorem Inv.step (h : Inv parseStr s) {event : FedEvent}
    (hs : s.step decode parseStr event = some s') : Inv parseStr s' := by
  cases event with
  | loop event =>
      cases event with
      | cancel order => cases hs
      | _ =>
          obtain ⟨loop, hloop, rfl⟩ := Option.map_eq_some_iff.mp hs
          obtain ⟨harmed, hcancels⟩ := Sys.armed_step h.armed hloop
          exact h.dropped harmed (hcancels fun _ heq => by cases heq) _
  | feed event =>
      simp only [Fed.step, Option.ite_none_right_eq_some] at hs
      exact h.feedStep hs.2
  | heartbeat =>
      simp only [Fed.step, Option.ite_none_right_eq_some, Option.some.injEq] at hs
      obtain ⟨-, rfl⟩ := hs
      exact h.dropped h.armed rfl true

/-- In every run of the loop with its feed, whatever the workloads and the watches do. -/
theorem orders_kept (decode : Value → Decoded) (parseStr : String → Option Uuid)
    {capacity : ℕ} (hcap : 0 < capacity) {s : Fed}
    (hs : (machine decode parseStr (.new capacity hcap)).Reachable s) :
    OrdersKept parseStr s := by
  have h : Inv parseStr s := hs.invariant (inv_init _) fun hp hstep => hp.step hstep
  refine ⟨h.numbered.given, h.folded, fun _ t ht _ hcancel => ?_⟩
  exact ⟨t.number, h.armed.tokens t ht, rfl, h.armed.fired t ht hcancel⟩

/-- An order comes for a run that is worked, the watch ends, and behind the reset of the new
watch the order is given again: the run stands in the set, and its token is cancelled. -/
theorem orders_kept_reopened : ∃ s : Fed,
    (machine (fun _ => .payload) (fun key => if key = "7" then some 7 else none)
      (.new 1 Nat.one_pos)).Reachable s ∧
    s.given = [.cancelled 7, .reset, .cancelled 7] ∧
    s.loop.point = .head ∧ s.loop.runs.map Task.runId = [7] ∧
    s.loop.runs.map Task.state = [.running] ∧ s.loop.cancels = {7} ∧
    s.loop.tokens 7 = some 0 ∧ 0 ∈ s.loop.fired ∧
    OrdersKept (fun key => if key = "7" then some 7 else none) s := by
  have hrun : ∃ s, (machine (fun _ => .payload)
      (fun key => if key = "7" then some 7 else none) (.new 1 Nat.one_pos)).run
      [.feed .poll, .loop (.message (some ⟨7, 8, 1, none⟩)), .loop (.published true),
        .loop .settled, .feed .poll, .feed (.entry ⟨"7", .put⟩), .feed .poll, .feed .ended,
        .feed .slept, .heartbeat, .feed .poll, .feed .slept, .feed (.reopened true),
        .feed .poll, .feed (.entry ⟨"x", .put⟩), .feed (.entry ⟨"7", .put⟩)] = some s ∧
      s.given = [.cancelled 7, .reset, .cancelled 7] ∧
      s.loop.point = .head ∧ s.loop.runs.map Task.runId = [7] ∧
      s.loop.runs.map Task.state = [.running] ∧ s.loop.cancels = {7} ∧
      s.loop.tokens 7 = some 0 ∧ 0 ∈ s.loop.fired :=
    ⟨_, rfl, rfl, rfl, rfl, rfl, by decide, rfl, by decide⟩
  obtain ⟨s, hs, hgiven, hpoint, hruns, hstates, hcancels, htoken, hfired⟩ := hrun
  have hreach := Machine.reachable_of_run _ hs
  exact ⟨s, hreach, hgiven, hpoint, hruns, hstates, hcancels, htoken, hfired,
    orders_kept _ _ Nat.one_pos hreach⟩

end Fed

end RunnerKit.Kit
