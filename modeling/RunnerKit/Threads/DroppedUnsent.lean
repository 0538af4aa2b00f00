import RunnerKit.Threads.DeliveryKept

/-!
# Which items are dropped unsent

The worker looks at the marks of refused openings when it takes an item. A mark is set when
an opening is refused for good and is kept while the adapter runs, whatever openings of the
message end later.
-/

namespace RunnerKit.Threads.Delivery

open Lib
open Jobs (Uuid Value)

variable {β : Type}

/-! ## The rule -/

/-- An opening of the message was refused for good. -/
def OpeningRefused (message : Uuid) (log : List (Obs β)) : Prop :=
  ∃ t item error, .report .itemRefused t item error ∈ log ∧ item.kind = .opening ∧
    item.message = message

/-- The item is dropped, sent or ended as the marks so far have it. -/
def DropRule (pre : List (Obs β)) : Obs β → Prop
  | .report .itemDroppedUnsent _ item _ =>
      item.kind ≠ .opening ∧ OpeningRefused item.message pre
  | .sent _ item _ => item.kind = .opening ∨ ¬ OpeningRefused item.message pre
  | .ended t item no how =>
      if how = .unsent then .report .itemDroppedUnsent t item none ∈ pre
      else .sent t item no ∈ pre
  | _ => True

theorem OpeningRefused.append {message : Uuid} {log : List (Obs β)}
    (h : OpeningRefused message log) (more : List (Obs β)) :
    OpeningRefused message (log ++ more) := by
  obtain ⟨t, item, error, hmem, hkind, hmessage⟩ := h
  exact ⟨t, item, error, List.mem_append_left _ hmem, hkind, hmessage⟩

/-- The entry is neither a drop, an attempt, an end, nor a refusal. -/
def Obs.silent : Obs β → Bool
  | .report kind _ _ _ => !(kind = .itemDroppedUnsent || kind = .itemRefused)
  | .sent .. | .ended .. => false
  | _ => true

theorem dropRule_silent {obs : Obs β} (h : obs.silent = true) (pre : List (Obs β)) :
    DropRule pre obs := by
  cases obs with
  | report kind t item error =>
      cases kind with
      | itemDroppedUnsent => cases h
      | _ => trivial
  | sent t item no => cases h
  | ended t item no how => cases h
  | _ => trivial

theorem openingRefused_silent {message : Uuid} {log more : List (Obs β)}
    (hmore : ∀ obs ∈ more, obs.silent = true) :
    OpeningRefused message (log ++ more) ↔ OpeningRefused message log := by
  constructor
  · rintro ⟨t, item, error, hmem, hkind, hmessage⟩
    rcases List.mem_append.mp hmem with hmem | hmem
    · exact ⟨t, item, error, hmem, hkind, hmessage⟩
    · cases hmore _ hmem
  · exact fun h => h.append more

theorem Obs.silent_of_quiet {obs : Obs β} (h : obs.quiet = true) : obs.silent = true := by
  cases obs with
  | report kind t item error => cases kind <;> first | rfl | cases h
  | _ => cases h

theorem Obs.silent_of_wait {obs : Obs β} (h : obs.ofWait = true) : obs.silent = true := by
  cases obs <;> first | rfl | cases h

/-! ## What the workers have done with their item -/

theorem TaskPlace.Told.append {t : ThreadRef} {log : List (Obs β)} {place : TaskPlace β}
    (h : place.Told t log) (more : List (Obs β)) : place.Told t (log ++ more) := by
  rcases place with _ | _ | _ | head | ⟨head, answer⟩ | _ | ⟨head, _ | _ | _⟩ |
    ⟨head, _ | _ | _⟩ | _ | _ | _ | _ <;>
    first | trivial | exact List.mem_append_left _ h

namespace Sys

variable {json : ItemJson β} {s s' : Sys β}

structure Marked (s : Sys β) : Prop where
  rule : Always DropRule s.log
  marks : ∀ message, s.refused message = true ↔ OpeningRefused message s.log
  told : ∀ k t place, s.tasks k = some ⟨t, place⟩ → place.Told t s.log

theorem Marked.fresh (store : List StoredItem) (history : List (Kept β))
    (base : List (ThreadRef × Item β)) : (Sys.fresh store history base).Marked := by
  refine ⟨always_nil, fun message => ?_, ?_⟩ <;> simp [Sys.fresh, OpeningRefused]

/-- A step that logs nothing of the rule and leaves the marks and the workers. -/
theorem Marked.silent (h : s.Marked) (more : List (Obs β))
    (hmore : ∀ obs ∈ more, obs.silent = true) (hlog : s'.log = s.log ++ more)
    (hrefused : s'.refused = s.refused)
    (htasks : ∀ k t place, s'.tasks k = some ⟨t, place⟩ →
      s.tasks k = some ⟨t, place⟩ ∨ place.Told t s.log) : s'.Marked := by
  refine ⟨?_, fun message => ?_, fun k t place hk => ?_⟩
  · rw [hlog]
    exact always_append h.rule fun obs hobs pre => dropRule_silent (hmore obs hobs) pre
  · rw [hlog, hrefused, openingRefused_silent hmore]
    exact h.marks message
  · rw [hlog]
    rcases htasks k t place hk with hold | htold
    · exact (h.told k t place hold).append more
    · exact htold.append more

theorem Marked.same (h : s.Marked) (hlog : s'.log = s.log) (hrefused : s'.refused = s.refused)
    (htasks : ∀ k t place, s'.tasks k = some ⟨t, place⟩ →
      s.tasks k = some ⟨t, place⟩ ∨ place.Told t s.log) : s'.Marked :=
  h.silent [] (by simp) (by simp [hlog]) hrefused htasks

/-- A worker comes to a place of which the log tells. -/
theorem told_setTask {k : ℕ} {t : ThreadRef} {place : TaskPlace β} {log : List (Obs β)}
    (hplace : place.Told t log) : ∀ j t' place', (s.setTask k t place).tasks j =
      some ⟨t', place'⟩ → s.tasks j = some ⟨t', place'⟩ ∨ place'.Told t' log := by
  intro j t' place' hj
  rcases update_some hj with ⟨rfl, heq⟩ | ⟨-, hold⟩
  · cases heq
    exact Or.inr hplace
  · exact Or.inl hold

/-- A worker logs what it does with the item it has in hand. -/
theorem Marked.acts (h : s.Marked) {k : ℕ} {t : ThreadRef} {place : TaskPlace β} (obs : Obs β)
    (hrule : DropRule s.log obs) (hlog : s'.log = s.log ++ [obs])
    (hmarks : ∀ message, s'.refused message = true ↔ OpeningRefused message (s.log ++ [obs]))
    (htasks : s'.tasks = (s.setTask k t place).tasks) (hplace : place.Told t (s.log ++ [obs])) :
    s'.Marked := by
  refine ⟨?_, fun message => ?_, fun j t' place' hj => ?_⟩
  · rw [hlog]
    exact always_snoc.mpr ⟨h.rule, hrule⟩
  · rw [hlog]
    exact hmarks message
  · rw [hlog]
    rw [htasks] at hj
    rcases told_setTask hplace j t' place' hj with hold | htold
    · exact (h.told j t' place' hold).append _
    · exact htold

/-- An entry that refuses no opening leaves what the marks say. -/
theorem Marked.unmarked (h : s.Marked) (obs : Obs β)
    (hobs : ∀ t item error, obs = .report .itemRefused t item error → item.kind ≠ .opening)
    (message : Uuid) :
    s.refused message = true ↔ OpeningRefused message (s.log ++ [obs]) := by
  rw [h.marks message]
  constructor
  · exact fun hrefused => hrefused.append _
  · rintro ⟨t, item, error, hmem, hkind, hmessage⟩
    rcases List.mem_append.mp hmem with hmem | hmem
    · exact ⟨t, item, error, hmem, hkind, hmessage⟩
    · exact absurd hkind (hobs t item error (List.mem_singleton.mp hmem).symm)

theorem Moves.marked (h : Moves json s s') (hmarked : s.Marked) : s'.Marked := by
  have hkeep : ∀ k t (place : TaskPlace β), s.tasks k = some ⟨t, place⟩ →
      s.tasks k = some ⟨t, place⟩ ∨ place.Told t s.log := fun _ _ _ hk => Or.inl hk
  cases h with
  | unsent hc hplace _ => exact hmarked.silent [_] (by simp [Obs.silent]) rfl rfl hkeep
  | pushed hc hplace _ => exact hmarked.silent [_] (by simp [Obs.silent]) rfl rfl hkeep
  | spawned hc hplace => exact hmarked.same rfl rfl (told_setTask trivial)
  | task hk _ _ _ _ _ htold hmore =>
      exact hmarked.silent _ (fun obs hobs => Obs.silent_of_quiet (hmore obs hobs)) rfl rfl
        (told_setTask (htold _ (hmarked.told _ _ _ hk)))
  | left hk hitems => exact hmarked.same rfl rfl (told_setTask trivial)
  | took hk hitems => exact hmarked.same rfl rfl (told_setTask trivial)
  | droppedUnsent hk hkind hrefused =>
      have hrule : _ ∧ _ := ⟨hkind, (hmarked.marks _).mp hrefused⟩
      refine hmarked.acts (.report .itemDroppedUnsent _ _ none) hrule rfl
        (hmarked.unmarked _ (by simp)) rfl ?_
      exact List.mem_append_right _ (List.mem_singleton_self _)
  | sent hk hsent =>
      refine hmarked.acts (.sent _ _ _) ?_ rfl (hmarked.unmarked _ (by simp)) rfl ?_
      · rcases hsent with hkind | hrefused
        · exact Or.inl hkind
        · refine Or.inr fun hopening => ?_
          cases hrefused.symm.trans ((hmarked.marks _).mpr hopening)
      · exact List.mem_append_right _ (List.mem_singleton_self _)
  | retried hk =>
      exact hmarked.silent [_] (by simp [Obs.silent]) rfl rfl (told_setTask trivial)
  | refused hk =>
      rename_i k t head error
      have hsent : .sent t head.item head.no ∈ s.log := hmarked.told k t _ hk
      refine hmarked.acts (refusal t head.item error) ?_ rfl (fun message => ?_) rfl
        (List.mem_append_left _ hsent)
      · unfold refusal
        split <;> trivial
      · -- the mark is set just when an opening is refused
        by_cases hkind : head.item.kind = .opening
        · have hobs : refusal t head.item error =
              .report .itemRefused t head.item (some error) := by simp [refusal, hkind]
          by_cases hmessage : message = head.item.message
          · subst hmessage
            refine ⟨fun _ => ⟨t, head.item, some error, ?_, hkind, rfl⟩,
              fun _ => by simp [observe, setTask, hkind]⟩
            simp [hobs]
          · have hold : s.refused message = true ↔
                OpeningRefused message (s.log ++ [refusal t head.item error]) := by
              rw [hmarked.marks message]
              constructor
              · exact fun hrefused => hrefused.append _
              · rintro ⟨t', item, error', hmem, hkind', hmessage'⟩
                rcases List.mem_append.mp hmem with hmem | hmem
                · exact ⟨t', item, error', hmem, hkind', hmessage'⟩
                · rw [hobs, List.mem_singleton] at hmem
                  cases hmem
                  exact absurd hmessage'.symm hmessage
            simpa [observe, setTask, hkind, hmessage] using hold
        · have hold := hmarked.unmarked (refusal t head.item error) (by
            intro t' item error' heq
            unfold refusal at heq
            split at heq <;> cases heq
            exact hkind) message
          simpa [observe, setTask, hkind] using hold
  | broke hk =>
      rename_i k t head how
      have htold := hmarked.told k t _ hk
      refine hmarked.same rfl rfl (told_setTask ?_)
      cases how <;> exact htold
  | popped hk =>
      rename_i k t head how
      have htold := hmarked.told k t _ hk
      refine hmarked.acts (.ended t head.item head.no how) ?_ rfl (hmarked.unmarked _ (by simp)) rfl
        trivial
      cases how <;> exact htold
  | toldEnd hk => exact hmarked.same rfl rfl (told_setTask trivial)
  | removed hk hplace =>
      rcases hplace with rfl | ⟨rfl, -⟩
      · exact hmarked.same rfl rfl (told_setTask trivial)
      · exact hmarked.same rfl rfl (told_setTask trivial)
  | cut hk _ _ _ => exact hmarked.same rfl rfl (told_setTask trivial)
  | waited hwait =>
      exact hmarked.silent _ (fun obs hobs => Obs.silent_of_wait (hwait.ofWait obs hobs)) rfl rfl hkeep
  | reportUnsent =>
      refine hmarked.silent _ (fun obs hobs => ?_) rfl rfl hkeep
      obtain ⟨queued, -, rfl⟩ := List.mem_map.mp hobs
      rfl
  | restart _ => exact .fresh _ _ _
  | _ => exact hmarked.same rfl rfl hkeep

theorem reachable_marked (h : (machine json).Reachable s) : s.Marked := by
  refine h.invariant (.fresh _ _ _) ?_
  intro s s' e hmarked hs
  exact (step_moves hs).marked hmarked

end Sys

/-! ## The result -/

/-- An item other than an opening is dropped unsent just when an opening of its message was
refused before it is taken; every other item is sent. -/
theorem dropped_unsent {json : ItemJson β} {s : Sys β} (h : (machine json).Reachable s) :
    Always DropRule s.log :=
  (Sys.reachable_marked h).rule

/-- How the last opening of the message that has ended did. -/
def lastOpening (message : Uuid) (log : List (Obs β)) : Option Ended :=
  (log.filterMap fun
    | .ended _ item _ how =>
        if item.kind = .opening ∧ item.message = message then some how else none
    | _ => none).getLast?

def threadOne : ThreadRef := ⟨0x70008000000000000001, by decide⟩

/-- An opening of the message 9. -/
def openingItem (id : Uuid) : Item Value :=
  ⟨id, threadOne.val, 5, 9, [], .opening,
    .command (.store ⟨9, threadOne.val, none, none, none, none, ⟨5, "planner", .streaming⟩⟩)⟩

/-- A chunk of the message 9, of the entry 7. -/
def chunkItem (id : Uuid) (seq : UInt64) : Item Value :=
  ⟨id, threadOne.val, 5, 9, [7], .chunk, .chunk seq (.delta (.object [("text", .string "a")]))⟩

/-- The call `c` accepts an item, and a worker of the thread is started. -/
def acceptRun (c : ℕ) (item : Item Value) : List (Event Value) :=
  [.accept c threadOne item, .call c, .appended c (.ok ()), .call c, .call c, .call c, .call c,
    .call c, .call c, .call c]

/-- The worker sends an item, which gets this answer, and leaves. -/
def sendRun (k : ℕ) (answer : Except Error (Option MessageStatus)) : List (Event Value) :=
  [.task k, .task k, .task k, .answer k answer, .task k, .task k, .task k, .task k,
    .removed k (.ok ()), .task k]

/-- The opening is refused, the message is opened again, and a chunk comes. -/
def reopenedRun : List (Event Value) :=
  ([.slot threadOne] : List (Event Value)) ++ acceptRun 0 (openingItem 1) ++
    sendRun 0 (.error .unauthenticated) ++ acceptRun 1 (openingItem 2) ++ sendRun 1 (.ok none) ++
    acceptRun 2 (chunkItem 3 0) ++ ([.task 2, .task 2, .task 2] : List (Event Value))

/-- What is logged before the chunk is taken. -/
def reopenedLog : List (Obs Value) :=
  [.queued threadOne (openingItem 1) 1 false, .sent threadOne (openingItem 1) 1,
    .report .itemRefused threadOne (openingItem 1) (some .unauthenticated),
    .ended threadOne (openingItem 1) 1 .refused, .queued threadOne (openingItem 2) 2 false,
    .sent threadOne (openingItem 2) 2, .ended threadOne (openingItem 2) 2 .delivered,
    .queued threadOne (chunkItem 3 0) 3 false]

theorem reopened_run :
    ∃ s, (machine plainJson).Reachable s ∧
      s.log = reopenedLog ++ [.report .itemDroppedUnsent threadOne (chunkItem 3 0) none] := by
  obtain ⟨s, hrun, hlog⟩ : ∃ s, (machine plainJson).run reopenedRun = some s ∧
      s.log = reopenedLog ++
        [.report .itemDroppedUnsent threadOne (chunkItem 3 0) none] := ⟨_, rfl, rfl⟩
  exact ⟨s, Machine.reachable_of_run reopenedRun hrun, hlog⟩

theorem dropped_unsent_reopened :
    ∃ s, (machine plainJson).Reachable s ∧ Always DropRule s.log ∧
      s.log = reopenedLog ++ [.report .itemDroppedUnsent threadOne (chunkItem 3 0) none] := by
  obtain ⟨s, hreach, hlog⟩ := reopened_run
  exact ⟨s, hreach, dropped_unsent hreach, hlog⟩

/-- The chunk behind an opening that was delivered is dropped: the mark of the one before is
kept. -/
theorem dropped_after_delivered_opening :
    ¬ ∀ s, (machine plainJson).Reachable s →
      ∀ pre t item error post, s.log = pre ++ .report .itemDroppedUnsent t item error :: post →
        lastOpening item.message pre = some .refused := by
  intro hrule
  obtain ⟨s, hreach, hlog⟩ := reopened_run
  have hlast := hrule s hreach reopenedLog _ _ _ [] hlog
  have hdelivered : lastOpening 9 reopenedLog = some .delivered := rfl
  cases hdelivered.symm.trans hlast

end RunnerKit.Threads.Delivery
