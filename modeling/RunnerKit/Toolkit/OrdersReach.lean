import RunnerKit.Toolkit.CancelOrders
import RunnerKit.Toolkit.SlotMoves

/-!
# Cancel orders reach their run

Whichever of an order and its run comes first, the cancel token is triggered; the
known orders are the fold of what the feed opened last has given; and a slot asks for
work behind a read that found the replay complete.
-/

namespace RunnerKit.Toolkit.CancelOrders

open RunnerKit.Jobs RunnerKit.Lib RunnerKit.RunnerTransport

/-! ## The registry -/

namespace Registry

/-- Each registered run with a known order is cancelled. -/
def Cancelled (registry : Registry) : Prop :=
  ∀ runId record, registry.runs runId = some record → runId ∈ registry.knownCancels →
    record ∈ registry.triggered

variable {registry : Registry}

theorem Cancelled.registerRun (h : registry.Cancelled) (runId : Uuid) :
    (registry.registerRun runId).Cancelled := by
  unfold Registry.registerRun
  split
  · exact h
  · intro r record hrun hknown
    change Function.update registry.runs runId (some registry.made) r = some record at hrun
    change r ∈ registry.knownCancels at hknown
    change record ∈ (if runId ∈ registry.knownCancels then
      insert registry.made registry.triggered else registry.triggered)
    by_cases hr : r = runId
    · subst hr
      rw [Function.update_self] at hrun
      cases hrun
      rw [if_pos hknown]
      exact Finset.mem_insert_self _ _
    · rw [Function.update_of_ne hr] at hrun
      have hold := h r record hrun hknown
      split
      · exact Finset.mem_insert_of_mem hold
      · exact hold

theorem Cancelled.forgetRun (h : registry.Cancelled) (runId : Uuid) :
    (registry.forgetRun runId).Cancelled := by
  intro r record hrun hknown
  change Function.update registry.runs runId none r = some record at hrun
  by_cases hr : r = runId
  · subst hr
    rw [Function.update_self] at hrun
    cases hrun
  · rw [Function.update_of_ne hr] at hrun
    exact h r record hrun hknown

theorem Cancelled.orderMade (h : registry.Cancelled) (runId : Uuid) :
    (registry.orderMade runId).Cancelled := by
  intro r record hrun hknown
  apply Finset.mem_union.mpr
  rcases Finset.mem_insert.mp hknown with rfl | hknown
  · exact Or.inr (Option.mem_toFinset.mpr hrun)
  · exact Or.inl (h r record hrun hknown)

theorem Cancelled.orderDeleted (h : registry.Cancelled) (runId : Uuid) :
    (registry.orderDeleted runId).Cancelled :=
  fun r record hrun hknown => h r record hrun (Finset.mem_of_mem_erase hknown)

/-- Also the runs that were registered while another feed was read. -/
theorem cancelled_replaceOrders (registry : Registry) (orders : Finset Uuid) :
    (registry.replaceOrders orders).Cancelled := by
  intro r record hrun hknown
  apply Finset.mem_union_right
  exact Finset.mem_biUnion.mpr ⟨r, hknown, Option.mem_toFinset.mpr hrun⟩

theorem Cancelled.trigger (h : registry.Cancelled) (record : ℕ) :
    (registry.trigger record).Cancelled :=
  fun r other hrun hknown => Finset.mem_insert_of_mem (h r other hrun hknown)

theorem triggered_registerRun (registry : Registry) (runId : Uuid) :
    registry.triggered ⊆ (registry.registerRun runId).triggered := by
  unfold Registry.registerRun
  split
  · exact Finset.Subset.refl _
  · change registry.triggered ⊆ (if runId ∈ registry.knownCancels then
      insert registry.made registry.triggered else registry.triggered)
    split
    · exact Finset.subset_insert _ _
    · exact Finset.Subset.refl _

end Registry

/-! ## The task -/

section Consume

variable (s : Sys) (event : Except Error CancelEvent)

/-- An event changes what belongs to the task, and the registry. -/
theorem consume_frame :
    (s.consume event).base = s.base ∧ (s.consume event).push = s.push ∧
      (s.consume event).log = s.log ∧ (s.consume event).stored = s.stored ∧
      (s.consume event).feed = s.feed ∧ (s.consume event).taken = s.taken ∧
      (s.consume event).given = s.given ++ [event] := by
  unfold Sys.consume
  split
  · dsimp only
    split <;> exact ⟨rfl, rfl, rfl, rfl, rfl, rfl, rfl⟩
  · dsimp only
    split <;> exact ⟨rfl, rfl, rfl, rfl, rfl, rfl, rfl⟩
  · exact ⟨rfl, rfl, rfl, rfl, rfl, rfl, rfl⟩
  · exact ⟨rfl, rfl, rfl, rfl, rfl, rfl, rfl⟩
  · exact ⟨rfl, rfl, rfl, rfl, rfl, rfl, rfl⟩

/-- The orders of the task with those of the registry. -/
def Sys.orders (s : Sys) : Orders := ⟨s.complete, s.replayed, s.registry.knownCancels⟩

theorem orders_consume : (s.consume event).orders = s.orders.event event := by
  unfold Sys.consume Orders.event Sys.orders
  split
  · dsimp only
    split <;> rfl
  · dsimp only
    split <;> rfl
  · rfl
  · rfl
  · rfl

theorem cancelled_consume (h : s.registry.Cancelled) :
    (s.consume event).registry.Cancelled := by
  unfold Sys.consume
  split
  · dsimp only
    split
    · exact h.orderMade _
    · exact h
  · dsimp only
    split
    · exact h.orderDeleted _
    · exact h
  · exact Registry.cancelled_replaceOrders _ _
  · exact h
  · exact h

theorem triggered_consume :
    s.registry.triggered ⊆ (s.consume event).registry.triggered := by
  unfold Sys.consume
  split
  · dsimp only
    split
    · exact Finset.subset_union_left
    · exact Finset.Subset.refl _
  · dsimp only
    split <;> exact Finset.Subset.refl _
  · exact Finset.subset_union_left
  · exact Finset.Subset.refl _
  · exact Finset.Subset.refl _

theorem task_consume (h : s.task = .reading) :
    (s.consume event).task ≠ .opening ∧
      ((s.consume event).task = .completing → (s.consume event).complete = true) := by
  unfold Sys.consume
  split
  · dsimp only
    split <;> exact ⟨by simp [h], by simp [h]⟩
  · dsimp only
    split <;> exact ⟨by simp [h], by simp [h]⟩
  · exact ⟨by simp, fun _ => rfl⟩
  · exact ⟨by simp [h], by simp [h]⟩
  · exact ⟨by simp, by simp⟩

end Consume

/-- The feed with its reader, as the transport has it. -/
def Sys.view (s : Sys) : RunnerTransport.Sys := ⟨s.feed, s.orders, s.taken, s.given⟩

theorem given_mono {w : Wire} {s t : RunnerTransport.Sys} {event : RunnerTransport.Event}
    (hs : s.step w event = some t) {given : Except Error CancelEvent} (h : given ∈ s.given) :
    given ∈ t.given := by
  cases event with
  | entry entry =>
      simp only [RunnerTransport.Sys.step] at hs
      split at hs <;> cases hs
      exact h
  | watchFailed missing text =>
      simp only [RunnerTransport.Sys.step] at hs
      split at hs <;> cases hs
      exact h
  | watchEnded =>
      simp only [RunnerTransport.Sys.step] at hs
      split at hs <;> cases hs
      exact h
  | next =>
      simp only [RunnerTransport.Sys.step] at hs
      split at hs
      · cases hs
        exact List.mem_append_left _ h
      · obtain ⟨error, -, rfl⟩ := Option.map_eq_some_iff.mp hs
        exact List.mem_append_left _ h

/-- What a step of the reading task leaves alone. -/
structure FeedStep (w : Wire) (s t : Sys) (event : RunnerTransport.Event) : Prop where
  view : s.view.step w event = some t.view
  base : t.base = s.base
  push : t.push = s.push
  log : t.log = s.log
  stored : t.stored = s.stored
  cancelled : s.registry.Cancelled → t.registry.Cancelled
  triggered : s.registry.triggered ⊆ t.registry.triggered
  opening : t.task ≠ .opening
  completing : t.task = .completing → t.complete = true

theorem view_consume (s : Sys) (event : Except Error CancelEvent) :
    (s.consume event).view = s.view.give event := by
  obtain ⟨-, -, -, -, hfeed, htaken, hgiven⟩ := consume_frame s event
  unfold Sys.view RunnerTransport.Sys.give
  rw [orders_consume, hfeed, htaken, hgiven]

theorem FeedStep.consume {w : Wire} {s u : Sys} {event : RunnerTransport.Event}
    {given : Except Error CancelEvent} (htask : u.task = .reading)
    (hview : s.view.step w event = some (u.view.give given))
    (hbase : u.base = s.base) (hpush : u.push = s.push) (hlog : u.log = s.log)
    (hstored : u.stored = s.stored) (hregistry : u.registry = s.registry) :
    FeedStep w s (u.consume given) event := by
  obtain ⟨hb, hp, hl, hst, -, -, -⟩ := consume_frame u given
  obtain ⟨hopening, hcompleting⟩ := task_consume u given htask
  refine ⟨?_, hb.trans hbase, hp.trans hpush, hl.trans hlog, hst.trans hstored, ?_, ?_,
    hopening, hcompleting⟩
  · rw [view_consume]
    exact hview
  · intro h
    exact cancelled_consume u given (hregistry ▸ h)
  · rw [← hregistry]
    exact triggered_consume u given

theorem feedStep_spec {w : Wire} {s t : Sys} {event : RunnerTransport.Event}
    (htask : s.task = .reading) (hs : s.feedStep w event = some t) :
    FeedStep w s t event := by
  have hpolls : s.view.polls = s.polls := rfl
  cases event with
  | entry entry =>
      simp only [Sys.feedStep] at hs
      split at hs <;> cases hs
      rename_i hp
      exact ⟨by simp only [RunnerTransport.Sys.step, hpolls, hp, if_true]; rfl, rfl, rfl, rfl,
        rfl, id, Finset.Subset.refl _, by simp [htask], by simp [htask]⟩
  | watchFailed missing text =>
      simp only [Sys.feedStep] at hs
      split at hs <;> cases hs
      rename_i hp
      exact ⟨by simp only [RunnerTransport.Sys.step, hpolls, hp, if_true]; rfl, rfl, rfl, rfl,
        rfl, id, Finset.Subset.refl _, by simp [htask], by simp [htask]⟩
  | watchEnded =>
      simp only [Sys.feedStep] at hs
      split at hs <;> cases hs
      rename_i hp
      exact ⟨by simp only [RunnerTransport.Sys.step, hpolls, hp, if_true]; rfl, rfl, rfl, rfl,
        rfl, id, Finset.Subset.refl _, by simp [htask], by simp [htask]⟩
  | next =>
      simp only [Sys.feedStep] at hs
      split at hs
      · rename_i given rest hpending
        cases hs
        refine .consume htask ?_ rfl rfl rfl rfl rfl
        simp only [RunnerTransport.Sys.step]
        rw [show s.view.feed.pending = given :: rest from hpending]
        rfl
      · rename_i hpending
        obtain ⟨error, hended, rfl⟩ := Option.map_eq_some_iff.mp hs
        refine .consume htask ?_ rfl rfl rfl rfl rfl
        simp only [RunnerTransport.Sys.step]
        rw [show s.view.feed.pending = [] from hpending,
          show s.view.feed.ended = some error from hended]
        rfl

/-- A feed is opened with the orders known so far. -/
theorem feedInv_opened (w : Wire) (stored : ℕ) (known : Finset Uuid) :
    FeedInv w stored ⟨.opened stored, ⟨false, ∅, known⟩, [], []⟩ := by
  have h := feedInv_init w stored
  exact ⟨h.replayed, h.once, h.set, rfl, rfl⟩

/-! ## The slots -/

/-- The slot goes by a read that found the replay complete. -/
def actsOn : Slot → Bool
  | .looked _ state _ => state.replayComplete
  | .asked _ state _ _ => state.replayComplete
  | .claiming _ => true
  | _ => false

/-- The slot needs its last read for what it does next. -/
def needs (slot : Slot) (push : Push) : Bool := actsOn slot || decide (push = .reading)

theorem actsOn_choose {held : Option Uuid} {state : LoopState} {version : ℕ}
    {claimsBlocked : Bool}
    (h : actsOn (Slot.choose held state version claimsBlocked) = true) :
    state.replayComplete = true := by
  unfold Slot.choose at h
  split at h
  · cases h
  · rename_i hwait
    simp only [mustWait, LoopState.canAsk, Bool.or_eq_true, Bool.not_eq_true', not_or,
      Bool.not_eq_false, Bool.and_eq_true] at hwait
    exact hwait.1.2

theorem actsOn_reply (claimId : Uuid) (claim : ℕ) (epoch : Epoch) (reply : Reply) :
    actsOn (Slot.reply claimId claim epoch reply) = false := by
  unfold Slot.reply
  split
  · rfl
  · rfl
  · split <;> rfl
  · rfl
  · rfl

/-- Only a look makes a slot go by a new read. -/
theorem actsOn_moves {s : Toolkit.Sys} {event : SlotEvent} {old new : Slot}
    (h : Moves s event old new) (hlook : event ≠ .look) (hnew : actsOn new = true) :
    actsOn old = true := by
  cases h with
  | leaves _ => cases hnew
  | looks _ => exact absurd rfl hlook
  | asks => exact hnew
  | asksNothing => exact actsOn_choose hnew
  | answered => exact actsOn_choose hnew
  | wakes => cases hnew
  | quits => cases hnew
  | sends => cases hnew
  | replied =>
      rw [actsOn_reply] at hnew
      cases hnew
  | loads => cases hnew
  | loadsOlder => cases hnew
  | stores => cases hnew
  | repeats => cases hnew
  | returns => cases hnew
  | panics _ => cases hnew

/-! ## The invariant -/

/-- A slot in the `select` has left the loop. -/
def Sys.Apart (s : Sys) : Prop := ∀ i, s.push i ≠ .out → actsOn (s.base.slots i) = false

structure Inv (w : Wire) (s : Sys) : Prop where
  feed : FeedInv w s.stored s.view
  cancelled : s.registry.Cancelled
  published : s.base.loopState.replayComplete = true → s.complete = true
  opening : s.task = .opening → s.base.loopState.replayComplete = false
  completing : s.task = .completing → s.complete = true
  slots : ∀ i, needs (s.base.slots i) (s.push i) = true → lastRead i s.log = some true
  apart : s.Apart
  asks : Always AsksAfterComplete s.log

theorem inv_init (w : Wire) : Inv w .init := by
  refine ⟨feedInv_opened w 1 ∅, ?_, ?_, ?_, ?_, ?_, fun i _ => rfl, always_nil⟩
  · intro runId record hrun
    cases hrun
  · intro h
    cases h
  · intro h
    cases h
  · intro h
    cases h
  · intro i h
    cases h

/-- The feed, its reader and the registry are left alone. -/
structure SameFeed (s t : Sys) : Prop where
  view : t.view = s.view
  stored : t.stored = s.stored
  registry : t.registry = s.registry
  task : t.task = s.task
  loopState : t.base.loopState.replayComplete = s.base.loopState.replayComplete

section Slots

variable {w : Wire} {s t : Sys} {i : ℕ}

theorem SameFeed.complete (h : SameFeed s t) : t.complete = s.complete :=
  congrArg (fun view => view.orders.complete) h.view

theorem Inv.ofSame (inv : Inv w s) (h : SameFeed s t)
    (hslots : ∀ j, needs (t.base.slots j) (t.push j) = true → lastRead j t.log = some true)
    (hapart : t.Apart) (hasks : Always AsksAfterComplete t.log) : Inv w t := by
  refine ⟨?_, ?_, ?_, ?_, ?_, hslots, hapart, hasks⟩
  · rw [h.view, h.stored]
    exact inv.feed
  · rw [h.registry]
    exact inv.cancelled
  · rw [h.loopState, h.complete]
    exact inv.published
  · rw [h.task, h.loopState]
    exact inv.opening
  · rw [h.task, h.complete]
    exact inv.completing

/-- No slot needs its last read that did not need it before. -/
theorem Inv.quiet (inv : Inv w s) (h : SameFeed s t)
    (hneeds : ∀ j, needs (t.base.slots j) (t.push j) = true →
      needs (s.base.slots j) (s.push j) = true)
    (hapart : t.Apart) (hlog : t.log = s.log) : Inv w t := by
  refine inv.ofSame h ?_ hapart (hlog ▸ inv.asks)
  intro j hj
  rw [hlog]
  exact inv.slots j (hneeds j hj)

theorem asksAfterComplete_read (log : List Obs) (i : ℕ) (complete : Bool) :
    AsksAfterComplete log (.read i complete) := by
  intro j c h
  cases h

/-- Slot `i` reads the loop state, and may go by what it has read. -/
theorem Inv.read (inv : Inv w s) (h : SameFeed s t)
    (hlog : t.log = s.log ++ [.read i s.complete])
    (hown : needs (t.base.slots i) (t.push i) = true →
      s.base.loopState.replayComplete = true)
    (hothers : ∀ j, j ≠ i → needs (t.base.slots j) (t.push j) = true →
      needs (s.base.slots j) (s.push j) = true) (hapart : t.Apart) : Inv w t := by
  refine inv.ofSame h ?_ hapart ?_
  · intro j hj
    rw [hlog, lastRead_snoc]
    by_cases hji : i = j
    · subst hji
      rw [readAfter, if_pos rfl, inv.published (hown hj)]
    · rw [readAfter, if_neg hji]
      exact inv.slots j (hothers j (Ne.symm hji) hj)
  · rw [hlog]
    exact always_snoc.mpr ⟨inv.asks, asksAfterComplete_read _ _ _⟩

/-- A slot that goes by its last read asks for work. -/
theorem Inv.ask (inv : Inv w s) (h : SameFeed s t)
    (hlog : t.log = s.log ++ [.asked i s.complete])
    (hown : needs (s.base.slots i) (s.push i) = true)
    (hneeds : ∀ j, needs (t.base.slots j) (t.push j) = true →
      needs (s.base.slots j) (s.push j) = true) (hapart : t.Apart) : Inv w t := by
  refine inv.ofSame h ?_ hapart ?_
  · intro j hj
    rw [hlog, lastRead_snoc]
    exact inv.slots j (hneeds j hj)
  · rw [hlog]
    refine always_snoc.mpr ⟨inv.asks, fun j complete heq => ?_⟩
    cases heq
    exact inv.slots i hown

end Slots

/-! ### The steps of the slots -/

section SlotStep

variable {w : Wire} {s t : Sys} {u : Toolkit.Sys} {i : ℕ} {event : SlotEvent}

theorem beside_base : (s.beside u i event).base = u := by
  unfold Sys.beside
  split
  · split <;> rfl
  · rfl
  · split <;> rfl
  · split <;> rfl
  · rfl
  · rfl

theorem beside_same (hloop : u.loopState = s.base.loopState) :
    SameFeed s (s.beside u i event) := by
  have hsame : SameFeed s { s with base := u } :=
    ⟨rfl, rfl, rfl, rfl, congrArg LoopState.replayComplete hloop⟩
  unfold Sys.beside
  split
  · split <;> exact ⟨rfl, rfl, rfl, rfl, hsame.loopState⟩
  · exact ⟨rfl, rfl, rfl, rfl, hsame.loopState⟩
  · split <;> exact ⟨rfl, rfl, rfl, rfl, hsame.loopState⟩
  · split <;> exact ⟨rfl, rfl, rfl, rfl, hsame.loopState⟩
  · exact ⟨rfl, rfl, rfl, rfl, hsame.loopState⟩
  · exact hsame

theorem setPush_reading {push : Push} (hpush : push ≠ .reading) {j : ℕ}
    (h : (s.setPush i push).push j = .reading) : s.push j = .reading := by
  by_cases hji : j = i
  · subst hji
    rw [show (s.setPush j push).push j = push by simp [Sys.setPush]] at h
    exact absurd h hpush
  · rwa [show (s.setPush i push).push j = s.push j from Function.update_of_ne hji _ _] at h

theorem beside_reading {j : ℕ} (h : (s.beside u i event).push j = .reading) :
    s.push j = .reading := by
  have hset : ∀ push, push ≠ Push.reading →
      (({ s with base := u } : Sys).setPush i push).push j = .reading → s.push j = .reading :=
    fun push hpush hj => setPush_reading (s := { s with base := u }) hpush hj
  unfold Sys.beside at h
  split at h
  · split at h <;> exact h
  · exact h
  · split at h
    · exact hset .selecting (by decide) h
    · exact h
  · split at h
    · exact hset .selecting (by decide) h
    · exact h
  · exact hset .out (by decide) h
  · exact h

theorem setPush_apart (h : s.Apart) {push : Push}
    (hacts : push ≠ .out → actsOn (s.base.slots i) = false) : (s.setPush i push).Apart := by
  intro j hj
  by_cases hji : j = i
  · subst hji
    rw [show (s.setPush j push).push j = push by simp [Sys.setPush]] at hj
    exact hacts hj
  · rw [show (s.setPush i push).push j = s.push j from Function.update_of_ne hji _ _] at hj
    exact h j hj

theorem beside_apart (h : s.Apart) (hout : s.push i = .out ∨ isPanic event = true)
    (hmove : SlotMove s.base u i event) : (s.beside u i event).Apart := by
  have hothers : ∀ j, j ≠ i → s.push j ≠ .out → actsOn (u.slots j) = false := by
    intro j hj hpush
    rw [hmove.others j hj]
    exact h j hpush
  have hbase : s.push i = .out → ({ s with base := u } : Sys).Apart := by
    intro hpush j hj
    by_cases hji : j = i
    · subst hji
      exact absurd hpush hj
    · exact hothers j hji hj
  have hread : s.push i = .out → (s.beside u i .ask).Apart := by
    intro hpush
    unfold Sys.beside
    dsimp only
    split
    · rename_i held hslot
      exact setPush_apart (hbase hpush) fun _ => by rw [hslot]; rfl
    · exact hbase hpush
  rcases hout with hpush | hpanic
  · cases event with
    | look =>
        unfold Sys.beside
        dsimp only
        split <;> exact hbase hpush
    | ask => exact hread hpush
    | answer => exact hread hpush
    | panic => exact setPush_apart (hbase hpush) fun h => absurd rfl h
    | send fresh => exact hbase hpush
    | wake => exact hbase hpush
    | reply reply => exact hbase hpush
    | stopLoad => exact hbase hpush
    | stopStore => exact hbase hpush
    | resume => exact hbase hpush
  · cases event with
    | panic =>
        intro j hj
        by_cases hji : j = i
        · subst hji
          exact absurd (by simp [Sys.beside, Sys.setPush]) hj
        · refine hothers j hji fun hpush => hj ?_
          exact (Function.update_of_ne hji _ _).trans hpush
    | _ => cases hpanic

theorem needs_beside (hlook : event ≠ .look) (hmove : SlotMove s.base u i event) (j : ℕ)
    (h : needs ((s.beside u i event).base.slots j) ((s.beside u i event).push j) = true) :
    needs (s.base.slots j) (s.push j) = true := by
  rw [beside_base] at h
  rcases Bool.or_eq_true_iff.mp h with hacts | hreading
  · apply Bool.or_eq_true_iff.mpr
    refine Or.inl ?_
    by_cases hji : j = i
    · subst hji
      exact actsOn_moves hmove.moves hlook hacts
    · rwa [hmove.others j hji] at hacts
  · apply Bool.or_eq_true_iff.mpr
    exact Or.inr (decide_eq_true (beside_reading (of_decide_eq_true hreading)))

theorem Inv.look (inv : Inv w s) (hout : s.push i = .out)
    (hmove : SlotMove s.base u i .look) : Inv w (s.beside u i .look) := by
  have hapart := beside_apart inv.apart (Or.inl hout) hmove
  have hsame : SameFeed s (s.beside u i .look) := beside_same hmove.loopState
  have hothers : ∀ j, j ≠ i → needs ((s.beside u i .look).base.slots j)
      ((s.beside u i .look).push j) = true → needs (s.base.slots j) (s.push j) = true := by
    intro j hj h
    rw [beside_base, hmove.others j hj] at h
    rcases Bool.or_eq_true_iff.mp h with hacts | hreading
    · exact Bool.or_eq_true_iff.mpr (Or.inl hacts)
    · exact Bool.or_eq_true_iff.mpr
        (Or.inr (decide_eq_true (beside_reading (of_decide_eq_true hreading))))
  have hown : needs ((s.beside u i .look).base.slots i) ((s.beside u i .look).push i) =
      actsOn (u.slots i) := by
    have hnot : (s.beside u i .look).push i ≠ .reading := by
      intro h
      have hreading := beside_reading h
      rw [hout] at hreading
      cases hreading
    rw [beside_base, needs, decide_eq_false hnot, Bool.or_false]
  have hmoves := hmove.moves
  generalize hold : s.base.slots i = old at hmoves
  generalize hnew : u.slots i = new at hmoves hown
  cases hmoves with
  | leaves hdrain =>
      have hlog : (s.beside u i .look).log = s.log := by simp [Sys.beside, hdrain]
      refine inv.quiet hsame (fun j hj => ?_) hapart hlog
      by_cases hji : j = i
      · subst hji
        rw [hown] at hj
        cases hj
      · exact hothers j hji hj
  | looks hdrain =>
      have hlog : (s.beside u i .look).log = s.log ++ [.read i s.complete] := by
        simp [Sys.beside, hdrain, Sys.observe]
      exact inv.read hsame hlog (fun h => (hown.symm.trans h : _)) hothers hapart

theorem Inv.slotStep (inv : Inv w s) (hs : s.slotStep i event = some t) : Inv w t := by
  simp only [Sys.slotStep] at hs
  split at hs
  · rename_i hguard
    obtain ⟨u, hu, rfl⟩ := Option.map_eq_some_iff.mp hs
    have hmove := slotStep_move hu
    have hsame : SameFeed s (s.beside u i event) := beside_same hmove.loopState
    by_cases hlook : event = .look
    · subst hlook
      refine inv.look ?_ hmove
      rcases hguard with hout | hpanic
      · exact hout
      · cases hpanic
    · have hneeds := fun j => needs_beside hlook hmove j
      have hapart := beside_apart inv.apart hguard hmove
      cases event with
      | look => exact absurd rfl hlook
      | send fresh =>
          refine inv.ask hsame rfl ?_ hneeds hapart
          have hmoves := hmove.moves
          generalize s.base.slots i = old at hmoves
          generalize u.slots i = new at hmoves
          cases hmoves with
          | sends => rfl
      | ask =>
          refine inv.quiet hsame hneeds hapart ?_
          unfold Sys.beside
          dsimp only
          split <;> rfl
      | answer =>
          refine inv.quiet hsame hneeds hapart ?_
          unfold Sys.beside
          dsimp only
          split <;> rfl
      | wake => exact inv.quiet hsame hneeds hapart rfl
      | reply reply => exact inv.quiet hsame hneeds hapart rfl
      | stopLoad => exact inv.quiet hsame hneeds hapart rfl
      | stopStore => exact inv.quiet hsame hneeds hapart rfl
      | resume => exact inv.quiet hsame hneeds hapart rfl
      | panic => exact inv.quiet hsame hneeds hapart rfl
  · cases hs

end SlotStep

/-! ### The other steps -/

section Steps

variable {w : Wire} {s t : Sys}

theorem Inv.baseStep (inv : Inv w s) {event : Toolkit.Event}
    (hs : s.baseStep event = some t) : Inv w t := by
  cases event with
  | slot i event => exact inv.slotStep hs
  | replay complete => cases hs
  | given mode =>
      obtain ⟨u, hu, rfl⟩ := Option.map_eq_some_iff.mp hs
      simp only [Toolkit.Sys.step] at hu
      split at hu <;> cases hu
      exact inv.quiet ⟨rfl, rfl, rfl, rfl, rfl⟩ (fun j hj => hj) inv.apart rfl
  | publish =>
      obtain ⟨u, hu, rfl⟩ := Option.map_eq_some_iff.mp hs
      obtain ⟨mode, -, rfl⟩ := Option.map_eq_some_iff.mp hu
      exact inv.quiet ⟨rfl, rfl, rfl, rfl, rfl⟩ (fun j hj => hj) inv.apart rfl
  | drain =>
      cases hs
      exact inv.quiet ⟨rfl, rfl, rfl, rfl, rfl⟩ (fun j hj => hj) inv.apart rfl

/-- A registry that keeps the known orders. -/
theorem Inv.withRegistry (inv : Inv w s) {registry : Registry}
    (hknown : registry.knownCancels = s.registry.knownCancels)
    (hcancelled : registry.Cancelled) : Inv w { s with registry := registry } := by
  refine ⟨?_, hcancelled, inv.published, inv.opening, inv.completing, inv.slots, inv.apart,
    inv.asks⟩
  have hview : ({ s with registry := registry } : Sys).view = s.view := by
    unfold Sys.view Sys.orders
    rw [hknown]
  rw [hview]
  exact inv.feed

theorem knownCancels_registerRun (registry : Registry) (runId : Uuid) :
    (registry.registerRun runId).knownCancels = registry.knownCancels := by
  unfold Registry.registerRun
  split <;> rfl

/-- The task goes on, the loop state may be published. -/
theorem Inv.withTask (inv : Inv w s) {task : Task} {base : Toolkit.Sys}
    (hslots : base.slots = s.base.slots)
    (hpublished : base.loopState.replayComplete = true → s.complete = true)
    (hopening : task = .opening → base.loopState.replayComplete = false)
    (hcompleting : task = .completing → s.complete = true) :
    Inv w { s with base := base, task := task } := by
  refine ⟨inv.feed, inv.cancelled, hpublished, hopening, hcompleting, ?_, ?_, inv.asks⟩
  · intro i hi
    exact inv.slots i (hslots ▸ hi)
  · intro i hi
    exact hslots ▸ inv.apart i hi

theorem Inv.feedStep (inv : Inv w s) {event : RunnerTransport.Event}
    (htask : s.task = .reading) (hs : s.feedStep w event = some t) : Inv w t := by
  have hstep := feedStep_spec htask hs
  have hfeed : FeedInv w t.stored t.view := by
    rw [hstep.stored]
    exact inv.feed.step hstep.view
  -- the replay that is complete stays complete
  have hcomplete : s.complete = true → t.complete = true := by
    intro h
    have hgiven : s.given.any isComplete = true := inv.feed.complete.symm.trans h
    refine hfeed.complete.trans ?_
    obtain ⟨event, hmem, hevent⟩ := List.any_eq_true.mp hgiven
    exact List.any_eq_true.mpr ⟨event, given_mono hstep.view hmem, hevent⟩
  refine ⟨hfeed, hstep.cancelled inv.cancelled, ?_, ?_, hstep.completing, ?_, ?_, ?_⟩
  · rw [hstep.base]
    exact fun h => hcomplete (inv.published h)
  · exact fun h => absurd h hstep.opening
  · rw [hstep.base, hstep.push, hstep.log]
    exact inv.slots
  · unfold Sys.Apart
    rw [hstep.base, hstep.push]
    exact inv.apart
  · rw [hstep.log]
    exact inv.asks

theorem Inv.taskStep (inv : Inv w s) {event : Event}
    (hs : s.taskStep w s.task event = some t) : Inv w t := by
  unfold Sys.taskStep at hs
  split at hs
  · cases hs
    exact inv.withTask rfl (by intro h; cases h) (fun _ => rfl) (by simp)
  · rename_i stored htask
    cases hs
    have hoff := inv.opening htask
    refine ⟨feedInv_opened w stored _, inv.cancelled, ?_, ?_, ?_, inv.slots, inv.apart, inv.asks⟩
    · intro h
      rw [show (s.openFeed stored).base = s.base from rfl, hoff] at h
      cases h
    · intro h
      cases h
    · intro h
      cases h
  · cases hs
    exact inv.withTask rfl inv.published (by simp) (by simp)
  · rename_i event htask
    exact inv.feedStep htask hs
  · rename_i htask
    cases hs
    exact inv.withTask rfl (fun _ => inv.completing htask) (by simp) (by simp)
  · cases hs
    exact inv.withTask rfl (by intro h; cases h) (by simp) (by simp)
  · cases hs
    exact inv.withTask rfl inv.published (by simp) (by simp)
  · cases hs
    exact inv.withTask rfl inv.published (by simp) (by simp)
  · cases hs

/-- The `select` goes on at slot `i`, which does not need its last read any more or has
just read. -/
theorem needs_setPush {i j : ℕ} {push : Push} (hj : j ≠ i ∨ push ≠ .reading)
    (h : needs (s.base.slots j) ((s.setPush i push).push j) = true) :
    needs (s.base.slots j) (s.push j) = true := by
  rcases Bool.or_eq_true_iff.mp h with hacts | hreading
  · exact Bool.or_eq_true_iff.mpr (Or.inl hacts)
  · refine Bool.or_eq_true_iff.mpr (Or.inr (decide_eq_true ?_))
    rcases hj with hji | hpush
    · exact (Function.update_of_ne hji _ _).symm.trans (of_decide_eq_true hreading)
    · exact setPush_reading hpush (of_decide_eq_true hreading)

theorem Inv.poll (inv : Inv w s) {i : ℕ} (hpush : s.push i = .selecting) :
    Inv w (s.poll i) := by
  have hacts : actsOn (s.base.slots i) = false := inv.apart i (by rw [hpush]; decide)
  refine inv.read (i := i) ⟨rfl, rfl, rfl, rfl, rfl⟩ rfl ?_ ?_ ?_
  · intro h
    rcases Bool.or_eq_true_iff.mp h with hown | hreading
    · rw [show (s.poll i).base.slots i = s.base.slots i from rfl, hacts] at hown
      cases hown
    · have hset : (if unusable s.base.loopState .push then Push.out else .reading) =
          .reading :=
        (Function.update_self i _ s.push).symm.trans (of_decide_eq_true hreading)
      split at hset
      · cases hset
      · rename_i husable
        simp only [unusable, LoopState.canAsk, Bool.not_eq_true', Bool.not_eq_false,
          Bool.and_eq_true] at husable
        exact husable.1.2
  · exact fun j hj h => needs_setPush (Or.inl hj) h
  · exact setPush_apart inv.apart fun _ => hacts

theorem Inv.next (inv : Inv w s) {i : ℕ} (hpush : s.push i = .reading) (ready : Bool) :
    Inv w ((s.setPush i (if ready then .out else .selecting)).observe
      (.asked i s.complete)) := by
  have hacts : actsOn (s.base.slots i) = false := inv.apart i (by rw [hpush]; decide)
  have hne : (if ready then Push.out else .selecting) ≠ .reading := by
    cases ready <;> decide
  refine inv.ask (i := i) ⟨rfl, rfl, rfl, rfl, rfl⟩ rfl ?_ ?_ ?_
  · rw [hpush, needs, decide_eq_true rfl, Bool.or_true]
  · exact fun j h => needs_setPush (Or.inr hne) h
  · exact setPush_apart inv.apart fun _ => hacts

theorem Inv.leave (inv : Inv w s) (i : ℕ) : Inv w (s.setPush i .out) := by
  refine inv.quiet ⟨rfl, rfl, rfl, rfl, rfl⟩ ?_ ?_ rfl
  · exact fun j h => needs_setPush (Or.inr (by decide)) h
  · exact setPush_apart inv.apart fun h => absurd rfl h

theorem Inv.step (inv : Inv w s) {event : Event} (hs : s.step w event = some t) :
    Inv w t := by
  cases event with
  | base event => exact inv.baseStep hs
  | register runId =>
      cases hs
      exact inv.withRegistry (knownCancels_registerRun _ _) (inv.cancelled.registerRun runId)
  | forget runId =>
      cases hs
      exact inv.withRegistry rfl (inv.cancelled.forgetRun runId)
  | trigger record =>
      cases hs
      exact inv.withRegistry rfl (inv.cancelled.trigger record)
  | poll i =>
      simp only [Sys.step] at hs
      split at hs <;> cases hs
      rename_i hpush
      exact inv.poll hpush
  | next i ready =>
      simp only [Sys.step] at hs
      split at hs <;> cases hs
      rename_i hpush
      exact inv.next hpush ready
  | leave i =>
      simp only [Sys.step] at hs
      split at hs <;> cases hs
      exact inv.leave i
  | reset => exact inv.taskStep hs
  | opened stored => exact inv.taskStep hs
  | openFailed => exact inv.taskStep hs
  | feed event => exact inv.taskStep hs
  | publish => exact inv.taskStep hs
  | close => exact inv.taskStep hs
  | beat => exact inv.taskStep hs
  | taskPanics => exact inv.taskStep hs

theorem inv (h : (Sys.machine w).Reachable s) : Inv w s :=
  h.invariant (inv_init w) fun inv hs => inv.step hs

/-! ## The tokens -/

theorem registry_baseStep {event : Toolkit.Event} (hs : s.baseStep event = some t) :
    t.registry = s.registry := by
  cases event with
  | slot i event =>
      simp only [Sys.baseStep, Sys.slotStep] at hs
      split at hs
      · obtain ⟨u, hu, rfl⟩ := Option.map_eq_some_iff.mp hs
        exact (beside_same (slotStep_move hu).loopState).registry
      · cases hs
  | given mode =>
      obtain ⟨u, -, rfl⟩ := Option.map_eq_some_iff.mp hs
      rfl
  | publish =>
      obtain ⟨u, -, rfl⟩ := Option.map_eq_some_iff.mp hs
      rfl
  | replay complete => cases hs
  | drain =>
      cases hs
      rfl

theorem triggered_taskStep {event : Event} (hs : s.taskStep w s.task event = some t) :
    s.registry.triggered ⊆ t.registry.triggered := by
  unfold Sys.taskStep at hs
  split at hs
  case h_4 event htask => exact (feedStep_spec htask hs).triggered
  case h_9 => cases hs
  all_goals
    cases hs
    exact Finset.Subset.refl _

/-- No step takes a cancel back. -/
theorem triggered_step {event : Event} (hs : s.step w event = some t) :
    s.registry.triggered ⊆ t.registry.triggered := by
  cases event with
  | base event =>
      rw [registry_baseStep hs]
  | register runId =>
      cases hs
      exact Registry.triggered_registerRun _ _
  | forget runId =>
      cases hs
      exact Finset.Subset.refl _
  | trigger record =>
      cases hs
      exact Finset.subset_insert _ _
  | poll i =>
      simp only [Sys.step] at hs
      split at hs <;> cases hs
      exact Finset.Subset.refl _
  | next i ready =>
      simp only [Sys.step] at hs
      split at hs <;> cases hs
      exact Finset.Subset.refl _
  | leave i =>
      simp only [Sys.step] at hs
      split at hs <;> cases hs
      exact Finset.Subset.refl _
  | reset => exact triggered_taskStep hs
  | opened stored => exact triggered_taskStep hs
  | openFailed => exact triggered_taskStep hs
  | feed event => exact triggered_taskStep hs
  | publish => exact triggered_taskStep hs
  | close => exact triggered_taskStep hs
  | beat => exact triggered_taskStep hs
  | taskPanics => exact triggered_taskStep hs

theorem triggered_run {events : List Event} : ∀ {s : Sys},
    (Sys.machine w).runFrom s events = some t →
      s.registry.triggered ⊆ t.registry.triggered := by
  induction events with
  | nil =>
      intro s hrun
      cases hrun
      exact Finset.Subset.refl _
  | cons event events ih =>
      intro s hrun
      obtain ⟨u, hu, hrest⟩ := Option.bind_eq_some_iff.mp hrun
      exact (triggered_step hu).trans (ih hrest)

end Steps

/-! ## Results -/

section Results

variable (w : Wire)

/-- Every cancel order reaches its run, and work is asked for behind a complete
replay. -/
theorem orders_reach {s : Sys} (h : (Sys.machine w).Reachable s) :
    (∀ runId record, s.registry.runs runId = some record →
      runId ∈ s.registry.knownCancels → record ∈ s.registry.triggered) ∧
    (∀ events t, (Sys.machine w).runFrom s events = some t →
      s.registry.triggered ⊆ t.registry.triggered) ∧
    (s.given.any isComplete = true → s.registry.knownCancels = orderSet s.given) ∧
    Always AsksAfterComplete s.log := by
  have hinv := inv h
  refine ⟨hinv.cancelled, fun events t hrun => triggered_run hrun, ?_, hinv.asks⟩
  intro hcomplete
  have hcurrent : s.orders.current = orderSet s.given := hinv.feed.current
  have hover : s.orders.complete = true := hinv.feed.complete.trans hcomplete
  rwa [Orders.current, if_pos hover] at hcurrent

end Results

/-! ## A slot behind a restart

The slot reads the loop state, then the feed ends and is opened again, then the slot
sends its claim.
-/

/-- The order of run 1 is replayed, and the replay is over. -/
def replay : List Event :=
  [.reset, .opened 1, .feed (.entry ⟨firstKey, .put, [1], true⟩), .feed .next, .feed .next,
    .publish]

def claimBehind : List Event :=
  replay ++ [.register 1, .base (.given .claim), .base .publish,
    .base (.slot 0 .look), .base (.slot 0 .ask), .base (.slot 0 .answer),
    .feed .watchEnded, .feed .next, .close, .beat, .reset, .opened 1,
    .base (.slot 0 (.send 7))]

theorem orders_reach_claimBehind :
    ∃ s, (Sys.machine sampleWire).Reachable s ∧ s.registry.triggered = {0} ∧
      s.log = [.read 0 true, .asked 0 false] ∧
      (∀ runId record, s.registry.runs runId = some record →
        runId ∈ s.registry.knownCancels → record ∈ s.registry.triggered) ∧
      (∀ events t, (Sys.machine sampleWire).runFrom s events = some t →
        s.registry.triggered ⊆ t.registry.triggered) ∧
      (s.given.any isComplete = true → s.registry.knownCancels = orderSet s.given) ∧
      Always AsksAfterComplete s.log := by
  have h : (Sys.machine sampleWire).Reachable _ :=
    Machine.reachable_of_run claimBehind rfl
  exact ⟨_, h, rfl, rfl, orders_reach sampleWire h⟩

/-- Nothing is asked for while the replay of the feed is not complete. -/
def AsksComplete (log : List Obs) : Prop := ∀ i complete, .asked i complete ∈ log → complete = true

theorem asked_behind_restart :
    ∃ s, (Sys.machine sampleWire).run claimBehind = some s ∧ ¬ AsksComplete s.log := by
  refine ⟨_, rfl, fun h => ?_⟩
  have hasked := h 0 false (List.mem_cons_of_mem _ (List.mem_singleton_self _))
  cases hasked

end RunnerKit.Toolkit.CancelOrders
