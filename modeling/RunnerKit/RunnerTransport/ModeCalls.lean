import RunnerKit.RunnerTransport.Mode

/-!
# The calls of the mode feed

What holds between the awaits of a call: at an await before the end nothing
waits to be given, the errors that wait are those of single entries, and the
error that `Feed` keeps is the one that ended the feed.
-/

namespace RunnerKit.RunnerTransport.Mode

open RunnerKit.Jobs RunnerKit.Lib

/-! ## Pushing -/

/-- What a push adds to the items told. -/
def pushed (last : Option ModeEvent) (item : Item) : List Item :=
  match item.event with
  | .ok event => if last = some event then [] else [item]
  | .error _ => [item]

def lastAfter (item : Item) : Option ModeEvent :=
  match item.event with
  | .ok event => some event
  | .error _ => none

theorem push_eq (feed : ModeFeed) (item : Item) : feed.push item =
    { feed with last := lastAfter item, pending := feed.pending ++ pushed feed.last item } := by
  obtain ⟨event, position⟩ := item
  obtain ⟨pending, last, started, ended⟩ := feed
  cases event with
  | ok event =>
      by_cases hlast : last = some event
      · simp [ModeFeed.push, lastAfter, pushed, hlast]
      · simp [ModeFeed.push, lastAfter, pushed, hlast]
  | error error => rfl

theorem mem_push {feed : ModeFeed} {item it : Item} (h : it ∈ (feed.push item).pending) :
    it ∈ feed.pending ∨ it = item := by
  rw [push_eq] at h
  rcases List.mem_append.mp h with h | h
  · exact Or.inl h
  · unfold pushed at h
    split at h
    · split at h
      · cases h
      · exact Or.inr (List.mem_singleton.mp h)
    · exact Or.inr (List.mem_singleton.mp h)

theorem mem_drain {it : Item} : ∀ {items : List Item} {feed : ModeFeed},
    it ∈ (feed.drain items).pending → it ∈ feed.pending ∨ it ∈ items
  | [], _, h => Or.inl h
  | item :: items, feed, h => by
      have hrest : it ∈ ((feed.push item).drain items).pending := h
      rcases mem_drain hrest with h | h
      · rcases mem_push h with h | rfl
        · exact Or.inl h
        · exact Or.inr (List.mem_cons_self ..)
      · exact Or.inr (List.mem_cons_of_mem _ h)

theorem push_ended (feed : ModeFeed) (item : Item) : (feed.push item).ended = feed.ended := by
  rw [push_eq]

theorem push_started (feed : ModeFeed) (item : Item) :
    (feed.push item).started = feed.started := by
  rw [push_eq]

theorem drain_kept : ∀ (items : List Item) (feed : ModeFeed),
    (feed.drain items).ended = feed.ended ∧ (feed.drain items).started = feed.started
  | [], _ => ⟨rfl, rfl⟩
  | item :: items, feed => by
      obtain ⟨hended, hstarted⟩ := drain_kept items (feed.push item)
      exact ⟨hended.trans (push_ended feed item), hstarted.trans (push_started feed item)⟩

/-! ## The invariant -/

theorem single_item (w : ModeWire) (entry : Entry) : Single (w.item entry) := by
  intro error h
  cases entry with
  | removed => cases h
  | put value =>
      simp only [ModeWire.item, ModeWire.read] at h
      split at h <;> cases h
      rfl
  | notJson =>
      cases h
      rfl

structure CallInv (s : Sys) : Prop where
  starting : s.call = some .starting → s.feed.started = false
  reading : s.call = some .reading →
    s.feed.started = false ∧ ∀ outcome, s.watch ≠ .over outcome
  selecting : s.call = some .selecting → s.feed.started = true
  unended : ∀ await, s.call = some await → s.feed.ended = none
  empty : ∀ await, s.call = some await → (∀ error, await ≠ .classifying error) →
    s.feed.pending = []
  kept : ∀ error, s.kept = some error → s.feed.ended = some error ∧ s.feed.pending = []
  single : ∀ item ∈ s.receiver ++ s.feed.pending, Single item.event

/-- What the head of the loop needs. -/
structure Loopable (s : Sys) : Prop where
  kept : s.kept = none
  single : ∀ item ∈ s.receiver ++ s.feed.pending, Single item.event

section Steps

variable {w : ModeWire} {s s' : Sys}

theorem CallInv.loopable (h : CallInv s) {await : Await} (hcall : s.call = some await) :
    Loopable s := by
  refine ⟨?_, h.single⟩
  cases hkept : s.kept with
  | none => rfl
  | some error =>
      have hended := (h.kept error hkept).1
      rw [h.unended await hcall] at hended
      cases hended

/-- An error that ends the feed is given when nothing else waits. -/
theorem callInv_give_error {error : Error} {position : ℕ}
    (hended : s.feed.ended = some error) (hpending : s.feed.pending = [])
    (hkept : s.kept = none ∨ s.kept = some error)
    (hsingle : ∀ item ∈ s.receiver ++ s.feed.pending, Single item.event) :
    CallInv (s.give ⟨.error error, position⟩) := by
  refine ⟨?_, ?_, ?_, ?_, ?_, ?_, hsingle⟩
  · simp [Sys.give]
  · simp [Sys.give]
  · simp [Sys.give]
  · simp [Sys.give]
  · simp [Sys.give]
  · intro e he
    have heq : e = error := by
      simp only [Sys.give, keepEnd] at he
      split at he
      · rcases hkept with hkept | hkept
        · rw [hkept] at he
          cases he
        · rw [hkept] at he
          exact (Option.some.inj he).symm
      · exact (Option.some.inj he).symm
    subst heq
    exact ⟨hended, hpending⟩

theorem Loopable.loop (h : Loopable s) : CallInv s.loop := by
  unfold Sys.loop
  split
  · rename_i item rest hpending
    have hsingle : ∀ it ∈ s.receiver ++ rest, Single it.event := by
      intro it hin
      apply h.single it
      rw [hpending]
      rcases List.mem_append.mp hin with hin | hin
      · exact List.mem_append_left _ hin
      · exact List.mem_append_right _ (List.mem_cons_of_mem _ hin)
    have hkept : (({ s with feed := { s.feed with pending := rest } } : Sys).give item).kept =
        none := by
      have hitem : Single item.event := h.single item (by rw [hpending]; simp)
      simp only [Sys.give, keepEnd]
      split
      · exact h.kept
      · rename_i error hevent
        rw [if_pos (hitem error hevent)]
        exact h.kept
    refine ⟨?_, ?_, ?_, ?_, ?_, ?_, hsingle⟩
    · simp [Sys.give]
    · simp [Sys.give]
    · simp [Sys.give]
    · simp [Sys.give]
    · simp [Sys.give]
    · intro error he
      rw [hkept] at he
      cases he
  · rename_i hpending
    split
    · exact callInv_give_error ‹_› hpending (Or.inl h.kept) h.single
    · rename_i hended
      split
      · rename_i hstarted
        refine ⟨by simp, by simp, fun _ => hstarted, fun _ _ => hended, fun _ _ _ => hpending,
          ?_, h.single⟩
        intro error he
        rw [show s.kept = none from h.kept] at he
        cases he
      · rename_i hstarted
        refine ⟨fun _ => by simpa using hstarted, by simp, by simp, fun _ _ => hended,
          fun _ _ _ => hpending, ?_, h.single⟩
        intro error he
        rw [show s.kept = none from h.kept] at he
        cases he

theorem CallInv.next (h : CallInv s) : CallInv s.next := by
  unfold Sys.next
  split
  · rename_i error hkept
    obtain ⟨hended, hpending⟩ := h.kept error hkept
    exact callInv_give_error hended hpending (Or.inr hkept) h.single
  · rename_i hkept
    exact Loopable.loop ⟨hkept, h.single⟩

theorem Loopable.endWith (h : Loopable s) (error : Error) : Loopable (s.endWith error) :=
  ⟨h.kept, h.single⟩

theorem Loopable.pushBack (h : Loopable s) (error : Error) (he : isUnreadable error = true) :
    Loopable (s.pushBack error) := by
  refine ⟨h.kept, ?_⟩
  intro item hin
  rw [Sys.pushBack, ← List.append_assoc] at hin
  rcases List.mem_append.mp hin with hin | hin
  · exact h.single item hin
  · obtain rfl := List.mem_singleton.mp hin
    intro e heq
    cases heq
    exact he

theorem Loopable.drained (h : Loopable s) (outcome : Outcome) :
    Loopable (s.drained outcome) := by
  refine ⟨h.kept, ?_⟩
  intro item hin
  rcases mem_drain (show item ∈ (s.feed.drain s.receiver).pending by
    simpa [Sys.drained] using hin) with hin | hin
  · exact h.single item (List.mem_append_right _ hin)
  · exact h.single item (List.mem_append_left _ hin)

theorem Loopable.push (h : Loopable s) (item : Item) (rest : List Item)
    (hrest : ∀ it ∈ rest, it ∈ s.receiver) (hitem : Single item.event) (started : Bool) :
    Loopable { s with
      receiver := rest, feed := { s.feed with started := started }.push item } := by
  refine ⟨h.kept, ?_⟩
  intro it hin
  rcases List.mem_append.mp hin with hin | hin
  · exact h.single it (List.mem_append_left _ (hrest it hin))
  · rcases mem_push hin with hin | rfl
    · exact h.single it (List.mem_append_right _ hin)
    · exact hitem

theorem Loopable.watchEnded (h : Loopable s) (hended : s.feed.ended = none)
    (outcome : Outcome) : CallInv (s.watchEnded outcome) := by
  have hdrained := h.drained outcome
  cases outcome with
  | done => exact (hdrained.endWith _).loop
  | sinkClosed => exact (hdrained.endWith _).loop
  | fabric error =>
      unfold Sys.watchEnded
      dsimp only
      split
      · exact ((hdrained.pushBack _ rfl).endWith _).loop
      · refine ⟨by simp, by simp, by simp, ?_, ?_, ?_, hdrained.single⟩
        · intro _ _
          exact (drain_kept s.receiver s.feed).1.trans hended
        · intro await hcall hnot
          cases hcall
          exact absurd rfl (hnot error)
        · intro e he
          rw [show (s.drained (.fabric error)).kept = none from hdrained.kept] at he
          cases he

/-- A step of the environment keeps what a call relies on. -/
theorem CallInv.frame (h : CallInv s) (hcall : s'.call = s.call) (hfeed : s'.feed = s.feed)
    (hkept : s'.kept = s.kept)
    (hwatch : (∀ outcome, s.watch ≠ .over outcome) → ∀ outcome, s'.watch ≠ .over outcome)
    (hreceiver : ∀ item ∈ s'.receiver, item ∈ s.receiver ∨ Single item.event) : CallInv s' := by
  constructor
  · rw [hcall, hfeed]
    exact h.starting
  · rw [hcall, hfeed]
    exact fun hreading => ⟨(h.reading hreading).1, hwatch (h.reading hreading).2⟩
  · rw [hcall, hfeed]
    exact h.selecting
  · rw [hcall, hfeed]
    exact h.unended
  · rw [hcall, hfeed]
    exact h.empty
  · rw [hkept, hfeed]
    exact h.kept
  · rw [hfeed]
    intro item hin
    rcases List.mem_append.mp hin with hin | hin
    · rcases hreceiver item hin with hin | hsingle
      · exact h.single item (List.mem_append_left _ hin)
      · exact hsingle
    · exact h.single item (List.mem_append_right _ hin)

/-- A call that was dropped, or that panicked. -/
theorem CallInv.dropped (h : CallInv s) (spoilt : Bool) :
    CallInv { s with call := none, spoilt := spoilt } :=
  ⟨by simp, by simp, by simp, by simp, by simp, h.kept, h.single⟩

theorem CallInv.step (h : CallInv s) {e : Event} (hs : step w s e = some s') : CallInv s' := by
  cases e with
  | write entry =>
      cases hs
      exact h.frame rfl rfl rfl id fun _ hin => Or.inl hin
  | created marker =>
      simp only [Mode.step] at hs
      split at hs <;> cases hs
      exact h.frame rfl rfl rfl (fun _ => by simp [Sys.create]) fun _ hin => Or.inl hin
  | deliver =>
      simp only [Mode.step] at hs
      split at hs
      · split at hs
        · split at hs <;> cases hs
          refine h.frame rfl rfl rfl (fun _ => by simp) fun item hin => ?_
          rcases List.mem_append.mp hin with hin | hin
          · exact Or.inl hin
          · obtain rfl := List.mem_singleton.mp hin
            exact Or.inr (single_item w _)
        · cases hs
      · cases hs
  | next =>
      simp only [Mode.step] at hs
      split at hs <;> cases hs
      exact h.next
  | pollPending =>
      simp only [Mode.step] at hs
      split at hs
      · cases hs
      · rename_i hcall hover
        cases hs
        refine ⟨by simp, fun _ => ⟨h.starting hcall, fun outcome heq => hover outcome heq⟩,
          by simp, fun _ _ => h.unended _ hcall, fun _ _ _ => h.empty _ hcall (by simp),
          h.kept, h.single⟩
      · cases hs
  | watchReady outcome =>
      simp only [Mode.step] at hs
      split at hs <;> cases hs
      · exact (h.loopable ‹_›).watchEnded (h.unended _ ‹_›) outcome
      · exact (h.loopable ‹_›).watchEnded (h.unended _ ‹_›) outcome
  | pollOver =>
      simp only [Mode.step] at hs
      split at hs <;> cases hs
      · exact h.dropped true
      · exact h.dropped true
  | read =>
      simp only [Mode.step] at hs
      split at hs
      · split at hs <;> cases hs
        exact ((h.loopable ‹_›).push _ _ (fun _ hin => hin) (single_item w _) true).loop
      · cases hs
  | readFailed error =>
      simp only [Mode.step] at hs
      split at hs
      · split at hs <;> cases hs
        · refine ((h.loopable ‹_›).push _ _ (fun _ hin => hin) ?_ true).loop
          intro e he
          cases he
          rfl
        · exact ((h.loopable ‹_›).endWith _).loop
      · cases hs
  | recv =>
      simp only [Mode.step] at hs
      split at hs <;> cases hs
      rename_i hcall hreceiver
      have hloopable := h.loopable hcall
      refine (hloopable.push _ _ (fun it hin => ?_) ?_ s.feed.started).loop
      · rw [hreceiver]
        exact List.mem_cons_of_mem _ hin
      · exact hloopable.single _ (by rw [hreceiver]; simp)
  | closed =>
      simp only [Mode.step] at hs
      split at hs <;> cases hs
      exact ((h.loopable ‹_›).endWith _).loop
  | reopened missing =>
      simp only [Mode.step] at hs
      split at hs <;> cases hs
      exact ((h.loopable ‹_›).endWith _).loop
  | drop =>
      simp only [Mode.step] at hs
      split at hs <;> cases hs
      exact h.dropped s.spoilt

theorem callInv {past : List Entry} {C : Sys → Event → Prop}
    (h : (machine w past).Reach C s) : CallInv s := by
  apply Machine.Reach.invariant (P := CallInv) ?_ (fun _ hp _ hs => hp.step hs) h
  constructor <;> simp [machine, Sys.init, ModeFeed.init]

end Steps

end RunnerKit.RunnerTransport.Mode
