import RunnerKit.Toolkit.Dispose

/-!
# Each trigger is disposed of once

What was done with an item is told by its place. An item that has registered its run is
the one that the registry names until the run is forgotten, so no other item of the run
is executed before.
-/

namespace RunnerKit.Toolkit.Dispose

open RunnerKit.Jobs RunnerKit.Lib

/-! ## The steps -/

/-- The moves of an item that leave the registry alone. -/
inductive Plain (s : Sys) (item : Item) : Place → List Act → Prop where
  | givenBack : item.place = .got → item.source = .trigger →
      Plain s item (.over .givenBack) [.gaveBack]
  | droppedForDrain : item.place = .got → item.source = .claim →
      Plain s item (.over .droppedForDrain) []
  | keeps : item.place = .got → Plain s item .kept []
  | known {record : ℕ} : item.place = .kept → s.runs item.runId = some record →
      Plain s item (.known record) []
  | leftPending {record : ℕ} : item.place = .known record → item.source = .trigger →
      s.startedPending record = true →
      Plain s item (.over (.leftPending record)) [.met record true]
  | duplicate {record : ℕ} : item.place = .known record → item.source = .trigger →
      s.startedPending record = false →
      Plain s item (.over (.duplicate record)) [.met record false, .acked]
  | alreadyHeld {record : ℕ} : item.place = .known record → item.source = .claim →
      Plain s item (.over .alreadyHeld) []
  | starts : item.place = .registered → Plain s item .starting []
  | fails : item.place = .registered → Plain s item .unmade []
  | returns : item.place = .unmade → Plain s item .returning item.source.givesBack
  | executes : item.place = .accepted →
      Plain s item .executing (item.source.acks ++ [.executes])
  | dismisses : item.place = .refused → Plain s item .dismissed item.source.acks
  | bodyEnds : item.place = .executing → Plain s item .closing []
  | dropped : item.place.awaits = true → Plain s item (.gone item.place) []
  | closingAborted : item.place = .closing → s.slotsEnded = true →
      Plain s item (.gone .closing) []

inductive Step (s : Sys) : Sys → Prop where
  | gives (runId : Uuid) (source : Source) : s.slotsEnded = false →
      Step s { s with
        items := Function.update s.items s.next (some ⟨runId, source, .got⟩)
        next := s.next + 1 }
  | drains : Step s { s with draining := true }
  | moves {i : ℕ} {item : Item} {place : Place} {acts : List Act} : s.items i = some item →
      Plain s item place acts → Step s (s.move i item place acts)
  | registers {i : ℕ} {item : Item} : s.items i = some item → item.place = .kept →
      s.runs item.runId = none →
      Step s { s.move i item .registered [.registered] with
        runs := Function.update s.runs item.runId (some i) }
  | startedEnds {i : ℕ} {item : Item} (started : Started) : s.items i = some item →
      item.place = .starting → Step s (s.startedEnd i item started)
  | forgets {i : ℕ} {item : Item} {ending : Ending} : s.items i = some item →
      item.place.forgets = some ending →
      Step s ((s.move i item (.over ending) []).forgetRun item.runId)
  | slotsEnd : s.allEnded = true → Step s { s with slotsEnded := true }
  | drainForgets (runId : Uuid) : s.slotsEnded = true → Step s (s.forgetRun runId)

section StepCases

variable {s t : Sys} {i : ℕ} {item : Item}

theorem check_step (hi : s.items i = some item) (hplace : item.place = .got) :
    Step s (s.check i item) := by
  unfold Sys.check
  split
  · split
    · rename_i hsource
      exact .moves hi (.givenBack hplace hsource)
    · rename_i hsource
      exact .moves hi (.droppedForDrain hplace hsource)
  · exact .moves hi (.keeps hplace)

theorem register_step (hi : s.items i = some item) (hplace : item.place = .kept) :
    Step s (s.register i item) := by
  unfold Sys.register
  split
  · rename_i record hrun
    exact .moves hi (.known hplace hrun)
  · rename_i hrun
    exact .registers hi hplace hrun

theorem settle_step {record : ℕ} (hi : s.items i = some item)
    (hplace : item.place = .known record) : Step s (s.settle i item record) := by
  unfold Sys.settle
  split
  · rename_i hsource
    split
    · rename_i hpending
      exact .moves hi (.leftPending hplace hsource hpending)
    · rename_i hpending
      exact .moves hi (.duplicate hplace hsource (eq_false_of_ne_true hpending))
  · rename_i hsource
    exact .moves hi (.alreadyHeld hplace hsource)

theorem itemStep_cases {e : Event} (hi : s.items i = some item)
    (hs : s.itemStep i item item.place e = some t) : Step s t := by
  unfold Sys.itemStep at hs
  split at hs
  case h_1 hplace =>
    cases hs
    exact check_step hi hplace
  case h_2 hplace =>
    cases hs
    exact register_step hi hplace
  case h_3 record hplace =>
    cases hs
    exact settle_step hi hplace
  case h_4 made hplace =>
    cases hs
    cases made with
    | true => exact .moves hi (.starts hplace)
    | false => exact .moves hi (.fails hplace)
  case h_5 hplace =>
    cases hs
    exact .moves hi (.returns hplace)
  case h_6 started hplace =>
    cases hs
    exact .startedEnds started hi hplace
  case h_7 hplace =>
    cases hs
    exact .moves hi (.executes hplace)
  case h_8 hplace =>
    cases hs
    exact .moves hi (.dismisses hplace)
  case h_9 hplace =>
    cases hs
    exact .moves hi (.bodyEnds hplace)
  case h_10 =>
    obtain ⟨ending, hforgets, rfl⟩ := Option.map_eq_some_iff.mp hs
    exact .forgets hi hforgets
  case h_11 =>
    split at hs <;> cases hs
    rename_i hawaits
    exact .moves hi (.dropped hawaits)
  case h_12 hplace =>
    split at hs <;> cases hs
    rename_i hended
    exact .moves hi (.closingAborted hplace hended)
  case h_13 => cases hs

theorem step_cases {e : Event} (hs : s.step e = some t) : Step s t := by
  have hitem : ∀ e : Event, (e.item.bind fun i =>
      (s.items i).bind fun item => s.itemStep i item item.place e) = some t → Step s t := by
    intro e h
    obtain ⟨i, -, h⟩ := Option.bind_eq_some_iff.mp h
    obtain ⟨item, hi, h⟩ := Option.bind_eq_some_iff.mp h
    exact itemStep_cases hi h
  cases e with
  | gives runId source =>
      simp only [Sys.step] at hs
      split at hs <;> cases hs
      rename_i hended
      exact .gives runId source (eq_false_of_ne_true hended)
  | drain =>
      cases hs
      exact .drains
  | slotsEnd =>
      simp only [Sys.step] at hs
      split at hs <;> cases hs
      rename_i hended
      exact .slotsEnd hended
  | drainForgets runId =>
      simp only [Sys.step] at hs
      split at hs <;> cases hs
      rename_i hended
      exact .drainForgets runId hended
  | checks i => exact hitem (.checks i) hs
  | registers i => exact hitem (.registers i) hs
  | settles i => exact hitem (.settles i) hs
  | queueMade i made => exact hitem (.queueMade i made) hs
  | givesBack i => exact hitem (.givesBack i) hs
  | startedEnds i started => exact hitem (.startedEnds i started) hs
  | acks i => exact hitem (.acks i) hs
  | bodyEnds i => exact hitem (.bodyEnds i) hs
  | forgets i => exact hitem (.forgets i) hs
  | slotDropped i => exact hitem (.slotDropped i) hs
  | closingAborted i => exact hitem (.closingAborted i) hs

end StepCases

/-! ## The story of an item -/

/-- What was done with an item on its way to a place. -/
def story (source : Source) : Place → List Act
  | .got | .kept | .known _ => []
  | .registered | .unmade | .starting => [.registered]
  | .returning => .registered :: source.givesBack
  | .accepted => [.registered, .startedEnded .accepted]
  | .executing | .closing =>
      [.registered, .startedEnded .accepted] ++ (source.acks ++ [.executes])
  | .refused => [.registered, .startedEnded .refused]
  | .dismissed => [.registered, .startedEnded .refused] ++ source.acks
  | .failed => [.registered, .startedEnded .failed]
  | .over .executed => [.registered, .startedEnded .accepted] ++ (source.acks ++ [.executes])
  | .over .givenBack => [.gaveBack]
  | .over .droppedForDrain | .over .alreadyHeld => []
  | .over (.duplicate record) => [.met record false, .acked]
  | .over (.leftPending record) => [.met record true]
  | .over .unmade => .registered :: source.givesBack
  | .over .refused => [.registered, .startedEnded .refused] ++ source.acks
  | .over .failed => [.registered, .startedEnded .failed]
  | .gone place => story source place

theorem story_plain {s : Sys} {item : Item} {place : Place} {acts : List Act}
    (h : Plain s item place acts) :
    story item.source place = story item.source item.place ++ acts := by
  cases h with
  | givenBack hplace _ => rw [hplace]; rfl
  | droppedForDrain hplace _ => rw [hplace]; rfl
  | keeps hplace => rw [hplace]; rfl
  | known hplace _ => rw [hplace]; rfl
  | leftPending hplace _ _ => rw [hplace]; rfl
  | duplicate hplace _ _ => rw [hplace]; rfl
  | alreadyHeld hplace _ => rw [hplace]; rfl
  | starts hplace => rw [hplace]; rfl
  | fails hplace => rw [hplace]; rfl
  | returns hplace => rw [hplace]; rfl
  | executes hplace => rw [hplace]; rfl
  | dismisses hplace => rw [hplace]; rfl
  | bodyEnds hplace => rw [hplace, List.append_nil]; rfl
  | dropped _ => rw [List.append_nil]; rfl
  | closingAborted hplace _ => rw [hplace, List.append_nil]; rfl

section Acts

variable {log : List Obs} {i : ℕ}

theorem acts_append (i : ℕ) (log more : List Obs) :
    acts i (log ++ more) = acts i log ++ acts i more :=
  List.filterMap_append

theorem acts_own (i : ℕ) (runId : Uuid) (as : List Act) : acts i (as.map (.act i runId)) = as := by
  induction as with
  | nil => rfl
  | cons a as ih =>
      have hcons : acts i ((a :: as).map (.act i runId)) =
          a :: acts i (as.map (.act i runId)) := by
        simp [acts, actOf]
      rw [hcons, ih]

theorem acts_other {j : ℕ} (h : i ≠ j) (runId : Uuid) (as : List Act) :
    acts j (as.map (.act i runId)) = [] := by
  induction as with
  | nil => rfl
  | cons a as ih =>
      have hcons : acts j ((a :: as).map (.act i runId)) = acts j (as.map (.act i runId)) := by
        simp [acts, actOf, h]
      rw [hcons, ih]

theorem acts_forgot (i : ℕ) (log : List Obs) (runId : Uuid) :
    acts i (log ++ [.forgot runId]) = acts i log := by
  rw [acts_append]
  exact List.append_nil _

theorem mem_acts {runId : Uuid} {act : Act} (h : .act i runId act ∈ log) : act ∈ acts i log := by
  refine List.mem_filterMap.mpr ⟨_, h, ?_⟩
  exact if_pos rfl

end Acts

/-- The ends of a claim of which nothing is told. -/
def Place.isDropped : Place → Bool
  | .over .droppedForDrain | .over .alreadyHeld => true
  | _ => false

theorem plain_isDropped {s : Sys} {item : Item} {place : Place} {acts : List Act}
    (h : Plain s item place acts) (hsource : item.source = .trigger) :
    place.isDropped = false := by
  cases h with
  | droppedForDrain _ hclaim =>
      rw [hclaim] at hsource
      cases hsource
  | alreadyHeld _ hclaim =>
      rw [hclaim] at hsource
      cases hsource
  | _ => rfl

/-- The place of each item tells what was done with it. -/
structure Told (s : Sys) : Prop where
  fresh : ∀ i, s.next ≤ i → s.items i = none
  untold : ∀ i, s.items i = none → acts i s.log = []
  told : ∀ i item, s.items i = some item → acts i s.log = story item.source item.place
  kept : ∀ i item, s.items i = some item → item.source = .trigger →
    item.place.isDropped = false

namespace Told

variable {s t : Sys}

/-- An item goes to another place, and its story with it. -/
theorem goesTo (told : Told s) {i : ℕ} {item : Item} {place : Place} {as : List Act}
    (hi : s.items i = some item)
    (hstory : story item.source place = story item.source item.place ++ as)
    (hitems : t.items = Function.update s.items i (some { item with place := place }))
    (hnext : t.next = s.next)
    (hlog : ∀ j, acts j t.log = acts j (s.log ++ as.map (.act i item.runId)))
    (hkept : item.source = .trigger → place.isDropped = false) : Told t := by
  refine ⟨?_, ?_, ?_, ?_⟩
  · intro j hj
    rw [hnext] at hj
    have hne : j ≠ i := by
      rintro rfl
      rw [told.fresh j hj] at hi
      cases hi
    rw [hitems, Function.update_of_ne hne]
    exact told.fresh j hj
  · intro j hj
    have hne : j ≠ i := by
      rintro rfl
      rw [hitems, Function.update_self] at hj
      cases hj
    rw [hitems, Function.update_of_ne hne] at hj
    rw [hlog, acts_append, told.untold j hj, acts_other hne.symm]
    rfl
  · intro j other hj
    rw [hlog, acts_append]
    by_cases hji : j = i
    · subst hji
      rw [hitems, Function.update_self] at hj
      cases hj
      rw [told.told j item hi, acts_own]
      exact hstory.symm
    · rw [hitems, Function.update_of_ne hji] at hj
      rw [told.told j other hj, acts_other (Ne.symm hji), List.append_nil]
  · intro j other hj
    by_cases hji : j = i
    · subst hji
      rw [hitems, Function.update_self] at hj
      cases hj
      exact hkept
    · rw [hitems, Function.update_of_ne hji] at hj
      exact told.kept j other hj

theorem step (told : Told s) (h : Step s t) : Told t := by
  cases h with
  | gives runId source _ =>
      refine ⟨?_, ?_, ?_, ?_⟩
      · intro j hj
        have hne : j ≠ s.next := Nat.ne_of_gt hj
        exact (Function.update_of_ne hne _ _).trans (told.fresh j (Nat.le_of_succ_le hj))
      · intro j hj
        by_cases hji : j = s.next
        · subst hji
          exact told.untold _ (told.fresh _ le_rfl)
        · exact told.untold j ((Function.update_of_ne hji _ _).symm.trans hj)
      · intro j item hj
        by_cases hji : j = s.next
        · subst hji
          cases (Function.update_self _ _ _).symm.trans hj
          exact told.untold _ (told.fresh _ le_rfl)
        · exact told.told j item ((Function.update_of_ne hji _ _).symm.trans hj)
      · intro j item hj
        by_cases hji : j = s.next
        · subst hji
          cases (Function.update_self _ _ _).symm.trans hj
          exact fun _ => rfl
        · exact told.kept j item ((Function.update_of_ne hji _ _).symm.trans hj)
  | drains => exact ⟨told.fresh, told.untold, told.told, told.kept⟩
  | moves hi hplain =>
      exact told.goesTo hi (story_plain hplain) rfl rfl (fun _ => rfl) (plain_isDropped hplain)
  | registers hi hplace _ =>
      refine told.goesTo hi ?_ rfl rfl (fun _ => rfl) fun _ => rfl
      rw [hplace]
      rfl
  | startedEnds started hi hplace =>
      have hkept : started.place.isDropped = false := by cases started <;> rfl
      refine told.goesTo hi ?_ rfl rfl (fun _ => rfl) fun _ => hkept
      rw [hplace]
      cases started <;> rfl
  | @forgets i item ending hi hforgets =>
      have hstory : story item.source (.over ending) =
          story item.source item.place ++ [] := by
        rw [List.append_nil]
        cases hplace : item.place <;> rw [hplace] at hforgets <;> cases hforgets <;> rfl
      have hkept : (Place.over ending).isDropped = false := by
        cases hplace : item.place <;> rw [hplace] at hforgets <;> cases hforgets <;> rfl
      refine told.goesTo hi hstory rfl rfl (fun j => ?_) fun _ => hkept
      exact acts_forgot _ _ _
  | slotsEnd _ => exact ⟨told.fresh, told.untold, told.told, told.kept⟩
  | drainForgets runId _ =>
      refine ⟨told.fresh, ?_, ?_, told.kept⟩
      · intro i hi
        exact (acts_forgot _ _ _).trans (told.untold i hi)
      · intro i item hi
        exact (acts_forgot _ _ _).trans (told.told i item hi)

end Told

/-! ## The registry -/

/-- The registry names the items that hold their runs. -/
structure Registered (s : Sys) : Prop where
  owner : ∀ runId i, s.runs runId = some i → ∃ item, s.items i = some item ∧ item.runId = runId
  holds : ∀ i item, s.items i = some item → item.place.holds = true →
    s.runs item.runId = some i
  closing : ∀ i item, s.items i = some item → item.place = .closing →
    s.runs item.runId = some i ∨ s.slotsEnded = true ∧ s.runs item.runId = none
  ended : s.slotsEnded = true → ∀ i item, s.items i = some item → item.place.inSlot = false
  known : ∀ i item record, s.items i = some item → item.place = .known record →
    ∃ other, s.items record = some other ∧ other.runId = item.runId

section Plain

variable {s : Sys} {item : Item} {place : Place} {as : List Act}

theorem plain_holds (h : Plain s item place as) (hholds : place.holds = true) :
    item.place.holds = true := by
  cases h with
  | givenBack _ _ => cases hholds
  | droppedForDrain _ _ => cases hholds
  | keeps _ => cases hholds
  | known _ _ => cases hholds
  | leftPending _ _ _ => cases hholds
  | duplicate _ _ _ => cases hholds
  | alreadyHeld _ _ => cases hholds
  | starts hplace => rw [hplace]; rfl
  | fails hplace => rw [hplace]; rfl
  | returns hplace => rw [hplace]; rfl
  | executes hplace => rw [hplace]; rfl
  | dismisses hplace => rw [hplace]; rfl
  | bodyEnds _ => cases hholds
  | dropped _ => cases hholds
  | closingAborted _ _ => cases hholds

theorem plain_inSlot (h : Plain s item place as) (hin : place.inSlot = true) :
    item.place.inSlot = true := by
  cases h with
  | givenBack _ _ => cases hin
  | droppedForDrain _ _ => cases hin
  | keeps hplace => rw [hplace]; rfl
  | known hplace _ => rw [hplace]; rfl
  | leftPending _ _ _ => cases hin
  | duplicate _ _ _ => cases hin
  | alreadyHeld _ _ => cases hin
  | starts hplace => rw [hplace]; rfl
  | fails hplace => rw [hplace]; rfl
  | returns hplace => rw [hplace]; rfl
  | executes hplace => rw [hplace]; rfl
  | dismisses hplace => rw [hplace]; rfl
  | bodyEnds _ => cases hin
  | dropped _ => cases hin
  | closingAborted _ _ => cases hin

theorem plain_closing (h : Plain s item place as) (hclosing : place = .closing) :
    item.place = .executing := by
  cases h with
  | bodyEnds hplace => exact hplace
  | _ => cases hclosing

theorem plain_known {record : ℕ} (h : Plain s item place as) (hknown : place = .known record) :
    s.runs item.runId = some record := by
  cases h with
  | known _ hrun =>
      cases hknown
      exact hrun
  | _ => cases hknown

theorem holds_inSlot (h : place.holds = true) : place.inSlot = true := by
  cases place <;> first | rfl | cases h

theorem forgets_holds {ending : Ending} (h : place.forgets = some ending) :
    place.holds = true ∨ place = .closing := by
  cases place with
  | returning => exact Or.inl rfl
  | dismissed => exact Or.inl rfl
  | failed => exact Or.inl rfl
  | closing => exact Or.inr rfl
  | _ => cases h

end Plain

namespace Registered

variable {s t : Sys}

/-- The items behind a move of one of them. -/
theorem items_move {i j : ℕ} {item other : Item} {place : Place}
    (h : Function.update s.items i (some { item with place := place }) j = some other) :
    (j = i ∧ other = { item with place := place }) ∨ (j ≠ i ∧ s.items j = some other) := by
  by_cases hj : j = i
  · subst hj
    rw [Function.update_self] at h
    cases h
    exact Or.inl ⟨rfl, rfl⟩
  · rw [Function.update_of_ne hj] at h
    exact Or.inr ⟨hj, h⟩

/-- No item loses its run by a move. -/
theorem item_stays {i j : ℕ} {item other : Item} (place : Place) (hi : s.items i = some item)
    (hj : s.items j = some other) :
    ∃ next, Function.update s.items i (some { item with place := place }) j = some next ∧
      next.runId = other.runId := by
  by_cases hji : j = i
  · subst hji
    cases hi.symm.trans hj
    exact ⟨_, Function.update_self _ _ _, rfl⟩
  · exact ⟨other, (Function.update_of_ne hji _ _).trans hj, rfl⟩

theorem move (reg : Registered s) {i : ℕ} {item : Item} {place : Place} {as : List Act}
    (hi : s.items i = some item) (hplain : Plain s item place as) :
    Registered (s.move i item place as) := by
  refine ⟨?_, ?_, ?_, ?_, ?_⟩
  · intro runId j hrun
    obtain ⟨other, hj, hrunId⟩ := reg.owner runId j hrun
    obtain ⟨next, hnext, hsame⟩ := item_stays place hi hj
    exact ⟨next, hnext, hsame.trans hrunId⟩
  · intro j other hj hholds
    rcases items_move hj with ⟨rfl, rfl⟩ | ⟨-, hj⟩
    · exact reg.holds j item hi (plain_holds hplain hholds)
    · exact reg.holds j other hj hholds
  · intro j other hj hclosing
    rcases items_move hj with ⟨rfl, rfl⟩ | ⟨-, hj⟩
    · have hexecuting := plain_closing hplain hclosing
      exact Or.inl (reg.holds j item hi (by rw [hexecuting]; rfl))
    · exact reg.closing j other hj hclosing
  · intro hended j other hj
    rcases items_move hj with ⟨rfl, rfl⟩ | ⟨-, hj⟩
    · by_contra hin
      have hold := plain_inSlot hplain (by simpa using hin)
      rw [reg.ended hended j item hi] at hold
      cases hold
    · exact reg.ended hended j other hj
  · intro j other record hj hknown
    rcases items_move hj with ⟨rfl, rfl⟩ | ⟨-, hj⟩
    · obtain ⟨found, hfound, hrunId⟩ := reg.owner _ record (plain_known hplain hknown)
      obtain ⟨next, hnext, hsame⟩ := item_stays place hi hfound
      exact ⟨next, hnext, hsame.trans hrunId⟩
    · obtain ⟨found, hfound, hrunId⟩ := reg.known j other record hj hknown
      obtain ⟨next, hnext, hsame⟩ := item_stays place hi hfound
      exact ⟨next, hnext, hsame.trans hrunId⟩

end Registered

namespace Registered

variable {s t : Sys}

/-- An item whose run is registered by none registers it. -/
theorem registers (reg : Registered s) {i : ℕ} {item : Item} (hi : s.items i = some item)
    (hplace : item.place = .kept) (hrun : s.runs item.runId = none) :
    Registered { s.move i item .registered [.registered] with
      runs := Function.update s.runs item.runId (some i) } := by
  -- a slot still holds the item, so the slots have not ended
  have hended : s.slotsEnded ≠ true := by
    intro hended
    have hin := reg.ended hended i item hi
    rw [hplace] at hin
    cases hin
  refine ⟨?_, ?_, ?_, ?_, ?_⟩
  · intro runId j hj
    change Function.update s.runs item.runId (some i) runId = some j at hj
    by_cases hr : runId = item.runId
    · subst hr
      rw [Function.update_self] at hj
      cases hj
      exact ⟨_, Function.update_self _ _ _, rfl⟩
    · rw [Function.update_of_ne hr] at hj
      obtain ⟨other, hother, hrunId⟩ := reg.owner runId j hj
      obtain ⟨next, hnext, hsame⟩ := item_stays .registered hi hother
      exact ⟨next, hnext, hsame.trans hrunId⟩
  · intro j other hj hholds
    change Function.update s.runs item.runId (some i) other.runId = some j
    rcases items_move hj with ⟨rfl, rfl⟩ | ⟨-, hj⟩
    · exact Function.update_self _ _ _
    · have hold := reg.holds j other hj hholds
      have hr : other.runId ≠ item.runId := by
        intro heq
        rw [heq, hrun] at hold
        cases hold
      rw [Function.update_of_ne hr]
      exact hold
  · intro j other hj hclosing
    change Function.update s.runs item.runId (some i) other.runId = some j ∨
      s.slotsEnded = true ∧ Function.update s.runs item.runId (some i) other.runId = none
    rcases items_move hj with ⟨rfl, rfl⟩ | ⟨-, hj⟩
    · cases hclosing
    · rcases reg.closing j other hj hclosing with hold | ⟨hend, -⟩
      · have hr : other.runId ≠ item.runId := by
          intro heq
          rw [heq, hrun] at hold
          cases hold
        rw [Function.update_of_ne hr]
        exact Or.inl hold
      · exact absurd hend hended
  · exact fun h => absurd h hended
  · intro j other record hj hknown
    rcases items_move hj with ⟨rfl, rfl⟩ | ⟨-, hj⟩
    · cases hknown
    · obtain ⟨found, hfound, hrunId⟩ := reg.known j other record hj hknown
      obtain ⟨next, hnext, hsame⟩ := item_stays .registered hi hfound
      exact ⟨next, hnext, hsame.trans hrunId⟩

/-- The item whose run is forgotten is the one that the registry names, if it names
one. -/
theorem only_holder (reg : Registered s) {i j : ℕ} {item other : Item}
    (hi : s.items i = some item) (hplace : item.place.holds = true ∨ item.place = .closing)
    (hrun : other.runId = item.runId) (hj : s.runs other.runId = some j) : j = i := by
  rw [hrun] at hj
  rcases hplace with hholds | hclosing
  · rw [reg.holds i item hi hholds] at hj
    exact (Option.some.inj hj).symm
  · rcases reg.closing i item hi hclosing with hown | ⟨-, hnone⟩
    · rw [hown] at hj
      exact (Option.some.inj hj).symm
    · rw [hnone] at hj
      cases hj

theorem forgets (reg : Registered s) {i : ℕ} {item : Item} {ending : Ending}
    (hi : s.items i = some item) (hforgets : item.place.forgets = some ending) :
    Registered ((s.move i item (.over ending) []).forgetRun item.runId) := by
  have hplace := forgets_holds hforgets
  refine ⟨?_, ?_, ?_, ?_, ?_⟩
  · intro runId j hj
    change Function.update s.runs item.runId none runId = some j at hj
    by_cases hr : runId = item.runId
    · subst hr
      rw [Function.update_self] at hj
      cases hj
    · rw [Function.update_of_ne hr] at hj
      obtain ⟨other, hother, hrunId⟩ := reg.owner runId j hj
      obtain ⟨next, hnext, hsame⟩ := item_stays (.over ending) hi hother
      exact ⟨next, hnext, hsame.trans hrunId⟩
  · intro j other hj hholds
    change Function.update s.runs item.runId none other.runId = some j
    rcases items_move hj with ⟨rfl, rfl⟩ | ⟨hji, hj⟩
    · cases hholds
    · have hold := reg.holds j other hj hholds
      have hr : other.runId ≠ item.runId :=
        fun heq => hji (reg.only_holder hi hplace heq hold)
      rw [Function.update_of_ne hr]
      exact hold
  · intro j other hj hclosing
    change Function.update s.runs item.runId none other.runId = some j ∨
      s.slotsEnded = true ∧ Function.update s.runs item.runId none other.runId = none
    rcases items_move hj with ⟨rfl, rfl⟩ | ⟨hji, hj⟩
    · cases hclosing
    · rcases reg.closing j other hj hclosing with hold | ⟨hend, hnone⟩
      · have hr : other.runId ≠ item.runId :=
          fun heq => hji (reg.only_holder hi hplace heq hold)
        rw [Function.update_of_ne hr]
        exact Or.inl hold
      · refine Or.inr ⟨hend, ?_⟩
        by_cases hr : other.runId = item.runId
        · rw [hr, Function.update_self]
        · rw [Function.update_of_ne hr]
          exact hnone
  · intro hended j other hj
    rcases items_move hj with ⟨rfl, rfl⟩ | ⟨-, hj⟩
    · rfl
    · exact reg.ended hended j other hj
  · intro j other record hj hknown
    rcases items_move hj with ⟨rfl, rfl⟩ | ⟨-, hj⟩
    · cases hknown
    · obtain ⟨found, hfound, hrunId⟩ := reg.known j other record hj hknown
      obtain ⟨next, hnext, hsame⟩ := item_stays (.over ending) hi hfound
      exact ⟨next, hnext, hsame.trans hrunId⟩

/-- The drain forgets a run when no slot is left. -/
theorem drainForgets (reg : Registered s) (runId : Uuid) (hended : s.slotsEnded = true) :
    Registered (s.forgetRun runId) := by
  refine ⟨?_, ?_, ?_, reg.ended, reg.known⟩
  · intro r j hj
    change Function.update s.runs runId none r = some j at hj
    by_cases hr : r = runId
    · subst hr
      rw [Function.update_self] at hj
      cases hj
    · rw [Function.update_of_ne hr] at hj
      exact reg.owner r j hj
  · intro j other hj hholds
    have hin := reg.ended hended j other hj
    rw [holds_inSlot hholds] at hin
    cases hin
  · intro j other hj hclosing
    change Function.update s.runs runId none other.runId = some j ∨
      s.slotsEnded = true ∧ Function.update s.runs runId none other.runId = none
    by_cases hr : other.runId = runId
    · rw [hr, Function.update_self]
      exact Or.inr ⟨hended, rfl⟩
    · rw [Function.update_of_ne hr]
      exact reg.closing j other hj hclosing

theorem gives (reg : Registered s) (told : Told s) (runId : Uuid) (source : Source)
    (hended : s.slotsEnded = false) :
    Registered { s with
      items := Function.update s.items s.next (some ⟨runId, source, .got⟩)
      next := s.next + 1 } := by
  have hold : ∀ j other, s.items j = some other →
      Function.update s.items s.next (some ⟨runId, source, .got⟩) j = some other := by
    intro j other hj
    have hne : j ≠ s.next := by
      rintro rfl
      rw [told.fresh _ le_rfl] at hj
      cases hj
    rw [Function.update_of_ne hne]
    exact hj
  have hnew : ∀ j other,
      Function.update s.items s.next (some ⟨runId, source, .got⟩) j = some other →
        other.place = .got ∨ s.items j = some other := by
    intro j other hj
    by_cases hne : j = s.next
    · subst hne
      rw [Function.update_self] at hj
      cases hj
      exact Or.inl rfl
    · rw [Function.update_of_ne hne] at hj
      exact Or.inr hj
  refine ⟨?_, ?_, ?_, ?_, ?_⟩
  · intro r j hj
    obtain ⟨other, hother, hrunId⟩ := reg.owner r j hj
    exact ⟨other, hold j other hother, hrunId⟩
  · intro j other hj hholds
    rcases hnew j other hj with hgot | hj
    · rw [hgot] at hholds
      cases hholds
    · exact reg.holds j other hj hholds
  · intro j other hj hclosing
    rcases hnew j other hj with hgot | hj
    · rw [hgot] at hclosing
      cases hclosing
    · exact reg.closing j other hj hclosing
  · intro h
    rw [show s.slotsEnded = true from h] at hended
    cases hended
  · intro j other record hj hknown
    rcases hnew j other hj with hgot | hj
    · rw [hgot] at hknown
      cases hknown
    · obtain ⟨found, hfound, hrunId⟩ := reg.known j other record hj hknown
      exact ⟨found, hold record found hfound, hrunId⟩

theorem slotsEnd (reg : Registered s) (told : Told s) (hall : s.allEnded = true) :
    Registered { s with slotsEnded := true } := by
  refine ⟨reg.owner, reg.holds, ?_, ?_, reg.known⟩
  · intro j other hj hclosing
    rcases reg.closing j other hj hclosing with hown | ⟨-, hnone⟩
    · exact Or.inl hown
    · exact Or.inr ⟨rfl, hnone⟩
  · intro _ j other hj
    have hlt : j < s.next := by
      by_contra hge
      rw [told.fresh j (Nat.le_of_not_lt hge)] at hj
      cases hj
    have hplace := List.all_eq_true.mp hall j (List.mem_range.mpr hlt)
    rw [show s.items j = some other from hj] at hplace
    simpa using hplace

/-- The end of the started fact moves the item as any other move in its slot. -/
theorem startedEnds (reg : Registered s) {i : ℕ} {item : Item} (started : Started)
    (hi : s.items i = some item) (hplace : item.place = .starting) :
    Registered (s.startedEnd i item started) := by
  have hholds := reg.holds i item hi (by rw [hplace]; rfl)
  refine ⟨?_, ?_, ?_, ?_, ?_⟩
  · intro runId j hrun
    obtain ⟨other, hj, hrunId⟩ := reg.owner runId j hrun
    obtain ⟨next, hnext, hsame⟩ := item_stays started.place hi hj
    exact ⟨next, hnext, hsame.trans hrunId⟩
  · intro j other hj hother
    rcases items_move hj with ⟨rfl, rfl⟩ | ⟨-, hj⟩
    · exact hholds
    · exact reg.holds j other hj hother
  · intro j other hj hclosing
    rcases items_move hj with ⟨rfl, rfl⟩ | ⟨-, hj⟩
    · exact Or.inl hholds
    · exact reg.closing j other hj hclosing
  · intro hended j other hj
    rcases items_move hj with ⟨rfl, rfl⟩ | ⟨-, hj⟩
    · have hin := reg.ended hended j item hi
      rw [hplace] at hin
      cases hin
    · exact reg.ended hended j other hj
  · intro j other record hj hknown
    rcases items_move hj with ⟨rfl, rfl⟩ | ⟨-, hj⟩
    · cases started <;> cases hknown
    · obtain ⟨found, hfound, hrunId⟩ := reg.known j other record hj hknown
      obtain ⟨next, hnext, hsame⟩ := item_stays started.place hi hfound
      exact ⟨next, hnext, hsame.trans hrunId⟩

theorem step (reg : Registered s) (told : Told s) (h : Step s t) : Registered t := by
  cases h with
  | gives runId source hended => exact reg.gives told runId source hended
  | drains => exact ⟨reg.owner, reg.holds, reg.closing, reg.ended, reg.known⟩
  | moves hi hplain => exact reg.move hi hplain
  | registers hi hplace hrun => exact reg.registers hi hplace hrun
  | startedEnds started hi hplace => exact reg.startedEnds started hi hplace
  | forgets hi hforgets => exact reg.forgets hi hforgets
  | slotsEnd hall => exact reg.slotsEnd told hall
  | drainForgets runId hended => exact reg.drainForgets runId hended

end Registered

/-! ## The started facts -/

section StartedOver

variable {record : ℕ} {runId : Uuid} {log more : List Obs}

theorem StartedOver.append (h : StartedOver record runId log) :
    StartedOver record runId (log ++ more) := by
  obtain ⟨started, hends, hmem⟩ := h
  exact ⟨started, hends, List.mem_append_left _ hmem⟩

/-- It is over by what was logged before, unless the new entries say so. -/
theorem startedOver_append
    (hmore : ∀ started, .act record runId (.startedEnded started) ∈ more →
      started.ends = false) :
    StartedOver record runId (log ++ more) ↔ StartedOver record runId log := by
  constructor
  · rintro ⟨started, hends, hmem⟩
    rcases List.mem_append.mp hmem with hmem | hmem
    · exact ⟨started, hends, hmem⟩
    · rw [hmore started hmem] at hends
      cases hends
  · exact StartedOver.append

theorem mem_map_act {i j : ℕ} {runId runId' : Uuid} {as : List Act} {act : Act}
    (h : Obs.act j runId' act ∈ as.map (.act i runId)) : j = i ∧ runId' = runId ∧ act ∈ as := by
  obtain ⟨a, ha, heq⟩ := List.mem_map.mp h
  cases heq
  exact ⟨rfl, rfl, ha⟩

end StartedOver

/-- `started_pending` of a record tells whether its started fact is over. -/
structure Pending (s : Sys) : Prop where
  unmade : ∀ i, s.items i = none → s.startedPending i = true
  «over» : ∀ i item, s.items i = some item → s.startedPending i = false →
    StartedOver i item.runId s.log
  pending : ∀ i, s.startedPending i = true → ∀ runId, ¬ StartedOver i runId s.log

theorem plain_started {s : Sys} {item : Item} {place : Place} {as : List Act}
    (h : Plain s item place as) (started : Started) : .startedEnded started ∉ as := by
  cases h with
  | returns _ => cases item.source <;> simp [Source.givesBack]
  | executes _ => cases item.source <;> simp [Source.acks]
  | dismisses _ => cases item.source <;> simp [Source.acks]
  | _ => simp

namespace Pending

variable {s t : Sys}

/-- A step that says nothing of a started fact. -/
theorem quiet (pend : Pending s) (more : List Obs)
    (hpending : t.startedPending = s.startedPending)
    (hnone : ∀ i, t.items i = none → s.items i = none)
    (hitems : ∀ i item, t.items i = some item → s.startedPending i = false →
      ∃ other, s.items i = some other ∧ other.runId = item.runId)
    (hlog : t.log = s.log ++ more)
    (hmore : ∀ i runId started, .act i runId (.startedEnded started) ∉ more) : Pending t := by
  refine ⟨?_, ?_, ?_⟩
  · intro i hi
    rw [hpending]
    exact pend.unmade i (hnone i hi)
  · intro i item hi hover
    rw [hpending] at hover
    obtain ⟨other, hother, hrunId⟩ := hitems i item hi hover
    rw [hlog, ← hrunId]
    exact (pend.over i other hother hover).append
  · intro i hi runId
    rw [hpending] at hi
    rw [hlog, startedOver_append fun started h => absurd h (hmore i runId started)]
    exact pend.pending i hi runId

theorem none_of_move {i j : ℕ} {item : Item} {place : Place}
    (h : Function.update s.items i (some { item with place := place }) j = none) :
    s.items j = none := by
  by_cases hj : j = i
  · subst hj
    rw [Function.update_self] at h
    cases h
  · rw [Function.update_of_ne hj] at h
    exact h

theorem some_of_move {i j : ℕ} {item other : Item} {place : Place} (hi : s.items i = some item)
    (h : Function.update s.items i (some { item with place := place }) j = some other) :
    ∃ old, s.items j = some old ∧ old.runId = other.runId := by
  rcases Registered.items_move h with ⟨rfl, rfl⟩ | ⟨-, hj⟩
  · exact ⟨item, hi, rfl⟩
  · exact ⟨other, hj, rfl⟩

theorem startedEnds (pend : Pending s) {i : ℕ} {item : Item} (started : Started)
    (hi : s.items i = some item) : Pending (s.startedEnd i item started) := by
  have hlog : (s.startedEnd i item started).log =
      s.log ++ [.act i item.runId (.startedEnded started)] := rfl
  have hother : ∀ j, j ≠ i →
      (s.startedEnd i item started).startedPending j = s.startedPending j := by
    intro j hj
    change (if started.ends then Function.update s.startedPending i false
      else s.startedPending) j = _
    split
    · exact Function.update_of_ne hj _ _
    · rfl
  refine ⟨?_, ?_, ?_⟩
  · intro j hj
    have hnone := none_of_move hj
    have hne : j ≠ i := by
      rintro rfl
      rw [hi] at hnone
      cases hnone
    rw [hother j hne]
    exact pend.unmade j hnone
  · intro j other hj hover
    rw [hlog]
    rcases Registered.items_move hj with ⟨rfl, rfl⟩ | ⟨hne, hj⟩
    · by_cases hends : started.ends = true
      · exact ⟨started, hends, List.mem_append_right _ (List.mem_singleton_self _)⟩
      · have hsame : (s.startedEnd j item started).startedPending j = s.startedPending j := by
          change (if started.ends then Function.update s.startedPending j false
            else s.startedPending) j = _
          rw [if_neg hends]
        exact (pend.over j item hi (hsame.symm.trans hover)).append
    · exact (pend.over j other hj ((hother j hne).symm.trans hover)).append
  · intro j hj runId
    rw [hlog]
    by_cases hne : j = i
    · subst hne
      have hends : started.ends = false := by
        by_contra hends
        have hset : (s.startedEnd j item started).startedPending j = false := by
          change (if started.ends then Function.update s.startedPending j false
            else s.startedPending) j = _
          rw [if_pos (by simpa using hends), Function.update_self]
        rw [hset] at hj
        cases hj
      have hsame : (s.startedEnd j item started).startedPending j = s.startedPending j := by
        change (if started.ends then Function.update s.startedPending j false
          else s.startedPending) j = _
        rw [hends]
        rfl
      rw [startedOver_append]
      · exact pend.pending j (hsame.symm.trans hj) runId
      · intro other hmem
        cases List.mem_singleton.mp hmem
        exact hends
    · rw [startedOver_append]
      · exact pend.pending j ((hother j hne).symm.trans hj) runId
      · intro other hmem
        cases List.mem_singleton.mp hmem
        exact absurd rfl hne

theorem gives (pend : Pending s) (told : Told s) (runId : Uuid) (source : Source) :
    Pending { s with
      items := Function.update s.items s.next (some ⟨runId, source, .got⟩)
      next := s.next + 1 } := by
  have hnext : s.startedPending s.next = true := pend.unmade _ (told.fresh _ le_rfl)
  have hother : ∀ j, j ≠ s.next →
      Function.update s.items s.next (some ⟨runId, source, .got⟩) j = s.items j :=
    fun j hj => Function.update_of_ne hj _ _
  refine pend.quiet [] rfl ?_ ?_ (List.append_nil _).symm fun i r started h => ?_
  · intro j hj
    by_cases hne : j = s.next
    · subst hne
      exact told.fresh _ le_rfl
    · exact (hother j hne).symm.trans hj
  · intro j item hj hover
    have hne : j ≠ s.next := by
      rintro rfl
      rw [hnext] at hover
      cases hover
    exact ⟨item, (hother j hne).symm.trans hj, rfl⟩
  · cases h

theorem step (pend : Pending s) (told : Told s) (h : Step s t) : Pending t := by
  cases h with
  | gives runId source _ => exact pend.gives told runId source
  | drains => exact ⟨pend.unmade, pend.over, pend.pending⟩
  | @moves i item place as hi hplain =>
      refine pend.quiet (as.map (.act i item.runId)) rfl (fun j hj => none_of_move hj)
        (fun j other hj _ => some_of_move hi hj) rfl ?_
      intro j runId started hmem
      exact plain_started hplain started (mem_map_act hmem).2.2
  | @registers i item hi _ _ =>
      refine pend.quiet [.act i item.runId .registered] rfl (fun j hj => none_of_move hj)
        (fun j other hj _ => some_of_move hi hj) rfl ?_
      intro j runId started hmem
      cases List.mem_singleton.mp hmem
  | startedEnds started hi _ => exact pend.startedEnds started hi
  | @forgets i item ending hi _ =>
      refine pend.quiet [.forgot item.runId] rfl (fun j hj => none_of_move hj)
        (fun j other hj _ => some_of_move hi hj) ?_ ?_
      · simp [Sys.forgetRun, Sys.move]
      · intro j runId started hmem
        cases List.mem_singleton.mp hmem
  | slotsEnd _ => exact ⟨pend.unmade, pend.over, pend.pending⟩
  | drainForgets runId _ =>
      refine pend.quiet [.forgot runId] rfl (fun j hj => hj)
        (fun j other hj _ => ⟨other, hj, rfl⟩) rfl ?_
      intro j r started hmem
      cases List.mem_singleton.mp hmem

end Pending

/-! ## The log -/

/-- An act that no statement about the log is about. -/
def Act.idle : Act → Bool
  | .registered | .gaveBack | .startedEnded _ => true
  | _ => false

/-- Since its run was forgotten last, only the registered item has executed it. -/
structure Logged (runs : Uuid → Option ℕ) (log : List Obs) : Prop where
  met : Always MetRight log
  acked : Always AckedAfter log
  alone : Always ExecutesAlone log
  since : ∀ i runId, .act i runId .executes ∈ since (isForgot runId) log → runs runId = some i

namespace Logged

variable {runs : Uuid → Option ℕ} {log : List Obs} {i : ℕ} {runId : Uuid}

/-- One more act of an item; what it needs is said for each of the acts that the
statements are about. -/
theorem act (logged : Logged runs log) (a : Act)
    (hmet : ∀ record pending, a = .met record pending →
      (pending = false ↔ StartedOver record runId log))
    (hacked : a = .acked → ∃ record, StartedOver record runId log)
    (hexecutes : a = .executes → runs runId = some i ∧ .executes ∉ acts i log) :
    Logged runs (log ++ [.act i runId a]) := by
  refine ⟨always_snoc.mpr ⟨logged.met, ?_⟩, always_snoc.mpr ⟨logged.acked, ?_⟩,
    always_snoc.mpr ⟨logged.alone, ?_⟩, ?_⟩
  · intro j r record pending heq
    cases heq
    exact hmet record pending rfl
  · intro j r heq
    cases heq
    exact hacked rfl
  · intro k r heq j hmem
    cases heq
    obtain ⟨hrun, hnew⟩ := hexecutes rfl
    -- who has executed the run since is the item that is registered
    have hj := logged.since j runId hmem
    rw [hrun] at hj
    cases hj
    exact hnew (mem_acts (mem_of_mem_since hmem))
  · intro j r hmem
    rw [since_snoc] at hmem
    rcases List.mem_append.mp hmem with hmem | hmem
    · exact logged.since j r hmem
    · cases List.mem_singleton.mp hmem
      exact (hexecutes rfl).1

/-- An act that says nothing of the kind. -/
theorem idle (logged : Logged runs log) {a : Act} (ha : a.idle = true) :
    Logged runs (log ++ [.act i runId a]) := by
  refine logged.act a ?_ ?_ ?_
  · rintro record pending rfl
    cases ha
  · rintro rfl
    cases ha
  · rintro rfl
    cases ha

theorem met_act (logged : Logged runs log) {record : ℕ} {pending : Bool}
    (hright : pending = false ↔ StartedOver record runId log) :
    Logged runs (log ++ [.act i runId (.met record pending)]) := by
  refine logged.act _ ?_ (fun h => by cases h) fun h => by cases h
  intro r p heq
  cases heq
  exact hright

/-- The acknowledgement of a trigger, when there is one. -/
theorem acks (logged : Logged runs log) (source : Source)
    (hover : ∃ record, StartedOver record runId log) :
    Logged runs (log ++ source.acks.map (.act i runId)) := by
  cases source with
  | claim => exact (List.append_nil log).symm ▸ logged
  | trigger =>
      exact logged.act .acked (fun _ _ h => by cases h) (fun _ => hover) fun h => by cases h

theorem givesBack (logged : Logged runs log) (source : Source) :
    Logged runs (log ++ source.givesBack.map (.act i runId)) := by
  cases source with
  | claim => exact (List.append_nil log).symm ▸ logged
  | trigger => exact logged.idle rfl

/-- The registered item is executed, and was not before. -/
theorem executes (logged : Logged runs log) (hrun : runs runId = some i)
    (hnew : .executes ∉ Dispose.acts i log) :
    Logged runs (log ++ [.act i runId .executes]) :=
  logged.act .executes (fun _ _ h => by cases h) (fun h => by cases h) fun _ => ⟨hrun, hnew⟩

/-- A run that none has registered is registered. -/
theorem register (logged : Logged runs log) (i : ℕ) (hrun : runs runId = none) :
    Logged (Function.update runs runId (some i)) log := by
  refine ⟨logged.met, logged.acked, logged.alone, ?_⟩
  intro j r hmem
  have hold := logged.since j r hmem
  have hr : r ≠ runId := by
    rintro rfl
    rw [hrun] at hold
    cases hold
  rw [Function.update_of_ne hr]
  exact hold

theorem forgot (logged : Logged runs log) (runId : Uuid) :
    Logged (Function.update runs runId none) (log ++ [.forgot runId]) := by
  refine ⟨always_snoc.mpr ⟨logged.met, fun _ _ _ _ h => by cases h⟩,
    always_snoc.mpr ⟨logged.acked, fun _ _ h => by cases h⟩,
    always_snoc.mpr ⟨logged.alone, fun _ _ h => by cases h⟩, ?_⟩
  intro j r hmem
  rw [since_snoc] at hmem
  by_cases hr : r = runId
  · have hforgot : isForgot r (.forgot runId) = true := decide_eq_true hr.symm
    rw [hforgot] at hmem
    cases hmem
  · have hnot : isForgot r (.forgot runId) = false := decide_eq_false (Ne.symm hr)
    rw [hnot] at hmem
    rw [Function.update_of_ne hr]
    rcases List.mem_append.mp hmem with hmem | hmem
    · exact logged.since j r hmem
    · cases List.mem_singleton.mp hmem

end Logged

/-! ## The whole invariant -/

structure Inv (s : Sys) : Prop where
  told : Told s
  registered : Registered s
  pending : Pending s
  logged : Logged s.runs s.log

section Moves

variable {s : Sys} {i : ℕ} {item : Item}

/-- The started fact of an item that goes on with it is over. -/
theorem Inv.startedOver (inv : Inv s) (hi : s.items i = some item) (started : Started)
    (hends : started.ends = true)
    (hstory : .startedEnded started ∈ story item.source item.place) :
    StartedOver i item.runId s.log := by
  rw [← inv.told.told i item hi] at hstory
  obtain ⟨obs, hmem, hact⟩ := List.mem_filterMap.mp hstory
  have hnot : s.startedPending i ≠ true := by
    intro hpending
    cases obs with
    | forgot run => cases hact
    | act j run a =>
        simp only [actOf, Option.ite_none_right_eq_some, Option.some.injEq] at hact
        obtain ⟨rfl, rfl⟩ := hact
        exact inv.pending.pending j hpending run ⟨started, hends, hmem⟩
  exact inv.pending.over i item hi (eq_false_of_ne_true hnot)

theorem Inv.logged_move (inv : Inv s) {place : Place} {as : List Act}
    (hi : s.items i = some item) (hplain : Plain s item place as) :
    Logged s.runs (s.log ++ as.map (.act i item.runId)) := by
  have hnil : Logged s.runs (s.log ++ ([] : List Act).map (.act i item.runId)) :=
    (List.append_nil s.log).symm ▸ inv.logged
  cases hplain with
  | givenBack _ _ => exact inv.logged.idle rfl
  | droppedForDrain _ _ => exact hnil
  | keeps _ => exact hnil
  | known _ _ => exact hnil
  | @leftPending record hplace _ hpending =>
      refine inv.logged.met_act ⟨fun h => (by cases h), fun h => ?_⟩
      exact absurd h (inv.pending.pending record hpending _)
  | @duplicate record hplace _ hpending =>
      obtain ⟨other, hother, hrunId⟩ := inv.registered.known i item record hi hplace
      have hover : StartedOver record item.runId s.log :=
        hrunId ▸ inv.pending.over record other hother hpending
      have hmet : Logged s.runs (s.log ++ [.act i item.runId (.met record false)]) :=
        inv.logged.met_act ⟨fun _ => hover, fun _ => rfl⟩
      have hacked := hmet.acks (i := i) .trigger ⟨record, hover.append⟩
      rw [List.append_assoc] at hacked
      exact hacked
  | alreadyHeld _ _ => exact hnil
  | starts _ => exact hnil
  | fails _ => exact hnil
  | returns _ => exact inv.logged.givesBack item.source
  | executes hplace =>
      have hstory : story item.source item.place =
          [.registered, .startedEnded .accepted] := by
        rw [hplace]
        rfl
      have hover : StartedOver i item.runId s.log := by
        refine inv.startedOver hi .accepted rfl ?_
        rw [hstory]
        exact List.mem_cons_of_mem _ (List.mem_singleton_self _)
      have hacked := inv.logged.acks (i := i) item.source ⟨i, hover⟩
      have hnew : .executes ∉ acts i (s.log ++ item.source.acks.map (.act i item.runId)) := by
        rw [acts_append, acts_own, inv.told.told i item hi, hstory]
        cases item.source <;> simp [Source.acks]
      have hrun := inv.registered.holds i item hi (by rw [hplace]; rfl)
      have hexecutes := hacked.executes hrun hnew
      rw [List.append_assoc] at hexecutes
      rw [List.map_append]
      exact hexecutes
  | dismisses hplace =>
      refine inv.logged.acks item.source ⟨i, ?_⟩
      refine inv.startedOver hi .refused rfl ?_
      rw [hplace]
      exact List.mem_cons_of_mem _ (List.mem_singleton_self _)
  | bodyEnds _ => exact hnil
  | dropped _ => exact hnil
  | closingAborted _ _ => exact hnil

end Moves

theorem inv_init : Inv .init := by
  refine ⟨⟨?_, ?_, ?_, ?_⟩, ⟨?_, ?_, ?_, ?_, ?_⟩, ⟨?_, ?_, ?_⟩,
    ⟨always_nil, always_nil, always_nil, ?_⟩⟩
  · exact fun i _ => rfl
  · exact fun i _ => rfl
  · exact fun i item h => by cases h
  · exact fun i item h => by cases h
  · exact fun runId i h => by cases h
  · exact fun i item h => by cases h
  · exact fun i item h => by cases h
  · exact fun h => by cases h
  · exact fun i item record h => by cases h
  · exact fun i _ => rfl
  · exact fun i item h => by cases h
  · rintro i _ runId ⟨started, -, hmem⟩
    cases hmem
  · exact fun i runId h => by cases h

theorem Inv.logged_step {s t : Sys} (inv : Inv s) (h : Step s t) : Logged t.runs t.log := by
  cases h with
  | gives runId source _ => exact inv.logged
  | drains => exact inv.logged
  | moves hi hplain => exact inv.logged_move hi hplain
  | @registers i item _ _ hrun => exact (inv.logged.idle rfl).register i hrun
  | startedEnds started _ _ => exact inv.logged.idle rfl
  | @forgets i item ending hi _ =>
      have hforgot := inv.logged.forgot item.runId
      simpa [Sys.forgetRun, Sys.move] using hforgot
  | slotsEnd _ => exact inv.logged
  | drainForgets runId _ => exact inv.logged.forgot runId

theorem Inv.step {s t : Sys} (inv : Inv s) (h : Step s t) : Inv t :=
  ⟨inv.told.step h, inv.registered.step inv.told h, inv.pending.step inv.told h,
    inv.logged_step h⟩

theorem inv {s : Sys} (h : Sys.machine.Reachable s) : Inv s :=
  h.invariant inv_init fun inv hs => inv.step (step_cases hs)

/-! ## Results -/

/-- What was done with a trigger that is over. -/
theorem disposed_story {ending : Ending} (h : (Place.over ending).isDropped = false) :
    Disposed (story .trigger (.over ending)) := by
  cases ending with
  | executed => exact .executed
  | givenBack => exact .givenBack
  | droppedForDrain => cases h
  | duplicate record => exact .duplicate record
  | leftPending record => exact .leftPending record
  | alreadyHeld => cases h
  | unmade => exact .unmade
  | refused => exact .refused
  | failed => exact .failed

/-- No way to a place acknowledges, gives back or executes twice. -/
theorem story_once (source : Source) (place : Place) :
    (story source place).count .acked ≤ 1 ∧ (story source place).count .gaveBack ≤ 1 ∧
      (story source place).count .executes ≤ 1 := by
  induction place with
  | gone place ih => exact ih
  | «over» ending =>
      cases ending <;> cases source <;> simp [story, Source.acks, Source.givesBack]
  | _ => cases source <;> simp [story, Source.acks, Source.givesBack]

/-- An item that is over was executed if its started fact was accepted. -/
theorem story_accepted (source : Source) (ending : Ending)
    (h : .startedEnded .accepted ∈ story source (.over ending)) :
    .executes ∈ story source (.over ending) := by
  cases ending <;> cases source <;> simp_all [story, Source.acks, Source.givesBack]

/-- Each trigger is disposed of once, its acknowledgement stands behind the end of the
started fact of its run, an item of either source whose started fact is accepted is
executed, and of the items of a run one is executed until the run is forgotten. -/
theorem disposed_once {s : Sys} (h : Sys.machine.Reachable s) :
    (∀ i item ending, s.items i = some item → item.source = .trigger →
      item.place = .over ending → Disposed (acts i s.log)) ∧
    (∀ i item ending, s.items i = some item → item.place = .over ending →
      .startedEnded .accepted ∈ acts i s.log → .executes ∈ acts i s.log) ∧
    (∀ i, (acts i s.log).count .acked ≤ 1 ∧ (acts i s.log).count .gaveBack ≤ 1 ∧
      (acts i s.log).count .executes ≤ 1) ∧
    Always MetRight s.log ∧ Always AckedAfter s.log ∧ Always ExecutesAlone s.log ∧
    (∀ i item, s.items i = some item → item.place.holds = true →
      s.runs item.runId = some i) := by
  have hinv := inv h
  refine ⟨?_, ?_, ?_, hinv.logged.met, hinv.logged.acked, hinv.logged.alone,
    hinv.registered.holds⟩
  · intro i item ending hi hsource hplace
    have hkept := hinv.told.kept i item hi hsource
    rw [hplace] at hkept
    rw [hinv.told.told i item hi, hsource, hplace]
    exact disposed_story hkept
  · intro i item ending hi hplace haccepted
    rw [hinv.told.told i item hi, hplace] at haccepted ⊢
    exact story_accepted item.source ending haccepted
  · intro i
    cases hi : s.items i with
    | none =>
        rw [hinv.told.untold i hi]
        exact ⟨by simp, by simp, by simp⟩
    | some item =>
        rw [hinv.told.told i item hi]
        exact story_once item.source item.place

/-- Two triggers of run 5 and a claim of it, all taken while the first registers it. -/
def threeTakers : List Event :=
  [.gives 5 .trigger, .gives 5 .trigger, .gives 5 .claim, .checks 0, .checks 1, .checks 2,
    .registers 0, .registers 1, .registers 2, .settles 1, .settles 2, .queueMade 0 true,
    .startedEnds 0 .accepted, .acks 0, .gives 5 .trigger, .checks 3, .registers 3,
    .settles 3, .bodyEnds 0, .forgets 0]

theorem disposed_once_threeTakers :
    ∃ s, Sys.machine.Reachable s ∧
      acts 0 s.log = [.registered, .startedEnded .accepted, .acked, .executes] ∧
      acts 1 s.log = [.met 0 true] ∧ acts 3 s.log = [.met 0 false, .acked] ∧
      (∀ i item ending, s.items i = some item → item.source = .trigger →
        item.place = .over ending → Disposed (acts i s.log)) ∧
      (∀ i item ending, s.items i = some item → item.place = .over ending →
        .startedEnded .accepted ∈ acts i s.log → .executes ∈ acts i s.log) ∧
      (∀ i, (acts i s.log).count .acked ≤ 1 ∧ (acts i s.log).count .gaveBack ≤ 1 ∧
        (acts i s.log).count .executes ≤ 1) ∧
      Always MetRight s.log ∧ Always AckedAfter s.log ∧ Always ExecutesAlone s.log ∧
      (∀ i item, s.items i = some item → item.place.holds = true →
        s.runs item.runId = some i) := by
  have h : Sys.machine.Reachable _ := Machine.reachable_of_run threeTakers rfl
  exact ⟨_, h, rfl, rfl, rfl, disposed_once h⟩

/-! ## A refused start

The trigger is acknowledged, and it is neither executed nor a duplicate.
-/

/-- The ways a trigger ends without the refusal of its own start. -/
def Listed (as : List Act) : Prop :=
  .executes ∈ as ∨ .gaveBack ∈ as ∨ (∃ record, .met record false ∈ as ∧ .acked ∈ as) ∨
    .acked ∉ as

def refusedStart : List Event :=
  [.gives 5 .trigger, .checks 0, .registers 0, .queueMade 0 true, .startedEnds 0 .refused,
    .acks 0, .forgets 0]

theorem refused_not_listed :
    ∃ s item, Sys.machine.run refusedStart = some s ∧ s.items 0 = some item ∧
      item.source = .trigger ∧ item.place = .over .refused ∧ ¬ Listed (acts 0 s.log) := by
  refine ⟨_, _, rfl, rfl, rfl, rfl, ?_⟩
  have hacts : ¬ Listed [.registered, .startedEnded .refused, .acked] := by
    rintro (h | h | ⟨record, h, -⟩ | h)
    · simp at h
    · simp at h
    · simp at h
    · simp at h
  exact hacts

end RunnerKit.Toolkit.Dispose
