import RunnerKit.Toolkit.Claims

/-!
# The moves of a slot

What one step of a slot can do, said once: the place it leaves, the place it goes to
and the guard between them. The other slots and the loop state stay.
-/

namespace RunnerKit.Toolkit

open RunnerKit.Lib

/-- A slot goes from one place to another by this event. -/
inductive Moves (s : Sys) : SlotEvent → Slot → Slot → Prop where
  | leaves {held : Option Jobs.Uuid} : s.drain = true → Moves s .look (.top held) .left
  | looks {held : Option Jobs.Uuid} : s.drain = false →
      Moves s .look (.top held) (.looked held s.loopState s.version)
  | asks {held : Option Jobs.Uuid} {state : LoopState} {version : ℕ} :
      Moves s .ask (.looked held state version) (.asked held state version s.stoppedEpoch)
  | asksNothing {held : Option Jobs.Uuid} {state : LoopState} {version : ℕ} :
      Moves s .ask (.looked held state version) (Slot.choose held state version false)
  | answered {held : Option Jobs.Uuid} {state : LoopState} {version : ℕ} {stopped : Epoch}
      {claimsBlocked : Bool} :
      Moves s .answer (.asked held state version stopped)
        (Slot.choose held state version claimsBlocked)
  | wakes {held : Option Jobs.Uuid} {version : ℕ} :
      Moves s .wake (.waiting held version) (.top held)
  | quits {held : Option Jobs.Uuid} {version : ℕ} :
      Moves s .wake (.waiting held version) .left
  | sends {held : Option Jobs.Uuid} {fresh : Jobs.Uuid} :
      Moves s (.send fresh) (.claiming held) (.sent (held.getD fresh) s.claims s.modeEpoch)
  | replied {claimId : Jobs.Uuid} {claim : ℕ} {epoch : Epoch} {reply : Reply} :
      Moves s (.reply reply) (.sent claimId claim epoch) (Slot.reply claimId claim epoch reply)
  | loads {claim : ℕ} {epoch : Epoch} :
      Moves s .stopLoad (.stopping claim epoch) (.storing claim epoch)
  | loadsOlder {claim : ℕ} {epoch : Epoch} : Moves s .stopLoad (.stopping claim epoch) (.top none)
  | stores {claim : ℕ} {epoch : Epoch} : Moves s .stopStore (.storing claim epoch) (.top none)
  | repeats {claimId : Jobs.Uuid} : Moves s .resume (.pausing claimId) (.top (some claimId))
  | returns {held : Option Jobs.Uuid} : Moves s .resume (.working held) (.top held)
  | panics {slot : Slot} : slot ≠ .left → Moves s .panic slot (.top none)

/-- A step of slot `i` is one of its moves. -/
structure SlotMove (s t : Sys) (i : ℕ) (event : SlotEvent) : Prop where
  moves : Moves s event (s.slots i) (t.slots i)
  others : ∀ j, j ≠ i → t.slots j = s.slots j
  loopState : t.loopState = s.loopState

variable {s t u : Sys} {i : ℕ} {event : SlotEvent}

theorem SlotMove.setSlot {slot : Slot} (h : Moves s event (s.slots i) slot) :
    SlotMove s (s.setSlot i slot) i event := by
  have hself : (s.setSlot i slot).slots i = slot := by simp [Sys.setSlot]
  refine ⟨?_, ?_, rfl⟩
  · rw [hself]
    exact h
  · intro j hj
    exact Function.update_of_ne hj slot s.slots

/-- The rest of the state may change as well. -/
theorem SlotMove.of_slots (h : SlotMove s t i event) (hslots : u.slots = t.slots)
    (hloop : u.loopState = t.loopState) : SlotMove s u i event :=
  ⟨hslots ▸ h.moves, hslots ▸ h.others, hloop.trans h.loopState⟩

theorem slotStep_move (hs : s.slotStep i event = some t) : SlotMove s t i event := by
  cases event with
  | look =>
      simp only [Sys.slotStep] at hs
      split at hs
      · rename_i held hslot
        split at hs <;> cases hs
        · rename_i hdrain
          exact .setSlot (hslot ▸ .leaves hdrain)
        · rename_i hdrain
          exact .setSlot (hslot ▸ .looks (Bool.not_eq_true _ ▸ hdrain))
      · cases hs
  | ask =>
      simp only [Sys.slotStep] at hs
      split at hs <;> cases hs
      rename_i held state version hslot
      unfold Sys.ask
      split
      · exact SlotMove.of_slots (.setSlot (hslot ▸ .asks)) rfl rfl
      · exact .setSlot (hslot ▸ .asksNothing)
  | answer =>
      simp only [Sys.slotStep] at hs
      split at hs <;> cases hs
      rename_i held state version stopped hslot
      exact SlotMove.of_slots (.setSlot (hslot ▸ .answered)) rfl rfl
  | wake =>
      simp only [Sys.slotStep] at hs
      split at hs
      · rename_i held version hslot
        split at hs
        · cases hs
          exact .setSlot (hslot ▸ .wakes)
        · split at hs <;> cases hs
          exact .setSlot (hslot ▸ .quits)
      · cases hs
  | send fresh =>
      simp only [Sys.slotStep] at hs
      split at hs <;> cases hs
      rename_i held hslot
      exact SlotMove.of_slots (.setSlot (hslot ▸ .sends)) rfl rfl
  | reply reply =>
      simp only [Sys.slotStep] at hs
      split at hs <;> cases hs
      rename_i claimId claim epoch hslot
      exact .setSlot (hslot ▸ .replied)
  | stopLoad =>
      simp only [Sys.slotStep] at hs
      split at hs <;> cases hs
      rename_i claim epoch hslot
      unfold Sys.stopLoad
      split
      · exact .setSlot (hslot ▸ .loads)
      · exact SlotMove.of_slots (.setSlot (hslot ▸ .loadsOlder)) rfl rfl
  | stopStore =>
      simp only [Sys.slotStep] at hs
      split at hs <;> cases hs
      rename_i claim epoch hslot
      exact SlotMove.of_slots (.setSlot (hslot ▸ .stores)) rfl rfl
  | resume =>
      simp only [Sys.slotStep] at hs
      split at hs <;> cases hs
      · rename_i claimId hslot
        exact .setSlot (hslot ▸ .repeats)
      · rename_i held hslot
        exact .setSlot (hslot ▸ .returns)
  | panic =>
      simp only [Sys.slotStep] at hs
      split at hs <;> cases hs
      rename_i hleft
      exact .setSlot (.panics hleft)

end RunnerKit.Toolkit
