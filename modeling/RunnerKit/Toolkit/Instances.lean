import RunnerKit.Lib.Machine
import RunnerKit.Toolkit.Hooks

/-!
# The instances of the runs

`instances.rs`: the map from an instance to the record of its run, with the inserts of
the executor's observer, the waiting finds of the lookup and `remove_run`. The phase of
a record is under its own lock, so each read and each write of it is a step; an insert
keeps the lock of the map between its read of the phase and the insertion, and notifies
the finds only after it has let go of it.

A record is a number, and `runId` is the id of its run: `remove_run` takes the entries
of a run out by that id. The removals come from the two places that make them: the end
of `run`, on the run's own slot, and `abort_run`, once that slot has ended or is stopped.
-/

namespace RunnerKit.Toolkit.Instances

open Hooks RunnerKit.Jobs RunnerKit.Lib

/-! ## The calls -/

inductive InsertPlace where
  | entered
  /-- It holds the lock of the map. -/
  | locked
  /-- It has read that the run is not removed, and holds the lock still. -/
  | checked
  /-- The entry is in the map, the lock is free, and the change is not told yet. -/
  | inserted
  | ended (held : Bool)
deriving DecidableEq

structure Insert where
  id : Uuid
  record : ℕ
  place : InsertPlace
deriving DecidableEq

def InsertPlace.locks : InsertPlace → Bool
  | .locked | .checked => true
  | _ => false

inductive ErrorCode where
  | notStarted
  | instanceEnded
deriving DecidableEq

inductive FindPlace where
  /-- At the top of the loop. -/
  | looping
  | looking
  | found (record : ℕ)
  /-- In `changes.changed()`: it goes on once the generation is not the seen one. -/
  | waiting
  | ended (result : Except ErrorCode ℕ)
  /-- The future was dropped at its await. -/
  | dropped
deriving DecidableEq

structure Find where
  id : Uuid
  /-- The generation its receiver has seen. -/
  seen : ℕ
  place : FindPlace
deriving DecidableEq

/-- Where the tasks of a run are with its record. -/
inductive Stage where
  | running
  /-- `settle` has set the phase. -/
  | settled
  /-- `abort_run` has set the phase, and has not called `remove_run`. -/
  | aborting
  /-- `remove_run` has set the phase and is to lock the map. -/
  | removing
  /-- `remove_run` has returned. -/
  | removed
deriving DecidableEq

/-! ## The steps -/

structure Sys where
  phase : ℕ → Phase
  stage : ℕ → Stage
  byId : Uuid → Option ℕ
  /-- The insert that holds the lock of the map. -/
  lock : Option ℕ
  generation : ℕ
  started : Bool
  inserts : ℕ → Option Insert
  finds : ℕ → Option Find

inductive Event where
  | started
  | insert (c : ℕ) (id : Uuid) (record : ℕ)
  | insertStep (c : ℕ)
  | find (f : ℕ) (id : Uuid)
  | findStep (f : ℕ)
  | findDropped (f : ℕ)
  /-- `set_phase` in `settle`. -/
  | executorReturned (r : ℕ)
  /-- `set_phase` of `remove_run` at the end of `run`. -/
  | dropping (r : ℕ)
  /-- `set_phase` at the start of `abort_run`: the slot of the run has ended or is
  stopped, which it is between two polls only. -/
  | aborting (r : ℕ)
  /-- `set_phase` of `remove_run` in `abort_run`. -/
  | abortRemoving (r : ℕ)
  /-- The `retain` of `remove_run`, which then returns. -/
  | retained (r : ℕ)

namespace Sys

def init : Sys where
  phase := fun _ => .live
  stage := fun _ => .running
  byId := fun _ => none
  lock := none
  generation := 0
  started := false
  inserts := fun _ => none
  finds := fun _ => none

def setPhase (s : Sys) (r : ℕ) (phase : Phase) (stage : Stage) : Sys :=
  { s with phase := Function.update s.phase r phase, stage := Function.update s.stage r stage }

def setInsert (s : Sys) (c : ℕ) (call : Insert) : Sys :=
  { s with inserts := Function.update s.inserts c (some call) }

def setFind (s : Sys) (f : ℕ) (call : Find) : Sys :=
  { s with finds := Function.update s.finds f (some call) }

/-- `insert` -/
def insertStep (s : Sys) (c : ℕ) (call : Insert) : Option Sys :=
  match call.place with
  | .entered =>
      if s.lock = none then some { s.setInsert c { call with place := .locked } with lock := some c }
      else none
  | .locked =>
      if s.phase call.record = .dropped ∨ s.phase call.record = .aborted then
        some { s.setInsert c { call with place := .ended false } with lock := none }
      else some (s.setInsert c { call with place := .checked })
  | .checked =>
      some
        { s.setInsert c { call with place := .inserted } with
          byId := Function.update s.byId call.id (some call.record)
          lock := none }
  | .inserted =>
      some
        { s.setInsert c { call with place := .ended true } with
          generation := s.generation + 1 }
  | .ended _ => none

/-- `find` -/
def findStep (s : Sys) (f : ℕ) (call : Find) : Option Sys :=
  match call.place with
  | .looping =>
      if s.started then some (s.setFind f { call with place := .looking })
      else some (s.setFind f { call with place := .ended (.error .notStarted) })
  | .looking =>
      if s.lock = none then
        match s.byId call.id with
        | some record => some (s.setFind f { call with place := .found record })
        | none => some (s.setFind f { call with place := .waiting })
      else none
  | .found record =>
      if s.phase record = .live then
        some (s.setFind f { call with place := .ended (.ok record) })
      else some (s.setFind f { call with place := .ended (.error .instanceEnded) })
  | .waiting =>
      if call.seen = s.generation then none
      else some (s.setFind f { call with seen := s.generation, place := .looping })
  | .ended _ | .dropped => none

/-- The `retain` of `remove_run`. -/
def retain (s : Sys) (runId : ℕ → Uuid) (r : ℕ) : Uuid → Option ℕ := fun id =>
  (s.byId id).filter fun record => runId record ≠ runId r

def step (runId : ℕ → Uuid) (s : Sys) : Event → Option Sys
  | .started => some { s with started := true }
  | .insert c id record =>
      if s.inserts c = none then some (s.setInsert c ⟨id, record, .entered⟩) else none
  | .insertStep c => (s.inserts c).bind (s.insertStep c)
  | .find f id =>
      if s.finds f = none then some (s.setFind f ⟨id, s.generation, .looping⟩) else none
  | .findStep f => (s.finds f).bind (s.findStep f)
  | .findDropped f =>
      (s.finds f).bind fun call =>
        if call.place = .waiting then some (s.setFind f { call with place := .dropped })
        else none
  | .executorReturned r =>
      if s.stage r = .running then some (s.setPhase r .executorReturned .settled) else none
  | .dropping r =>
      if s.stage r = .running ∨ s.stage r = .settled then
        some (s.setPhase r .dropped .removing)
      else none
  | .aborting r =>
      if s.stage r = .running ∨ s.stage r = .settled ∨ s.stage r = .removed then
        some (s.setPhase r .aborted .aborting)
      else none
  | .abortRemoving r =>
      if s.stage r = .aborting then some (s.setPhase r .aborted .removing) else none
  | .retained r =>
      if s.stage r = .removing ∧ s.lock = none then
        some
          { s with
            byId := s.retain runId r
            stage := Function.update s.stage r .removed }
      else none

end Sys

def machine (runId : ℕ → Uuid) : Machine Sys Event := ⟨Sys.init, Sys.step runId⟩

namespace Sys

variable {runId : ℕ → Uuid} {s s' t : Sys}

/-! ## What a step does -/

/-- The phases in which an insert is refused. -/
def Gone (phase : Phase) : Prop := phase = .dropped ∨ phase = .aborted

instance (phase : Phase) : Decidable (Gone phase) :=
  inferInstanceAs (Decidable (phase = .dropped ∨ phase = .aborted))

/-- The steps by what they change. -/
inductive Moves (runId : ℕ → Uuid) (s : Sys) : Sys → Prop where
  | started : Moves runId s { s with started := true }
  | entered {c : ℕ} {id : Uuid} {record : ℕ} :
      s.inserts c = none → Moves runId s (s.setInsert c ⟨id, record, .entered⟩)
  | locked {c : ℕ} {call : Insert} :
      s.inserts c = some call → call.place = .entered → s.lock = none →
        Moves runId s { s.setInsert c { call with place := .locked } with lock := some c }
  | refused {c : ℕ} {call : Insert} :
      s.inserts c = some call → call.place = .locked →
        Moves runId s { s.setInsert c { call with place := .ended false } with lock := none }
  | checked {c : ℕ} {call : Insert} :
      s.inserts c = some call → call.place = .locked → ¬ Gone (s.phase call.record) →
        Moves runId s (s.setInsert c { call with place := .checked })
  | inserted {c : ℕ} {call : Insert} :
      s.inserts c = some call → call.place = .checked →
        Moves runId s
          { s.setInsert c { call with place := .inserted } with
            byId := Function.update s.byId call.id (some call.record)
            lock := none }
  | told {c : ℕ} {call : Insert} :
      s.inserts c = some call → call.place = .inserted →
        Moves runId s
          { s.setInsert c { call with place := .ended true } with
            generation := s.generation + 1 }
  | subscribed {f : ℕ} {id : Uuid} :
      Moves runId s (s.setFind f ⟨id, s.generation, .looping⟩)
  | waits {f : ℕ} {call : Find} :
      s.finds f = some call → s.byId call.id = none →
        Moves runId s (s.setFind f { call with place := .waiting })
  | woken {f : ℕ} {call : Find} :
      s.finds f = some call →
        Moves runId s (s.setFind f { call with seen := s.generation, place := .looping })
  | found {f : ℕ} {call : Find} {place : FindPlace} :
      s.finds f = some call → place ≠ .waiting →
        Moves runId s (s.setFind f { call with place := place })
  | returned {r : ℕ} :
      s.stage r = .running → Moves runId s (s.setPhase r .executorReturned .settled)
  | gone {r : ℕ} {phase : Phase} {stage : Stage} :
      Gone phase → stage ≠ .running → stage ≠ .settled →
        Moves runId s (s.setPhase r phase stage)
  | retained {r : ℕ} :
      s.stage r = .removing → s.lock = none →
        Moves runId s
          { s with
            byId := s.retain runId r
            stage := Function.update s.stage r .removed }

theorem insertStep_moves {c : ℕ} {call : Insert} (hc : s.inserts c = some call)
    (hs : s.insertStep c call = some s') : Moves runId s s' := by
  unfold insertStep at hs
  split at hs
  · rename_i hplace
    split at hs
    · rename_i hlock
      cases hs
      exact .locked hc hplace hlock
    · cases hs
  · rename_i hplace
    split at hs
    · cases hs
      exact .refused hc hplace
    · rename_i hgone
      cases hs
      exact .checked hc hplace hgone
  · rename_i hplace
    cases hs
    exact .inserted hc hplace
  · rename_i hplace
    cases hs
    exact .told hc hplace
  · cases hs

theorem findStep_moves {f : ℕ} {call : Find} (hf : s.finds f = some call)
    (hs : s.findStep f call = some s') : Moves runId s s' := by
  unfold findStep at hs
  split at hs
  · split at hs <;> cases hs <;> exact .found hf (by simp)
  · split at hs
    · split at hs
      · cases hs
        exact .found hf (by simp)
      · rename_i hnone
        cases hs
        exact .waits hf hnone
    · cases hs
  · split at hs <;> cases hs <;> exact .found hf (by simp)
  · split at hs
    · cases hs
    · cases hs
      exact .woken hf
  · cases hs
  · cases hs

theorem step_moves {e : Event} (hs : s.step runId e = some s') : Moves runId s s' := by
  cases e with
  | started =>
      cases hs
      exact .started
  | insert c id record =>
      simp only [step] at hs
      split at hs <;> cases hs
      rename_i hnone
      exact .entered hnone
  | insertStep c =>
      obtain ⟨call, hc, hs⟩ := Option.bind_eq_some_iff.mp hs
      exact insertStep_moves hc hs
  | find f id =>
      simp only [step] at hs
      split at hs <;> cases hs
      exact .subscribed
  | findStep f =>
      obtain ⟨call, hf, hs⟩ := Option.bind_eq_some_iff.mp hs
      exact findStep_moves hf hs
  | findDropped f =>
      obtain ⟨call, hf, hs⟩ := Option.bind_eq_some_iff.mp hs
      split at hs <;> cases hs
      exact .found hf (by simp)
  | executorReturned r =>
      simp only [step] at hs
      split at hs <;> cases hs
      rename_i hstage
      exact .returned hstage
  | dropping r =>
      simp only [step] at hs
      split at hs <;> cases hs
      exact .gone (Or.inl rfl) (by simp) (by simp)
  | aborting r =>
      simp only [step] at hs
      split at hs <;> cases hs
      exact .gone (Or.inr rfl) (by simp) (by simp)
  | abortRemoving r =>
      simp only [step] at hs
      split at hs <;> cases hs
      exact .gone (Or.inr rfl) (by simp) (by simp)
  | retained r =>
      simp only [step] at hs
      split at hs
      · rename_i h
        cases hs
        exact .retained h.1 h.2
      · cases hs

/-! ## What the locks keep -/

/-- Its insertion is done and not told yet. -/
def Untold (s : Sys) (id : Uuid) : Prop :=
  ∃ c call, s.inserts c = some call ∧ call.id = id ∧ call.place = .inserted

structure Inv (s : Sys) : Prop where
  locks : ∀ c call, s.inserts c = some call → call.place.locks = true → s.lock = some c
  phases : ∀ r, s.stage r ≠ .running → s.stage r ≠ .settled → Gone (s.phase r)
  seen : ∀ f call, s.finds f = some call → call.seen ≤ s.generation
  sees : ∀ f call, s.finds f = some call → call.place = .waiting →
    call.seen = s.generation → s.byId call.id = none ∨ s.Untold call.id

/-- An insert that moves leaves untold what another one has inserted. -/
theorem Untold.set {c : ℕ} {call : Insert} {id : Uuid} (h : s.Untold id)
    (hplace : ∀ call', s.inserts c = some call' → call'.place ≠ .inserted) :
    (s.setInsert c call).Untold id := by
  obtain ⟨c', call', hc', hid, hinserted⟩ := h
  refine ⟨c', call', ?_, hid, hinserted⟩
  have hne : c' ≠ c := by
    rintro rfl
    exact hplace call' hc' hinserted
  simpa [setInsert, hne] using hc'

theorem Inv.init : Inv init := by
  refine ⟨?_, ?_, ?_, ?_⟩ <;> simp [Sys.init]

theorem Moves.locks (h : Moves runId s s') (hinv : s.Inv) :
    ∀ c call, s'.inserts c = some call → call.place.locks = true → s'.lock = some c := by
  intro c' call' hc' hlocks
  -- while one insert holds the lock, no other is between its two ends
  have halone : ∀ {c : ℕ} {call : Insert}, s.inserts c = some call →
      call.place.locks = true → c' ≠ c → s.inserts c' ≠ some call' := by
    intro c call hc hholds hne hother
    have heq := (hinv.locks c call hc hholds).symm.trans (hinv.locks c' call' hother hlocks)
    exact hne (by simpa using heq.symm)
  cases h with
  | started => exact hinv.locks c' call' hc' hlocks
  | entered hnone =>
      rcases update_some hc' with ⟨rfl, rfl⟩ | ⟨-, hc'⟩
      · cases hlocks
      · exact hinv.locks c' call' hc' hlocks
  | locked hc hplace hlock =>
      rcases update_some hc' with ⟨rfl, rfl⟩ | ⟨-, hc'⟩
      · rfl
      · have hheld := hinv.locks c' call' hc' hlocks
        rw [hlock] at hheld
        cases hheld
  | refused hc hplace =>
      rcases update_some hc' with ⟨rfl, rfl⟩ | ⟨hne, hc'⟩
      · cases hlocks
      · exact absurd hc' (halone hc (by rw [hplace]; rfl) hne)
  | checked hc hplace hgone =>
      rcases update_some hc' with ⟨rfl, rfl⟩ | ⟨-, hc'⟩
      · exact hinv.locks c' _ hc (by rw [hplace]; rfl)
      · exact hinv.locks c' call' hc' hlocks
  | inserted hc hplace =>
      rcases update_some hc' with ⟨rfl, rfl⟩ | ⟨hne, hc'⟩
      · cases hlocks
      · exact absurd hc' (halone hc (by rw [hplace]; rfl) hne)
  | told hc hplace =>
      rcases update_some hc' with ⟨rfl, rfl⟩ | ⟨-, hc'⟩
      · cases hlocks
      · exact hinv.locks c' call' hc' hlocks
  | subscribed => exact hinv.locks c' call' hc' hlocks
  | waits hf hnone => exact hinv.locks c' call' hc' hlocks
  | woken hf => exact hinv.locks c' call' hc' hlocks
  | found hf hplace => exact hinv.locks c' call' hc' hlocks
  | returned hstage => exact hinv.locks c' call' hc' hlocks
  | gone hphase hrunning hsettled => exact hinv.locks c' call' hc' hlocks
  | retained hstage hlock => exact hinv.locks c' call' hc' hlocks

theorem Moves.phases (h : Moves runId s s') (hinv : s.Inv) :
    ∀ r, s'.stage r ≠ .running → s'.stage r ≠ .settled → Gone (s'.phase r) := by
  intro r' hrunning hsettled
  cases h with
  | returned hstage =>
      rename_i r
      by_cases hr : r' = r
      · subst hr
        exact absurd (by simp [setPhase]) hsettled
      · simp only [setPhase, Function.update_of_ne hr] at hrunning hsettled ⊢
        exact hinv.phases r' hrunning hsettled
  | gone hphase hr hs =>
      rename_i r phase stage
      by_cases hr : r' = r
      · subst hr
        simpa [setPhase] using hphase
      · simp only [setPhase, Function.update_of_ne hr] at hrunning hsettled ⊢
        exact hinv.phases r' hrunning hsettled
  | retained hstage hlock =>
      rename_i r
      by_cases hr : r' = r
      · subst hr
        exact hinv.phases r' (by simp [hstage]) (by simp [hstage])
      · simp only [Function.update_of_ne hr] at hrunning hsettled
        exact hinv.phases r' hrunning hsettled
  | _ => exact hinv.phases r' hrunning hsettled

theorem Moves.seen (h : Moves runId s s') (hinv : s.Inv) :
    ∀ f call, s'.finds f = some call → call.seen ≤ s'.generation := by
  intro f' call' hf'
  cases h with
  | told hc hplace => exact (hinv.seen f' call' hf').trans (Nat.le_succ _)
  | subscribed =>
      rcases update_some hf' with ⟨rfl, rfl⟩ | ⟨-, hf'⟩
      · exact le_refl s.generation
      · exact hinv.seen f' call' hf'
  | waits hf hnone =>
      have hle := hinv.seen _ _ hf
      rcases update_some hf' with ⟨rfl, rfl⟩ | ⟨-, hf'⟩
      · exact hle
      · exact hinv.seen f' call' hf'
  | woken hf =>
      rcases update_some hf' with ⟨rfl, rfl⟩ | ⟨-, hf'⟩
      · exact le_refl s.generation
      · exact hinv.seen f' call' hf'
  | found hf hplace =>
      have hle := hinv.seen _ _ hf
      rcases update_some hf' with ⟨rfl, rfl⟩ | ⟨-, hf'⟩
      · exact hle
      · exact hinv.seen f' call' hf'
  | _ => exact hinv.seen f' call' hf'

/-- A find that waits has looked after the last change it has seen, and every later
entry is untold. -/
theorem Moves.sees (h : Moves runId s s') (hinv : s.Inv) :
    ∀ f call, s'.finds f = some call → call.place = .waiting →
      call.seen = s'.generation → s'.byId call.id = none ∨ s'.Untold call.id := by
  intro f' call' hf' hwaiting hseen
  cases h with
  | started => exact hinv.sees f' call' hf' hwaiting hseen
  | entered hnone =>
      exact (hinv.sees f' call' hf' hwaiting hseen).imp_right fun huntold =>
        huntold.set (by simp [hnone])
  | locked hc hplace hlock =>
      exact (hinv.sees f' call' hf' hwaiting hseen).imp_right fun huntold =>
        huntold.set (by simp [hc, hplace])
  | refused hc hplace =>
      exact (hinv.sees f' call' hf' hwaiting hseen).imp_right fun huntold =>
        huntold.set (by simp [hc, hplace])
  | checked hc hplace hgone =>
      exact (hinv.sees f' call' hf' hwaiting hseen).imp_right fun huntold =>
        huntold.set (by simp [hc, hplace])
  | inserted hc hplace =>
      rename_i c call
      by_cases hid : call'.id = call.id
      · exact Or.inr ⟨c, { call with place := .inserted }, by simp [setInsert], hid.symm, rfl⟩
      · rcases hinv.sees f' call' hf' hwaiting hseen with hnone | huntold
        · exact Or.inl (by simp [hid, hnone])
        · exact Or.inr (huntold.set (by simp [hc, hplace]))
  | told hc hplace =>
      -- every find has a change to see
      have hle := hinv.seen f' call' hf'
      exact absurd hseen (Nat.ne_of_lt (Nat.lt_succ_of_le hle))
  | subscribed =>
      rcases update_some hf' with ⟨rfl, rfl⟩ | ⟨-, hf'⟩
      · cases hwaiting
      · exact hinv.sees f' call' hf' hwaiting hseen
  | waits hf hnone =>
      rcases update_some hf' with ⟨rfl, rfl⟩ | ⟨-, hf'⟩
      · exact Or.inl hnone
      · exact hinv.sees f' call' hf' hwaiting hseen
  | woken hf =>
      rcases update_some hf' with ⟨rfl, rfl⟩ | ⟨-, hf'⟩
      · cases hwaiting
      · exact hinv.sees f' call' hf' hwaiting hseen
  | found hf hplace =>
      rcases update_some hf' with ⟨rfl, rfl⟩ | ⟨-, hf'⟩
      · exact absurd hwaiting hplace
      · exact hinv.sees f' call' hf' hwaiting hseen
  | returned hstage => exact hinv.sees f' call' hf' hwaiting hseen
  | gone hphase hrunning hsettled => exact hinv.sees f' call' hf' hwaiting hseen
  | retained hstage hlock =>
      refine (hinv.sees f' call' hf' hwaiting hseen).imp_left fun hnone => ?_
      simp [retain, hnone]

theorem Moves.inv (h : Moves runId s s') (hinv : s.Inv) : s'.Inv :=
  ⟨h.locks hinv, h.phases hinv, h.seen hinv, h.sees hinv⟩

theorem reachable_inv (h : (machine runId).Reachable s) : s.Inv := by
  refine h.invariant Inv.init ?_
  intro s s' e hinv hs
  exact (step_moves hs).inv hinv

/-! ## The end of a run -/

/-- The run of the record is removed: its phase is final, no insert is past its read of
it, and the map has no entry of it. -/
structure Removed (s : Sys) (r : ℕ) : Prop where
  running : s.stage r ≠ .running
  settled : s.stage r ≠ .settled
  inserts : ∀ c call, s.inserts c = some call → call.place = .checked → call.record ≠ r
  byId : ∀ id, s.byId id ≠ some r

theorem checked_set {r c : ℕ} {call : Insert}
    (h : ∀ c call, s.inserts c = some call → call.place = .checked → call.record ≠ r)
    (hcall : call.place = .checked → call.record ≠ r) :
    ∀ c' call', (s.setInsert c call).inserts c' = some call' → call'.place = .checked →
      call'.record ≠ r := by
  intro c' call' hc' hplace
  rcases update_some hc' with ⟨rfl, rfl⟩ | ⟨-, hc'⟩
  · exact hcall hplace
  · exact h c' call' hc' hplace

theorem retain_eq_some {r record : ℕ} {id : Uuid} :
    s.retain runId r id = some record ↔
      s.byId id = some record ∧ runId record ≠ runId r := by
  simp [retain, Option.filter_eq_some_iff]

/-- `remove_run` returns: an insert past its read of the phase would hold the lock. -/
theorem removed_of_retained {r : ℕ} (hinv : s.Inv)
    (hs : s.step runId (.retained r) = some t) : t.Removed r := by
  simp only [step] at hs
  split at hs
  · rename_i h
    obtain ⟨hstage, hlock⟩ := h
    cases hs
    refine ⟨by simp, by simp, fun c call hc hplace hrecord => ?_, fun id hid => ?_⟩
    · have hheld := hinv.locks c call hc (by rw [hplace]; rfl)
      rw [hlock] at hheld
      cases hheld
    · exact (retain_eq_some.mp hid).2 rfl
  · cases hs

theorem Moves.removed {r : ℕ} (h : Moves runId s s') (hinv : s.Inv) (hr : s.Removed r) :
    s'.Removed r := by
  have hgone := hinv.phases r hr.running hr.settled
  obtain ⟨hrunning, hsettled, hinserts, hbyId⟩ := hr
  cases h with
  | started => exact ⟨hrunning, hsettled, hinserts, hbyId⟩
  | entered hnone =>
      exact ⟨hrunning, hsettled, checked_set hinserts (by simp), hbyId⟩
  | locked hc hplace hlock =>
      exact ⟨hrunning, hsettled, checked_set hinserts (by simp), hbyId⟩
  | refused hc hplace =>
      exact ⟨hrunning, hsettled, checked_set hinserts (by simp), hbyId⟩
  | checked hc hplace hlive =>
      refine ⟨hrunning, hsettled, checked_set hinserts fun _ => ?_, hbyId⟩
      -- the phase it has read is not the one of the removed run
      rintro rfl
      exact hlive hgone
  | inserted hc hplace =>
      rename_i c call
      refine ⟨hrunning, hsettled, checked_set hinserts (by simp), fun id hid => ?_⟩
      rcases update_some hid with ⟨rfl, hrecord⟩ | ⟨-, hid⟩
      · exact hinserts c call hc hplace hrecord.symm
      · exact hbyId id hid
  | told hc hplace =>
      exact ⟨hrunning, hsettled, checked_set hinserts (by simp), hbyId⟩
  | subscribed => exact ⟨hrunning, hsettled, hinserts, hbyId⟩
  | waits hf hnone => exact ⟨hrunning, hsettled, hinserts, hbyId⟩
  | woken hf => exact ⟨hrunning, hsettled, hinserts, hbyId⟩
  | found hf hplace => exact ⟨hrunning, hsettled, hinserts, hbyId⟩
  | returned hstage =>
      rename_i r'
      have hne : r ≠ r' := by
        rintro rfl
        exact hrunning hstage
      exact ⟨by simpa [setPhase, hne] using hrunning, by simpa [setPhase, hne] using hsettled,
        hinserts, hbyId⟩
  | gone hphase hstage hstage' =>
      rename_i r' phase stage
      by_cases heq : r = r'
      · subst heq
        exact ⟨by simpa [setPhase] using hstage, by simpa [setPhase] using hstage', hinserts,
          hbyId⟩
      · exact ⟨by simpa [setPhase, heq] using hrunning,
          by simpa [setPhase, heq] using hsettled, hinserts, hbyId⟩
  | retained hstage hlock =>
      rename_i r'
      refine ⟨?_, ?_, hinserts, fun id hid => hbyId id (retain_eq_some.mp hid).1⟩
      · by_cases heq : r = r' <;> simp [heq, hrunning]
      · by_cases heq : r = r' <;> simp [heq, hsettled]

theorem removed_run {r : ℕ} {es : List Event} : ∀ {s s' : Sys}, s.Inv → s.Removed r →
    (machine runId).runFrom s es = some s' → s'.Removed r := by
  induction es with
  | nil =>
      intro s s' _ hr hrun
      cases hrun
      exact hr
  | cons e es ih =>
      intro s s' hinv hr hrun
      obtain ⟨u, hs, hrest⟩ := Option.bind_eq_some_iff.mp hrun
      exact ih ((step_moves hs).inv hinv) ((step_moves hs).removed hinv hr) hrest

end Sys

/-! ## The results -/

/-- Once `remove_run` has returned, no entry is of its run and none of its record comes
back; and a find that waits with no unseen change is one whose instance is not in the
map, or is inserted with the change not told yet. -/
theorem never_kept_nor_missed (runId : ℕ → Uuid) :
    (∀ s t u r es, (machine runId).Reachable s → s.step runId (.retained r) = some t →
      (machine runId).runFrom t es = some u →
        (∀ id record, t.byId id = some record → runId record ≠ runId r) ∧
          ∀ id, u.byId id ≠ some r) ∧
      ∀ s f call, (machine runId).Reachable s → s.finds f = some call →
        call.place = .waiting → call.seen = s.generation →
          s.byId call.id = none ∨ s.Untold call.id := by
  refine ⟨fun s t u r es hreach hs hrun => ⟨fun id record hid => ?_, ?_⟩,
    fun s f call hreach => (Sys.reachable_inv hreach).sees f call⟩
  · simp only [Sys.step] at hs
    split at hs <;> cases hs
    exact (Sys.retain_eq_some.mp hid).2
  · have hinv := Sys.reachable_inv hreach
    have hremoved := Sys.removed_of_retained hinv hs
    exact (Sys.removed_run ((Sys.step_moves hs).inv hinv) hremoved hrun).byId

/-- The run 0 is dropped between the two locks of an insert, while a find waits for its
instance. -/
def droppedRun : List Event :=
  [.started, .find 0 5, .findStep 0, .findStep 0, .insert 0 5 0, .insertStep 0,
    .dropping 0, .insertStep 0]

/-- Another insert of the run comes after its end. -/
def lateRun : List Event := [.insert 1 5 0, .insertStep 1, .insertStep 1]

theorem never_kept_nor_missed_dropped :
    ∃ s t u, (machine (BitVec.ofNat 128)).Reachable s ∧
      s.step (BitVec.ofNat 128) (.retained 0) = some t ∧
      (machine (BitVec.ofNat 128)).runFrom t lateRun = some u ∧
      u.inserts 1 = some ⟨5, 0, .ended false⟩ ∧ (∀ id, u.byId id ≠ some 0) ∧
      s.finds 0 = some ⟨5, s.generation, .waiting⟩ ∧ (s.byId 5 = none ∨ s.Untold 5) := by
  obtain ⟨s, hrun⟩ : ∃ s, (machine (BitVec.ofNat 128)).run droppedRun = some s := ⟨_, rfl⟩
  have hreach := Machine.reachable_of_run droppedRun hrun
  have hfind : s.finds 0 = some ⟨5, s.generation, .waiting⟩ := by
    cases hrun
    rfl
  obtain ⟨t, u, hs, hlate, hended⟩ : ∃ t u, s.step (BitVec.ofNat 128) (.retained 0) = some t ∧
      (machine (BitVec.ofNat 128)).runFrom t lateRun = some u ∧
      u.inserts 1 = some ⟨5, 0, .ended false⟩ := by
    cases hrun
    exact ⟨_, _, rfl, rfl, rfl⟩
  obtain ⟨hkept, hmissed⟩ := never_kept_nor_missed (BitVec.ofNat 128)
  exact ⟨s, t, u, hreach, hs, hlate, hended, (hkept s t u 0 lateRun hreach hs hlate).2, hfind,
    hmissed s 0 _ hreach hfind rfl rfl⟩

/-- The find of 5 waits, and the insert of 5 has let go of the map. -/
def untoldRun : List Event :=
  [.started, .find 0 5, .findStep 0, .findStep 0, .insert 0 5 0, .insertStep 0,
    .insertStep 0, .insertStep 0]

/-- Between the release of the map and the notice a find waits for an instance that is
there. -/
theorem waits_before_the_notice :
    ¬ ∀ s f call, (machine (BitVec.ofNat 128)).Reachable s → s.finds f = some call →
      call.place = .waiting → call.seen = s.generation → s.byId call.id = none := by
  intro hnone
  obtain ⟨s, hrun⟩ : ∃ s, (machine (BitVec.ofNat 128)).run untoldRun = some s := ⟨_, rfl⟩
  have hfind : s.finds 0 = some ⟨5, s.generation, .waiting⟩ := by
    cases hrun
    rfl
  have hheld : s.byId 5 = some 0 := by
    cases hrun
    rfl
  have hfree := hnone s 0 _ (Machine.reachable_of_run untoldRun hrun) hfind rfl rfl
  cases hheld.symm.trans hfree

end RunnerKit.Toolkit.Instances
