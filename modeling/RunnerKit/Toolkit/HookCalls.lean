import RunnerKit.Toolkit.Hooks

/-!
# One hook call for each instance

A hook is claimed once, whoever comes first: the report of its end, `call_all`, or a
late report. `call_all` reads the instances behind the change of the phase, so a report
that it does not see reads the new phase itself.
-/

namespace RunnerKit.Toolkit.Hooks

open RunnerKit.Book RunnerKit.Jobs RunnerKit.Lib

/-! ## The record -/

namespace RunRecord

/-- Whether the hook of a reported instance was claimed. -/
def status (record : RunRecord) (id : Uuid) : Option Bool :=
  (record.find id).map InstanceInfo.hooked

variable {record record' : RunRecord} {id : Uuid}

theorem find_instanceCreated (record : RunRecord) (id : Uuid) (node : String) (j : Uuid) :
    (record.instanceCreated id node).find j =
      if j = id then some ⟨id, node, false⟩ else record.find j := by
  unfold RunRecord.find instanceCreated
  rw [List.find?_append, List.find?_filter]
  by_cases hj : j = id
  · subst hj
    rw [if_pos rfl, List.find?_eq_none.mpr]
    · simp
    · intro info _
      simp
  · have hsame : ∀ info : InstanceInfo,
        decide (decide (info.id ≠ id) = true ∧ decide (info.id = j) = true) =
          decide (info.id = j) := by
      intro info
      by_cases hinfo : info.id = j
      · simp [hinfo, hj]
      · simp [hinfo]
    have hnot : decide (id = j) = false := decide_eq_false fun h => hj h.symm
    rw [if_neg hj, funext hsame]
    simp [hnot]

theorem status_instanceCreated (record : RunRecord) (id : Uuid) (node : String) (j : Uuid) :
    (record.instanceCreated id node).status j =
      if j = id then some false else record.status j := by
  unfold status
  rw [find_instanceCreated]
  split <;> rfl

theorem status_markHooked (record : RunRecord) (id : Uuid) {instances : List InstanceInfo}
    (h : instances = record.instances.map (markHooked id)) (hid : record.status id ≠ none)
    (running : List Uuid) (j : Uuid) :
    ({ record with instances := instances, runningHooks := running } : RunRecord).status j =
      if j = id then some true else record.status j := by
  have hfind : ({ record with instances := instances, runningHooks := running } :
      RunRecord).find j = (record.find j).map (markHooked id) := by
    unfold RunRecord.find
    rw [h, List.find?_map]
    have hsame : ((fun info : InstanceInfo => decide (info.id = j)) ∘ markHooked id) =
        fun info => decide (info.id = j) := by
      funext info
      unfold markHooked
      dsimp only [Function.comp]
      split <;> rfl
    rw [hsame]
  unfold status at hid ⊢
  rw [hfind]
  cases hj : record.find j with
  | none =>
      have hne : j ≠ id := by
        rintro rfl
        rw [hj] at hid
        exact hid rfl
      rw [if_neg hne]
      rfl
  | some info =>
      have hinfo : info.id = j := by
        have h := List.find?_some hj
        simpa using h
      simp only [Option.map_some, markHooked, hinfo]
      split <;> rfl

/-- What a claim of a hook does. -/
theorem claimHook_some {ended : InstanceEnded} (h : record.claimHook id = some (ended, record')) :
    ended.instanceId = id ∧ record.status id = some false ∧ record'.phase = record.phase ∧
      record'.runningHooks = record.runningHooks ++ [id] ∧
      ∀ j, record'.status j = if j = id then some true else record.status j := by
  unfold claimHook at h
  cases hfind : record.find id with
  | none =>
      rw [hfind] at h
      cases h
  | some info =>
      rw [hfind] at h
      dsimp only at h
      split at h
      · cases h
      · rename_i hhooked
        cases h
        have hstatus : record.status id = some false := by
          rw [status, hfind, Option.map_some, eq_false_of_ne_true hhooked]
        refine ⟨rfl, hstatus, rfl, rfl, fun j => ?_⟩
        exact status_markHooked record id rfl (by simp [hstatus]) _ j

theorem claimHook_none (h : record.claimHook id = none) : record.status id ≠ some false := by
  unfold claimHook at h
  unfold status
  cases hfind : record.find id with
  | none => simp
  | some info =>
      rw [hfind] at h
      dsimp only at h
      split at h
      · rename_i hhooked
        simp [hhooked]
      · cases h

theorem mem_unhookedInstances (h : record.status id = some false) :
    id ∈ record.unhookedInstances := by
  obtain ⟨info, hfind, hhooked⟩ := Option.map_eq_some_iff.mp h
  have hmem := List.mem_of_find?_eq_some hfind
  have hid : info.id = id := by
    have hfound := List.find?_some hfind
    simpa using hfound
  exact List.mem_map.mpr ⟨info, List.mem_filter.mpr ⟨hmem, by simp [hhooked]⟩, hid⟩

theorem status_takeBook (record : RunRecord) : record.takeBook.status = record.status := by
  unfold takeBook
  split <;> rfl

theorem runningHooks_takeBook (record : RunRecord) :
    record.takeBook.runningHooks = record.runningHooks := by
  unfold takeBook
  split <;> rfl

theorem phase_takeBook (record : RunRecord) : record.takeBook.phase = record.phase := by
  unfold takeBook
  split <;> rfl

end RunRecord

/-! ## The invariant -/

/-- The phase of the run has changed. -/
def Run.pastPhase : Run → Bool
  | .phased _ | .calling _ _ => true
  | run => run.called

/-- `call_all` has read the instances. -/
def Run.pastSnapshot : Run → Bool
  | .calling _ _ => true
  | run => run.called

def Run.pending : Run → List Uuid
  | .calling _ pending => pending
  | _ => []

/-- An instance with no hook call is one that its report or `call_all` will see. -/
def Sys.Covered (s : Sys) (run : Run) : Prop :=
  ∀ id, s.record.status id = some false →
    s.reports id = .recorded ∨ s.reports id = .late ∨ id ∈ run.pending

def Hook.isOver : Hook → Bool
  | .returned | .removed | .ended => true
  | _ => false

def Hook.isRunning : Hook → Bool
  | .running | .returned => true
  | _ => false

structure Inv (s : Sys) : Prop where
  reported : ∀ id, s.reports id = .none ↔ s.record.status id = none
  claims : ∀ id, s.log.countP (isClaim id) = if s.record.status id = some true then 1 else 0
  hooks : ∀ id, s.hooks id ≠ .none ↔ s.record.status id = some true
  running : ∀ id, id ∈ s.record.runningHooks ↔ (s.hooks id).isRunning = true
  returned : ∀ id, (s.hooks id).isOver = true → .returned id ∈ s.log
  phase : s.run.pastPhase = true → s.record.phase ≠ .live
  covered : s.run.pastSnapshot = true → s.Covered s.run
  parked : s.run = .parked false → ∃ id, (s.hooks id).isAlive = true
  behind : AllReturned (upto isChecked s.log)
  draining : s.run = .draining → .checked ∈ s.log
  settled : Always SettledAfter s.log

theorem inv_init : Inv .init := by
  refine ⟨?_, ?_, ?_, ?_, ?_, ?_, ?_, ?_, ?_, ?_, always_nil⟩
  · exact fun id => ⟨fun _ => rfl, fun _ => rfl⟩
  · exact fun id => rfl
  · exact fun id => ⟨fun h => absurd rfl h, fun h => (by cases h)⟩
  · exact fun id => ⟨fun h => (by cases h), fun h => (by cases h)⟩
  · exact fun id h => by cases h
  · exact fun h => by cases h
  · exact fun h => by cases h
  · exact fun h => by cases h
  · exact fun ended h => by cases h
  · exact fun h => by cases h

section Log

variable {log : List Obs} {obs : Obs}

theorem upto_other (h : isChecked obs = false) :
    upto isChecked (log ++ [obs]) = upto isChecked log := by
  rw [upto_snoc, h]
  rfl

theorem settledAfter_other (h : obs ≠ .settled) : SettledAfter log obs :=
  fun heq => absurd heq h

end Log

namespace Inv

variable {s : Sys}

/-! ### A claim -/

theorem claim (inv : Inv s) {id : Uuid} {ended : InstanceEnded} {record : RunRecord}
    (h : s.record.claimHook id = some (ended, record)) :
    Inv (Sys.observe (Sys.setHook { s with record := record } id .running) (.claimed ended)) := by
  obtain ⟨hid, hfalse, hphase, hrunning, hstatus⟩ := RunRecord.claimHook_some h
  have hnone : s.hooks id = .none := by
    by_contra hne
    rw [(inv.hooks id).mp hne] at hfalse
    cases hfalse
  have hhook : ∀ j, j ≠ id → Function.update s.hooks id Hook.running j = s.hooks j :=
    fun j hj => Function.update_of_ne hj _ _
  refine ⟨?_, ?_, ?_, ?_, ?_, ?_, ?_, ?_, ?_, ?_, ?_⟩
  · intro j
    change s.reports j = .none ↔ record.status j = none
    rw [hstatus j, inv.reported j]
    split
    · rename_i hj
      rw [hj, hfalse]
      simp
    · exact Iff.rfl
  · intro j
    change (s.log ++ [Obs.claimed ended]).countP (isClaim j) =
      if record.status j = some true then 1 else 0
    rw [List.countP_append, inv.claims j, hstatus j]
    by_cases hj : j = id
    · subst hj
      simp [hfalse, isClaim, hid]
    · have hne : ended.instanceId ≠ j := fun heq => hj (heq.symm.trans hid)
      simp [hj, isClaim, hne]
  · intro j
    change Function.update s.hooks id .running j ≠ .none ↔ record.status j = some true
    rw [hstatus j]
    by_cases hj : j = id
    · subst hj
      simp
    · rw [hhook j hj, if_neg hj]
      exact inv.hooks j
  · intro j
    change j ∈ record.runningHooks ↔ (Function.update s.hooks id .running j).isRunning = true
    rw [hrunning, List.mem_append, inv.running j]
    by_cases hj : j = id
    · subst hj
      simp [Hook.isRunning]
    · rw [hhook j hj]
      simp [hj]
  · intro j hj
    change (Function.update s.hooks id .running j).isOver = true at hj
    by_cases hji : j = id
    · subst hji
      rw [Function.update_self] at hj
      cases hj
    · rw [hhook j hji] at hj
      exact List.mem_append_left _ (inv.returned j hj)
  · intro hpast
    change record.phase ≠ .live
    rw [hphase]
    exact inv.phase hpast
  · intro hpast j hj
    change record.status j = some false at hj
    rw [hstatus j] at hj
    split at hj
    · cases hj
    · exact inv.covered hpast j hj
  · intro hparked
    obtain ⟨j, hj⟩ := inv.parked hparked
    refine ⟨j, ?_⟩
    change (Function.update s.hooks id .running j).isAlive = true
    by_cases hji : j = id
    · subst hji
      rw [Function.update_self]
      rfl
    · rw [hhook j hji]
      exact hj
  · change AllReturned (upto isChecked (s.log ++ [.claimed ended]))
    rw [upto_other rfl]
    exact inv.behind
  · exact fun hdraining => List.mem_append_left _ (inv.draining hdraining)
  · exact always_snoc.mpr ⟨inv.settled, settledAfter_other Obs.noConfusion⟩

theorem callOnce (inv : Inv s) (id : Uuid) : Inv (s.callOnce true id) := by
  unfold Sys.callOnce
  rw [if_pos rfl]
  split
  · exact inv
  · rename_i ended record h
    exact inv.claim h

end Inv

/-- What `call_once` leaves alone, and that the hook is claimed behind it. -/
theorem callOnce_frame (s : Sys) (id : Uuid) :
    (s.callOnce true id).run = s.run ∧ (s.callOnce true id).reports = s.reports ∧
      (s.callOnce true id).record.phase = s.record.phase ∧
      (s.callOnce true id).record.status id ≠ some false ∧
      ∀ j, (s.callOnce true id).record.status j = some false →
        s.record.status j = some false := by
  unfold Sys.callOnce
  rw [if_pos rfl]
  split
  · rename_i h
    exact ⟨rfl, rfl, rfl, RunRecord.claimHook_none h, fun j hj => hj⟩
  · rename_i ended record h
    obtain ⟨-, -, hphase, -, hstatus⟩ := RunRecord.claimHook_some h
    refine ⟨rfl, rfl, hphase, ?_, ?_⟩
    · change record.status id ≠ some false
      rw [hstatus id, if_pos rfl]
      simp
    · intro j hj
      change record.status j = some false at hj
      rw [hstatus j] at hj
      split at hj
      · cases hj
      · exact hj

/-! ### The other steps -/

namespace Inv

variable {s : Sys}

/-- The run goes on, with a record that holds the same hooks. -/
theorem goesOn (inv : Inv s) {record : RunRecord} {run : Run} (expected : Bool)
    (hstatus : record.status = s.record.status)
    (hrunning : record.runningHooks = s.record.runningHooks)
    (hphase : run.pastPhase = true → record.phase ≠ .live)
    (hcovered : run.pastSnapshot = true → s.Covered run)
    (hparked : run = .parked false → ∃ id, (s.hooks id).isAlive = true)
    (hdraining : run = .draining → .checked ∈ s.log) :
    Inv { s with record := record, observationsExpected := expected, run := run } := by
  refine ⟨?_, ?_, ?_, ?_, inv.returned, hphase, ?_, hparked, inv.behind, hdraining,
    inv.settled⟩
  · intro id
    rw [hstatus]
    exact inv.reported id
  · intro id
    rw [hstatus]
    exact inv.claims id
  · intro id
    rw [hstatus]
    exact inv.hooks id
  · intro id
    rw [hrunning]
    exact inv.running id
  · intro hpast id hid
    rw [hstatus] at hid
    exact hcovered hpast id hid

/-- A report ends or goes on, and nothing is hooked less. -/
theorem setReport (inv : Inv s) {id : Uuid} {report : Report} (hnone : report ≠ .none)
    (hid : s.reports id ≠ .none)
    (hcovered : s.run.pastSnapshot = true → s.record.status id = some false →
      report = .recorded ∨ report = .late ∨ id ∈ s.run.pending) :
    Inv (s.setReport id report) := by
  have hother : ∀ j, j ≠ id → (s.setReport id report).reports j = s.reports j :=
    fun j hj => Function.update_of_ne hj _ _
  have hself : (s.setReport id report).reports id = report := Function.update_self _ _ _
  refine ⟨?_, inv.claims, inv.hooks, inv.running, inv.returned, inv.phase, ?_, inv.parked,
    inv.behind, inv.draining, inv.settled⟩
  · intro j
    by_cases hj : j = id
    · subst hj
      rw [hself]
      have hreported := inv.reported j
      constructor
      · exact fun h => absurd h hnone
      · exact fun h => absurd (hreported.mpr h) hid
    · rw [hother j hj]
      exact inv.reported j
  · intro hpast j hj
    by_cases hji : j = id
    · subst hji
      rw [hself]
      exact hcovered hpast hj
    · rw [hother j hji]
      exact inv.covered hpast j hj

theorem created (inv : Inv s) {id : Uuid} (node : String) (hid : s.reports id = .none) :
    Inv ({ s with record := s.record.instanceCreated id node }.setReport id .recorded) := by
  have hstatus := RunRecord.status_instanceCreated s.record id node
  have hnone : s.record.status id = none := (inv.reported id).mp hid
  have htrue : ∀ j, (s.record.instanceCreated id node).status j = some true ↔
      s.record.status j = some true := by
    intro j
    rw [hstatus j]
    split
    · rename_i hj
      rw [hj, hnone]
      simp
    · exact Iff.rfl
  have hother : ∀ j, j ≠ id → Function.update s.reports id Report.recorded j = s.reports j :=
    fun j hj => Function.update_of_ne hj _ _
  refine ⟨?_, ?_, ?_, inv.running, inv.returned, inv.phase, ?_, inv.parked, inv.behind,
    inv.draining, inv.settled⟩
  · intro j
    change Function.update s.reports id .recorded j = .none ↔
      (s.record.instanceCreated id node).status j = none
    rw [hstatus j]
    by_cases hj : j = id
    · subst hj
      simp
    · rw [hother j hj, if_neg hj]
      exact inv.reported j
  · intro j
    change s.log.countP (isClaim j) =
      if (s.record.instanceCreated id node).status j = some true then 1 else 0
    rw [inv.claims j]
    simp only [htrue j]
  · intro j
    exact (inv.hooks j).trans (htrue j).symm
  · intro hpast j hj
    change (s.record.instanceCreated id node).status j = some false at hj
    change Function.update s.reports id .recorded j = .recorded ∨
      Function.update s.reports id .recorded j = .late ∨ j ∈ s.run.pending
    by_cases hji : j = id
    · subst hji
      exact Or.inl (Function.update_self _ _ _)
    · rw [hstatus j, if_neg hji] at hj
      rw [hother j hji]
      exact inv.covered hpast j hj

/-- The task of a hook goes on. -/
theorem setHook (inv : Inv s) {id : Uuid} {hook : Hook} {record : RunRecord} {log : List Obs}
    {run : Run} (hold : s.hooks id ≠ .none) (hnew : hook ≠ .none)
    (hrecord : record.status = s.record.status) (hphase : record.phase = s.record.phase)
    (hrunning : ∀ j, j ∈ record.runningHooks ↔
      (Function.update s.hooks id hook j).isRunning = true)
    (hover : hook.isOver = true → .returned id ∈ log) (hlog : ∀ obs ∈ s.log, obs ∈ log)
    (hclaims : ∀ j, log.countP (isClaim j) = s.log.countP (isClaim j))
    (hbehind : upto isChecked log = upto isChecked s.log) (hsettled : Always SettledAfter log)
    (hrun : run = s.run ∨ run = s.run.notify)
    (hparked : run = .parked false → hook.isAlive = true) :
    Inv { s with record := record, hooks := Function.update s.hooks id hook, run := run
                 log := log } := by
  have hother : ∀ j, j ≠ id → Function.update s.hooks id hook j = s.hooks j :=
    fun j hj => Function.update_of_ne hj _ _
  have hpastPhase : run.pastPhase = s.run.pastPhase := by
    rcases hrun with rfl | rfl
    · rfl
    · cases s.run <;> rfl
  have hpastSnapshot : run.pastSnapshot = s.run.pastSnapshot := by
    rcases hrun with rfl | rfl
    · rfl
    · cases s.run <;> rfl
  have hpending : run.pending = s.run.pending := by
    rcases hrun with rfl | rfl
    · rfl
    · cases s.run <;> rfl
  have hdraining : run = .draining → s.run = .draining := by
    rcases hrun with rfl | rfl
    · exact fun h => h
    · cases s.run <;> simp [Run.notify]
  refine ⟨?_, ?_, ?_, hrunning, ?_, ?_, ?_, ?_, ?_, ?_, hsettled⟩
  · intro j
    rw [hrecord]
    exact inv.reported j
  · intro j
    rw [hrecord, hclaims j]
    exact inv.claims j
  · intro j
    rw [hrecord]
    change Function.update s.hooks id hook j ≠ .none ↔ _
    by_cases hj : j = id
    · subst hj
      rw [Function.update_self, ← inv.hooks j]
      exact ⟨fun _ => hold, fun _ => hnew⟩
    · rw [hother j hj]
      exact inv.hooks j
  · intro j hj
    change (Function.update s.hooks id hook j).isOver = true at hj
    by_cases hji : j = id
    · subst hji
      rw [Function.update_self] at hj
      exact hover hj
    · rw [hother j hji] at hj
      exact hlog _ (inv.returned j hj)
  · rw [hpastPhase, hphase]
    exact inv.phase
  · rw [hpastSnapshot]
    intro hpast j hj
    rw [hrecord] at hj
    rw [hpending]
    exact inv.covered hpast j hj
  · intro h
    refine ⟨id, ?_⟩
    change (Function.update s.hooks id hook id).isAlive = true
    rw [Function.update_self]
    exact hparked h
  · rw [hbehind]
    exact inv.behind
  · exact fun h => hlog _ (inv.draining (hdraining h))

end Inv

/-! ### A step -/

namespace Inv

variable {s t : Sys}

theorem hookReturns (inv : Inv s) {id : Uuid} (h : s.hooks id = .running) :
    Inv ((s.setHook id .returned).observe (.returned id)) := by
  refine inv.setHook (by rw [h]; decide) (by decide) rfl rfl ?_ ?_ ?_ ?_ ?_ ?_ (Or.inl rfl)
    fun _ => rfl
  · intro j
    refine (inv.running j).trans ?_
    by_cases hj : j = id
    · subst hj
      rw [Function.update_self, h]
      exact Iff.rfl
    · rw [Function.update_of_ne hj]
  · exact fun _ => List.mem_append_right _ (List.mem_singleton_self _)
  · exact fun obs hobs => List.mem_append_left _ hobs
  · intro j
    rw [List.countP_append]
    rfl
  · exact upto_other rfl
  · exact always_snoc.mpr ⟨inv.settled, settledAfter_other Obs.noConfusion⟩

theorem hookRemoved (inv : Inv s) {id : Uuid} (h : s.hooks id = .returned) :
    Inv ({ s with record := s.record.removeHook id }.setHook id .removed) := by
  refine inv.setHook (by rw [h]; decide) (by decide) rfl rfl ?_ ?_ ?_ ?_ rfl inv.settled
    (Or.inl rfl) fun _ => rfl
  · intro j
    have hmem : j ∈ (s.record.removeHook id).runningHooks ↔
        j ∈ s.record.runningHooks ∧ j ≠ id := by
      unfold RunRecord.removeHook
      simp
    rw [hmem, inv.running j]
    by_cases hj : j = id
    · subst hj
      simp [Hook.isRunning]
    · rw [Function.update_of_ne hj]
      simp [hj]
  · exact fun _ => inv.returned id (by rw [h]; rfl)
  · exact fun obs hobs => hobs
  · exact fun j => rfl

theorem hookNotifies (inv : Inv s) {id : Uuid} (h : s.hooks id = .removed) :
    Inv ({ s with run := s.run.notify }.setHook id .ended) := by
  refine inv.setHook (by rw [h]; decide) (by decide) rfl rfl ?_ ?_ ?_ ?_ rfl inv.settled
    (Or.inr rfl) ?_
  · intro j
    rw [inv.running j]
    by_cases hj : j = id
    · subst hj
      rw [Function.update_self, h]
      exact Iff.rfl
    · rw [Function.update_of_ne hj]
  · exact fun _ => inv.returned id (by rw [h]; rfl)
  · exact fun obs hobs => hobs
  · exact fun j => rfl
  · intro hparked
    cases hrun : s.run <;> rw [hrun] at hparked <;> cases hparked

theorem besideStep (inv : Inv s) {e : Event} (hs : s.besideStep true e = some t) : Inv t := by
  cases e with
  | book agents =>
      cases hs
      exact inv.goesOn s.observationsExpected rfl rfl inv.phase inv.covered inv.parked
        inv.draining
  | created id node =>
      simp only [Sys.besideStep] at hs
      split at hs <;> cases hs
      rename_i hid
      exact inv.created node hid
  | readsPhase id =>
      simp only [Sys.besideStep] at hs
      split at hs <;> cases hs
      rename_i hid
      refine inv.setReport ?_ (by rw [hid]; decide) ?_
      · split <;> decide
      · -- the report comes behind the snapshot, so it reads the new phase
        intro hpast _
        have hlive : s.record.phase ≠ .live := by
          apply inv.phase
          cases hrun : s.run <;> rw [hrun] at hpast <;> first | rfl | cases hpast
        rw [if_pos hlive]
        exact Or.inr (Or.inl rfl)
  | callsLate id =>
      simp only [Sys.besideStep] at hs
      split at hs <;> cases hs
      rename_i hid
      obtain ⟨-, hreports, -, hclaimed, -⟩ := callOnce_frame s id
      refine (inv.callOnce id).setReport (by decide) ?_ ?_
      · rw [hreports, hid]
        decide
      · exact fun _ hfalse => absurd hfalse hclaimed
  | eventHandled id =>
      cases hs
      exact inv.callOnce id
  | endObservations =>
      cases hs
      exact ⟨inv.reported, inv.claims, inv.hooks, inv.running, inv.returned, inv.phase,
        inv.covered, inv.parked, inv.behind, inv.draining, inv.settled⟩
  | hookReturns id =>
      simp only [Sys.besideStep] at hs
      split at hs <;> cases hs
      rename_i hid
      exact inv.hookReturns hid
  | hookRemoved id =>
      simp only [Sys.besideStep] at hs
      split at hs <;> cases hs
      rename_i hid
      exact inv.hookRemoved hid
  | hookNotifies id =>
      simp only [Sys.besideStep] at hs
      split at hs <;> cases hs
      rename_i hid
      exact inv.hookNotifies hid
  | _ => cases hs

/-- A hook that is claimed from the list of `call_all`. -/
theorem calls (inv : Inv s) {aborting : Bool} {pending : List Uuid}
    (hrun : s.run = .calling aborting pending) (id : Uuid) :
    Inv { s.callOnce true id with run := .calling aborting (pending.erase id) } := by
  obtain ⟨hsame, hreports, -, hclaimed, hfewer⟩ := callOnce_frame s id
  have hphase : s.record.phase ≠ .live := inv.phase (by rw [hrun]; rfl)
  have hcalled := inv.callOnce id
  refine hcalled.goesOn (s.callOnce true id).observationsExpected rfl rfl ?_ ?_ ?_ ?_
  · exact fun _ => hcalled.phase (by rw [hsame, hrun]; rfl)
  · intro _ j hj
    have hne : j ≠ id := fun heq => hclaimed (heq ▸ hj)
    rcases inv.covered (by rw [hrun]; rfl) j (hfewer j hj) with h | h | h
    · exact Or.inl (hreports ▸ h)
    · exact Or.inr (Or.inl (hreports ▸ h))
    · rw [hrun] at h
      exact Or.inr (Or.inr ((List.mem_erase_of_ne hne).mpr h))
  · exact fun h => by cases h
  · exact fun h => by cases h

end Inv

namespace Inv

variable {s t : Sys}

/-- Behind `call_all` nothing is pending. -/
theorem covered_any (inv : Inv s) (hpast : s.run.pastSnapshot = true)
    (hpending : s.run.pending = []) (run : Run) : s.Covered run := by
  intro id hid
  rcases inv.covered hpast id hid with h | h | h
  · exact Or.inl h
  · exact Or.inr (Or.inl h)
  · rw [hpending] at h
    cases h

theorem checked (inv : Inv s) {notified : Bool} (hrun : s.run = .checking notified)
    (hempty : s.record.runningHooks = []) :
    Inv (({ s with run := .draining } : Sys).observe .checked) := by
  have hcovered : s.Covered .draining :=
    inv.covered_any (by rw [hrun]; rfl) (by rw [hrun]; rfl) _
  refine ⟨inv.reported, ?_, inv.hooks, inv.running, ?_, ?_, fun _ => hcovered, ?_, ?_, ?_, ?_⟩
  · intro id
    refine Eq.trans ?_ (inv.claims id)
    exact List.countP_append
  · exact fun id hid => List.mem_append_left _ (inv.returned id hid)
  · exact fun _ => inv.phase (by rw [hrun]; rfl)
  · exact fun h => by cases h
  · change AllReturned (upto isChecked (s.log ++ [Obs.checked]))
    rw [upto_snoc]
    intro ended hmem
    have hclaim : Obs.claimed ended ∈ s.log := by
      rcases List.mem_append.mp hmem with h | h
      · exact h
      · cases List.mem_singleton.mp h
    -- the hook was claimed and runs no more
    have hhook : s.record.status ended.instanceId = some true := by
      by_contra hne
      have hcount := inv.claims ended.instanceId
      rw [if_neg hne, List.countP_eq_zero] at hcount
      exact hcount _ hclaim (decide_eq_true rfl)
    have hnone := (inv.hooks ended.instanceId).mpr hhook
    have hidle : ¬ (s.hooks ended.instanceId).isRunning = true := by
      rw [← inv.running ended.instanceId, hempty]
      exact List.not_mem_nil
    refine List.mem_append_left _ (inv.returned _ ?_)
    cases hstate : s.hooks ended.instanceId with
    | none => exact absurd hstate hnone
    | running => exact absurd (by rw [hstate]; rfl) hidle
    | returned => rfl
    | removed => rfl
    | ended => rfl
  · exact fun _ => List.mem_append_right _ (List.mem_singleton_self _)
  · exact always_snoc.mpr ⟨inv.settled, settledAfter_other Obs.noConfusion⟩

theorem drained (inv : Inv s) (hrun : s.run = .draining) :
    Inv (({ s with run := .settled } : Sys).observe .settled) := by
  have hcovered : s.Covered .settled :=
    inv.covered_any (by rw [hrun]; rfl) (by rw [hrun]; rfl) _
  have hupto : upto isChecked (s.log ++ [Obs.settled]) = upto isChecked s.log := upto_other rfl
  refine ⟨inv.reported, ?_, inv.hooks, inv.running, ?_, ?_, fun _ => hcovered, ?_, ?_, ?_, ?_⟩
  · intro id
    refine Eq.trans ?_ (inv.claims id)
    exact List.countP_append
  · exact fun id hid => List.mem_append_left _ (inv.returned id hid)
  · exact fun _ => inv.phase (by rw [hrun]; rfl)
  · exact fun h => by cases h
  · exact hupto ▸ inv.behind
  · exact fun h => by cases h
  · exact always_snoc.mpr ⟨inv.settled, fun _ => ⟨inv.draining hrun, inv.behind⟩⟩

/-- The run goes on to a place before the change of its phase. -/
theorem early (inv : Inv s) (expected : Bool) {run : Run} (hrun : run.pastPhase = false) :
    Inv { s with observationsExpected := expected, run := run } := by
  refine inv.goesOn expected rfl rfl ?_ ?_ ?_ ?_
  · rw [hrun]
    exact fun h => by cases h
  · intro h
    have hpast : run.pastPhase = true := by cases run <;> first | rfl | exact h
    rw [hrun] at hpast
    cases hpast
  · rintro rfl
    cases hrun
  · rintro rfl
    cases hrun

/-- The run goes on behind `call_all`. -/
theorem onward (inv : Inv s) {record : RunRecord} {run : Run}
    (hstatus : record.status = s.record.status)
    (hrunning : record.runningHooks = s.record.runningHooks) (hphase : record.phase ≠ .live)
    (hpast : s.run.pastSnapshot = true) (hpending : s.run.pending = [])
    (hparked : run ≠ .parked false) (hdraining : run ≠ .draining) :
    Inv { s with record := record, run := run } :=
  inv.goesOn s.observationsExpected hstatus hrunning (fun _ => hphase)
    (fun _ => inv.covered_any hpast hpending _) (fun h => absurd h hparked)
    fun h => absurd h hdraining

theorem looks (inv : Inv s) :
    Inv { s with
      run := if s.observationsExpected && !s.observationsOver then .observing
        else .returned } := by
  refine inv.early s.observationsExpected ?_
  split <;> rfl

/-- The phase is set, the instances are not read yet. -/
theorem setsPhase (inv : Inv s) {phase : Phase} (hphase : phase ≠ .live) (aborting : Bool) :
    Inv { s.setPhase phase with run := .phased aborting } :=
  inv.goesOn s.observationsExpected rfl rfl (fun _ => hphase) (fun h => by cases h)
    (fun h => by cases h) fun h => by cases h

theorem snapshot (inv : Inv s) {aborting : Bool} (hrun : s.run = .phased aborting) :
    Inv { s with run := .calling aborting s.record.unhookedInstances } := by
  refine inv.goesOn s.observationsExpected rfl rfl ?_ ?_ (fun h => by cases h)
    fun h => by cases h
  · exact fun _ => inv.phase (by rw [hrun]; rfl)
  · exact fun _ id hid => Or.inr (Or.inr (RunRecord.mem_unhookedInstances hid))

/-- `hooks_returned` has found a hook that still runs. -/
theorem parks (inv : Inv s) {notified : Bool} (hrun : s.run = .checking notified)
    (hsome : s.record.runningHooks ≠ []) : Inv { s with run := .parked notified } := by
  refine inv.goesOn s.observationsExpected rfl rfl (fun _ => inv.phase (by rw [hrun]; rfl))
    (fun _ => inv.covered_any (by rw [hrun]; rfl) (by rw [hrun]; rfl) _) ?_ fun h => by cases h
  intro _
  obtain ⟨id, hid⟩ := List.exists_mem_of_ne_nil _ hsome
  refine ⟨id, ?_⟩
  have hrunning := (inv.running id).mp hid
  cases hstate : s.hooks id <;> rw [hstate] at hrunning <;> first | rfl | cases hrunning

theorem takesBook (inv : Inv s) {run : Run} (hpast : s.run.pastSnapshot = true)
    (hphase : s.record.phase ≠ .live) (hpending : s.run.pending = [])
    (hparked : run ≠ .parked false) (hdraining : run ≠ .draining) :
    Inv { s with record := s.record.takeBook, run := run } := by
  refine inv.onward (RunRecord.status_takeBook _) (RunRecord.runningHooks_takeBook _) ?_ hpast
    hpending hparked hdraining
  rw [RunRecord.phase_takeBook]
  exact hphase

theorem runStep (inv : Inv s) {e : Event} (hs : s.runStep true s.run e = some t) : Inv t := by
  have hphase := inv.phase
  unfold Sys.runStep at hs
  split at hs
  case h_1 expected hrun =>
    cases hs
    exact inv.early expected rfl
  case h_2 hrun =>
    cases hs
    exact inv.looks
  case h_3 hrun =>
    split at hs <;> cases hs
    exact inv.early s.observationsExpected rfl
  case h_4 hrun =>
    cases hs
    exact inv.setsPhase (by decide) false
  case h_5 hrun =>
    cases hs
    exact inv.setsPhase (by decide) true
  case h_6 aborting hrun =>
    cases hs
    exact inv.snapshot hrun
  case h_7 aborting pending id hrun =>
    split at hs <;> cases hs
    exact inv.calls hrun id
  case h_8 aborting pending hrun =>
    split at hs <;> cases hs
    rename_i hpending
    rw [hrun] at hphase
    refine inv.onward rfl rfl (hphase rfl) (by rw [hrun]; rfl) (by rw [hrun]; exact hpending)
      ?_ ?_ <;> cases aborting <;> decide
  case h_9 hrun =>
    cases hs
    rw [hrun] at hphase
    exact inv.onward rfl rfl (hphase rfl) (by rw [hrun]; rfl) (by rw [hrun]; rfl) (by decide)
      (by decide)
  case h_10 notified hrun =>
    split at hs <;> cases hs
    · rename_i hempty
      exact inv.checked hrun hempty
    · rename_i hsome
      exact inv.parks hrun hsome
  case h_11 hrun =>
    cases hs
    rw [hrun] at hphase
    exact inv.onward rfl rfl (hphase rfl) (by rw [hrun]; rfl) (by rw [hrun]; rfl) (by decide)
      (by decide)
  case h_12 hrun =>
    cases hs
    exact inv.drained hrun
  case h_13 hrun =>
    cases hs
    exact inv.onward rfl rfl (fun h => by cases h) (by rw [hrun]; rfl) (by rw [hrun]; rfl)
      (by decide) (by decide)
  case h_14 hrun =>
    cases hs
    rw [hrun] at hphase
    exact inv.takesBook (by rw [hrun]; rfl) (hphase rfl) (by rw [hrun]; rfl) (by decide)
      (by decide)
  case h_15 hrun =>
    cases hs
    rw [hrun] at hphase
    exact inv.takesBook (by rw [hrun]; rfl) (hphase rfl) (by rw [hrun]; rfl) (by decide)
      (by decide)
  case h_16 hrun =>
    cases hs
    exact inv.onward rfl rfl (fun h => by cases h) (by rw [hrun]; rfl) (by rw [hrun]; rfl)
      (by decide) (by decide)
  case h_17 =>
    split at hs <;> cases hs
    exact inv.early s.observationsExpected rfl
  case h_18 => cases hs

theorem step (inv : Inv s) {e : Event} (hs : s.step true e = some t) : Inv t := by
  rcases Option.or_eq_some_iff.mp hs with h | ⟨-, h⟩
  · exact inv.besideStep h
  · exact inv.runStep h

theorem reach (h : (Sys.machine true).Reachable s) : Inv s :=
  h.invariant inv_init fun inv hs => inv.step hs

end Inv

/-! ## Results -/

/-- Each reported instance gets one hook call, claimed by the end of `call_all` or of its
report; `settle` has waited for the calls that it saw; and it waits for a hook that is
still to notify it. -/
theorem one_hook_call {s : Sys} (h : (Sys.machine true).Reachable s) :
    (∀ id, s.log.countP (isClaim id) ≤ 1 ∧
      (0 < s.log.countP (isClaim id) → s.reports id ≠ .none)) ∧
    (s.run.called = true → ∀ id, s.reports id = .ended → s.log.countP (isClaim id) = 1) ∧
    Always SettledAfter s.log ∧
    (s.run = .parked false → ∃ id, (s.hooks id).isAlive = true ∧
      0 < s.log.countP (isClaim id)) := by
  have inv := Inv.reach h
  refine ⟨fun id => ⟨?_, ?_⟩, ?_, inv.settled, ?_⟩
  · rw [inv.claims id]
    split <;> decide
  · intro hpos hnone
    rw [inv.claims id, (inv.reported id).mp hnone] at hpos
    cases hpos
  · intro hcalled id hended
    have hpast : s.run.pastSnapshot = true := by
      cases hrun : s.run <;> rw [hrun] at hcalled <;> first | rfl | cases hcalled
    have hpending : s.run.pending = [] := by
      cases hrun : s.run <;> rw [hrun] at hcalled <;> first | rfl | cases hcalled
    rw [inv.claims id]
    cases hstatus : s.record.status id with
    | none =>
        rw [(inv.reported id).mpr hstatus] at hended
        cases hended
    | some hooked =>
        cases hooked with
        | true => rfl
        | false =>
            -- neither `call_all` nor the report has seen it, yet both have ended
            rcases inv.covered_any hpast hpending .looping id hstatus with h | h | h
            · rw [hended] at h
              cases h
            · rw [hended] at h
              cases h
            · cases h
  · intro hparked
    obtain ⟨id, halive⟩ := inv.parked hparked
    refine ⟨id, halive, ?_⟩
    have hnone : s.hooks id ≠ .none := by
      intro hnone
      rw [hnone] at halive
      cases halive
    rw [inv.claims id, if_pos ((inv.hooks id).mp hnone)]
    decide

/-- Two instances: one ends while the run is live, the other is reported late. The
hook of the first holds `settle` until it has notified. -/
def lateReport : List Event :=
  [.created 1 "work", .readsPhase 1, .eventHandled 1, .created 2 "work", .bodyEnds true,
    .endObservations, .looks, .setsPhase, .snapshot, .readsPhase 2, .callsLate 2, .calls 2,
    .called, .enables, .checks]

theorem one_hook_call_lateReport :
    ∃ s, (Sys.machine true).Reachable s ∧ s.run = .parked false ∧
      (∀ id, s.log.countP (isClaim id) ≤ 1 ∧
        (0 < s.log.countP (isClaim id) → s.reports id ≠ .none)) ∧
      (s.run.called = true → ∀ id, s.reports id = .ended →
        s.log.countP (isClaim id) = 1) ∧
      Always SettledAfter s.log ∧
      (s.run = .parked false → ∃ id, (s.hooks id).isAlive = true ∧
        0 < s.log.countP (isClaim id)) := by
  have h : (Sys.machine true).Reachable _ := Machine.reachable_of_run lateReport rfl
  exact ⟨_, h, rfl, one_hook_call h⟩

end RunnerKit.Toolkit.Hooks
