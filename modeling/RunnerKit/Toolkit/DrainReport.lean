import RunnerKit.Toolkit.Registries

/-!
# What the report of the drain lists

A run is listed once: as aborted when its closing was not reached, else only
with writes that were left unsent. This holds of every run of the machine in
which no closing stands between its two registries when the drain takes the
closings, and in which no write of a closing comes or ends between the look at
its queue and the drop of it.
-/

namespace RunnerKit.Toolkit.Drain

open RunnerKit.Jobs RunnerKit.Queue RunnerKit.Lib

/-! ## What the drain has still to do -/

/-- The drain has not taken the closings. -/
def Stage.early : Stage → Bool
  | .running | .waiting | .slotsAborted => true
  | _ => false

/-- The closings are taken and have ended. -/
def Stage.quiet : Stage → Bool
  | .aborting _ | .abortingRun _ _ _ | .reporting _ | .reportingRun _ _ _ => true
  | _ => false

theorem Stage.not_early {stage : Stage} (h : stage.quiet = true) :
    stage.early = false := by
  cases stage <;> simp_all [Stage.early, Stage.quiet]

theorem Stage.late_cases {stage : Stage} (h : stage.early = false) :
    stage = .closingsTaken ∨ stage.quiet = true ∨ stage = .done := by
  cases stage <;> simp_all [Stage.early, Stage.quiet]

namespace Sys

/-- The runs that are still to be aborted. -/
def toAbort (s : Sys) : List ℕ :=
  match s.stage with
  | .aborting rest => rest.filter fun r => !s.closingTaken r
  | .abortingRun r _ rest => r :: rest.filter fun r => !s.closingTaken r
  | _ => []

/-- The closings that are still to be looked at. -/
def toReport (s : Sys) : List ℕ :=
  match s.stage with
  | .reporting rest => rest
  | .reportingRun r _ rest => r :: rest
  | .done => []
  | _ => s.taken

/-- The entry of the run that the drain is at. -/
def AbortStage.Ok (s : Sys) (r : ℕ) : AbortStage → Prop
  | .phase | .cancel | .hooks | .look => True
  | .instances run | .queue run | .forget run =>
      s.runId r = some run.runId ∧ run.aborted = true

def TakenStage.Ok (s : Sys) (r : ℕ) : TakenStage → Prop
  | .look => s.places r = .aborted → s.leftUnsent r = none
  | .queue run => s.runId r = some run.runId ∧ run.aborted = false ∧
      run.unsent = (s.queue r).getD [] ∧
        (s.places r = .aborted → s.leftUnsent r = none)
  | .forget run => s.runId r = some run.runId ∧ run.aborted = false ∧
      (s.places r = .aborted → run.unsent = (s.leftUnsent r).getD []) ∧
        (s.places r ≠ .aborted → run.unsent = [])

def StageOk (s : Sys) : Prop :=
  match s.stage with
  | .abortingRun r stage _ => AbortStage.Ok s r stage
  | .reportingRun r stage _ => TakenStage.Ok s r stage
  | _ => True

/-- The closings behind the one that the drain is at. -/
def behind (s : Sys) : List ℕ :=
  match s.stage with
  | .reportingRun _ _ rest => rest
  | _ => s.toReport

/-- An entry tells what happened to its run. -/
structure EntryOk (s : Sys) (r : ℕ) (run : DrainedRun) : Prop where
  id : s.runId r = some run.runId
  aborted : run.aborted = true → s.places r = .abandoned
  unsent : run.aborted = false → s.places r = .aborted ∧
    s.leftUnsent r = some run.unsent ∧ run.unsent ≠ []

structure ReportOk (s : Sys) : Prop where
  once : (s.report.map (fun e => s.runId e.1) ++
    (s.toAbort ++ s.toReport).map s.runId).Nodup
  entries : ∀ e ∈ s.report, s.EntryOk e.1 e.2
  aborted : ∀ r, s.places r = .aborted → r ∈ s.taken
  toAbort : ∀ r ∈ s.toAbort, s.places r = .abandoned
  toReport : ∀ r ∈ s.toReport, r ∈ s.taken
  behind : ∀ r ∈ s.behind, s.places r = .aborted → s.leftUnsent r = none
  reported : ∀ r ∈ s.taken, r ∉ s.toReport → s.places r = .aborted →
    (s.leftUnsent r).getD [] ≠ [] → ∃ e ∈ s.report, e.1 = r
  stage : s.StageOk

/-- From the point on where the drain took the closings. -/
structure Late (s : Sys) : Prop where
  slots : ∀ i < s.numSlots, s.slots i = .ended
  moving : s.stage = .closingsTaken → ∀ r, (s.places r).registered = true →
    r ∈ s.taken
  closings : s.stage = .closingsTaken → s.report = [] ∧
    ∀ r ∈ s.registry, r ∈ s.taken ∨ s.places r = .abandoned
  quiet : s.stage.quiet = true → ∀ r, (s.places r).settled = true
  done : s.stage = .done → ∀ r ∈ s.taken, (s.places r).settled = true
  ended : s.stage.quiet = true → ∀ r ∈ s.taken,
    s.places r = .forgotten ∨ s.places r = .aborted

structure DrainInv (s : Sys) : Prop where
  registered : s.Registered
  report : s.ReportOk
  early : s.stage.early = true → s.taken = [] ∧ s.report = []
  late : s.stage.early = false → s.Late

/-! ## The condition -/

/-- The drain has looked at the queue of the run and is about to drop it. -/
def looksAt (s : Sys) (r : ℕ) : Bool :=
  match s.stage with
  | .reportingRun r' (.queue _) _ => r' == r
  | _ => false

/-- No closing stands between its removal from the closings and its removal from
the runs as the drain takes the closings, and no write of a run comes or ends
while the drain looks at its queue. -/
def Apart (s : Sys) : Event → Prop
  | .takeClosings _ => ∀ r < s.nextRun, s.places r ≠ .removed
  | .run r (.handedOver _) | .run r (.writeEnded _) => s.looksAt r = false
  | _ => True

instance (s : Sys) (event : Event) : Decidable (s.Apart event) :=
  match event with
  | .takeClosings _ => inferInstanceAs (Decidable (∀ r < s.nextRun, s.places r ≠ .removed))
  | .run r (.handedOver _) | .run r (.writeEnded _) =>
      inferInstanceAs (Decidable (s.looksAt r = false))
  | .run _ .opened | .run _ .executorReturned | .run _ (.executorRunning _)
  | .run _ (.instanceCreated _) | .run _ (.hookReturned _) | .run _ .cancelled
  | .take _ _ _ | .unopened _ | .ended _ | .slot _ | .slotPanics _ | .slotDropped _
  | .slotReturns _ | .bodyEnds _ | .closing _ | .closingDropped _ | .shutdown
  | .allEnded | .timeout | .readRuns _ | .drain => isTrue trivial

variable {s s' : Sys} {r i : ℕ}

theorem reportOk_of_early (hstage : s.stage.early = true) (htaken : s.taken = [])
    (hreport : s.report = []) (hnone : ∀ r, s.places r ≠ .aborted) : s.ReportOk := by
  have habort : s.toAbort = [] := by
    unfold Sys.toAbort
    split <;> simp_all [Stage.early]
  have htoReport : s.toReport = [] := by
    unfold Sys.toReport
    split <;> simp_all [Stage.early]
  have hbehind : s.behind = [] := by
    unfold Sys.behind
    split <;> simp_all [Stage.early]
  constructor
  · simp [habort, htoReport, hreport]
  · simp [hreport]
  · exact fun r hr => absurd hr (hnone r)
  · simp [habort]
  · simp [htoReport]
  · simp [hbehind]
  · simp [htaken]
  · unfold Sys.StageOk
    split <;> simp_all [Stage.early]

/-- Before the drain takes the closings there is nothing to show of the report. -/
theorem DrainInv.of_early (h : s.DrainInv) (hearly : s.stage.early = true)
    (hreg : s'.Registered) (hstage : s'.stage.early = true) (htaken : s'.taken = s.taken)
    (hreport : s'.report = s.report)
    (hnone : ∀ r, s'.places r = .aborted → s.places r = .aborted) : s'.DrainInv := by
  obtain ⟨ht, hr⟩ := h.early hearly
  have hno : ∀ r, s'.places r ≠ .aborted := by
    intro r hr
    have hmem := h.report.aborted r (hnone r hr)
    rw [ht] at hmem
    cases hmem
  refine ⟨hreg, reportOk_of_early hstage (htaken.trans ht) (hreport.trans hr) hno,
    fun _ => ⟨htaken.trans ht, hreport.trans hr⟩, ?_⟩
  rw [hstage]
  exact nofun

/-- What a step leaves alone once the drain took the closings. -/
structure Calm (s s' : Sys) : Prop where
  stage : s'.stage = s.stage
  taken : s'.taken = s.taken
  report : s'.report = s.report
  runId : s'.runId = s.runId
  numSlots : s'.numSlots = s.numSlots
  slots : ∀ i < s.numSlots, s.slots i = .ended → s'.slots i = .ended
  registry : ∀ r ∈ s'.registry, r ∈ s.registry
  settled : ∀ r, (s.places r).settled = true → s'.places r = s.places r
  leftUnsent : ∀ r, s.places r = .aborted → s'.leftUnsent r = s.leftUnsent r
  /-- A closing that is dropped now. -/
  dropped : ∀ r, s'.places r = .aborted → s.places r = .aborted ∨
    s.stage = .closingsTaken ∧ r ∈ s.taken ∧ s'.leftUnsent r = none
  moving : ∀ r, (s'.places r).registered = true → (s.places r).registered = true
  queue : ∀ r, s.looksAt r = true → s'.queue r = s.queue r

theorem Calm.abandoned (hc : Calm s s') (h : s.places r = .abandoned) :
    s'.places r = .abandoned :=
  (hc.settled r (by rw [h]; rfl)).trans h

theorem Calm.aborted (hc : Calm s s') (h : s.places r = .aborted) :
    s'.places r = .aborted ∧ s'.leftUnsent r = s.leftUnsent r :=
  ⟨(hc.settled r (by rw [h]; rfl)).trans h, hc.leftUnsent r h⟩

theorem Calm.closingTaken (hc : Calm s s') : s'.closingTaken = s.closingTaken := by
  funext r
  unfold Sys.closingTaken
  rw [hc.taken, hc.runId]

theorem Calm.toAbort (hc : Calm s s') : s'.toAbort = s.toAbort := by
  unfold Sys.toAbort
  rw [hc.stage, hc.closingTaken]

theorem Calm.toReport (hc : Calm s s') : s'.toReport = s.toReport := by
  unfold Sys.toReport
  rw [hc.stage, hc.taken]

theorem Calm.behind (hc : Calm s s') : s'.behind = s.behind := by
  unfold Sys.behind
  rw [hc.stage, hc.toReport]

theorem Calm.stageOk (hc : Calm s s') (h : s.StageOk)
    (hdropped : s.stage ≠ .closingsTaken) : s'.StageOk := by
  have haborted : ∀ r, s'.places r = .aborted →
      s.places r = .aborted ∧ s'.leftUnsent r = s.leftUnsent r := by
    intro r hr
    have hold := (hc.dropped r hr).resolve_right fun hd => hdropped hd.1
    exact ⟨hold, (hc.aborted hold).2⟩
  unfold Sys.StageOk at h ⊢
  rw [hc.stage]
  split
  · rename_i r stage rest hstage
    rw [hstage] at h
    cases stage <;> simp only [AbortStage.Ok, hc.runId] at h ⊢ <;> exact h
  · rename_i r stage rest hstage
    rw [hstage] at h
    cases stage with
    | look =>
        intro hr
        rw [(haborted r hr).2]
        exact h (haborted r hr).1
    | queue run =>
        obtain ⟨hid, hno, hunsent, hleft⟩ := h
        have hlook : s.looksAt r = true := by
          simp [looksAt, hstage]
        refine ⟨by rw [hc.runId]; exact hid, hno, by rw [hc.queue r hlook]; exact hunsent,
          fun hr => ?_⟩
        rw [(haborted r hr).2]
        exact hleft (haborted r hr).1
    | forget run =>
        obtain ⟨hid, hno, hunsent, hempty⟩ := h
        refine ⟨by rw [hc.runId]; exact hid, hno, fun hr => ?_, fun hr => hempty ?_⟩
        · rw [(haborted r hr).2]
          exact hunsent (haborted r hr).1
        · exact fun hold => hr (hc.aborted hold).1
  · trivial

theorem ReportOk.calm (h : s.ReportOk) (hc : Calm s s') : s'.ReportOk where
  once := by
    rw [hc.report, hc.runId, hc.toAbort, hc.toReport]
    exact h.once
  entries := by
    intro e he
    rw [hc.report] at he
    have hold := h.entries e he
    refine ⟨by rw [hc.runId]; exact hold.id, fun ha => hc.abandoned (hold.aborted ha),
      fun ha => ?_⟩
    obtain ⟨hplace, hleft, hne⟩ := hold.unsent ha
    obtain ⟨hplace', hleft'⟩ := hc.aborted hplace
    exact ⟨hplace', hleft'.trans hleft, hne⟩
  aborted := by
    intro r hr
    rw [hc.taken]
    rcases hc.dropped r hr with hold | ⟨-, hin, -⟩
    · exact h.aborted r hold
    · exact hin
  toAbort := by
    rw [hc.toAbort]
    exact fun r hr => hc.abandoned (h.toAbort r hr)
  toReport := by
    rw [hc.toReport, hc.taken]
    exact h.toReport
  behind := by
    rw [hc.behind]
    intro r hr hplace
    rcases hc.dropped r hplace with hold | ⟨-, -, hnone⟩
    · rw [(hc.aborted hold).2]
      exact h.behind r hr hold
    · exact hnone
  reported := by
    rw [hc.taken, hc.toReport, hc.report]
    intro r hr hnot hplace
    rcases hc.dropped r hplace with hold | ⟨-, -, hnone⟩
    · rw [(hc.aborted hold).2]
      exact h.reported r hr hnot hold
    · rw [hnone]
      exact fun hne => absurd rfl hne
  stage := by
    by_cases hstage : s.stage = .closingsTaken
    · unfold Sys.StageOk
      rw [hc.stage, hstage]
      trivial
    · exact hc.stageOk h.stage hstage

/-- What the other parties do once the drain took the closings. -/
theorem DrainInv.calm (h : s.DrainInv) (hlate : s.stage.early = false)
    (hreg : s'.Registered) (hc : Calm s s') : s'.DrainInv where
  registered := hreg
  report := h.report.calm hc
  early := by
    rw [hc.stage, hlate]
    exact nofun
  late := by
    intro _
    have hl := h.late hlate
    refine ⟨?_, ?_, ?_, ?_, ?_, ?_⟩
    · rw [hc.numSlots]
      exact fun i hi => hc.slots i hi (hl.slots i hi)
    · rw [hc.stage, hc.taken]
      exact fun hs r hr => hl.moving hs r (hc.moving r hr)
    · rw [hc.stage, hc.report, hc.taken]
      intro hs
      obtain ⟨hreport, hleft⟩ := hl.closings hs
      refine ⟨hreport, fun r hr => ?_⟩
      exact (hleft r (hc.registry r hr)).imp id hc.abandoned
    · rw [hc.stage]
      intro hs r
      have hset := hl.quiet hs r
      rwa [hc.settled r hset]
    · rw [hc.stage, hc.taken]
      intro hs r hr
      have hset := hl.done hs r hr
      rwa [hc.settled r hset]
    · rw [hc.stage, hc.taken]
      intro hs r hr
      rw [hc.settled r (hl.quiet hs r)]
      exact hl.ended hs r hr

/-! ## The steps of the other parties -/

/-- A step that is not one of the drain. -/
theorem DrainInv.other (h : s.DrainInv) (hreg : s'.Registered)
    (hstage : s'.stage = s.stage) (htaken : s'.taken = s.taken)
    (hreport : s'.report = s.report)
    (hnone : s.stage.early = true →
      ∀ r, s'.places r = .aborted → s.places r = .aborted)
    (hcalm : s.stage.early = false → Calm s s') : s'.DrainInv := by
  cases hearly : s.stage.early with
  | true =>
      exact h.of_early hearly hreg (by rw [hstage, hearly]) htaken hreport
        (hnone hearly)
  | false => exact h.calm hearly hreg (hcalm hearly)

theorem DrainInv.no_run (h : s.DrainInv) (hlate : s.stage.early = false)
    (hrun : (s.slots i).run = some r) : False := by
  have hended := (h.late hlate).slots i (h.registered.lt_numSlots hrun)
  rw [hended] at hrun
  cases hrun

theorem DrainInv.not_inSlot (h : s.DrainInv) (hlate : s.stage.early = false) :
    (s.places r).inSlot = false := by
  by_contra hin
  obtain ⟨i, -, hrun⟩ := h.registered.home r (Bool.not_eq_false _ ▸ hin)
  exact h.no_run hlate hrun

/-- The drain looks at queues of settled runs only. -/
theorem DrainInv.settled_of_looksAt (h : s.DrainInv) (hlook : s.looksAt r = true) (r' : ℕ) :
    (s.places r').settled = true := by
  have hquiet : s.stage.quiet = true ∧ s.stage.early = false := by
    unfold looksAt at hlook
    split at hlook
    · rename_i hstage
      rw [hstage]
      exact ⟨rfl, rfl⟩
    · cases hlook
  exact (h.late hquiet.2).quiet hquiet.1 r'

/-- A step that moves one run that was not settled. -/
structure Moved (s s' : Sys) (r : ℕ) (place : Place) : Prop where
  stage : s'.stage = s.stage
  taken : s'.taken = s.taken
  report : s'.report = s.report
  runId : s'.runId = s.runId
  numSlots : s'.numSlots = s.numSlots
  slots : s'.slots = s.slots
  registry : ∀ r ∈ s'.registry, r ∈ s.registry
  places : s'.places = Function.update s.places r place
  leftUnsent : ∀ r', r' ≠ r → s'.leftUnsent r' = s.leftUnsent r'
  queue : ∀ r', r' ≠ r → s'.queue r' = s.queue r'

theorem Moved.places_ne {place : Place} (hm : Moved s s' r place) {r' : ℕ}
    (hne : r' ≠ r) : s'.places r' = s.places r' := by
  rw [hm.places, Function.update_of_ne hne]

theorem Moved.places_self {place : Place} (hm : Moved s s' r place) :
    s'.places r = place := by
  rw [hm.places, Function.update_self]

theorem DrainInv.calm_of_moved (h : s.DrainInv) {place : Place}
    (hm : Moved s s' r place) (hfrom : (s.places r).settled = false)
    (hreg : place.registered = true → (s.places r).registered = true)
    (hdropped : place = .aborted →
      s.stage = .closingsTaken ∧ r ∈ s.taken ∧ s'.leftUnsent r = none) : Calm s s' where
  stage := hm.stage
  taken := hm.taken
  report := hm.report
  runId := hm.runId
  numSlots := hm.numSlots
  slots := by
    rw [hm.slots]
    exact fun _ _ hended => hended
  registry := hm.registry
  settled := by
    intro r' hr'
    have hne : r' ≠ r := by
      rintro rfl
      rw [hr'] at hfrom
      cases hfrom
    exact hm.places_ne hne
  leftUnsent := by
    intro r' hr'
    have hne : r' ≠ r := by
      rintro rfl
      rw [hr'] at hfrom
      cases hfrom
    exact hm.leftUnsent r' hne
  dropped := by
    intro r' hr'
    by_cases hrr : r' = r
    · subst hrr
      rw [hm.places_self] at hr'
      exact Or.inr (hdropped hr')
    · rw [hm.places_ne hrr] at hr'
      exact Or.inl hr'
  moving := by
    intro r' hr'
    by_cases hrr : r' = r
    · subst hrr
      rw [hm.places_self] at hr'
      exact hreg hr'
    · rwa [hm.places_ne hrr] at hr'
  queue := by
    intro r' hlook
    have hne : r' ≠ r := by
      rintro rfl
      rw [h.settled_of_looksAt hlook] at hfrom
      cases hfrom
    exact hm.queue r' hne

theorem DrainInv.registerRun (h : s.DrainInv) (hidle : s.slots i = .idle)
    (hi : i < s.numSlots) (runId jobId : Uuid) :
    (s.registerRun i runId jobId).DrainInv := by
  have hreg := h.registered.registerRun hidle hi runId jobId
  unfold Sys.registerRun at hreg ⊢
  split
  · exact h
  · rename_i hnew
    rw [if_neg hnew] at hreg
    refine h.other hreg rfl rfl rfl (fun _ r hr => ?_) fun hlate => ?_
    · change Function.update s.places s.nextRun Place.executing r = _ at hr
      by_cases hrn : r = s.nextRun
      · subst hrn
        rw [Function.update_self] at hr
        cases hr
      · rwa [Function.update_of_ne hrn] at hr
    · have hended := (h.late hlate).slots i hi
      rw [hidle] at hended
      cases hended

/-- A step of a run in its slot. -/
theorem DrainInv.inSlot (h : s.DrainInv) (hrun : (s.slots i).run = some r)
    (hreg : s'.Registered) (hstage : s'.stage = s.stage) (htaken : s'.taken = s.taken)
    (hreport : s'.report = s.report) {place : Place}
    (hplaces : s'.places = Function.update s.places r place)
    (hplace : place ≠ .aborted) : s'.DrainInv := by
  refine h.other hreg hstage htaken hreport (fun _ r' hr' => ?_) fun hlate =>
    (h.no_run hlate hrun).elim
  rw [hplaces] at hr'
  by_cases hrr : r' = r
  · subst hrr
    rw [Function.update_self] at hr'
    exact absurd hr' hplace
  · rwa [Function.update_of_ne hrr] at hr'

theorem DrainInv.slotStep (h : s.DrainInv) (hs : s.slotStep i = some s') :
    s'.DrainInv := by
  have hreg := h.registered.slotStep hs
  unfold Sys.slotStep at hs
  split at hs
  · rename_i r hslot
    cases hs
    exact h.inSlot (by rw [hslot]; rfl) hreg rfl rfl rfl rfl Place.noConfusion
  · rename_i r hslot
    cases hs
    have hrun : (s.slots i).run = some r := by rw [hslot]; rfl
    have hplace : s.places r = .spawned := by
      rw [h.registered.places_eq hrun, hslot]
      rfl
    refine h.inSlot hrun hreg rfl rfl rfl ?_ (Place.noConfusion : Place.spawned ≠ _)
    rw [← hplace, Function.update_eq_self]
    rfl
  · rename_i r hslot
    cases hs
    exact h.inSlot (by rw [hslot]; rfl) hreg rfl rfl rfl rfl Place.noConfusion
  · cases hs

/-- A slot without a run ends. -/
theorem DrainInv.setSlot (h : s.DrainInv) (hidle : s.slots i = .idle) :
    (s.setSlot i .ended).DrainInv := by
  refine h.other (h.registered.setSlot (by rw [hidle]; rfl) rfl) rfl rfl rfl
    (fun _ _ hr => hr) fun _ => ?_
  refine ⟨rfl, rfl, rfl, rfl, rfl, fun j _ hj => ?_, fun _ hr => hr, fun _ _ => rfl,
    fun _ _ => rfl, fun _ hr => Or.inl hr, fun _ hr => hr, fun _ _ => rfl⟩
  show Function.update s.slots i Slot.ended j = .ended
  by_cases hji : j = i
  · rw [hji, Function.update_self]
  · rwa [Function.update_of_ne hji]

theorem DrainInv.abandon (h : s.DrainInv) {slot : Slot} (hslot : slot.run = none)
    (hfrom : s.slots i = .idle ∧ slot = .ended ∨ ∃ r, s.slots i = .executing r) :
    (s.abandon i slot).DrainInv := by
  have hreg := h.registered.abandon hslot (hfrom.imp And.left id)
  rcases hfrom with ⟨hidle, rfl⟩ | ⟨r, hrun⟩
  · unfold Sys.abandon
    rw [hidle]
    exact h.setSlot hidle
  · unfold Sys.abandon at hreg ⊢
    rw [hrun] at hreg ⊢
    exact h.inSlot (by rw [hrun]; rfl) hreg rfl rfl rfl rfl Place.noConfusion

theorem DrainInv.runStep (h : s.DrainInv) {event : RunEvent}
    (hapart : s.Apart (.run r event)) (hs : s.runStep r event = some s') :
    s'.DrainInv := by
  have hreg := h.registered.runStep hs
  obtain ⟨rfl, hof⟩ := runStep_eq hs
  have hid : (s.modify r fun record => record.after event).runId = s.runId :=
    modify_runId fun record => by cases event <;> rfl
  have hleft : ∀ r', (s.modify r fun record => record.after event).leftUnsent r' =
      s.leftUnsent r' := by
    intro r'
    by_cases hrr : r' = r
    · subst hrr
      simp only [leftUnsent, modify, Function.update_self]
      cases s.records r' with
      | none => rfl
      | some record => cases event <;> rfl
    · exact leftUnsent_modify _ hrr
  refine h.other hreg rfl rfl rfl (fun _ _ hr => hr) fun _ => ?_
  refine ⟨rfl, rfl, rfl, hid, rfl, fun _ _ hj => hj, fun _ hr => hr, fun _ _ => rfl,
    fun r' _ => hleft r', fun _ hr => Or.inl hr, fun _ hr => hr, fun r' hlook => ?_⟩
  by_cases hrr : r' = r
  · subst hrr
    have hqueue : ∀ record : RunRecord, (record.after event).queue = record.queue := by
      intro record
      cases event with
      | handedOver name =>
          rw [show s.looksAt r' = false from hapart] at hlook
          cases hlook
      | writeEnded name =>
          rw [show s.looksAt r' = false from hapart] at hlook
          cases hlook
      | opened =>
          have hset := h.settled_of_looksAt hlook r'
          rw [hof rfl] at hset
          cases hset
      | executorReturned => rfl
      | executorRunning running => rfl
      | instanceCreated id => rfl
      | hookReturned id => rfl
      | cancelled => rfl
    simp only [queue, modify, Function.update_self]
    cases s.records r' with
    | none => rfl
    | some record => exact hqueue record
  · exact queue_modify _ hrr

theorem DrainInv.move (h : s.DrainInv) (hreg : s'.Registered) {place : Place}
    (hm : Moved s s' r place) (hfrom : (s.places r).settled = false)
    (hregistered : place.registered = true → (s.places r).registered = true)
    (hplace : place ≠ .aborted) : s'.DrainInv := by
  refine h.other hreg hm.stage hm.taken hm.report (fun _ r' hr' => ?_) fun _ =>
    h.calm_of_moved hm hfrom hregistered fun heq => absurd heq hplace
  by_cases hrr : r' = r
  · subst hrr
    rw [hm.places_self] at hr'
    exact absurd hr' hplace
  · rwa [hm.places_ne hrr] at hr'

theorem moved_setPlace (s : Sys) (r : ℕ) (place : Place) :
    Moved s (s.setPlace r place) r place :=
  ⟨rfl, rfl, rfl, rfl, rfl, rfl, fun _ hr => hr, rfl, fun _ _ => rfl, fun _ _ => rfl⟩

theorem DrainInv.bodyEnds (h : s.DrainInv) (hplace : s.places r = .closing) :
    (s.setPlace r .closed).DrainInv := by
  have hr := h.registered.kept r (by rw [hplace]; rfl)
  have hin := h.registered.inClosings r (Or.inl (by rw [hplace]; rfl))
  have hreg : (s.setPlace r .closed).Registered :=
    h.registered.setPlace (by rw [hplace]; rfl) rfl
      (by rw [hplace]; exact Place.noConfusion) nofun (fun _ => hr) (fun _ => hin) nofun
      nofun
  exact h.move hreg (moved_setPlace s r .closed) (by rw [hplace]; rfl)
    (fun _ => by rw [hplace]; rfl) Place.noConfusion

theorem DrainInv.closingStep (h : s.DrainInv) (hs : s.closingStep r = some s') :
    s'.DrainInv := by
  have hreg := h.registered.closingStep hs
  unfold Sys.closingStep at hs
  split at hs
  · rename_i hplace
    cases hs
    have hm : Moved s ((s.modify r RunRecord.takeQueue).setPlace r .queueTaken) r
        .queueTaken :=
      ⟨rfl, rfl, rfl, modify_runId fun _ => rfl, rfl, rfl, fun _ hr => hr, rfl,
        fun _ hne => leftUnsent_modify _ hne, fun _ hne => queue_modify _ hne⟩
    exact h.move hreg hm (by rw [hplace]; rfl) (fun _ => by rw [hplace]; rfl)
      Place.noConfusion
  · rename_i hplace
    cases hs
    have hm : Moved s ((s.removeClosing r).setPlace r .removed) r .removed :=
      ⟨rfl, rfl, rfl, rfl, rfl, rfl, fun _ hr => hr, rfl, fun _ _ => rfl,
        fun _ _ => rfl⟩
    exact h.move hreg hm (by rw [hplace]; rfl) (fun _ => by rw [hplace]; rfl)
      Place.noConfusion
  · rename_i hplace
    cases hs
    have hm : Moved s ((s.forgetRun r).setPlace r .forgotten) r .forgotten :=
      ⟨rfl, rfl, rfl, rfl, rfl, rfl, fun _ hr => (mem_without.mp hr).1, rfl,
        fun _ _ => rfl, fun _ _ => rfl⟩
    exact h.move hreg hm (by rw [hplace]; rfl) nofun Place.noConfusion
  · cases hs

/-- The task of a taken closing is dropped. -/
theorem DrainInv.closingDropped (h : s.DrainInv) (htaken : r ∈ s.taken)
    (hplace : s.places r = .spawned ∨ s.places r = .closing) :
    (s.setPlace r .aborted).DrainInv := by
  have hlate : s.stage.early = false := by
    by_contra hearly
    have hnil := (h.early (Bool.not_eq_false _ ▸ hearly)).1
    rw [hnil] at htaken
    cases htaken
  have hclosing : s.places r = .closing := by
    refine hplace.resolve_left fun hspawned => ?_
    have hnot := h.not_inSlot hlate (r := r)
    rw [hspawned] at hnot
    cases hnot
  have hl := h.late hlate
  have hstage : s.stage = .closingsTaken := by
    rcases Stage.late_cases hlate with hs | hs | hs
    · exact hs
    · have hset := hl.quiet hs r
      rw [hclosing] at hset
      cases hset
    · have hset := hl.done hs r htaken
      rw [hclosing] at hset
      cases hset
  have hreg : (s.setPlace r .aborted).Registered :=
    h.registered.setPlace (by rw [hclosing]; rfl) rfl
      (by rw [hclosing]; exact Place.noConfusion) nofun nofun nofun nofun nofun
  refine h.calm hlate hreg (h.calm_of_moved (moved_setPlace s r .aborted)
    (by rw [hclosing]; rfl) nofun fun _ => ⟨hstage, htaken, ?_⟩)
  exact h.registered.queueKept r (by rw [hclosing]; rfl)

/-! ## The steps of the drain -/

theorem slotsEnded_iff : s.slotsEnded = true ↔ ∀ i < s.numSlots, s.slots i = .ended := by
  simp [slotsEnded]

theorem sameData_stage (stage : Stage) : SameData s { s with stage := stage } :=
  ⟨rfl, rfl, rfl, rfl, rfl, rfl, rfl, fun _ => rfl, rfl⟩

theorem Registered.toStage (h : s.Registered) (stage : Stage) :
    ({ s with stage := stage } : Sys).Registered :=
  h.same (sameData_stage stage) (fun _ _ hnone => hnone) fun _ _ => rfl

theorem Place.settled_iff {place : Place} :
    place.settled = true ↔ place.registered = false := by
  cases place <;> simp [Place.settled, Place.registered, Place.inSlot, Place.inClosings]

theorem DrainInv.not_aborted (h : s.DrainInv) (hearly : s.stage.early = true) :
    ∀ r, s.places r ≠ .aborted := by
  intro r hr
  have hmem := h.report.aborted r hr
  rw [(h.early hearly).1] at hmem
  cases hmem

theorem DrainInv.allEnded (h : s.DrainInv) (hstage : s.stage = .waiting)
    (hended : s.slotsEnded = true) :
    ({ s with stage := .done } : Sys).DrainInv := by
  have hearly : s.stage.early = true := by rw [hstage]; rfl
  obtain ⟨htaken, hreport⟩ := h.early hearly
  refine ⟨h.registered.toStage _, ?_, nofun, fun _ => ?_⟩
  · constructor
    · simp [Sys.toAbort, Sys.toReport, hreport]
    · simp [hreport]
    · exact fun r hr => absurd hr (h.not_aborted hearly r)
    · exact nofun
    · exact nofun
    · exact nofun
    · simp [htaken]
    · trivial
  · exact ⟨slotsEnded_iff.mp hended, nofun, nofun, nofun, by simp [htaken], nofun⟩

theorem Registered.not_inSlot (h : s.Registered) (hended : s.slotsEnded = true) (r : ℕ) :
    (s.places r).inSlot = false := by
  by_contra hin
  obtain ⟨i, hi, hrun⟩ := h.home r (Bool.not_eq_false _ ▸ hin)
  rw [slotsEnded_iff.mp hended i hi] at hrun
  cases hrun

theorem DrainInv.takeClosings (h : s.DrainInv) (hstage : s.stage = .slotsAborted)
    (hended : s.slotsEnded = true) {order : List ℕ} (hperm : order.Perm s.closings)
    (hapart : ∀ r < s.nextRun, s.places r ≠ .removed) :
    ({ s with closings := [], taken := order, stage := .closingsTaken } : Sys).DrainInv := by
  have hearly : s.stage.early = true := by rw [hstage]; rfl
  obtain ⟨htaken, hreport⟩ := h.early hearly
  have hreg := h.registered
  have hmem : ∀ r, r ∈ order ↔ r ∈ s.closings := fun r => hperm.mem_iff
  have hmoving : ∀ r, (s.places r).registered = true → r ∈ order := by
    intro r hr
    have hslot := hreg.not_inSlot hended r
    have hremoved : s.places r ≠ .removed := by
      by_cases hlt : r < s.nextRun
      · exact hapart r hlt
      · rw [(hreg.fresh r (Nat.le_of_not_lt hlt)).2]
        exact Place.noConfusion
    have hin : (s.places r).inClosings = true := by
      simpa [Place.registered, hslot, hremoved] using hr
    rw [hmem]
    exact (hreg.inClosings r (Or.inl hin)).resolve_right (by simp [htaken])
  refine ⟨?_, ?_, fun hs => (by cases hs), fun _ => ⟨slotsEnded_iff.mp hended, fun _ => hmoving,
    fun _ => ⟨hreport, fun r hr => ?_⟩, fun hs => (by cases hs), fun hs => (by cases hs),
    fun hs => (by cases hs)⟩⟩
  · refine { hreg with closingIds := List.nodup_nil, known := ?_, inClosings := ?_ }
    · exact fun r hr => hreg.known r (hr.imp id fun hnil => absurd hnil List.not_mem_nil)
    · intro r hr
      right
      rw [hmem]
      exact (hreg.inClosings r hr).resolve_right (by simp [htaken])
  · constructor
    · have hids := (hperm.map s.runId).nodup_iff.mpr hreg.closingIds
      show (s.report.map (fun e => s.runId e.1) ++ ([] ++ order).map s.runId).Nodup
      rw [hreport]
      exact hids
    · simp [hreport]
    · exact fun r hr => absurd hr (h.not_aborted hearly r)
    · intro _ hs
      cases hs
    · exact fun _ hr => hr
    · exact fun r _ hr => absurd hr (h.not_aborted hearly r)
    · exact fun r _ _ hr => absurd hr (h.not_aborted hearly r)
    · trivial
  · by_cases hregistered : (s.places r).registered = true
    · exact Or.inl (hmoving r hregistered)
    · right
      have hgone := hreg.gone r
      have hno := h.not_aborted hearly r
      cases hplace : s.places r <;>
        simp_all [Place.registered, Place.inSlot, Place.inClosings, Place.out]

theorem closingTaken_eq_false {r : ℕ} :
    s.closingTaken r = false ↔ ∀ t ∈ s.taken, s.runId t ≠ s.runId r := by
  simp [closingTaken]

theorem DrainInv.readRuns (h : s.DrainInv) (hstage : s.stage = .closingsTaken)
    (hended : ∀ t ∈ s.taken, s.places t = .forgotten ∨ s.places t = .aborted)
    {order : List ℕ} (hperm : order.Perm s.registry) :
    ({ s with stage := .aborting order } : Sys).DrainInv := by
  have hl := h.late (by rw [hstage]; rfl)
  obtain ⟨hreport, hleftover⟩ := hl.closings hstage
  have hreg := h.registered
  have htaken : s.toReport = s.taken := by simp [Sys.toReport, hstage]
  have habort : s.toAbort = [] := by simp [Sys.toAbort, hstage]
  have honce := h.report.once
  rw [htaken, habort, hreport] at honce
  refine ⟨hreg.toStage _, ?_, nofun, fun _ => ⟨hl.slots, nofun, nofun, fun _ r => ?_,
    nofun, fun _ => hended⟩⟩
  · constructor
    · show (s.report.map (fun e => s.runId e.1) ++
        ((order.filter fun r => !s.closingTaken r) ++ s.taken).map s.runId).Nodup
      rw [hreport, List.map_nil, List.nil_append, List.map_append]
      have hids : (order.map s.runId).Nodup :=
        (hperm.map s.runId).nodup_iff.mpr hreg.ids
      refine List.nodup_append.mpr ⟨hids.sublist (List.filter_sublist.map _),
        by simpa using honce, ?_⟩
      rintro _ ha _ hb rfl
      obtain ⟨r, hr, rfl⟩ := List.mem_map.mp ha
      obtain ⟨t, ht, hid⟩ := List.mem_map.mp hb
      have hnot : (!s.closingTaken r) = true := (List.mem_filter.mp hr).2
      rw [Bool.not_eq_true'] at hnot
      exact closingTaken_eq_false.mp hnot t ht hid
    · simp [hreport]
    · exact h.report.aborted
    · intro r hr
      obtain ⟨hin, hnot⟩ := List.mem_filter.mp hr
      change (!s.closingTaken r) = true at hnot
      rw [Bool.not_eq_true'] at hnot
      refine (hleftover r (hperm.mem_iff.mp hin)).resolve_left fun ht => ?_
      exact closingTaken_eq_false.mp hnot r ht rfl
    · exact fun _ hr => hr
    · have hbehind := h.report.behind
      have hsame : s.behind = s.taken := by simp [Sys.behind, hstage, htaken]
      rw [hsame] at hbehind
      exact hbehind
    · exact fun r hr hnot => absurd hr hnot
    · trivial
  · rw [Place.settled_iff]
    by_contra hregistered
    have hr := hl.moving hstage r (Bool.not_eq_false _ ▸ hregistered)
    rcases hended r hr with hplace | hplace <;>
      · rw [hplace] at hregistered
        exact hregistered rfl

/-- A step of the drain behind the look at the runs. -/
theorem DrainInv.quietly (h : s.DrainInv) (hquiet : s.stage.quiet = true)
    (hreg : s'.Registered) (hreport : s'.ReportOk)
    (hstage : s'.stage.quiet = true ∨ s'.stage = .done) (hplaces : s'.places = s.places)
    (htaken : s'.taken = s.taken) (hslots : s'.slots = s.slots)
    (hnum : s'.numSlots = s.numSlots) : s'.DrainInv := by
  have hl := h.late (Stage.not_early hquiet)
  have hset : ∀ r, (s'.places r).settled = true := by
    rw [hplaces]
    exact hl.quiet hquiet
  refine ⟨hreg, hreport, ?_, fun _ => ⟨?_, ?_, ?_, fun _ => hset, fun _ r _ => hset r,
    fun _ => ?_⟩⟩
  · intro hearly'
    rcases hstage with hs | hs
    · rw [Stage.not_early hs] at hearly'
      cases hearly'
    · rw [hs] at hearly'
      cases hearly'
  · rw [hnum, hslots]
    exact hl.slots
  · intro hs'
    rw [hs'] at hstage
    rcases hstage with hs | hs <;> cases hs
  · intro hs'
    rw [hs'] at hstage
    rcases hstage with hs | hs <;> cases hs
  · rw [htaken, hplaces]
    exact hl.ended hquiet

/-- The drain goes on with the same runs ahead of it and behind it. -/
theorem ReportOk.advance (h : s.ReportOk) (hplaces : s'.places = s.places)
    (htaken : s'.taken = s.taken) (hid : s'.runId = s.runId)
    (hreport : s'.report = s.report) (habort : s'.toAbort = s.toAbort)
    (htoReport : s'.toReport = s.toReport) (hbehind : ∀ r ∈ s'.behind, r ∈ s.behind)
    (hleft : ∀ r, s.places r = .aborted → s'.leftUnsent r = s.leftUnsent r ∨
      r ∈ s.toReport ∧ r ∉ s'.behind) (hstage : s'.StageOk) : s'.ReportOk where
  once := by
    rw [hreport, hid, habort, htoReport]
    exact h.once
  entries := by
    rw [hreport]
    intro e he
    have hold := h.entries e he
    refine ⟨by rw [hid]; exact hold.id, by rw [hplaces]; exact hold.aborted, fun ha => ?_⟩
    obtain ⟨hplace, hunsent, hne⟩ := hold.unsent ha
    refine ⟨by rw [hplaces]; exact hplace, ?_, hne⟩
    rcases hleft e.1 hplace with hsame | ⟨hin, -⟩
    · rw [hsame]
      exact hunsent
    · -- a run of the report is not ahead any more
      refine absurd rfl (List.nodup_append.mp h.once |>.2.2 (s.runId e.1) ?_
        (s.runId e.1) ?_)
      · exact List.mem_map_of_mem (f := fun e => s.runId e.1) he
      · exact List.mem_map_of_mem (List.mem_append_right _ hin)
  aborted := by
    rw [hplaces, htaken]
    exact h.aborted
  toAbort := by
    rw [habort, hplaces]
    exact h.toAbort
  toReport := by
    rw [htoReport, htaken]
    exact h.toReport
  behind := by
    rw [hplaces]
    intro r hr hplace
    rcases hleft r hplace with hsame | ⟨-, hnot⟩
    · rw [hsame]
      exact h.behind r (hbehind r hr) hplace
    · exact absurd hr hnot
  reported := by
    rw [htaken, htoReport, hplaces, hreport]
    intro r hr hnot hplace
    rcases hleft r hplace with hsame | ⟨hin, -⟩
    · rw [hsame]
      exact h.reported r hr hnot hplace
    · exact absurd hin hnot
  stage := hstage

/-- What `abort_run` and the end of a closing do to a record. -/
theorem DrainInv.advance (h : s.DrainInv) (hquiet : s.stage.quiet = true)
    (hsame : SameData s s') (hreg : s'.Registered) (hreport : s'.report = s.report)
    (habort : s'.toAbort = s.toAbort) (htoReport : s'.toReport = s.toReport)
    (hbehind : ∀ r ∈ s'.behind, r ∈ s.behind)
    (hleft : ∀ r, s.places r = .aborted → s'.leftUnsent r = s.leftUnsent r ∨
      r ∈ s.toReport ∧ r ∉ s'.behind) (hstage : s'.StageOk)
    (hnext : s'.stage.quiet = true ∨ s'.stage = .done) : s'.DrainInv :=
  h.quietly hquiet hreg
    (h.report.advance hsame.places hsame.taken hsame.runId hreport habort htoReport
      hbehind hleft hstage) hnext hsame.places hsame.taken hsame.slots hsame.numSlots

theorem DrainInv.settled (h : s.DrainInv) (hquiet : s.stage.quiet = true) (r : ℕ) :
    (s.places r).settled = true :=
  (h.late (Stage.not_early hquiet)).quiet hquiet r

theorem DrainInv.keepsNoQueue (h : s.DrainInv) (hquiet : s.stage.quiet = true) (r : ℕ) :
    (s.places r).keepsQueue = false := by
  have hset := h.settled hquiet r
  cases hplace : s.places r <;> rw [hplace] at hset <;> first | rfl | cases hset

theorem Registered.toReport (h : s.Registered) (stage : Stage)
    (report : List (ℕ × DrainedRun)) :
    ({ s with stage := stage, report := report } : Sys).Registered :=
  h.same ⟨rfl, rfl, rfl, rfl, rfl, rfl, rfl, fun _ => rfl, rfl⟩
    (fun _ _ hnone => hnone) fun _ _ => rfl

/-- A stage that only moves on. -/
theorem DrainInv.nextStage (h : s.DrainInv) (hquiet : s.stage.quiet = true)
    {stage : Stage}
    (habort : ({ s with stage := stage } : Sys).toAbort = s.toAbort)
    (htoReport : ({ s with stage := stage } : Sys).toReport = s.toReport)
    (hbehind : ∀ r ∈ ({ s with stage := stage } : Sys).behind, r ∈ s.behind)
    (hstage : ({ s with stage := stage } : Sys).StageOk)
    (hnext : stage.quiet = true ∨ stage = .done) :
    ({ s with stage := stage } : Sys).DrainInv :=
  h.advance hquiet (sameData_stage stage) (h.registered.toStage stage) rfl habort
    htoReport hbehind (fun _ _ => Or.inl rfl) hstage hnext

theorem closingTaken_modify {f : RunRecord → RunRecord}
    (hid : ∀ record, (f record).runId = record.runId) :
    (s.modify r f).closingTaken = s.closingTaken := by
  funext r'
  unfold closingTaken
  rw [modify_runId hid]
  rfl

theorem sameData_modify_stage {f : RunRecord → RunRecord} (stage : Stage)
    (hid : ∀ record, (f record).runId = record.runId) :
    SameData s { s.modify r f with stage := stage } :=
  have hm : SameData s (s.modify r f) := sameData_modify hid
  ⟨rfl, rfl, rfl, rfl, rfl, rfl, rfl, hm.known, hm.runId⟩

theorem AbortStage.Ok.of_runId {stage : AbortStage} (h : AbortStage.Ok s r stage)
    (hid : s'.runId = s.runId) : AbortStage.Ok s' r stage := by
  cases stage <;> simp only [AbortStage.Ok, hid] at h ⊢ <;> exact h

/-- A part of `abort_run` that works on the record. -/
theorem DrainInv.abortModify (h : s.DrainInv) {stage stage' : AbortStage} {rest : List ℕ}
    (hstage : s.stage = .abortingRun r stage rest) {f : RunRecord → RunRecord}
    (hid : ∀ record, (f record).runId = record.runId)
    (hreg : (s.modify r f).Registered) (hok : AbortStage.Ok s r stage') :
    ({ s.modify r f with stage := .abortingRun r stage' rest } : Sys).DrainInv := by
  have hquiet : s.stage.quiet = true := by rw [hstage]; rfl
  have hat : s.places r = .abandoned :=
    h.report.toAbort r (by simp [Sys.toAbort, hstage])
  have hsame : SameData s { s.modify r f with stage := .abortingRun r stage' rest } :=
    sameData_modify_stage _ hid
  refine h.advance hquiet hsame (hreg.toStage _) rfl ?_ ?_ ?_ ?_ (hok.of_runId hsame.runId)
    (Or.inl rfl)
  · show (r :: rest.filter fun r' => !(s.modify r f).closingTaken r') = _
    rw [closingTaken_modify hid]
    simp [Sys.toAbort, hstage]
  · simp [Sys.toReport, hstage, modify]
  · intro r' hr'
    simpa [Sys.behind, Sys.toReport, hstage, modify] using hr'
  · intro r' hr'
    have hne : r' ≠ r := by
      rintro rfl
      rw [hat] at hr'
      cases hr'
    exact Or.inl (leftUnsent_modify f hne)

theorem DrainInv.abortStep (h : s.DrainInv) {stage : AbortStage} {rest : List ℕ}
    (hstage : s.stage = .abortingRun r stage rest)
    (hs : s.abortStep r rest stage = some s') : s'.DrainInv := by
  have hquiet : s.stage.quiet = true := by rw [hstage]; rfl
  have hok : AbortStage.Ok s r stage := by
    have hstageOk := h.report.stage
    unfold Sys.StageOk at hstageOk
    rwa [hstage] at hstageOk
  have hreg := h.registered
  cases stage with
  | phase =>
      cases hs
      exact h.abortModify hstage (fun _ => rfl)
        (hreg.modify (fun _ => rfl) (fun _ _ hnone => hnone) fun _ => rfl) trivial
  | cancel =>
      cases hs
      exact h.abortModify hstage (fun _ => rfl)
        (hreg.modify (fun _ => rfl) (fun _ _ hnone => hnone) fun _ => rfl) trivial
  | hooks =>
      cases hs
      exact h.abortModify hstage (fun _ => rfl)
        (hreg.modify (fun _ => rfl) (fun _ _ hnone => hnone) fun _ => rfl) trivial
  | look =>
      obtain ⟨record, hrecord, rfl⟩ := Option.map_eq_some_iff.mp hs
      refine h.nextStage hquiet ?_ ?_ ?_ ?_ (Or.inl rfl)
      · simp only [Sys.toAbort, hstage]
        rfl
      · simp [Sys.toReport, hstage]
      · simp [Sys.behind, Sys.toReport, hstage]
      · exact ⟨by simp [runId, hrecord, drainedRun], rfl⟩
  | instances run =>
      cases hs
      exact h.abortModify hstage (fun _ => rfl)
        (hreg.modify (fun _ => rfl) (fun _ _ hnone => hnone) fun _ => rfl) hok
  | queue run =>
      cases hs
      exact h.abortModify hstage (fun _ => rfl)
        (hreg.takeQueue (h.keepsNoQueue hquiet r)) hok
  | forget run =>
      cases hs
      have hat : s.places r = .abandoned :=
        h.report.toAbort r (by simp [Sys.toAbort, hstage])
      have hsameAbort : s.toAbort = r :: rest.filter fun r => !s.closingTaken r := by
        simp [Sys.toAbort, hstage]
      have hsameReport : s.toReport = s.taken := by simp [Sys.toReport, hstage]
      have hsameBehind : s.behind = s.taken := by simp [Sys.behind, hstage, hsameReport]
      refine h.quietly hquiet
        ((hreg.forgetSettled (h.settled hquiet)).toReport _ _) ?_ (Or.inl rfl) rfl rfl rfl rfl
      have honce := h.report.once
      rw [hsameAbort, hsameReport] at honce
      constructor
      · show ((s.report ++ [(r, run)]).map (fun e => s.runId e.1) ++
          ((rest.filter fun r => !s.closingTaken r) ++ s.taken).map s.runId).Nodup
        simpa using honce
      · intro e he
        rcases List.mem_append.mp he with he | he
        · exact ⟨(h.report.entries e he).id, (h.report.entries e he).aborted,
            (h.report.entries e he).unsent⟩
        · cases List.mem_singleton.mp he
          refine ⟨hok.1, fun _ => hat, fun hno => ?_⟩
          rw [hok.2] at hno
          cases hno
      · exact h.report.aborted
      · intro r' hr'
        refine h.report.toAbort r' ?_
        rw [hsameAbort]
        exact List.mem_cons_of_mem _ hr'
      · exact fun _ hr' => hr'
      · have hbehind := h.report.behind
        rw [hsameBehind] at hbehind
        exact hbehind
      · exact fun r' hr' hnot => absurd hr' hnot
      · trivial

/-- The drain is done with the closing `r`. -/
theorem ReportOk.forgetTaken (h : s.ReportOk) {rest : List ℕ}
    (hahead : s.toReport = r :: rest) (hsameBehind : s.behind = rest)
    {report : List (ℕ × DrainedRun)}
    (honce : (report.map (fun e => s.runId e.1) ++ rest.map s.runId).Nodup)
    (hentries : ∀ e ∈ report, s.EntryOk e.1 e.2) (hsub : ∀ e ∈ s.report, e ∈ report)
    (hlisted : s.places r = .aborted → (s.leftUnsent r).getD [] ≠ [] →
      ∃ e ∈ report, e.1 = r) :
    ({ s.forgetRun r with stage := .reporting rest, report := report } : Sys).ReportOk := by
  constructor
  · exact honce
  · exact fun e he => ⟨(hentries e he).id, (hentries e he).aborted, (hentries e he).unsent⟩
  · exact h.aborted
  · exact nofun
  · intro r' hr'
    refine h.toReport r' ?_
    rw [hahead]
    exact List.mem_cons_of_mem _ hr'
  · have hbehind := h.behind
    rw [hsameBehind] at hbehind
    exact hbehind
  · intro r' hr' hnot hplace hne
    by_cases hrr : r' = r
    · subst hrr
      exact hlisted hplace hne
    · have hnotAhead : r' ∉ s.toReport := by
        rw [hahead, List.mem_cons]
        exact fun hor => hor.elim hrr hnot
      obtain ⟨e, he, heq⟩ := h.reported r' hr' hnotAhead hplace hne
      exact ⟨e, hsub e he, heq⟩
  · trivial

theorem DrainInv.takenStep (h : s.DrainInv) {stage : TakenStage} {rest : List ℕ}
    (hstage : s.stage = .reportingRun r stage rest)
    (hs : s.takenStep r rest stage = some s') : s'.DrainInv := by
  have hquiet : s.stage.quiet = true := by rw [hstage]; rfl
  have hok : TakenStage.Ok s r stage := by
    have hstageOk := h.report.stage
    unfold Sys.StageOk at hstageOk
    rwa [hstage] at hstageOk
  have habort : s.toAbort = [] := by simp [Sys.toAbort, hstage]
  have hahead : s.toReport = r :: rest := by simp [Sys.toReport, hstage]
  have hsameBehind : s.behind = rest := by simp [Sys.behind, hstage]
  have hin : r ∈ s.taken := h.report.toReport r (by rw [hahead]; exact List.mem_cons_self)
  have hreg := h.registered
  have hnodup := (List.nodup_append.mp h.report.once).2.1
  rw [habort, hahead] at hnodup
  have hnot : r ∉ rest := fun hr =>
    (List.nodup_cons.mp hnodup).1 (List.mem_map_of_mem hr)
  cases stage with
  | look =>
      obtain ⟨record, hrecord, rfl⟩ := Option.map_eq_some_iff.mp hs
      refine h.nextStage hquiet ?_ ?_ ?_ ?_ (Or.inl rfl)
      · simp [Sys.toAbort, hstage]
      · simp [Sys.toReport, hstage]
      · simp [Sys.behind, hstage]
      · exact ⟨by simp [runId, hrecord, drainedRun], rfl,
          by simp [queue, hrecord, drainedRun], hok⟩
  | queue run =>
      cases hs
      obtain ⟨hid, hno, hunsent, hnone⟩ := hok
      have hsame : SameData s { s.modify r RunRecord.takeQueue with
          stage := .reportingRun r (.forget run) rest } :=
        sameData_modify_stage _ fun _ => rfl
      refine h.advance hquiet hsame
        ((hreg.takeQueue (h.keepsNoQueue hquiet r)).toStage _) rfl ?_ ?_ ?_ ?_ ?_
        (Or.inl rfl)
      · simp [Sys.toAbort, hstage]
      · simp [Sys.toReport, hstage]
      · simp [Sys.behind, hstage]
      · intro r' _
        by_cases hrr : r' = r
        · subst hrr
          exact Or.inr ⟨by rw [hahead]; exact List.mem_cons_self, hnot⟩
        · exact Or.inl (leftUnsent_modify _ hrr)
      · refine ⟨hid ▸ congrFun hsame.runId r, hno, fun hplace => ?_, fun hplace => ?_⟩
        · have hleft : (s.modify r RunRecord.takeQueue).leftUnsent r = s.queue r := by
            rw [leftUnsent_takeQueue, hnone hplace, Option.or_none]
          rw [hunsent]
          exact congrArg (fun waiting => waiting.getD []) hleft.symm
        · have hforgotten : s.places r = .forgotten :=
            ((h.late (Stage.not_early hquiet)).ended hquiet r hin).resolve_right hplace
          rw [hunsent, hreg.noQueue r (by rw [hforgotten]; rfl)]
          rfl
  | forget run =>
      cases hs
      obtain ⟨hid, hno, hunsent, hempty⟩ := hok
      have honce := h.report.once
      rw [habort, hahead] at honce
      have hquietly : ∀ {report}, ({ s.forgetRun r with
          stage := .reporting rest, report := report } : Sys).ReportOk →
          ({ s.forgetRun r with stage := .reporting rest, report := report } :
            Sys).DrainInv := fun hreport =>
        h.quietly hquiet ((hreg.forgetSettled (h.settled hquiet)).toReport _ _) hreport
          (Or.inl rfl) rfl rfl rfl rfl
      cases hnothing : run.unsent with
      | nil =>
          rw [List.isEmpty_nil, if_pos rfl]
          refine hquietly (h.report.forgetTaken hahead hsameBehind ?_ h.report.entries
            (fun _ he => he) fun hplace hne => ?_)
          · refine honce.sublist ?_
            exact (List.Sublist.refl _).append (List.sublist_cons_self ..)
          · rw [← hunsent hplace, hnothing] at hne
            exact absurd rfl hne
      | cons name names =>
          rw [List.isEmpty_cons, if_neg Bool.false_ne_true]
          have hne : run.unsent ≠ [] := by
            rw [hnothing]
            exact List.cons_ne_nil _ _
          have hplace : s.places r = .aborted := by
            by_contra hnot
            exact hne (hempty hnot)
          refine hquietly (h.report.forgetTaken hahead hsameBehind ?_ ?_
            (fun _ he => List.mem_append_left _ he)
            fun _ _ => ⟨(r, run), by simp, rfl⟩)
          · simpa using honce
          · intro e he
            rcases List.mem_append.mp he with he | he
            · exact h.report.entries e he
            · cases List.mem_singleton.mp he
              refine ⟨hid, fun ha => ?_, fun _ => ⟨hplace, ?_, hne⟩⟩
              · rw [hno] at ha
                cases ha
              · have heq := hunsent hplace
                cases hleft : s.leftUnsent r with
                | none =>
                    rw [hleft] at heq
                    exact absurd heq hne
                | some waiting =>
                    rw [hleft] at heq
                    rw [heq]
                    rfl

theorem DrainInv.drainStep (h : s.DrainInv) (hs : s.drainStep = some s') :
    s'.DrainInv := by
  unfold Sys.drainStep at hs
  split at hs
  · rename_i hstage
    cases hs
    refine h.nextStage (by rw [hstage]; rfl) ?_ ?_ ?_ trivial (Or.inl rfl)
    · simp [Sys.toAbort, hstage]
    · simp [Sys.toReport, hstage]
    · simp [Sys.behind, Sys.toReport, hstage]
  · rename_i r rest hstage
    cases hs
    have hquiet : s.stage.quiet = true := by rw [hstage]; rfl
    have hahead : s.toAbort = (r :: rest).filter fun r => !s.closingTaken r := by
      simp [Sys.toAbort, hstage]
    have hsame : s.toReport = s.taken := by simp [Sys.toReport, hstage]
    split
    · rename_i hskip
      refine h.nextStage hquiet ?_ hsame.symm ?_ trivial (Or.inl rfl)
      · rw [hahead, List.filter_cons_of_neg (by simp [hskip])]
        rfl
      · simp [Sys.behind, Sys.toReport, hstage]
    · rename_i hrun
      refine h.nextStage hquiet ?_ hsame.symm ?_ trivial (Or.inl rfl)
      · rw [hahead, List.filter_cons_of_pos (by simp [hrun])]
        rfl
      · simp [Sys.behind, Sys.toReport, hstage]
  · rename_i r stage rest hstage
    exact h.abortStep hstage hs
  · rename_i hstage
    cases hs
    refine h.nextStage (by rw [hstage]; rfl) ?_ ?_ ?_ trivial (Or.inr rfl)
    · simp [Sys.toAbort, hstage]
    · simp [Sys.toReport, hstage]
    · simp [Sys.behind, Sys.toReport]
  · rename_i r rest hstage
    cases hs
    have hbehind : s.behind = r :: rest := by simp [Sys.behind, Sys.toReport, hstage]
    refine h.nextStage (by rw [hstage]; rfl) ?_ ?_ ?_ ?_ (Or.inl rfl)
    · simp [Sys.toAbort, hstage]
    · simp [Sys.toReport, hstage]
    · intro r' hr'
      rw [hbehind]
      exact List.mem_cons_of_mem _ hr'
    · exact h.report.behind r (by rw [hbehind]; exact List.mem_cons_self)
  · rename_i r stage rest hstage
    exact h.takenStep hstage hs
  · cases hs

theorem DrainInv.step {event : Event} (h : s.DrainInv) (hapart : s.Apart event)
    (hs : s.step event = some s') : s'.DrainInv := by
  cases event with
  | take i runId jobId =>
      simp only [Sys.step] at hs
      split at hs
      · rename_i hcan
        cases hs
        exact h.registerRun hcan.1 hcan.2 runId jobId
      · cases hs
  | unopened i =>
      simp only [Sys.step] at hs
      split at hs
      · rename_i r hslot
        cases hs
        exact h.inSlot (by rw [hslot]; rfl) (h.registered.refuse hslot) rfl rfl rfl rfl
          Place.noConfusion
      · cases hs
  | ended i =>
      simp only [Sys.step] at hs
      split at hs
      · rename_i r hslot
        cases hs
        exact h.inSlot (by rw [hslot]; rfl) (h.registered.spawnClosing hslot) rfl rfl rfl
          rfl Place.noConfusion
      · cases hs
  | slot i => exact h.slotStep hs
  | slotPanics i =>
      simp only [Sys.step] at hs
      split at hs
      · rename_i r hslot
        cases hs
        exact h.abandon rfl (Or.inr ⟨r, hslot⟩)
      · cases hs
  | slotDropped i =>
      simp only [Sys.step] at hs
      split at hs
      · rename_i _ hslot
        cases hs
        exact h.abandon rfl (Or.inl ⟨hslot, rfl⟩)
      · rename_i _ hslot
        cases hs
        exact h.abandon rfl (Or.inr ⟨_, hslot⟩)
      · cases hs
  | slotReturns i =>
      simp only [Sys.step] at hs
      split at hs
      · cases hs
      · rename_i hslot _
        cases hs
        exact h.setSlot hslot
      · cases hs
  | run r event => exact h.runStep hapart hs
  | bodyEnds r =>
      simp only [Sys.step] at hs
      split at hs
      · rename_i hplace
        cases hs
        exact h.bodyEnds hplace
      · cases hs
  | closing r => exact h.closingStep hs
  | closingDropped r =>
      simp only [Sys.step] at hs
      split at hs
      · rename_i hcan
        cases hs
        exact h.closingDropped hcan.1 hcan.2
      · cases hs
  | shutdown =>
      simp only [Sys.step] at hs
      split at hs
      · rename_i hstage
        cases hs
        exact h.of_early (by rw [hstage]; rfl) (h.registered.toStage _) rfl rfl rfl
          fun _ hr => hr
      · cases hs
  | allEnded =>
      simp only [Sys.step] at hs
      split at hs
      · rename_i hstage
        split at hs
        · rename_i hended
          cases hs
          exact h.allEnded hstage hended.1
        · cases hs
      · cases hs
  | timeout =>
      simp only [Sys.step] at hs
      split at hs
      · rename_i hstage
        cases hs
        exact h.of_early (by rw [hstage]; rfl) (h.registered.toStage _) rfl rfl rfl
          fun _ hr => hr
      · cases hs
  | takeClosings order =>
      simp only [Sys.step] at hs
      split at hs
      · rename_i hstage
        split at hs
        · rename_i hcan
          cases hs
          exact h.takeClosings hstage hcan.1 hcan.2 hapart
        · cases hs
      · cases hs
  | readRuns order =>
      simp only [Sys.step] at hs
      split at hs
      · rename_i hstage
        split at hs
        · rename_i hcan
          cases hs
          exact h.readRuns hstage hcan.1 hcan.2
        · cases hs
      · cases hs
  | drain => exact h.drainStep hs

theorem drainInv_init (numSlots : ℕ) : (init numSlots).DrainInv where
  registered := registered_init numSlots
  report := reportOk_of_early rfl rfl rfl fun _ => Place.noConfusion
  early := fun _ => ⟨rfl, rfl⟩
  late := nofun

/-! ## The report -/

/-- What the report says of the runs that were in flight at the timeout. -/
structure Reported (s : Sys) : Prop where
  once : (s.report.map fun e => e.2.runId).Nodup
  /-- A run is listed as aborted only when its closing was not reached. -/
  aborted : ∀ e ∈ s.report, e.2.aborted = true → (s.places e.1).reached = false
  /-- A run whose closing has ended is not listed. -/
  ended : ∀ e ∈ s.report, (s.places e.1).bodyEnded = false
  /-- A run aborted in its closing is listed when writes of it were left unsent,
  and with these. -/
  unsent : s.stage = .done → ∀ r, s.places r = .aborted →
    ((∃ e ∈ s.report, e.1 = r) ↔ (s.leftUnsent r).getD [] ≠ [])
  named : ∀ e ∈ s.report, s.places e.1 = .aborted →
    s.leftUnsent e.1 = some e.2.unsent

theorem DrainInv.reported (h : s.DrainInv) : s.Reported where
  once := by
    have honce := (List.nodup_append.mp h.report.once).1
    have heq : s.report.map (fun e => s.runId e.1) =
        s.report.map fun e => some e.2.runId :=
      List.map_congr_left fun e he => (h.report.entries e he).id
    rw [heq] at honce
    refine List.Nodup.of_map some ?_
    rwa [List.map_map]
  aborted := by
    intro e he ha
    rw [(h.report.entries e he).aborted ha]
    rfl
  ended := by
    intro e he
    cases ha : e.2.aborted with
    | true => rw [(h.report.entries e he).aborted ha]; rfl
    | false => rw [((h.report.entries e he).unsent ha).1]; rfl
  unsent := by
    intro hdone r hplace
    constructor
    · rintro ⟨e, he, rfl⟩
      have hno : e.2.aborted = false := by
        by_contra ha
        rw [(h.report.entries e he).aborted (Bool.not_eq_false _ ▸ ha)] at hplace
        cases hplace
      obtain ⟨-, hleft, hne⟩ := (h.report.entries e he).unsent hno
      rw [hleft]
      exact hne
    · intro hne
      have hahead : s.toReport = [] := by simp [Sys.toReport, hdone]
      exact h.report.reported r (h.report.aborted r hplace) (by simp [hahead]) hplace hne
  named := by
    intro e he hplace
    have hno : e.2.aborted = false := by
      by_contra ha
      rw [(h.report.entries e he).aborted (Bool.not_eq_false _ ▸ ha)] at hplace
      cases hplace
    exact ((h.report.entries e he).unsent hno).2.1

/-- A run that goes to its closing with one write in its queue. -/
def closingRun : List Event :=
  [.take 0 101 201, .run 0 .opened, .run 0 (.handedOver ⟨.completed, [101]⟩), .ended 0,
    .slot 0, .slot 0]

/-- The closing has ended and has left the closings, but not yet the runs, as the
drain takes the closings and then reads the runs. -/
def betweenRun : List Event :=
  closingRun ++ [.run 0 (.writeEnded ⟨.completed, [101]⟩), .bodyEnds 0, .closing 0,
    .closing 0, .shutdown, .timeout, .slotReturns 0, .takeClosings [], .readRuns [0]] ++
    List.replicate 8 .drain

end Sys

end RunnerKit.Toolkit.Drain
