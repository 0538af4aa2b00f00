import RunnerKit.Queue.Attempts

/-!
# The steps of the queue, as the attempts see them

Each step of the queue is a part of a round of one loop, a part of a
completion, or stands beside both. `TrailStep` says which, with what becomes
of the trail.
-/

namespace RunnerKit.Queue

open RunnerKit.Jobs RunnerKit.Lib

/-! ## Steps beside the loops -/

/-- The observation tells of no attempt and of no end of an entry. -/
def Obs.aside : Obs → Bool
  | .sent _ _ | .retrying _ _ | .reported _ _ | .processed _ => false
  | _ => true

namespace Sys

/-- No attempt has sent the entry. -/
def Unsent (s : Sys) (e : Entry) : Prop := e.seq ∉ (sends s.log).map Prod.fst

/-- A step beside the loops and the completions. It may begin a completion, take a head or
drop the attempt. -/
structure Beside (s s' : Sys) : Prop where
  log : ∃ more, s'.log = s.log ++ more ∧ ∀ obs ∈ more, obs.aside = true
  failure : s'.st.lastFailure = s.st.lastFailure
  completing : ∀ k, s'.task.completing = some k → s.task.completing = some k ∨
    k.stage = .reporting ∧ k.entry ∈ s.waiting ∧
      (k.result = .err .leftUnsent ∨ s.Unsent k.entry)
  kept : ∀ k, s.task.completing = some k → s'.task.completing = some k
  attempt : s'.task.attempt = s.task.attempt ∨
    s'.task.attempt = none ∧ s'.task.point.leaving = true ∨
    s.task.attempt = none ∧ s.task.point.leaving = false ∧
      ∃ head, s'.task.attempt = some ⟨head.seq, head.write, .created⟩ ∧ s.Unsent head
  leaving : s.task.point.leaving = true → s'.task.point.leaving = true

inductive LoopStep (s : Sys) : Sys → Prop where
  | beside {s' : Sys} (h : s.Beside s') : LoopStep s s'
  | complete (entry : Entry) (result : WriteResult) (stage : Stage)
      (hc : s.task.completing = some ⟨entry, result, stage⟩) :
      LoopStep s (s.completeStep entry result stage)
  | send (attempt : Attempt) (hat : s.At .selecting) (hattempt : s.task.attempt = some attempt)
      (hphase : attempt.phase ≠ .sending) : LoopStep s (s.send attempt)
  | retry (attempt : Attempt) (error : Error) (hat : s.At .selecting)
      (hattempt : s.task.attempt = some attempt) (hphase : attempt.phase = .sending) :
      LoopStep s (s.retry attempt error)
  | done (attempt : Attempt) (result : WriteResult) (hat : s.At .selecting)
      (hattempt : s.task.attempt = some attempt) (hphase : attempt.phase = .sending) :
      LoopStep s (s.attemptDone result)

variable {s s' : Sys}

theorem not_sent_of_joins (hfifo : s.FifoInv) {e : Entry}
    (h : e.seq ∉ (joins s.log).map Entry.seq) : s.Unsent e := by
  intro hsent
  exact h (hfifo.sent.subset (mem_destutter_ne.mpr hsent))

/-- What waits in the queue has not been sent. -/
theorem unsent_of_fifo (hfifo : s.FifoInv) (hjoin : s.JoinInv)
    (hstay : s.task.point.leaving = false) {e : Entry} (he : e ∈ s.st.fifo) : s.Unsent e := by
  obtain ⟨done, cur, hline⟩ := hfifo.line hstay
  intro hsent
  have hbefore : e.seq ∈ (done ++ cur).map Entry.seq :=
    hline.sent.subset (mem_destutter_ne.mpr hsent)
  have hnodup := joins_nodup hjoin
  rw [hline.joins, List.map_append] at hnodup
  exact (List.nodup_append.mp hnodup).2.2 _ hbefore _ (List.mem_map_of_mem he) rfl

/-- A held marker has not joined. -/
theorem unsent_of_held (hfifo : s.FifoInv) (hjoin : s.JoinInv) {p : Entry × Option Write}
    (hp : p ∈ s.task.held) : s.Unsent p.1 := by
  apply not_sent_of_joins hfifo
  intro hjoined
  have hnodup := hjoin.nodup
  unfold joinable at hnodup
  have hdisjoint := (Multiset.nodup_add.mp hnodup).2.2
  refine Multiset.disjoint_left.mp hdisjoint (Multiset.mem_add.mpr (Or.inl hjoined)) ?_
  exact Multiset.mem_coe.mpr
    (List.mem_map_of_mem (f := fun p : Entry × Option Write => p.1.seq) hp)

theorem mem_of_takeHeld {seq : ℕ} {item : Entry × Option Write}
    {held rest : List (Entry × Option Write)} (h : takeHeld seq held = some (item, rest)) :
    item ∈ held :=
  (takeHeld_perm h).mem_iff.mpr List.mem_cons_self

/-- A step that leaves the completion and the attempt as they are. -/
theorem beside_of_same {more : List Obs} (hlog : s'.log = s.log ++ more)
    (hmore : ∀ obs ∈ more, obs.aside = true)
    (hfailure : s'.st.lastFailure = s.st.lastFailure)
    (hcompleting : s'.task.completing = s.task.completing)
    (hattempt : s'.task.attempt = s.task.attempt)
    (hleaving : s.task.point.leaving = true → s'.task.point.leaving = true) : s.Beside s' where
  log := ⟨more, hlog, hmore⟩
  failure := hfailure
  completing := by
    rw [hcompleting]
    exact fun k hk => Or.inl hk
  kept := by
    rw [hcompleting]
    exact fun k hk => hk
  attempt := Or.inl hattempt
  leaving := hleaving

/-- A completion begins of an entry that waited. -/
theorem beside_of_start {entry : Entry} {result : WriteResult}
    (hfree : s.task.completing = none) (hlog : s'.log = s.log)
    (hfailure : s'.st.lastFailure = s.st.lastFailure)
    (hcompleting : s'.task.completing = some ⟨entry, result, .reporting⟩)
    (hwaits : entry ∈ s.waiting) (hwhy : result = .err .leftUnsent ∨ s.Unsent entry)
    (hattempt : s'.task.attempt = s.task.attempt)
    (hleaving : s.task.point.leaving = true → s'.task.point.leaving = true) : s.Beside s' where
  log := ⟨[], by rw [hlog, List.append_nil], by simp⟩
  failure := hfailure
  completing := by
    intro k hk
    rw [hcompleting] at hk
    cases hk
    exact Or.inr ⟨rfl, hwaits, hwhy⟩
  kept := by
    rw [hfree]
    exact fun k hk => by cases hk
  attempt := Or.inl hattempt
  leaving := hleaving

/-- The drop of the task takes its attempt along. -/
theorem beside_of_leave {more : List Obs} (hlog : s'.log = s.log ++ more)
    (hmore : ∀ obs ∈ more, obs.aside = true)
    (hfailure : s'.st.lastFailure = s.st.lastFailure)
    (hcompleting : s'.task.completing = s.task.completing)
    (hattempt : s'.task.attempt = none) (hleaving : s'.task.point.leaving = true) :
    s.Beside s' where
  log := ⟨more, hlog, hmore⟩
  failure := hfailure
  completing := by
    rw [hcompleting]
    exact fun k hk => Or.inl hk
  kept := by
    rw [hcompleting]
    exact fun k hk => hk
  attempt := Or.inr (Or.inl ⟨hattempt, hleaving⟩)
  leaving := fun _ => hleaving

theorem loop_cases (hflight : s.InFlight) (hjoin : s.JoinInv) (hfifo : s.FifoInv)
    (hs : Step s s') : s.LoopStep s' := by
  have hnone : s.log = s.log ++ [] := (List.append_nil _).symm
  cases hs with
  | enqueue write now hopen => exact .beside (beside_of_same rfl (by simp [Obs.aside]) rfl rfl rfl id)
  | hold write follow now hopen =>
      exact .beside (beside_of_same rfl (by simp [Obs.aside]) rfl rfl rfl id)
  | unqueue write removal hwhy =>
      exact .beside (beside_of_same rfl (by simp [Obs.aside]) rfl rfl rfl id)
  | callNotify chan hcall => exact .beside (beside_of_same rfl (by simp [Obs.aside]) rfl rfl rfl id)
  | callTable chan write removal hcall =>
      exact .beside (beside_of_same hnone (by simp) State.recordEnd_lastFailure rfl rfl id)
  | callAnswer chan write removal hcall =>
      exact .beside (beside_of_same rfl (by simp [Obs.aside]) rfl rfl rfl id)
  | callReport chan write removal hcall =>
      exact .beside (beside_of_same rfl (by simp [Obs.aside]) rfl rfl rfl id)
  | stopNow => exact .beside (beside_of_same hnone (by simp) rfl rfl rfl id)
  | stopCancel hstop => exact .beside (beside_of_same hnone (by simp) rfl rfl rfl id)
  | complete entry result stage hc => exact .complete entry result stage hc
  | takeNewHeld hfree hpoint =>
      refine .beside (beside_of_same hnone (by simp) rfl rfl rfl ?_)
      intro hleaving
      rcases hpoint with hp | hp <;> rw [hp] at hleaving <;> cases hleaving
  | noHead hat =>
      refine .beside (beside_of_same hnone (by simp) rfl rfl rfl ?_)
      intro hleaving
      rw [hat.point] at hleaving
      cases hleaving
  | takeHead head rest hat hentry hopen hfifo' hblocked =>
      have hstay : s.task.point.leaving = false := by rw [hat.point]; rfl
      refine .beside ⟨⟨[], hnone, by simp⟩, rfl, fun k hk => Or.inl hk, fun k hk => hk,
        Or.inr (Or.inr ?_), ?_⟩
      · refine ⟨hflight.attempt_none hentry, hstay, head, rfl, ?_⟩
        exact unsent_of_fifo hfifo hjoin hstay (by simp [hfifo'])
      · intro hleaving
        rw [hstay] at hleaving
        cases hleaving
  | skipHead head rest removal hat hentry hopen hfifo' hblocked =>
      have hstay : s.task.point.leaving = false := by rw [hat.point]; rfl
      have hhead : head ∈ s.st.fifo := by simp [hfifo']
      exact .beside (beside_of_start hat.free rfl rfl rfl (by simp [waiting, hhead])
        (Or.inr (unsent_of_fifo hfifo hjoin hstay hhead)) rfl id)
  | send attempt hat hattempt hphase => exact .send attempt hat hattempt hphase
  | retry attempt error hat hattempt hphase => exact .retry attempt error hat hattempt hphase
  | attemptDone attempt outcome result hat hattempt hphase hjudge =>
      exact .done attempt result hat hattempt hphase
  | endHeld seq marker follow held removal hat htake hwhy =>
      have hmem := mem_of_takeHeld htake
      refine .beside (beside_of_start hat.free rfl rfl rfl ?_ (Or.inr (unsent_of_held hfifo hjoin hmem))
        rfl ?_)
      · have hheld : marker ∈ (s.task.held.map Prod.fst : Multiset Entry) :=
          List.mem_map_of_mem (f := Prod.fst) hmem
        simp only [waiting, Multiset.mem_add]
        exact Or.inl (Or.inl (Or.inr hheld))
      · intro hleaving
        rw [hat.point] at hleaving
        cases hleaving
  | joinHeld seq marker follow held now hat hopen htake =>
      refine .beside (beside_of_same rfl (by simp [Obs.aside]) (join_lastFailure ..) rfl rfl ?_)
      intro hleaving
      rw [hat.point] at hleaving
      cases hleaving
  | woken hat hwake =>
      refine .beside (beside_of_same hnone (by simp) rfl rfl rfl ?_)
      intro hleaving
      rw [hat.point] at hleaving
      cases hleaving
  | dropTask hfree hpoint => exact .beside (beside_of_leave hnone (by simp) rfl rfl rfl rfl)
  | dropLocked rest hat =>
      have hnot := (hflight.emptied (by rw [hat.point]; rfl)).2.2
      exact .beside (beside_of_leave rfl (by simp [Obs.aside]) rfl rfl hnot rfl)
  | dropEntry entry rest hat =>
      refine .beside (beside_of_start hat.free rfl rfl rfl ?_ (Or.inl rfl) rfl fun _ => rfl)
      simp [waiting, hat.point]
  | dropEnd hat => exact .beside (beside_of_same hnone (by simp) rfl rfl rfl fun _ => rfl)
  | drain => exact .beside (beside_of_same hnone (by simp) rfl rfl rfl id)
  | drainRead d seen hd => exact .beside (beside_of_same rfl (by simp [Obs.aside]) rfl rfl rfl id)
  | drainPark d upto seen hd hwaits =>
      exact .beside (beside_of_same hnone (by simp) rfl rfl rfl id)
  | drainPass d upto seen hd hwaits =>
      exact .beside (beside_of_same hnone (by simp) rfl rfl rfl id)
  | drainWake d upto seen hd hseen =>
      exact .beside (beside_of_same hnone (by simp) rfl rfl rfl id)
  | drainLeave d hd => exact .beside (beside_of_same rfl (by simp [Obs.aside]) rfl rfl rfl id)
  | drainAbandon d => exact .beside (beside_of_same hnone (by simp) rfl rfl rfl id)

/-! ## The steps with the trail -/

/-- The event is a send or the end of an attempt. -/
def isRound : Event → Bool
  | .task .send => true
  | .task (.attemptEnded _) => true
  | _ => false

theorem after_of_not_round {t : Trail} {e : Event} (he : isRound e = false) : t.after s e = t := by
  cases e with
  | task event => cases event <;> first | rfl | cases he
  | _ => rfl

/-- Every other event leaves the attempt as it is, or drops the task. -/
theorem attempt_kept (hflight : s.InFlight) {e : Event} (he : isRound e = false)
    (hs : s.step e = some s') {a : Attempt} (ha : s.task.attempt = some a) :
    s'.task.attempt = some a ∨ s'.task.point.leaving = true := by
  cases e with
  | enqueue write now =>
      simp only [step] at hs
      split at hs <;> cases hs <;> exact Or.inl ha
  | hold write follow now =>
      simp only [step] at hs
      split at hs <;> cases hs <;> exact Or.inl ha
  | call chan =>
      obtain ⟨call, hcall, rfl⟩ := Option.map_eq_some_iff.mp hs
      split <;> exact Or.inl ha
  | stopNow =>
      cases hs
      exact Or.inl ha
  | stopCancel =>
      simp only [step] at hs
      split at hs <;> cases hs
      exact Or.inl ha
  | complete =>
      obtain ⟨⟨entry, result, stage⟩, hc, rfl⟩ := Option.map_eq_some_iff.mp hs
      cases stage <;> exact Or.inl ha
  | drain =>
      cases hs
      exact Or.inl ha
  | drained d event =>
      cases event <;> simp only [step, drainedStep] at hs
      · split at hs <;> cases hs
        exact Or.inl ha
      · split at hs <;> cases hs
        exact Or.inl ha
      · split at hs
        · split at hs <;> cases hs
          exact Or.inl ha
        · cases hs
      · split at hs <;> cases hs
        exact Or.inl ha
      · cases hs
        exact Or.inl ha
  | task event =>
      simp only [step] at hs
      split at hs
      · cases event with
        | takeNewHeld =>
            simp only [taskStep] at hs
            split at hs <;> cases hs <;> exact Or.inl ha
        | nextHead =>
            simp only [taskStep] at hs
            split at hs <;> cases hs
            -- a head is taken only where no entry is in flight
            obtain ⟨entry, hentry, -⟩ := hflight.attempt a ha
            have hnext : s.nextHead = s.atPoint .selecting := by
              unfold nextHead
              rw [hentry]
            rw [hnext]
            exact Or.inl ha
        | send => cases he
        | attemptEnded outcome => cases he
        | gateEnded seq gate now =>
            simp only [taskStep] at hs
            split at hs
            · cases hs
              left
              cases gate with
              | stored =>
                  simp only [gateEnded]
                  split <;> exact ha
              | dropped => exact ha
            · cases hs
        | woken =>
            simp only [taskStep] at hs
            split at hs
            · split at hs <;> cases hs
              exact Or.inl ha
            · cases hs
        | stopSeen =>
            simp only [taskStep] at hs
            split at hs
            · split at hs <;> cases hs
              exact Or.inr rfl
            · cases hs
        | drop =>
            simp only [taskStep] at hs
            split at hs <;> cases hs <;> exact Or.inr rfl
        | dropLocked =>
            simp only [taskStep] at hs
            split at hs <;> cases hs
            exact Or.inr rfl
        | dropNext =>
            simp only [taskStep] at hs
            split at hs
            · rename_i rest _
              cases hs
              cases rest <;> exact Or.inr rfl
            · cases hs
      · cases hs

inductive TrailStep (s : Sys) (t : Trail) : Sys → Trail → Prop where
  | beside {s' : Sys} (h : s.Beside s') : TrailStep s t s' t
  | complete (entry : Entry) (result : WriteResult) (stage : Stage)
      (hc : s.task.completing = some ⟨entry, result, stage⟩) :
      TrailStep s t (s.completeStep entry result stage) t
  | send (attempt : Attempt) (hat : s.At .selecting) (hattempt : s.task.attempt = some attempt)
      (hphase : attempt.phase ≠ .sending) : TrailStep s t (s.send attempt) (t.send attempt)
  | retry (attempt : Attempt) (outcome : Outcome) (error : Error) (hat : s.At .selecting)
      (hattempt : s.task.attempt = some attempt) (hphase : attempt.phase = .sending)
      (hjudge : judge attempt.write outcome = .resend error) :
      TrailStep s t (s.retry attempt error) (t.ended attempt outcome)
  | done (attempt : Attempt) (outcome : Outcome) (result : WriteResult) (hat : s.At .selecting)
      (hattempt : s.task.attempt = some attempt) (hphase : attempt.phase = .sending)
      (hjudge : judge attempt.write outcome = .final result) :
      TrailStep s t (s.attemptDone result) (t.ended attempt outcome)

theorem trail_cases (hflight : s.InFlight) (hjoin : s.JoinInv) (hfifo : s.FifoInv) {t : Trail}
    {e : Event} (hs : s.step e = some s') : TrailStep s t s' (t.after s e) := by
  by_cases he : isRound e = false
  · rw [after_of_not_round he]
    have hkept := fun a => attempt_kept (a := a) hflight he hs
    cases loop_cases hflight hjoin hfifo (step_cases hs) with
    | beside h => exact .beside h
    | complete entry result stage hc => exact .complete entry result stage hc
    | send attempt hat hattempt hphase =>
        rcases hkept attempt hattempt with h | h
        · have hsame : { attempt with phase := .sending } = attempt := Option.some.inj h
          exact absurd (congrArg Attempt.phase hsame).symm hphase
        · rw [show (s.send attempt).task.point = s.task.point from rfl, hat.point] at h
          cases h
    | retry attempt error hat hattempt hphase =>
        rcases hkept attempt hattempt with h | h
        · have hsame : { attempt with phase := .retrying } = attempt := Option.some.inj h
          have hretrying := (congrArg Attempt.phase hsame).symm
          rw [hphase] at hretrying
          cases hretrying
        · rw [show (s.retry attempt error).task.point = s.task.point from rfl, hat.point] at h
          cases h
    | done attempt result hat hattempt hphase =>
        rcases hkept attempt hattempt with h | h <;> cases h
  · cases e with
    | task event =>
        simp only [step] at hs
        split at hs
        · rename_i hfree
          cases event with
          | send =>
              simp only [taskStep] at hs
              split at hs
              · rename_i attempt hpoint hattempt
                split at hs <;> cases hs
                have hafter : t.after s (.task .send) = t.send attempt := by
                  simp only [Trail.after, hattempt]
                rw [hafter]
                exact .send attempt ⟨hfree, hpoint⟩ hattempt ‹_›
              · cases hs
          | attemptEnded outcome =>
              simp only [taskStep] at hs
              split at hs
              · rename_i attempt hpoint hattempt
                have hafter : t.after s (.task (.attemptEnded outcome)) =
                    t.ended attempt outcome := by
                  simp only [Trail.after, hattempt]
                rw [hafter]
                split at hs
                · rename_i hphase
                  split at hs <;> cases hs
                  · exact .retry attempt outcome _ ⟨hfree, hpoint⟩ hattempt hphase ‹_›
                  · exact .done attempt outcome _ ⟨hfree, hpoint⟩ hattempt hphase ‹_›
                · cases hs
              · cases hs
          | _ => exact absurd rfl he
        · cases hs
    | _ => exact absurd rfl he

end Sys

end RunnerKit.Queue
