import RunnerKit.Queue.DrainReturns

/-!
# The history of the recorded ends

The table of ended keys is written in a lock section of its own: by the
completion of a queued write, and by a hand-over that queued nothing. The log
shows neither section. A history runs beside the queue and notes, in their
true order, what the dependencies are about: the writes that joined, the ends
that were recorded, and the sends.
-/

namespace RunnerKit.Queue

open RunnerKit.Jobs RunnerKit.Lib

/-! ## Notes -/

/-- A recorded end carries the number of its entry; the end of a hand-over
that queued nothing has none. -/
inductive Note where
  | joined (entry : Entry)
  | recorded (seq : Option ℕ) (write : Write) (result : WriteResult)
  | sent (seq : ℕ) (write : Write)

namespace Note

def entry : Note → Option Entry
  | .joined entry => some entry
  | _ => none

def send : Note → Option (ℕ × Write)
  | .sent seq write => some (seq, write)
  | _ => none

def endedSeq : Note → Option ℕ
  | .recorded seq _ _ => seq
  | _ => none

/-- The end of a write that owns the key. -/
def endOf (key : DepKey) : Note → Option WriteResult
  | .recorded _ write result =>
      if ownKey write = some key then some result else none
  | _ => none

end Note

def entries (notes : List Note) : List Entry := notes.filterMap Note.entry

def noteSends (notes : List Note) : List (ℕ × Write) := notes.filterMap Note.send

def endedSeqs (notes : List Note) : List ℕ := notes.filterMap Note.endedSeq

def endsOf (key : DepKey) (notes : List Note) : List WriteResult :=
  notes.filterMap (Note.endOf key)

section Reading

variable (key : DepKey) (notes more : List Note)

@[simp] theorem entries_append :
    entries (notes ++ more) = entries notes ++ entries more :=
  List.filterMap_append

@[simp] theorem noteSends_append :
    noteSends (notes ++ more) = noteSends notes ++ noteSends more :=
  List.filterMap_append

@[simp] theorem endedSeqs_append :
    endedSeqs (notes ++ more) = endedSeqs notes ++ endedSeqs more :=
  List.filterMap_append

@[simp] theorem endsOf_append :
    endsOf key (notes ++ more) = endsOf key notes ++ endsOf key more :=
  List.filterMap_append

end Reading

/-! ## The queue with its history -/

/-- What an observation tells of joins and sends. -/
def Obs.notes (obs : Obs) : List Note :=
  obs.joins.map .joined ++ obs.sentWrite.toList.map fun p => .sent p.1 p.2

namespace Sys

/-- The end that the event records in the table. -/
def recordedBy (s : Sys) : Event → List Note
  | .complete =>
      match s.task.completing with
      | some ⟨entry, result, .removing⟩ =>
          [.recorded (some entry.seq) entry.write result]
      | _ => []
  | .call chan =>
      match s.calls chan with
      | some (.unqueued write removal .table) =>
          [.recorded none write (.err removal)]
      | _ => []
  | _ => []

def notedStep (p : Sys × List Note) (e : Event) : Option (Sys × List Note) :=
  (p.1.step e).map fun s' =>
    (s', p.2 ++ p.1.recordedBy e ++
      (s'.log.drop p.1.log.length).flatMap Obs.notes)

def history : Machine (Sys × List Note) Event := ⟨(init, []), notedStep⟩

/-- The history watches the queue: it hinders none of its steps. -/
theorem history_step {s s' : Sys} {h : List Note} {e : Event}
    (hs : s.step e = some s') :
    ∃ h', history.step (s, h) e = some (s', h') := by
  refine ⟨h ++ s.recordedBy e ++
    (s'.log.drop s.log.length).flatMap Obs.notes, ?_⟩
  change Option.map _ (s.step e) = _
  rw [hs]
  rfl

theorem reachable_of_history {p : Sys × List Note}
    (h : history.Reachable p) : machine.Reachable p.1 := by
  refine Machine.Reachable.invariant (P := fun p => machine.Reachable p.1)
    .init ?_ h
  intro p p' e hp hs
  obtain ⟨s', hs', rfl⟩ := Option.map_eq_some_iff.mp hs
  exact hp.step hs'

theorem history_of_reachable {s : Sys} (h : machine.Reachable s) :
    ∃ notes, history.Reachable (s, notes) := by
  refine Machine.Reachable.invariant (P := fun s => ∃ n, history.Reachable (s, n))
    ⟨[], .init⟩ ?_ h
  rintro s s' e ⟨notes, hp⟩ hs
  obtain ⟨notes', hs'⟩ := history_step (h := notes) hs
  exact ⟨notes', hp.step hs'⟩

/-! ## What one step notes -/

/-- A step that records no end. -/
structure Plain (s s' : Sys) : Prop where
  ended : s'.st.ended = s.st.ended
  log : ∃ more, s'.log = s.log ++ more ∧ processed more = []

inductive Noted (s : Sys) : Sys → List Note → Prop where
  | completed (entry : Entry) (result : WriteResult)
      (hc : s.task.completing = some ⟨entry, result, .removing⟩) :
      Noted s (s.completeStep entry result .removing)
        [.recorded (some entry.seq) entry.write result]
  | called (chan : Chan) (write : Write) (removal : Removal)
      (hcall : s.calls chan = some (.unqueued write removal .table)) :
      Noted s (s.callTable chan write removal) [.recorded none write (.err removal)]
  | plain {s' : Sys} (more : List Obs) (hs : Step s s')
      (hended : s'.st.ended = s.st.ended) (hlog : s'.log = s.log ++ more)
      (hprocessed : processed more = []) : Noted s s' (more.flatMap Obs.notes)

variable {s s' : Sys}

theorem plain_of_log (hended : s'.st.ended = s.st.ended) {more : List Obs}
    (hlog : s'.log = s.log ++ more) (hprocessed : processed more = []) :
    s.Plain s' :=
  ⟨hended, more, hlog, hprocessed⟩

theorem plain_quiet (hended : s'.st.ended = s.st.ended) (hlog : s'.log = s.log) :
    s.Plain s' :=
  ⟨hended, [], by simp [hlog], rfl⟩

theorem nextHead_plain : s.Plain s.nextHead := by
  unfold nextHead
  split
  · exact plain_quiet rfl rfl
  · split
    · exact plain_quiet rfl rfl
    · rename_i head st hpop
      obtain ⟨-, rest, -, rfl⟩ := popHead_some hpop
      split <;> exact plain_quiet rfl rfl

theorem joinHeld_plain {held : List (Entry × Option Write)} {marker : Entry}
    {follow : Option Write} {now : ℕ} :
    s.Plain (s.joinHeld held marker follow now) := by
  refine plain_of_log ?_ rfl (by simp [Obs.processedSeq])
  cases follow <;> rfl

theorem gateEnded_plain {held : List (Entry × Option Write)} {marker : Entry}
    {follow : Option Write} {gate : Gate} {now : ℕ} :
    s.Plain (s.gateEnded held marker follow gate now) := by
  cases gate with
  | stored =>
      simp only [gateEnded]
      split
      · exact plain_quiet rfl rfl
      · exact joinHeld_plain
  | dropped => exact plain_quiet rfl rfl

theorem taskStep_plain {e : TaskEvent} (h : s.taskStep e = some s') :
    s.Plain s' := by
  cases e with
  | takeNewHeld =>
      simp only [taskStep] at h
      split at h <;> cases h <;> exact plain_quiet rfl rfl
  | nextHead =>
      simp only [taskStep] at h
      split at h <;> cases h
      exact nextHead_plain
  | send =>
      simp only [taskStep] at h
      split at h
      · split at h <;> cases h
        exact plain_of_log rfl rfl (by simp [Obs.processedSeq])
      · cases h
  | attemptEnded outcome =>
      simp only [taskStep] at h
      split at h
      · split at h
        · split at h <;> cases h
          · exact plain_of_log rfl rfl (by simp [Obs.processedSeq])
          · exact plain_quiet rfl rfl
        · cases h
      · cases h
  | gateEnded seq gate now =>
      simp only [taskStep] at h
      split at h <;> cases h
      exact gateEnded_plain
  | woken =>
      simp only [taskStep] at h
      split at h
      · split at h <;> cases h
        exact plain_quiet rfl rfl
      · cases h
  | stopSeen =>
      simp only [taskStep] at h
      split at h
      · split at h <;> cases h
        exact plain_quiet rfl rfl
      · cases h
  | drop =>
      simp only [taskStep] at h
      split at h <;> cases h <;> exact plain_quiet rfl rfl
  | dropLocked =>
      simp only [taskStep] at h
      split at h <;> cases h
      exact plain_of_log rfl rfl (by simp [Obs.processedSeq])
  | dropNext =>
      simp only [taskStep] at h
      split at h
      · rename_i rest hpoint
        cases h
        cases rest <;> exact plain_quiet rfl rfl
      · cases h

theorem drainedStep_plain {d : ℕ} {e : DrainEvent}
    (h : s.drainedStep d e = some s') : s.Plain s' := by
  cases e with
  | read =>
      simp only [drainedStep] at h
      split at h <;> cases h
      exact plain_of_log rfl rfl (by simp [Obs.processedSeq])
  | check =>
      simp only [drainedStep] at h
      split at h <;> cases h
      exact plain_quiet rfl rfl
  | wake =>
      simp only [drainedStep] at h
      split at h
      · split at h <;> cases h
        exact plain_quiet rfl rfl
      · cases h
  | leave =>
      simp only [drainedStep] at h
      split at h <;> cases h
      exact plain_of_log rfl rfl (by simp [Obs.processedSeq])
  | abandon =>
      cases h
      exact plain_quiet rfl rfl

theorem noted_of_plain (hs : Step s s') (h : s.Plain s') :
    Noted s s' ((s'.log.drop s.log.length).flatMap Obs.notes) := by
  obtain ⟨hended, more, hlog, hprocessed⟩ := h
  have hdrop : s'.log.drop s.log.length = more := by
    rw [hlog]
    exact List.drop_left
  rw [hdrop]
  exact .plain more hs hended hlog hprocessed

theorem complete_noted {entry : Entry} {result : WriteResult} {stage : Stage}
    (hc : s.task.completing = some ⟨entry, result, stage⟩) :
    Noted s (s.completeStep entry result stage)
      (s.recordedBy .complete ++
        ((s.completeStep entry result stage).log.drop s.log.length).flatMap
          Obs.notes) := by
  have hstep : Step s (s.completeStep entry result stage) :=
    .complete entry result stage hc
  cases stage with
  | removing =>
      have hnotes : s.recordedBy .complete =
          [.recorded (some entry.seq) entry.write result] := by
        simp only [recordedBy, hc]
      have hdrop : (s.completeStep entry result .removing).log.drop s.log.length =
          [.processed entry.seq] := List.drop_left
      rw [hnotes, hdrop]
      exact .completed entry result hc
  | reporting =>
      simp only [recordedBy, hc, List.nil_append]
      exact noted_of_plain hstep
        (plain_of_log rfl rfl (by simp [Obs.processedSeq]))
  | sending =>
      simp only [recordedBy, hc, List.nil_append]
      exact noted_of_plain hstep
        (plain_of_log rfl rfl (by simp [Obs.processedSeq]))
  | signalling =>
      simp only [recordedBy, hc, List.nil_append]
      exact noted_of_plain hstep (plain_quiet rfl rfl)

theorem call_noted {chan : Chan} (h : s.callStep chan = some s') :
    Noted s s' (s.recordedBy (.call chan) ++
      (s'.log.drop s.log.length).flatMap Obs.notes) := by
  have hstep := callStep_cases h
  obtain ⟨call, hcall, rfl⟩ := Option.map_eq_some_iff.mp h
  cases call with
  | notify =>
      simp only [recordedBy, hcall, List.nil_append]
      exact noted_of_plain hstep
        (plain_of_log rfl rfl (by simp [Obs.processedSeq]))
  | unqueued write removal stage =>
      cases stage with
      | table =>
          have hnotes : s.recordedBy (.call chan) =
              [.recorded none write (.err removal)] := by
            simp only [recordedBy, hcall]
          have hdrop : (s.callTable chan write removal).log.drop s.log.length =
              [] := List.drop_length
          rw [hnotes, hdrop]
          exact .called chan write removal hcall
      | answer =>
          simp only [recordedBy, hcall, List.nil_append]
          exact noted_of_plain hstep
            (plain_of_log rfl rfl (by simp [Obs.processedSeq]))
      | report =>
          simp only [recordedBy, hcall, List.nil_append]
          exact noted_of_plain hstep
            (plain_of_log rfl rfl (by simp [Obs.processedSeq]))

/-- Every step of the history is one of the listed ones. -/
theorem noted_cases {notes notes' : List Note} {e : Event}
    (h : history.step (s, notes) e = some (s', notes')) :
    s.step e = some s' ∧ ∃ new, notes' = notes ++ new ∧ Noted s s' new := by
  obtain ⟨t, ht, heq⟩ := Option.map_eq_some_iff.mp h
  obtain ⟨rfl, rfl⟩ := Prod.mk.inj heq
  refine ⟨ht, _, List.append_assoc .., ?_⟩
  have hstep := step_cases ht
  cases e with
  | complete =>
      obtain ⟨⟨entry, result, stage⟩, hc, rfl⟩ := Option.map_eq_some_iff.mp ht
      exact complete_noted hc
  | call chan => exact call_noted ht
  | enqueue write now =>
      refine noted_of_plain hstep ?_
      cases ht
      split
      · exact plain_of_log rfl rfl (by simp [Obs.processedSeq])
      · exact plain_of_log rfl rfl (by simp [Obs.processedSeq])
  | hold write follow now =>
      refine noted_of_plain hstep ?_
      cases ht
      split
      · exact plain_of_log rfl rfl (by simp [Obs.processedSeq])
      · exact plain_of_log rfl rfl (by simp [Obs.processedSeq])
  | stopNow =>
      refine noted_of_plain hstep ?_
      cases ht
      exact plain_quiet rfl rfl
  | stopCancel =>
      refine noted_of_plain hstep ?_
      simp only [step] at ht
      split at ht <;> cases ht
      exact plain_quiet rfl rfl
  | task event =>
      refine noted_of_plain hstep ?_
      simp only [step] at ht
      split at ht
      · exact taskStep_plain ht
      · cases ht
  | drain =>
      refine noted_of_plain hstep ?_
      cases ht
      exact plain_quiet rfl rfl
  | drained d event => exact noted_of_plain hstep (drainedStep_plain ht)

end Sys

end RunnerKit.Queue
