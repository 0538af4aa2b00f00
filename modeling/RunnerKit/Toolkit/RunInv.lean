import RunnerKit.Toolkit.RunEnd

/-!
# What a Run has handed over

The invariant of a Run over its queue: which channels carry the writes of its
end, what stood before each of them when it was handed over, and what the awaits
of the closing have given at each place.
-/

namespace RunnerKit.Toolkit.RunEnd

open RunnerKit.Jobs RunnerKit.Book RunnerKit.Queue RunnerKit.Lib

namespace Sys

variable {σ : Type} {plan : Plan σ} {s s' : Sys σ}

/-! ## The queue of a Run -/

theorem onQueue_some {event : Queue.Event} (h : s.onQueue event = some s') :
    ∃ q notes, Queue.Sys.history.step (s.queue, s.notes) event = some (q, notes) ∧
      s' = { s with queue := q, notes := notes } := by
  obtain ⟨⟨q, notes⟩, hs, rfl⟩ := Option.map_eq_some_iff.mp h
  exact ⟨q, notes, hs, rfl⟩

/-- A step of the Run leaves its queue alone or is a step of it. -/
def OnHistory (s s' : Sys σ) : Prop :=
  (s'.queue, s'.notes) = (s.queue, s.notes) ∨
    ∃ e, Queue.Sys.history.step (s.queue, s.notes) e = some (s'.queue, s'.notes)

theorem onHistory_of_onQueue {event : Queue.Event} {t : Sys σ}
    (h : s.onQueue event = some t) (hq : s'.queue = t.queue) (hn : s'.notes = t.notes) :
    s.OnHistory s' := by
  obtain ⟨q, notes, hs, rfl⟩ := onQueue_some h
  exact Or.inr ⟨event, by rw [hq, hn]; exact hs⟩

theorem handOver_history {messageId : Uuid} {now : ℕ}
    (h : s.handOver plan messageId now = some s') : s.OnHistory s' := by
  simp only [handOver] at h
  split at h
  case h_5 => cases h
  all_goals
    obtain ⟨t, ht, rfl⟩ := Option.map_eq_some_iff.mp h
    exact onHistory_of_onQueue ht rfl rfl

theorem awaited_history (h : s.awaited plan = some s') : s.OnHistory s' := by
  simp only [awaited] at h
  split at h
  case h_5 => cases h
  all_goals obtain ⟨r, -, rfl⟩ := Option.map_eq_some_iff.mp h
  · exact Or.inl rfl
  · exact Or.inl rfl
  · left
    split <;> rfl
  · exact Or.inl rfl

theorem ownStep_history {e : Event σ} (h : s.ownStep plan e = some s') :
    s.OnHistory s' := by
  cases e with
  | queue event => cases h
  | opened startId now =>
      simp only [ownStep] at h
      split at h
      · obtain ⟨t, ht, rfl⟩ := Option.map_eq_some_iff.mp h
        exact onHistory_of_onQueue ht rfl rfl
      · cases h
  | started =>
      simp only [ownStep] at h
      split at h
      · obtain ⟨r, -, rfl⟩ := Option.map_eq_some_iff.mp h
        left
        split <;> rfl
      · cases h
  | bodyEnded ending =>
      simp only [ownStep] at h
      split at h <;> cases h
      exact Or.inl rfl
  | settled agents =>
      simp only [ownStep] at h
      split at h <;> cases h
      left
      unfold afterSettle
      split <;> rfl
  | handOver messageId now => exact handOver_history h
  | awaited => exact awaited_history h
  | drain =>
      simp only [ownStep] at h
      split at h
      · obtain ⟨t, ht, rfl⟩ := Option.map_eq_some_iff.mp h
        exact onHistory_of_onQueue ht rfl rfl
      · cases h
  | drained =>
      simp only [ownStep] at h
      split at h
      · split at h <;> cases h
        exact Or.inl rfl
      · cases h
  | abort =>
      simp only [ownStep] at h
      split at h <;> cases h
      exact Or.inl rfl

theorem step_history {e : Event σ} (h : s.step plan e = some s') : s.OnHistory s' := by
  cases e with
  | queue event =>
      simp only [step] at h
      split at h
      · cases h
      · split at h
        · exact onHistory_of_onQueue h rfl rfl
        · cases h
  | _ =>
      simp only [step] at h
      split at h
      · exact ownStep_history h
      · cases h

/-- The queue of a Run is a queue: whatever holds of its histories holds here. -/
theorem history_reachable (h : (machine plan).Reachable s) :
    Queue.Sys.history.Reachable (s.queue, s.notes) := by
  refine Machine.Reachable.invariant
    (P := fun s => Queue.Sys.history.Reachable (s.queue, s.notes)) .init ?_ h
  intro s s' e hs hstep
  rcases step_history hstep with hsame | ⟨event, hq⟩
  · rw [hsame]
    exact hs
  · exact hs.step hq

/-! ## The writes of the end and their channels -/

/-- A write that only the Run hands over went to the channel that it keeps. -/
def Owns (s : Sys σ) (c : Chan) : Write → Prop
  | .started _ _ => c = 0
  | .answer _ => s.answer = some c
  | .savedState _ => s.saved = some c
  | .fact (.completed _) _ => s.completed = some c
  | .fact (.failed _ _) _ => s.failed = some c
  | _ => True

theorem owns_ofNodes {c : Chan} {write : Write} (h : ofNodes write = true) :
    s.Owns c write := by
  cases write with
  | fact fact id => cases fact <;> trivial
  | started runId startId => cases h
  | answer content => cases h
  | savedState state => cases h
  | _ => trivial

/-- What an await has given. -/
def Got (log : List Queue.Obs) : Option Chan → Option WriteResult → Prop
  | none, r => r = none
  | some c, r => ∃ result, r = some result ∧ (c, result) ∈ results log

theorem Got.append {log more : List Queue.Obs} {chan : Option Chan} {r : Option WriteResult}
    (h : Got log chan r) : Got (log ++ more) chan r := by
  cases chan with
  | none => exact h
  | some c =>
      obtain ⟨result, rfl, hin⟩ := h
      refine ⟨result, rfl, ?_⟩
      rw [results_append]
      exact List.mem_append_left _ hin

theorem resultOf_mem {log : List Queue.Obs} {c : Chan} {result : WriteResult}
    (h : resultOf log c = some result) : (c, result) ∈ results log := by
  obtain ⟨⟨c', r⟩, hfind, rfl⟩ := Option.map_eq_some_iff.mp h
  have hc : c' = c := by simpa using List.find?_some hfind
  exact hc ▸ List.mem_of_find?_eq_some hfind

theorem got_of_awaitEnd {chan : Option Chan} {r : Option WriteResult}
    (h : s.awaitEnd chan = some r) : Got s.queue.log chan r := by
  cases chan with
  | none => exact (Option.some.inj h).symm
  | some c =>
      obtain ⟨result, hresult, rfl⟩ := Option.map_eq_some_iff.mp h
      exact ⟨result, rfl, resultOf_mem hresult⟩

/-- A completed fact joins behind the owners that it depends on. -/
def BehindOwners (answer saved : Option Chan) (pre : List Note) (note : Note) : Prop :=
  ∀ e, note = .joined e → isCompleted e.write = true →
    (answer.isSome → Known .answer pre) ∧ (saved.isSome → Known .savedState pre)

/-- The failed fact of the closing: it stands behind the ends that it tells of,
and a queue that had left one of them unsent did not take it. -/
def Late (plan : Plan σ) (s : Sys σ) (failed completed : Chan) : Prop :=
  ∃ pre obs post answer saved cause messageId, s.queue.log = pre ++ obs :: post ∧
    obs.handed = some (failed, .fact (.failed plan.runId cause) messageId) ∧
    Got pre s.answer answer ∧ Got pre s.saved saved ∧
    (completed, .err .dependsOnRemoved) ∈ results pre ∧
    closingFailed plan.mapping answer saved (.err .dependsOnRemoved) = some cause ∧
    (obs.registered.isSome → ∀ c, (c, .err .leftUnsent) ∉ results pre)

/-- What holds wherever the Run stands. -/
structure Base (plan : Plan σ) (s : Sys σ) : Prop where
  own : ∀ c write, (c, write) ∈ handed s.queue.log → s.Owns c write
  answered : ∀ c, s.answer = some c →
    ∃ content, (c, .answer content) ∈ handed s.queue.log
  savedState : ∀ c, s.saved = some c →
    ∃ state, (c, .savedState state) ∈ handed s.queue.log
  completedFact : ∀ c, s.completed = some c →
    ∃ runId messageId, (c, .fact (.completed runId) messageId) ∈ handed s.queue.log
  held : s.queue.HeldOf fun write => ofNodes write = true
  markers : ∀ e follow, .held e follow ∈ s.queue.log → ofNodes e.write = true
  behind : Always (BehindOwners s.answer s.saved) s.notes
  opened : s.ending.isSome → (0, .ok) ∈ results s.queue.log
  handedEnd : s.answer.isSome ∨ s.saved.isSome ∨ s.completed.isSome ∨ s.failed.isSome →
    s.ending.isSome ∧ s.ending ≠ some .cancelled
  alone : s.failed.isSome → s.completed = none → s.answer = none ∧ s.saved = none
  late : ∀ c c', s.failed = some c → s.completed = some c' → Late plan s c c'

/-- The awaits are over. -/
structure Closed (plan : Plan σ) (s : Sys σ) : Prop where
  covered : s.answer.isSome ∨ s.saved.isSome → s.completed.isSome
  closed : ∀ c, s.completed = some c →
    ∃ answer saved result, Got s.queue.log s.answer answer ∧
      Got s.queue.log s.saved saved ∧ (c, result) ∈ results s.queue.log ∧
      (s.failed = none → closingFailed plan.mapping answer saved result = none)

structure Untouched (s : Sys σ) : Prop where
  answer : s.answer = none
  saved : s.saved = none
  completed : s.completed = none
  failed : s.failed = none

/-- What a place tells of the writes of the end. -/
def Fits (plan : Plan σ) (s : Sys σ) : Place σ → Prop
  | .created => s.queue = .init ∧ s.notes = [] ∧ s.ending = none
  | .opening => s.ending = none
  | .unopened => s.ending = none
  | .executing => s.ending = none ∧ (0, .ok) ∈ results s.queue.log
  | .settling ending => s.ending = some ending ∧ s.Untouched
  | .handing answer saved =>
      s.completed = none ∧ s.failed = none ∧
        (s.ending.isSome ∧ s.ending ≠ some .cancelled) ∧
        (answer.isSome → s.answer = none) ∧ (saved.isSome → s.saved = none)
  | .failing failed =>
      s.failed = none ∧ (s.ending.isSome ∧ s.ending ≠ some .cancelled) ∧
        (s.completed = none → s.answer = none ∧ s.saved = none) ∧
        ∀ c, s.completed = some c → ∃ answer saved,
          Got s.queue.log s.answer answer ∧ Got s.queue.log s.saved saved ∧
            (c, .err .dependsOnRemoved) ∈ results s.queue.log ∧
            closingFailed plan.mapping answer saved (.err .dependsOnRemoved) =
              some failed
  | .awaitAnswer => s.completed.isSome ∧ s.failed = none
  | .awaitSaved answer =>
      s.completed.isSome ∧ s.failed = none ∧ Got s.queue.log s.answer answer
  | .awaitCompleted answer saved =>
      s.completed.isSome ∧ s.failed = none ∧ Got s.queue.log s.answer answer ∧
        Got s.queue.log s.saved saved
  | .awaitFailed => s.failed.isSome
  | .closing | .draining _ | .over => Closed plan s
  | .aborted => True

structure RunInv (plan : Plan σ) (s : Sys σ) : Prop where
  base : Base plan s
  fits : Fits plan s s.place

theorem runInv_init : RunInv plan (init : Sys σ) where
  base :=
    { own := by simp [init, Queue.Sys.init]
      answered := by simp [init]
      savedState := by simp [init]
      completedFact := by simp [init]
      held := Queue.Sys.heldOf_init
      markers := by simp [init, Queue.Sys.init]
      behind := always_nil
      opened := by simp [init]
      handedEnd := by simp [init]
      alone := by simp [init]
      late := by simp [init] }
  fits := ⟨rfl, rfl, rfl⟩

/-! ## Steps that hand over nothing of the end -/

/-- The log and the notes have grown, and nothing else changed. -/
structure Grown (s s' : Sys σ) (more : List Queue.Obs) (new : List Note) : Prop where
  log : s'.queue.log = s.queue.log ++ more
  notes : s'.notes = s.notes ++ new
  ending : s'.ending = s.ending
  answer : s'.answer = s.answer
  saved : s'.saved = s.saved
  completed : s'.completed = s.completed
  failed : s'.failed = s.failed

variable {more : List Queue.Obs} {new : List Note}

theorem Grown.results_mem (h : Grown s s' more new) {p : Chan × WriteResult}
    (hp : p ∈ results s.queue.log) : p ∈ results s'.queue.log := by
  rw [h.log, results_append]
  exact List.mem_append_left _ hp

theorem Grown.got (h : Grown s s' more new) {chan : Option Chan}
    {r : Option WriteResult} (hr : Got s.queue.log chan r) : Got s'.queue.log chan r := by
  rw [h.log]
  exact hr.append

theorem Late.grow {c c' : Chan} (hlate : Late plan s c c')
    (hlog : s'.queue.log = s.queue.log ++ more) (hanswer : s'.answer = s.answer)
    (hsaved : s'.saved = s.saved) : Late plan s' c c' := by
  obtain ⟨pre, obs, post, answer, saved, cause, messageId, heq, hrest⟩ := hlate
  refine ⟨pre, obs, post ++ more, answer, saved, cause, messageId, ?_, ?_⟩
  · rw [hlog, heq]
    simp
  · rw [hanswer, hsaved]
    exact hrest

theorem Base.grow (h : Base plan s) (hgrown : Grown s s' more new)
    (hheld : s'.queue.HeldOf fun write => ofNodes write = true)
    (hmore : Brings (fun write => ofNodes write = true) more)
    (hnew : ∀ e ∈ entries new, ofNodes e.write = true) : Base plan s' := by
  have hhanded : ∀ {p}, p ∈ handed s.queue.log → p ∈ handed s'.queue.log := by
    intro p hp
    rw [hgrown.log, handed_append]
    exact List.mem_append_left _ hp
  constructor
  · intro c write hin
    rw [hgrown.log, handed_append] at hin
    rcases List.mem_append.mp hin with hin | hin
    · have hown := h.own c write hin
      unfold Owns at hown ⊢
      rw [hgrown.answer, hgrown.saved, hgrown.completed, hgrown.failed]
      exact hown
    · exact owns_ofNodes (hmore.handed c write hin)
  · intro c hc
    rw [hgrown.answer] at hc
    exact (h.answered c hc).imp fun _ => hhanded
  · intro c hc
    rw [hgrown.saved] at hc
    exact (h.savedState c hc).imp fun _ => hhanded
  · intro c hc
    rw [hgrown.completed] at hc
    exact (h.completedFact c hc).imp fun _ => Exists.imp fun _ => hhanded
  · exact hheld
  · intro e follow hin
    rw [hgrown.log] at hin
    rcases List.mem_append.mp hin with hin | hin
    · exact h.markers e follow hin
    · exact hmore.held e follow hin
  · rw [hgrown.notes, hgrown.answer, hgrown.saved]
    refine always_append h.behind ?_
    rintro note hnote pre e rfl hcompleted
    have hnodes := hnew e (mem_entries.mpr hnote)
    unfold ofNodes isTerminal at hnodes
    unfold isCompleted at hcompleted
    split at hcompleted <;> simp_all
  · rw [hgrown.ending]
    exact fun hending => hgrown.results_mem (h.opened hending)
  · rw [hgrown.ending, hgrown.answer, hgrown.saved, hgrown.completed, hgrown.failed]
    exact h.handedEnd
  · rw [hgrown.answer, hgrown.saved, hgrown.completed, hgrown.failed]
    exact h.alone
  · rw [hgrown.completed, hgrown.failed]
    exact fun c c' hc hc' => (h.late c c' hc hc').grow hgrown.log hgrown.answer hgrown.saved

theorem Closed.grow (h : Closed plan s) (hgrown : Grown s s' more new) :
    Closed plan s' where
  covered := by
    rw [hgrown.answer, hgrown.saved, hgrown.completed]
    exact h.covered
  closed := by
    rw [hgrown.completed, hgrown.failed, hgrown.answer, hgrown.saved]
    intro c hc
    obtain ⟨answer, saved, result, ha, hs, hr, hnone⟩ := h.closed c hc
    exact ⟨answer, saved, result, hgrown.got ha, hgrown.got hs, hgrown.results_mem hr,
      hnone⟩

theorem Fits.grow {place : Place σ} (h : Fits plan s place)
    (hplace : place ≠ .created) (hgrown : Grown s s' more new) :
    Fits plan s' place := by
  obtain ⟨hlog, hnotes, hending, hanswer, hsaved, hcompleted, hfailed⟩ := hgrown
  have hgrown : Grown s s' more new :=
    ⟨hlog, hnotes, hending, hanswer, hsaved, hcompleted, hfailed⟩
  cases place with
  | created => exact absurd rfl hplace
  | opening => exact hending.trans h
  | unopened => exact hending.trans h
  | executing => exact ⟨hending.trans h.1, hgrown.results_mem h.2⟩
  | settling ending =>
      obtain ⟨hending', huntouched⟩ := h
      exact ⟨hending.trans hending', hanswer.trans huntouched.answer,
        hsaved.trans huntouched.saved, hcompleted.trans huntouched.completed,
        hfailed.trans huntouched.failed⟩
  | handing answer saved =>
      unfold Fits
      rw [hcompleted, hfailed, hending, hanswer, hsaved]
      exact h
  | failing failed =>
      unfold Fits
      rw [hcompleted, hfailed, hending, hanswer, hsaved]
      refine ⟨h.1, h.2.1, h.2.2.1, fun c hc => ?_⟩
      obtain ⟨answer, saved, ha, hs, hr, hcause⟩ := h.2.2.2 c hc
      exact ⟨answer, saved, hgrown.got ha, hgrown.got hs, hgrown.results_mem hr, hcause⟩
  | awaitAnswer =>
      unfold Fits
      rw [hcompleted, hfailed]
      exact h
  | awaitSaved answer =>
      unfold Fits
      rw [hcompleted, hfailed, hanswer]
      exact ⟨h.1, h.2.1, hgrown.got h.2.2⟩
  | awaitCompleted answer saved =>
      unfold Fits
      rw [hcompleted, hfailed, hanswer, hsaved]
      exact ⟨h.1, h.2.1, hgrown.got h.2.2.1, hgrown.got h.2.2.2⟩
  | awaitFailed =>
      unfold Fits
      rw [hfailed]
      exact h
  | closing => exact Closed.grow h hgrown
  | draining d => exact Closed.grow h hgrown
  | «over» => exact Closed.grow h hgrown
  | aborted => trivial

/-- The notes of a step join what its log joins. -/
theorem entries_new {q : Queue.Sys} {notes : List Note}
    (hreach : Queue.Sys.history.Reachable (s.queue, s.notes))
    (hreach' : Queue.Sys.history.Reachable (q, notes))
    (hlog : q.log = s.queue.log ++ more) (hnotes : notes = s.notes ++ new) :
    entries new = joins more := by
  have hold : entries s.notes = joins s.queue.log :=
    (Queue.Sys.historyInv hreach).joins
  have hnow : entries notes = joins q.log := (Queue.Sys.historyInv hreach').joins
  rw [hnotes, hlog, entries_append, joins_append, hold] at hnow
  exact List.append_cancel_left hnow

/-- A step of the environment, or a drained call of the closing. -/
theorem RunInv.onQueue (h : RunInv plan s)
    (hreach : Queue.Sys.history.Reachable (s.queue, s.notes)) {event : Queue.Event}
    (hevent : ∀ write ∈ event.writes, ofNodes write = true)
    (hplace : s.place ≠ .created) (hs : s.onQueue event = some s') :
    RunInv plan s' ∧ s'.place = s.place := by
  obtain ⟨q, notes, hstep, rfl⟩ := onQueue_some hs
  obtain ⟨hq, new, hnotes, -⟩ := Queue.Sys.noted_cases hstep
  obtain ⟨hheld, more, hlog, hmore⟩ := h.base.held.step hq hevent
  have hgrown : Grown s { s with queue := q, notes := notes } more new :=
    ⟨hlog, hnotes, rfl, rfl, rfl, rfl, rfl⟩
  refine ⟨⟨h.base.grow hgrown hheld hmore ?_, h.fits.grow hplace hgrown⟩, rfl⟩
  rw [entries_new hreach (hreach.step hstep) hlog hnotes]
  exact hmore.joins

/-! ## The hand-overs of the end -/

/-- A hand-over of the Run itself, on the channel that comes next. -/
structure HandedOver (s s' : Sys σ) (write : Write) (obs : Queue.Obs) (new : List Note) :
    Prop where
  log : s'.queue.log = s.queue.log ++ [obs]
  notes : s'.notes = s.notes ++ new
  handed : obs.handed = some (s.queue.nextChan, write)
  unheld : ∀ e follow, obs ≠ .held e follow
  joined : ∀ e, .joined e ∈ new → e.write = write
  /-- A stopped queue registers nothing. -/
  taken : obs.registered.isSome → s.queue.st.stopped = false
  held : s'.queue.HeldOf fun write => ofNodes write = true
  ending : s'.ending = s.ending

theorem handedOver (s' : Sys σ) {write : Write} {now : ℕ} {q : Queue.Sys}
    {notes : List Note}
    (hheld : s.queue.HeldOf fun write => ofNodes write = true)
    (hs : Queue.Sys.history.step (s.queue, s.notes) (.enqueue write now) =
      some (q, notes))
    (hq : s'.queue = q) (hn : s'.notes = notes) (hending : s'.ending = s.ending) :
    ∃ obs new, HandedOver s s' write obs new := by
  have hnoted : Queue.Sys.notedStep (s.queue, s.notes) (.enqueue write now) =
      some (q, notes) := hs
  obtain ⟨t, ht, heq⟩ := Option.map_eq_some_iff.mp hnoted
  obtain ⟨rfl, rfl⟩ := Prod.mk.inj heq
  obtain ⟨hheld', obs, hlog, hobs⟩ := hheld.own ht
  have hdrop : t.log.drop s.queue.log.length = [obs] := by
    rw [hlog]
    exact List.drop_left
  refine ⟨obs, obs.notes, by rw [hq, hlog], ?_, ?_, ?_, ?_, ?_, by rw [hq]; exact hheld',
    hending⟩
  · rw [hn]
    show s.notes ++ [] ++ (t.log.drop s.queue.log.length).flatMap Queue.Obs.notes = _
    rw [hdrop]
    simp
  · rcases hobs with ⟨seq, rfl, -⟩ | ⟨removal, rfl, -⟩ <;> rfl
  · rcases hobs with ⟨seq, rfl, -⟩ | ⟨removal, rfl, -⟩ <;> simp
  · rcases hobs with ⟨seq, rfl, -⟩ | ⟨removal, rfl, -⟩ <;>
      simp [Queue.Obs.notes, Queue.Obs.joins, Queue.Obs.sentWrite]
  · rcases hobs with ⟨seq, rfl, hopen⟩ | ⟨removal, rfl, -⟩
    · exact fun _ => Queue.Sys.open_of_unqueuedBy hopen
    · intro h
      cases h

/-- No completed fact has joined before it was handed over. -/
theorem Base.no_completed (h : Base plan s)
    (hreach : Queue.Sys.history.Reachable (s.queue, s.notes))
    (hnone : s.completed = none) {e : Entry} (he : .joined e ∈ s.notes) :
    isCompleted e.write = false := by
  have hqueue := Queue.Sys.reachable_of_history hreach
  have hjoins : e ∈ joins s.queue.log := by
    rw [← (Queue.Sys.historyInv hreach).joins]
    exact mem_entries.mpr he
  have hregistered := Queue.Sys.registered_of_joins (Queue.Sys.joinInv hqueue) hjoins
  have hown := h.own _ _
    ((Queue.Sys.good hqueue).registered_handed e hregistered)
  unfold Owns at hown
  unfold isCompleted
  split
  · rename_i hwrite
    rw [hwrite] at hown
    simp only [hnone] at hown
    cases hown
  · rfl

variable {obs : Queue.Obs} {write : Write}

theorem Base.handOver (h : Base plan s) (ho : HandedOver s s' write obs new)
    (hother : ∀ c w, s.Owns c w → s'.Owns c w)
    (hself : s'.Owns s.queue.nextChan write)
    (hanswer : s'.answer = s.answer ∨
      s'.answer = some s.queue.nextChan ∧ isAnswer write = true)
    (hsaved : s'.saved = s.saved ∨
      s'.saved = some s.queue.nextChan ∧ isSavedState write = true)
    (hcompleted : s'.completed = s.completed ∨
      s'.completed = some s.queue.nextChan ∧ isCompleted write = true)
    (hbehind : Always (BehindOwners s'.answer s'.saved) s.notes)
    (hjoined : isCompleted write = true →
      (s'.answer.isSome → Known .answer s.notes) ∧
        (s'.saved.isSome → Known .savedState s.notes))
    (hend : s.ending.isSome ∧ s.ending ≠ some .cancelled)
    (halone : s'.failed.isSome → s'.completed = none →
      s'.answer = none ∧ s'.saved = none)
    (hlate : ∀ c c', s'.failed = some c → s'.completed = some c' → Late plan s' c c') :
    Base plan s' := by
  have hhanded : ∀ {p}, p ∈ handed s.queue.log → p ∈ handed s'.queue.log := by
    intro p hp
    rw [ho.log, handed_append]
    exact List.mem_append_left _ hp
  have hlast : (s.queue.nextChan, write) ∈ handed s'.queue.log := by
    rw [ho.log, handed_append]
    exact List.mem_append_right _ (List.mem_filterMap.mpr ⟨obs, by simp, ho.handed⟩)
  constructor
  · intro c w hin
    rw [ho.log, handed_append, handed_cons, ho.handed] at hin
    rcases List.mem_append.mp hin with hin | hin
    · exact hother c w (h.own c w hin)
    · cases List.mem_singleton.mp hin
      exact hself
  · intro c hc
    rcases hanswer with hsame | ⟨hnew, hkind⟩
    · rw [hsame] at hc
      exact (h.answered c hc).imp fun _ => hhanded
    · rw [hnew] at hc
      cases hc
      cases write <;> cases hkind
      exact ⟨_, hlast⟩
  · intro c hc
    rcases hsaved with hsame | ⟨hnew, hkind⟩
    · rw [hsame] at hc
      exact (h.savedState c hc).imp fun _ => hhanded
    · rw [hnew] at hc
      cases hc
      cases write <;> cases hkind
      exact ⟨_, hlast⟩
  · intro c hc
    rcases hcompleted with hsame | ⟨hnew, hkind⟩
    · rw [hsame] at hc
      exact (h.completedFact c hc).imp fun _ => Exists.imp fun _ => hhanded
    · rw [hnew] at hc
      cases hc
      unfold isCompleted at hkind
      split at hkind
      · exact ⟨_, _, hlast⟩
      · cases hkind
  · exact ho.held
  · intro e follow hin
    rw [ho.log] at hin
    rcases List.mem_append.mp hin with hin | hin
    · exact h.markers e follow hin
    · exact absurd (List.mem_singleton.mp hin).symm (ho.unheld e follow)
  · rw [ho.notes]
    rintro pre note post hnotes e rfl hkind
    rcases List.append_eq_append_iff.mp hnotes with ⟨mid, rfl, hmid⟩ | ⟨mid, hmid, hnew⟩
    · -- the entry joined with this hand-over
      have hin : .joined e ∈ new := by
        rw [hmid]
        simp
      rw [ho.joined e hin] at hkind
      obtain ⟨ha, hs⟩ := hjoined hkind
      exact ⟨fun hsome => (ha hsome).append, fun hsome => (hs hsome).append⟩
    · cases mid with
      | nil =>
          have hin : .joined e ∈ new := by
            rw [← List.nil_append new, ← hnew]
            exact List.mem_cons_self
          rw [ho.joined e hin] at hkind
          rw [List.append_nil] at hmid
          rw [← hmid]
          exact hjoined hkind
      | cons note mid =>
          obtain ⟨rfl, -⟩ := List.cons.inj hnew
          exact hbehind pre _ mid hmid e rfl hkind
  · rw [ho.ending]
    intro hending
    rw [ho.log, results_append]
    exact List.mem_append_left _ (h.opened hending)
  · rw [ho.ending]
    exact fun _ => hend
  · exact halone
  · exact hlate

theorem Owns.mono {c : Chan} {w : Write} (h : s.Owns c w)
    (hanswer : s.answer = some c → s'.answer = some c)
    (hsaved : s.saved = some c → s'.saved = some c)
    (hcompleted : s.completed = some c → s'.completed = some c)
    (hfailed : s.failed = some c → s'.failed = some c) : s'.Owns c w := by
  cases w with
  | started runId startId => exact h
  | answer content => exact hanswer h
  | savedState state => exact hsaved h
  | fact fact id =>
      cases fact with
      | completed runId => exact hcompleted h
      | failed runId failed => exact hfailed h
      | _ => trivial
  | _ => trivial

/-- Before the completed fact was handed over none has joined. -/
theorem Base.behind_of_none (h : Base plan s)
    (hreach : Queue.Sys.history.Reachable (s.queue, s.notes))
    (hnone : s.completed = none) (answer saved : Option Chan) :
    Always (BehindOwners answer saved) s.notes := by
  rintro pre note post hnotes e rfl hkind
  have hin : .joined e ∈ s.notes := by
    rw [hnotes]
    simp
  rw [h.no_completed hreach hnone hin] at hkind
  cases hkind

theorem ownKey_ofNodes {w : Write} (h : ofNodes w = true) :
    ownKey w ≠ some .started ∧ ownKey w ≠ some .answer ∧ ownKey w ≠ some .savedState := by
  cases w <;> simp_all [ownKey, ofNodes, Write.isStarted, isAnswer, isSavedState]

theorem calls_of_returned (h : s.returned = true) {chan : Option Chan} {c : Chan}
    (hchan : chan ∈ [some 0, s.answer, s.saved, s.completed, s.failed])
    (hc : chan = some c) : s.queue.calls c = none := by
  have hnone := List.all_eq_true.mp h chan hchan
  rw [hc] at hnone
  simpa using hnone

/-- The answer that was handed over is behind its call. -/
theorem Base.known_answer (h : Base plan s)
    (hreach : Queue.Sys.history.Reachable (s.queue, s.notes))
    (hreturned : s.returned = true) (hsome : s.answer.isSome) : Known .answer s.notes := by
  obtain ⟨c, hc⟩ := Option.isSome_iff_exists.mp hsome
  obtain ⟨content, hhanded⟩ := h.answered c hc
  refine (Queue.Sys.causeInv hreach).known (Queue.Sys.historyInv hreach) hhanded
    (calls_of_returned hreturned (by simp) hc) rfl ?_
  exact fun e follow hin => (ownKey_ofNodes (h.markers e follow hin)).2.1

theorem Base.known_saved (h : Base plan s)
    (hreach : Queue.Sys.history.Reachable (s.queue, s.notes))
    (hreturned : s.returned = true) (hsome : s.saved.isSome) :
    Known .savedState s.notes := by
  obtain ⟨c, hc⟩ := Option.isSome_iff_exists.mp hsome
  obtain ⟨state, hhanded⟩ := h.savedState c hc
  refine (Queue.Sys.causeInv hreach).known (Queue.Sys.historyInv hreach) hhanded
    (calls_of_returned hreturned (by simp) hc) rfl ?_
  exact fun e follow hin => (ownKey_ofNodes (h.markers e follow hin)).2.2

/-- A queue that takes a write has left none unsent. -/
theorem no_leftUnsent (hreach : Queue.Sys.history.Reachable (s.queue, s.notes))
    (hopen : s.queue.st.stopped = false) (c : Chan) :
    (c, .err .leftUnsent) ∉ results s.queue.log := by
  intro hin
  obtain ⟨w, -, hcaused⟩ := (Queue.Sys.causeInv hreach).ended c _ hin
  rw [hcaused.stopped] at hopen
  cases hopen

section HandOver

variable {t : Sys σ} {now : ℕ} (h : Base plan s)
  (hreach : Queue.Sys.history.Reachable (s.queue, s.notes))

include h hreach

theorem handOver_answer {content : Content} {saved : Option Value}
    (hfits : Fits plan s (.handing (some content) saved))
    (hs : s.onQueue (.enqueue (.answer content) now) = some t) :
    RunInv plan { t with answer := some s.queue.nextChan, place := .handing none saved } := by
  obtain ⟨q, notes, hstep, rfl⟩ := onQueue_some hs
  obtain ⟨hcompleted, hfailed, hend, hanswer, hsaved⟩ := hfits
  have hnone : s.answer = none := hanswer rfl
  obtain ⟨obs, new, ho⟩ := handedOver { s with
    queue := q, notes := notes, answer := some s.queue.nextChan,
    place := .handing none saved } h.held hstep rfl rfl rfl
  refine ⟨h.handOver ho ?_ rfl (Or.inr ⟨rfl, rfl⟩) (Or.inl rfl) (Or.inl rfl)
    (h.behind_of_none hreach hcompleted _ _) (by simp [isCompleted]) hend ?_ ?_, ?_⟩
  · intro c w hown
    exact hown.mono (by simp [hnone]) id id id
  · simp [hfailed]
  · simp [hfailed]
  · exact ⟨hcompleted, hfailed, hend, by simp, hsaved⟩

theorem handOver_saved {state : Value}
    (hfits : Fits plan s (.handing none (some state)))
    (hs : s.onQueue (.enqueue (.savedState state) now) = some t) :
    RunInv plan { t with saved := some s.queue.nextChan, place := .handing none none } := by
  obtain ⟨q, notes, hstep, rfl⟩ := onQueue_some hs
  obtain ⟨hcompleted, hfailed, hend, -, hsaved⟩ := hfits
  have hnone : s.saved = none := hsaved rfl
  obtain ⟨obs, new, ho⟩ := handedOver { s with
    queue := q, notes := notes, saved := some s.queue.nextChan,
    place := .handing none none } h.held hstep rfl rfl rfl
  refine ⟨h.handOver ho ?_ rfl (Or.inl rfl) (Or.inr ⟨rfl, rfl⟩) (Or.inl rfl)
    (h.behind_of_none hreach hcompleted _ _) (by simp [isCompleted]) hend ?_ ?_, ?_⟩
  · intro c w hown
    exact hown.mono id (by simp [hnone]) id id
  · simp [hfailed]
  · simp [hfailed]
  · exact ⟨hcompleted, hfailed, hend, by simp, by simp⟩

theorem handOver_completed {messageId : Uuid} (hreturned : s.returned = true)
    (hfits : Fits plan s (.handing none none))
    (hs : s.onQueue (.enqueue (.fact (.completed plan.runId) messageId) now) = some t) :
    RunInv plan { t with completed := some s.queue.nextChan, place := .awaitAnswer } := by
  obtain ⟨q, notes, hstep, rfl⟩ := onQueue_some hs
  obtain ⟨hcompleted, hfailed, hend, -, -⟩ := hfits
  obtain ⟨obs, new, ho⟩ := handedOver { s with
    queue := q, notes := notes, completed := some s.queue.nextChan,
    place := .awaitAnswer } h.held hstep rfl rfl rfl
  refine ⟨h.handOver ho ?_ rfl (Or.inl rfl) (Or.inl rfl) (Or.inr ⟨rfl, rfl⟩)
    (h.behind_of_none hreach hcompleted _ _) ?_ hend ?_ ?_, ?_⟩
  · intro c w hown
    exact hown.mono id id (by simp [hcompleted]) id
  · exact fun _ => ⟨h.known_answer hreach hreturned, h.known_saved hreach hreturned⟩
  · simp
  · simp [hfailed]
  · exact ⟨rfl, hfailed⟩

theorem handOver_failed {messageId : Uuid} {failed : Failed}
    (hfits : Fits plan s (.failing failed))
    (hs : s.onQueue (.enqueue (.fact (.failed plan.runId failed) messageId) now) =
      some t) :
    RunInv plan { t with failed := some s.queue.nextChan, place := .awaitFailed } := by
  obtain ⟨q, notes, hstep, rfl⟩ := onQueue_some hs
  obtain ⟨hfailed, hend, halone, hclosed⟩ := hfits
  obtain ⟨obs, new, ho⟩ := handedOver { s with
    queue := q, notes := notes, failed := some s.queue.nextChan,
    place := .awaitFailed } h.held hstep rfl rfl rfl
  refine ⟨h.handOver ho ?_ rfl (Or.inl rfl) (Or.inl rfl) (Or.inl rfl) h.behind
    (by simp [isCompleted]) hend (fun _ => halone) ?_, rfl⟩
  · intro c w hown
    exact hown.mono id id id (by simp [hfailed])
  · intro c c' hc hc'
    cases hc
    obtain ⟨answer, saved, ha, hsaved, hr, hcause⟩ := hclosed c' hc'
    refine ⟨s.queue.log, obs, [], answer, saved, failed, messageId, ho.log, ho.handed, ha,
      hsaved, hr, hcause, fun hregistered => ?_⟩
    exact no_leftUnsent hreach (ho.taken hregistered)

end HandOver

theorem RunInv.handOver {messageId : Uuid} {now : ℕ} (h : RunInv plan s)
    (hreach : Queue.Sys.history.Reachable (s.queue, s.notes))
    (hreturned : s.returned = true) (hs : s.handOver plan messageId now = some s') :
    RunInv plan s' := by
  have hfits := h.fits
  simp only [Sys.handOver] at hs
  split at hs
  case h_5 => cases hs
  all_goals
    rename_i hplace
    rw [hplace] at hfits
    obtain ⟨t, ht, rfl⟩ := Option.map_eq_some_iff.mp hs
  · exact handOver_answer h.base hreach hfits ht
  · exact handOver_saved h.base hreach hfits ht
  · exact handOver_completed h.base hreach hreturned hfits ht
  · exact handOver_failed h.base hreach hfits ht

/-! ## The other steps of a Run -/

/-- The Run goes on to another place. -/
theorem RunInv.move (h : RunInv plan s) {place : Place σ}
    (hfits : Fits plan s place) : RunInv plan { s with place := place } where
  base := ⟨h.base.own, h.base.answered, h.base.savedState, h.base.completedFact,
    h.base.held, h.base.markers, h.base.behind, h.base.opened, h.base.handedEnd,
    h.base.alone, h.base.late⟩
  fits := by
    cases place with
    | settling ending =>
        obtain ⟨hending, hun⟩ := hfits
        exact ⟨hending, hun.answer, hun.saved, hun.completed, hun.failed⟩
    | _ => first | exact hfits | exact ⟨hfits.1, hfits.2⟩

theorem Base.untouched_of_none (h : Base plan s) (hnone : s.ending = none) :
    s.Untouched := by
  have hall := fun hsome => (h.handedEnd hsome).1
  rw [hnone] at hall
  constructor
  · exact Option.not_isSome_iff_eq_none.mp fun hsome =>
      Bool.noConfusion (hall (Or.inl hsome))
  · exact Option.not_isSome_iff_eq_none.mp fun hsome =>
      Bool.noConfusion (hall (Or.inr (Or.inl hsome)))
  · exact Option.not_isSome_iff_eq_none.mp fun hsome =>
      Bool.noConfusion (hall (Or.inr (Or.inr (Or.inl hsome))))
  · exact Option.not_isSome_iff_eq_none.mp fun hsome =>
      Bool.noConfusion (hall (Or.inr (Or.inr (Or.inr hsome))))

theorem Untouched.closed (h : s.Untouched) : Closed plan s where
  covered := by simp [h.answer, h.saved]
  closed := by simp [h.completed]

/-- The Started that is handed over first. -/
theorem RunInv.opened (h : RunInv plan s) {startId : Uuid} {now : ℕ} {t : Sys σ}
    (hplace : s.place = .created)
    (hs : s.onQueue (.enqueue (.started plan.runId startId) now) = some t) :
    RunInv plan { t with place := .opening } := by
  have hfits := h.fits
  rw [hplace] at hfits
  obtain ⟨hqueue, hnotes, hending⟩ := hfits
  obtain ⟨q, notes, hstep, rfl⟩ := onQueue_some hs
  have huntouched := h.base.untouched_of_none hending
  obtain ⟨obs, new, ho⟩ := handedOver { s with
    queue := q, notes := notes, place := .opening } h.base.held hstep rfl rfl rfl
  have hlog : q.log = [obs] := by
    rw [ho.log, hqueue]
    rfl
  have hnew : notes = new := by
    have happend : notes = s.notes ++ new := ho.notes
    rw [happend, hnotes, List.nil_append]
  refine ⟨⟨?_, ?_, ?_, ?_, ho.held, ?_, ?_, ?_, ?_, ?_, ?_⟩, hending⟩
  · intro c w hin
    change (c, w) ∈ handed q.log at hin
    rw [hlog, handed_cons, ho.handed, hqueue] at hin
    cases List.mem_singleton.mp hin
    rfl
  · simp [huntouched.answer]
  · simp [huntouched.saved]
  · simp [huntouched.completed]
  · intro e follow hin
    change .held e follow ∈ q.log at hin
    rw [hlog] at hin
    exact absurd (List.mem_singleton.mp hin).symm (ho.unheld e follow)
  · rintro pre note post hsplit e rfl hkind
    have hin : .joined e ∈ new := by
      have hsplit : notes = pre ++ .joined e :: post := hsplit
      rw [← hnew, hsplit]
      simp
    rw [ho.joined e hin] at hkind
    cases hkind
  · simp [hending]
  · simp [huntouched.answer, huntouched.saved, huntouched.completed, huntouched.failed]
  · simp [huntouched.failed]
  · simp [huntouched.failed]

/-- The body of the Run has ended. -/
theorem RunInv.bodyEnded (h : RunInv plan s) {ending : Ending σ}
    (hplace : s.place = .executing) :
    RunInv plan { s with place := .settling ending, ending := some ending } := by
  have hfits := h.fits
  rw [hplace] at hfits
  have huntouched := h.base.untouched_of_none hfits.1
  refine ⟨⟨h.base.own, h.base.answered, h.base.savedState, h.base.completedFact,
    h.base.held, h.base.markers, h.base.behind, fun _ => hfits.2, ?_, h.base.alone,
    h.base.late⟩, rfl, huntouched.answer, huntouched.saved, huntouched.completed,
    huntouched.failed⟩
  simp [huntouched.answer, huntouched.saved, huntouched.completed, huntouched.failed]

/-- What the ending of the body asks for. -/
theorem RunInv.settled (h : RunInv plan s) {ending : Ending σ} {agents : List BookedAgent}
    (hplace : s.place = .settling ending) :
    RunInv plan (s.afterSettle (plan.handing agents ending)) := by
  have hfits := h.fits
  rw [hplace] at hfits
  obtain ⟨hending, hun⟩ := hfits
  have hend : ending ≠ .cancelled → s.ending.isSome ∧ s.ending ≠ some .cancelled := by
    intro hne
    rw [hending]
    exact ⟨rfl, fun heq => hne (Option.some.inj heq)⟩
  have hfailing : ∀ failed, ending ≠ .cancelled →
      RunInv plan { s with place := .failing failed } := by
    intro failed hne
    refine h.move ⟨hun.failed, hend hne, fun _ => ⟨hun.answer, hun.saved⟩, ?_⟩
    simp [hun.completed]
  cases ending with
  | cancelled => exact h.move hun.closed
  | failed failed => exact hfailing failed (by simp)
  | ended state =>
      cases hmade : plan.madeWrites state agents with
      | ok writes =>
          have hhanding : plan.handing agents (.ended state) =
              .completed writes.1 writes.2 := by
            simp only [Plan.handing, hmade]
          rw [hhanding]
          exact h.move ⟨hun.completed, hun.failed, hend (by simp), fun _ => hun.answer,
            fun _ => hun.saved⟩
      | error unmade =>
          obtain ⟨failed, hhanding⟩ : ∃ failed,
              plan.handing agents (.ended state) = .failed failed := by
            cases unmade <;> simp only [Plan.handing, hmade] <;> exact ⟨_, rfl⟩
          rw [hhanding]
          exact hfailing failed (by simp)

theorem RunInv.awaited (h : RunInv plan s) (hs : s.awaited plan = some s') :
    RunInv plan s' := by
  have hfits := h.fits
  simp only [Sys.awaited] at hs
  split at hs
  case h_5 => cases hs
  all_goals
    rename_i hplace
    rw [hplace] at hfits
    obtain ⟨r, hr, rfl⟩ := Option.map_eq_some_iff.mp hs
  · exact h.move ⟨hfits.1, hfits.2, got_of_awaitEnd hr⟩
  · exact h.move ⟨hfits.1, hfits.2.1, hfits.2.2, got_of_awaitEnd hr⟩
  · obtain ⟨hsome, hfailed, ha, hsaved⟩ := hfits
    obtain ⟨c, hc, hresult⟩ := Option.bind_eq_some_iff.mp hr
    have hin := resultOf_mem hresult
    split
    · rename_i failed hcause
      have hdepends : r = .err .dependsOnRemoved := by
        unfold closingFailed at hcause
        split at hcause
        · assumption
        · cases hcause
      subst hdepends
      refine h.move ⟨hfailed, h.base.handedEnd (Or.inr (Or.inr (Or.inl hsome))), ?_, ?_⟩
      · simp [hc]
      · intro c' hc'
        rw [hc] at hc'
        cases hc'
        exact ⟨_, _, ha, hsaved, hin, hcause⟩
    · rename_i hnone
      refine h.move ⟨fun _ => hsome, fun c' hc' => ?_⟩
      rw [hc] at hc'
      cases hc'
      exact ⟨_, _, r, ha, hsaved, hin, fun _ => hnone⟩
  · have hsome : s.failed.isSome := hfits
    refine h.move ⟨?_, fun c' hc' => ?_⟩
    · intro hdeps
      by_contra hnot
      obtain ⟨ha, hsaved⟩ :=
        h.base.alone hsome (Option.not_isSome_iff_eq_none.mp hnot)
      simp [ha, hsaved] at hdeps
    · obtain ⟨c, hc⟩ := Option.isSome_iff_exists.mp hsome
      obtain ⟨pre, obs, post, answer, saved, cause, id, hlog, -, ha, hsaved, hin, -⟩ :=
        h.base.late c c' hc hc'
      refine ⟨answer, saved, .err .dependsOnRemoved, ?_, ?_, ?_, by simp [hc]⟩
      · rw [hlog]
        exact ha.append
      · rw [hlog]
        exact hsaved.append
      · rw [hlog, results_append]
        exact List.mem_append_left _ hin

theorem RunInv.ownStep (h : RunInv plan s)
    (hreach : Queue.Sys.history.Reachable (s.queue, s.notes))
    (hreturned : s.returned = true) {e : Event σ} (hs : s.ownStep plan e = some s') :
    RunInv plan s' := by
  have hfits := h.fits
  cases e with
  | queue event => cases hs
  | opened startId now =>
      simp only [Sys.ownStep] at hs
      split at hs
      · obtain ⟨t, ht, rfl⟩ := Option.map_eq_some_iff.mp hs
        exact h.opened ‹_› ht
      · cases hs
  | started =>
      simp only [Sys.ownStep] at hs
      split at hs
      · rename_i hplace
        rw [hplace] at hfits
        obtain ⟨r, hr, rfl⟩ := Option.map_eq_some_iff.mp hs
        split
        · rename_i hok
          subst hok
          exact h.move ⟨hfits, resultOf_mem hr⟩
        · exact h.move hfits
      · cases hs
  | bodyEnded ending =>
      simp only [Sys.ownStep] at hs
      split at hs <;> cases hs
      exact h.bodyEnded ‹_›
  | settled agents =>
      simp only [Sys.ownStep] at hs
      split at hs <;> cases hs
      exact h.settled ‹_›
  | handOver messageId now => exact h.handOver hreach hreturned hs
  | awaited => exact h.awaited hs
  | drain =>
      simp only [Sys.ownStep] at hs
      split at hs
      · rename_i hplace
        obtain ⟨t, ht, rfl⟩ := Option.map_eq_some_iff.mp hs
        obtain ⟨hrun, hsame⟩ := h.onQueue hreach (by simp [Queue.Event.writes])
          (by simp [hplace]) ht
        have hclosed := hrun.fits
        rw [hsame, hplace] at hclosed
        exact hrun.move hclosed
      · cases hs
  | drained =>
      simp only [Sys.ownStep] at hs
      split at hs
      · rename_i hplace
        rw [hplace] at hfits
        split at hs <;> cases hs
        exact h.move hfits
      · cases hs
  | abort =>
      simp only [Sys.ownStep] at hs
      split at hs <;> cases hs
      exact h.move trivial

theorem ofNodes_of_allowed {event : Queue.Event} (h : s.allowed event = true) :
    ∀ write ∈ event.writes, ofNodes write = true := by
  intro w hw
  cases event with
  | enqueue write now =>
      cases List.mem_singleton.mp hw
      exact h
  | hold write follow now =>
      obtain ⟨hwrite, hfollow⟩ := Bool.and_eq_true_iff.mp h
      rcases List.mem_cons.mp hw with rfl | hw
      · exact hwrite
      · cases follow with
        | none => cases hw
        | some f =>
            cases List.mem_singleton.mp hw
            exact hfollow
  | _ => cases hw

theorem RunInv.step (h : RunInv plan s)
    (hreach : Queue.Sys.history.Reachable (s.queue, s.notes)) {e : Event σ}
    (hs : s.step plan e = some s') : RunInv plan s' := by
  cases e with
  | queue event =>
      simp only [Sys.step] at hs
      split at hs
      · cases hs
      · rename_i hplace
        split at hs
        · rename_i hallowed
          exact (h.onQueue hreach (ofNodes_of_allowed hallowed) hplace hs).1
        · cases hs
  | _ =>
      simp only [Sys.step] at hs
      split at hs
      · exact h.ownStep hreach ‹_› hs
      · cases hs

theorem runInv (h : (machine plan).Reachable s) : RunInv plan s := by
  refine Machine.Reach.invariant (P := RunInv plan) runInv_init ?_ h
  intro s s' e hreach hp _ hs
  exact hp.step (history_reachable hreach) hs

end Sys

end RunnerKit.Toolkit.RunEnd
