import RunnerKit.Queue.Rounds

/-!
# What the attempts of a write add up to

The tries of every write are a course of its loop; its retry reports and its
last failure tell the errors of that course, and its end is the verdict of the
last try.
-/

namespace RunnerKit.Queue

open RunnerKit.Jobs RunnerKit.Lib

/-! ## What the log tells of one number -/

def Obs.retryOf (q : ℕ) : Obs → Option QueueReport
  | .retrying seq report => if seq = q then some report else none
  | _ => none

/-- The retry reports of a write, by its number. -/
def retries (q : ℕ) (log : List Obs) : List QueueReport := log.filterMap (Obs.retryOf q)

/-- The sends of a write, by its number. -/
def sendsOf (q : ℕ) (log : List Obs) : List (ℕ × Write) :=
  (sends log).filter fun p => p.1 = q

section Reading

variable {q : ℕ} {log more : List Obs}

theorem retries_append : retries q (log ++ more) = retries q log ++ retries q more :=
  List.filterMap_append

theorem sendsOf_append : sendsOf q (log ++ more) = sendsOf q log ++ sendsOf q more := by
  unfold sendsOf
  rw [sends_append, List.filter_append]

theorem retries_aside (h : ∀ obs ∈ more, obs.aside = true) :
    retries q (log ++ more) = retries q log := by
  rw [retries_append]
  have hnone : retries q more = [] := by
    refine List.filterMap_eq_nil_iff.mpr fun obs hobs => ?_
    have haside := h obs hobs
    cases obs <;> first | rfl | cases haside
  rw [hnone, List.append_nil]

theorem sendsOf_aside (h : ∀ obs ∈ more, obs.aside = true) :
    sendsOf q (log ++ more) = sendsOf q log := by
  rw [sendsOf_append]
  have hnone : sends more = [] := by
    refine Sys.sends_quiet fun obs hobs => ?_
    have haside := h obs hobs
    cases obs <;> first | rfl | cases haside
  unfold sendsOf
  rw [hnone]
  simp

theorem processed_aside (h : ∀ obs ∈ more, obs.aside = true) :
    processed (log ++ more) = processed log := by
  rw [processed_append]
  have hnone : processed more = [] := by
    refine List.filterMap_eq_nil_iff.mpr fun obs hobs => ?_
    have haside := h obs hobs
    cases obs <;> first | rfl | cases haside
  rw [hnone, List.append_nil]

theorem reported_aside (h : ∀ obs ∈ more, obs.aside = true) {e : Entry} {report : QueueReport}
    (hin : .reported e report ∈ log ++ more) : .reported e report ∈ log := by
  rcases List.mem_append.mp hin with hin | hin
  · exact hin
  · have haside := h _ hin
    cases haside

theorem registered_mono {e : Entry} (h : e ∈ registered log) : e ∈ registered (log ++ more) := by
  rw [registered_append]
  exact List.mem_append_left _ h

end Reading

namespace Sys

/-! ## The ends that are reported -/

/-- What the reports of the ends of entries say. -/
structure Told (s : Sys) : Prop where
  registered : ∀ e report, .reported e report ∈ s.log → e ∈ registered s.log
  completing : ∀ k, s.task.completing = some k → k.stage ≠ .reporting →
    .reported k.entry (.ofResult k.entry.write.name k.result) ∈ s.log
  processed : ∀ q ∈ processed s.log, ∃ e result, e.seq = q ∧
    .reported e (.ofResult e.write.name result) ∈ s.log

variable {s s' : Sys}

theorem told_init : init.Told where
  registered := by simp [init]
  completing := by simp [init]
  processed := by simp [init]

/-- A step that neither reports an end nor processes a number. -/
theorem Told.quiet (h : s.Told) {more : List Obs} (hlog : s'.log = s.log ++ more)
    (hreports : ∀ e report, .reported e report ∉ more) (hprocessed : Queue.processed more = [])
    (hcompleting : ∀ k, s'.task.completing = some k →
      s.task.completing = some k ∨ k.stage = .reporting) : s'.Told where
  registered := by
    intro e report hin
    rw [hlog] at hin ⊢
    exact registered_mono
      (h.registered e report ((List.mem_append.mp hin).resolve_right (hreports e report)))
  completing := by
    intro k hk hstage
    rw [hlog]
    rcases hcompleting k hk with hk | hk
    · exact List.mem_append_left _ (h.completing k hk hstage)
    · exact absurd hk hstage
  processed := by
    intro q hq
    rw [hlog, processed_append, hprocessed, List.append_nil] at hq
    obtain ⟨e, result, hseq, hin⟩ := h.processed q hq
    rw [hlog]
    exact ⟨e, result, hseq, List.mem_append_left _ hin⟩

theorem Told.complete (h : s.Told) (hgood : s.ledger.Good) {entry : Entry} {result : WriteResult}
    {stage : Stage} (hc : s.task.completing = some ⟨entry, result, stage⟩) :
    (s.completeStep entry result stage).Told := by
  have hregistered : entry ∈ Queue.registered s.log := hgood.holds entry (Or.inr ⟨_, hc, rfl⟩)
  cases stage with
  | reporting =>
      refine ⟨?_, ?_, ?_⟩
      · intro e report hin
        rcases List.mem_append.mp hin with hin | hin
        · exact registered_mono (h.registered e report hin)
        · cases List.mem_singleton.mp hin
          exact registered_mono hregistered
      · intro k hk _
        cases hk
        simp [completeStep]
      · intro q hq
        rw [show (s.completeStep entry result .reporting).log =
          s.log ++ [.reported entry (.ofResult entry.write.name result)] from rfl] at hq ⊢
        rw [processed_append] at hq
        obtain ⟨e, r, hseq, hin⟩ := h.processed q (by simpa [Obs.processedSeq] using hq)
        exact ⟨e, r, hseq, List.mem_append_left _ hin⟩
  | removing =>
      have htold := h.completing _ hc (by simp)
      refine ⟨?_, ?_, ?_⟩
      · intro e report hin
        rcases List.mem_append.mp hin with hin | hin
        · exact registered_mono (h.registered e report hin)
        · cases List.mem_singleton.mp hin
      · intro k hk _
        cases hk
        exact List.mem_append_left _ htold
      · intro q hq
        rw [show (s.completeStep entry result .removing).log =
          s.log ++ [.processed entry.seq] from rfl] at hq ⊢
        rw [processed_append] at hq
        rcases List.mem_append.mp hq with hq | hq
        · obtain ⟨e, r, hseq, hin⟩ := h.processed q hq
          exact ⟨e, r, hseq, List.mem_append_left _ hin⟩
        · obtain rfl : q = entry.seq := by simpa [Obs.processedSeq] using hq
          exact ⟨entry, result, rfl, List.mem_append_left _ htold⟩
  | sending =>
      have htold := h.completing _ hc (by simp)
      refine ⟨?_, ?_, ?_⟩
      · intro e report hin
        rcases List.mem_append.mp hin with hin | hin
        · exact registered_mono (h.registered e report hin)
        · cases List.mem_singleton.mp hin
      · intro k hk _
        cases hk
        exact List.mem_append_left _ htold
      · intro q hq
        rw [show (s.completeStep entry result .sending).log =
          s.log ++ [.ended entry.chan result] from rfl] at hq ⊢
        rw [processed_append] at hq
        obtain ⟨e, r, hseq, hin⟩ := h.processed q (by simpa [Obs.processedSeq] using hq)
        exact ⟨e, r, hseq, List.mem_append_left _ hin⟩
  | signalling =>
      refine h.quiet (List.append_nil _).symm (by simp) rfl ?_
      intro k hk
      cases hk

theorem Told.step (h : s.Told) (hgood : s.ledger.Good) (hs : s.LoopStep s') : s'.Told := by
  cases hs with
  | beside hb =>
      obtain ⟨more, hlog, hmore⟩ := hb.log
      refine h.quiet hlog ?_ ?_ ?_
      · intro e report hin
        cases hmore _ hin
      · have haside := @processed_aside [] more hmore
        exact haside
      · intro k hk
        rcases hb.completing k hk with hk | ⟨hk, -⟩
        · exact Or.inl hk
        · exact Or.inr hk
  | complete entry result stage hc => exact h.complete hgood hc
  | send attempt hat hattempt hphase =>
      exact h.quiet rfl (by simp) rfl fun k hk => Or.inl hk
  | retry attempt error hat hattempt hphase =>
      exact h.quiet rfl (by simp) rfl fun k hk => Or.inl hk
  | done attempt result hat hattempt hphase =>
      refine h.quiet (List.append_nil _).symm (by simp) rfl ?_
      intro k hk
      obtain ⟨e, -, rfl⟩ := Option.map_eq_some_iff.mp hk
      exact Or.inr rfl

theorem told (h : machine.Reachable s) : s.Told := by
  induction h with
  | init => exact told_init
  | step hr _ hs ih =>
      exact ih.step (good hr) (loop_cases (inFlight hr) (joinInv hr) (fifoInv hr) (step_cases hs))

/-- The end of an entry that waits has not been reported. -/
theorem Told.not_of_waiting (h : s.Told) (hgood : s.ledger.Good) {e e' : Entry}
    {report : QueueReport} (hw : e ∈ s.waiting) (hin : .reported e' report ∈ s.log)
    (hterminal : report.terminal.isSome) : e'.seq ≠ e.seq := by
  intro hseq
  obtain rfl := hgood.entry_unique (h.registered e' report hin) (hgood.holds e (Or.inl hw)) hseq
  have hpaid : e'.chan ∈ Due.report.paid s.log := by
    obtain ⟨p, hp⟩ := Option.isSome_iff_exists.mp hterminal
    refine List.mem_map.mpr ⟨(e'.chan, p), List.mem_filterMap.mpr ⟨_, hin, ?_⟩, rfl⟩
    simp [Obs.report, hp]
  refine (hgood.dues .report).not_mem_of_owed ?_ hpaid
  have hpos : 0 < (s.waiting.map Entry.chan).count e'.chan :=
    Multiset.count_pos.mpr (Multiset.mem_map_of_mem _ hw)
  change 0 < (s.waiting.map Entry.chan).count e'.chan + _ + _
  omega

/-- An entry that waits is not being completed. -/
theorem not_completing_of_waiting (hgood : s.ledger.Good) {e : Entry} (hw : e ∈ s.waiting)
    {k : Completion} (hk : s.task.completing = some k) (hstage : k.stage = .reporting) :
    k.entry.seq ≠ e.seq := by
  intro hseq
  have htotal := hgood.removals.total e.seq
  have hpos : 0 < (s.waiting.map Entry.seq).count e.seq :=
    Multiset.count_pos.mpr (Multiset.mem_map_of_mem _ hw)
  have hone : Completion.owed Entry.seq Stage.beforeRemoval e.seq s.task.completing = 1 := by
    simp [hk, Completion.owed, hstage, Stage.beforeRemoval, hseq]
  change (s.waiting.map Entry.seq).count e.seq +
    Completion.owed Entry.seq Stage.beforeRemoval e.seq s.task.completing + _ = _ at htotal
  split_ifs at htotal <;> omega

/-! ## One write and its course -/

/-- A result that goes with where the loop stands: the verdict, or an end that no attempt
gave. -/
def Agrees (tries : List Try) (stand : Stand) (result : WriteResult) : Prop :=
  stand = .ended result ∨
    (∀ r, stand ≠ .ended r) ∧ (result = .err .leftUnsent ∨ tries = [])

/-- The attempt in flight, as its phase says. -/
structure Running (t : Trail) (write : Write) (session : ℕ) (stand : Stand) (a : Attempt) :
    Prop where
  write : a.write = write
  created : a.phase = .created → t.tries a.seq = []
  sending : a.phase = .sending → stand = .sending ∧ t.session = session
  retrying : a.phase = .retrying → stand = .idle ∧ t.session = session ∧ t.tries a.seq ≠ []

/-- The tries of the write with number `q`, beside what the queue shows of it. -/
structure Tracked (s : Sys) (t : Trail) (q : ℕ) (write : Write) (session : ℕ)
    (errors : List Error) (stand : Stand) : Prop where
  course : Course write session (t.tries q) errors stand
  retries : retries q s.log = errors.map (.retrying write.name)
  sent : sendsOf q s.log = (t.tries q).map fun _ => (q, write)
  running : ∀ a, s.task.attempt = some a → a.seq = q → Running t write session stand a
  goes_on : t.tries q ≠ [] → (∀ r, stand ≠ .ended r) → s.task.point.leaving = false →
    ∃ a, s.task.attempt = some a ∧ a.seq = q
  failure : ∀ f, s.st.lastFailure = some (q, f) →
    errors.getLast? = some f.error ∧ f.write = write.name
  latest : ∀ error, errors.getLast? = some error →
    q ∈ processed s.log ∨ s.st.lastFailure = some (q, ⟨write.name, error⟩)
  ended : ∀ r, stand = .ended r →
    (∃ k, s.task.completing = some k ∧ k.entry.seq = q ∧ k.stage = .reporting ∧ k.result = r) ∨
      ∃ e, e.seq = q ∧ .reported e (.ofResult e.write.name r) ∈ s.log
  completing : ∀ k, s.task.completing = some k → k.entry.seq = q →
    Agrees (t.tries q) stand k.result
  told : ∀ e r, e.seq = q → .reported e (.ofResult e.write.name r) ∈ s.log →
    Agrees (t.tries q) stand r

def Traced (s : Sys) (t : Trail) : Prop :=
  ∀ q, ∃ write session errors stand, Tracked s t q write session errors stand

variable {t : Trail} {q : ℕ} {write : Write} {session : ℕ} {errors : List Error} {stand : Stand}

theorem course_of_nil {tries : List Try} (h : Course write session tries errors stand)
    (hnil : tries = []) : errors = [] ∧ stand = .idle := by
  cases h with
  | start => exact ⟨rfl, rfl⟩
  | send _ => simp at hnil
  | resend _ _ => simp at hnil
  | finish _ _ => simp at hnil

theorem traced_init : Traced init .start := by
  intro q
  refine ⟨.started 0 0, 0, [], .idle, .start, rfl, rfl, ?_, ?_, ?_, ?_, ?_, ?_, ?_⟩ <;>
    simp [init, Trail.start, State.new]

/-- Without a try the write and the session are free. -/
theorem Tracked.rebase (h : Tracked s t q write session errors stand) (hnil : t.tries q = [])
    {write' : Write} {session' : ℕ} (hattempt : ∀ a, s.task.attempt = some a → a.seq = q →
      a.write = write' ∧ a.phase = .created) :
    Tracked s t q write' session' [] .idle := by
  obtain ⟨rfl, rfl⟩ := course_of_nil h.course hnil
  refine ⟨?_, h.retries, ?_, ?_, h.goes_on, ?_, ?_, ?_, h.completing, h.told⟩
  · rw [hnil]
    exact .start
  · rw [h.sent, hnil]
    rfl
  · intro a ha hq
    obtain ⟨hw, hphase⟩ := hattempt a ha hq
    refine ⟨hw, fun _ => by rw [hq, hnil], ?_, ?_⟩
    · intro hp
      rw [hphase] at hp
      cases hp
    · intro hp
      rw [hphase] at hp
      cases hp
  · intro f hf
    cases (h.failure f hf).1
  · simp
  · simp

theorem unsent_tries (h : Tracked s t q write session errors stand) {e : Entry}
    (he : e.seq = q) (hunsent : s.Unsent e) : t.tries q = [] := by
  have hnone : sendsOf q s.log = [] := by
    refine List.filter_eq_nil_iff.mpr fun p hp hpq => ?_
    refine hunsent (List.mem_map.mpr ⟨p, hp, ?_⟩)
    rw [he]
    exact of_decide_eq_true hpq
  have hsent := h.sent
  rw [hnone] at hsent
  exact List.map_eq_nil_iff.mp hsent.symm

/-- The end of an entry that waits is not decided. -/
theorem Tracked.not_over (h : Tracked s t q write session errors stand)
    (hgood : s.ledger.Good) (htold : s.Told) {e : Entry} (hw : e ∈ s.waiting) (he : e.seq = q) :
    ∀ r, stand ≠ .ended r := by
  intro r hover
  rcases h.ended r hover with ⟨k, hk, hkq, hstage, -⟩ | ⟨e', hq, hin⟩
  · exact not_completing_of_waiting hgood hw hk hstage (by rw [hkq, he])
  · exact htold.not_of_waiting hgood hw hin (by simp) (by rw [hq, he])

/-! ## The steps -/

theorem Traced.beside (h : Traced s t) (hgood : s.ledger.Good) (htold : s.Told)
    (hb : s.Beside s') : Traced s' t := by
  intro q
  obtain ⟨more, hlog, hmore⟩ := hb.log
  -- The attempt of a head that is taken is the first of its write.
  have hrunning : ∃ write session errors stand, Tracked s t q write session errors stand ∧
      (∀ a, s'.task.attempt = some a → a.seq = q → Running t write session stand a) ∧
      (t.tries q ≠ [] → (∀ r, stand ≠ .ended r) → s'.task.point.leaving = false →
        ∃ a, s'.task.attempt = some a ∧ a.seq = q) := by
    obtain ⟨write, session, errors, stand, hq⟩ := h q
    have hstay : s'.task.point.leaving = false → s.task.point.leaving = false := by
      intro hs'
      by_contra hne
      rw [hb.leaving (by simpa using hne)] at hs'
      cases hs'
    rcases hb.attempt with hsame | ⟨hnone, hleaving⟩ | ⟨hnone, hstays, head, hhead, hunsent⟩
    · refine ⟨write, session, errors, stand, hq, ?_, ?_⟩
      · rw [hsame]
        exact hq.running
      · intro htries hopen hs'
        rw [hsame]
        exact hq.goes_on htries hopen (hstay hs')
    · refine ⟨write, session, errors, stand, hq, ?_, ?_⟩
      · intro a ha
        rw [hnone] at ha
        cases ha
      · intro _ _ hs'
        rw [hleaving] at hs'
        cases hs'
    · have hidle : t.tries q ≠ [] → (∀ r, stand ≠ .ended r) → False := by
        intro htries hopen
        obtain ⟨a, ha, -⟩ := hq.goes_on htries hopen hstays
        rw [hnone] at ha
        cases ha
      by_cases hseq : head.seq = q
      · have hnil := unsent_tries hq hseq hunsent
        have hbase : Tracked s t q head.write 0 [] .idle := by
          refine hq.rebase hnil fun a ha => ?_
          rw [hnone] at ha
          cases ha
        refine ⟨_, _, _, _, hbase, ?_, fun htries => absurd hnil htries⟩
        intro a ha hq'
        rw [hhead] at ha
        cases ha
        exact ⟨rfl, fun _ => by rw [hseq]; exact hnil, nofun, nofun⟩
      · refine ⟨write, session, errors, stand, hq, ?_, fun htries hopen _ =>
          absurd (hidle htries hopen) id⟩
        intro a ha hq'
        rw [hhead] at ha
        cases ha
        exact absurd hq' hseq
  obtain ⟨write, session, errors, stand, hq, hrun, hgoes⟩ := hrunning
  refine ⟨write, session, errors, stand, hq.course, ?_, ?_, hrun, hgoes, ?_, ?_, ?_, ?_, ?_⟩
  · rw [hlog, retries_aside hmore]
    exact hq.retries
  · rw [hlog, sendsOf_aside hmore]
    exact hq.sent
  · rw [hb.failure]
    exact hq.failure
  · rw [hb.failure, hlog, processed_aside hmore]
    exact hq.latest
  · intro r hover
    rcases hq.ended r hover with ⟨k, hk, hrest⟩ | ⟨e, heq, hin⟩
    · exact Or.inl ⟨k, hb.kept k hk, hrest⟩
    · rw [hlog]
      exact Or.inr ⟨e, heq, List.mem_append_left _ hin⟩
  · intro k hk hkq
    rcases hb.completing k hk with hold | ⟨-, hw, hwhy⟩
    · exact hq.completing k hold hkq
    · refine Or.inr ⟨hq.not_over hgood htold hw hkq, ?_⟩
      rcases hwhy with hleft | hunsent
      · exact Or.inl hleft
      · exact Or.inr (unsent_tries hq hkq hunsent)
  · intro e r heq hin
    rw [hlog] at hin
    exact hq.told e r heq (reported_aside hmore hin)

theorem finish_keeps {st : State} {entry : Entry} {result : WriteResult} {f : LastFailure}
    (h : st.lastFailure = some (q, f)) (hne : q ≠ entry.seq) :
    (st.finish entry result).lastFailure = some (q, f) := by
  simp only [State.finish, State.recordEnd_lastFailure, h, if_neg hne]

/-- A part of a completion tells of no attempt. -/
theorem complete_log (s : Sys) (entry : Entry) (result : WriteResult) (stage : Stage) :
    retries q (s.completeStep entry result stage).log = retries q s.log ∧
      sendsOf q (s.completeStep entry result stage).log = sendsOf q s.log ∧
      (∀ e report, .reported e report ∈ s.log →
        .reported e report ∈ (s.completeStep entry result stage).log) ∧
      (q ∈ processed s.log → q ∈ processed (s.completeStep entry result stage).log) := by
  cases stage with
  | signalling => exact ⟨rfl, rfl, fun _ _ h => h, id⟩
  | _ =>
      refine ⟨?_, ?_, fun _ _ h => List.mem_append_left _ h, ?_⟩
      · simp [completeStep, retries, Obs.retryOf]
      · simp [completeStep, sendsOf, Obs.sentWrite]
      · intro hq
        simp only [completeStep, processed_append]
        exact List.mem_append_left _ hq

theorem Traced.complete (h : Traced s t) {entry : Entry} {result : WriteResult} {stage : Stage}
    (hc : s.task.completing = some ⟨entry, result, stage⟩) :
    Traced (s.completeStep entry result stage) t := by
  intro q
  obtain ⟨write, session, errors, stand, hq⟩ := h q
  obtain ⟨hretries, hsends, hreported, hprocessed⟩ := @complete_log q s entry result stage
  have hattempt : (s.completeStep entry result stage).task.attempt = s.task.attempt := by
    cases stage <;> rfl
  have hpoint : (s.completeStep entry result stage).task.point = s.task.point := by
    cases stage <;> rfl
  have hsame : ∀ k, (s.completeStep entry result stage).task.completing = some k →
      k.entry = entry ∧ k.result = result := by
    intro k hk
    cases stage <;> cases hk <;> exact ⟨rfl, rfl⟩
  refine ⟨write, session, errors, stand, hq.course, ?_, ?_, ?_, ?_, ?_, ?_, ?_, ?_, ?_⟩
  · rw [hretries]
    exact hq.retries
  · rw [hsends]
    exact hq.sent
  · rw [hattempt]
    exact hq.running
  · rw [hattempt, hpoint]
    exact hq.goes_on
  · intro f hf
    cases stage with
    | removing => exact hq.failure f (State.finish_lastFailure hf).1
    | _ => exact hq.failure f hf
  · intro error herror
    rcases hq.latest error herror with hdone | hlast
    · exact Or.inl (hprocessed hdone)
    · cases stage with
      | removing =>
          by_cases hne : q = entry.seq
          · left
            simp [completeStep, Obs.processedSeq, hne]
          · exact Or.inr (finish_keeps hlast hne)
      | _ => exact Or.inr hlast
  · intro r hover
    rcases hq.ended r hover with ⟨k, hk, hkq, hstage, hkr⟩ | ⟨e, heq, hin⟩
    · rw [hc] at hk
      cases hk
      cases hstage
      cases hkr
      exact Or.inr ⟨entry, hkq, by simp [completeStep]⟩
    · exact Or.inr ⟨e, heq, hreported e _ hin⟩
  · intro k hk hkq
    obtain ⟨hentry, hresult⟩ := hsame k hk
    rw [hresult]
    exact hq.completing _ hc (by rw [← hkq, hentry])
  · intro e r heq hin
    cases stage with
    | reporting =>
        rcases List.mem_append.mp hin with hin | hin
        · exact hq.told e r heq hin
        · have hobs := List.mem_singleton.mp hin
          injection hobs with he hr
          subst he
          have hterminal := congrArg QueueReport.terminal hr
          simp only [QueueReport.terminal_ofResult, Option.some.injEq, Prod.mk.injEq,
            true_and] at hterminal
          rw [hterminal]
          exact hq.completing _ hc heq
    | removing =>
        rcases List.mem_append.mp hin with hin | hin
        · exact hq.told e r heq hin
        · cases List.mem_singleton.mp hin
    | sending =>
        rcases List.mem_append.mp hin with hin | hin
        · exact hq.told e r heq hin
        · cases List.mem_singleton.mp hin
    | signalling => exact hq.told e r heq hin

/-- The write of the attempt in flight waits, so no end of it is known. -/
theorem no_end_in_flight (hgood : s.ledger.Good) (hflight : s.InFlight) (htold : s.Told)
    {a : Attempt} (ha : s.task.attempt = some a) {e : Entry} {r : WriteResult}
    (he : e.seq = a.seq) : .reported e (.ofResult e.write.name r) ∉ s.log := by
  intro hin
  obtain ⟨e', hentry, hseq, -⟩ := hflight.attempt a ha
  have hw : e' ∈ s.waiting := by simp [waiting, hentry]
  exact htold.not_of_waiting hgood hw hin (by simp) (by rw [he, hseq])

/-- A round of another write: only its own session and failure can have changed. -/
theorem Tracked.other (h : Tracked s t q write session errors stand) {a : Attempt}
    (ha : s.task.attempt = some a) (hne : a.seq ≠ q) {t' : Trail}
    (htries : t'.tries q = t.tries q) (hretries : Queue.retries q s'.log = Queue.retries q s.log)
    (hsends : sendsOf q s'.log = sendsOf q s.log)
    (hprocessed : processed s'.log = processed s.log)
    (hreported : ∀ e report, .reported e report ∈ s'.log ↔ .reported e report ∈ s.log)
    (hattempt : ∀ b, s'.task.attempt = some b → b.seq = a.seq)
    (hleaving : s.task.point.leaving = false) (hfree : s.task.completing = none)
    (hcompleting : ∀ k, s'.task.completing = some k → k.entry.seq = a.seq)
    (hfailure : ∀ f, s'.st.lastFailure = some (q, f) ↔ s.st.lastFailure = some (q, f)) :
    Tracked s' t' q write session errors stand where
  course := by
    rw [htries]
    exact h.course
  retries := by
    rw [hretries]
    exact h.retries
  sent := by
    rw [hsends, htries]
    exact h.sent
  running := fun b hb hq => absurd ((hattempt b hb).symm.trans hq) hne
  goes_on := by
    intro hnil hopen _
    rw [htries] at hnil
    obtain ⟨b, hb, hq⟩ := h.goes_on hnil hopen hleaving
    rw [ha] at hb
    cases hb
    exact absurd hq hne
  failure := fun f hf => h.failure f ((hfailure f).mp hf)
  latest := by
    intro error herror
    rw [hprocessed, hfailure]
    exact h.latest error herror
  ended := by
    intro r hover
    rcases h.ended r hover with ⟨k, hk, -⟩ | ⟨e, heq, hin⟩
    · rw [hfree] at hk
      cases hk
    · exact Or.inr ⟨e, heq, (hreported e _).mpr hin⟩
  completing := fun k hk hq => absurd ((hcompleting k hk).symm.trans hq) hne
  told := by
    intro e r heq hin
    rw [htries]
    exact h.told e r heq ((hreported e _).mp hin)

theorem Traced.send (h : Traced s t) (hgood : s.ledger.Good) (hflight : s.InFlight)
    (htold : s.Told) {a : Attempt} (hat : s.At .selecting) (ha : s.task.attempt = some a)
    (hphase : a.phase ≠ .sending) : Traced (s.send a) (t.send a) := by
  have hleaving : s.task.point.leaving = false := by rw [hat.point]; rfl
  have hlog : (s.send a).log = s.log ++ [.sent a.seq a.write] := rfl
  intro q
  obtain ⟨write, session, errors, stand, hq⟩ := h q
  by_cases hseq : a.seq = q
  · subst hseq
    have hrun := hq.running a ha rfl
    obtain rfl := hrun.write
    -- The round is sent on the session of the loop, which is new at the first round.
    have hround : ∃ session' errors', Tracked s t a.seq a.write session' errors' .idle ∧
        (t.send a).session = session' ∧
        (t.send a).tries a.seq = t.tries a.seq ++ [⟨session', none⟩] := by
      cases hp : a.phase with
      | created =>
          refine ⟨t.opened, [], hq.rebase (hrun.created hp) ?_, ?_, ?_⟩
          · intro b hb _
            rw [ha] at hb
            cases hb
            exact ⟨rfl, hp⟩
          · simp [Trail.send, hp]
          · simp [Trail.send, hp]
      | sending => exact absurd hp hphase
      | retrying =>
          obtain ⟨rfl, rfl, -⟩ := hrun.retrying hp
          refine ⟨t.session, errors, hq, ?_, ?_⟩ <;> simp [Trail.send, hp]
    obtain ⟨session', errors', hbase, hsession, htries⟩ := hround
    refine ⟨a.write, session', errors', .sending, ?_, ?_, ?_, ?_, ?_, ?_, ?_, ?_, ?_, ?_⟩
    · rw [htries]
      exact .send hbase.course
    · rw [hlog, retries_append, hbase.retries]
      simp [retries, Obs.retryOf]
    · rw [hlog, sendsOf_append, hbase.sent, htries]
      simp [sendsOf, Obs.sentWrite]
    · intro b hb _
      cases hb
      refine ⟨rfl, fun hp => ?_, fun _ => ⟨rfl, hsession⟩, fun hp => ?_⟩
      · cases hp
      · cases hp
    · exact fun _ _ _ => ⟨_, rfl, rfl⟩
    · exact hbase.failure
    · intro error herror
      rw [hlog, processed_append]
      rcases hbase.latest error herror with hdone | hlast
      · exact Or.inl (List.mem_append_left _ hdone)
      · exact Or.inr hlast
    · exact fun r hover => by cases hover
    · intro k hk
      rw [show (s.send a).task.completing = s.task.completing from rfl, hat.free] at hk
      cases hk
    · intro e r heq hin
      rcases List.mem_append.mp hin with hin | hin
      · exact absurd hin (no_end_in_flight hgood hflight htold ha heq)
      · cases List.mem_singleton.mp hin
  · have hne : ¬q = a.seq := fun heq => hseq heq.symm
    refine ⟨write, session, errors, stand, hq.other ha hseq ?_ ?_ ?_ ?_ ?_ ?_ hleaving hat.free
      ?_ fun f => Iff.rfl⟩
    · unfold Trail.send
      split <;> simp [hne]
    · simp [hlog, retries, Obs.retryOf]
    · rw [hlog, sendsOf_append]
      simp [sendsOf, Obs.sentWrite, hseq]
    · simp [hlog, Obs.processedSeq]
    · simp [hlog]
    · intro b hb
      cases hb
      rfl
    · intro k hk
      rw [show (s.send a).task.completing = s.task.completing from rfl, hat.free] at hk
      cases hk

/-- The last failure is one of the write in flight. -/
theorem failure_in_flight (hflight : s.InFlight) {a : Attempt} (hat : s.At .selecting)
    (ha : s.task.attempt = some a) {f : LastFailure} (hf : s.st.lastFailure = some (q, f)) :
    q = a.seq := by
  obtain ⟨e, hfailing, rfl, -⟩ := hflight.failure q f hf
  have hentry := hfailing.entry_of_free hat rfl
  obtain ⟨e', he', hseq, -⟩ := hflight.attempt a ha
  rw [hentry] at he'
  cases he'
  exact hseq

theorem Traced.retry (h : Traced s t) (hgood : s.ledger.Good) (hflight : s.InFlight)
    (htold : s.Told) {a : Attempt} {outcome : Outcome} {error : Error} (hat : s.At .selecting)
    (ha : s.task.attempt = some a) (hphase : a.phase = .sending)
    (hjudge : judge a.write outcome = .resend error) :
    Traced (s.retry a error) (t.ended a outcome) := by
  have hleaving : s.task.point.leaving = false := by rw [hat.point]; rfl
  have hlog : (s.retry a error).log =
    s.log ++ [.retrying a.seq (.retrying a.write.name error)] := rfl
  have hlast : (s.retry a error).st.lastFailure = some (a.seq, ⟨a.write.name, error⟩) := rfl
  intro q
  obtain ⟨write, session, errors, stand, hq⟩ := h q
  by_cases hseq : a.seq = q
  · subst hseq
    have hrun := hq.running a ha rfl
    obtain rfl := hrun.write
    obtain ⟨rfl, hsession⟩ := hrun.sending hphase
    obtain ⟨before, hbefore⟩ := hq.course.snoc_of_sending
    have htries : (t.ended a outcome).tries a.seq = before ++ [⟨session, some outcome⟩] := by
      simp [Trail.ended, hbefore]
    have hcourse := hq.course
    rw [hbefore] at hcourse
    refine ⟨a.write, session, errors ++ [error], .idle, ?_, ?_, ?_, ?_, ?_, ?_, ?_, ?_, ?_, ?_⟩
    · rw [htries]
      exact .resend hcourse hjudge
    · rw [hlog, retries_append, hq.retries, List.map_append]
      simp [retries, Obs.retryOf]
    · rw [hlog, sendsOf_append, hq.sent, htries, hbefore]
      simp [sendsOf, Obs.sentWrite]
    · intro b hb _
      cases hb
      refine ⟨rfl, fun hp => ?_, fun hp => ?_, fun _ => ⟨rfl, hsession, by simp [htries]⟩⟩
      · cases hp
      · cases hp
    · exact fun _ _ _ => ⟨_, rfl, rfl⟩
    · intro f hf
      rw [hlast] at hf
      cases hf
      simp
    · intro error' herror
      have heq : error = error' := by simpa using herror
      subst heq
      exact Or.inr hlast
    · exact fun r hover => by cases hover
    · intro k hk
      rw [show (s.retry a error).task.completing = s.task.completing from rfl, hat.free] at hk
      cases hk
    · intro e r heq hin
      rcases List.mem_append.mp hin with hin | hin
      · exact absurd hin (no_end_in_flight hgood hflight htold ha heq)
      · cases List.mem_singleton.mp hin
  · have hne : ¬q = a.seq := fun heq => hseq heq.symm
    refine ⟨write, session, errors, stand, hq.other ha hseq ?_ ?_ ?_ ?_ ?_ ?_ hleaving hat.free
      ?_ ?_⟩
    · simp [Trail.ended, hne]
    · simp [hlog, retries, Obs.retryOf, hseq]
    · rw [hlog, sendsOf_append]
      simp [sendsOf, Obs.sentWrite]
    · simp [hlog, Obs.processedSeq]
    · simp [hlog]
    · intro b hb
      cases hb
      rfl
    · intro k hk
      rw [show (s.retry a error).task.completing = s.task.completing from rfl, hat.free] at hk
      cases hk
    · intro f
      constructor
      · intro hf
        rw [hlast] at hf
        cases hf
        exact absurd rfl hne
      · intro hf
        exact absurd (failure_in_flight hflight hat ha hf) hne

theorem Traced.done (h : Traced s t) (hgood : s.ledger.Good) (hflight : s.InFlight)
    (htold : s.Told) {a : Attempt} {outcome : Outcome} {result : WriteResult}
    (hat : s.At .selecting) (ha : s.task.attempt = some a) (hphase : a.phase = .sending)
    (hjudge : judge a.write outcome = .final result) :
    Traced (s.attemptDone result) (t.ended a outcome) := by
  have hleaving : s.task.point.leaving = false := by rw [hat.point]; rfl
  obtain ⟨e, hentry, hentryseq, -⟩ := hflight.attempt a ha
  have hc : (s.attemptDone result).task.completing = some ⟨e, result, .reporting⟩ := by
    simp [attemptDone, hentry]
  intro q
  obtain ⟨write, session, errors, stand, hq⟩ := h q
  by_cases hseq : a.seq = q
  · subst hseq
    have hrun := hq.running a ha rfl
    obtain rfl := hrun.write
    obtain ⟨rfl, -⟩ := hrun.sending hphase
    obtain ⟨before, hbefore⟩ := hq.course.snoc_of_sending
    have htries : (t.ended a outcome).tries a.seq = before ++ [⟨session, some outcome⟩] := by
      simp [Trail.ended, hbefore]
    have hcourse := hq.course
    rw [hbefore] at hcourse
    refine ⟨a.write, session, errors, .ended result, ?_, hq.retries, ?_, ?_, ?_, hq.failure,
      hq.latest, ?_, ?_, ?_⟩
    · rw [htries]
      exact .finish hcourse hjudge
    · rw [show (s.attemptDone result).log = s.log from rfl, hq.sent, htries, hbefore]
      simp
    · exact fun b hb => by cases hb
    · exact fun _ hopen => absurd rfl (hopen result)
    · intro r hover
      cases hover
      exact Or.inl ⟨_, hc, hentryseq, rfl, rfl⟩
    · intro k hk _
      rw [hc] at hk
      cases hk
      exact Or.inl rfl
    · intro e' r heq hin
      exact absurd hin (no_end_in_flight hgood hflight htold ha heq)
  · have hne : ¬q = a.seq := fun heq => hseq heq.symm
    refine ⟨write, session, errors, stand, hq.other ha hseq ?_ rfl rfl rfl (fun _ _ => Iff.rfl)
      (fun b hb => by cases hb) hleaving hat.free ?_ fun f => Iff.rfl⟩
    · simp [Trail.ended, hne]
    · intro k hk
      rw [hc] at hk
      cases hk
      exact hentryseq

theorem traced {p : Sys × Trail} (h : trailed.Reachable p) : Traced p.1 p.2 := by
  refine Machine.Reach.invariant (P := fun p => Traced p.1 p.2) traced_init ?_ h
  intro p p' event hp htraced _ hs
  obtain ⟨s', hs', rfl⟩ := Option.map_eq_some_iff.mp hs
  have hreach : machine.Reachable p.1 := reachable_of_trailed hp
  have hgood := good hreach
  have hflight := inFlight hreach
  have htold := told hreach
  have hstep : TrailStep p.1 p.2 s' (p.2.after p.1 event) :=
    trail_cases hflight (joinInv hreach) (fifoInv hreach) hs'
  show Traced s' (p.2.after p.1 event)
  revert hstep
  generalize p.2.after p.1 event = t'
  intro hstep
  cases hstep with
  | beside hb => exact htraced.beside hgood htold hb
  | complete entry result stage hc => exact htraced.complete hc
  | send attempt hat ha hphase => exact htraced.send hgood hflight htold hat ha hphase
  | retry attempt outcome error hat ha hphase hjudge =>
      exact htraced.retry hgood hflight htold hat ha hphase hjudge
  | done attempt outcome result hat ha hphase hjudge =>
      exact htraced.done hgood hflight htold hat ha hphase hjudge

end Sys

/-! ## The rules of the judgment -/

/-- The error of an outcome; a wait that runs out has one of its own. -/
def Outcome.error? : Outcome → Option Error
  | .ok => none
  | .error e => some e
  | .timedOut => some (.waitFired "no outcome within the outcome wait")

/-- When an outcome of the write is sent again, and what it ends the write with else. -/
structure Rules (write : Write) : Prop where
  resent : ∀ outcome error, resentFor write outcome = some error ↔
    outcome.error? = some error ∧ resendable write error = true
  delivered : ∀ outcome, finalOf write outcome = some .ok ↔ outcome = .ok
  refused : ∀ outcome error, finalOf write outcome = some (.err (.refused error)) ↔
    outcome.error? = some error ∧ resendable write error = false ∧
      ∃ refusal, error = .refused refusal
  failed : ∀ outcome error, finalOf write outcome = some (.err (.failed error)) ↔
    outcome.error? = some error ∧ resendable write error = false ∧
      ∀ refusal, error ≠ .refused refusal
  /-- An unknown instance is waited for by the started fact alone. -/
  refusal : ∀ refusal, resendable write (.refused refusal) = true ↔
    write.isStarted = true ∧ refusal.reason = .instanceUnknown
  timed_out : (resentFor write .timedOut).isSome

theorem judge_of_error {write : Write} {outcome : Outcome} {error : Error}
    (h : outcome.error? = some error) : judge write outcome = judgeError write error := by
  cases outcome <;> cases h <;> rfl

theorem finalOf_of_error {write : Write} {outcome : Outcome} {error : Error}
    (h : outcome.error? = some error) : finalOf write outcome =
      if resendable write error then none else some (.err (finalRemoval error)) := by
  unfold finalOf
  rw [judge_of_error h, judgeError]
  split_ifs <;> rfl

theorem resentFor_of_error {write : Write} {outcome : Outcome} {error : Error}
    (h : outcome.error? = some error) : resentFor write outcome =
      if resendable write error then some error else none := by
  unfold resentFor
  rw [judge_of_error h, judgeError]
  split_ifs <;> rfl

theorem outcome_cases (outcome : Outcome) :
    outcome = .ok ∨ ∃ error, outcome.error? = some error := by
  cases outcome with
  | ok => exact Or.inl rfl
  | error e => exact Or.inr ⟨e, rfl⟩
  | timedOut => exact Or.inr ⟨_, rfl⟩

theorem finalRemoval_refused {error error' : Error} :
    finalRemoval error = .refused error' ↔ error = error' ∧ ∃ refusal, error = .refused refusal := by
  cases error <;> simp [finalRemoval]

theorem finalRemoval_failed {error error' : Error} :
    finalRemoval error = .failed error' ↔
      error = error' ∧ ∀ refusal, error ≠ .refused refusal := by
  cases error <;> simp [finalRemoval]

theorem rules (write : Write) : Rules write where
  resent := by
    intro outcome error
    rcases outcome_cases outcome with rfl | ⟨error', h⟩
    · constructor
      · intro h
        cases h
      · rintro ⟨h, -⟩
        cases h
    · rw [resentFor_of_error h, h]
      split_ifs with hresend
      · constructor
        · rintro ⟨⟩
          exact ⟨rfl, hresend⟩
        · exact fun hboth => hboth.1
      · refine ⟨nofun, ?_⟩
        rintro ⟨⟨⟩, hboth⟩
        exact absurd hboth hresend
  delivered := by
    intro outcome
    rcases outcome_cases outcome with rfl | ⟨error, h⟩
    · exact ⟨fun _ => rfl, fun _ => rfl⟩
    · rw [finalOf_of_error h]
      constructor
      · intro hok
        split_ifs at hok
        cases Option.some.inj hok
      · rintro rfl
        cases h
  refused := by
    intro outcome error
    rcases outcome_cases outcome with rfl | ⟨error', h⟩
    · constructor
      · intro h
        cases h
      · rintro ⟨h, -⟩
        cases h
    · rw [finalOf_of_error h, h]
      split_ifs with hresend
      · refine ⟨nofun, ?_⟩
        rintro ⟨⟨⟩, hboth, -⟩
        rw [hresend] at hboth
        cases hboth
      · simp only [Option.some.injEq, WriteResult.err.injEq, finalRemoval_refused]
        constructor
        · rintro ⟨rfl, hrefusal⟩
          exact ⟨rfl, by simpa using hresend, hrefusal⟩
        · rintro ⟨rfl, -, hrefusal⟩
          exact ⟨rfl, hrefusal⟩
  failed := by
    intro outcome error
    rcases outcome_cases outcome with rfl | ⟨error', h⟩
    · constructor
      · intro h
        cases h
      · rintro ⟨h, -⟩
        cases h
    · rw [finalOf_of_error h, h]
      split_ifs with hresend
      · refine ⟨nofun, ?_⟩
        rintro ⟨⟨⟩, hboth, -⟩
        rw [hresend] at hboth
        cases hboth
      · simp only [Option.some.injEq, WriteResult.err.injEq, finalRemoval_failed]
        constructor
        · rintro ⟨rfl, hrefusal⟩
          exact ⟨rfl, by simpa using hresend, hrefusal⟩
        · rintro ⟨rfl, -, hrefusal⟩
          exact ⟨rfl, hrefusal⟩
  refusal := by
    intro refusal
    rw [resendable, Bool.and_eq_true, decide_eq_true_eq]
  timed_out := rfl

namespace Sys

/-! ## A whole loop -/

/-- The rounds of a loop: each send is answered by the next outcome. -/
def rounds : List Outcome → List Event
  | [] => []
  | outcome :: outcomes => .task .send :: .task (.attemptEnded outcome) :: rounds outcomes

variable {s s' : Sys} {t : Trail}

theorem run_send {a : Attempt} (hat : s.At .selecting) (ha : s.task.attempt = some a)
    (hphase : a.phase ≠ .sending) : s.step (.task .send) = some (s.send a) := by
  simp only [step, taskStep, hat.free, hat.point, ha, if_neg hphase]

theorem run_retry {a : Attempt} {outcome : Outcome} {error : Error} (hat : s.At .selecting)
    (ha : s.task.attempt = some a) (hphase : a.phase = .sending)
    (hjudge : judge a.write outcome = .resend error) :
    s.step (.task (.attemptEnded outcome)) = some (s.retry a error) := by
  simp only [step, taskStep, hat.free, hat.point, ha, if_pos hphase, hjudge]

theorem run_done {a : Attempt} {outcome : Outcome} {result : WriteResult} (hat : s.At .selecting)
    (ha : s.task.attempt = some a) (hphase : a.phase = .sending)
    (hjudge : judge a.write outcome = .final result) :
    s.step (.task (.attemptEnded outcome)) = some (s.attemptDone result) := by
  simp only [step, taskStep, hat.free, hat.point, ha, if_pos hphase, hjudge]

/-- The send of a round adds a try that runs. -/
theorem send_tries (t : Trail) (a : Attempt) :
    ∃ session, (t.send a).tries a.seq = t.tries a.seq ++ [⟨session, none⟩] := by
  unfold Trail.send
  split_ifs
  · exact ⟨t.opened, by simp⟩
  · exact ⟨t.session, by simp⟩

/-- A round is accepted, and the outcome is that of its try. -/
theorem round_tries (t : Trail) {a b : Attempt} (hseq : b.seq = a.seq) (outcome : Outcome) :
    (((t.send a).ended b outcome).tries a.seq).map Try.outcome =
      (t.tries a.seq).map Try.outcome ++ [some outcome] := by
  obtain ⟨session, hsend⟩ := send_tries t a
  simp [Trail.ended, hseq, hsend]

theorem run_rounds {last : Outcome} {result : WriteResult} : ∀ {outcomes : List Outcome}
    {s : Sys} {t : Trail} {a : Attempt}, s.At .selecting → s.task.attempt = some a →
    a.phase ≠ .sending → (∀ o ∈ outcomes, (resentFor a.write o).isSome) →
    finalOf a.write last = some result →
    ∃ p, trailed.runFrom (s, t) (rounds (outcomes ++ [last])) = some p ∧
      p.1.task.completing = s.task.entry.map (fun e => ⟨e, result, .reporting⟩) ∧
      (p.2.tries a.seq).map Try.outcome =
        (t.tries a.seq).map Try.outcome ++ (outcomes ++ [last]).map some := by
  intro outcomes
  induction outcomes with
  | nil =>
      intro s t a hat ha hphase _ hfinal
      have hjudge : judge a.write last = .final result := by
        unfold finalOf at hfinal
        split at hfinal
        · cases hfinal
        · rename_i r hj
          rw [hj, Option.some.inj hfinal]
      have hsend := trailed_step (t := t) (run_send hat ha hphase)
      have hdone := trailed_step (t := t.after s (.task .send))
        (run_done (s := s.send a) ⟨hat.free, hat.point⟩ rfl rfl hjudge)
      refine ⟨((s.send a).attemptDone result,
        (t.after s (.task .send)).after (s.send a) (.task (.attemptEnded last))), ?_, rfl, ?_⟩
      · exact (congrArg (Option.bind · _) hsend).trans
          (congrArg (Option.bind · _) hdone)
      · simp only [Trail.after, ha]
        exact round_tries t rfl last
  | cons outcome outcomes ih =>
      intro s t a hat ha hphase hresent hfinal
      obtain ⟨error, herror⟩ := Option.isSome_iff_exists.mp (hresent outcome (by simp))
      have hjudge : judge a.write outcome = .resend error := by
        unfold resentFor at herror
        split at herror
        · rename_i e hj
          rw [hj, Option.some.inj herror]
        · cases herror
      have hsend := trailed_step (t := t) (run_send hat ha hphase)
      have hretry := trailed_step (t := t.after s (.task .send))
        (run_retry (s := s.send a) ⟨hat.free, hat.point⟩ rfl rfl hjudge)
      obtain ⟨p, hrun, hcompleting, htries⟩ := @ih ((s.send a).retry { a with phase := .sending } error)
        ((t.after s (.task .send)).after (s.send a) (.task (.attemptEnded outcome)))
        { a with phase := .retrying } ⟨hat.free, hat.point⟩ rfl
        (fun hp => by cases hp)
        (fun o ho => hresent o (List.mem_cons_of_mem _ ho)) hfinal
      refine ⟨p, ?_, hcompleting, ?_⟩
      · exact (congrArg (Option.bind · _) hsend).trans
          ((congrArg (Option.bind · _) hretry).trans hrun)
      · rw [htries]
        simp only [Trail.after, ha]
        rw [show (s.send a).task.attempt = some { a with phase := .sending } from rfl]
        simp only []
        rw [round_tries t (a := a) (b := { a with phase := .sending }) rfl outcome]
        simp

/-! ## The attempts of a registered write -/

/-- What the attempts of the entry come to, in one state with its trail. -/
structure Attempts (s : Sys) (t : Trail) (e : Entry) : Prop where
  one_session : ∃ session, ∀ x ∈ t.tries e.seq, x.session = session
  /-- Each try is a send of the write. -/
  sends : sendsOf e.seq s.log = (t.tries e.seq).map fun _ => (e.seq, e.write)
  /-- Only the last try can have an outcome that is not sent again. -/
  resent : ∀ x ∈ (t.tries e.seq).dropLast, x.Resent e.write
  rules : Rules e.write
  /-- One report for each outcome that was sent again, and none for any other. -/
  retry_reports : retries e.seq s.log =
    (resentErrors e.write (t.tries e.seq)).map (.retrying e.write.name)
  /-- Until the write is taken out of `pending`, the queue shows its latest error. -/
  last_failure : ∀ error, (resentErrors e.write (t.tries e.seq)).getLast? = some error →
    e.seq ∉ processed s.log → s.st.snapshot.lastFailure = some ⟨e.write.name, error⟩
  no_failure : resentErrors e.write (t.tries e.seq) = [] →
    ∀ f, s.st.lastFailure ≠ some (e.seq, f)
  cleared : e.seq ∈ processed s.log → ∀ f, s.st.lastFailure ≠ some (e.seq, f)
  /-- Without a verdict the loop goes on, until the task is dropped. -/
  goes_on : t.tries e.seq ≠ [] → verdict e.write (t.tries e.seq) = none →
    s.task.point.leaving = false →
    ∃ a, s.task.attempt = some a ∧ a.seq = e.seq ∧ a.write = e.write ∧ a.phase ≠ .created ∧
      (a.phase = .sending ↔ ∃ x, (t.tries e.seq).getLast? = some x ∧ x.outcome = none)
  /-- The verdict ends the write. -/
  ends : ∀ r, verdict e.write (t.tries e.seq) = some r →
    s.task.completing = some ⟨e, r, .reporting⟩ ∨
      .reported e (.ofResult e.write.name r) ∈ s.log
  /-- Any other end is of a write that was never sent, or that the drop left unsent. -/
  ended : ∀ r, (e.chan, r) ∈ results s.log → e.seq ∈ processed s.log ∧
    (verdict e.write (t.tries e.seq) = some r ∨
      verdict e.write (t.tries e.seq) = none ∧ (r = .err .leftUnsent ∨ t.tries e.seq = []))
  /-- Before the next send every sequence of outcomes can follow, up to its first final one,
  and that one completes the write. -/
  plays : s.At .selecting → ∀ a, s.task.attempt = some a → a.seq = e.seq → a.phase ≠ .sending →
    ∀ outcomes last r, (∀ o ∈ outcomes, (resentFor e.write o).isSome) →
      finalOf e.write last = some r →
      ∃ p, trailed.runFrom (s, t) (rounds (outcomes ++ [last])) = some p ∧
        p.1.task.completing = some ⟨e, r, .reporting⟩ ∧
        (p.2.tries e.seq).map Try.outcome =
          (t.tries e.seq).map Try.outcome ++ (outcomes ++ [last]).map some

/-- A write that was sent is the one that was registered under its number. -/
theorem sent_write (hreach : machine.Reachable s) {e : Entry} (he : e ∈ registered s.log)
    {write : Write} (hsent : (e.seq, write) ∈ sends s.log) : write = e.write := by
  obtain ⟨e', hjoined, hseq, rfl⟩ := joined_of_sent (fifoInv hreach) hsent
  have hregistered := registered_of_joins (joinInv hreach) hjoined
  rw [(good hreach).entry_unique hregistered he hseq]

/-- The course of a registered entry is one of its own write. -/
theorem tracked_entry {p : Sys × Trail} (h : trailed.Reachable p) {e : Entry}
    (he : e ∈ registered p.1.log) :
    ∃ session errors stand, Tracked p.1 p.2 e.seq e.write session errors stand := by
  have hreach := reachable_of_trailed h
  obtain ⟨write, session, errors, stand, hq⟩ := traced h e.seq
  by_cases hnil : p.2.tries e.seq = []
  · refine ⟨0, [], .idle, hq.rebase hnil fun a ha hseq => ?_⟩
    have hrun := hq.running a ha hseq
    obtain ⟨e', hentry, hseq', hwrite⟩ := (inFlight hreach).attempt a ha
    have hregistered : e' ∈ registered p.1.log :=
      (good hreach).holds e' (Or.inl (by simp [waiting, ledger, hentry]))
    obtain rfl := (good hreach).entry_unique hregistered he (hseq'.trans hseq)
    refine ⟨hwrite.symm, ?_⟩
    cases hp : a.phase with
    | created => rfl
    | sending =>
        obtain ⟨rfl, -⟩ := hrun.sending hp
        cases (course_of_nil hq.course hnil).2
    | retrying =>
        have hsent := (hrun.retrying hp).2.2
        rw [hseq] at hsent
        exact absurd hnil hsent
  · obtain ⟨x, rest, hcons⟩ := List.exists_cons_of_ne_nil hnil
    have hmem : (e.seq, write) ∈ sendsOf e.seq p.1.log := by
      rw [hq.sent, hcons]
      simp
    obtain rfl := sent_write hreach he (List.mem_filter.mp hmem).1
    exact ⟨session, errors, stand, hq⟩

/-- Every state of the queue with its trail, and every write registered in it. -/
theorem attempts_of_write {p : Sys × Trail} (h : trailed.Reachable p) {e : Entry}
    (he : e ∈ registered p.1.log) : Attempts p.1 p.2 e := by
  have hreach := reachable_of_trailed h
  have hgood := good hreach
  have hflight := inFlight hreach
  have htold := told hreach
  obtain ⟨session, errors, stand, hq⟩ := tracked_entry h he
  obtain rfl := hq.course.errors_eq
  have hover : ∀ r, verdict e.write (p.2.tries e.seq) = some r ↔ stand = .ended r := by
    intro r
    rw [hq.course.verdict_eq]
    cases stand <;> simp
  have hopen : verdict e.write (p.2.tries e.seq) = none ↔ ∀ r, stand ≠ .ended r := by
    rw [hq.course.verdict_eq]
    cases stand <;> simp
  constructor
  · exact ⟨session, hq.course.session_eq⟩
  · exact hq.sent
  · exact hq.course.resent.1
  · exact rules e.write
  · exact hq.retries
  · intro error herror hnot
    have hlast := (hq.latest error herror).resolve_left hnot
    simp [State.snapshot, hlast]
  · intro hnil f hf
    have herror := (hq.failure f hf).1
    rw [hnil] at herror
    cases herror
  · intro hdone f hf
    obtain ⟨e', hfailing, hseq, -⟩ := hflight.failure e.seq f hf
    have hun := failing_unprocessed hgood hfailing
    have hnot := of_decide_eq_true (List.mem_filter.mp hun).2
    rw [hseq] at hnot
    exact hnot hdone
  · intro hnil hnone hstay
    obtain ⟨a, ha, hseq⟩ := hq.goes_on hnil (hopen.mp hnone) hstay
    have hrun := hq.running a ha hseq
    refine ⟨a, ha, hseq, hrun.write, ?_, ?_⟩
    · intro hp
      have htries := hrun.created hp
      rw [hseq] at htries
      exact hnil htries
    · rw [hq.course.running_iff]
      constructor
      · exact fun hp => (hrun.sending hp).1
      · rintro rfl
        cases hp : a.phase with
        | created =>
            have htries := hrun.created hp
            rw [hseq] at htries
            exact absurd htries hnil
        | sending => rfl
        | retrying => cases (hrun.retrying hp).1
  · intro r hverdict
    rcases hq.ended r ((hover r).mp hverdict) with ⟨k, hk, hseq, hstage, hresult⟩ | ⟨e', hseq, hin⟩
    · have hregistered : k.entry ∈ registered p.1.log := hgood.holds _ (Or.inr ⟨k, hk, rfl⟩)
      obtain ⟨entry, result, stage⟩ := k
      obtain rfl : entry = e := hgood.entry_unique hregistered he hseq
      cases hstage
      cases hresult
      exact Or.inl hk
    · obtain rfl := hgood.entry_unique (htold.registered e' _ hin) he hseq
      exact Or.inr hin
  · intro r hresult
    have hprocessed := processed_of_ended hgood he ⟨r, hresult⟩
    refine ⟨hprocessed, ?_⟩
    obtain ⟨e', told, hseq, hin⟩ := htold.processed _ hprocessed
    obtain rfl := hgood.entry_unique (htold.registered e' _ hin) he hseq
    have hreport : (e'.chan, e'.write.name, told) ∈ reports p.1.log :=
      List.mem_filterMap.mpr ⟨_, hin, by simp [Obs.report]⟩
    obtain rfl : told = r := hgood.agree _ _ hresult _ _ hreport
    rcases hq.told e' told rfl hin with hstand | ⟨hnot, hwhy⟩
    · exact Or.inl ((hover told).mpr hstand)
    · exact Or.inr ⟨hopen.mpr hnot, hwhy⟩
  · intro hat a ha hseq hphase outcomes last r hresent hfinal
    obtain ⟨e', hentry, hseq', hwrite⟩ := hflight.attempt a ha
    have hregistered : e' ∈ registered p.1.log :=
      hgood.holds e' (Or.inl (by simp [waiting, ledger, hentry]))
    obtain rfl := hgood.entry_unique hregistered he (hseq'.trans hseq)
    rw [hwrite] at hresent hfinal
    obtain ⟨p', hrun, hcompleting, htries⟩ := run_rounds (t := p.2) hat ha hphase hresent hfinal
    rw [hseq] at htries
    refine ⟨p', hrun, ?_, htries⟩
    rw [hcompleting, hentry]
    rfl

/-- The started fact runs out of its wait, is told that its instance is unknown, and is
delivered. -/
def waitingRun : List Event :=
  [.enqueue (.started 1 2) 0, .call 0, .task .takeNewHeld, .task .nextHead, .task .send,
    .task (.attemptEnded .timedOut), .task .send,
    .task (.attemptEnded (.error (.refused ⟨.startedFact, .instanceUnknown, "", none⟩))),
    .task .send, .task (.attemptEnded .ok), .complete, .complete, .complete]

theorem attempts_waitingRun : ∃ p, trailed.run waitingRun = some p ∧
    Attempts p.1 p.2 ⟨0, .started 1 2, 0⟩ ∧
    (p.2.tries 0).length = 3 ∧ (retries 0 p.1.log).length = 2 ∧
    results p.1.log = [(0, .ok)] :=
  ⟨_, rfl, attempts_of_write (Machine.reachable_of_run waitingRun rfl) List.mem_cons_self,
    rfl, rfl, rfl⟩

end Sys

end RunnerKit.Queue
