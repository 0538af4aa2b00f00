import RunnerKit.Queue.Dependencies

/-!
# Dependencies hold over whole runs

The main result on the dependencies between writes. It holds for every
interleaving of hand-overs, held markers, outcomes, the stop and the drop.
Started is the key that all other writes depend on, so a Started that was
handed over first decides about every other write.
-/

namespace RunnerKit.Queue

open RunnerKit.Jobs RunnerKit.Lib

/-! ## A delivered owner -/

/-- With an owner of a key before it, a sent write has a delivered one. -/
def OwnersDelivered (pre : List Note) (note : Note) : Prop :=
  ∀ seq write, note = .sent seq write →
    ∃ before e after, pre = before ++ .joined e :: after ∧ e.seq = seq ∧
      e.write = write ∧ ∀ key ∈ dependsOn write,
        ((∃ o ∈ entries before, ownKey o.write = some key) ∨
          ∃ owner result, .recorded none owner result ∈ before ∧
            ownKey owner = some key) →
        ∃ o ∈ entries before, ownKey o.write = some key ∧
          .recorded (some o.seq) o.write .ok ∈ pre

theorem mem_endsOf {key : DepKey} {notes : List Note} {seq : Option ℕ}
    {write : Write} {result : WriteResult}
    (h : .recorded seq write result ∈ notes) (hown : ownKey write = some key) :
    result ∈ endsOf key notes :=
  List.mem_filterMap.mpr ⟨_, h, by simp [Note.endOf, hown]⟩

/-- The end of an owner that came before is one of those that count. -/
theorem endsBefore_ne_nil {key : DepKey} {before after : List Note} {o : Entry}
    {write : Write} {result : WriteResult} (ho : o ∈ entries before)
    (hown : ownKey write = some key)
    (h : .recorded (some o.seq) write result ∈ before ++ after) :
    endsBefore key before after ≠ [] := by
  have hmem : result ∈ endsBefore key before after := by
    rcases List.mem_append.mp h with h | h
    · exact List.mem_append_left _ (mem_endsOf h hown)
    · refine List.mem_append_right _ (mem_endsOf (List.mem_filter.mpr ⟨h, ?_⟩) hown)
      simpa [Note.endOfSome, Note.endedSeq] using ⟨o, ho, rfl⟩
  exact List.ne_nil_of_mem hmem

namespace Sys

variable {s s' : Sys} {notes : List Note}

/-- A recorded end of an entry that joined is of that entry's write. -/
theorem HistoryInv.write_of_recorded (h : HistoryInv s notes)
    (hreach : machine.Reachable s) {o : Entry} (ho : o ∈ entries notes)
    {write : Write} {result : WriteResult}
    (hin : .recorded (some o.seq) write result ∈ notes) : write = o.write := by
  obtain ⟨e, he, hseq, rfl, -⟩ := h.queued _ write result hin
  rw [h.joins] at ho
  have hregistered := registered_of_joins (joinInv hreach) ho
  rw [(good hreach).entry_unique he hregistered hseq]

theorem HistoryInv.owners_delivered (h : HistoryInv s notes)
    (hreach : machine.Reachable s) : Always OwnersDelivered notes := by
  intro pre note post hnotes seq write hnote
  obtain ⟨e, ⟨before, after, rfl, hmet⟩, rfl, rfl⟩ :=
    h.gated pre note post hnotes seq write hnote
  refine ⟨before, e, after, rfl, rfl, rfl, fun key hkey howner => ?_⟩
  have hbefore : ∀ {n : Note}, n ∈ before → n ∈ notes := fun hn => by
    rw [hnotes]
    simp [hn]
  have hafter : ∀ {n : Note}, n ∈ after → n ∈ notes := fun hn => by
    rw [hnotes]
    simp [hn]
  have hentry : ∀ {o : Entry}, o ∈ entries before → o ∈ entries notes :=
    fun ho => mem_entries.mpr (hbefore (mem_entries.mp ho))
  -- some end of the key counts, so the last one does, and it is a delivery
  have hne : endsBefore key before after ≠ [] := by
    rcases howner with ⟨o, ho, hown⟩ | ⟨owner, result, hin, hown⟩
    · obtain ⟨w, result, hin⟩ := mem_endedSeqs.mp ((hmet key hkey).ended o ho hown)
      have hw : w = o.write := by
        refine h.write_of_recorded hreach (hentry ho) (?_ : Note.recorded _ w result ∈ _)
        rcases List.mem_append.mp hin with hin | hin
        · exact hbefore hin
        · exact hafter hin
      subst hw
      exact endsBefore_ne_nil ho hown hin
    · exact List.ne_nil_of_mem (List.mem_append_left _ (mem_endsOf hin hown))
  have hlast : WriteResult.ok ∈ endsBefore key before after := by
    have hsome := List.getLast?_eq_getLast_of_ne_nil hne
    have hok := (hmet key hkey).delivered _ hsome
    rw [← hok]
    exact List.getLast_mem hne
  rcases List.mem_append.mp hlast with hin | hin
  · obtain ⟨n, hn, heq⟩ := List.mem_filterMap.mp hin
    obtain ⟨seq, w, rfl, hown⟩ := endOf_some heq
    obtain ⟨q, rfl, -⟩ := h.delivered seq w (hbefore hn)
    obtain ⟨pre, post', rfl⟩ := List.append_of_mem hn
    have hbehind := h.behind pre _ (post' ++ .joined e :: after ++ note :: post)
      (by simp [hnotes]) q w rfl
    obtain ⟨o, ho, rfl, rfl⟩ := hbehind
    refine ⟨o, ?_, hown, by simp⟩
    rw [entries_append]
    exact List.mem_append_left _ ho
  · obtain ⟨n, hn, heq⟩ := List.mem_filterMap.mp hin
    obtain ⟨seq, w, rfl, hown⟩ := endOf_some heq
    obtain ⟨hin, hkept⟩ := List.mem_filter.mp hn
    obtain ⟨q, rfl, -⟩ := h.delivered seq w (hafter hin)
    have hq : q ∈ (entries before).map Entry.seq := by
      simpa [Note.endOfSome, Note.endedSeq] using hkept
    obtain ⟨o, ho, rfl⟩ := List.mem_map.mp hq
    obtain rfl := h.write_of_recorded hreach (hentry ho) (hafter hin)
    exact ⟨o, ho, hown, by simp [hin]⟩

end Sys

/-! ## Started, the first hand-over -/

/-- The first write that was handed over is a Started, and it was not held. -/
def StartedFirst (log : List Obs) : Prop :=
  ∃ write, write.isStarted = true ∧
    ((∃ seq, .enqueued ⟨seq, write, 0⟩ ∈ log) ∨
      ∃ removal, .unqueued 0 write removal ∈ log)

/-- No other Started was handed over. -/
def OneStarted (log : List Obs) : Prop :=
  ∀ c write, (c, write) ∈ handed log → write.isStarted = true → c = 0

def Obs.handsOver : Obs → Bool
  | .enqueued _ | .unqueued _ _ _ => true
  | _ => false

namespace Sys

variable {s s' : Sys} {notes : List Note}

structure FirstInv (s : Sys) : Prop where
  enqueued : ∀ e, .enqueued e ∈ s.log → e.chan = 0 →
    (joins s.log).head? = some e
  /-- A Started is not queued only when the queue was stopped before. -/
  unqueued : ∀ write removal, .unqueued 0 write removal ∈ s.log →
    write.isStarted = true → s.st.stopped = true ∧ joins s.log = []

theorem firstInv_init : init.FirstInv where
  enqueued := by simp [init]
  unqueued := by simp [init]

/-- A step that is no hand-over. -/
theorem FirstInv.frame (h : s.FirstInv) {more : List Obs}
    (hlog : s'.log = s.log ++ more) (hmore : ∀ obs ∈ more, obs.handsOver = false)
    (hjoins : joins more = [] ∨ s.st.stopped = false)
    (hstop : s.st.stopped = true → s'.st.stopped = true) : s'.FirstInv where
  enqueued := by
    intro e he hchan
    rw [hlog] at he ⊢
    rcases List.mem_append.mp he with he | he
    · rw [joins_append, List.head?_append, h.enqueued e he hchan]
      rfl
    · exact absurd (hmore _ he) (by simp [Obs.handsOver])
  unqueued := by
    intro write removal hin hstarted
    rw [hlog] at hin ⊢
    rcases List.mem_append.mp hin with hin | hin
    · obtain ⟨hstopped, hnil⟩ := h.unqueued write removal hin hstarted
      refine ⟨hstop hstopped, ?_⟩
      rcases hjoins with hj | hopen
      · rw [joins_append, hnil, hj]
        rfl
      · rw [hopen] at hstopped
        cases hstopped
    · exact absurd (hmore _ hin) (by simp [Obs.handsOver])

/-- Before the first hand-over nothing has joined. -/
theorem joins_nil_of_first (hgood : s.ledger.Good) (hjoin : s.JoinInv)
    (hfirst : s.nextChan = 0) : joins s.log = [] := by
  refine List.eq_nil_iff_forall_not_mem.mpr fun e he => ?_
  have hhanded := hgood.registered_handed e (registered_of_joins hjoin he)
  have hlt := handed_lt hgood hhanded
  rw [hfirst] at hlt
  exact Nat.not_lt_zero _ hlt

theorem FirstInv.enqueue (h : s.FirstInv) (hgood : s.ledger.Good)
    (hjoin : s.JoinInv) {write : Write} {now : ℕ}
    (hopen : s.st.unqueuedBy write = none) : (s.enqueue write now).FirstInv where
  enqueued := by
    intro e he hchan
    rcases List.mem_append.mp he with he | he
    · show (joins (s.log ++ [_])).head? = some e
      rw [joins_append, List.head?_append, h.enqueued e he hchan]
      rfl
    · cases List.mem_singleton.mp he
      show (joins (s.log ++ [_])).head? = _
      rw [joins_append, joins_nil_of_first hgood hjoin hchan]
      rfl
  unqueued := by
    intro w removal hin hstarted
    rcases List.mem_append.mp hin with hin | hin
    · obtain ⟨hstopped, -⟩ := h.unqueued w removal hin hstarted
      rw [(open_of_unqueuedBy hopen)] at hstopped
      cases hstopped
    · cases List.mem_singleton.mp hin

theorem blocked_started {write : Write} (h : write.isStarted = true)
    (t : Table) : blocked write t = none := by
  cases write <;> first | rfl | cases h

theorem FirstInv.unqueue (h : s.FirstInv) (hgood : s.ledger.Good)
    (hjoin : s.JoinInv) {write : Write} {removal : Removal}
    (hwhy : s.st.unqueuedBy write = some removal) :
    (s.unqueue write removal).FirstInv where
  enqueued := by
    intro e he hchan
    rcases List.mem_append.mp he with he | he
    · show (joins (s.log ++ [_])).head? = some e
      rw [joins_append, List.head?_append, h.enqueued e he hchan]
      rfl
    · cases List.mem_singleton.mp he
  unqueued := by
    intro w cause hin hstarted
    have hsame : joins (s.unqueue write removal).log = joins s.log := by
      simp [Sys.unqueue, Obs.joins]
    rw [hsame]
    rcases List.mem_append.mp hin with hin | hin
    · exact h.unqueued w cause hin hstarted
    · have heq := List.mem_singleton.mp hin
      injection heq with hchan hwrite hcause
      subst hwrite hcause
      refine ⟨?_, joins_nil_of_first hgood hjoin hchan.symm⟩
      show s.st.stopped = true
      by_contra hnot
      rw [State.unqueuedBy, if_neg hnot, blocked_started hstarted] at hwhy
      cases hwhy

theorem FirstInv.step (h : s.FirstInv) (hgood : s.ledger.Good)
    (hjoin : s.JoinInv) (hs : Step s s') : s'.FirstInv := by
  have hnone : s.log = s.log ++ [] := (List.append_nil _).symm
  cases hs with
  | enqueue write now hopen => exact h.enqueue hgood hjoin hopen
  | unqueue write removal hwhy => exact h.unqueue hgood hjoin hwhy
  | hold write follow now hopen =>
      exact h.frame rfl (by simp [Obs.handsOver]) (Or.inl rfl) id
  | callNotify chan hcall =>
      exact h.frame rfl (by simp [Obs.handsOver]) (Or.inl rfl) id
  | callTable chan write removal hcall =>
      refine h.frame hnone (by simp) (Or.inl rfl) ?_
      show _ → (s.st.recordEnd write (.err removal)).stopped = true
      rw [State.recordEnd_stopped]
      exact id
  | callAnswer chan write removal hcall =>
      exact h.frame rfl (by simp [Obs.handsOver]) (Or.inl rfl) id
  | callReport chan write removal hcall =>
      exact h.frame rfl (by simp [Obs.handsOver]) (Or.inl rfl) id
  | stopNow => exact h.frame hnone (by simp) (Or.inl rfl) fun _ => rfl
  | complete entry result stage hc =>
      cases stage with
      | removing =>
          refine h.frame rfl (by simp [Obs.handsOver]) (Or.inl rfl) ?_
          show _ → (s.st.finish entry result).stopped = true
          rw [State.finish_stopped]
          exact id
      | signalling => exact h.frame hnone (by simp) (Or.inl rfl) id
      | _ => exact h.frame rfl (by simp [Obs.handsOver]) (Or.inl rfl) id
  | send a hat hattempt hphase =>
      exact h.frame rfl (by simp [Obs.handsOver]) (Or.inl rfl) id
  | retry a error hat hattempt hphase =>
      exact h.frame rfl (by simp [Obs.handsOver]) (Or.inl rfl) id
  | joinHeld seq marker follow held now hat hopen htake =>
      refine h.frame rfl (by simp [Obs.handsOver]) (Or.inr hopen) ?_
      rw [hopen]
      intro hstopped
      cases hstopped
  | dropLocked rest hat =>
      exact h.frame rfl (by simp [Obs.handsOver]) (Or.inl rfl) fun _ => rfl
  | drainRead d seen hd =>
      exact h.frame rfl (by simp [Obs.handsOver]) (Or.inl rfl) id
  | drainLeave d hd =>
      exact h.frame rfl (by simp [Obs.handsOver]) (Or.inl rfl) id
  | _ => exact h.frame hnone (by simp) (Or.inl rfl) id

theorem firstInv (h : machine.Reachable s) : s.FirstInv := by
  refine Machine.Reach.invariant (P := FirstInv) firstInv_init ?_ h
  intro s s' e hr hp _ hs
  exact hp.step (good hr) (joinInv hr) (step_cases hs)

end Sys

/-! ## The gate of a run -/

/-- A write other than a Started is sent behind a delivered Started. -/
def BehindStarted (pre : List Note) (note : Note) : Prop :=
  ∀ seq write, note = .sent seq write → write.isStarted = false →
    ∃ q started, .recorded (some q) started .ok ∈ pre ∧ started.isStarted = true

/-- The dependencies in one state: `notes` tells the joins, the recorded ends
and the sends in their order. -/
structure DependencyGate (s : Sys) (notes : List Note) : Prop where
  joins : entries notes = joins s.log
  sends : noteSends notes = sends s.log
  ends : endedSeqs notes = processed s.log
  /-- The recorded end of an entry is the one that its `WriteEnd` gives. -/
  same_end : ∀ q write result, .recorded (some q) write result ∈ notes →
    ∃ e ∈ registered s.log, e.seq = q ∧ e.write = write ∧
      ∀ told, (e.chan, told) ∈ results s.log → told = result
  gated : Always SentGated notes
  owner_delivered : Always OwnersDelivered notes
  /-- What was never sent ends removed, for a reason of the queue. -/
  unsent : ∀ c result, (c, result) ∈ results s.log → Settled s notes c result
  behind_started : StartedFirst s.log → Always BehindStarted notes
  /-- A Started that ends removed takes every other write with it. -/
  started_removed : StartedFirst s.log → OneStarted s.log →
    ∀ removal, (0, .err removal) ∈ results s.log →
      (∀ seq write, (seq, write) ∈ Queue.sends s.log → write.isStarted = true) ∧
        ∀ c result, (c, result) ∈ results s.log → c ≠ 0 →
          ∃ cause, result = .err cause

namespace Sys

variable {s : Sys} {notes : List Note}

theorem isStarted_iff {write : Write} :
    ownKey write = some .started ↔ write.isStarted = true := by
  cases write <;> simp [ownKey, Write.isStarted]

theorem started_mem_dependsOn {write : Write} (h : write.isStarted = false) :
    .started ∈ dependsOn write := by
  simp [dependsOn, h]

theorem HistoryInv.behind_started (h : HistoryInv s notes)
    (hreach : machine.Reachable s) (hfirst : StartedFirst s.log) :
    Always BehindStarted notes := by
  intro pre note post hnotes seq write hnote hother
  obtain ⟨before, e, after, rfl, rfl, rfl, hkeys⟩ :=
    h.owners_delivered hreach pre note post hnotes seq write hnote
  have hjoins : Queue.joins s.log =
      entries before ++ e :: entries (after ++ note :: post) := by
    rw [← h.joins, hnotes]
    simp [entries, Note.entry]
  obtain ⟨first, hstarted, ⟨q, hin⟩ | ⟨removal, hin⟩⟩ := hfirst
  · have hhead := (firstInv hreach).enqueued _ hin rfl
    rw [hjoins] at hhead
    -- the first that joined is the Started, so it is not the write itself
    have hmem : (⟨q, first, 0⟩ : Entry) ∈ entries before := by
      cases hb : entries before with
      | nil =>
          rw [hb] at hhead
          cases Option.some.inj hhead
          rw [hstarted] at hother
          cases hother
      | cons head rest =>
          rw [hb] at hhead
          cases Option.some.inj hhead
          exact List.mem_cons_self
    obtain ⟨o, -, hown, hrecorded⟩ := hkeys .started (started_mem_dependsOn hother)
      (Or.inl ⟨_, hmem, isStarted_iff.mpr hstarted⟩)
    exact ⟨o.seq, o.write, hrecorded, isStarted_iff.mp hown⟩
  · have hnil := ((firstInv hreach).unqueued first removal hin hstarted).2
    rw [hnil] at hjoins
    simp at hjoins

theorem HistoryInv.same_end (h : HistoryInv s notes) (hgood : s.ledger.Good)
    {q : ℕ} {write : Write} {result : WriteResult}
    (hin : .recorded (some q) write result ∈ notes) :
    ∃ e ∈ registered s.log, e.seq = q ∧ e.write = write ∧
      ∀ told, (e.chan, told) ∈ results s.log → told = result := by
  obtain ⟨e, he, hseq, hwrite, hreport⟩ := h.queued q write result hin
  exact ⟨e, he, hseq, hwrite,
    fun told htold => (hgood.agree _ told htold _ result hreport).symm⟩

theorem HistoryInv.started_removed (h : HistoryInv s notes)
    (hreach : machine.Reachable s) (hfirst : StartedFirst s.log)
    (hone : OneStarted s.log) {removal : Removal}
    (hremoved : (0, .err removal) ∈ results s.log) {seq : ℕ} {write : Write}
    (hsent : (seq, write) ∈ Queue.sends s.log) : write.isStarted = true := by
  have hgood := good hreach
  by_contra hother
  rw [← h.sends] at hsent
  obtain ⟨note, hnote, heq⟩ := List.mem_filterMap.mp hsent
  obtain ⟨pre, post, hnotes⟩ := List.append_of_mem hnote
  have hsentNote : note = .sent seq write := by
    cases note <;> cases heq
    rfl
  obtain ⟨q, started, hrecorded, hstarted⟩ :=
    h.behind_started hreach hfirst pre note post hnotes seq write hsentNote
      (by simpa using hother)
  have hin : Note.recorded (some q) started .ok ∈ notes := by
    rw [hnotes]
    exact List.mem_append_left _ hrecorded
  obtain ⟨e, he, -, rfl, hsame⟩ := h.same_end hgood hin
  have hchan := hone _ _ (hgood.registered_handed e he) hstarted
  rw [hchan] at hsame
  cases hsame _ hremoved

theorem dependency_gate (h : history.Reachable (s, notes)) :
    DependencyGate s notes := by
  have hinv : HistoryInv s notes := historyInv h
  have hreach : machine.Reachable s := reachable_of_history h
  have hgood := good hreach
  refine ⟨hinv.joins, hinv.sends, hinv.processed, fun q write result hin =>
    hinv.same_end hgood hin, hinv.gated, hinv.owners_delivered hreach,
    hinv.settled, hinv.behind_started hreach, ?_⟩
  intro hfirst hone removal hremoved
  have hsends : ∀ seq write, (seq, write) ∈ Queue.sends s.log →
      write.isStarted = true :=
    fun seq write => hinv.started_removed hreach hfirst hone hremoved
  refine ⟨hsends, fun c result hresult hc => ?_⟩
  rcases hinv.settled c result hresult with ⟨e, he, rfl, hsent⟩ |
    ⟨write, cause, -, rfl, -⟩
  · have hchan := hone _ _ (hgood.registered_handed e he) (hsends _ _ hsent)
    exact absurd hchan hc
  · exact ⟨cause, rfl⟩

/-- The refusal of an upload. -/
def tooLarge : Error :=
  .refused ⟨.upload, .payloadTooLarge, "too large", none⟩

/-- The Started is delivered, the upload of a child is refused, and its create
takes over the refusal. -/
def refusedUploadRun : List Event :=
  [.enqueue (.started 1 2) 0, .call 0, .task .takeNewHeld, .task .nextHead,
    .task .send, .task (.attemptEnded .ok), .complete, .complete, .complete,
    .complete, .enqueue (.upload 7 ⟨"text", []⟩) 0, .call 1, .task .takeNewHeld,
    .task .nextHead, .task .send, .task (.attemptEnded (.error tooLarge)),
    .complete, .complete, .complete, .complete,
    .enqueue (.create ⟨3, 7, "agent", .sync, none, .kept, .null, 1, 1, 1, none⟩) 0,
    .call 2, .call 2, .call 2]

theorem dependency_gate_refusedUploadRun :
    ∃ p, history.run refusedUploadRun = some p ∧ DependencyGate p.1 p.2 ∧
      results p.1.log = [(0, .ok), (1, .err (.refused tooLarge)),
        (2, .err (.refused tooLarge))] ∧
      (sends p.1.log).map Prod.fst = [0, 1] :=
  ⟨_, rfl, dependency_gate (Machine.reachable_of_run refusedUploadRun rfl), rfl,
    rfl⟩

/-! ## Markers are judged when they join -/

/-- The owners of `key` that were handed over before the write. -/
def ownersBefore (log : List Obs) (key : DepKey) (seq : ℕ) : List Entry :=
  (registered log).filter fun o => decide (o.seq < seq ∧ ownKey o.write = some key)

/-- The dependencies with the owners counted by their hand-over: all have
ended, the last of them delivered. -/
def HandedOverMet (log : List Obs) (seq : ℕ) (write : Write) : Prop :=
  ∀ key ∈ dependsOn write,
    (∀ o ∈ ownersBefore log key seq, EndedIn log o) ∧
      ∀ told, ((results log).filter fun p =>
        decide (p.1 ∈ (ownersBefore log key seq).map Entry.chan)).getLast? = some told →
          told.2 = .ok

def GatedAsHandedOver : Prop :=
  ∀ s s' seq write, machine.Reachable s →
    machine.step s (.task .send) = some s' → s'.log = s.log ++ [.sent seq write] →
      HandedOverMet s.log seq write

/-- The registration that was handed over before the marker is refused. While
the marker is held the agent is registered again, and that is delivered. -/
def heldMarkerRun : List Event :=
  [.enqueue (.started 1 2) 0, .call 0, .task .takeNewHeld, .task .nextHead,
    .task .send, .task (.attemptEnded .ok), .complete, .complete, .complete,
    .complete, .enqueue (.registration 1 ⟨4, true, false⟩) 0, .call 1,
    .hold (.marker 1 3 4 5) none 0, .call 2, .task .takeNewHeld, .task .nextHead,
    .task .send, .task (.attemptEnded (.error tooLarge)), .complete, .complete,
    .complete, .complete, .enqueue (.registration 1 ⟨4, true, false⟩) 0, .call 3,
    .task .takeNewHeld, .task .nextHead, .task .send, .task (.attemptEnded .ok),
    .complete, .complete, .complete, .complete, .task .takeNewHeld,
    .task .nextHead, .task (.gateEnded 2 .stored 0), .task .takeNewHeld,
    .task .nextHead]

theorem not_gatedAsHandedOver : ¬ GatedAsHandedOver := by
  intro h
  have hmet := h _ _ 2 (.marker 1 3 4 5)
    (Machine.reachable_of_run heldMarkerRun rfl) rfl rfl (.registration 4)
    (by simp [dependsOn, ownDeps])
  -- the one registration before the marker was refused
  cases hmet.2 (1, .err (.refused tooLarge)) rfl

end Sys

end RunnerKit.Queue
