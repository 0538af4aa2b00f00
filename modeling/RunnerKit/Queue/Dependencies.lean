import RunnerKit.Queue.History
import RunnerKit.Queue.Script

/-!
# The dependency gate

A write is sent only when every write that owns one of its keys and joined
before it has ended, and the last of these ends is a delivery. The gate is in
no single place: it follows from the order of the queue, the table of ended
keys, and the check at the head.
-/

namespace RunnerKit.Queue

open RunnerKit.Jobs RunnerKit.Lib

/-! ## The gate of one write -/

/-- The end of one of these entries. -/
def Note.endOfSome (seqs : List ℕ) (note : Note) : Bool :=
  note.endedSeq.any fun seq => seqs.contains seq

/-- The ends of the owners of `key` that came before a write: what was recorded
up to its joining, and later the ends of the entries that had joined by then. -/
def endsBefore (key : DepKey) (before after : List Note) : List WriteResult :=
  endsOf key before ++
    endsOf key (after.filter (Note.endOfSome ((entries before).map Entry.seq)))

/-- `key` is met for a write that joined between the two parts. -/
structure KeyMet (key : DepKey) (before after : List Note) : Prop where
  /-- No owner that joined before is still to end. -/
  ended : ∀ o ∈ entries before, ownKey o.write = some key →
    o.seq ∈ endedSeqs (before ++ after)
  delivered : ∀ result, (endsBefore key before after).getLast? = some result →
    result = .ok

def Cleared (notes : List Note) (e : Entry) : Prop :=
  ∃ before after, notes = before ++ .joined e :: after ∧
    ∀ key ∈ dependsOn e.write, KeyMet key before after

/-- A send is of a write that joined before, with all its keys met. -/
def SentGated (pre : List Note) (note : Note) : Prop :=
  ∀ seq write, note = .sent seq write →
    ∃ e, Cleared pre e ∧ e.seq = seq ∧ e.write = write

/-- A delivery is recorded behind the joining of its entry. -/
def JoinedBefore (pre : List Note) (note : Note) : Prop :=
  ∀ q write, note = .recorded (some q) write .ok →
    ∃ o ∈ entries pre, o.seq = q ∧ o.write = write

theorem endOf_some {key : DepKey} {note : Note} {result : WriteResult}
    (h : note.endOf key = some result) :
    ∃ seq write, note = .recorded seq write result ∧ ownKey write = some key := by
  cases note with
  | recorded seq write told =>
      simp only [Note.endOf] at h
      split at h
      · cases h
        exact ⟨seq, write, rfl, ‹_›⟩
      · cases h
  | _ => cases h

/-- The last end of a key is a note with no other end of the key behind it. -/
theorem endsOf_last {key : DepKey} {notes : List Note} {result : WriteResult}
    (h : (endsOf key notes).getLast? = some result) :
    ∃ pre seq write post, notes = pre ++ .recorded seq write result :: post ∧
      ownKey write = some key ∧ endsOf key post = [] := by
  induction notes using List.reverseRecOn with
  | nil => cases h
  | append_singleton notes note ih =>
      cases hnote : note.endOf key with
      | some told =>
          have hlast : endsOf key [note] = [told] := by simp [endsOf, hnote]
          rw [endsOf_append, hlast, List.getLast?_concat] at h
          cases h
          obtain ⟨seq, write, rfl, hown⟩ := endOf_some hnote
          exact ⟨notes, seq, write, [], by simp, hown, rfl⟩
      | none =>
          have hnil : endsOf key [note] = [] := by simp [endsOf, hnote]
          rw [endsOf_append, hnil, List.append_nil] at h
          obtain ⟨pre, seq, write, post, rfl, hown, hpost⟩ := ih h
          refine ⟨pre, seq, write, post ++ [note], by simp, hown, ?_⟩
          rw [endsOf_append, hpost, hnil, List.append_nil]

theorem endsOf_filter_nil {key : DepKey} {notes : List Note}
    (p : Note → Bool) (h : endsOf key notes = []) :
    endsOf key (notes.filter p) = [] := by
  rw [endsOf, List.filterMap_eq_nil_iff] at h ⊢
  exact fun note hnote => h note (List.mem_of_mem_filter hnote)

theorem endsOf_recorded {key : DepKey} {seq : Option ℕ} {write : Write}
    {result : WriteResult} (h : ownKey write = some key) :
    endsOf key [.recorded seq write result] = [result] := by
  simp [endsOf, Note.endOf, h]

theorem mem_entries {notes : List Note} {e : Entry} :
    e ∈ entries notes ↔ .joined e ∈ notes := by
  constructor
  · intro h
    obtain ⟨note, hnote, heq⟩ := List.mem_filterMap.mp h
    cases note <;> cases heq
    exact hnote
  · intro h
    exact List.mem_filterMap.mpr ⟨_, h, rfl⟩

theorem mem_endedSeqs {notes : List Note} {q : ℕ} :
    q ∈ endedSeqs notes ↔ ∃ write result, .recorded (some q) write result ∈ notes := by
  constructor
  · intro h
    obtain ⟨note, hnote, heq⟩ := List.mem_filterMap.mp h
    cases note <;> cases heq
    exact ⟨_, _, hnote⟩
  · rintro ⟨write, result, h⟩
    exact List.mem_filterMap.mpr ⟨_, h, rfl⟩

/-- An entry of the notes splits them where it joined. -/
theorem entries_split {notes : List Note} {done rest : List Entry} {e : Entry}
    (h : entries notes = done ++ e :: rest) :
    ∃ before after, notes = before ++ .joined e :: after ∧
      entries before = done := by
  obtain ⟨before, tail, rfl, hbefore, htail⟩ := List.filterMap_eq_append_iff.mp h
  obtain ⟨quiet, note, after, rfl, hquiet, hnote, -⟩ :=
    List.filterMap_eq_cons_iff.mp htail
  have hjoined : note = .joined e := by
    cases note <;> cases hnote
    rfl
  subst hjoined
  refine ⟨before ++ quiet, after, by simp, ?_⟩
  rw [entries_append, entries, hbefore, entries, List.filterMap_eq_nil_iff.mpr hquiet,
    List.append_nil]

/-- If the last end of a key is one of those before the write, it is the last
of these. -/
theorem endsBefore_last {key : DepKey} {before after pre post : List Note}
    {e : Entry} {seq : Option ℕ} {write : Write} {result : WriteResult}
    (hsplit : before ++ .joined e :: after =
      pre ++ .recorded seq write result :: post)
    (hown : ownKey write = some key) (hpost : endsOf key post = [])
    (hkept : Note.endOfSome ((entries before).map Entry.seq)
      (.recorded seq write result) = true) :
    (endsBefore key before after).getLast? = some result := by
  have hone : endsOf key [.recorded seq write result] = [result] :=
    endsOf_recorded hown
  unfold endsBefore
  rcases List.append_eq_append_iff.mp hsplit with ⟨mid, rfl, hrest⟩ | ⟨mid, rfl, hrest⟩
  · -- the end was recorded after the write joined
    cases mid with
    | nil => cases hrest
    | cons note mid =>
        rw [List.cons_append] at hrest
        obtain ⟨-, rfl⟩ := List.cons.inj hrest
        rw [List.filter_append, List.filter_cons_of_pos hkept,
          List.append_cons, endsOf_append, endsOf_append, hone,
          endsOf_filter_nil _ hpost, List.append_nil, ← List.append_assoc,
          List.getLast?_concat]
  · -- it was recorded before
    cases mid with
    | nil => cases hrest
    | cons note mid =>
        rw [List.cons_append] at hrest
        obtain ⟨rfl, rfl⟩ := List.cons.inj hrest
        have hnil : endsOf key mid = [] ∧ endsOf key after = [] := by
          rw [endsOf_append, List.append_eq_nil_iff] at hpost
          exact hpost
        rw [endsOf_filter_nil _ hnil.2, List.append_nil, List.append_cons,
          endsOf_append, endsOf_append, hone, hnil.1, List.append_nil,
          List.getLast?_concat]

/-- What is recorded later leaves a met key met: an owner that came before ends
once only. -/
theorem KeyMet.append {key : DepKey} {before after : List Note}
    (h : KeyMet key before after) {more : List Note}
    (hmore : ∀ q write result, .recorded (some q) write result ∈ more →
      q ∉ endedSeqs (before ++ after) ∧
        ∀ o ∈ entries before, o.seq = q → o.write = write) :
    KeyMet key before (after ++ more) where
  ended := by
    intro o ho hown
    rw [← List.append_assoc, endedSeqs_append]
    exact List.mem_append_left _ (h.ended o ho hown)
  delivered := by
    intro result hlast
    apply h.delivered result
    have hnone : endsOf key (more.filter
        (Note.endOfSome ((entries before).map Entry.seq))) = [] := by
      rw [endsOf, List.filterMap_eq_nil_iff]
      intro note hnote
      obtain ⟨hin, hof⟩ := List.mem_filter.mp hnote
      by_contra hsome
      obtain ⟨told, htold⟩ := Option.ne_none_iff_exists'.mp hsome
      obtain ⟨seq, write, rfl, hown⟩ := endOf_some htold
      cases seq with
      | none => cases hof
      | some q =>
          have hq : q ∈ (entries before).map Entry.seq := by
            simpa [Note.endOfSome, Note.endedSeq] using hof
          obtain ⟨o, ho, rfl⟩ := List.mem_map.mp hq
          obtain ⟨hnew, hwrite⟩ := hmore _ write told hin
          rw [← hwrite o ho rfl] at hown
          exact hnew (h.ended o ho hown)
    have hsame : endsBefore key before (after ++ more) =
        endsBefore key before after := by
      unfold endsBefore
      rw [List.filter_append, endsOf_append, hnone, List.append_nil]
    rwa [hsame] at hlast

theorem Cleared.append {notes : List Note} {e : Entry} (h : Cleared notes e)
    {more : List Note}
    (hmore : ∀ q write result, .recorded (some q) write result ∈ more →
      q ∉ endedSeqs notes ∧ ∀ o ∈ entries notes, o.seq = q → o.write = write) :
    Cleared (notes ++ more) e := by
  obtain ⟨before, after, rfl, hkeys⟩ := h
  refine ⟨before, after ++ more, by simp, fun key hkey => (hkeys key hkey).append ?_⟩
  intro q write result hin
  obtain ⟨hnew, hwrite⟩ := hmore q write result hin
  refine ⟨?_, fun o ho => hwrite o ?_⟩
  · intro hold
    apply hnew
    rw [endedSeqs_append] at hold ⊢
    rcases List.mem_append.mp hold with hold | hold
    · exact List.mem_append_left _ hold
    · exact List.mem_append_right _
        (List.mem_filterMap.mpr (by
          obtain ⟨note, hnote, heq⟩ := List.mem_filterMap.mp hold
          exact ⟨note, List.mem_cons_of_mem _ hnote, heq⟩))
  · rw [entries_append]
    exact List.mem_append_left _ ho

/-! ## Why a write is removed unsent -/

/-- The causes for which the queue removes a write that it never sent. -/
inductive Reason (s : Sys) (notes : List Note) (write : Write) : Removal → Prop where
  /-- An owner of one of its keys was removed. -/
  | depends (key : DepKey) (seq : Option ℕ) (owner : Write) (result : WriteResult)
      (hkey : key ∈ dependsOn write) (hown : ownKey owner = some key)
      (hrecorded : .recorded seq owner result ∈ notes) (hremoved : result ≠ .ok) :
      Reason s notes write .dependsOnRemoved
  /-- It was held, and its gate was dropped. -/
  | gate (e : Entry) (follow : Option Write) (hheld : .held e follow ∈ s.log)
      (hwrite : e.write = write) : Reason s notes write .dependsOnRemoved
  /-- A create takes over the refusal of its upload. -/
  | upload (c : CreateChild) (content : Content) (error : Error) (seq : Option ℕ)
      (hwrite : write = .create c)
      (hrecorded : .recorded seq (.upload c.jobId content)
        (.err (.refused error)) ∈ notes) : Reason s notes write (.refused error)
  | stopped (hstopped : s.st.stopped = true) : Reason s notes write .leftUnsent

/-- A write that is being completed was sent, or is removed for a reason. -/
def Explained (s : Sys) (notes : List Note) (e : Entry) (result : WriteResult) :
    Prop :=
  (e.seq, e.write) ∈ sends s.log ∨
    ∃ removal, result = .err removal ∧ Reason s notes e.write removal

/-- The write of a `WriteEnd` was sent before it ended, or was removed for a
reason. -/
def Settled (s : Sys) (notes : List Note) (chan : Chan) (result : WriteResult) :
    Prop :=
  (∃ e ∈ registered s.log, e.chan = chan ∧ (e.seq, e.write) ∈ sends s.log) ∨
    ∃ write removal, (chan, write) ∈ handed s.log ∧ result = .err removal ∧
      Reason s notes write removal

section Mono

variable {s s' : Sys} {notes more : List Note} {obs : List Obs}
  (hlog : s'.log = s.log ++ obs)
  (hstop : s.st.stopped = true → s'.st.stopped = true)

include hlog hstop

theorem Reason.mono {write : Write} {removal : Removal}
    (h : Reason s notes write removal) : Reason s' (notes ++ more) write removal := by
  cases h with
  | depends key seq owner result hkey hown hrecorded hremoved =>
      exact .depends key seq owner result hkey hown
        (List.mem_append_left _ hrecorded) hremoved
  | gate e follow hheld hwrite =>
      refine .gate e follow ?_ hwrite
      rw [hlog]
      exact List.mem_append_left _ hheld
  | upload c content error seq hwrite hrecorded =>
      exact .upload c content error seq hwrite (List.mem_append_left _ hrecorded)
  | stopped hstopped => exact .stopped (hstop hstopped)

theorem Explained.mono {e : Entry} {result : WriteResult}
    (h : Explained s notes e result) : Explained s' (notes ++ more) e result := by
  rcases h with h | ⟨removal, rfl, h⟩
  · left
    rw [hlog, sends_append]
    exact List.mem_append_left _ h
  · exact Or.inr ⟨removal, rfl, h.mono hlog hstop⟩

theorem Settled.mono {chan : Chan} {result : WriteResult}
    (h : Settled s notes chan result) : Settled s' (notes ++ more) chan result := by
  rcases h with ⟨e, he, hchan, hsent⟩ | ⟨write, removal, hhanded, rfl, h⟩
  · left
    refine ⟨e, ?_, hchan, ?_⟩
    · rw [hlog, registered_append]
      exact List.mem_append_left _ he
    · rw [hlog, sends_append]
      exact List.mem_append_left _ hsent
  · right
    refine ⟨write, removal, ?_, rfl, h.mono hlog hstop⟩
    rw [hlog, handed_append]
    exact List.mem_append_left _ hhanded

end Mono

/-! ## What the history and the queue agree on -/

namespace Sys

structure HistoryInv (s : Sys) (notes : List Note) : Prop where
  joins : entries notes = joins s.log
  sends : noteSends notes = sends s.log
  processed : endedSeqs notes = processed s.log
  /-- The recorded end of an entry is the one that is reported. -/
  queued : ∀ q write result, .recorded (some q) write result ∈ notes →
    ∃ e ∈ registered s.log, e.seq = q ∧ e.write = write ∧
      (e.chan, e.write.name, result) ∈ reports s.log
  /-- What was delivered was sent. -/
  delivered : ∀ seq write, .recorded seq write .ok ∈ notes →
    ∃ q, seq = some q ∧ (q, write) ∈ Queue.sends s.log
  table : ∀ key, s.st.ended key = (endsOf key notes).getLast?.map Ended.of
  cleared : ∀ e, s.task.entry = some e → Cleared notes e
  ending : ∀ k, s.task.completing = some k → Explained s notes k.entry k.result
  refusing : ∀ c write removal stage,
    s.calls c = some (.unqueued write removal stage) → Reason s notes write removal
  settled : ∀ c result, (c, result) ∈ results s.log → Settled s notes c result
  gated : Always SentGated notes
  behind : Always JoinedBefore notes

theorem historyInv_init : HistoryInv init [] where
  joins := rfl
  sends := rfl
  processed := rfl
  queued := by simp
  delivered := by simp
  table := fun _ => rfl
  cleared := by simp [init]
  ending := by simp [init]
  refusing := by simp [init]
  settled := by simp [init]
  gated := always_nil
  behind := always_nil

variable {s s' : Sys} {notes : List Note}

theorem notes_of_joins (obs : Obs) :
    entries obs.notes = obs.joins ∧ noteSends obs.notes = obs.sentWrite.toList ∧
      endedSeqs obs.notes = [] ∧ ∀ key, endsOf key obs.notes = [] := by
  cases obs with
  | joined marker follow => cases follow <;> exact ⟨rfl, rfl, rfl, fun _ => rfl⟩
  | _ => exact ⟨rfl, rfl, rfl, fun _ => rfl⟩

/-- The notes of a plain step tell its joins and sends and record nothing. -/
theorem notes_of_log (more : List Obs) :
    entries (more.flatMap Obs.notes) = Queue.joins more ∧
      noteSends (more.flatMap Obs.notes) = Queue.sends more ∧
      endedSeqs (more.flatMap Obs.notes) = [] ∧
      ∀ key, endsOf key (more.flatMap Obs.notes) = [] := by
  induction more with
  | nil => exact ⟨rfl, rfl, rfl, fun _ => rfl⟩
  | cons obs more ih =>
      obtain ⟨hj, hs, he, hk⟩ := notes_of_joins obs
      obtain ⟨ihj, ihs, ihe, ihk⟩ := ih
      simp [hj, hs, he, hk, ihj, ihs, ihe, ihk]

theorem recorded_not_mem_notes {more : List Obs} {q : Option ℕ} {write : Write}
    {result : WriteResult} : .recorded q write result ∉ more.flatMap Obs.notes := by
  intro h
  obtain ⟨obs, -, hobs⟩ := List.mem_flatMap.mp h
  rcases List.mem_append.mp hobs with hobs | hobs <;>
    · obtain ⟨x, -, hx⟩ := List.mem_map.mp hobs
      cases hx

/-- What a plain step has to show: where its entry, its completion, its calls
and its answers come from, and that its send is cleared. -/
theorem HistoryInv.plain (h : HistoryInv s notes) {more : List Obs}
    (hlog : s'.log = s.log ++ more) (hprocessed : Queue.processed more = [])
    (hended : s'.st.ended = s.st.ended)
    (hstop : s.st.stopped = true → s'.st.stopped = true)
    (hentry : ∀ e, s'.task.entry = some e →
      s.task.entry = some e ∨ Cleared notes e)
    (hending : ∀ k, s'.task.completing = some k →
      (∃ stage, s.task.completing = some ⟨k.entry, k.result, stage⟩) ∨
        Explained s notes k.entry k.result)
    (hcalls : ∀ c write removal stage,
      s'.calls c = some (.unqueued write removal stage) →
        (∃ before, s.calls c = some (.unqueued write removal before)) ∨
          Reason s notes write removal)
    (hresults : ∀ c result, (c, result) ∈ results more → Settled s notes c result)
    (hsent : more.filterMap Obs.sentWrite = [] ∨
      ∃ e, more = [.sent e.seq e.write] ∧ Cleared notes e) :
    HistoryInv s' (notes ++ more.flatMap Obs.notes) := by
  obtain ⟨hj, hs, he, hk⟩ := notes_of_log more
  have hquiet : ∀ {e}, Cleared notes e → Cleared (notes ++ more.flatMap Obs.notes) e :=
    fun hc => hc.append fun q write result hin =>
      absurd hin recorded_not_mem_notes
  refine ⟨?_, ?_, ?_, ?_, ?_, ?_, ?_, ?_, ?_, ?_, ?_, ?_⟩
  · rw [entries_append, h.joins, hj, hlog, joins_append]
  · rw [noteSends_append, h.sends, hs, hlog, sends_append]
  · rw [endedSeqs_append, h.processed, he, hlog, processed_append, hprocessed]
  · intro q write result hin
    rcases List.mem_append.mp hin with hin | hin
    · obtain ⟨e, he, hseq, hwrite, htold⟩ := h.queued q write result hin
      refine ⟨e, ?_, hseq, hwrite, ?_⟩
      · rw [hlog, registered_append]
        exact List.mem_append_left _ he
      · rw [hlog, reports_append]
        exact List.mem_append_left _ htold
    · exact absurd hin recorded_not_mem_notes
  · intro seq write hin
    rcases List.mem_append.mp hin with hin | hin
    · obtain ⟨q, hq, hsend⟩ := h.delivered seq write hin
      refine ⟨q, hq, ?_⟩
      rw [hlog, sends_append]
      exact List.mem_append_left _ hsend
    · exact absurd hin recorded_not_mem_notes
  · intro key
    rw [hended, h.table key, endsOf_append, hk, List.append_nil]
  · intro e he
    rcases hentry e he with he | hc
    · exact hquiet (h.cleared e he)
    · exact hquiet hc
  · intro k hk
    rcases hending k hk with ⟨stage, hk⟩ | hk
    · exact (h.ending _ hk).mono hlog hstop
    · exact hk.mono hlog hstop
  · intro c write removal stage hc
    rcases hcalls c write removal stage hc with ⟨before, hc⟩ | hr
    · exact (h.refusing _ _ _ _ hc).mono hlog hstop
    · exact hr.mono hlog hstop
  · intro c result hin
    rw [hlog, results_append] at hin
    rcases List.mem_append.mp hin with hin | hin
    · exact (h.settled c result hin).mono hlog hstop
    · exact (hresults c result hin).mono hlog hstop
  · rcases hsent with hsent | ⟨e, rfl, hc⟩
    · refine always_append h.gated fun note hnote => ?_
      obtain ⟨obs, hobs, hin⟩ := List.mem_flatMap.mp hnote
      have hnone := List.filterMap_eq_nil_iff.mp hsent obs hobs
      intro pre seq write hnote'
      subst hnote'
      simp [Obs.notes, hnone] at hin
    · show Always SentGated (notes ++ [.sent e.seq e.write])
      rw [always_snoc]
      refine ⟨h.gated, fun seq write hnote => ?_⟩
      cases hnote
      exact ⟨e, hc, rfl, rfl⟩
  · refine always_append h.behind fun note hnote pre q write hrecorded => ?_
    subst hrecorded
    exact absurd hnote recorded_not_mem_notes

/-! ## The check at the head and at the hand-over -/

/-- A removal by the table has its reason in the history. -/
theorem HistoryInv.reason_of_blocked (h : HistoryInv s notes) {write : Write}
    {removal : Removal} (hblocked : blocked write s.st.ended = some removal) :
    Reason s notes write removal := by
  obtain ⟨key, hkey, hby⟩ := List.exists_of_findSome?_eq_some hblocked
  rw [h.table key] at hby
  cases hlast : (endsOf key notes).getLast? with
  | none =>
      rw [hlast] at hby
      cases hby
  | some result =>
      rw [hlast] at hby
      obtain ⟨pre, seq, owner, post, hnotes, hown, -⟩ := endsOf_last hlast
      have hrecorded : .recorded seq owner result ∈ notes := by
        rw [hnotes]
        simp
      have hdepends : result ≠ .ok → Reason s notes write .dependsOnRemoved :=
        .depends key seq owner result hkey hown hrecorded
      cases result with
      | ok => cases hby
      | err cause =>
          cases cause with
          | refused error =>
              simp only [Option.map_some, Ended.of, blockedBy] at hby
              split at hby
              · rename_i hupload
                cases hby
                obtain ⟨hcreate, hkeyUpload⟩ := Bool.and_eq_true_iff.mp hupload
                cases write <;> cases hcreate
                cases key <;> cases hkeyUpload
                cases owner <;> cases hown
                rename_i c job content
                have hjob : job = c.jobId := by
                  rcases List.mem_append.mp hkey with hkey | hkey
                  · cases List.mem_singleton.mp hkey
                  · rcases List.mem_cons.mp hkey with hkey | hkey
                    · exact DepKey.upload.inj hkey
                    · exfalso
                      cases hmode : c.mode <;> rw [hmode] at hkey
                      · cases hkey
                      · cases List.mem_singleton.mp hkey
                subst hjob
                exact .upload c content error seq rfl hrecorded
              · cases hby
                exact hdepends (by simp)
          | failed error =>
              cases hby
              exact hdepends (by simp)
          | dependsOnRemoved =>
              cases hby
              exact hdepends (by simp)
          | leftUnsent =>
              cases hby
              exact hdepends (by simp)

/-- With nothing in the way the last end of every key is a delivery. -/
theorem HistoryInv.met_of_not_blocked (h : HistoryInv s notes) {write : Write}
    (hblocked : blocked write s.st.ended = none) {key : DepKey}
    (hkey : key ∈ dependsOn write) {result : WriteResult}
    (hlast : (endsOf key notes).getLast? = some result) : result = .ok := by
  have hby := List.findSome?_eq_none_iff.mp hblocked key hkey
  rw [h.table key, hlast] at hby
  cases result with
  | ok => rfl
  | err cause =>
      cases cause with
      | refused error =>
          simp only [Option.map_some, Ended.of, blockedBy] at hby
          split at hby <;> cases hby
      | _ => cases hby

/-- A write whose `WriteEnd` has its result was taken out of `pending`. -/
theorem processed_of_ended (hgood : s.ledger.Good) {e : Entry}
    (he : e ∈ registered s.log) (hend : EndedIn s.log e) :
    e.seq ∈ processed s.log := by
  obtain ⟨result, hresult⟩ := hend
  by_contra hnot
  have howed : 0 < s.ledger.owesRemoval e.seq := by
    by_contra hzero
    exact hnot (hgood.removals.mem_of_not_owed (seq_lt_of_registered hgood he)
      (Nat.eq_zero_of_not_pos hzero))
  have hpaid : e.chan ∈ Due.answer.paid s.log := List.mem_map.mpr ⟨_, hresult, rfl⟩
  refine (hgood.dues .answer).not_mem_of_owed ?_ hpaid
  by_cases hwaits : 0 < (s.waiting.map Entry.seq).count e.seq
  · obtain ⟨e', he', hseq⟩ := Multiset.mem_map.mp (Multiset.count_pos.mp hwaits)
    obtain rfl := hgood.entry_unique (hgood.holds e' (Or.inl he')) he hseq
    have hpos : 0 < (s.waiting.map Entry.chan).count e'.chan :=
      Multiset.count_pos.mpr (Multiset.mem_map_of_mem _ he')
    change 0 < (s.waiting.map Entry.chan).count e'.chan + _ + _
    omega
  · change 0 < (s.waiting.map Entry.seq).count e.seq +
      Completion.owed Entry.seq Stage.beforeRemoval e.seq s.task.completing at howed
    cases hk : s.task.completing with
    | none =>
        rw [hk] at howed
        exact absurd howed hwaits
    | some k =>
        rw [hk] at howed
        have hone : Completion.owed Entry.seq Stage.beforeRemoval e.seq (some k) ≠ 0 := by
          omega
        simp only [Completion.owed, ne_eq, ite_eq_right_iff, Classical.not_imp] at hone
        obtain ⟨⟨hstage, hseq⟩, -⟩ := hone
        obtain rfl := hgood.entry_unique he (hgood.holds k.entry (Or.inr ⟨k, hk, rfl⟩)) hseq
        have hc : s.ledger.completing = some ⟨k.entry, k.result, k.stage⟩ := hk
        refine Ledger.owes_pos_of_completing hc ?_
        cases hs : k.stage <;> rw [hs] at hstage <;> first | rfl | cases hstage

/-- The head that nothing removes is cleared: all that joined before it has
ended, and the last end of each of its keys is a delivery. -/
theorem HistoryInv.head_cleared (h : HistoryInv s notes)
    (hreach : machine.Reachable s) (hat : s.At .heading)
    (hentry : s.task.entry = none) {head : Entry} {rest : List Entry}
    (hfifo : s.st.fifo = head :: rest)
    (hblocked : blocked head.write s.st.ended = none) : Cleared notes head := by
  have hgood := good hreach
  have hjoin := joinInv hreach
  have hline := fifoInv hreach
  obtain ⟨done, cur, hin⟩ := hline.line (by rw [hat.point]; rfl)
  obtain rfl := hin.current.eq_nil hat.free hentry
  have hjoins : Queue.joins s.log = done ++ head :: rest := by
    have heq := hin.joins
    rwa [hfifo, List.append_nil] at heq
  have hprocessed : ∀ o ∈ done, o.seq ∈ Queue.processed s.log := by
    intro o ho
    refine processed_of_ended hgood (registered_of_joins hjoin ?_) (hin.ended o ho)
    rw [hjoins]
    exact List.mem_append_left _ ho
  obtain ⟨before, after, hnotes, hbefore⟩ := entries_split (h.joins.trans hjoins)
  have hseqs : endedSeqs (before ++ after) = Queue.processed s.log := by
    have heq := h.processed
    rw [hnotes] at heq
    rw [← heq, endedSeqs_append, endedSeqs_append]
    rfl
  refine ⟨before, after, hnotes, fun key hkey => ⟨?_, ?_⟩⟩
  · intro o ho _
    rw [hseqs]
    exact hprocessed o (hbefore ▸ ho)
  · intro result hlast
    -- the last of all ends of the key is a delivery, so of an entry in `done`
    have hends : endsOf key notes = endsOf key before ++ endsOf key after := by
      rw [hnotes, endsOf_append]
      rfl
    cases hall : (endsOf key notes).getLast? with
    | none =>
        rw [List.getLast?_eq_none_iff, hends, List.append_eq_nil_iff] at hall
        rw [endsBefore, hall.1, endsOf_filter_nil _ hall.2] at hlast
        cases hlast
    | some last =>
        obtain rfl := h.met_of_not_blocked hblocked hkey hall
        obtain ⟨pre, seq, write, post, hsplit, hown, hpost⟩ := endsOf_last hall
        obtain ⟨q, rfl, hsent⟩ := h.delivered seq write (by rw [hsplit]; simp)
        obtain ⟨o, ho, rfl, hwrite⟩ := joined_of_sent hline hsent
        have hdone : o ∈ done := by
          have hnot : o ∉ s.st.fifo := by
            intro hwaits
            refine not_processed_of_waiting hgood (e := o) ?_ ?_
            · simp [waiting, hwaits]
            · rw [← h.processed]
              exact mem_endedSeqs.mpr ⟨write, .ok, by rw [hsplit]; simp⟩
          rw [hjoins, ← hfifo] at ho
          exact (List.mem_append.mp ho).resolve_right hnot
        have hkept : Note.endOfSome ((entries before).map Entry.seq)
            (.recorded (some o.seq) write .ok) = true := by
          simpa [Note.endOfSome, Note.endedSeq, hbefore] using ⟨o, hdone, rfl⟩
        have hok := endsBefore_last (hnotes.symm.trans hsplit) hown hpost hkept
        rw [hok] at hlast
        exact (Option.some.inj hlast).symm

/-! ## The invariant over a step -/

/-- What a step has to show that records one end. -/
theorem HistoryInv.record (h : HistoryInv s notes) {seq : Option ℕ} {write : Write}
    {result : WriteResult} {more : List Obs} (hlog : s'.log = s.log ++ more)
    (hquiet : Queue.joins more = [] ∧ Queue.sends more = [] ∧ results more = [])
    (hprocessed : Queue.processed more = seq.toList)
    (hended : s'.st.ended = s.st.ended.record write result)
    (hstop : s.st.stopped = true → s'.st.stopped = true)
    (hentry : s'.task.entry = s.task.entry)
    (hending : ∀ k, s'.task.completing = some k →
      ∃ stage, s.task.completing = some ⟨k.entry, k.result, stage⟩)
    (hcalls : ∀ c w removal stage, s'.calls c = some (.unqueued w removal stage) →
      ∃ before, s.calls c = some (.unqueued w removal before))
    (hqueued : ∀ q, seq = some q → ∃ e ∈ registered s.log, e.seq = q ∧
      e.write = write ∧ (e.chan, e.write.name, result) ∈ reports s.log)
    (hdelivered : result = .ok →
      ∃ q, seq = some q ∧ (q, write) ∈ Queue.sends s.log)
    (hjoined : ∀ q w, (q, w) ∈ Queue.sends s.log →
      ∃ o ∈ Queue.joins s.log, o.seq = q ∧ o.write = w)
    (hfresh : ∀ q, seq = some q → q ∉ Queue.processed s.log ∧
      ∀ o ∈ Queue.joins s.log, o.seq = q → o.write = write) :
    HistoryInv s' (notes ++ [.recorded seq write result]) := by
  obtain ⟨hj, hs, hr⟩ := hquiet
  refine ⟨?_, ?_, ?_, ?_, ?_, ?_, ?_, ?_, ?_, ?_, ?_, ?_⟩
  · rw [hlog, joins_append, hj, entries_append, h.joins]
    rfl
  · rw [hlog, sends_append, hs, noteSends_append, h.sends]
    rfl
  · rw [hlog, processed_append, hprocessed, endedSeqs_append, h.processed]
    cases seq <;> rfl
  · intro q w told hin
    have hold : ∃ e ∈ registered s.log, e.seq = q ∧ e.write = w ∧
        (e.chan, e.write.name, told) ∈ reports s.log := by
      rcases List.mem_append.mp hin with hin | hin
      · exact h.queued q w told hin
      · cases List.mem_singleton.mp hin
        exact hqueued q rfl
    obtain ⟨e, he, hseq, hwrite, htold⟩ := hold
    rw [hlog, registered_append, reports_append]
    exact ⟨e, List.mem_append_left _ he, hseq, hwrite, List.mem_append_left _ htold⟩
  · intro seq' w hin
    rw [hlog, sends_append]
    rcases List.mem_append.mp hin with hin | hin
    · obtain ⟨q, hq, hsend⟩ := h.delivered seq' w hin
      exact ⟨q, hq, List.mem_append_left _ hsend⟩
    · cases List.mem_singleton.mp hin
      obtain ⟨q, hq, hsend⟩ := hdelivered rfl
      exact ⟨q, hq, List.mem_append_left _ hsend⟩
  · intro key
    rw [hended, endsOf_append]
    by_cases hown : ownKey write = some key
    · rw [Table.record_own hown, endsOf_recorded hown, List.getLast?_concat]
      rfl
    · have hnil : endsOf key [.recorded seq write result] = [] := by
        simp [endsOf, Note.endOf, hown]
      rw [Table.record_other hown, hnil, List.append_nil]
      exact h.table key
  · intro e he
    rw [hentry] at he
    refine (h.cleared e he).append fun q w told hin => ?_
    cases List.mem_singleton.mp hin
    rw [h.processed, h.joins]
    exact hfresh q rfl
  · intro k hk
    obtain ⟨stage, hk⟩ := hending k hk
    exact (h.ending _ hk).mono hlog hstop
  · intro c w removal stage hc
    obtain ⟨before, hc⟩ := hcalls c w removal stage hc
    exact (h.refusing _ _ _ _ hc).mono hlog hstop
  · intro c told hin
    rw [hlog, results_append, hr, List.append_nil] at hin
    exact (h.settled c told hin).mono hlog hstop
  · rw [always_snoc]
    exact ⟨h.gated, fun seq' w hnote => by cases hnote⟩
  · rw [always_snoc]
    refine ⟨h.behind, fun q w hnote => ?_⟩
    cases hnote
    obtain ⟨q', hq, hsend⟩ := hdelivered rfl
    cases hq
    rw [h.joins]
    exact hjoined _ _ hsend

theorem HistoryInv.completed (h : HistoryInv s notes)
    (hreach : machine.Reachable s) {entry : Entry} {result : WriteResult}
    (hc : s.task.completing = some ⟨entry, result, .removing⟩) :
    HistoryInv (s.completeStep entry result .removing)
      (notes ++ [.recorded (some entry.seq) entry.write result]) := by
  have hgood := good hreach
  have hheld : entry ∈ registered s.log :=
    hgood.holds entry (Or.inr ⟨_, hc, rfl⟩)
  refine h.record rfl ⟨by simp [Obs.joins], by simp [Obs.sentWrite],
    by simp [Obs.result]⟩ rfl ?_ ?_ rfl ?_ ?_ ?_ ?_
    (fun q w hsent => joined_of_sent (fifoInv hreach) hsent) ?_
  · show (s.st.finish entry result).ended = _
    rw [State.finish_ended, recordEnd_ended]
  · intro hstopped
    show (s.st.finish entry result).stopped = true
    rw [State.finish_stopped, hstopped]
  · intro k hk
    cases hk
    exact ⟨_, hc⟩
  · exact fun c w removal stage hcall => ⟨stage, hcall⟩
  · intro q hq
    cases hq
    exact ⟨entry, hheld, rfl, rfl, hgood.reported _ hc (by simp)⟩
  · intro hok
    refine ⟨entry.seq, rfl, ?_⟩
    rcases h.ending _ hc with hsent | ⟨removal, herr, -⟩
    · exact hsent
    · rw [hok] at herr
      cases herr
  · intro q hq
    cases hq
    constructor
    · refine hgood.removals.not_mem_of_owed ?_
      have hone : Completion.owed Entry.seq Stage.beforeRemoval entry.seq
          s.task.completing = 1 := by
        simp [hc, Completion.owed, Stage.beforeRemoval]
      change 0 < (s.waiting.map Entry.seq).count entry.seq +
        Completion.owed Entry.seq Stage.beforeRemoval entry.seq s.task.completing
      omega
    · intro o ho hseq
      have hregistered := registered_of_joins (joinInv hreach) ho
      rw [hgood.entry_unique hregistered hheld hseq]

theorem HistoryInv.called (h : HistoryInv s notes)
    (hreach : machine.Reachable s) {chan : Chan} {write : Write} {removal : Removal}
    (hcall : s.calls chan = some (.unqueued write removal .table)) :
    HistoryInv (s.callTable chan write removal)
      (notes ++ [.recorded none write (.err removal)]) := by
  refine h.record (List.append_nil _).symm ⟨rfl, rfl, rfl⟩ rfl ?_ ?_ rfl ?_ ?_ ?_
    ?_ (fun q w hsent => joined_of_sent (fifoInv hreach) hsent) ?_
  · exact recordEnd_ended s.st write (.err removal)
  · intro hstopped
    show (s.st.recordEnd write (.err removal)).stopped = true
    rw [State.recordEnd_stopped, hstopped]
  · exact fun k hk => ⟨k.stage, hk⟩
  · intro c w cause stage hc
    by_cases hchan : c = chan
    · subst hchan
      simp only [callTable, Function.update_self] at hc
      cases hc
      exact ⟨.table, hcall⟩
    · simp only [callTable, Function.update_of_ne hchan] at hc
      exact ⟨stage, hc⟩
  · intro q hq
    cases hq
  · intro hok
    cases hok
  · intro q hq
    cases hq

/-- A plain step that keeps the entry, the completion and the calls, and
neither answers nor sends. -/
theorem HistoryInv.frame (h : HistoryInv s notes) {more : List Obs}
    (hlog : s'.log = s.log ++ more) (hprocessed : Queue.processed more = [])
    (hended : s'.st.ended = s.st.ended)
    (hquiet : results more = [] ∧ more.filterMap Obs.sentWrite = [])
    (hstop : s.st.stopped = true → s'.st.stopped = true)
    (hentry : ∀ e, s'.task.entry = some e → s.task.entry = some e)
    (hending : ∀ k, s'.task.completing = some k →
      ∃ stage, s.task.completing = some ⟨k.entry, k.result, stage⟩)
    (hcalls : ∀ c write removal stage,
      s'.calls c = some (.unqueued write removal stage) →
        ∃ before, s.calls c = some (.unqueued write removal before)) :
    HistoryInv s' (notes ++ more.flatMap Obs.notes) := by
  refine h.plain hlog hprocessed hended hstop ?_ ?_ ?_ ?_ (Or.inl hquiet.2)
  · exact fun e he => Or.inl (hentry e he)
  · exact fun k hk => Or.inl (hending k hk)
  · exact fun c write removal stage hc => Or.inl (hcalls c write removal stage hc)
  · intro c result hin
    rw [hquiet.1] at hin
    cases hin

/-- A call that is set to something else is no hand-over that ends here. -/
theorem calls_update {c chan : Chan} {call : Option Call} {write : Write}
    {removal : Removal} {stage : CallStage}
    (hcall : ∀ write removal stage, call ≠ some (.unqueued write removal stage))
    (h : Function.update s.calls chan call c = some (.unqueued write removal stage)) :
    ∃ before, s.calls c = some (.unqueued write removal before) := by
  by_cases hc : c = chan
  · subst hc
    rw [Function.update_self] at h
    exact absurd h (hcall _ _ _)
  · rw [Function.update_of_ne hc] at h
    exact ⟨stage, h⟩

theorem HistoryInv.unqueue (h : HistoryInv s notes) {write : Write}
    {removal : Removal} (hwhy : s.st.unqueuedBy write = some removal) :
    HistoryInv (s.unqueue write removal)
      (notes ++ [Obs.unqueued s.nextChan write removal].flatMap Obs.notes) := by
  refine h.plain rfl rfl rfl id (fun e he => Or.inl he) (fun k hk => Or.inl ⟨_, hk⟩)
    ?_ (by simp [Obs.result]) (Or.inl rfl)
  intro c w cause stage hc
  by_cases hchan : c = s.nextChan
  · right
    subst hchan
    simp only [Sys.unqueue, Function.update_self] at hc
    cases hc
    unfold State.unqueuedBy at hwhy
    split at hwhy
    · cases hwhy
      exact .stopped ‹_›
    · exact h.reason_of_blocked hwhy
  · left
    simp only [Sys.unqueue, Function.update_of_ne hchan] at hc
    exact ⟨stage, hc⟩

/-- The answer of a hand-over that queued nothing. -/
theorem HistoryInv.callAnswer (h : HistoryInv s notes) (hgood : s.ledger.Good)
    {chan : Chan} {write : Write} {removal : Removal}
    (hcall : s.calls chan = some (.unqueued write removal .answer)) :
    HistoryInv (s.callAnswer chan write removal)
      (notes ++ [Obs.ended chan (.err removal)].flatMap Obs.notes) := by
  refine h.plain rfl rfl rfl id (fun e he => Or.inl he) (fun k hk => Or.inl ⟨_, hk⟩)
    ?_ ?_ (Or.inl rfl)
  · intro c w cause stage hc
    left
    by_cases hchan : c = chan
    · subst hchan
      simp only [Sys.callAnswer, Function.update_self] at hc
      cases hc
      exact ⟨.answer, hcall⟩
    · simp only [Sys.callAnswer, Function.update_of_ne hchan] at hc
      exact ⟨stage, hc⟩
  · intro c result hin
    have heq : (c, result) = (chan, .err removal) := by
      simpa [Obs.result] using hin
    cases heq
    have hu : s.ledger.calls chan = some ⟨write, removal, .answer⟩ := by
      simp [ledger, hcall, Call.unqueued?]
    exact Or.inr ⟨write, removal, hgood.calls_handed chan _ hu, rfl,
      h.refusing chan write removal .answer hcall⟩

/-- The answer of a completion. -/
theorem HistoryInv.answer (h : HistoryInv s notes) (hgood : s.ledger.Good)
    {entry : Entry} {result : WriteResult}
    (hc : s.task.completing = some ⟨entry, result, .sending⟩) :
    HistoryInv (s.completeStep entry result .sending)
      (notes ++ [Obs.ended entry.chan result].flatMap Obs.notes) := by
  refine h.plain rfl rfl rfl id (fun e he => Or.inl he) ?_
    (fun c w removal stage hcall => Or.inl ⟨_, hcall⟩) ?_ (Or.inl rfl)
  · intro k hk
    cases hk
    exact Or.inl ⟨_, hc⟩
  · intro c told hin
    have heq : (c, told) = (entry.chan, result) := by
      simpa [Obs.result] using hin
    cases heq
    have hheld : entry ∈ registered s.log :=
      hgood.holds entry (Or.inr ⟨_, hc, rfl⟩)
    rcases h.ending _ hc with hsent | ⟨removal, hremoval, hreason⟩
    · exact Or.inl ⟨entry, hheld, rfl, hsent⟩
    · exact Or.inr ⟨entry.write, removal, hgood.registered_handed entry hheld,
        hremoval, hreason⟩

/-- A step that starts a completion of an entry, with the reason for its end. -/
theorem HistoryInv.start (h : HistoryInv s notes) {entry : Entry}
    {result : WriteResult} (hlog : s'.log = s.log)
    (hended : s'.st.ended = s.st.ended)
    (hstop : s.st.stopped = true → s'.st.stopped = true)
    (hentry : ∀ e, s'.task.entry = some e → s.task.entry = some e)
    (hending : ∀ k, s'.task.completing = some k →
      k.entry = entry ∧ k.result = result)
    (hcalls : s'.calls = s.calls) (hwhy : Explained s notes entry result) :
    HistoryInv s' (notes ++ [].flatMap Obs.notes) := by
  refine h.plain (by simp [hlog]) rfl hended hstop
    (fun e he => Or.inl (hentry e he)) ?_ ?_ (by simp) (Or.inl rfl)
  · intro k hk
    right
    obtain ⟨rfl, rfl⟩ := hending k hk
    exact hwhy
  · rw [hcalls]
    exact fun c w removal stage hcall => Or.inl ⟨stage, hcall⟩

theorem HistoryInv.step (h : HistoryInv s notes) (hreach : machine.Reachable s)
    {more : List Obs} (hs : Step s s') (hended : s'.st.ended = s.st.ended)
    (hlog : s'.log = s.log ++ more) (hprocessed : Queue.processed more = []) :
    HistoryInv s' (notes ++ more.flatMap Obs.notes) := by
  have hmore : ∀ {obs : List Obs}, s'.log = s.log ++ obs → more = obs :=
    fun hobs => List.append_cancel_left (hlog.symm.trans hobs)
  have hnone : s'.log = s.log → more = [] :=
    fun hsame => hmore (by rw [hsame, List.append_nil])
  cases hs with
  | enqueue write now hopen =>
      obtain rfl := hmore rfl
      exact h.frame hlog rfl rfl ⟨rfl, rfl⟩ id (fun _ he => he)
        (fun _ hk => ⟨_, hk⟩) fun c w removal stage => calls_update (by simp)
  | hold write follow now hopen =>
      obtain rfl := hmore rfl
      exact h.frame hlog rfl rfl ⟨rfl, rfl⟩ id (fun _ he => he)
        (fun _ hk => ⟨_, hk⟩) fun c w removal stage => calls_update (by simp)
  | unqueue write removal hwhy =>
      obtain rfl := hmore rfl
      exact h.unqueue hwhy
  | callNotify chan hcall =>
      obtain rfl := hmore rfl
      exact h.frame hlog rfl rfl ⟨rfl, rfl⟩ id (fun _ he => he)
        (fun _ hk => ⟨_, hk⟩) fun c w removal stage => calls_update (by simp)
  | callTable chan write removal hcall =>
      obtain rfl := hnone rfl
      refine h.frame hlog rfl hended ⟨rfl, rfl⟩ ?_ (fun _ he => he)
        (fun _ hk => ⟨_, hk⟩) ?_
      · show _ → (s.st.recordEnd write (.err removal)).stopped = true
        rw [State.recordEnd_stopped]
        exact id
      · intro c w cause stage hc
        by_cases hchan : c = chan
        · subst hchan
          simp only [Sys.callTable, Function.update_self] at hc
          cases hc
          exact ⟨.table, hcall⟩
        · simp only [Sys.callTable, Function.update_of_ne hchan] at hc
          exact ⟨stage, hc⟩
  | callAnswer chan write removal hcall =>
      obtain rfl := hmore rfl
      exact h.callAnswer (good hreach) hcall
  | callReport chan write removal hcall =>
      obtain rfl := hmore rfl
      exact h.frame hlog rfl rfl ⟨rfl, rfl⟩ id (fun _ he => he)
        (fun _ hk => ⟨_, hk⟩) fun c w removal stage => calls_update (by simp)
  | stopNow =>
      obtain rfl := hnone rfl
      exact h.frame hlog rfl rfl ⟨rfl, rfl⟩ (fun _ => rfl) (fun _ he => he)
        (fun _ hk => ⟨_, hk⟩) fun _ _ _ stage hc => ⟨stage, hc⟩
  | complete entry result stage hc =>
      cases stage with
      | reporting =>
          obtain rfl := hmore rfl
          refine h.frame hlog rfl rfl ⟨rfl, rfl⟩ id (fun _ he => he) ?_
            fun _ _ _ stage hc => ⟨stage, hc⟩
          intro k hk
          cases hk
          exact ⟨_, hc⟩
      | removing =>
          obtain rfl := hmore rfl
          cases hprocessed
      | sending =>
          obtain rfl := hmore rfl
          exact h.answer (good hreach) hc
      | signalling =>
          obtain rfl := hnone rfl
          refine h.frame hlog rfl rfl ⟨rfl, rfl⟩ id (fun _ he => he) ?_
            fun _ _ _ stage hc => ⟨stage, hc⟩
          intro k hk
          cases hk
  | takeHead head rest hat hentry hopen hfifo hblocked =>
      obtain rfl := hnone rfl
      refine h.plain hlog rfl rfl id ?_ (fun k hk => Or.inl ⟨_, hk⟩)
        (fun c w removal stage hc => Or.inl ⟨stage, hc⟩) (by simp) (Or.inl rfl)
      intro e he
      cases he
      exact Or.inr (h.head_cleared hreach hat hentry hfifo hblocked)
  | skipHead head rest removal hat hentry hopen hfifo hblocked =>
      obtain rfl := hnone rfl
      have hwhy : Explained s notes head (.err removal) :=
        Or.inr ⟨removal, rfl, h.reason_of_blocked hblocked⟩
      refine h.start rfl rfl id (fun _ he => he) ?_ rfl hwhy
      intro k hk
      cases hk
      exact ⟨rfl, rfl⟩
  | send a hat hattempt hphase =>
      obtain rfl := hmore rfl
      obtain ⟨e, hentry, hseq, hwrite⟩ := (inFlight hreach).attempt a hattempt
      refine h.plain hlog rfl rfl id (fun e he => Or.inl he)
        (fun k hk => Or.inl ⟨_, hk⟩)
        (fun c w removal stage hc => Or.inl ⟨stage, hc⟩) (by simp [Obs.result])
        (Or.inr ⟨e, ?_, h.cleared e hentry⟩)
      rw [hseq, hwrite]
  | retry a error hat hattempt hphase =>
      obtain rfl := hmore rfl
      exact h.frame hlog rfl rfl ⟨rfl, rfl⟩ id (fun _ he => he)
        (fun _ hk => ⟨_, hk⟩) fun _ _ _ stage hc => ⟨stage, hc⟩
  | attemptDone a outcome result hat hattempt hphase hjudge =>
      obtain rfl := hnone rfl
      obtain ⟨e, hentry, hseq, hwrite⟩ := (inFlight hreach).attempt a hattempt
      have hlast := (fifoInv hreach).again a hattempt (by rw [hphase]; simp)
      have hsent : (e.seq, e.write) ∈ Queue.sends s.log := by
        rw [hseq, hwrite]
        exact List.mem_of_getLast? hlast
      have hwhy : Explained s notes e result := Or.inl hsent
      refine h.start rfl rfl id (by simp [Sys.attemptDone]) ?_ rfl hwhy
      intro k hk
      simp only [Sys.attemptDone, hentry, Option.map_some] at hk
      cases hk
      exact ⟨rfl, rfl⟩
  | endHeld seq marker follow held removal hat htake hwhy =>
      obtain rfl := hnone rfl
      have hreason : Reason s notes marker.write removal := by
        rcases hwhy with rfl | ⟨rfl, hstopped⟩
        · refine .gate marker follow ((joinInv hreach).held (marker, follow) ?_) rfl
          exact (takeHeld_perm htake).mem_iff.mpr List.mem_cons_self
        · exact .stopped hstopped
      have hwhy' : Explained s notes marker (.err removal) :=
        Or.inr ⟨removal, rfl, hreason⟩
      refine h.start rfl rfl id (fun _ he => he) ?_ rfl hwhy'
      intro k hk
      cases hk
      exact ⟨rfl, rfl⟩
  | joinHeld seq marker follow held now hat hopen htake =>
      obtain rfl := hmore rfl
      refine h.frame hlog rfl hended ⟨rfl, rfl⟩ ?_ (fun _ he => he)
        (fun _ hk => ⟨_, hk⟩) fun _ _ _ stage hc => ⟨stage, hc⟩
      rw [hopen]
      intro hstopped
      cases hstopped
  | dropTask hfree hpoint =>
      obtain rfl := hnone rfl
      exact h.frame hlog rfl rfl ⟨rfl, rfl⟩ id (by simp [Sys.dropTask])
        (fun _ hk => ⟨_, hk⟩) fun _ _ _ stage hc => ⟨stage, hc⟩
  | dropLocked rest hat =>
      obtain rfl := hmore rfl
      exact h.frame hlog rfl rfl ⟨rfl, rfl⟩ (fun _ => rfl) (fun _ he => he)
        (fun _ hk => ⟨_, hk⟩) fun _ _ _ stage hc => ⟨stage, hc⟩
  | dropEntry entry rest hat =>
      obtain rfl := hnone rfl
      have hlocked : s.task.point.locked = true := by
        rw [hat.point]
        rfl
      obtain ⟨post, -, hafter⟩ := (dropInv hreach).some_of_locked hlocked
      have hwhy : Explained s notes entry (.err .leftUnsent) :=
        Or.inr ⟨.leftUnsent, rfl, .stopped hafter.stopped⟩
      refine h.start rfl rfl id (fun _ he => he) ?_ rfl hwhy
      intro k hk
      cases hk
      exact ⟨rfl, rfl⟩
  | drainRead d seen hd =>
      obtain rfl := hmore rfl
      exact h.frame hlog rfl rfl ⟨rfl, rfl⟩ id (fun _ he => he)
        (fun _ hk => ⟨_, hk⟩) fun _ _ _ stage hc => ⟨stage, hc⟩
  | drainLeave d hd =>
      obtain rfl := hmore rfl
      exact h.frame hlog rfl rfl ⟨rfl, rfl⟩ id (fun _ he => he)
        (fun _ hk => ⟨_, hk⟩) fun _ _ _ stage hc => ⟨stage, hc⟩
  | _ =>
      -- the steps that log nothing and keep what the table is about
      obtain rfl := hnone rfl
      exact h.frame hlog rfl rfl ⟨rfl, rfl⟩ id (fun _ he => he)
        (fun _ hk => ⟨_, hk⟩) fun _ _ _ stage hc => ⟨stage, hc⟩

theorem historyInv {p : Sys × List Note} (h : history.Reachable p) :
    HistoryInv p.1 p.2 := by
  refine Machine.Reach.invariant (P := fun p => HistoryInv p.1 p.2)
    historyInv_init ?_ h
  rintro ⟨s, notes⟩ ⟨s', notes'⟩ e hreach hp - hs
  obtain ⟨-, new, rfl, hnoted⟩ := noted_cases hs
  have hqueue := reachable_of_history hreach
  cases hnoted with
  | completed entry result hc => exact hp.completed hqueue hc
  | called chan write removal hcall => exact hp.called hqueue hcall
  | plain more hstep hended hlog hprocessed =>
      exact hp.step hqueue hstep hended hlog hprocessed

end Sys

end RunnerKit.Queue
