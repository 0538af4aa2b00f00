import RunnerKit.Toolkit.RunInv

/-!
# One terminal fact per Run

A Run hands over its completed fact behind its answer and its saved state, and
the queue removes it with either of them. The closing sees the ends of all
three and hands over a failed fact only when the completed one was removed as
dependent, so the two facts exclude each other whatever the queue and the jobs
service do.
-/

namespace RunnerKit.Toolkit.RunEnd

open RunnerKit.Jobs RunnerKit.Book RunnerKit.Queue RunnerKit.Lib

namespace Sys

variable {σ : Type} {plan : Plan σ} {s : Sys σ}

/-! ## What the completed fact was sent behind -/

/-- An owner of a recorded end was handed over. -/
theorem recorded_handed (hreach : Queue.Sys.history.Reachable (s.queue, s.notes))
    {seq : Option ℕ} {owner : Write} {result : WriteResult}
    (hin : .recorded seq owner result ∈ s.notes) :
    ∃ c, (c, owner) ∈ handed s.queue.log := by
  have hgood := Queue.Sys.good (Queue.Sys.reachable_of_history hreach)
  cases seq with
  | some q =>
      obtain ⟨e, he, -, rfl, -⟩ :=
        (Queue.Sys.historyInv hreach).queued q owner result hin
      exact ⟨e.chan, hgood.registered_handed e he⟩
  | none =>
      obtain ⟨c, removal, hlogged, -⟩ :=
        (Queue.Sys.causeInv hreach).recorded owner result hin
      exact ⟨c, List.mem_filterMap.mpr ⟨_, hlogged, rfl⟩⟩

/-- The one channel on which the owner of a key was handed over. -/
def ownChan (s : Sys σ) : DepKey → Option Chan
  | .started => some 0
  | .answer => s.answer
  | .savedState => s.saved
  | _ => none

theorem Base.own_chan (h : Base plan s) {key : DepKey} {c : Chan} {owner : Write}
    (hkey : key = .started ∨ key = .answer ∨ key = .savedState)
    (hhanded : (c, owner) ∈ handed s.queue.log) (hown : ownKey owner = some key) :
    s.ownChan key = some c := by
  have howns := h.own c owner hhanded
  cases owner with
  | started runId startId =>
      cases hown
      exact congrArg some (show c = 0 from howns).symm
  | answer content =>
      cases hown
      exact howns
  | savedState state =>
      cases hown
      exact howns
  | _ =>
      cases hown
      all_goals rcases hkey with hkey | hkey | hkey <;> cases hkey

theorem own_dependsOn {write : Write} (h : isCompleted write = true) {key : DepKey}
    (hkey : key ∈ dependsOn write) :
    key = .started ∨ key = .answer ∨ key = .savedState := by
  unfold isCompleted at h
  split at h
  · simpa [dependsOn, ownDeps, Write.isStarted] using hkey
  · cases h

/-- The owners that a sent completed fact depends on were delivered. -/
theorem Base.told_of_sent (h : Base plan s)
    (hreach : Queue.Sys.history.Reachable (s.queue, s.notes)) {q : ℕ} {w : Write}
    (hsent : (q, w) ∈ sends s.queue.log) (hkind : isCompleted w = true)
    {key : DepKey} (hkey : key = .answer ∨ key = .savedState) {c : Chan}
    (hc : s.ownChan key = some c) {told : WriteResult}
    (htold : (c, told) ∈ results s.queue.log) : told = .ok := by
  have hist : Queue.Sys.HistoryInv s.queue s.notes := Queue.Sys.historyInv hreach
  have hqueue := Queue.Sys.reachable_of_history hreach
  have hgood := Queue.Sys.good hqueue
  rw [← hist.sends] at hsent
  obtain ⟨note, hnote, heq⟩ := List.mem_filterMap.mp hsent
  obtain ⟨pre, post, hnotes⟩ := List.append_of_mem hnote
  have hsentNote : note = .sent q w := by
    cases note <;> cases heq
    rfl
  obtain ⟨before, e, after, rfl, -, rfl, hkeys⟩ :=
    hist.owners_delivered hqueue pre note post hnotes q w hsentNote
  obtain ⟨ha, hs⟩ := h.behind before (.joined e) (after ++ note :: post)
    (by simp [hnotes]) e rfl hkind
  have hknown : Known key before := by
    rcases hkey with rfl | rfl
    · exact ha (by simpa [ownChan] using congrArg Option.isSome hc)
    · exact hs (by simpa [ownChan] using congrArg Option.isSome hc)
  have hdep : key ∈ dependsOn e.write := by
    unfold isCompleted at hkind
    split at hkind
    · rename_i hwrite
      rw [hwrite]
      rcases hkey with rfl | rfl <;> simp [dependsOn, ownDeps]
    · cases hkind
  obtain ⟨o, -, hown, hrecorded⟩ := hkeys key hdep hknown
  have hin : .recorded (some o.seq) o.write .ok ∈ s.notes := by
    rw [hnotes]
    exact List.mem_append_left _ hrecorded
  obtain ⟨e', he', -, hwrite, hsame⟩ := hist.same_end hgood hin
  have hchan := h.own_chan (Or.inr hkey) (hgood.registered_handed e' he')
    (hwrite ▸ hown)
  rw [hc] at hchan
  cases hchan
  exact hsame told htold

/-- Where all owners are delivered, no end of theirs removes a write. -/
theorem Base.recorded_ok (h : Base plan s)
    (hreach : Queue.Sys.history.Reachable (s.queue, s.notes)) {key : DepKey} {c : Chan}
    (hkey : key = .started ∨ key = .answer ∨ key = .savedState)
    (hc : s.ownChan key = some c) (hok : (c, .ok) ∈ results s.queue.log)
    {seq : Option ℕ} {owner : Write} {result : WriteResult}
    (hin : .recorded seq owner result ∈ s.notes) (hown : ownKey owner = some key) :
    result = .ok := by
  refine (Queue.Sys.causeInv hreach).recorded_ok (Queue.Sys.historyInv hreach)
    (Queue.Sys.good (Queue.Sys.reachable_of_history hreach)) hok ?_ hin hown
  intro c' write hhanded hwrite
  have hchan := h.own_chan hkey hhanded hwrite
  rw [hc] at hchan
  exact (Option.some.inj hchan).symm

/-- A write of the end is removed as dependent only through an owner that was
removed. -/
theorem Base.depends_owner (h : Base plan s) {w : Write} (hnodes : ofNodes w = false)
    (hcaused : Caused s.queue s.notes w (.err .dependsOnRemoved)) :
    ∃ key seq owner result, key ∈ dependsOn w ∧ ownKey owner = some key ∧
      .recorded seq owner result ∈ s.notes ∧ result ≠ .ok := by
  cases hcaused with
  | depends key seq owner result hkey hown hin hremoved =>
      exact ⟨key, seq, owner, result, hkey, hown, hin, hremoved⟩
  | gate e follow hheld hwrite =>
      have hmarker := h.markers e follow hheld
      rw [hwrite, hnodes] at hmarker
      cases hmarker

/-- The answer and the saved state depend on the Started alone, which was
delivered before the body. -/
theorem Base.not_depends (h : Base plan s)
    (hreach : Queue.Sys.history.Reachable (s.queue, s.notes))
    (hending : s.ending.isSome) {c : Chan} {w : Write}
    (hhanded : (c, w) ∈ handed s.queue.log)
    (hkind : isAnswer w = true ∨ isSavedState w = true) :
    (c, .err .dependsOnRemoved) ∉ results s.queue.log := by
  intro hin
  obtain ⟨w', hw', hcaused⟩ := (Queue.Sys.causeInv hreach).ended c _ hin
  obtain rfl := Queue.Sys.write_unique
    (Queue.Sys.good (Queue.Sys.reachable_of_history hreach)) hhanded hw'
  have hnodes : ofNodes w = false := by
    rcases hkind with hkind | hkind <;> simp [ofNodes, hkind]
  obtain ⟨key, seq, owner, result, hkey, hown, hrecorded, hremoved⟩ :=
    h.depends_owner hnodes hcaused
  have hstarted : key = .started := by
    rcases hkind with hkind | hkind <;> cases w <;> cases hkind <;>
      simpa [dependsOn, ownDeps, Write.isStarted] using hkey
  subst hstarted
  exact hremoved (h.recorded_ok hreach (Or.inl rfl) rfl (h.opened hending) hrecorded hown)

/-- A completed fact that was sent is not removed as dependent, once the answer
and the saved state have ended. -/
theorem Base.sent_not_depends (h : Base plan s)
    (hreach : Queue.Sys.history.Reachable (s.queue, s.notes)) {q : ℕ} {w : Write}
    (hsent : (q, w) ∈ sends s.queue.log) (hkind : isCompleted w = true) {c : Chan}
    (hhanded : (c, w) ∈ handed s.queue.log) (hending : s.ending.isSome)
    {answer saved : Option WriteResult} (ha : Got s.queue.log s.answer answer)
    (hs : Got s.queue.log s.saved saved) :
    (c, .err .dependsOnRemoved) ∉ results s.queue.log := by
  intro hin
  obtain ⟨w', hw', hcaused⟩ := (Queue.Sys.causeInv hreach).ended c _ hin
  obtain rfl := Queue.Sys.write_unique
    (Queue.Sys.good (Queue.Sys.reachable_of_history hreach)) hhanded hw'
  have hnodes : ofNodes w = false := by
    unfold isCompleted at hkind
    split at hkind
    · rfl
    · cases hkind
  obtain ⟨key, seq, owner, result, hkey, hown, hrecorded, hremoved⟩ :=
    h.depends_owner hnodes hcaused
  obtain ⟨c', howner⟩ := recorded_handed hreach hrecorded
  have hends := own_dependsOn hkind hkey
  have hchan := h.own_chan hends howner hown
  have hgot : ∀ {chan r}, Got s.queue.log chan r → chan = some c' →
      ∃ told, (c', told) ∈ results s.queue.log := by
    rintro chan r hr rfl
    obtain ⟨told, -, htold⟩ := hr
    exact ⟨told, htold⟩
  have hok : (c', .ok) ∈ results s.queue.log := by
    rcases hends with rfl | hends
    · cases hchan
      exact h.opened hending
    · obtain ⟨told, htold⟩ : ∃ told, (c', told) ∈ results s.queue.log := by
        rcases hends with rfl | rfl
        · exact hgot ha hchan
        · exact hgot hs hchan
      rw [h.told_of_sent hreach hsent hkind hends hchan htold] at htold
      exact htold
  exact hremoved (h.recorded_ok hreach hends hchan hok hrecorded hown)

end Sys

/-! ## One terminal fact -/

/-- A write of this kind was handed over in `log`, and `seen` tells that it was
removed. -/
def RemovedIn (log seen : List Queue.Obs) (kind : Write → Bool) (removal : Removal) : Prop :=
  ∃ c write, (c, write) ∈ handed log ∧ kind write = true ∧
    (c, .err removal) ∈ results seen

/-- The answer or the saved state was removed. -/
def EndRemoved (log seen : List Queue.Obs) (removal : Removal) : Prop :=
  RemovedIn log seen isAnswer removal ∨ RemovedIn log seen isSavedState removal

/-- The reason code and the text that one removed write gives the failed fact. -/
def Tells (log seen : List Queue.Obs) (code text : String) : Prop :=
  ∃ removal, causeText removal = some text ∧
    (code = "answer_refused" ∧ RemovedIn log seen isAnswer removal ∨
      code = "saved_state_refused" ∧ RemovedIn log seen isSavedState removal)

/-- Exactly one failed fact was handed over. It tells of the removed write, and
it came after the completed fact was removed with it. -/
def FailedBehind {σ : Type} (plan : Plan σ) (log : List Queue.Obs) : Prop :=
  ∃ pre obs post c messageId code text, log = pre ++ obs :: post ∧
    obs.handed = some (c, .fact
      (.failed plan.runId (failedOf (.permanent code text) plan.mapping)) messageId) ∧
    Tells log pre code text ∧ RemovedIn log pre isCompleted .dependsOnRemoved ∧
    ∀ c' write, (c', write) ∈ handed log → isFailed write = true → c' = c

/-- The terminal facts of a Run in one state. -/
structure OneTerminal {σ : Type} (plan : Plan σ) (s : Sys σ) : Prop where
  one_sent : ∀ q write q' write', (q, write) ∈ sends s.queue.log →
    (q', write') ∈ sends s.queue.log → isTerminal write = true →
      isTerminal write' = true → q = q'
  one_delivered : ∀ c write c' write', (c, write) ∈ handed s.queue.log →
    (c', write') ∈ handed s.queue.log → isTerminal write = true →
      isTerminal write' = true → (c, .ok) ∈ results s.queue.log →
        (c', .ok) ∈ results s.queue.log → c = c'
  cancelled : s.ending = some .cancelled →
    ∀ c write, (c, write) ∈ handed s.queue.log → isTerminal write = false
  /-- Any removal of the answer or the saved state keeps the completed fact. -/
  removed : ∀ removal, EndRemoved s.queue.log s.queue.log removal →
    ∀ q write, (q, write) ∈ sends s.queue.log → isCompleted write = false
  /-- Refused or Failed: the failed fact follows, unless the queue was dropped
  before it removed the completed one. -/
  follows : s.place = .over → ∀ removal,
    EndRemoved s.queue.log s.queue.log removal → (causeText removal).isSome →
      FailedBehind plan s.queue.log ∨
        RemovedIn s.queue.log s.queue.log isCompleted .leftUnsent ∧
          s.queue.st.stopped = true ∧
            ∀ c write, (c, write) ∈ handed s.queue.log → isFailed write = false
  other : ∀ removal, EndRemoved s.queue.log s.queue.log removal →
    causeText removal = none →
      ∀ q write, (q, write) ∈ sends s.queue.log → isTerminal write = false

namespace Sys

variable {σ : Type} {plan : Plan σ} {s : Sys σ}

theorem terminal_cases {w : Write} (h : isTerminal w = true) :
    isCompleted w = true ∨ isFailed w = true := by
  unfold isTerminal at h
  split at h
  · exact Or.inl rfl
  · exact Or.inr rfl
  · cases h

theorem Base.completed_chan (h : Base plan s) {c : Chan} {w : Write}
    (hin : (c, w) ∈ handed s.queue.log) (hkind : isCompleted w = true) :
    s.completed = some c := by
  have hown := h.own c w hin
  unfold isCompleted at hkind
  split at hkind
  · exact hown
  · cases hkind

theorem Base.failed_chan (h : Base plan s) {c : Chan} {w : Write}
    (hin : (c, w) ∈ handed s.queue.log) (hkind : isFailed w = true) :
    s.failed = some c := by
  have hown := h.own c w hin
  unfold isFailed at hkind
  split at hkind
  · exact hown
  · cases hkind

/-- The answer or the saved state that was removed has one of the two
channels. -/
theorem Base.end_chan (h : Base plan s) {seen : List Queue.Obs} {removal : Removal}
    (hremoved : EndRemoved s.queue.log seen removal) :
    ∃ key c, (key = .answer ∨ key = .savedState) ∧ s.ownChan key = some c ∧
      (c, .err removal) ∈ results seen := by
  rcases hremoved with ⟨c, w, hin, hkind, hr⟩ | ⟨c, w, hin, hkind, hr⟩
  · refine ⟨.answer, c, Or.inl rfl, ?_, hr⟩
    cases w <;> cases hkind
    exact h.own c _ hin
  · refine ⟨.savedState, c, Or.inr rfl, ?_, hr⟩
    cases w <;> cases hkind
    exact h.own c _ hin

theorem Base.completed_unsent (h : Base plan s)
    (hreach : Queue.Sys.history.Reachable (s.queue, s.notes)) {removal : Removal}
    (hremoved : EndRemoved s.queue.log s.queue.log removal) {q : ℕ} {w : Write}
    (hsent : (q, w) ∈ sends s.queue.log) : isCompleted w = false := by
  by_contra hkind
  obtain ⟨key, c, hkey, hc, hr⟩ := h.end_chan hremoved
  have hok := h.told_of_sent hreach hsent (by simpa using hkind) hkey hc hr
  cases hok

/-- A sent write is that of its entry, on its channel. -/
theorem sent_entry (hreach : Queue.Sys.history.Reachable (s.queue, s.notes)) {q : ℕ}
    {w : Write} (hsent : (q, w) ∈ sends s.queue.log) :
    ∃ e ∈ registered s.queue.log, e.seq = q ∧ e.write = w ∧
      (e.chan, w) ∈ handed s.queue.log := by
  have hqueue := Queue.Sys.reachable_of_history hreach
  obtain ⟨e, he, hseq, rfl⟩ :=
    Queue.Sys.joined_of_sent (Queue.Sys.fifoInv hqueue) hsent
  have hregistered := Queue.Sys.registered_of_joins (Queue.Sys.joinInv hqueue) he
  exact ⟨e, hregistered, hseq, rfl,
    (Queue.Sys.good hqueue).registered_handed e hregistered⟩

theorem Base.one_completed_failed (h : Base plan s)
    (hreach : Queue.Sys.history.Reachable (s.queue, s.notes)) {q q' : ℕ}
    {w w' : Write} (hsent : (q, w) ∈ sends s.queue.log)
    (hsent' : (q', w') ∈ sends s.queue.log) (hkind : isCompleted w = true)
    (hkind' : isFailed w' = true) : False := by
  obtain ⟨e, -, -, -, hhanded⟩ := sent_entry hreach hsent
  obtain ⟨e', -, -, -, hhanded'⟩ := sent_entry hreach hsent'
  have hcompleted := h.completed_chan hhanded hkind
  have hfailed := h.failed_chan hhanded' hkind'
  obtain ⟨pre, obs, post, answer, saved, cause, id, hlog, -, ha, hs, hr, -⟩ :=
    h.late _ _ hfailed hcompleted
  have hend := (h.handedEnd (Or.inr (Or.inr (Or.inl (by simp [hcompleted]))))).1
  have hmono : ∀ {chan r}, Got pre chan r → Got s.queue.log chan r := by
    intro chan r hgot
    rw [hlog]
    exact hgot.append
  refine h.sent_not_depends hreach hsent hkind hhanded hend (hmono ha) (hmono hs) ?_
  rw [hlog, results_append]
  exact List.mem_append_left _ hr

theorem Base.one_sent (h : Base plan s)
    (hreach : Queue.Sys.history.Reachable (s.queue, s.notes)) {q q' : ℕ}
    {w w' : Write} (hsent : (q, w) ∈ sends s.queue.log)
    (hsent' : (q', w') ∈ sends s.queue.log) (hkind : isTerminal w = true)
    (hkind' : isTerminal w' = true) : q = q' := by
  obtain ⟨e, he, rfl, -, hhanded⟩ := sent_entry hreach hsent
  obtain ⟨e', he', rfl, -, hhanded'⟩ := sent_entry hreach hsent'
  have hsame : e.chan = e'.chan → e.seq = e'.seq := fun hchan =>
    congrArg Entry.seq (Queue.Sys.entry_of_chan
      (Queue.Sys.good (Queue.Sys.reachable_of_history hreach)) he he' hchan)
  rcases terminal_cases hkind with hc | hf <;>
    rcases terminal_cases hkind' with hc' | hf'
  · have hchan := h.completed_chan hhanded hc
    rw [h.completed_chan hhanded' hc'] at hchan
    exact hsame (Option.some.inj hchan).symm
  · exact (h.one_completed_failed hreach hsent hsent' hc hf').elim
  · exact (h.one_completed_failed hreach hsent' hsent hc' hf).elim
  · have hchan := h.failed_chan hhanded hf
    rw [h.failed_chan hhanded' hf'] at hchan
    exact hsame (Option.some.inj hchan).symm

/-- What was delivered was sent. -/
theorem sent_of_delivered (hreach : Queue.Sys.history.Reachable (s.queue, s.notes))
    {c : Chan} {w : Write} (hin : (c, w) ∈ handed s.queue.log)
    (hok : (c, .ok) ∈ results s.queue.log) :
    ∃ e ∈ registered s.queue.log, e.chan = c ∧ (e.seq, w) ∈ sends s.queue.log := by
  have hgood := Queue.Sys.good (Queue.Sys.reachable_of_history hreach)
  have hist : Queue.Sys.HistoryInv s.queue s.notes := Queue.Sys.historyInv hreach
  rcases hist.settled c _ hok with ⟨e, he, rfl, hsent⟩ | ⟨w', removal, -, hfalse, -⟩
  · obtain rfl := Queue.Sys.write_unique hgood hin (hgood.registered_handed e he)
    exact ⟨e, he, rfl, hsent⟩
  · cases hfalse

theorem causeOf_some {code : String} {r : Option WriteResult} {p : String × String}
    (h : causeOf code r = some p) :
    p.1 = code ∧ ∃ removal, r = some (.err removal) ∧ causeText removal = some p.2 := by
  unfold causeOf at h
  split at h
  · rename_i removal
    obtain ⟨text, htext, rfl⟩ := Option.map_eq_some_iff.mp h
    exact ⟨rfl, removal, rfl, htext⟩
  · cases h

/-- The two awaits of the closing by the key of their write. -/
def gotOf (answer saved : Option WriteResult) : DepKey → Option WriteResult
  | .answer => answer
  | _ => saved

theorem got_ownChan {log : List Queue.Obs} {answer saved : Option WriteResult}
    (ha : Got log s.answer answer) (hs : Got log s.saved saved) {key : DepKey}
    (hkey : key = .answer ∨ key = .savedState) {c : Chan}
    (hc : s.ownChan key = some c) :
    ∃ told, gotOf answer saved key = some told ∧ (c, told) ∈ results log := by
  have hgot : Got log (s.ownChan key) (gotOf answer saved key) := by
    rcases hkey with rfl | rfl
    · exact ha
    · exact hs
  rw [hc] at hgot
  exact hgot

theorem closingCause_isSome {answer saved : Option WriteResult} {key : DepKey}
    (hkey : key = .answer ∨ key = .savedState) {removal : Removal}
    (hr : gotOf answer saved key = some (.err removal))
    (hcause : (causeText removal).isSome) : (closingCause answer saved).isSome := by
  obtain ⟨text, htext⟩ := Option.isSome_iff_exists.mp hcause
  rcases hkey with rfl | rfl
  · have hanswer : answer = some (.err removal) := hr
    simp [closingCause, causeOf, hanswer, htext]
  · have hsaved : saved = some (.err removal) := hr
    simp [closingCause, causeOf, hsaved, htext]

theorem closingFailed_some {mapping : Option FailureMapping}
    {answer saved : Option WriteResult} {result : WriteResult} {failed : Failed}
    (h : closingFailed mapping answer saved result = some failed) :
    ∃ code text, closingCause answer saved = some (code, text) ∧
      failed = failedOf (.permanent code text) mapping := by
  unfold closingFailed at h
  split at h
  · obtain ⟨⟨code, text⟩, hcause, rfl⟩ := Option.map_eq_some_iff.mp h
    exact ⟨code, text, hcause, rfl⟩
  · cases h

theorem Base.tells (h : Base plan s) {pre : List Queue.Obs}
    {answer saved : Option WriteResult} (ha : Got pre s.answer answer)
    (hs : Got pre s.saved saved) {code text : String}
    (hcause : closingCause answer saved = some (code, text)) :
    Tells s.queue.log pre code text := by
  rcases Option.or_eq_some_iff.mp hcause with hanswer | ⟨-, hsaved⟩
  · obtain ⟨rfl, removal, rfl, htext⟩ := causeOf_some hanswer
    cases hc : s.answer with
    | none =>
        rw [hc] at ha
        cases ha
    | some c =>
        rw [hc] at ha
        obtain ⟨told, heq, hin⟩ := ha
        cases heq
        obtain ⟨content, hhanded⟩ := h.answered c hc
        exact ⟨removal, htext, Or.inl ⟨rfl, c, _, hhanded, rfl, hin⟩⟩
  · obtain ⟨rfl, removal, rfl, htext⟩ := causeOf_some hsaved
    cases hc : s.saved with
    | none =>
        rw [hc] at hs
        cases hs
    | some c =>
        rw [hc] at hs
        obtain ⟨told, heq, hin⟩ := hs
        cases heq
        obtain ⟨state, hhanded⟩ := h.savedState c hc
        exact ⟨removal, htext, Or.inr ⟨rfl, c, _, hhanded, rfl, hin⟩⟩

/-- A failed fact behind a completed one is that of the closing. -/
theorem Base.failedBehind (h : Base plan s) {c c' : Chan} (hc : s.failed = some c)
    (hc' : s.completed = some c') : FailedBehind plan s.queue.log := by
  obtain ⟨pre, obs, post, answer, saved, cause, id, hlog, hhanded, ha, hs, hr, hcause, -⟩ :=
    h.late c c' hc hc'
  obtain ⟨code, text, htext, rfl⟩ := closingFailed_some hcause
  obtain ⟨runId, completedId, hcompleted⟩ := h.completedFact c' hc'
  refine ⟨pre, obs, post, c, id, code, text, hlog, hhanded, h.tells ha hs htext,
    ⟨c', _, hcompleted, rfl, hr⟩, ?_⟩
  intro c'' write hin hkind
  rw [h.failed_chan hin hkind] at hc
  exact Option.some.inj hc

/-- A completed fact that was never sent was removed as dependent, or the queue
was dropped. -/
theorem unsent_removal (hreach : Queue.Sys.history.Reachable (s.queue, s.notes))
    {c : Chan} {w : Write} {result : WriteResult} (hin : (c, w) ∈ handed s.queue.log)
    (hkind : isCompleted w = true) (hresult : (c, result) ∈ results s.queue.log)
    (hunsent : ∀ q, (q, w) ∉ sends s.queue.log) :
    result = .err .dependsOnRemoved ∨
      result = .err .leftUnsent ∧ s.queue.st.stopped = true := by
  have hgood := Queue.Sys.good (Queue.Sys.reachable_of_history hreach)
  have hist : Queue.Sys.HistoryInv s.queue s.notes := Queue.Sys.historyInv hreach
  rcases hist.settled c _ hresult with ⟨e, he, rfl, hsent⟩ | ⟨w', removal, hw', rfl, hwhy⟩
  · obtain rfl := Queue.Sys.write_unique hgood hin (hgood.registered_handed e he)
    exact absurd hsent (hunsent e.seq)
  · obtain rfl := Queue.Sys.write_unique hgood hin hw'
    cases hwhy with
    | depends key seq owner result hkey hown hrecorded hremoved => exact Or.inl rfl
    | gate e follow hheld hwrite => exact Or.inl rfl
    | upload create content error seq hwrite hrecorded =>
        rw [hwrite] at hkind
        cases hkind
    | stopped hstopped => exact Or.inr ⟨rfl, hstopped⟩

theorem RunInv.follows (h : RunInv plan s)
    (hreach : Queue.Sys.history.Reachable (s.queue, s.notes)) (hplace : s.place = .over)
    {removal : Removal} (hremoved : EndRemoved s.queue.log s.queue.log removal)
    (hcause : (causeText removal).isSome) :
    FailedBehind plan s.queue.log ∨
      RemovedIn s.queue.log s.queue.log isCompleted .leftUnsent ∧
        s.queue.st.stopped = true ∧
          ∀ c write, (c, write) ∈ handed s.queue.log → isFailed write = false := by
  have hgood := Queue.Sys.good (Queue.Sys.reachable_of_history hreach)
  have hclosed := h.fits
  rw [hplace] at hclosed
  obtain ⟨hcovered, hends⟩ : Closed plan s := hclosed
  obtain ⟨key, c, hkey, hc, hr⟩ := h.base.end_chan hremoved
  have hsome : s.answer.isSome ∨ s.saved.isSome := by
    rcases hkey with rfl | rfl
    · exact Or.inl (Option.isSome_iff_exists.mpr ⟨c, hc⟩)
    · exact Or.inr (Option.isSome_iff_exists.mpr ⟨c, hc⟩)
  obtain ⟨c', hc'⟩ := Option.isSome_iff_exists.mp (hcovered hsome)
  obtain ⟨answer, saved, result, ha, hs, hresult, hnone⟩ := hends c' hc'
  obtain ⟨runId, messageId, hhanded⟩ := h.base.completedFact c' hc'
  have hunsent : ∀ q, (q, Write.fact (.completed runId) messageId) ∉
      sends s.queue.log := by
    intro q hsent
    have hkind := h.base.completed_unsent hreach hremoved hsent
    cases hkind
  cases hf : s.failed with
  | some cf => exact Or.inl (h.base.failedBehind hf hc')
  | none =>
      right
      rcases unsent_removal hreach hhanded rfl hresult hunsent with rfl | ⟨rfl, hstopped⟩
      · -- the closing would have handed over a failed fact
        obtain ⟨told, hgot, htold⟩ := got_ownChan ha hs hkey hc
        rw [hgood.result_unique htold hr] at hgot
        have hisSome := closingCause_isSome hkey hgot hcause
        have hfalse := hnone hf
        simp only [closingFailed, if_pos, Option.map_eq_none_iff] at hfalse
        rw [hfalse] at hisSome
        cases hisSome
      · refine ⟨⟨c', _, hhanded, rfl, hresult⟩, hstopped, fun c write hin => ?_⟩
        by_contra hkind
        rw [h.base.failed_chan hin (by simpa using hkind)] at hf
        cases hf

theorem Base.other (h : Base plan s)
    (hreach : Queue.Sys.history.Reachable (s.queue, s.notes)) {removal : Removal}
    (hremoved : EndRemoved s.queue.log s.queue.log removal)
    (hcause : causeText removal = none) {q : ℕ} {w : Write}
    (hsent : (q, w) ∈ sends s.queue.log) : isTerminal w = false := by
  have hgood := Queue.Sys.good (Queue.Sys.reachable_of_history hreach)
  by_contra hkind
  rcases terminal_cases (by simpa using hkind) with hcompleted | hfailed
  · rw [h.completed_unsent hreach hremoved hsent] at hcompleted
    cases hcompleted
  · obtain ⟨e, he, -, -, hhanded⟩ := sent_entry hreach hsent
    have hf := h.failed_chan hhanded hfailed
    have hend := (h.handedEnd (Or.inr (Or.inr (Or.inr (by simp [hf]))))).1
    obtain ⟨key, c, hkey, hc, hr⟩ := h.end_chan hremoved
    cases removal with
    | refused error => cases hcause
    | failed error => cases hcause
    | dependsOnRemoved =>
        rcases hremoved with ⟨c, w', hin, hkind, hr⟩ | ⟨c, w', hin, hkind, hr⟩
        · exact h.not_depends hreach hend hin (Or.inl hkind) hr
        · exact h.not_depends hreach hend hin (Or.inr hkind) hr
    | leftUnsent =>
        cases hcompleted : s.completed with
        | none =>
            obtain ⟨ha, hs⟩ := h.alone (by simp [hf]) hcompleted
            rcases hkey with rfl | rfl
            · rw [show s.ownChan .answer = s.answer from rfl, ha] at hc
              cases hc
            · rw [show s.ownChan .savedState = s.saved from rfl, hs] at hc
              cases hc
        | some c' =>
            obtain ⟨pre, obs, post, answer, saved, cause, id, hlog, hobs, ha, hs, -, -, htaken⟩ :=
              h.late _ _ hf hcompleted
            -- the failed fact was taken by the queue, so nothing was left unsent
            obtain ⟨o, ho, hoe⟩ := List.mem_filterMap.mp he
            have hsame : o = obs := handed_once (Queue.Sys.handed_nodup hgood) ho
              (by rw [hlog]; simp) (Queue.Obs.of_registered hoe).1 hobs
            subst hsame
            obtain ⟨told, -, htold⟩ := got_ownChan ha hs hkey hc
            have hin : (c, told) ∈ results s.queue.log := by
              rw [hlog, results_append]
              exact List.mem_append_left _ htold
            rw [hgood.result_unique hin hr] at htold
            exact htaken (by simp [hoe]) c htold

/-- Every Run has at most one terminal fact. -/
theorem one_terminal (h : (machine plan).Reachable s) : OneTerminal plan s := by
  have hreach := history_reachable h
  have hrun := runInv h
  have hbase := hrun.base
  refine ⟨?_, ?_, ?_, ?_, ?_, ?_⟩
  · exact fun q w q' w' hsent hsent' => hbase.one_sent hreach hsent hsent'
  · intro c w c' w' hin hin' hkind hkind' hok hok'
    obtain ⟨e, he, rfl, hsent⟩ := sent_of_delivered hreach hin hok
    obtain ⟨e', he', rfl, hsent'⟩ := sent_of_delivered hreach hin' hok'
    have hseq := hbase.one_sent hreach hsent hsent' hkind hkind'
    rw [(Queue.Sys.good (Queue.Sys.reachable_of_history hreach)).entry_unique he he' hseq]
  · intro hcancelled c w hin
    by_contra hkind
    have hnot := fun hsome => (hbase.handedEnd hsome).2 hcancelled
    rcases terminal_cases (by simpa using hkind) with hc | hf
    · exact hnot (Or.inr (Or.inr (Or.inl (by simp [hbase.completed_chan hin hc]))))
    · exact hnot (Or.inr (Or.inr (Or.inr (by simp [hbase.failed_chan hin hf]))))
  · exact fun removal hremoved q w hsent => hbase.completed_unsent hreach hremoved hsent
  · exact fun hplace removal hremoved hcause =>
      hrun.follows hreach hplace hremoved hcause
  · exact fun removal hremoved hcause q w hsent => hbase.other hreach hremoved hcause hsent

/-! ## A refused answer -/

/-- A sync call whose answer is made. -/
def answering : Plan Unit where
  runId := 1
  call := some .sync
  answer := some fun _ => .made ⟨"done", []⟩
  canRestart := false
  mapping := none
  jsonText := fun _ => .made "null"
  jsonValue := fun _ => .made .null

def answerTooLarge : Error :=
  .refused ⟨.payload, .payloadTooLarge, "too large", none⟩

def completion : List (Event Unit) :=
  [.queue .complete, .queue .complete, .queue .complete, .queue .complete]

/-- The Started is delivered, the body ends, and the answer is refused. -/
def refusedAnswerRun : List (Event Unit) :=
  ([.opened 2 0, .queue (.call 0), .queue (.task .takeNewHeld),
    .queue (.task .nextHead), .queue (.task .send),
    .queue (.task (.attemptEnded .ok))] : List (Event Unit)) ++ completion ++
  ([.started, .bodyEnded (.ended ()), .settled [], .handOver 5 0, .queue (.call 1),
    .handOver 6 0, .queue (.call 2), .queue (.task .takeNewHeld),
    .queue (.task .nextHead), .queue (.task .send),
    .queue (.task (.attemptEnded (.error answerTooLarge)))] : List (Event Unit)) ++ completion

/-- The closing sees the refusal and hands over the failed fact. -/
def failedRun : List (Event Unit) :=
  refusedAnswerRun ++
  ([.awaited, .awaited, .queue (.task .takeNewHeld), .queue (.task .nextHead)] :
    List (Event Unit)) ++ completion ++
  ([.awaited, .handOver 7 0, .queue (.call 3), .queue (.task .nextHead),
    .queue (.task .send), .queue (.task (.attemptEnded .ok))] : List (Event Unit)) ++
  completion ++
  ([.awaited, .drain, .queue (.drained 0 .read), .queue (.drained 0 .check),
    .queue (.drained 0 .leave), .drained] : List (Event Unit))

theorem one_terminal_failedRun :
    ∃ s, (machine answering).run failedRun = some s ∧ OneTerminal answering s ∧
      s.place = .over ∧
      results s.queue.log = [(0, .ok), (1, .err (.refused answerTooLarge)),
        (2, .err .dependsOnRemoved), (3, .ok)] ∧
      (sends s.queue.log).map Prod.fst = [0, 1, 3] :=
  ⟨_, rfl, one_terminal (Machine.reachable_of_run failedRun rfl), rfl, rfl, rfl⟩

/-- A failed fact follows every refused or failed write of the end. -/
def AlwaysFollowed : Prop :=
  ∀ (plan : Plan Unit) (s : Sys Unit), (machine plan).Reachable s →
    s.place = .over ∨ s.place = .aborted → ∀ removal,
      EndRemoved s.queue.log s.queue.log removal → (causeText removal).isSome →
        FailedBehind plan s.queue.log

theorem refusedAnswerRun_aborted :
    ∃ s, (machine answering).run (refusedAnswerRun ++ [.awaited, .abort]) = some s ∧
      s.place = .aborted ∧
      handed s.queue.log = [(0, .started 1 2), (1, .answer ⟨"done", []⟩),
        (2, .fact (.completed 1) 6)] ∧
      results s.queue.log = [(0, .ok), (1, .err (.refused answerTooLarge))] :=
  ⟨_, rfl, rfl, rfl, rfl⟩

/-- The closing is aborted behind the refusal, so nobody hands over a failed
fact. -/
theorem not_alwaysFollowed : ¬ AlwaysFollowed := by
  intro h
  obtain ⟨s, hrun, hplace, hhanded, hresults⟩ := refusedAnswerRun_aborted
  have hremoved : EndRemoved s.queue.log s.queue.log (.refused answerTooLarge) :=
    Or.inl ⟨1, .answer ⟨"done", []⟩, by simp [hhanded], rfl, by simp [hresults]⟩
  obtain ⟨pre, obs, post, c, messageId, code, text, hlog, hfailed, -⟩ :=
    h answering s (Machine.reachable_of_run _ hrun) (Or.inr hplace) _ hremoved rfl
  have hin := List.mem_filterMap.mpr
    ⟨obs, show obs ∈ s.queue.log by rw [hlog]; simp, hfailed⟩
  change _ ∈ handed s.queue.log at hin
  rw [hhanded] at hin
  simp at hin

end Sys

end RunnerKit.Toolkit.RunEnd
