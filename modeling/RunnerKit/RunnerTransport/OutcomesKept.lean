import RunnerKit.Lib.Log
import RunnerKit.RunnerTransport.Outcomes

/-!
# What a session keeps of its outcomes

The buffer of the subscription is a reading of the log, so what each publish finds
is said of the log alone: the subscription was there, and a resend comes directly
after a look that found no outcome of the command.
-/

namespace RunnerKit.RunnerTransport.Outcomes

open RunnerKit.Jobs RunnerKit.Lib RunnerKit.Queue

/-! ## Reading the log -/

def bufferedAfter (commandId : Uuid) (buffered : Option (List CorrelatedMatch)) :
    Obs → Option (List CorrelatedMatch)
  | .subscribed first => some first
  | .received event => buffered.map (· ++ [event])
  | .heard _ => buffered.map fun events =>
      ((awaitCorrelation commandId events).map Prod.snd).getD events
  | .lost => none
  | _ => buffered

/-- What the subscription has buffered; none while there is no subscription. -/
def bufferedOf (commandId : Uuid) (log : List Obs) : Option (List CorrelatedMatch) :=
  log.foldl (bufferedAfter commandId) none

@[simp] theorem bufferedOf_snoc (commandId : Uuid) (log : List Obs) (obs : Obs) :
    bufferedOf commandId (log ++ [obs]) =
      bufferedAfter commandId (bufferedOf commandId log) obs := by
  simp [bufferedOf]

/-- A look that found no outcome of the command, and since then nothing but events
that arrived. -/
def Looked (commandId : Uuid) (log : List Obs) : Prop :=
  ∃ before during, log = before ++ .silent :: during ∧
    (∀ obs ∈ during, ∃ event, obs = .received event) ∧
    ∃ buffered, bufferedOf commandId before = some buffered ∧
      ∀ event ∈ buffered, event.correlation ≠ commandId

def Published (log : List Obs) : Prop := ∃ envelope, .published envelope ∈ log

/-- How the write ends with this outcome. -/
def EndsWrite (w : SessionWire) (command : ChildWrite) (found : CorrelatedMatch)
    (result : WriteResult) : Prop :=
  judge command.write (Sys.outcome (w.outcomeOf command.operation found)) = .final result

structure OutcomesKept (w : SessionWire) (command : ChildWrite) (now : ℤ) (s : Sys) :
    Prop where
  /-- The subscription is there before each publish. -/
  subscribed : Always (fun pre obs => ∀ envelope, obs = .published envelope →
    (bufferedOf command.commandId pre).isSome = true) s.log
  /-- It is kept as long as it lives. -/
  kept : Always (fun pre obs => ∀ first, obs = .subscribed first →
    bufferedOf command.commandId pre = none) s.log
  same : ∀ envelope, .published envelope ∈ s.log →
    envelope = ⟨command.commandId, now, command.write⟩
  /-- A resend comes after a look that found no outcome of the command. -/
  looked : Always (fun pre obs => ∀ envelope, obs = .published envelope →
    Published pre → Looked command.commandId pre) s.log
  /-- Nothing is published after an outcome that can be read. -/
  unread : Always (fun pre obs => ∀ envelope found, obs = .published envelope →
    .heard found ∈ pre → ∃ text,
      w.outcomeOf command.operation found = .error (.unreadable text)) s.log
  /-- What is heard is an event of the command that the subscription received. -/
  heard : Always (fun pre obs => ∀ found, obs = .heard found →
    found.correlation = command.commandId ∧ ∃ buffered,
      bufferedOf command.commandId pre = some buffered ∧ found ∈ buffered) s.log
  /-- The write ends delivered or refused only by such an event. -/
  ended : ∀ result, s.place = .done result →
    (result = .ok ∨ ∃ error, result = .err (.refused error)) →
      ∃ found, .heard found ∈ s.log ∧ EndsWrite w command found result

/-! ## Waits and ends of attempts -/

theorem awaitCorrelation_some {commandId : Uuid} {found : CorrelatedMatch} :
    ∀ {events rest : List CorrelatedMatch},
      awaitCorrelation commandId events = some (found, rest) →
        found.correlation = commandId ∧ found ∈ events
  | [], _, h => by cases h
  | event :: events, rest, h => by
      unfold awaitCorrelation at h
      split at h
      · rename_i heq
        cases h
        exact ⟨heq, List.mem_cons_self ..⟩
      · obtain ⟨hcorrelation, hin⟩ := awaitCorrelation_some h
        exact ⟨hcorrelation, List.mem_cons_of_mem _ hin⟩

theorem awaitCorrelation_none {commandId : Uuid} : ∀ {events : List CorrelatedMatch},
    awaitCorrelation commandId events = none →
      ∀ event ∈ events, event.correlation ≠ commandId
  | [], _, _, hin => by cases hin
  | event :: events, h, other, hin => by
      unfold awaitCorrelation at h
      split at h
      · cases h
      · rename_i hne
        rcases List.mem_cons.mp hin with rfl | hin
        · exact hne
        · exact awaitCorrelation_none h other hin

theorem not_started {write : Write} (h : isChild write = true) : write.isStarted = false := by
  cases write <;> first | rfl | cases h

/-- An attempt that ends with an error of its own ends the write at most as
failed. -/
theorem judge_other (write : Write) {error : Error} (h : ∀ refusal, error ≠ .refused refusal) :
    judge write (.error error) = .resend error ∨
      judge write (.error error) = .final (.err (.failed error)) := by
  unfold judge judgeError finalRemoval
  dsimp only
  split
  · exact Or.inl rfl
  · split
    · exact absurd rfl (h _)
    · exact Or.inr rfl

theorem judge_timedOut (write : Write) :
    judge write .timedOut = .resend (.waitFired "no outcome within the outcome wait") := by
  simp [judge, judgeError, resendable, Error.waitFired]

/-- An outcome that does not end the write cannot be read. -/
theorem judge_outcome {w : SessionWire} {command : ChildWrite} {found : CorrelatedMatch}
    {error : Error}
    (h : judge command.write (Sys.outcome (w.outcomeOf command.operation found)) =
      .resend error) :
    ∃ text, w.outcomeOf command.operation found = .error (.unreadable text) := by
  unfold SessionWire.outcomeOf at h ⊢
  split at h
  · cases h
  · rename_i hsuccess
    rw [if_neg hsuccess]
    split at h
    · rename_i hrejection
      rw [if_pos hrejection]
      exact ⟨_, rfl⟩
    · rename_i hrejection
      rw [if_neg hrejection]
      split at h
      · simp [Sys.outcome, judge, judgeError, resendable, not_started command.child] at h
      · exact ⟨_, rfl⟩

/-! ## The invariant -/

structure Inv (w : SessionWire) (command : ChildWrite) (now : ℤ) (s : Sys) : Prop where
  envelope : s.session.envelope = ⟨command.commandId, now, command.write⟩
  buffer : s.session.awaiter = bufferedOf command.commandId s.log
  published : s.session.published = true ↔ Published s.log
  live : s.place = .looking ∨ s.place = .sending ∨ s.place = .publishing ∨
    s.place = .hearing → s.session.awaiter.isSome = true
  subscribing : s.place = .subscribing → s.session.awaiter = none
  sending : s.place = .sending → Published s.log → Looked command.commandId s.log
  running : (∀ result, s.place ≠ .done result) → ∀ found, .heard found ∈ s.log →
    ∃ text, w.outcomeOf command.operation found = .error (.unreadable text)
  kept : OutcomesKept w command now s

section Steps

variable {w : SessionWire} {command : ChildWrite} {now : ℤ} {s s' : Sys}

theorem inv_init (w : SessionWire) (command : ChildWrite) (now : ℤ) :
    Inv w command now (Sys.init command now) := by
  refine ⟨rfl, rfl, by simp [Sys.init, Published], by simp [Sys.init], by simp [Sys.init],
    by simp [Sys.init], by simp [Sys.init], ?_⟩
  constructor
  all_goals first | exact always_nil | simp [Sys.init]

/-- An entry that tells neither of a publish nor of a subscription nor of an event
heard. -/
def Obs.isPlain : Obs → Bool
  | .received _ | .silent | .lost | .retried _ | .ended _ => true
  | _ => false

theorem OutcomesKept.plain (h : OutcomesKept w command now s) {obs : Obs}
    (hobs : obs.isPlain = true) (hlog : s'.log = s.log ++ [obs])
    (hended : ∀ result, s'.place = .done result →
      (result = .ok ∨ ∃ error, result = .err (.refused error)) →
        ∃ found, .heard found ∈ s.log ∧ EndsWrite w command found result) :
    OutcomesKept w command now s' := by
  constructor
  · rw [hlog]
    refine always_snoc.mpr ⟨h.subscribed, ?_⟩
    rintro envelope rfl
    cases hobs
  · rw [hlog]
    refine always_snoc.mpr ⟨h.kept, ?_⟩
    rintro first rfl
    cases hobs
  · intro envelope hin
    rw [hlog] at hin
    rcases List.mem_append.mp hin with hin | hin
    · exact h.same envelope hin
    · obtain rfl := List.mem_singleton.mp hin
      cases hobs
  · rw [hlog]
    refine always_snoc.mpr ⟨h.looked, ?_⟩
    rintro envelope rfl
    cases hobs
  · rw [hlog]
    refine always_snoc.mpr ⟨h.unread, ?_⟩
    rintro envelope found rfl
    cases hobs
  · rw [hlog]
    refine always_snoc.mpr ⟨h.heard, ?_⟩
    rintro found rfl
    cases hobs
  · intro result hplace hresult
    obtain ⟨found, hin, hends⟩ := hended result hplace hresult
    exact ⟨found, by rw [hlog]; exact List.mem_append_left _ hin, hends⟩

theorem published_snoc {log : List Obs} {obs : Obs} (hobs : ∀ envelope, obs ≠ .published envelope) :
    Published (log ++ [obs]) ↔ Published log := by
  constructor
  · rintro ⟨envelope, hin⟩
    rcases List.mem_append.mp hin with hin | hin
    · exact ⟨envelope, hin⟩
    · exact absurd (List.mem_singleton.mp hin).symm (hobs envelope)
  · rintro ⟨envelope, hin⟩
    exact ⟨envelope, List.mem_append_left _ hin⟩

theorem plain_ne_published {obs : Obs} (hobs : obs.isPlain = true) (envelope : Envelope) :
    obs ≠ .published envelope := by
  rintro rfl
  cases hobs

/-- A step that tells one plain entry, to another place. -/
theorem Inv.plain (h : Inv w command now s) (obs : Obs) (hobs : obs.isPlain = true)
    (hlog : s'.log = s.log ++ [obs]) (henvelope : s'.session.envelope = s.session.envelope)
    (hpublished : s'.session.published = s.session.published)
    (hbuffer : s'.session.awaiter =
      bufferedAfter command.commandId s.session.awaiter obs)
    (hlive : s'.place = .looking ∨ s'.place = .sending ∨ s'.place = .publishing ∨
      s'.place = .hearing → s'.session.awaiter.isSome = true)
    (hsubscribing : s'.place = .subscribing → s'.session.awaiter = none)
    (hsending : s'.place = .sending → Published s.log → Looked command.commandId s'.log)
    (hrunning : (∀ result, s'.place ≠ .done result) → ∀ found, .heard found ∈ s.log →
      ∃ text, w.outcomeOf command.operation found = .error (.unreadable text))
    (hended : ∀ result, s'.place = .done result →
      (result = .ok ∨ ∃ error, result = .err (.refused error)) →
        ∃ found, .heard found ∈ s.log ∧ EndsWrite w command found result) :
    Inv w command now s' := by
  have hpub : Published s'.log ↔ Published s.log := by
    rw [hlog]
    exact published_snoc (plain_ne_published hobs)
  refine ⟨henvelope.trans h.envelope, ?_, ?_, hlive, hsubscribing, ?_, ?_,
    h.kept.plain hobs hlog hended⟩
  · rw [hbuffer, h.buffer, hlog, bufferedOf_snoc]
  · rw [hpublished, hpub]
    exact h.published
  · intro hplace hin
    exact hsending hplace (hpub.mp hin)
  · intro hnot found hin
    rw [hlog] at hin
    rcases List.mem_append.mp hin with hin | hin
    · exact hrunning hnot found hin
    · obtain rfl := List.mem_singleton.mp hin
      cases hobs

/-- Another place, where the session may be. -/
theorem Inv.moveTo (h : Inv w command now s) (place : Place)
    (hrun : ∀ result, s.place ≠ .done result)
    (hlive : place = .looking ∨ place = .sending ∨ place = .publishing ∨ place = .hearing →
      s.session.awaiter.isSome = true)
    (hsubscribing : place = .subscribing → s.session.awaiter = none)
    (hsending : place = .sending → ¬ Published s.log)
    (hended : ∀ result, place ≠ .done result) :
    Inv w command now { s with place := place } :=
  ⟨h.envelope, h.buffer, h.published, hlive, hsubscribing,
    fun hplace hin => absurd hin (hsending hplace), fun _ => h.running hrun,
    ⟨h.kept.subscribed, h.kept.kept, h.kept.same, h.kept.looked, h.kept.unread, h.kept.heard,
      fun result hplace => absurd hplace (hended result)⟩⟩

theorem Inv.retrying (h : Inv w command now s) (hrun : ∀ result, s.place ≠ .done result) :
    Inv w command now { s with place := .retrying } :=
  h.moveTo .retrying hrun (by simp) (by simp) (by simp) (by simp)

theorem Inv.resend (h : Inv w command now s) (hrun : ∀ result, s.place ≠ .done result)
    (error : Error) :
    Inv w command now ({ s with place := .retrying }.observe (.retried error)) :=
  (h.retrying hrun).plain (.retried error) rfl rfl rfl rfl rfl (by simp [Sys.observe])
    (by simp [Sys.observe]) (by simp [Sys.observe]) (fun _ => h.running hrun)
    (by simp [Sys.observe])

/-- An attempt ends with an error that is no refusal. -/
theorem Inv.judgedError (h : Inv w command now s) (hrun : ∀ result, s.place ≠ .done result)
    {error : Error} (herror : ∀ refusal, error ≠ .refused refusal) :
    Inv w command now (s.judged (.error error)) := by
  unfold Sys.judged
  rcases judge_other s.session.envelope.write herror with hjudge | hjudge
  · rw [hjudge]
    exact h.resend hrun error
  · rw [hjudge]
    refine (h.retrying hrun).plain (.ended (.err (.failed error))) rfl rfl rfl rfl rfl
      (by simp [Sys.observe]) (by simp [Sys.observe]) (by simp [Sys.observe])
      (fun _ => h.running hrun) ?_
    rintro result hplace hresult
    cases hplace
    rcases hresult with hresult | ⟨other, hresult⟩
    · cases hresult
    · cases hresult

theorem Inv.cut (h : Inv w command now s) (hrun : ∀ result, s.place ≠ .done result) :
    Inv w command now (s.judged .timedOut) := by
  unfold Sys.judged
  rw [judge_timedOut]
  exact h.resend hrun _

theorem judged_place (s : Sys) (place : Place) (outcome : Outcome) :
    ({ s with place := place } : Sys).judged outcome = s.judged outcome := by
  unfold Sys.judged
  rfl

theorem Inv.arrive (h : Inv w command now s) {buffered : List CorrelatedMatch}
    (hawaiter : s.session.awaiter = some buffered) (event : CorrelatedMatch) :
    Inv w command now
      ((s.setAwaiter (some (buffered ++ [event]))).observe (.received event)) := by
  refine h.plain (.received event) rfl rfl rfl rfl ?_ (fun _ => rfl) ?_ ?_
    h.running h.kept.ended
  · rw [hawaiter]
    rfl
  · intro hplace
    rw [h.subscribing hplace] at hawaiter
    cases hawaiter
  · intro hplace hin
    obtain ⟨before, during, heq, hduring, hbuffer⟩ := h.sending hplace hin
    refine ⟨before, during ++ [.received event], ?_, ?_, hbuffer⟩
    · show s.log ++ [.received event] = _
      rw [heq]
      simp
    · intro obs hobs
      rcases List.mem_append.mp hobs with hobs | hobs
      · exact hduring obs hobs
      · exact ⟨event, List.mem_singleton.mp hobs⟩

theorem Inv.afterSubscribe (h : Inv w command now s)
    (hrun : ∀ result, s.place ≠ .done result) (hawaiter : s.session.awaiter.isSome = true) :
    Inv w command now s.afterSubscribe := by
  unfold Sys.afterSubscribe
  split
  · exact h.moveTo .looking hrun (fun _ => hawaiter) (by simp) (by simp) (by simp)
  · rename_i hpublished
    exact h.moveTo .sending hrun (fun _ => hawaiter) (by simp)
      (fun _ hin => hpublished (h.published.mpr hin)) (by simp)

theorem Inv.subscribed (h : Inv w command now s) (hplace : s.place = .subscribing)
    (buffered : List CorrelatedMatch) :
    Inv w command now
      (((s.setAwaiter (some buffered)).observe (.subscribed buffered)).afterSubscribe) := by
  have hnone := h.subscribing hplace
  have hbuffer := h.buffer
  rw [hnone] at hbuffer
  have hrun : ∀ result, s.place ≠ .done result := by
    rw [hplace]
    simp
  have hsub : Inv w command now
      ({ s.setAwaiter (some buffered) with place := .retrying }.observe
        (.subscribed buffered)) := by
    refine ⟨h.envelope, ?_, ?_, by simp [Sys.observe], by simp [Sys.observe],
      by simp [Sys.observe], ?_, ?_⟩
    · show some buffered = bufferedOf command.commandId (s.log ++ [.subscribed buffered])
      rw [bufferedOf_snoc]
      rfl
    · show s.session.published = true ↔ Published (s.log ++ [.subscribed buffered])
      rw [published_snoc (by simp)]
      exact h.published
    · intro _ found hin
      rcases List.mem_append.mp hin with hin | hin
      · exact h.running hrun found hin
      · cases List.mem_singleton.mp hin
    · constructor
      · refine always_snoc.mpr ⟨h.kept.subscribed, ?_⟩
        intro envelope heq
        cases heq
      · refine always_snoc.mpr ⟨h.kept.kept, ?_⟩
        exact fun _ _ => hbuffer.symm
      · intro envelope hin
        rcases List.mem_append.mp hin with hin | hin
        · exact h.kept.same envelope hin
        · cases List.mem_singleton.mp hin
      · refine always_snoc.mpr ⟨h.kept.looked, ?_⟩
        intro envelope heq
        cases heq
      · refine always_snoc.mpr ⟨h.kept.unread, ?_⟩
        intro envelope found heq
        cases heq
      · refine always_snoc.mpr ⟨h.kept.heard, ?_⟩
        intro found heq
        cases heq
      · intro result hdone
        cases hdone
  exact hsub.afterSubscribe (by simp [Sys.observe]) rfl

/-- An outcome is heard: the attempt ends with it. -/
theorem Inv.heard (h : Inv w command now s) (hrun : ∀ result, s.place ≠ .done result)
    {found : CorrelatedMatch} {rest : List CorrelatedMatch}
    (hfound : s.session.awaiter.bind (awaitCorrelation s.session.envelope.commandId) =
      some (found, rest)) :
    Inv w command now (((s.setAwaiter (some rest)).observe (.heard found)).judged
      (Sys.outcome (w.outcomeOf command.operation found))) := by
  rw [h.envelope] at hfound
  obtain ⟨buffered, hawaiter, hfound⟩ := Option.bind_eq_some_iff.mp hfound
  obtain ⟨hcorrelation, hin⟩ := awaitCorrelation_some hfound
  have hbuffer := h.buffer
  rw [hawaiter] at hbuffer
  -- the state after the event is heard, at a place where the attempt may end
  have hheard : ∀ place, (place ≠ .subscribing ∧ place ≠ .sending ∧ place ≠ .looking ∧
      place ≠ .publishing ∧ place ≠ .hearing) →
      ((∀ result, place ≠ .done result) → ∃ text,
        w.outcomeOf command.operation found = .error (.unreadable text)) →
      (∀ result, place = .done result → EndsWrite w command found result) →
      Inv w command now
        ({ s.setAwaiter (some rest) with place := place }.observe (.heard found)) := by
    rintro place ⟨hsub, hsend, hlook, hpub, hhear⟩ hunread hends
    refine ⟨h.envelope, ?_, ?_, ?_, fun heq => absurd heq hsub, fun heq => absurd heq hsend,
      ?_, ?_⟩
    · show some rest = bufferedOf command.commandId (s.log ++ [.heard found])
      rw [bufferedOf_snoc, ← hbuffer]
      simp [bufferedAfter, hfound]
    · show s.session.published = true ↔ Published (s.log ++ [.heard found])
      rw [published_snoc (by simp)]
      exact h.published
    · rintro (heq | heq | heq | heq)
      · exact absurd heq hlook
      · exact absurd heq hsend
      · exact absurd heq hpub
      · exact absurd heq hhear
    · intro hnot other hother
      rcases List.mem_append.mp hother with hother | hother
      · exact h.running hrun other hother
      · cases List.mem_singleton.mp hother
        exact hunread hnot
    · constructor
      · refine always_snoc.mpr ⟨h.kept.subscribed, ?_⟩
        intro envelope heq
        cases heq
      · refine always_snoc.mpr ⟨h.kept.kept, ?_⟩
        intro first heq
        cases heq
      · intro envelope hsame
        rcases List.mem_append.mp hsame with hsame | hsame
        · exact h.kept.same envelope hsame
        · cases List.mem_singleton.mp hsame
      · refine always_snoc.mpr ⟨h.kept.looked, ?_⟩
        intro envelope heq
        cases heq
      · refine always_snoc.mpr ⟨h.kept.unread, ?_⟩
        intro envelope other heq
        cases heq
      · refine always_snoc.mpr ⟨h.kept.heard, ?_⟩
        intro other heq
        cases heq
        exact ⟨hcorrelation, buffered, hbuffer.symm, hin⟩
      · intro result hdone _
        exact ⟨found, by simp [Sys.observe], hends result hdone⟩
  unfold Sys.judged
  have hwrite : s.session.envelope.write = command.write := by rw [h.envelope]
  cases hjudge : judge command.write (Sys.outcome (w.outcomeOf command.operation found)) with
  | resend error =>
      have hretry := hheard .retrying (by simp) (fun _ => judge_outcome hjudge) (by simp)
      simp only [Sys.setAwaiter, Sys.observe, hwrite, hjudge] at hretry ⊢
      exact hretry.resend (by simp) error
  | final result =>
      have hdone := hheard (.done result) (by simp) (fun hnot => absurd rfl (hnot result))
        fun other heq => by
          cases heq
          exact hjudge
      simp only [Sys.setAwaiter, Sys.observe, hwrite, hjudge] at hdone ⊢
      exact hdone.plain (.ended result) rfl rfl rfl rfl rfl (by simp) (by simp) (by simp)
        (fun hnot => absurd rfl (hnot result)) hdone.kept.ended

/-- The look before a resend finds nothing. -/
theorem Inv.lookedInVain (h : Inv w command now s) (hplace : s.place = .looking)
    (hnone : s.session.awaiter.bind (awaitCorrelation s.session.envelope.commandId) = none) :
    Inv w command now ({ s with place := .sending }.observe .silent) := by
  have hawaiter := h.live (Or.inl hplace)
  obtain ⟨buffered, hbuffered⟩ := Option.isSome_iff_exists.mp hawaiter
  have hrun : ∀ result, s.place ≠ .done result := by
    rw [hplace]
    simp
  refine h.plain .silent rfl rfl rfl rfl rfl (fun _ => hawaiter) (by simp [Sys.observe])
    ?_ (fun _ => h.running hrun) (by simp [Sys.observe])
  intro _ _
  refine ⟨s.log, [], rfl, by simp, buffered, ?_, ?_⟩
  · rw [← h.buffer, hbuffered]
  · rw [hbuffered, h.envelope] at hnone
    exact awaitCorrelation_none hnone

theorem Inv.heardNothing (h : Inv w command now s) (hplace : s.place = .hearing) :
    Inv w command now ((s.observe .silent).judged
      (.error (.waitFired "no outcome event came within the wait"))) := by
  have hsilent : Inv w command now (s.observe .silent) := by
    refine h.plain .silent rfl rfl rfl rfl rfl h.live h.subscribing ?_ h.running
      h.kept.ended
    intro hsending
    rw [show s.place = .sending from hsending] at hplace
    cases hplace
  apply hsilent.judgedError
  · intro result heq
    rw [show s.place = .done result from heq] at hplace
    cases hplace
  · intro refusal heq
    cases heq

theorem Inv.lost (h : Inv w command now s) (hrun : ∀ result, s.place ≠ .done result)
    (error : FabricError) :
    Inv w command now (((s.setAwaiter none).observe .lost).judged
      (.error (Fail.fabric "the outcome events" error))) := by
  rw [← judged_place _ .retrying]
  have hlost : Inv w command now
      ({ s.setAwaiter none with place := .retrying }.observe .lost) :=
    h.plain .lost rfl rfl rfl rfl rfl (by simp [Sys.observe]) (by simp [Sys.observe])
      (by simp [Sys.observe]) (fun _ => h.running hrun) (by simp [Sys.observe])
  exact hlost.judgedError (by simp [Sys.observe]) (Fail.fabric_ne_refused _ error)

theorem Inv.send (h : Inv w command now s) (hplace : s.place = .sending) :
    Inv w command now ({ s with
      session := { s.session with published := true }
      place := .publishing }.observe (.published s.session.envelope)) := by
  have hawaiter := h.live (Or.inr (Or.inl hplace))
  have hrun : ∀ result, s.place ≠ .done result := by
    rw [hplace]
    simp
  refine ⟨h.envelope, ?_, ?_, fun _ => hawaiter, by simp [Sys.observe], by simp [Sys.observe],
    ?_, ?_⟩
  · show s.session.awaiter = bufferedOf _ (s.log ++ [.published s.session.envelope])
    rw [bufferedOf_snoc]
    exact h.buffer
  · refine ⟨fun _ => ⟨s.session.envelope, ?_⟩, fun _ => rfl⟩
    simp [Sys.observe]
  · intro _ found hin
    rcases List.mem_append.mp hin with hin | hin
    · exact h.running hrun found hin
    · cases List.mem_singleton.mp hin
  · constructor
    · refine always_snoc.mpr ⟨h.kept.subscribed, ?_⟩
      intro envelope _
      rw [← h.buffer]
      exact hawaiter
    · refine always_snoc.mpr ⟨h.kept.kept, ?_⟩
      intro first heq
      cases heq
    · intro envelope hin
      rcases List.mem_append.mp hin with hin | hin
      · exact h.kept.same envelope hin
      · cases List.mem_singleton.mp hin
        exact h.envelope
    · refine always_snoc.mpr ⟨h.kept.looked, ?_⟩
      intro envelope _ hpublished
      exact h.sending hplace hpublished
    · refine always_snoc.mpr ⟨h.kept.unread, ?_⟩
      intro envelope found _ hin
      exact h.running hrun found hin
    · refine always_snoc.mpr ⟨h.kept.heard, ?_⟩
      intro found heq
      cases heq
    · intro result hdone
      cases hdone

theorem Inv.step (h : Inv w command now s) {e : Event}
    (hs : step w command s e = some s') : Inv w command now s' := by
  have running : ∀ {place : Place}, s.place = place → (∀ result, place ≠ .done result) →
      ∀ result, s.place ≠ .done result := by
    intro place hplace hnot result heq
    exact hnot result (hplace.symm.trans heq)
  cases e with
  | arrive event =>
      simp only [Outcomes.step] at hs
      split at hs <;> cases hs
      · exact h.arrive ‹_› event
      · exact h
  | attempt =>
      simp only [Outcomes.step] at hs
      split at hs
      · rename_i hplace
        split at hs <;> cases hs
        · rename_i hawaiter
          exact h.afterSubscribe (running hplace (by simp)) (by rw [hawaiter]; rfl)
        · rename_i hawaiter
          exact h.moveTo .subscribing (running hplace (by simp)) (by simp) (fun _ => hawaiter)
            (by simp) (by simp)
      · cases hs
  | subscribed buffered =>
      simp only [Outcomes.step] at hs
      split at hs <;> cases hs
      exact h.subscribed ‹_› buffered
  | subscribeFailed error =>
      simp only [Outcomes.step] at hs
      split at hs <;> cases hs
      exact h.judgedError (running ‹_› (by simp)) (Fail.fabricUnsent_ne_refused _ error)
  | subscribeTimedOut =>
      simp only [Outcomes.step] at hs
      split at hs <;> cases hs
      exact h.judgedError (running ‹_› (by simp)) (fun refusal heq => by cases heq)
  | heard =>
      simp only [Outcomes.step] at hs
      split at hs <;> cases hs
      · exact h.heard (running ‹_› (by simp)) ‹_›
      · exact h.heard (running ‹_› (by simp)) ‹_›
  | silent =>
      simp only [Outcomes.step] at hs
      split at hs <;> cases hs
      · exact h.lookedInVain ‹_› ‹_›
      · exact h.heardNothing ‹_›
  | awaiterLost error =>
      simp only [Outcomes.step] at hs
      split at hs <;> cases hs
      · exact h.lost (running ‹_› (by simp)) error
      · exact h.lost (running ‹_› (by simp)) error
  | send =>
      simp only [Outcomes.step] at hs
      split at hs <;> cases hs
      exact h.send ‹_›
  | confirmed =>
      simp only [Outcomes.step] at hs
      split at hs <;> cases hs
      rename_i hplace
      exact h.moveTo .hearing (running hplace (by simp))
        (fun _ => h.live (Or.inr (Or.inr (Or.inl hplace)))) (by simp) (by simp) (by simp)
  | publishFailed error =>
      simp only [Outcomes.step] at hs
      split at hs <;> cases hs
      exact h.judgedError (running ‹_› (by simp)) (Fail.fabric_ne_refused _ error)
  | publishTimedOut =>
      simp only [Outcomes.step] at hs
      split at hs <;> cases hs
      exact h.judgedError (running ‹_› (by simp)) (fun refusal heq => by cases heq)
  | cut =>
      simp only [Outcomes.step] at hs
      split at hs <;> cases hs
      all_goals exact h.cut (running ‹_› (by simp))

end Steps

/-! ## The outcomes kept -/

theorem outcomes_kept {w : SessionWire} {command : ChildWrite} {now : ℤ} {s : Sys}
    (h : (machine w command now).Reachable s) : OutcomesKept w command now s :=
  (Machine.Reachable.invariant (P := Inv w command now) (inv_init w command now)
    (fun hp hs => hp.step hs) h).kept

def sampleSession : SessionWire where
  creationRejected _ := .error ⟨.data, 1, 1⟩
  commandRejected payload :=
    if payload = [] then .error ⟨.eof, 1, 0⟩ else .ok ⟨"job_terminal", "the job ended"⟩
  success _ := "accepted"
  rejection _ := "rejected"
  integrationEvt := "INTEGRATION_EVT"
  integrationCmd := "INTEGRATION_CMD"

def sampleCancel : ChildWrite := ⟨.cancel 1 2 3, rfl⟩

/-- The first attempt is cut, the rejection arrives before the second. -/
def lateRejection : List Event :=
  [.attempt, .subscribed [], .send, .confirmed, .arrive ⟨9, "accepted", []⟩, .cut,
    .arrive ⟨3, "rejected", [1]⟩, .attempt, .heard]

theorem outcomes_kept_lateRejection :
    ∃ s, (machine sampleSession sampleCancel 0).run lateRejection = some s ∧
      s.place = .done (.err (.refused
        (.refused ⟨.cancel, .jobTerminal, "the job ended", none⟩))) ∧
      OutcomesKept sampleSession sampleCancel 0 s :=
  ⟨_, rfl, rfl, outcomes_kept (Machine.reachable_of_run (M := machine sampleSession
    sampleCancel 0) lateRejection rfl)⟩

/-! ## Outcomes that do not end the write -/

/-- No resend after an outcome that the subscription received. -/
def EndedByReceived (command : ChildWrite) (s : Sys) : Prop :=
  Always (fun pre obs => ∀ envelope, obs = .published envelope → Published pre →
    ∀ event, .received event ∈ pre → event.correlation ≠ command.commandId) s.log

/-- A rejection that cannot be read is followed by a resend. -/
def unreadableRejection : List Event :=
  [.attempt, .subscribed [], .send, .confirmed, .arrive ⟨3, "rejected", []⟩, .heard, .attempt,
    .silent, .send]

/-- An outcome arrives between the look and the resend. -/
def afterTheLook : List Event :=
  [.attempt, .subscribed [], .send, .confirmed, .silent, .attempt, .silent,
    .arrive ⟨3, "accepted", []⟩, .send]

/-- An outcome is lost with the subscription that received it. -/
def lostWithSubscription : List Event :=
  [.attempt, .subscribed [], .send, .cut, .arrive ⟨3, "accepted", []⟩, .attempt,
    .awaiterLost (.other "gone"), .attempt, .subscribed [], .silent, .send]

/-- The command as these runs publish it. -/
def sampleEnvelope : Envelope := ⟨3, 0, .cancel 1 2 3⟩

theorem not_endedByReceived {s : Sys} (pre : List Obs) (event : CorrelatedMatch)
    (hlog : s.log = .subscribed [] :: .published sampleEnvelope :: pre ++
      [.published sampleEnvelope])
    (hevent : .received event ∈ pre) (hcorrelation : event.correlation = 3) :
    ¬ EndedByReceived sampleCancel s := by
  intro h
  rw [EndedByReceived, hlog] at h
  refine h.last sampleEnvelope rfl ⟨sampleEnvelope, by simp⟩ event ?_ hcorrelation
  exact List.mem_cons_of_mem _ (List.mem_cons_of_mem _ hevent)

theorem resend_after_received :
    (∃ s, (machine sampleSession sampleCancel 0).run unreadableRejection = some s ∧
      ¬ EndedByReceived sampleCancel s) ∧
    (∃ s, (machine sampleSession sampleCancel 0).run afterTheLook = some s ∧
      ¬ EndedByReceived sampleCancel s) ∧
    ∃ s, (machine sampleSession sampleCancel 0).run lostWithSubscription = some s ∧
      ¬ EndedByReceived sampleCancel s := by
  refine ⟨?_, ?_, ?_⟩
  · exact ⟨_, rfl, not_endedByReceived
      [.received ⟨3, "rejected", []⟩, .heard ⟨3, "rejected", []⟩,
        .retried (unreadableJson "the outcome of a command" ⟨.eof, 1, 0⟩), .silent]
      ⟨3, "rejected", []⟩ rfl (by simp) rfl⟩
  · exact ⟨_, rfl, not_endedByReceived
      [.silent, .retried (.waitFired "no outcome event came within the wait"), .silent,
        .received ⟨3, "accepted", []⟩]
      ⟨3, "accepted", []⟩ rfl (by simp) rfl⟩
  · exact ⟨_, rfl, not_endedByReceived
      [.retried (.waitFired "no outcome within the outcome wait"),
        .received ⟨3, "accepted", []⟩, .lost,
        .retried (Fail.lost "the outcome events: gone"), .subscribed [], .silent]
      ⟨3, "accepted", []⟩ rfl (by simp) rfl⟩

end RunnerKit.RunnerTransport.Outcomes
