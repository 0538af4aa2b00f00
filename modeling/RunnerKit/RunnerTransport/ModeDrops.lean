import RunnerKit.RunnerTransport.ModeCalls

/-!
# Calls of the mode feed that are dropped

A call that is dropped at the direct read has done nothing that lasts, and one that
is dropped at the `select` has left the feed as it found it. So the runs with drops
reach what the runs without reach, as long as no call is dropped while the end of
the watch is being classified.
-/

namespace RunnerKit.RunnerTransport.Mode

open RunnerKit.Jobs RunnerKit.Lib

/-- The error with which an end of the watch ends the feed. -/
def Outcome.error (w : ModeWire) (missing : Option FabricError) : Outcome → Error
  | .done => Fail.lost endedText
  | .fabric (.decode _) =>
      Fail.lost "the dispatch mode watch ended on an entry that is not JSON"
  | .fabric error => w.bucketError (missing.getD error)
  | .sinkClosed => Fail.lost "the mode feed was dropped"

/-- The condition on a step: no call is dropped while the end of the watch is being
classified. -/
def Sys.classifies (s : Sys) : Event → Bool
  | .drop =>
      match s.call with
      | some (.classifying _) => false
      | _ => true
  | _ => true

def Sys.Classifies (s : Sys) (e : Event) : Prop := s.classifies e = true

def isDrop : Event → Bool
  | .drop => true
  | _ => false

/-- The states of the runs in which no call is dropped. -/
def Undropped (w : ModeWire) (past : List Entry) : Sys → Prop :=
  (machine w past).Reach fun _ e => isDrop e = false

section Steps

variable {w : ModeWire} {past : List Entry} {s s' : Sys}

/-! ## The end of the feed -/

/-- The end of the watch is the end of the feed. -/
def Kept (w : ModeWire) (s : Sys) : Prop :=
  ∀ outcome, s.watch = .over outcome → ∃ missing,
    s.feed.ended = some (outcome.error w missing)

structure EndInv (w : ModeWire) (s : Sys) : Prop where
  sound : s.spoilt = false
  kept : (∀ error, s.call ≠ some (.classifying error)) → Kept w s
  classifying : ∀ error, s.call = some (.classifying error) →
    s.watch = .over (.fabric error) ∧ ∀ subject, error ≠ .decode subject
  given : EndsWith (s.given.map Item.event) s.feed.ended
  early : s.feed.pending ≠ [] → ∀ event ∈ s.given.map Item.event, Single event

/-- What the head of the loop needs, and keeps. -/
structure Settled (w : ModeWire) (s : Sys) : Prop where
  sound : s.spoilt = false
  kept : Kept w s
  given : EndsWith (s.given.map Item.event) s.feed.ended
  early : s.feed.pending ≠ [] → ∀ event ∈ s.given.map Item.event, Single event
  single : ∀ item ∈ s.feed.pending, Single item.event

theorem map_give (s : Sys) (item : Item) :
    (s.give item).given.map Item.event = s.given.map Item.event ++ [item.event] := by
  simp [Sys.give]

/-- The error that ended the feed is given. -/
theorem Settled.giveError (h : Settled w s) {error : Error} (position : ℕ)
    (hended : s.feed.ended = some error) (hpending : s.feed.pending = []) :
    EndInv w (s.give ⟨.error error, position⟩) := by
  refine ⟨h.sound, fun _ => h.kept, ?_, ?_, ?_⟩
  · intro e hcall
    cases hcall
  · rw [map_give]
    exact h.given.again hended
  · intro hne
    exact absurd hpending hne

theorem Settled.loop (h : Settled w s) : EndInv w s.loop := by
  unfold Sys.loop
  split
  · rename_i item rest hpending
    have hsingle : ∀ event ∈ s.given.map Item.event ++ [item.event], Single event := by
      intro event hin
      rcases List.mem_append.mp hin with hin | hin
      · exact h.early (by rw [hpending]; simp) event hin
      · obtain rfl := List.mem_singleton.mp hin
        exact h.single item (by rw [hpending]; simp)
    refine ⟨h.sound, fun _ => h.kept, ?_, ?_, ?_⟩
    · intro e hcall
      cases hcall
    · rw [map_give]
      exact .of_single hsingle
    · rw [map_give]
      exact fun _ => hsingle
  · rename_i hpending
    split
    · exact h.giveError _ ‹_› hpending
    · split
      · exact ⟨h.sound, fun _ => h.kept, by simp, h.given, h.early⟩
      · exact ⟨h.sound, fun _ => h.kept, by simp, h.given, h.early⟩

/-- Before the watch has ended the feed has not, and the other way round. -/
theorem EndInv.running (h : EndInv w s) (hcall : CallInv s) {await : Await}
    (heq : s.call = some await) (hawait : ∀ error, await ≠ .classifying error) :
    (∀ outcome, s.watch ≠ .over outcome) ∧
      ∀ event ∈ s.given.map Item.event, Single event := by
  have hended := hcall.unended await heq
  constructor
  · intro outcome hover
    obtain ⟨missing, hsome⟩ := h.kept (fun error hc => by
      rw [heq] at hc
      exact hawait error (Option.some.inj hc)) outcome hover
    rw [hended] at hsome
    cases hsome
  · have hgiven := h.given
    rw [hended] at hgiven
    exact hgiven.single

theorem Settled.of_single (hsound : s.spoilt = false) (hkept : Kept w s)
    (hgiven : ∀ event ∈ s.given.map Item.event, Single event)
    (hpending : ∀ item ∈ s.feed.pending, Single item.event) : Settled w s :=
  ⟨hsound, hkept, .of_single hgiven, fun _ => hgiven, hpending⟩

theorem EndInv.watchEnded (h : EndInv w s) (hcall : CallInv s) {await : Await}
    (heq : s.call = some await) (hawait : ∀ error, await ≠ .classifying error)
    (outcome : Outcome) : EndInv w (s.watchEnded outcome) := by
  obtain ⟨-, hgiven⟩ := h.running hcall heq hawait
  have hpending := ((hcall.loopable heq).drained outcome).single
  have hsingle : ∀ item ∈ (s.drained outcome).feed.pending, Single item.event :=
    fun item hin => hpending item (List.mem_append_right _ hin)
  -- the watch is over, and its error ends the feed
  have hends : Settled w ((s.drained outcome).endWith (outcome.error w none)) := by
    refine .of_single h.sound ?_ hgiven hsingle
    intro other hover
    cases hover
    exact ⟨none, rfl⟩
  cases outcome with
  | done => exact hends.loop
  | sinkClosed => exact hends.loop
  | fabric error =>
      unfold Sys.watchEnded
      dsimp only
      split
      · rename_i subject
        refine Settled.loop (.of_single h.sound ?_ hgiven ?_)
        · intro other hover
          cases hover
          exact ⟨none, rfl⟩
        · have hpushed := ((hcall.loopable heq).drained (.fabric (.decode subject))).pushBack
            (Fail.unreadablePayload subject) rfl
          exact fun item hin => hpushed.single item (List.mem_append_right _ hin)
      · rename_i hdecode
        refine ⟨h.sound, ?_, ?_, .of_single hgiven, fun _ => hgiven⟩
        · intro hnot
          exact absurd rfl (hnot error)
        · intro e he
          cases he
          exact ⟨rfl, hdecode⟩

theorem Outcome.error_fabric {error : FabricError} (hdecode : ∀ subject, error ≠ .decode subject)
    (missing : Option FabricError) :
    Outcome.error w missing (.fabric error) = w.bucketError (missing.getD error) := by
  cases error with
  | decode subject => exact absurd rfl (hdecode subject)
  | _ => rfl

theorem EndInv.frame (h : EndInv w s) (hspoilt : s'.spoilt = s.spoilt)
    (hwatch : ∀ outcome, s'.watch = .over outcome ↔ s.watch = .over outcome)
    (hfeed : s'.feed = s.feed) (hcall : s'.call = s.call) (hgiven : s'.given = s.given) :
    EndInv w s' := by
  constructor
  · rw [hspoilt]
    exact h.sound
  · rw [hcall]
    intro hnot outcome hover
    rw [hfeed]
    exact h.kept hnot outcome ((hwatch outcome).mp hover)
  · rw [hcall]
    intro error hc
    exact ⟨(hwatch _).mpr (h.classifying error hc).1, (h.classifying error hc).2⟩
  · rw [hgiven, hfeed]
    exact h.given
  · rw [hgiven, hfeed]
    exact h.early

theorem EndInv.step (h : EndInv w s) (hcall : CallInv s) {e : Event}
    (hok : s.Classifies e) (hs : step w s e = some s') : EndInv w s' := by
  cases e with
  | write entry =>
      cases hs
      exact h.frame rfl (fun _ => Iff.rfl) rfl rfl rfl
  | created marker =>
      simp only [Mode.step] at hs
      split at hs <;> cases hs
      rename_i hwatch
      exact h.frame rfl (fun _ => by simp [Sys.create, hwatch]) rfl rfl rfl
  | deliver =>
      simp only [Mode.step] at hs
      split at hs
      · rename_i hwatch
        split at hs
        · split at hs <;> cases hs
          exact h.frame rfl (fun _ => by simp [hwatch]) rfl rfl rfl
        · cases hs
      · cases hs
  | next =>
      simp only [Mode.step] at hs
      split at hs
      · rename_i hnone
        cases hs
        have hsettled : Settled w s :=
          ⟨h.sound, h.kept (by rw [hnone]; simp), h.given, h.early,
            fun item hin => hcall.single item (List.mem_append_right _ hin)⟩
        unfold Sys.next
        split
        · rename_i error hkept
          obtain ⟨hended, hpending⟩ := hcall.kept error hkept
          exact hsettled.giveError _ hended hpending
        · exact hsettled.loop
      · cases hs
  | pollPending =>
      simp only [Mode.step] at hs
      split at hs
      · cases hs
      · rename_i hstarting hover
        cases hs
        exact ⟨h.sound, fun _ outcome heq => absurd heq (hover outcome), by simp, h.given, h.early⟩
      · cases hs
  | watchReady outcome =>
      simp only [Mode.step] at hs
      split at hs <;> cases hs
      · exact h.watchEnded hcall ‹_› (by simp) outcome
      · exact h.watchEnded hcall ‹_› (by simp) outcome
  | pollOver =>
      simp only [Mode.step] at hs
      split at hs <;> cases hs
      · exact absurd ‹_› ((h.running hcall ‹_› (by simp)).1 _)
      · exact absurd ‹_› ((h.running hcall ‹_› (by simp)).1 _)
  | read =>
      simp only [Mode.step] at hs
      split at hs
      · rename_i hreading
        split at hs <;> cases hs
        obtain ⟨hover, hgiven⟩ := h.running hcall hreading (by simp)
        have hpushed := (hcall.loopable hreading).push ⟨w.item s.latest, s.here⟩ s.receiver
          (fun _ hin => hin) (single_item w _) true
        exact Settled.loop (.of_single h.sound (fun outcome heq => absurd heq (hover outcome))
          hgiven fun item hin => hpushed.single item (List.mem_append_right _ hin))
      · cases hs
  | readFailed error =>
      simp only [Mode.step] at hs
      split at hs
      · rename_i hreading
        obtain ⟨hover, hgiven⟩ := h.running hcall hreading (by simp)
        split at hs <;> cases hs
        · rename_i subject
          have hpushed := (hcall.loopable hreading).push
            ⟨.error (Fail.unreadablePayload subject), s.here⟩ s.receiver (fun _ hin => hin)
            (fun e he => by cases he; rfl) true
          exact Settled.loop (.of_single h.sound (fun outcome heq => absurd heq (hover outcome))
            hgiven fun item hin => hpushed.single item (List.mem_append_right _ hin))
        · exact Settled.loop (.of_single h.sound (fun outcome heq => absurd heq (hover outcome))
            hgiven fun item hin => hcall.single item (List.mem_append_right _ hin))
      · cases hs
  | recv =>
      simp only [Mode.step] at hs
      split at hs <;> cases hs
      rename_i item rest hselecting hreceiver
      obtain ⟨hover, hgiven⟩ := h.running hcall hselecting (by simp)
      have hpushed := (hcall.loopable hselecting).push item []
        (fun _ hin => by cases hin) (hcall.single item (by rw [hreceiver]; simp)) s.feed.started
      exact Settled.loop (.of_single h.sound (fun outcome heq => absurd heq (hover outcome))
        hgiven fun item hin => hpushed.single item (List.mem_append_right _ hin))
  | closed =>
      simp only [Mode.step] at hs
      split at hs <;> cases hs
      exact absurd ‹_› ((h.running hcall ‹_› (by simp)).1 _)
  | reopened missing =>
      simp only [Mode.step] at hs
      split at hs <;> cases hs
      rename_i error hclassifying
      obtain ⟨hwatch, hdecode⟩ := h.classifying error hclassifying
      have hended := hcall.unended _ hclassifying
      have hgiven : ∀ event ∈ s.given.map Item.event, Single event := by
        have hg := h.given
        rw [hended] at hg
        exact hg.single
      refine Settled.loop (.of_single h.sound ?_ hgiven fun item hin =>
        hcall.single item (List.mem_append_right _ hin))
      intro outcome hover
      rw [show s.watch = .over outcome from hover] at hwatch
      cases hwatch
      exact ⟨missing, by rw [Outcome.error_fabric hdecode]; rfl⟩
  | drop =>
      simp only [Mode.step] at hs
      split at hs
      · cases hs
      · cases hs
      · rename_i await hstarting hawait
        cases hs
        have hnot : ∀ error, s.call ≠ some (.classifying error) := by
          intro error heq
          simp [Sys.Classifies, Sys.classifies, heq] at hok
        exact ⟨h.sound, fun _ => h.kept hnot, by simp, h.given, h.early⟩

theorem endInv (h : (machine w past).Reach Sys.Classifies s) : EndInv w s := by
  apply Machine.Reach.invariant (P := EndInv w) ?_
    (fun hr hp hc hs => hp.step (callInv hr) hc hs) h
  refine ⟨rfl, fun _ outcome hover => (by cases hover), ?_, .nil, fun _ => (by simp [machine, Sys.init])⟩
  intro error hcall
  cases hcall

/-! ## A run without drops -/

/-- Where the call is in a run without drops, while it is at the second place in
the run with drops. -/
inductive Lags : Option Await → Option Await → Prop where
  | idle : Lags none none
  | starting : Lags none (some .starting)
  | reading : Lags none (some .reading)
  | left : Lags (some .selecting) none
  | selecting : Lags (some .selecting) (some .selecting)
  | classifying (error : FabricError) :
      Lags (some (.classifying error)) (some (.classifying error))

/-- A run without drops reaches the state, a call that has done nothing yet
apart. -/
def Sim (w : ModeWire) (past : List Entry) (s : Sys) : Prop :=
  ∃ call, Undropped w past { s with call := call } ∧ Lags call s.call

theorem Undropped.step (h : Undropped w past s) {e : Event}
    (hs : Mode.step w s e = some s') (hdrop : isDrop e = false) : Undropped w past s' :=
  Machine.Reach.step h hdrop hs

theorem Undropped.sim (h : Undropped w past s) (hstarting : s.call ≠ some .starting)
    (hreading : s.call ≠ some .reading) : Sim w past s := by
  refine ⟨s.call, h, ?_⟩
  cases hcall : s.call with
  | none => exact .idle
  | some await =>
      cases await with
      | starting => exact absurd hcall hstarting
      | reading => exact absurd hcall hreading
      | selecting => exact .selecting
      | classifying error => exact .classifying error

/-- After the direct read, or after the end, a call that goes on is at the
`select`. -/
theorem loop_call (h : s.feed.ended ≠ none ∨ s.feed.started = true) :
    s.loop.call ≠ some .starting ∧ s.loop.call ≠ some .reading := by
  unfold Sys.loop
  split
  · exact ⟨by simp [Sys.give], by simp [Sys.give]⟩
  · split
    · exact ⟨by simp [Sys.give], by simp [Sys.give]⟩
    · rename_i hended
      split
      · exact ⟨by simp, by simp⟩
      · rename_i hstarted
        rcases h with h | h
        · exact absurd hended h
        · exact absurd h hstarted

theorem watchEnded_call (outcome : Outcome) :
    (s.watchEnded outcome).call ≠ some .starting ∧
      (s.watchEnded outcome).call ≠ some .reading := by
  cases outcome with
  | done => exact loop_call (Or.inl (by simp [Sys.endWith]))
  | sinkClosed => exact loop_call (Or.inl (by simp [Sys.endWith]))
  | fabric error =>
      unfold Sys.watchEnded
      dsimp only
      split
      · exact loop_call (Or.inl (by simp [Sys.endWith]))
      · exact ⟨by simp, by simp⟩

/-- A call that begins with nothing to give goes to the place where it was. -/
theorem next_eq (h : CallInv s) {await : Await} (hcall : s.call = some await)
    (hawait : ∀ error, await ≠ .classifying error) :
    Sys.next { s with call := none } =
      { s with call := some (if s.feed.started then .selecting else .starting) } := by
  have hkept := (h.loopable hcall).kept
  have hpending := h.empty await hcall hawait
  have hended := h.unended await hcall
  simp only [Sys.next, hkept, Sys.loop, hpending, hended]
  split <;> rfl

/-- A call that goes to the poll has changed nothing. -/
theorem next_starting (h : s.next.call = some .starting) :
    s.next = { s with call := some .starting } := by
  unfold Sys.next at h ⊢
  split at h
  · cases h
  · unfold Sys.loop at h ⊢
    split at h
    · cases h
    · split at h
      · cases h
      · split at h
        · cases h
        · rename_i hstarted
          rw [if_neg hstarted]

theorem next_ne_reading (s : Sys) : s.next.call ≠ some .reading := by
  unfold Sys.next Sys.loop Sys.give
  split
  · simp
  · split
    · simp
    · split
      · simp
      · split <;> simp

/-- The call of a run without drops catches up with a call at the poll. -/
theorem Sim.starting (h : Sim w past s) (hinv : CallInv s) (hcall : s.call = some .starting) :
    Undropped w past s := by
  obtain ⟨call, hreach, hlags⟩ := h
  rw [hcall] at hlags
  cases hlags
  have hnext := next_eq hinv hcall (by simp)
  rw [hinv.starting hcall] at hnext
  have hsame : ({ s with call := some .starting } : Sys) = s := by rw [← hcall]
  refine Machine.Reach.step hreach (e := .next) rfl ?_
  show some (Sys.next { s with call := none }) = some s
  rw [hnext]
  exact congrArg some hsame

theorem Sim.reading (h : Sim w past s) (hinv : CallInv s) (hcall : s.call = some .reading) :
    Undropped w past s := by
  obtain ⟨call, hreach, hlags⟩ := h
  rw [hcall] at hlags
  cases hlags
  obtain ⟨hstarted, hover⟩ := hinv.reading hcall
  have hnext := next_eq hinv hcall (by simp)
  rw [hstarted] at hnext
  have hstart : Undropped w past { s with call := some .starting } := by
    refine Machine.Reach.step hreach (e := .next) rfl ?_
    show some (Sys.next { s with call := none }) = _
    rw [hnext]
    rfl
  have hsame : ({ s with call := some .reading } : Sys) = s := by rw [← hcall]
  refine Machine.Reach.step hstart (e := .pollPending) rfl ?_
  show step w { s with call := some .starting } .pollPending = some s
  rw [← hsame]
  simp only [Mode.step]

theorem Sim.selecting (h : Sim w past s) (hcall : s.call = some .selecting) :
    Undropped w past s := by
  obtain ⟨call, hreach, hlags⟩ := h
  rw [hcall] at hlags
  cases hlags
  have hsame : ({ s with call := some .selecting } : Sys) = s := by rw [← hcall]
  rwa [hsame] at hreach

/-- The steps of the environment do not look at the call. -/
theorem Sim.environment (h : Sim w past s) {e : Event} (hdrop : isDrop e = false)
    (hstep : ∀ call, step w { s with call := call } e = some { s' with call := call })
    (hcall : s'.call = s.call) : Sim w past s' := by
  obtain ⟨call, hreach, hlags⟩ := h
  exact ⟨call, Undropped.step hreach (hstep call) hdrop, by rwa [hcall]⟩

theorem Sim.step (h : Sim w past s) (hcall : CallInv s) (hend : EndInv w s) {e : Event}
    (hok : s.Classifies e) (hs : step w s e = some s') : Sim w past s' := by
  cases e with
  | write entry =>
      cases hs
      exact h.environment (e := .write entry) rfl (fun _ => rfl) rfl
  | created marker =>
      simp only [Mode.step] at hs
      split at hs <;> cases hs
      rename_i hwatch
      exact h.environment (e := .created marker) rfl
        (fun _ => by simp only [Mode.step, hwatch]; rfl) rfl
  | deliver =>
      simp only [Mode.step] at hs
      split at hs
      · rename_i hwatch
        split at hs
        · rename_i hget
          split at hs <;> cases hs
          rename_i hjson
          exact h.environment (e := .deliver) rfl
            (fun _ => by simp only [Mode.step, hwatch, hget, hjson, if_true]) rfl
        · cases hs
      · cases hs
  | next =>
      have hstep := hs
      simp only [Mode.step] at hs
      split at hs <;> cases hs
      rename_i hnone
      obtain ⟨call, hreach, hlags⟩ := h
      rw [hnone] at hlags
      cases hlags with
      | idle =>
          have hsame : ({ s with call := none } : Sys) = s := by rw [← hnone]
          rw [hsame] at hreach
          have hreach' : Undropped w past s.next := Undropped.step hreach hstep rfl
          by_cases hstarting : s.next.call = some .starting
          · -- nothing but the call has changed
            have hback : ({ s.next with call := none } : Sys) = s := by
              rw [next_starting hstarting]
              exact hsame
            refine ⟨none, by rwa [hback], ?_⟩
            rw [hstarting]
            exact .starting
          · exact hreach'.sim hstarting (next_ne_reading s)
      | left =>
          have hinv := callInv hreach
          have heq := next_eq hinv (show _ = some Await.selecting from rfl) (by simp)
          rw [if_pos (hinv.selecting rfl)] at heq
          have hsame : ({ s with call := none } : Sys) = s := by rw [← hnone]
          have hnext : s.next = { s with call := some .selecting } := by
            rw [← hsame]
            exact heq
          refine ⟨some .selecting, ?_, ?_⟩
          · rw [hnext]
            exact hreach
          · rw [hnext]
            exact .selecting
  | pollPending =>
      simp only [Mode.step] at hs
      split at hs
      · cases hs
      · rename_i hstarting hover
        cases hs
        obtain ⟨call, hreach, hlags⟩ := h
        rw [hstarting] at hlags
        cases hlags
        exact ⟨none, hreach, .reading⟩
      · cases hs
  | watchReady outcome =>
      have hstep := hs
      simp only [Mode.step] at hs
      split at hs <;> cases hs
      · obtain ⟨h1, h2⟩ := watchEnded_call (s := s) outcome
        exact (Undropped.step (h.starting hcall ‹_›) hstep rfl).sim h1 h2
      · obtain ⟨h1, h2⟩ := watchEnded_call (s := s) outcome
        exact (Undropped.step (h.selecting ‹_›) hstep rfl).sim h1 h2
  | pollOver =>
      simp only [Mode.step] at hs
      split at hs <;> cases hs
      · exact absurd ‹_› ((hend.running hcall ‹_› (by simp)).1 _)
      · exact absurd ‹_› ((hend.running hcall ‹_› (by simp)).1 _)
  | read =>
      have hstep := hs
      simp only [Mode.step] at hs
      split at hs
      · split at hs <;> cases hs
        obtain ⟨h1, h2⟩ := loop_call (s := { s with
          feed := { s.feed with started := true }.push ⟨w.item s.latest, s.here⟩ })
          (Or.inr (push_started _ _))
        exact (Undropped.step (h.reading hcall ‹_›) hstep rfl).sim h1 h2
      · cases hs
  | readFailed error =>
      have hstep := hs
      simp only [Mode.step] at hs
      split at hs
      · rename_i hreading
        have hreach := h.reading hcall hreading
        split at hs <;> cases hs
        · rename_i subject
          obtain ⟨h1, h2⟩ := loop_call (s := { s with
            feed := { s.feed with started := true }.push
              ⟨.error (Fail.unreadablePayload subject), s.here⟩ })
            (Or.inr (push_started _ _))
          exact (Undropped.step hreach hstep rfl).sim h1 h2
        · obtain ⟨h1, h2⟩ := loop_call (s := s.endWith (w.bucketError error))
            (Or.inl (by simp [Sys.endWith]))
          exact (Undropped.step hreach hstep rfl).sim h1 h2
      · cases hs
  | recv =>
      have hstep := hs
      simp only [Mode.step] at hs
      split at hs <;> cases hs
      rename_i item rest hselecting hreceiver
      obtain ⟨h1, h2⟩ := loop_call (s := { s with
        receiver := rest, feed := s.feed.push item })
        (Or.inr ((push_started _ _).trans (hcall.selecting hselecting)))
      exact (Undropped.step (h.selecting hselecting) hstep rfl).sim h1 h2
  | closed =>
      simp only [Mode.step] at hs
      split at hs <;> cases hs
      exact absurd ‹_› ((hend.running hcall ‹_› (by simp)).1 _)
  | reopened missing =>
      have hstep := hs
      simp only [Mode.step] at hs
      split at hs <;> cases hs
      rename_i error hclassifying
      obtain ⟨call, hreach, hlags⟩ := h
      rw [hclassifying] at hlags
      cases hlags
      have hsame : ({ s with call := some (.classifying error) } : Sys) = s := by
        rw [← hclassifying]
      rw [hsame] at hreach
      obtain ⟨h1, h2⟩ := loop_call (s := s.endWith (w.bucketError (missing.getD error)))
        (Or.inl (by simp [Sys.endWith]))
      exact (Undropped.step hreach hstep rfl).sim h1 h2
  | drop =>
      simp only [Mode.step] at hs
      split at hs
      · cases hs
      · cases hs
      · rename_i await hstarting hawait
        cases hs
        obtain ⟨call, hreach, hlags⟩ := h
        rw [hawait] at hlags
        cases hlags with
        | starting => exact absurd rfl hstarting
        | reading => exact ⟨none, hreach, .idle⟩
        | selecting => exact ⟨some .selecting, hreach, .left⟩
        | classifying error =>
            simp [Sys.Classifies, Sys.classifies, hawait] at hok

theorem sim (h : (machine w past).Reach Sys.Classifies s) : Sim w past s := by
  apply Machine.Reach.invariant (P := Sim w past) ?_
    (fun hr hp hc hs => hp.step (callInv hr) (endInv hr) hc hs) h
  exact ⟨none, .init, .idle⟩

end Steps

/-! ## Drops change nothing -/

structure Lasting (w : ModeWire) (past : List Entry) (s : Sys) : Prop where
  /-- A run without drops gives the same, of the same watch. -/
  undropped : ∃ call, Undropped w past { s with call := call }
  /-- No watch is polled once it has completed. -/
  sound : s.spoilt = false
  /-- The end of the watch is not lost. -/
  kept : (∀ error, s.call ≠ some (.classifying error)) → Kept w s
  /-- Nothing is given after the error that ends the feed but that error. -/
  given : EndsWith (s.given.map Item.event) s.feed.ended
  /-- It is given by every call, once nothing else waits. -/
  again : ∀ error, s.feed.ended = some error → s.feed.pending = [] → s.call = none →
    step w s .next = some (s.give ⟨.error error, s.here⟩)

theorem lasting {w : ModeWire} {past : List Entry} {s : Sys}
    (h : (machine w past).Reach Sys.Classifies s) : Lasting w past s where
  undropped := by
    obtain ⟨call, hreach, -⟩ := sim h
    exact ⟨call, hreach⟩
  sound := (endInv h).sound
  kept := (endInv h).kept
  given := (endInv h).given
  again := by
    intro error hended hpending hnone
    have hnext : s.next = s.give ⟨.error error, s.here⟩ := by
      unfold Sys.next
      split
      · rename_i e hkept
        rw [((callInv h).kept e hkept).1] at hended
        cases hended
        rfl
      · simp only [Sys.loop, hpending, hended]
    simp only [Mode.step, hnone, hnext]

end RunnerKit.RunnerTransport.Mode
