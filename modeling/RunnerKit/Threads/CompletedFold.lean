import RunnerKit.Threads.Response

/-!
# A completed response is the fold of what was sent

The draft is the fold of the deltas that the lane has taken, as long as no delta of the sink
is refused in a way that a completion goes past and no call is dropped with the draft on one
side of the lane and the delta on the other. A response is over once it is done, or once
what is kept stops every call.
-/

namespace RunnerKit.Threads.Response

open Lib
open Jobs (Uuid)

variable {D B U E : Type}

/-! ## What the log says -/

/-- The deltas that the lane has taken, in order. -/
def takenOf (log : List (Obs B U E)) : List (ResponseDelta B U E) :=
  log.filterMap fun
    | .taken delta => some delta
    | _ => none

/-- A completion or a discard has returned. -/
def Obs.ends : Obs B U E → Bool
  | .completed _ (.ok ()) | .discarded (.ok ()) => true
  | _ => false

/-- A completed response is the fold of what was taken, and nothing is given to the lane
behind the end of a response. -/
def FoldRule (lib : Messages D B U E) (pre : List (Obs B U E)) : Obs B U E → Prop
  | .completed response (.ok ()) =>
      ∃ draft, foldFrom lib lib.fresh (takenOf pre) = .ok draft ∧
        lib.intoResponse draft = some response
  | .given _ => ∀ obs ∈ pre, obs.ends = false
  | _ => True

/-! ## The condition -/

/-- A refusal by the lane is one that stops completions, unless it answers a completion; a
discard is called on a response that has sent, is done or is stopped, and finds the lane
closed only if nothing is kept yet; a call is dropped only while the draft holds what the
lane has taken. -/
def sound (s : Shared D B U E) : Event B U E → Bool
  | .discard => s.sent || s.done || s.failure.any stopsCompletion
  | .answer (.error error) =>
      match s.holder with
      | .sink _ => stopsCompletion error
      | .discard _ =>
          match error with
          | .streamClosed => s.failure.isNone
          | _ => true
      | _ => true
  | .drop taken =>
      match s.holder with
      | .sink _ => taken
      | _ => !taken
  | _ => true

variable {lib : Messages D B U E} {s s' : Shared D B U E}

section Log

variable {log more : List (Obs B U E)} {delta : ResponseDelta B U E}

@[simp] theorem takenOf_append : takenOf (log ++ more) = takenOf log ++ takenOf more :=
  List.filterMap_append

@[simp] theorem takenOf_taken : takenOf [Obs.taken delta] = [delta] := rfl

@[simp] theorem takenOf_given : takenOf [Obs.given delta] = [] := rfl

@[simp] theorem takenOf_refused {error : Error} : takenOf [Obs.refused delta error] = [] := rfl

@[simp] theorem takenOf_completed {response : ModelResponse B U E}
    {result : Except Error Unit} : takenOf [Obs.completed response result] = [] := rfl

@[simp] theorem takenOf_discarded {result : Except Error Unit} :
    takenOf [Obs.discarded (B := B) (U := U) (E := E) result] = [] := rfl

end Log

theorem foldFrom_snoc {draft : D} {deltas : List (ResponseDelta B U E)}
    {delta : ResponseDelta B U E} :
    foldFrom lib draft (deltas ++ [delta]) = (foldFrom lib draft deltas) >>= fun draft =>
      lib.apply draft delta := by
  simp [foldFrom, List.foldlM_append]

/-! ## What the runs keep -/

namespace Shared

/-- The draft is the fold of what the lane has taken. -/
def Right (lib : Messages D B U E) (s : Shared D B U E) : Prop :=
  foldFrom lib lib.fresh (takenOf s.log) = .ok s.draft

/-- No completion begins any more. -/
def Stopped (s : Shared D B U E) : Prop :=
  s.done = true ∨ s.failure.any stopsCompletion = true

/-- Nothing is given to the lane any more. -/
def Over (s : Shared D B U E) : Prop :=
  s.done = true ∨ s.failure = some .streamBroken ∨ s.failure = some .streamClosed ∨
    s.sent = false ∧ s.failure.any stopsCompletion = true

/-- The draft beside what the lane has taken, by the call that holds the state. -/
def Held (lib : Messages D B U E) (s : Shared D B U E) : Prop :=
  match s.holder with
  | .free => s.Right lib ∨ s.Stopped
  | .sink delta =>
      s.failure = none ∧ foldFrom lib lib.fresh (takenOf s.log ++ [delta]) = .ok s.draft
  | .complete response delta rest =>
      s.Right lib ∧ ∃ last, foldFrom lib s.draft (delta :: rest) = .ok last ∧
        lib.intoResponse last = some response
  | .discard _ => s.Right lib ∨ s.Stopped

structure Kept (lib : Messages D B U E) (s : Shared D B U E) : Prop where
  held : s.Held lib
  halted : ∀ obs ∈ s.log, obs.ends = true → s.Over ∧ s.holder = .free
  rule : Always (FoldRule lib) s.log

theorem Kept.new (draft : D) (hdraft : lib.fresh = draft) :
    (Shared.new draft : Shared D B U E).Kept lib := by
  refine ⟨Or.inl ?_, by simp [Shared.new], always_nil⟩
  simp [Right, Shared.new, takenOf, foldFrom, hdraft]
  rfl

/-- Before the response is over no call has ended it. -/
theorem Kept.unended (h : s.Kept lib) (hnot : ¬ (s.Over ∧ s.holder = .free)) :
    ∀ obs ∈ s.log, obs.ends = false := by
  intro obs hobs
  rw [← Bool.not_eq_true]
  exact fun hends => hnot (h.halted obs hobs hends)

/-- A step that keeps the rule and what the draft is beside the lane. -/
theorem Kept.frame (h : s.Kept lib) (more : List (Obs B U E)) (hlog : s'.log = s.log ++ more)
    (hheld : s'.Held lib) (hrule : Always (FoldRule lib) s'.log)
    (hover : s'.Over ∧ s'.holder = .free ∨
      ¬ (s.Over ∧ s.holder = .free) ∧ ∀ obs ∈ more, obs.ends = false) : s'.Kept lib := by
  refine ⟨hheld, fun obs hobs hends => ?_, hrule⟩
  rcases hover with hover | ⟨hnot, hmore⟩
  · exact hover
  · rw [hlog] at hobs
    rcases List.mem_append.mp hobs with hold | hnew
    · cases (h.unended hnot obs hold).symm.trans hends
    · cases (hmore obs hnew).symm.trans hends

/-- A call that gives a delta to the lane. -/
theorem give_kept {holder : Holder B U E} {delta : ResponseDelta B U E}
    (hunended : ∀ obs ∈ s.log, obs.ends = false) (hrule : Always (FoldRule lib) s.log)
    (hheld : (s.give holder delta).Held lib) : (s.give holder delta).Kept lib := by
  refine ⟨hheld, fun obs hobs hends => ?_, always_snoc.mpr ⟨hrule, hunended⟩⟩
  rcases List.mem_append.mp hobs with hold | hnew
  · cases (hunended obs hold).symm.trans hends
  · cases List.mem_singleton.mp hnew
    cases hends

/-- A call that returns with an error, or behind the end of the response. -/
theorem Kept.giveUp (h : s.Kept lib) (obs : Obs B U E) (hrule : FoldRule lib s.log obs)
    (htaken : takenOf [obs] = []) (hheld : s.Right lib ∨ s.Stopped)
    (hover : s.Over ∨ obs.ends = false) : (s.giveUp obs).Kept lib := by
  refine h.frame [obs] rfl ?_ (always_snoc.mpr ⟨h.rule, hrule⟩) ?_
  · rcases hheld with hright | hstopped
    · exact Or.inl (by simpa [Right, Shared.giveUp, htaken] using hright)
    · exact Or.inr hstopped
  · by_cases hs : s.Over
    · exact Or.inl ⟨hs, rfl⟩
    · exact Or.inr ⟨fun hboth => hs hboth.1, by simpa using hover.resolve_left hs⟩

theorem not_over_of_busy {holder : Holder B U E} (hholder : s.holder = holder)
    (hbusy : holder ≠ .free) : ¬ (s.Over ∧ s.holder = .free) := by
  rintro ⟨-, hfree⟩
  exact hbusy (hholder.symm.trans hfree)

theorem not_over_of_failure (hdone : s.done = false) (hfailure : s.failure = none) :
    ¬ s.Over := by
  rintro (h | h | h | ⟨-, h⟩) <;> simp_all

theorem Kept.deliver (h : s.Kept lib) (hfree : s.holder = .free) (delta : ResponseDelta B U E) :
    (s.deliver lib delta).Kept lib := by
  unfold Shared.deliver
  split
  · exact h
  · rename_i hopen
    have hdone : s.done = false := by
      rw [← Bool.not_eq_true]
      exact fun hd => hopen (Or.inl hd)
    have hfailure : s.failure = none := by
      cases hf : s.failure with
      | none => rfl
      | some error => exact absurd (Or.inr (by simp [hf])) hopen
    have hnot := not_over_of_failure hdone hfailure
    have hright : s.Right lib := by
      have hheld := h.held
      simp only [Held, hfree] at hheld
      rcases hheld with hright | hstopped | hstopped
      · exact hright
      · cases hdone.symm.trans hstopped
      · simp [hfailure] at hstopped
    split
    · exact h
    · -- a delta that the draft rejects leaves the draft
      refine h.frame [] (List.append_nil _).symm ?_ h.rule
        (Or.inr ⟨fun hboth => hnot hboth.1, by simp⟩)
      simp only [Held, Shared.keep, hfree]
      exact Or.inl hright
    · rename_i draft happly _
      refine give_kept (h.unended fun hboth => hnot hboth.1) h.rule ?_
      simp only [Held, Shared.give, takenOf_append, takenOf_given, List.append_nil]
      refine ⟨hfailure, ?_⟩
      rw [foldFrom_snoc, hright]
      exact happly

/-- The next delta of a completion, or its end. -/
theorem next_kept {response : ModelResponse B U E} {rest : List (ResponseDelta B U E)}
    (hunended : ∀ obs ∈ s.log, obs.ends = false) (hrule : Always (FoldRule lib) s.log)
    (hright : s.Right lib)
    (hlast : ∃ last, foldFrom lib s.draft rest = .ok last ∧ lib.intoResponse last = some response) :
    (s.next response rest).Kept lib := by
  obtain ⟨last, hfold, hresponse⟩ := hlast
  cases rest with
  | nil =>
      cases hfold
      exact ⟨Or.inr (Or.inl rfl), fun _ _ _ => ⟨Or.inl rfl, rfl⟩,
        always_snoc.mpr ⟨hrule, s.draft, hright, hresponse⟩⟩
  | cons delta rest =>
      refine give_kept hunended hrule ⟨?_, last, hfold, hresponse⟩
      simpa [Right, Shared.give] using hright

theorem Kept.discard (h : s.Kept lib) (hfree : s.holder = .free)
    (hsound : sound s (.discard : Event B U E) = true) : (s.discard lib).Kept lib := by
  have hheld : s.Right lib ∨ s.Stopped := by
    have hheld := h.held
    simpa only [Held, hfree] using hheld
  unfold Shared.discard
  split
  · rename_i hends
    refine h.giveUp _ trivial rfl hheld (Or.inl ?_)
    by_cases hdone : s.done = true
    · exact Or.inl hdone
    · have hsent : s.sent = false := hends.resolve_left hdone
      refine Or.inr (Or.inr (Or.inr ⟨hsent, ?_⟩))
      simpa [sound, hsent, hdone] using hsound
  · rename_i hopen
    split
    · rename_i hfailure
      exact h.giveUp _ trivial rfl hheld (Or.inl (Or.inr (Or.inl hfailure)))
    · rename_i hfailure
      exact h.giveUp _ trivial rfl hheld (Or.inl (Or.inr (Or.inr (Or.inl hfailure))))
    · rename_i hbroken hclosed
      have hnot : ¬ s.Over := by
        rintro (hd | hf | hf | ⟨hs, -⟩)
        · exact hopen (Or.inl hd)
        · exact hbroken hf
        · exact hclosed hf
        · exact hopen (Or.inr hs)
      refine give_kept (h.unended fun hboth => hnot hboth.1) h.rule ?_
      simpa [Held, Shared.give, Right, Stopped] using hheld

/-- An answer of the lane to the call that holds the state. -/
theorem Kept.answer (h : s.Kept lib) {result : Except Error Unit}
    (hsound : sound s (.answer result : Event B U E) = true)
    (hs : s.answer lib result = some s') : s'.Kept lib := by
  have hheld := h.held
  unfold Shared.answer at hs
  split at hs
  case h_1 => cases hs
  case h_2 delta hholder =>
    simp only [Held, hholder] at hheld
    cases hs
    refine h.frame [.taken delta] rfl (Or.inl ?_) (always_snoc.mpr ⟨h.rule, trivial⟩)
      (Or.inr ⟨not_over_of_busy hholder (by simp), by simp [Obs.ends]⟩)
    simpa [Right, observe] using hheld.2
  case h_3 delta error hholder =>
    simp only [Held, hholder] at hheld
    cases hs
    -- what is kept stops the completions: the draft is ahead of the lane
    have hstops : stopsCompletion error = true := by simpa [sound, hholder] using hsound
    refine h.frame [.refused delta error] rfl (Or.inr (Or.inr ?_))
      (always_snoc.mpr ⟨h.rule, trivial⟩)
      (Or.inr ⟨not_over_of_busy hholder (by simp), by simp [Obs.ends]⟩)
    simp [Shared.keep, observe, hheld.1, hstops]
  case h_4 response delta rest hholder =>
    simp only [Held, hholder] at hheld
    obtain ⟨hright, last, hfold, hresponse⟩ := hheld
    have hcons : foldFrom lib s.draft (delta :: rest) =
        lib.apply s.draft delta >>= fun draft => foldFrom lib draft rest := by
      simp [foldFrom, List.foldlM_cons]
    rw [hcons] at hfold
    obtain ⟨draft, happly, hrest⟩ := bind_ok hfold
    simp only [observe, happly] at hs
    cases hs
    refine next_kept ?_ (always_snoc.mpr ⟨h.rule, trivial⟩) ?_ ⟨last, hrest, hresponse⟩
    · intro obs hobs
      rcases List.mem_append.mp hobs with hold | hnew
      · exact h.unended (not_over_of_busy hholder (by simp)) obs hold
      · rw [List.mem_singleton.mp hnew]
        rfl
    · simp only [Right, takenOf_append, takenOf_taken]
      rw [foldFrom_snoc, hright]
      exact happly
  case h_5 response delta rest error hholder =>
    simp only [Held, hholder] at hheld
    cases hs
    refine h.frame [.refused delta error, .completed response (.error error)]
      (by simp [Shared.giveUp, Shared.keep, observe]) (Or.inl ?_) ?_
      (Or.inr ⟨not_over_of_busy hholder (by simp), by simp [Obs.ends]⟩)
    · simpa [Right, Shared.giveUp, Shared.keep, observe, takenOf] using hheld.1
    · exact always_snoc.mpr ⟨always_snoc.mpr ⟨h.rule, trivial⟩, trivial⟩
  case h_6 delta hholder =>
    cases hs
    refine h.frame [.taken delta, .discarded (.ok ())] (by simp [Shared.giveUp, observe])
      (Or.inr (Or.inl rfl)) ?_ (Or.inl ⟨Or.inl rfl, rfl⟩)
    exact always_snoc.mpr ⟨always_snoc.mpr ⟨h.rule, trivial⟩, trivial⟩
  case h_7 delta hholder =>
    cases hs
    have hnone : s.failure = none := by simpa [sound, hholder] using hsound
    refine h.frame [.refused delta .streamClosed, .discarded (.ok ())]
      (by simp [Shared.giveUp, Shared.keep, observe]) (Or.inr (Or.inr ?_)) ?_
      (Or.inl ⟨Or.inr (Or.inr (Or.inl ?_)), rfl⟩)
    · simp [Shared.giveUp, Shared.keep, observe, hnone, stopsCompletion]
    · exact always_snoc.mpr ⟨always_snoc.mpr ⟨h.rule, trivial⟩, trivial⟩
    · simp [Shared.giveUp, Shared.keep, observe, hnone]
  case h_8 delta error _ hholder =>
    simp only [Held, hholder] at hheld
    cases hs
    refine h.frame [.refused delta error, .discarded (.error error)]
      (by simp [Shared.giveUp, Shared.keep, observe]) ?_ ?_
      (Or.inr ⟨not_over_of_busy hholder (by simp), by simp [Obs.ends]⟩)
    · rcases hheld with hright | hdone | hfailure
      · exact Or.inl (by simpa [Right, Shared.giveUp, Shared.keep, observe, takenOf] using hright)
      · exact Or.inr (Or.inl hdone)
      · refine Or.inr (Or.inr ?_)
        cases hf : s.failure with
        | none => simp [hf] at hfailure
        | some kept => simpa [Shared.giveUp, Shared.keep, observe, hf] using hfailure
    · exact always_snoc.mpr ⟨always_snoc.mpr ⟨h.rule, trivial⟩, trivial⟩

/-- A call is dropped while the draft holds what the lane has taken. -/
theorem Kept.drop (h : s.Kept lib) {taken : Bool} {delta : ResponseDelta B U E}
    (hdelta : Holder.delta? s.holder = some delta)
    (hsound : sound s (.drop taken : Event B U E) = true) :
    ({ s with holder := .free, log := s.log ++ if taken then [.taken delta] else [] } :
      Shared D B U E).Kept lib := by
  have hheld := h.held
  have hnot : ¬ (s.Over ∧ s.holder = .free) := by
    rintro ⟨-, hfree⟩
    rw [hfree] at hdelta
    cases hdelta
  refine h.frame (if taken then [.taken delta] else []) rfl ?_ ?_ (Or.inr ⟨hnot, ?_⟩)
  · cases hholder : s.holder with
    | free =>
        rw [hholder] at hdelta
        cases hdelta
    | sink given =>
        rw [hholder] at hdelta
        cases hdelta
        simp only [Held, hholder] at hheld
        have htaken : taken = true := by simpa [sound, hholder] using hsound
        subst htaken
        exact Or.inl (by simpa [Right] using hheld.2)
    | complete response given rest =>
        simp only [Held, hholder] at hheld
        have htaken : taken = false := by simpa [sound, hholder] using hsound
        subst htaken
        exact Or.inl (by simpa [Right] using hheld.1)
    | discard given =>
        simp only [Held, hholder] at hheld
        have htaken : taken = false := by simpa [sound, hholder] using hsound
        subst htaken
        rcases hheld with hright | hstopped
        · exact Or.inl (by simpa [Right] using hright)
        · exact Or.inr hstopped
  · cases taken with
    | true => exact always_snoc.mpr ⟨h.rule, trivial⟩
    | false => simpa using h.rule
  · cases taken <;> simp [Obs.ends]

variable [DecidableEq B] [DecidableEq U] [DecidableEq E]

/-- What a completion sends leads the draft to the response. -/
theorem wholeResponseDeltas_fold {draft : D} {response : ModelResponse B U E}
    {deltas : List (ResponseDelta B U E)}
    (h : wholeResponseDeltas lib draft response = .ok deltas) :
    ∃ last, foldFrom lib draft deltas = .ok last ∧ lib.intoResponse last = some response := by
  unfold wholeResponseDeltas at h
  split at h
  · cases h
  · dsimp only at h
    split at h
    · cases h
    · rename_i last hlast
      split at h
      · cases h
      · rename_i hresponse
        cases h
        exact ⟨last, hlast, not_not.mp hresponse⟩

theorem Kept.complete (h : s.Kept lib) (hfree : s.holder = .free)
    (response : ModelResponse B U E) : (s.complete lib response).Kept lib := by
  have hheld : s.Right lib ∨ s.Stopped := by
    have hheld := h.held
    simpa only [Held, hfree] using hheld
  unfold Shared.complete
  split
  · rename_i hdone
    exact h.giveUp _ trivial rfl hheld (Or.inr rfl)
  · rename_i hdone
    split
    · exact h.giveUp _ trivial rfl hheld (Or.inr rfl)
    · rename_i hkept
      have hfailure : s.failure.any stopsCompletion = false := by
        cases hf : s.failure with
        | none => rfl
        | some error => simpa [hf, Option.filter] using hkept
      have hnot : ¬ s.Over := by
        rintro (hd | hf | hf | ⟨-, hf⟩)
        · exact hdone hd
        · simp [hf, stopsCompletion] at hfailure
        · simp [hf, stopsCompletion] at hfailure
        · cases hfailure.symm.trans hf
      have hright : s.Right lib := by
        rcases hheld with hright | hd | hf
        · exact hright
        · exact absurd hd hdone
        · cases hfailure.symm.trans hf
      split
      · exact h.giveUp _ trivial rfl hheld (Or.inr rfl)
      · rename_i deltas hdeltas
        exact next_kept (h.unended fun hboth => hnot hboth.1) h.rule hright
          (wholeResponseDeltas_fold hdeltas)

theorem Kept.step (h : s.Kept lib) {e : Event B U E} (hsound : sound s e = true)
    (hs : s.step lib e = some s') : s'.Kept lib := by
  cases e with
  | send delta =>
      simp only [Shared.step] at hs
      split at hs <;> cases hs
      rename_i hfree
      exact h.deliver hfree delta
  | complete response =>
      simp only [Shared.step] at hs
      split at hs <;> cases hs
      rename_i hfree
      exact h.complete hfree response
  | discard =>
      simp only [Shared.step] at hs
      split at hs <;> cases hs
      rename_i hfree
      exact h.discard hfree hsound
  | «end» =>
      simp only [Shared.step] at hs
      split at hs <;> cases hs
      rename_i hfree
      refine h.frame [] (List.append_nil _).symm ?_ h.rule (Or.inl ⟨Or.inl rfl, hfree⟩)
      simp only [Held, hfree]
      exact Or.inr (Or.inl rfl)
  | answer result => exact h.answer hsound hs
  | drop taken =>
      obtain ⟨delta, hdelta, rfl⟩ := Option.map_eq_some_iff.mp hs
      exact h.drop hdelta hsound

end Shared

/-- In the runs that meet the condition, a response that is completed is the fold of what
the lane has taken, and nothing is given to the lane behind the end of the response. -/
theorem completed_is_fold [DecidableEq B] [DecidableEq U] [DecidableEq E]
    (h : (machine lib).Reach (fun s e => sound s e = true) s) :
    Always (FoldRule lib) s.log := by
  have hkept : s.Kept lib := by
    refine h.invariant (.new lib.fresh rfl) ?_
    intro s s' e _ hkept hsound hs
    exact hkept.step hsound hs
  exact hkept.rule

/-! ## A draft of blocks of text -/

structure TextSlot where
  block : Uuid × String
  «open» : Bool

structure TextDraft where
  started : Bool
  metadata : Metadata Unit
  slots : List TextSlot
  ending : Option String
  interrupted : Bool

abbrev TextDelta := ResponseDelta (Uuid × String) Unit String

/-- The draft of the entry 7 of the message 9. -/
def TextDraft.apply (draft : TextDraft) (delta : TextDelta) : Except String TextDraft :=
  if delta.turn ≠ 9 ∨ delta.entry ≠ 7 then .error "another_response"
  else if draft.ending.isSome ∨ draft.interrupted then .error "response_ended"
  else
    match delta.op with
    | .responseStarted metadata =>
        if draft.started then .error "response_started"
        else .ok { draft with started := true, metadata := metadata }
    | op =>
        if draft.started = false then .error "response_not_started"
        else
          match op with
          | .responseMetadataUpdated update =>
              .ok { draft with
                metadata := ⟨update.usage.or draft.metadata.usage,
                  update.model.or draft.metadata.model,
                  update.providerResponseId.or draft.metadata.providerResponseId⟩ }
          | .blockInserted block => .ok { draft with slots := draft.slots ++ [⟨block, false⟩] }
          | .blockFinalized id block =>
              .ok { draft with
                slots := draft.slots.map fun slot =>
                  if slot.block.1 = id then ⟨block, false⟩ else slot }
          | .responseCompleted ending =>
              if draft.slots.any TextSlot.open then .error "block_open"
              else .ok { draft with ending := some ending }
          | .responseInterrupted => .ok { draft with interrupted := true }
          | _ => .error "unknown_operation"

def textMessages : Messages TextDraft (Uuid × String) Unit String where
  fresh := ⟨false, ⟨none, none, none⟩, [], none, false⟩
  turn _ := 9
  entry _ := 7
  apply := TextDraft.apply
  metadata := TextDraft.metadata
  slots draft := draft.slots.map fun slot => ⟨slot.block.1, slot.open⟩
  unstarted draft := !draft.started
  intoResponse draft :=
    draft.ending.map fun ending => ⟨draft.metadata, draft.slots.map TextSlot.block, ending⟩
  blockId := Prod.fst

def startedDelta : TextDelta := ⟨9, 7, .responseStarted ⟨none, none, none⟩⟩

def insertedDelta : TextDelta := ⟨9, 7, .blockInserted (1, "whole")⟩

def completedDelta : TextDelta := ⟨9, 7, .responseCompleted "stop"⟩

def wholeResponse : ModelResponse (Uuid × String) Unit String :=
  ⟨⟨none, none, none⟩, [(1, "whole")], "stop"⟩

/-- The lane takes all that the sink and the completion give it. -/
def takenRun : List (Event (Uuid × String) Unit String) :=
  [.send startedDelta, .answer (.ok ()), .complete wholeResponse, .answer (.ok ()),
    .answer (.ok ()), .discard]

def takenLog : List (Obs (Uuid × String) Unit String) :=
  [.given startedDelta, .taken startedDelta, .given insertedDelta, .taken insertedDelta,
    .given completedDelta, .taken completedDelta, .completed wholeResponse (.ok ()),
    .discarded (.ok ())]

theorem completed_is_fold_taken :
    ∃ s, (machine textMessages).Reach (fun s e => sound s e = true) s ∧ s.log = takenLog ∧
      Always (FoldRule textMessages) s.log := by
  obtain ⟨s, hrun, hlog⟩ : ∃ s, (machine textMessages).runChecked sound (machine textMessages).init
      takenRun = some s ∧ s.log = takenLog := ⟨_, rfl, rfl⟩
  have hreach : (machine textMessages).Reach (fun s e => sound s e = true) s :=
    Machine.reach_of_checked takenRun hrun
  exact ⟨s, hreach, hlog, completed_is_fold hreach⟩

/-- The lane does not take the first delta of the sink, and the completion goes on behind
it. -/
def refusedRun : List (Event (Uuid × String) Unit String) :=
  [.send startedDelta, .answer (.error (.invalid "no JSON form")), .complete wholeResponse,
    .answer (.ok ()), .answer (.ok ())]

def refusedLog : List (Obs (Uuid × String) Unit String) :=
  [.given startedDelta, .refused startedDelta (.invalid "no JSON form"), .given insertedDelta,
    .taken insertedDelta, .given completedDelta, .taken completedDelta]

theorem refused_run :
    ∃ s, (machine textMessages).Reachable s ∧
      s.log = refusedLog ++ [.completed wholeResponse (.ok ())] := by
  obtain ⟨s, hrun, hlog⟩ : ∃ s, (machine textMessages).run refusedRun = some s ∧
      s.log = refusedLog ++ [.completed wholeResponse (.ok ())] := ⟨_, rfl, rfl⟩
  exact ⟨s, Machine.reachable_of_run refusedRun hrun, hlog⟩

/-- A discard of a response that has sent nothing returns, and the sink goes on. -/
def discardedRun : List (Event (Uuid × String) Unit String) := [.discard, .send startedDelta]

theorem discarded_run :
    ∃ s, (machine textMessages).Reachable s ∧
      s.log = [.discarded (.ok ())] ++ [.given startedDelta] := by
  obtain ⟨s, hrun, hlog⟩ : ∃ s, (machine textMessages).run discardedRun = some s ∧
      s.log = [.discarded (.ok ())] ++ [.given startedDelta] := ⟨_, rfl, rfl⟩
  exact ⟨s, Machine.reachable_of_run discardedRun hrun, hlog⟩

/-- A completed response misses a delta that the lane refused, and a delta is given to the
lane behind a discard. -/
theorem completed_without_a_delta :
    (¬ ∀ s, (machine textMessages).Reachable s → ∀ pre response post,
      s.log = pre ++ .completed response (.ok ()) :: post →
        ∃ draft, foldFrom textMessages textMessages.fresh (takenOf pre) = .ok draft ∧
          textMessages.intoResponse draft = some response) ∧
    ¬ ∀ s, (machine textMessages).Reachable s → ∀ pre delta post,
      s.log = pre ++ .given delta :: post → ∀ obs ∈ pre, obs.ends = false := by
  refine ⟨fun hfold => ?_, fun hover => ?_⟩
  · obtain ⟨s, hreach, hlog⟩ := refused_run
    obtain ⟨draft, hdraft, -⟩ := hfold s hreach refusedLog wholeResponse [] hlog
    have herror : foldFrom textMessages textMessages.fresh (takenOf refusedLog) =
        .error "response_not_started" := rfl
    cases herror.symm.trans hdraft
  · obtain ⟨s, hreach, hlog⟩ := discarded_run
    cases hover s hreach [.discarded (.ok ())] startedDelta [] hlog _ (List.mem_singleton_self _)

end RunnerKit.Threads.Response
