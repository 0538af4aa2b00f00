import RunnerKit.Queue.Dependencies

/-!
# The attempts of one write

`attempts` of `queue/task.rs` as the loop it is: `Course` lists its rounds for
one write, with the errors they were sent again for. A trail runs beside the
queue and keeps, for each write by its number, the calls of `send` and what
each of them gave; it hinders no step.
-/

namespace RunnerKit.Queue

open RunnerKit.Jobs RunnerKit.Lib

/-! ## The rounds of the loop -/

/-- A call of `send` on a session, with what it gave once it is over. -/
structure Try where
  session : ℕ
  outcome : Option Outcome

inductive Stand where
  | idle | sending
  | ended (result : WriteResult)

/-- The loop for a write on one session: the tries so far, the errors that were
sent again, and where the loop stands. -/
inductive Course (write : Write) (session : ℕ) : List Try → List Error → Stand → Prop where
  | start : Course write session [] [] .idle
  | send {tries : List Try} {errors : List Error} : Course write session tries errors .idle →
      Course write session (tries ++ [⟨session, none⟩]) errors .sending
  | resend {tries : List Try} {errors : List Error} {outcome : Outcome} {error : Error} :
      Course write session (tries ++ [⟨session, none⟩]) errors .sending →
      judge write outcome = .resend error →
      Course write session (tries ++ [⟨session, some outcome⟩]) (errors ++ [error]) .idle
  | finish {tries : List Try} {errors : List Error} {outcome : Outcome} {result : WriteResult} :
      Course write session (tries ++ [⟨session, none⟩]) errors .sending →
      judge write outcome = .final result →
      Course write session (tries ++ [⟨session, some outcome⟩]) errors (.ended result)

/-- The error that an outcome is sent again for. -/
def resentFor (write : Write) (outcome : Outcome) : Option Error :=
  match judge write outcome with
  | .resend error => some error
  | .final _ => none

/-- The result that an outcome ends the write with. -/
def finalOf (write : Write) (outcome : Outcome) : Option WriteResult :=
  match judge write outcome with
  | .resend _ => none
  | .final result => some result

/-- The result that the last try gave, if it gave one. -/
def verdict (write : Write) (tries : List Try) : Option WriteResult :=
  (tries.getLast?.bind Try.outcome).bind (finalOf write)

/-- The errors that the tries were sent again for, in their order. -/
def resentErrors (write : Write) (tries : List Try) : List Error :=
  (tries.filterMap Try.outcome).filterMap (resentFor write)

def Try.Resent (write : Write) (x : Try) : Prop :=
  ∃ outcome error, x.outcome = some outcome ∧ judge write outcome = .resend error

namespace Course

variable {write : Write} {session : ℕ} {tries : List Try} {errors : List Error} {stand : Stand}

theorem session_eq (h : Course write session tries errors stand) :
    ∀ x ∈ tries, x.session = session := by
  induction h with
  | start => simp
  | send _ ih =>
      intro x hx
      rcases List.mem_append.mp hx with hx | hx
      · exact ih x hx
      · rw [List.mem_singleton.mp hx]
  | resend _ _ ih =>
      intro x hx
      rcases List.mem_append.mp hx with hx | hx
      · exact ih x (List.mem_append_left _ hx)
      · rw [List.mem_singleton.mp hx]
  | finish _ _ ih =>
      intro x hx
      rcases List.mem_append.mp hx with hx | hx
      · exact ih x (List.mem_append_left _ hx)
      · rw [List.mem_singleton.mp hx]

/-- Every try but the last was sent again, and so was the last before the next round. -/
theorem resent (h : Course write session tries errors stand) :
    (∀ x ∈ tries.dropLast, x.Resent write) ∧ (stand = .idle → ∀ x ∈ tries, x.Resent write) := by
  induction h with
  | start => simp
  | send _ ih =>
      rw [List.dropLast_concat]
      exact ⟨ih.2 rfl, by simp⟩
  | resend _ hjudge ih =>
      rw [List.dropLast_concat] at ih ⊢
      refine ⟨ih.1, ?_⟩
      intro _ x hx
      rcases List.mem_append.mp hx with hx | hx
      · exact ih.1 x hx
      · rw [List.mem_singleton.mp hx]
        exact ⟨_, _, rfl, hjudge⟩
  | finish _ _ ih =>
      rw [List.dropLast_concat] at ih ⊢
      exact ⟨ih.1, by simp⟩

theorem errors_eq (h : Course write session tries errors stand) :
    errors = resentErrors write tries := by
  unfold resentErrors
  induction h with
  | start => rfl
  | send _ ih => simpa using ih
  | resend _ hjudge ih =>
      simp only [List.filterMap_append] at ih ⊢
      rw [ih]
      simp [resentFor, hjudge]
  | finish _ hjudge ih =>
      simp only [List.filterMap_append] at ih ⊢
      rw [ih]
      simp [resentFor, hjudge]

theorem verdict_eq (h : Course write session tries errors stand) :
    verdict write tries = match stand with
      | .ended result => some result
      | _ => none := by
  unfold verdict
  cases h with
  | start => rfl
  | send _ => simp
  | resend _ hjudge => simp [finalOf, hjudge]
  | finish _ hjudge => simp [finalOf, hjudge]

theorem snoc_of_sending (h : Course write session tries errors .sending) :
    ∃ before, tries = before ++ [⟨session, none⟩] := by
  cases h with
  | send _ => exact ⟨_, rfl⟩

/-- The last try runs exactly while the loop is sending. -/
theorem running_iff (h : Course write session tries errors stand) :
    (∃ x, tries.getLast? = some x ∧ x.outcome = none) ↔ stand = .sending := by
  cases h with
  | start => simp
  | send _ => simp
  | resend _ _ => simp
  | finish _ _ => simp

end Course

/-! ## The trail -/

/-- `opened` counts the sessions the sender was asked for; `session` is the one the
running loop holds. -/
structure Trail where
  opened : ℕ
  session : ℕ
  tries : ℕ → List Try

/-- The last try is over. -/
def answered (outcome : Outcome) (tries : List Try) : List Try :=
  tries.dropLast ++ tries.getLast?.toList.map fun x => { x with outcome := some outcome }

@[simp] theorem answered_snoc {outcome : Outcome} {tries : List Try} {x : Try} :
    answered outcome (tries ++ [x]) = tries ++ [{ x with outcome := some outcome }] := by
  simp [answered]

namespace Trail

def start : Trail := ⟨0, 0, fun _ => []⟩

/-- The loop asks for its session when it is polled first, and keeps it. -/
def send (t : Trail) (attempt : Attempt) : Trail :=
  if attempt.phase = .created then
    { opened := t.opened + 1
      session := t.opened
      tries := Function.update t.tries attempt.seq (t.tries attempt.seq ++ [⟨t.opened, none⟩]) }
  else
    { t with
      tries := Function.update t.tries attempt.seq
        (t.tries attempt.seq ++ [⟨t.session, none⟩]) }

def ended (t : Trail) (attempt : Attempt) (outcome : Outcome) : Trail :=
  { t with
    tries := Function.update t.tries attempt.seq (answered outcome (t.tries attempt.seq)) }

def after (t : Trail) (s : Sys) : Event → Trail
  | .task .send =>
      match s.task.attempt with
      | some attempt => t.send attempt
      | none => t
  | .task (.attemptEnded outcome) =>
      match s.task.attempt with
      | some attempt => t.ended attempt outcome
      | none => t
  | _ => t

end Trail

namespace Sys

def trailedStep (p : Sys × Trail) (e : Event) : Option (Sys × Trail) :=
  (p.1.step e).map fun s' => (s', p.2.after p.1 e)

def trailed : Machine (Sys × Trail) Event := ⟨(init, .start), trailedStep⟩

/-- The trail watches the queue: it hinders none of its steps. -/
theorem trailed_step {s s' : Sys} {t : Trail} {e : Event} (hs : s.step e = some s') :
    trailed.step (s, t) e = some (s', t.after s e) := by
  change Option.map _ (s.step e) = _
  rw [hs]
  rfl

theorem reachable_of_trailed {p : Sys × Trail} (h : trailed.Reachable p) :
    machine.Reachable p.1 := by
  refine Machine.Reachable.invariant (P := fun p => machine.Reachable p.1)
    Machine.Reachable.init ?_ h
  intro p p' e hp hs
  obtain ⟨s', hs', rfl⟩ := Option.map_eq_some_iff.mp hs
  exact hp.step hs'

end Sys

end RunnerKit.Queue
