import RunnerKit.EndWait.Store
import RunnerKit.Lib.Log

/-!
# The decision of an end wait, from the log

The log of a run says what the store holds: the first outcome of each child,
the failure that is kept, and the failures since a wait was opened. A poll
decides by that, in this order.
-/

namespace RunnerKit.EndWait

open RunnerKit.Jobs RunnerKit.Lib

/-! ## The decision, from the log -/

def Obs.outcomeOf (child : Uuid) : Obs → Option Outcome
  | .recorded c outcome => if c = child then some outcome else none
  | _ => none

def Obs.failure : Obs → Option Error
  | .failed error => some error
  | _ => none

/-- The first outcome that was recorded for the child. -/
def firstOutcome (child : Uuid) (log : List Obs) : Option Outcome :=
  (log.filterMap (Obs.outcomeOf child)).head?

def failures (log : List Obs) : List Error := log.filterMap Obs.failure

/-- The failure since the last reopening. -/
def keptFailure (log : List Obs) : Option Error :=
  log.foldl (fun kept obs =>
    match obs with
    | .failed error => some error
    | .reopened => none
    | _ => kept) none

/-- How many failures came after the wait was opened. -/
def failuresSince (w : ℕ) (log : List Obs) : ℕ :=
  log.foldl (fun n obs =>
    match obs with
    | .opened w' => if w' = w then 0 else n
    | .failed _ => n + 1
    | _ => n) 0

/-- What the wait on the child gives as long as the store is there. -/
def decision (log : List Obs) (w : ℕ) (child : Uuid) : Option Outcome :=
  (firstOutcome child log).or <| ((keptFailure log).map .error).or <|
    if failuresSince w log = 0 then none
    else (failures log).getLast?.map .error

section Reading

variable (log : List Obs) (obs : Obs) (child : Uuid) (w : ℕ)

theorem firstOutcome_snoc :
    firstOutcome child (log ++ [obs]) =
      (firstOutcome child log).or (obs.outcomeOf child) := by
  cases h : obs.outcomeOf child <;>
    simp [firstOutcome, List.filterMap_append, List.head?_append, h]

theorem failures_snoc : failures (log ++ [obs]) = failures log ++ obs.failure.toList := by
  cases h : obs.failure <;> simp [failures, List.filterMap_append, h]

theorem keptFailure_snoc :
    keptFailure (log ++ [obs]) = match obs with
      | .failed error => some error
      | .reopened => none
      | _ => keptFailure log := by
  simp only [keptFailure, List.foldl_append, List.foldl_cons, List.foldl_nil]

theorem failuresSince_snoc :
    failuresSince w (log ++ [obs]) = match obs with
      | .opened w' => if w' = w then 0 else failuresSince w log
      | .failed _ => failuresSince w log + 1
      | _ => failuresSince w log := by
  simp only [failuresSince, List.foldl_append, List.foldl_cons, List.foldl_nil]

end Reading

/-- The observations that the decisions are made of. -/
def Obs.tells : Obs → Bool
  | .recorded _ _ | .failed _ | .reopened | .opened _ => true
  | _ => false

/-- The two logs decide alike. -/
structure Alike (log log' : List Obs) : Prop where
  first : ∀ child, firstOutcome child log' = firstOutcome child log
  kept : keptFailure log' = keptFailure log
  failures : failures log' = failures log
  since : ∀ w, failuresSince w log' = failuresSince w log

theorem alike_snoc (log : List Obs) {obs : Obs} (h : obs.tells = false) :
    Alike log (log ++ [obs]) := by
  cases obs with
  | gave w child outcome =>
      refine ⟨fun c => ?_, ?_, ?_, fun w => ?_⟩ <;>
        simp [firstOutcome_snoc, keptFailure_snoc, failuresSince_snoc,
          failures_snoc, Obs.outcomeOf, Obs.failure]
  | dropped =>
      refine ⟨fun c => ?_, ?_, ?_, fun w => ?_⟩ <;>
        simp [firstOutcome_snoc, keptFailure_snoc, failuresSince_snoc,
          failures_snoc, Obs.outcomeOf, Obs.failure]
  | _ => cases h

theorem alike_append {log more : List Obs} (h : ∀ obs ∈ more, obs.tells = false) :
    Alike log (log ++ more) := by
  induction more using List.reverseRecOn with
  | nil =>
      rw [List.append_nil]
      exact ⟨fun _ => rfl, rfl, rfl, fun _ => rfl⟩
  | append_singleton more obs ih =>
      have hmore := ih fun o ho => h o (List.mem_append_left _ ho)
      have hlast := alike_snoc (log ++ more) (h obs (by simp))
      rw [← List.append_assoc]
      exact ⟨fun c => (hlast.first c).trans (hmore.first c),
        hlast.kept.trans hmore.kept, hlast.failures.trans hmore.failures,
        fun w => (hlast.since w).trans (hmore.since w)⟩

theorem Alike.decision {log log' : List Obs} (h : Alike log log') (w : ℕ)
    (child : Uuid) : decision log' w child = decision log w child := by
  simp only [EndWait.decision, h.first, h.kept, h.failures, h.since]

/-- The opening of another wait decides nothing. -/
theorem decision_opened (log : List Obs) {w w' : ℕ} (h : w' ≠ w) (child : Uuid) :
    decision (log ++ [.opened w']) w child = decision log w child := by
  simp only [decision, firstOutcome_snoc, keptFailure_snoc, failuresSince_snoc,
    failures_snoc, Obs.outcomeOf, Obs.failure, Option.or_none, Option.toList_none,
    List.append_nil, if_neg h]

/-- A reopening ends no wait. -/
theorem decision_reopened {log : List Obs} {w : ℕ} {child : Uuid}
    (h : decision log w child = none) :
    decision (log ++ [.reopened]) w child = none := by
  simp only [decision, Option.or_eq_none_iff, firstOutcome_snoc, keptFailure_snoc,
    failuresSince_snoc, failures_snoc, Obs.outcomeOf, Obs.failure, Option.or_none,
    Option.toList_none, List.append_nil, Option.map_none] at h ⊢
  exact ⟨h.1, trivial, h.2.2⟩

end RunnerKit.EndWait
