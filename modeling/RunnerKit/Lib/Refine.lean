import RunnerKit.Lib.Log
import RunnerKit.Lib.Machine

/-!
# Refinement by logs

The entries of a log can be the events of an abstract machine, which says in
what order they may come. A machine whose states carry such a log refines the
abstract one if every step appends entries that the abstract machine takes, and
leads from related states to related states. The log of every reachable state is
then a run of the abstract machine, and what `run_invariant` proves of all runs
of the abstract machine holds of it.
-/

namespace RunnerKit.Lib

namespace Machine

variable {σ ε τ α : Type*} {M : Machine σ ε} {S : Machine τ α}

theorem runFrom_append (xs ys : List α) : ∀ t : τ,
    S.runFrom t (xs ++ ys) = (S.runFrom t xs).bind fun u => S.runFrom u ys := by
  induction xs with
  | nil => exact fun t => rfl
  | cons x xs ih =>
      intro t
      cases hx : S.step t x with
      | none => simp [runFrom, hx]
      | some u => simp [runFrom, hx, ih]

theorem runFrom_singleton (t : τ) (x : α) : S.runFrom t [x] = S.step t x := by
  cases hx : S.step t x <;> simp [runFrom, hx]

/-- What holds of the empty run, and of a run with one more event, holds of all
runs. -/
theorem run_invariant {I : List α → τ → Prop} (hinit : I [] S.init)
    (hstep : ∀ {past t x u}, I past t → S.step t x = some u → I (past ++ [x]) u)
    {events : List α} : ∀ {t : τ}, S.run events = some t → I events t := by
  induction events using List.reverseRecOn with
  | nil =>
      intro t hrun
      cases hrun
      exact hinit
  | append_singleton past x ih =>
      intro t hrun
      rw [Machine.run, runFrom_append] at hrun
      obtain ⟨u, hpast, hlast⟩ := Option.bind_eq_some_iff.mp hrun
      rw [runFrom_singleton] at hlast
      exact hstep (ih hpast) hlast

/-! ## Refinement -/

/-- The abstract machine takes what was appended to a log, and goes to a state with `P`. -/
def Takes (S : Machine τ α) (log : List α) (t : τ) (log' : List α) (P : τ → Prop) : Prop :=
  ∃ more u, log' = log ++ more ∧ S.runFrom t more = some u ∧ P u

section Takes

variable {log log' : List α} {t u : τ} {x : α} {P : τ → Prop}

theorem Takes.silent (hlog : log' = log) (ht : P t) : S.Takes log t log' P :=
  ⟨[], t, by rw [hlog, List.append_nil], rfl, ht⟩

theorem Takes.said (hlog : log' = log ++ [x]) (hstep : S.step t x = some u) (hu : P u) :
    S.Takes log t log' P :=
  ⟨[x], u, hlog, by rw [runFrom_singleton]; exact hstep, hu⟩

/-- One more event is appended before. -/
theorem Takes.after (hstep : S.step t x = some u) (h : S.Takes (log ++ [x]) u log' P) :
    S.Takes log t log' P := by
  obtain ⟨more, v, hlog, hrun, hv⟩ := h
  refine ⟨[x] ++ more, v, ?_, ?_, hv⟩
  · rw [hlog]
    exact List.append_assoc log [x] more
  · rw [runFrom_append, runFrom_singleton, hstep]
    exact hrun

end Takes

structure Refines (M : Machine σ ε) (S : Machine τ α) (log : σ → List α)
    (related : σ → τ → Prop) : Prop where
  empty : log M.init = []
  init : related M.init S.init
  step : ∀ {s s' e t}, related s t → M.step s e = some s' →
    S.Takes (log s) t (log s') (related s')

theorem Refines.accepted {log : σ → List α} {related : σ → τ → Prop}
    (h : Refines M S log related) {s : σ} (hs : M.Reachable s) :
    ∃ t, S.run (log s) = some t ∧ related s t := by
  refine hs.invariant (P := fun s => ∃ t, S.run (log s) = some t ∧ related s t) ?_ ?_
  · exact ⟨S.init, by simp [Machine.run, h.empty, runFrom], h.init⟩
  · rintro s s' e ⟨t, hrun, hrel⟩ hstep
    obtain ⟨more, u, hlog, hmore, hrel'⟩ := h.step hrel hstep
    refine ⟨u, ?_, hrel'⟩
    rw [hlog, Machine.run, runFrom_append]
    exact Option.bind_eq_some_iff.mpr ⟨t, hrun, hmore⟩

end Machine

end RunnerKit.Lib
