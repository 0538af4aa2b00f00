import Mathlib

/-!
# Machines: partial step functions and their runs

A machine has one first state and a step function that is total on the events
it accepts. Interleaving is a matter of the event list: every atomic step of
every party is an event of its own, so a run is one schedule.

`Reach M C` are the states of the runs whose steps all meet `C`; with no
condition they are the reachable states. `Reach.invariant` is the only
induction over runs that the developments below need.
-/

namespace RunnerKit.Lib

structure Machine (σ ε : Type*) where
  init : σ
  step : σ → ε → Option σ

namespace Machine

variable {σ ε : Type*} (M : Machine σ ε)

/-- The state after a list of events, if every one of them is accepted. -/
def runFrom : σ → List ε → Option σ
  | s, [] => some s
  | s, e :: es => (M.step s e).bind fun s' => runFrom s' es

def run (es : List ε) : Option σ := M.runFrom M.init es

/-- The states of the runs in which every step meets `C`. -/
inductive Reach (C : σ → ε → Prop) : σ → Prop where
  | init : Reach C M.init
  | step {s s' : σ} {e : ε} :
      Reach C s → C s e → M.step s e = some s' → Reach C s'

def Reachable : σ → Prop := M.Reach fun _ _ => True

/-- Every step of the schedule `es` from `s` meets `C`. -/
def Guarded (C : σ → ε → Prop) : σ → List ε → Prop
  | _, [] => True
  | s, e :: es => C s e ∧ ∀ s', M.step s e = some s' → Guarded C s' es

variable {M} {C : σ → ε → Prop}

theorem Reachable.init : M.Reachable M.init := Reach.init

theorem Reachable.step {s s' : σ} {e : ε}
    (h : M.Reachable s) (hs : M.step s e = some s') : M.Reachable s' :=
  Reach.step h trivial hs

/-- What holds at the start and is kept by every step that meets `C` holds in
every state such a run reaches. -/
theorem Reach.invariant {P : σ → Prop} (hinit : P M.init)
    (hstep : ∀ {s s' : σ} {e : ε},
      M.Reach C s → P s → C s e → M.step s e = some s' → P s')
    {s : σ} (h : M.Reach C s) : P s := by
  induction h with
  | init => exact hinit
  | step hr hc hs ih => exact hstep hr ih hc hs

theorem Reachable.invariant {P : σ → Prop} (hinit : P M.init)
    (hstep : ∀ {s s' : σ} {e : ε}, P s → M.step s e = some s' → P s')
    {s : σ} (h : M.Reachable s) : P s :=
  Reach.invariant hinit (fun _ hp _ hs => hstep hp hs) h

theorem Reach.mono {C' : σ → ε → Prop} (hc : ∀ s e, C s e → C' s e)
    {s : σ} (h : M.Reach C s) : M.Reach C' s := by
  induction h with
  | init => exact .init
  | step _ hce hs ih => exact .step ih (hc _ _ hce) hs

theorem Reach.reachable {s : σ} (h : M.Reach C s) : M.Reachable s :=
  h.mono fun _ _ _ => trivial

theorem Reach.runFrom {es : List ε} : ∀ {s s' : σ}, M.Reach C s →
    M.Guarded C s es → M.runFrom s es = some s' → M.Reach C s' := by
  induction es with
  | nil =>
      intro s s' h _ hrun
      cases hrun
      exact h
  | cons e es ih =>
      intro s s' h hg hrun
      obtain ⟨t, ht, hrest⟩ := Option.bind_eq_some_iff.mp hrun
      exact ih (.step h hg.1 ht) (hg.2 t ht) hrest

theorem guarded_true : ∀ (es : List ε) (s : σ),
    M.Guarded (fun _ _ => True) s es
  | [], _ => trivial
  | _ :: es, _ => ⟨trivial, fun s' _ => guarded_true es s'⟩

/-- A schedule that runs through is a proof that its last state is
reachable. -/
theorem reachable_of_run (es : List ε) {s : σ} (h : M.run es = some s) :
    M.Reachable s :=
  Reach.runFrom Reach.init (guarded_true es _) h

/-! ## Conditions that can be computed -/

/-- The run of a schedule, as long as each step passes the check. -/
def runChecked (M : Machine σ ε) (check : σ → ε → Bool) : σ → List ε → Option σ
  | s, [] => some s
  | s, e :: es =>
      if check s e then (M.step s e).bind fun s' => M.runChecked check s' es
      else none

theorem Reach.runChecked {check : σ → ε → Bool} {es : List ε} : ∀ {s s' : σ},
    M.Reach (fun s e => check s e = true) s → M.runChecked check s es = some s' →
      M.Reach (fun s e => check s e = true) s' := by
  induction es with
  | nil =>
      intro s s' h hrun
      cases hrun
      exact h
  | cons e es ih =>
      intro s s' h hrun
      simp only [Machine.runChecked] at hrun
      split at hrun
      · rename_i hcheck
        obtain ⟨t, ht, hrest⟩ := Option.bind_eq_some_iff.mp hrun
        exact ih (.step h hcheck ht) hrest
      · cases hrun

theorem reach_of_checked {check : σ → ε → Bool} (es : List ε) {s : σ}
    (h : M.runChecked check M.init es = some s) :
    M.Reach (fun s e => check s e = true) s :=
  Reach.init.runChecked h

end Machine

/-- An entry of a table after another was set is the one set, or the one it was. -/
theorem update_some {κ α : Type*} [DecidableEq κ] {table : κ → Option α} {i j : κ} {a b : α}
    (h : Function.update table i (some a) j = some b) :
    (j = i ∧ b = a) ∨ (j ≠ i ∧ table j = some b) := by
  by_cases hj : j = i
  · subst hj
    exact Or.inl ⟨rfl, by simpa using h.symm⟩
  · exact Or.inr ⟨hj, by simpa [hj] using h⟩

end RunnerKit.Lib
