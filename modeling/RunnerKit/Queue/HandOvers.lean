import RunnerKit.Queue.Causes

/-!
# Who hands a write over

Some kinds of write are handed over by one party only. When every other event
hands over writes that meet `P`, the held markers and their follow-ups meet it
too, and so does all that joins the queue without that party.
-/

namespace RunnerKit.Queue

open RunnerKit.Jobs RunnerKit.Lib

/-- The writes that an event hands over, now or when its marker joins. -/
def Event.writes : Event → List Write
  | .enqueue write _ => [write]
  | .hold write follow _ => write :: follow.toList
  | _ => []

/-- What a step added to the log hands over and joins only what meets `P`. -/
structure Brings (P : Write → Prop) (more : List Obs) : Prop where
  handed : ∀ c write, (c, write) ∈ handed more → P write
  joins : ∀ e ∈ joins more, P e.write
  held : ∀ e follow, .held e follow ∈ more → P e.write

theorem brings_nil {P : Write → Prop} : Brings P [] :=
  ⟨by simp, by simp, by simp⟩

/-- An observation that is no hand-over and no joining. -/
theorem brings_quiet {P : Write → Prop} {more : List Obs}
    (hhanded : handed more = []) (hjoins : joins more = [])
    (hheld : ∀ e follow, .held e follow ∉ more) : Brings P more :=
  ⟨by simp [hhanded], by simp [hjoins], fun e follow h => absurd h (hheld e follow)⟩

namespace Sys

/-- The markers that are held, and what follows them. -/
structure HeldOf (P : Write → Prop) (s : Sys) : Prop where
  newHeld : ∀ h ∈ s.st.newHeld, P h.entry.write ∧ ∀ w ∈ h.follow, P w
  held : ∀ p ∈ s.task.held, P p.1.write ∧ ∀ w ∈ p.2, P w

theorem heldOf_init {P : Write → Prop} : HeldOf P init :=
  ⟨by simp [init, State.new], by simp [init]⟩

variable {P : Write → Prop} {s s' : Sys}

/-- What a step that meets `P` leaves. -/
def BringsStep (P : Write → Prop) (s s' : Sys) : Prop :=
  HeldOf P s' ∧ ∃ more, s'.log = s.log ++ more ∧ Brings P more

theorem HeldOf.quiet (h : HeldOf P s) (hnew : s'.st.newHeld = s.st.newHeld)
    (hheld : ∀ p ∈ s'.task.held, p ∈ s.task.held) {more : List Obs}
    (hlog : s'.log = s.log ++ more) (hmore : Brings P more) :
    BringsStep P s s' := by
  refine ⟨⟨?_, fun p hp => h.held p (hheld p hp)⟩, more, hlog, hmore⟩
  rw [hnew]
  exact h.newHeld

theorem HeldOf.same (h : HeldOf P s) (hnew : s'.st.newHeld = s.st.newHeld)
    (hheld : s'.task.held = s.task.held) (hlog : s'.log = s.log) :
    BringsStep P s s' := by
  refine h.quiet hnew ?_ (by rw [hlog, List.append_nil]) brings_nil
  rw [hheld]
  exact fun p hp => hp

theorem HeldOf.enqueue (h : HeldOf P s) {write : Write} {now : ℕ} (hw : P write) :
    BringsStep P s (s.enqueue write now) := by
  refine h.quiet rfl (fun p hp => hp) rfl ⟨?_, ?_, by simp⟩
  · intro c w hin
    cases List.mem_singleton.mp hin
    exact hw
  · intro e he
    cases List.mem_singleton.mp he
    exact hw

theorem HeldOf.unqueue (h : HeldOf P s) {write : Write} {removal : Removal}
    (hw : P write) : BringsStep P s (s.unqueue write removal) := by
  refine h.quiet rfl (fun p hp => hp) rfl ⟨?_, by simp [Obs.joins], by simp⟩
  intro c w hin
  cases List.mem_singleton.mp hin
  exact hw

theorem HeldOf.hold (h : HeldOf P s) {write : Write} {follow : Option Write}
    {now : ℕ} (hw : P write) (hf : ∀ w ∈ follow, P w) :
    BringsStep P s (s.hold write follow now) := by
  refine ⟨⟨?_, h.held⟩, _, rfl, ?_, by simp [Obs.joins], ?_⟩
  · intro item hitem
    rcases List.mem_append.mp hitem with hitem | hitem
    · exact h.newHeld item hitem
    · cases List.mem_singleton.mp hitem
      exact ⟨hw, hf⟩
  · intro c w hin
    cases List.mem_singleton.mp hin
    exact hw
  · intro e f hin
    cases List.mem_singleton.mp hin
    exact hw

theorem HeldOf.takeNewHeld (h : HeldOf P s) : BringsStep P s s.takeNewHeld := by
  refine ⟨⟨by simp [Sys.takeNewHeld], ?_⟩, [], (List.append_nil _).symm, brings_nil⟩
  intro p hp
  rcases List.mem_append.mp hp with hp | hp
  · exact h.held p hp
  · obtain ⟨item, hitem, rfl⟩ := List.mem_map.mp hp
    exact h.newHeld item hitem

theorem HeldOf.nextHead (h : HeldOf P s) : BringsStep P s s.nextHead := by
  unfold Sys.nextHead
  split
  · exact h.same rfl rfl rfl
  · split
    · exact h.same rfl rfl rfl
    · rename_i head st hpop
      obtain ⟨-, rest, -, rfl⟩ := popHead_some hpop
      split <;> exact h.same rfl rfl rfl

theorem HeldOf.joinHeld (h : HeldOf P s) {seq : ℕ} {marker : Entry}
    {follow : Option Write} {held : List (Entry × Option Write)} {now : ℕ}
    (htake : takeHeld seq s.task.held = some ((marker, follow), held)) :
    BringsStep P s (s.joinHeld held marker follow now) := by
  have hperm := takeHeld_perm htake
  obtain ⟨hmarker, hfollow⟩ : P marker.write ∧ ∀ w ∈ follow, P w :=
    h.held _ (hperm.mem_iff.mpr List.mem_cons_self)
  refine h.quiet ?_ ?_ rfl ⟨?_, ?_, by simp⟩
  · cases follow <;> rfl
  · exact fun p hp => hperm.mem_iff.mpr (List.mem_cons_of_mem _ hp)
  · intro c w hin
    cases follow with
    | none => cases hin
    | some write =>
        cases List.mem_singleton.mp hin
        exact hfollow write rfl
  · intro e he
    cases follow with
    | none =>
        cases List.mem_singleton.mp he
        exact hmarker
    | some write =>
        rcases List.mem_cons.mp he with rfl | he
        · exact hfollow write rfl
        · cases List.mem_singleton.mp he
          exact hmarker

theorem HeldOf.gateEnded (h : HeldOf P s) {seq : ℕ} {marker : Entry}
    {follow : Option Write} {held : List (Entry × Option Write)} {gate : Gate}
    {now : ℕ} (htake : takeHeld seq s.task.held = some ((marker, follow), held)) :
    BringsStep P s (s.gateEnded held marker follow gate now) := by
  have hleft : ∀ p ∈ held, p ∈ s.task.held := fun p hp =>
    (takeHeld_perm htake).mem_iff.mpr (List.mem_cons_of_mem _ hp)
  cases gate with
  | stored =>
      simp only [Sys.gateEnded]
      split
      · exact h.quiet rfl hleft (List.append_nil _).symm brings_nil
      · exact h.joinHeld htake
  | dropped => exact h.quiet rfl hleft (List.append_nil _).symm brings_nil

theorem HeldOf.taskStep (h : HeldOf P s) {e : TaskEvent}
    (hs : s.taskStep e = some s') : BringsStep P s s' := by
  cases e with
  | takeNewHeld =>
      simp only [Sys.taskStep] at hs
      split at hs <;> cases hs <;> exact h.takeNewHeld
  | nextHead =>
      simp only [Sys.taskStep] at hs
      split at hs <;> cases hs
      exact h.nextHead
  | send =>
      simp only [Sys.taskStep] at hs
      split at hs
      · split at hs <;> cases hs
        exact h.quiet rfl (fun p hp => hp) rfl (brings_quiet rfl rfl (by simp))
      · cases hs
  | attemptEnded outcome =>
      simp only [Sys.taskStep] at hs
      split at hs
      · split at hs
        · split at hs <;> cases hs
          · exact h.quiet rfl (fun p hp => hp) rfl (brings_quiet rfl rfl (by simp))
          · exact h.same rfl rfl rfl
        · cases hs
      · cases hs
  | gateEnded seq gate now =>
      simp only [Sys.taskStep] at hs
      split at hs <;> cases hs
      exact h.gateEnded ‹_›
  | woken =>
      simp only [Sys.taskStep] at hs
      split at hs
      · split at hs <;> cases hs
        exact h.same rfl rfl rfl
      · cases hs
  | stopSeen =>
      simp only [Sys.taskStep] at hs
      split at hs
      · split at hs <;> cases hs
        exact h.quiet rfl (by simp [dropTask]) (List.append_nil _).symm brings_nil
      · cases hs
  | drop =>
      simp only [Sys.taskStep] at hs
      split at hs <;> cases hs <;>
        exact h.quiet rfl (by simp [dropTask]) (List.append_nil _).symm brings_nil
  | dropLocked =>
      simp only [Sys.taskStep] at hs
      split at hs <;> cases hs
      exact ⟨⟨by simp [Sys.dropLocked], h.held⟩, _, rfl,
        brings_quiet rfl rfl (by simp)⟩
  | dropNext =>
      simp only [Sys.taskStep] at hs
      split at hs
      · rename_i rest hpoint
        cases hs
        cases rest <;> exact h.same rfl rfl rfl
      · cases hs

theorem HeldOf.drainedStep (h : HeldOf P s) {d : ℕ} {e : DrainEvent}
    (hs : s.drainedStep d e = some s') : BringsStep P s s' := by
  cases e <;> simp only [Sys.drainedStep] at hs <;> (repeat' split at hs) <;>
    cases hs <;>
      first
      | exact h.same rfl rfl rfl
      | exact h.quiet rfl (fun p hp => hp) rfl (brings_quiet rfl rfl (by simp))

theorem HeldOf.callStep (h : HeldOf P s) {chan : Chan}
    (hs : s.callStep chan = some s') : BringsStep P s s' := by
  obtain ⟨call, -, rfl⟩ := Option.map_eq_some_iff.mp hs
  cases call with
  | notify => exact h.quiet rfl (fun p hp => hp) rfl (brings_quiet rfl rfl (by simp))
  | unqueued write removal stage =>
      cases stage with
      | table => exact h.same State.recordEnd_newHeld rfl rfl
      | answer => exact h.quiet rfl (fun p hp => hp) rfl (brings_quiet rfl rfl (by simp))
      | report => exact h.quiet rfl (fun p hp => hp) rfl (brings_quiet rfl rfl (by simp))

/-- A step of the queue brings only what its event hands over, and what was
held. -/
theorem HeldOf.step (h : HeldOf P s) {e : Event} (hs : s.step e = some s')
    (he : ∀ w ∈ e.writes, P w) : BringsStep P s s' := by
  cases e with
  | enqueue write now =>
      have hw : P write := he write List.mem_cons_self
      cases hs
      split
      · exact h.unqueue hw
      · exact h.enqueue hw
  | hold write follow now =>
      have hw : P write := he write List.mem_cons_self
      cases hs
      split
      · exact h.unqueue hw
      · exact h.hold hw fun w hin =>
          he w (List.mem_cons_of_mem _ (Option.mem_toList.mpr hin))
  | call chan => exact h.callStep hs
  | stopNow =>
      cases hs
      exact h.same rfl rfl rfl
  | stopCancel =>
      simp only [Sys.step] at hs
      split at hs <;> cases hs
      exact h.same rfl rfl rfl
  | complete =>
      obtain ⟨⟨entry, result, stage⟩, -, rfl⟩ := Option.map_eq_some_iff.mp hs
      cases stage with
      | reporting => exact h.quiet rfl (fun p hp => hp) rfl (brings_quiet rfl rfl (by simp))
      | removing =>
          exact h.quiet State.finish_newHeld (fun p hp => hp) rfl
            (brings_quiet rfl rfl (by simp))
      | sending => exact h.quiet rfl (fun p hp => hp) rfl (brings_quiet rfl rfl (by simp))
      | signalling => exact h.same rfl rfl rfl
  | task event =>
      simp only [Sys.step] at hs
      split at hs
      · exact h.taskStep hs
      · cases hs
  | drain =>
      cases hs
      exact h.same rfl rfl rfl
  | drained d event => exact h.drainedStep hs

/-- The hand-over of the party itself changes nothing that is held. -/
theorem HeldOf.own (h : HeldOf P s) {write : Write} {now : ℕ}
    (hs : s.step (.enqueue write now) = some s') :
    HeldOf P s' ∧ ∃ obs, s'.log = s.log ++ [obs] ∧
      ((∃ seq, obs = .enqueued ⟨seq, write, s.nextChan⟩ ∧
          s.st.unqueuedBy write = none) ∨
        ∃ removal, obs = .unqueued s.nextChan write removal ∧
          s.st.unqueuedBy write = some removal) := by
  cases hs
  split
  · rename_i removal hwhy
    exact ⟨⟨h.newHeld, h.held⟩, _, rfl, Or.inr ⟨removal, rfl, hwhy⟩⟩
  · rename_i hopen
    exact ⟨⟨h.newHeld, h.held⟩, _, rfl, Or.inl ⟨_, rfl, hopen⟩⟩

end Sys

end RunnerKit.Queue
