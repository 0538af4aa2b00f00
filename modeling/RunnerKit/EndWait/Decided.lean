import RunnerKit.EndWait.Decision

/-!
# What a poll of an end wait gives

A poll gives the decision of the log as long as the store is there, and a
parked wait sleeps on no decision: what changed since it looked is signalled,
or the signal is on its way.
-/

namespace RunnerKit.EndWait

open RunnerKit.Jobs RunnerKit.Lib

/-! ## The invariant -/

/-- What was given agrees with the log: `BookDropped` behind the drop of the
store, else the decision. -/
def Gave (pre : List Obs) (obs : Obs) : Prop :=
  ∀ w child outcome, obs = .gave w child outcome →
    (.dropped ∈ pre ∧ outcome = .error .bookDropped) ∨
      (.dropped ∉ pre ∧ decision pre w child = some outcome)

/-- The wait has its generation and its receiver and has not ended. -/
def Place.watches : Place → Bool
  | .opening | .ready | .done => false
  | _ => true

/-- The last decision of the wait was to wait. -/
def Place.waiting : Place → Bool
  | .decided none | .checking | .parked => true
  | _ => false

namespace Sys

structure StoreInv (s : Sys) : Prop where
  outcomes : ∀ child, s.held.outcomes child = firstOutcome child s.log
  kept : s.held.kept = keptFailure s.log
  last : s.held.last = (failures s.log).getLast?
  generation : s.held.generation = (failures s.log).length
  fresh : ∀ w, s.nextWait ≤ w → s.waits w = none
  opened : ∀ w wait, s.waits w = some wait → wait.place.watches = true →
    wait.generation + failuresSince w s.log = s.held.generation
  seen : ∀ w wait, s.waits w = some wait → wait.place.watches = true →
    wait.seen ≤ s.version
  /-- What changed since the last decision is signalled, or will be. -/
  awake : ∀ w wait, s.waits w = some wait → wait.place.waiting = true →
    decision s.log w wait.child = none ∨ wait.seen < s.version + s.due
  ready : ∀ w wait, s.waits w = some wait → wait.place = .ready → s.alive = false
  dropped : s.alive = false ↔ .dropped ∈ s.log
  due : 0 < s.due → s.book = true
  gave : Always Gave s.log

variable {s s' : Sys} {w : ℕ} {wait wait' : Wait}

theorem storeInv_init : StoreInv init where
  outcomes := fun _ => rfl
  kept := rfl
  last := rfl
  generation := rfl
  fresh := fun _ _ => rfl
  opened := by simp [init]
  seen := by simp [init]
  awake := by simp [init]
  ready := by simp [init]
  dropped := by simp [init, alive]
  due := by simp [init]
  gave := always_nil

/-- The section of `decide` reads off the log. -/
theorem StoreInv.decide_eq (h : StoreInv s) (hw : s.waits w = some wait)
    (hwatches : wait.place.watches = true) :
    s.held.decide wait.child wait.generation = decision s.log w wait.child := by
  have hopened := h.opened w wait hw hwatches
  unfold Held.decide decision
  rw [h.outcomes wait.child]
  cases hfirst : firstOutcome wait.child s.log with
  | some outcome => rfl
  | none =>
      rw [h.kept]
      cases hkept : keptFailure s.log with
      | some error => rfl
      | none =>
          by_cases hsince : failuresSince w s.log = 0
          · have hsame : s.held.generation = wait.generation := by omega
            simp [hsince, hsame]
          · have hnew : s.held.generation ≠ wait.generation := by omega
            have hne : failures s.log ≠ [] := by
              intro hnil
              have hlen := h.generation
              rw [hnil] at hlen
              simp only [List.length_nil] at hlen
              omega
            obtain ⟨error, hlast⟩ := Option.isSome_iff_exists.mp
              (List.getLast?_isSome.mpr hne)
            simp [hsince, hnew, h.last, hlast]

/-! ## Who holds the store -/

theorem alive_iff (hfresh : ∀ w, s.nextWait ≤ w → s.waits w = none) :
    s.alive = true ↔
      s.book = true ∨ ∃ w wait, s.waits w = some wait ∧ wait.holds = true := by
  unfold alive
  rw [Bool.or_eq_true, List.any_eq_true]
  constructor
  · rintro (hbook | ⟨w, -, hholds⟩)
    · exact Or.inl hbook
    · cases hw : s.waits w with
      | none =>
          rw [hw] at hholds
          cases hholds
      | some wait =>
          rw [hw] at hholds
          exact Or.inr ⟨w, wait, hw, hholds⟩
  · rintro (hbook | ⟨w, wait, hw, hholds⟩)
    · exact Or.inl hbook
    · refine Or.inr ⟨w, List.mem_range.mpr ?_, ?_⟩
      · by_contra hnot
        rw [hfresh w (Nat.le_of_not_lt hnot)] at hw
        cases hw
      · rw [hw]
        exact hholds

/-- The wait `w` moves on; nothing else changes but the log. -/
structure Moves (s s' : Sys) (w : ℕ) (wait' : Wait) : Prop where
  held : s'.held = s.held
  version : s'.version = s.version
  book : s'.book = s.book
  due : s'.due = s.due
  nextWait : s'.nextWait = s.nextWait
  waits : s'.waits = Function.update s.waits w (some wait')

theorem Moves.fresh (hm : Moves s s' w wait') (h : StoreInv s)
    (hw : s.waits w = some wait) : ∀ v, s'.nextWait ≤ v → s'.waits v = none := by
  intro v hv
  rw [hm.nextWait] at hv
  rw [hm.waits]
  have hne : v ≠ w := by
    rintro rfl
    rw [h.fresh v hv] at hw
    cases hw
  rw [Function.update_of_ne hne]
  exact h.fresh v hv

theorem Moves.alive_of_holds (hm : Moves s s' w wait') (h : StoreInv s)
    (hw : s.waits w = some wait) (hholds : wait'.holds = true) : s'.alive = true := by
  refine (alive_iff (hm.fresh h hw)).mpr (Or.inr ⟨w, wait', ?_, hholds⟩)
  rw [hm.waits, Function.update_self]

/-- Only a wait that holds the store decides whether it is there. -/
theorem Moves.alive_mono (hm : Moves s s' w wait') (h : StoreInv s)
    (hw : s.waits w = some wait) (hrest : wait'.holds = false) :
    s'.alive = true → s.alive = true := by
  rw [alive_iff (hm.fresh h hw), alive_iff h.fresh, hm.book, hm.waits]
  rintro (hbook | ⟨v, wait'', hv, hholds⟩)
  · exact Or.inl hbook
  · by_cases hvw : v = w
    · subst hvw
      rw [Function.update_self] at hv
      cases hv
      rw [hrest] at hholds
      cases hholds
    · rw [Function.update_of_ne hvw] at hv
      exact Or.inr ⟨v, wait'', hv, hholds⟩

theorem Moves.alive_eq (hm : Moves s s' w wait') (h : StoreInv s)
    (hw : s.waits w = some wait) (hwait : wait.holds = false)
    (hwait' : wait'.holds = false) : s'.alive = s.alive := by
  refine Bool.eq_iff_iff.mpr ⟨hm.alive_mono h hw hwait', ?_⟩
  rw [alive_iff (hm.fresh h hw), alive_iff h.fresh, hm.book, hm.waits]
  rintro (hbook | ⟨v, wait'', hv, hholds⟩)
  · exact Or.inl hbook
  · have hvw : v ≠ w := by
      rintro rfl
      rw [hw] at hv
      cases hv
      rw [hwait] at hholds
      cases hholds
    exact Or.inr ⟨v, wait'', by rw [Function.update_of_ne hvw]; exact hv, hholds⟩

/-- What is left to show of a step that moves one wait and tells nothing of
outcomes and failures. -/
theorem StoreInv.move (h : StoreInv s) (hm : Moves s s' w wait')
    (hw : s.waits w = some wait) {more : List Obs} (hlog : s'.log = s.log ++ more)
    (hquiet : ∀ obs ∈ more, obs.tells = false) (hchild : wait'.child = wait.child)
    (hopened : wait'.place.watches = true → wait.place.watches = true ∧
      wait'.generation = wait.generation ∧ wait'.seen ≤ s.version)
    (hawake : wait'.place.waiting = true →
      decision s.log w wait.child = none ∨ wait'.seen < s.version + s.due)
    (hready : wait'.place ≠ .ready) (hmono : s'.alive = true → s.alive = true)
    (hdropped : s'.alive = false ↔ .dropped ∈ s'.log)
    (hgave : Always Gave s'.log) : StoreInv s' := by
  have halike : Alike s.log s'.log := by
    rw [hlog]
    exact alike_append hquiet
  have hother : ∀ {v x}, s'.waits v = some x → v ≠ w → s.waits v = some x := by
    intro v x hv hne
    rwa [hm.waits, Function.update_of_ne hne] at hv
  have hself : ∀ {x}, s'.waits w = some x → x = wait' := by
    intro x hx
    rw [hm.waits, Function.update_self] at hx
    exact (Option.some.inj hx).symm
  refine ⟨?_, ?_, ?_, ?_, hm.fresh h hw, ?_, ?_, ?_, ?_, hdropped, ?_, hgave⟩
  · intro child
    rw [hm.held, h.outcomes, halike.first]
  · rw [hm.held, h.kept, halike.kept]
  · rw [hm.held, h.last, halike.failures]
  · rw [hm.held, h.generation, halike.failures]
  · intro v x hv hwatches
    rw [hm.held, halike.since]
    by_cases hvw : v = w
    · subst hvw
      obtain rfl := hself hv
      obtain ⟨hbefore, hgeneration, -⟩ := hopened hwatches
      rw [hgeneration]
      exact h.opened v wait hw hbefore
    · exact h.opened v x (hother hv hvw) hwatches
  · intro v x hv hwatches
    rw [hm.version]
    by_cases hvw : v = w
    · subst hvw
      obtain rfl := hself hv
      exact (hopened hwatches).2.2
    · exact h.seen v x (hother hv hvw) hwatches
  · intro v x hv hwaiting
    rw [halike.decision, hm.version, hm.due]
    by_cases hvw : v = w
    · subst hvw
      obtain rfl := hself hv
      rw [hchild]
      exact hawake hwaiting
    · exact h.awake v x (hother hv hvw) hwaiting
  · intro v x hv hplace
    by_cases hvw : v = w
    · subst hvw
      obtain rfl := hself hv
      exact absurd hplace hready
    · have hnot := h.ready v x (hother hv hvw) hplace
      by_contra halive
      rw [hmono (by simpa using halive)] at hnot
      cases hnot
  · rw [hm.due, hm.book]
    exact h.due

/-- A move that neither gives up nor takes a reference and logs nothing. -/
theorem StoreInv.quietMove (h : StoreInv s) (hm : Moves s s' w wait')
    (hw : s.waits w = some wait) (hlog : s'.log = s.log)
    (hchild : wait'.child = wait.child)
    (hopened : wait'.place.watches = true → wait.place.watches = true ∧
      wait'.generation = wait.generation ∧ wait'.seen ≤ s.version)
    (hawake : wait'.place.waiting = true →
      decision s.log w wait.child = none ∨ wait'.seen < s.version + s.due)
    (hready : wait'.place ≠ .ready) (halive : s'.alive = s.alive) : StoreInv s' := by
  refine h.move hm hw (hlog.trans (List.append_nil _).symm) (by simp) hchild
    hopened hawake hready (fun ha => halive ▸ ha) ?_ ?_
  · rw [halive, hlog]
    exact h.dropped
  · rw [hlog]
    exact h.gave

/-- The wait ends on a dropped store. -/
theorem StoreInv.giveDropped (h : StoreInv s) (hw : s.waits w = some wait)
    (hrest : wait.holds = false) (hgone : s.alive = false) :
    StoreInv (s.give w wait (.error .bookDropped)) := by
  have hm : Moves s (s.give w wait (.error .bookDropped)) w (wait.moveTo .done) :=
    ⟨rfl, rfl, rfl, rfl, rfl, rfl⟩
  have halive := hm.alive_eq h hw hrest rfl
  have hdropped := h.dropped.mp hgone
  refine h.move hm hw rfl (by simp [Obs.tells]) rfl (by simp [Wait.moveTo, Place.watches])
    (by simp [Wait.moveTo, Place.waiting]) (by simp [Wait.moveTo])
    (fun ha => halive ▸ ha) ?_ ?_
  · rw [halive, h.dropped]
    simp [give, setWait]
  · show Always Gave (s.log ++ [_])
    rw [always_snoc]
    refine ⟨h.gave, fun v child outcome hobs => ?_⟩
    cases hobs
    exact Or.inl ⟨hdropped, rfl⟩

/-- A reference is given up. -/
theorem StoreInv.release (h : StoreInv s) (hw : s.waits w = some wait)
    (hheld : wait.holds = true) (hchild : wait'.child = wait.child)
    (hopened : wait'.place.watches = true → wait.place.watches = true ∧
      wait'.generation = wait.generation ∧ wait'.seen ≤ s.version)
    (hawake : wait'.place.waiting = true →
      decision s.log w wait.child = none ∨ wait'.seen < s.version + s.due)
    (hready : wait'.place ≠ .ready) : StoreInv (s.setWait w wait').released := by
  have halive : s.alive = true :=
    (alive_iff h.fresh).mpr (Or.inr ⟨w, wait, hw, hheld⟩)
  have hnot : .dropped ∉ s.log := by
    rw [← h.dropped, halive]
    simp
  unfold released
  split
  · rename_i hstill
    have hm : Moves s (s.setWait w wait') w wait' := ⟨rfl, rfl, rfl, rfl, rfl, rfl⟩
    exact h.quietMove hm hw rfl hchild hopened hawake hready
      (hstill.trans halive.symm)
  · rename_i hlast
    have hgone : (s.setWait w wait').alive = false := by simpa using hlast
    have hm : Moves s { s.setWait w wait' with log := s.log ++ [.dropped] } w wait' :=
      ⟨rfl, rfl, rfl, rfl, rfl, rfl⟩
    refine h.move hm hw rfl (by simp [Obs.tells]) hchild hopened hawake hready
      (fun _ => halive) ?_ ?_
    · constructor
      · intro _
        simp
      · intro _
        exact hgone
    · show Always Gave (s.log ++ [_])
      rw [always_snoc]
      exact ⟨h.gave, fun v child outcome hobs => by cases hobs⟩

/-! ## The invariant over a step -/

/-- A lock section of a caller: the waits stand where they stood. -/
theorem StoreInv.locked (h : StoreInv s) {obs : Obs}
    (hlog : s'.log = s.log ++ [obs]) (hversion : s'.version = s.version)
    (hbook : s'.book = s.book) (hwaits : s'.waits = s.waits)
    (hnext : s'.nextWait = s.nextWait) (hduebook : 0 < s'.due → s'.book = true)
    (hdue : s.due ≤ s'.due)
    (houtcomes : ∀ child, s'.held.outcomes child =
      (firstOutcome child s.log).or (obs.outcomeOf child))
    (hkept : s'.held.kept = keptFailure s'.log)
    (hlast : s'.held.last = (failures s'.log).getLast?)
    (hgeneration : s'.held.generation = (failures s'.log).length)
    (hsince : ∀ w, failuresSince w s'.log + s.held.generation =
      failuresSince w s.log + s'.held.generation)
    (hawake : s.due < s'.due ∨
      ∀ w child, decision s.log w child = none → decision s'.log w child = none)
    (hobs : ∀ w child outcome, obs ≠ .gave w child outcome) (hdrop : obs ≠ .dropped) :
    StoreInv s' := by
  have halive : s'.alive = s.alive := by
    unfold alive
    rw [hbook, hwaits, hnext]
  refine ⟨?_, hkept, hlast, hgeneration, ?_, ?_, ?_, ?_, ?_, ?_, hduebook, ?_⟩
  · intro child
    rw [hlog, firstOutcome_snoc]
    exact houtcomes child
  · rw [hnext, hwaits]
    exact h.fresh
  · rw [hwaits]
    intro w wait hw hwatches
    have hopened := h.opened w wait hw hwatches
    have hboth := hsince w
    omega
  · rw [hwaits, hversion]
    exact h.seen
  · rw [hwaits]
    intro w wait hw hwaiting
    rcases hawake with hmore | hkeep
    · have hle : wait.seen ≤ s.version := by
        refine h.seen w wait hw ?_
        cases hp : wait.place <;> rw [hp] at hwaiting <;> first | rfl | cases hwaiting
      right
      omega
    · rcases h.awake w wait hw hwaiting with hnone | hlt
      · exact Or.inl (hkeep w wait.child hnone)
      · right
        omega
  · rw [hwaits, halive]
    exact h.ready
  · rw [halive, h.dropped, hlog, List.mem_append, List.mem_singleton]
    constructor
    · exact Or.inl
    · rintro (hin | rfl)
      · exact hin
      · exact absurd rfl hdrop
  · rw [hlog, always_snoc]
    exact ⟨h.gave, fun w child outcome heq => absurd heq (hobs w child outcome)⟩

theorem StoreInv.record (h : StoreInv s) (hbook : s.book = true) (child : Uuid)
    (outcome : Outcome) : StoreInv (s.record child outcome) := by
  have hkept : keptFailure (s.record child outcome).log = keptFailure s.log :=
    keptFailure_snoc ..
  have hfailures : failures (s.record child outcome).log = failures s.log := by
    simp [Sys.record, failures_snoc, Obs.failure]
  have hsince : ∀ w, failuresSince w (s.record child outcome).log =
      failuresSince w s.log := fun w => failuresSince_snoc ..
  cases hheld : s.held.outcomes child with
  | some first =>
      have hsame : s.held.record child outcome = (false, s.held) := by
        simp [Held.record, hheld]
      have hfirst : ∀ c, firstOutcome c (s.log ++ [.recorded child outcome]) =
          firstOutcome c s.log := by
        intro c
        rw [firstOutcome_snoc]
        by_cases hc : child = c
        · subst hc
          rw [← h.outcomes, hheld]
          rfl
        · simp [Obs.outcomeOf, hc]
      refine h.locked rfl rfl rfl rfl rfl (fun _ => hbook) ?_ ?_ ?_ ?_ ?_ ?_ ?_
        (by simp) (by simp)
      · simp [Sys.record, hsame]
      · intro c
        rw [← firstOutcome_snoc, hfirst, ← h.outcomes]
        simp [Sys.record, hsame]
      · rw [hkept, ← h.kept]
        simp [Sys.record, hsame]
      · rw [hfailures, ← h.last]
        simp [Sys.record, hsame]
      · rw [hfailures, ← h.generation]
        simp [Sys.record, hsame]
      · intro w
        rw [hsince]
        simp [Sys.record, hsame]
      · right
        intro w c hnone
        simp only [decision, hkept, hfailures, hsince]
        rw [show (s.record child outcome).log = s.log ++ [.recorded child outcome] from rfl,
          hfirst]
        exact hnone
  | none =>
      have hstored : s.held.record child outcome = (true,
          { s.held with
            outcomes := Function.update s.held.outcomes child (some outcome) }) := by
        simp [Held.record, hheld]
      refine h.locked rfl rfl rfl rfl rfl (fun _ => hbook) ?_ ?_ ?_ ?_ ?_ ?_ ?_
        (by simp) (by simp)
      · simp [Sys.record, hstored]
      · intro c
        by_cases hc : child = c
        · subst hc
          rw [← h.outcomes, hheld]
          simp [Sys.record, hstored, Obs.outcomeOf]
        · simp only [Sys.record, hstored, Function.update_of_ne (Ne.symm hc)]
          rw [h.outcomes]
          simp [Obs.outcomeOf, hc]
      · rw [hkept, ← h.kept]
        simp [Sys.record, hstored]
      · rw [hfailures, ← h.last]
        simp [Sys.record, hstored]
      · rw [hfailures, ← h.generation]
        simp [Sys.record, hstored]
      · intro w
        rw [hsince]
        simp [Sys.record, hstored]
      · left
        simp [Sys.record, hstored]

theorem StoreInv.failed (h : StoreInv s) (hbook : s.book = true) (error : Error) :
    StoreInv { s with
      held := s.held.infraMissing error
      due := s.due + 1
      log := s.log ++ [.failed error] } := by
  refine h.locked rfl rfl rfl rfl rfl (fun _ => hbook) (Nat.le_succ _) ?_ ?_ ?_ ?_ ?_
    (Or.inl (Nat.lt_succ_self _)) (by simp) (by simp)
  · intro child
    simp [Held.infraMissing, h.outcomes, Obs.outcomeOf]
  · rw [keptFailure_snoc]
    rfl
  · rw [failures_snoc]
    simp [Held.infraMissing, Obs.failure]
  · rw [failures_snoc]
    simp [Held.infraMissing, Obs.failure, h.generation]
  · intro w
    rw [failuresSince_snoc]
    simp only [Held.infraMissing]
    omega

theorem StoreInv.reopen (h : StoreInv s) (hbook : s.book = true) :
    StoreInv s.arrivalOpenAgain := by
  have hfailures : failures s.arrivalOpenAgain.log = failures s.log := by
    simp [arrivalOpenAgain, failures_snoc, Obs.failure]
  refine h.locked rfl rfl rfl rfl rfl (fun _ => hbook) (Nat.le_refl _) ?_ ?_ ?_ ?_ ?_
    (Or.inr fun w child hnone => decision_reopened hnone) (by simp) (by simp)
  · intro child
    simp [arrivalOpenAgain, Held.reopened, h.outcomes, Obs.outcomeOf]
  · show none = keptFailure (s.log ++ [.reopened])
    rw [keptFailure_snoc]
  · rw [hfailures]
    exact h.last
  · rw [hfailures]
    exact h.generation
  · intro w
    show failuresSince w (s.log ++ [.reopened]) + s.held.generation = _
    rw [failuresSince_snoc]
    rfl

theorem StoreInv.arrival (h : StoreInv s) (hbook : s.book = true)
    (event : Arrival) : StoreInv (s.arrival event) := by
  cases event with
  | item item => exact h
  | syncEnd child ended => exact h.record hbook child (.ok ended)
  | unreadable child error =>
      cases child with
      | none => exact h
      | some child => exact h.record hbook child (.error error)

theorem StoreInv.arrivalEnded (h : StoreInv s) (hbook : s.book = true)
    (error : Error) : StoreInv (s.arrivalEnded error) := by
  unfold Sys.arrivalEnded
  split
  · exact h
  · split
    · exact h.failed hbook error
    · exact h

theorem StoreInv.signal (h : StoreInv s) (hdue : s.due ≠ 0) : StoreInv s.signal where
  outcomes := h.outcomes
  kept := h.kept
  last := h.last
  generation := h.generation
  fresh := h.fresh
  opened := h.opened
  seen := fun w wait hw hwatches => Nat.le_succ_of_le (h.seen w wait hw hwatches)
  awake := by
    intro w wait hw hwaiting
    rcases h.awake w wait hw hwaiting with hnone | hlt
    · exact Or.inl hnone
    · right
      simp only [Sys.signal]
      omega
  ready := h.ready
  dropped := h.dropped
  due := by
    intro hpos
    refine h.due ?_
    omega
  gave := h.gave

theorem StoreInv.dropBook (h : StoreInv s) (hbook : s.book = true)
    (hdue : s.due = 0) : StoreInv s.dropBook := by
  have hnot : .dropped ∉ s.log := by
    rw [← h.dropped]
    simp [alive, hbook]
  -- without the book the waits alone keep the store
  have hrest : ∀ more : List Obs, (∀ obs ∈ more, obs = .dropped) →
      (({ s with book := false } : Sys).alive = false ↔ .dropped ∈ s.log ++ more) →
      StoreInv { s with book := false, log := s.log ++ more } := by
    intro more hmore hdropped
    have hquiet : ∀ obs ∈ more, obs.tells = false := by
      intro obs hobs
      rw [hmore obs hobs]
      rfl
    have halike : Alike s.log (s.log ++ more) := alike_append hquiet
    refine ⟨?_, ?_, ?_, ?_, h.fresh, ?_, h.seen, ?_, ?_, hdropped, ?_, ?_⟩
    · intro child
      rw [halike.first]
      exact h.outcomes child
    · rw [halike.kept]
      exact h.kept
    · rw [halike.failures]
      exact h.last
    · rw [halike.failures]
      exact h.generation
    · intro w wait hw hwatches
      rw [halike.since]
      exact h.opened w wait hw hwatches
    · intro w wait hw hwaiting
      rw [halike.decision]
      exact h.awake w wait hw hwaiting
    · intro w wait hw hplace
      have halive := h.ready w wait hw hplace
      simp [alive, hbook] at halive
    · intro hpos
      rw [hdue] at hpos
      cases hpos
    · refine always_append h.gave fun obs hobs pre w child outcome heq => ?_
      rw [hmore obs hobs] at heq
      cases heq
  unfold Sys.dropBook released
  split
  · rename_i hstill
    have hsame := hrest [] (by simp) (by simp [hstill, hnot])
    rw [List.append_nil] at hsame
    exact hsame
  · rename_i hgone
    exact hrest [.dropped] (by simp) (by simpa using hgone)

/-- A new wait; on a dropped store it is ready at once. -/
theorem StoreInv.watching (h : StoreInv s) (child : Uuid) :
    StoreInv (s.watching child) := by
  have hother : ∀ {v x}, (s.watching child).waits v = some x →
      x.place = (if s.alive then .opening else .ready) ∨ s.waits v = some x := by
    intro v x hv
    by_cases hvn : v = s.nextWait
    · subst hvn
      simp only [Sys.watching, Function.update_self] at hv
      cases hv
      exact Or.inl rfl
    · simp only [Sys.watching, Function.update_of_ne hvn] at hv
      exact Or.inr hv
  have hnew : ∀ {x : Wait}, x.place = (if s.alive then .opening else .ready) →
      x.place.watches = false ∧ x.place.waiting = false := by
    intro x hx
    rw [hx]
    split <;> exact ⟨rfl, rfl⟩
  have hfresh : ∀ w, (s.watching child).nextWait ≤ w →
      (s.watching child).waits w = none := by
    intro w hw
    have hlt : s.nextWait < w := hw
    simp only [Sys.watching, Function.update_of_ne (Nat.ne_of_gt hlt)]
    exact h.fresh w (Nat.le_of_lt hlt)
  have halive : (s.watching child).alive = s.alive := by
    refine Bool.eq_iff_iff.mpr ?_
    rw [alive_iff hfresh, alive_iff h.fresh]
    constructor
    · rintro (hbook | ⟨v, x, hv, hholds⟩)
      · exact Or.inl hbook
      · rcases hother hv with hplace | hv
        · refine (alive_iff h.fresh).mp ?_
          by_contra hnot
          rw [if_neg hnot] at hplace
          simp [Wait.holds, hplace] at hholds
        · exact Or.inr ⟨v, x, hv, hholds⟩
    · rintro (hbook | ⟨v, x, hv, hholds⟩)
      · exact Or.inl hbook
      · refine Or.inr ⟨v, x, ?_, hholds⟩
        have hvn : v ≠ s.nextWait := by
          rintro rfl
          rw [h.fresh _ (Nat.le_refl _)] at hv
          cases hv
        simpa only [Sys.watching, Function.update_of_ne hvn] using hv
  refine ⟨h.outcomes, h.kept, h.last, h.generation, hfresh, ?_, ?_, ?_, ?_, ?_,
    h.due, h.gave⟩
  · intro v x hv hwatches
    rcases hother hv with hplace | hv
    · rw [(hnew hplace).1] at hwatches
      cases hwatches
    · exact h.opened v x hv hwatches
  · intro v x hv hwatches
    rcases hother hv with hplace | hv
    · rw [(hnew hplace).1] at hwatches
      cases hwatches
    · exact h.seen v x hv hwatches
  · intro v x hv hwaiting
    rcases hother hv with hplace | hv
    · rw [(hnew hplace).2] at hwaiting
      cases hwaiting
    · exact h.awake v x hv hwaiting
  · intro v x hv hready
    rw [halive]
    rcases hother hv with hplace | hv
    · rw [hready] at hplace
      split at hplace
      · cases hplace
      · simpa using ‹¬ s.alive = true›
    · exact h.ready v x hv hready
  · rw [halive]
    exact h.dropped

/-- The section of `open`. -/
theorem StoreInv.openSection (h : StoreInv s) (hw : s.waits w = some wait)
    (hplace : wait.place = .opening) : StoreInv (s.openSection w wait) := by
  have hm : Moves s (s.openSection w wait) w
      ⟨wait.child, s.held.generation, s.version, .opened⟩ :=
    ⟨rfl, rfl, rfl, rfl, rfl, rfl⟩
  have halive : s.alive = true :=
    (alive_iff h.fresh).mpr (Or.inr ⟨w, wait, hw, by simp [Wait.holds, hplace]⟩)
  have hstill : (s.openSection w wait).alive = true := hm.alive_of_holds h hw rfl
  have hfirst : ∀ c, firstOutcome c (s.log ++ [.opened w]) = firstOutcome c s.log := by
    intro c
    simp [firstOutcome_snoc, Obs.outcomeOf]
  have hfailures : failures (s.log ++ [.opened w]) = failures s.log := by
    simp [failures_snoc, Obs.failure]
  have hkept : keptFailure (s.log ++ [.opened w]) = keptFailure s.log :=
    keptFailure_snoc ..
  have hother : ∀ {v x}, (s.openSection w wait).waits v = some x → v ≠ w →
      s.waits v = some x := by
    intro v x hv hne
    rwa [hm.waits, Function.update_of_ne hne] at hv
  have hself : ∀ {x}, (s.openSection w wait).waits w = some x →
      x = ⟨wait.child, s.held.generation, s.version, .opened⟩ := by
    intro x hx
    rw [hm.waits, Function.update_self] at hx
    exact (Option.some.inj hx).symm
  refine ⟨fun c => (h.outcomes c).trans (hfirst c).symm, h.kept.trans hkept.symm, ?_,
    ?_, hm.fresh h hw, ?_, ?_, ?_, ?_, ?_, h.due, ?_⟩
  · show s.held.last = (failures (s.log ++ [.opened w])).getLast?
    rw [hfailures]
    exact h.last
  · show s.held.generation = (failures (s.log ++ [.opened w])).length
    rw [hfailures]
    exact h.generation
  · intro v x hv hwatches
    show x.generation + failuresSince v (s.log ++ [.opened w]) = s.held.generation
    rw [failuresSince_snoc]
    by_cases hvw : v = w
    · subst hvw
      obtain rfl := hself hv
      simp
    · simp only [if_neg (Ne.symm hvw)]
      exact h.opened v x (hother hv hvw) hwatches
  · intro v x hv hwatches
    by_cases hvw : v = w
    · subst hvw
      obtain rfl := hself hv
      exact Nat.le_refl _
    · exact h.seen v x (hother hv hvw) hwatches
  · intro v x hv hwaiting
    by_cases hvw : v = w
    · subst hvw
      obtain rfl := hself hv
      cases hwaiting
    · show decision (s.log ++ [.opened w]) v x.child = none ∨ _
      rw [decision_opened _ (Ne.symm hvw)]
      exact h.awake v x (hother hv hvw) hwaiting
  · intro v x hv hready
    by_cases hvw : v = w
    · subst hvw
      obtain rfl := hself hv
      cases hready
    · rw [h.ready v x (hother hv hvw) hready] at halive
      cases halive
  · rw [hstill]
    have hnot : .dropped ∉ s.log := by
      rw [← h.dropped, halive]
      simp
    simp [Sys.openSection, setWait, hnot]
  · show Always Gave (s.log ++ [_])
    rw [always_snoc]
    exact ⟨h.gave, fun v c outcome heq => by cases heq⟩

theorem StoreInv.decideSection (h : StoreInv s) (hw : s.waits w = some wait)
    (hplace : wait.place = .upgraded) : StoreInv (s.decideSection w wait) := by
  have hwatches : wait.place.watches = true := by
    rw [hplace]
    rfl
  have hdecide := h.decide_eq hw hwatches
  have halive : s.alive = true :=
    (alive_iff h.fresh).mpr (Or.inr ⟨w, wait, hw, by simp [Wait.holds, hplace]⟩)
  have hnot : .dropped ∉ s.log := by
    rw [← h.dropped, halive]
    simp
  have hm : Moves s (s.decideSection w wait) w (wait.moveTo
      (.decided (s.held.decide wait.child wait.generation))) :=
    ⟨rfl, rfl, rfl, rfl, rfl, rfl⟩
  have hstill : (s.decideSection w wait).alive = true := hm.alive_of_holds h hw rfl
  have hopened := h.seen w wait hw hwatches
  cases hd : s.held.decide wait.child wait.generation with
  | none =>
      have hlog : (s.decideSection w wait).log = s.log := by
        simp [Sys.decideSection, hd]
      refine h.quietMove hm hw hlog rfl (fun _ => ⟨hwatches, rfl, hopened⟩) ?_
        (by simp [Wait.moveTo]) (hstill.trans halive.symm)
      intro _
      left
      rw [← hdecide, hd]
  | some outcome =>
      have hlog : (s.decideSection w wait).log =
          s.log ++ [.gave w wait.child outcome] := by
        simp [Sys.decideSection, hd]
      refine h.move hm hw hlog (by simp [Obs.tells]) rfl
        (fun _ => ⟨hwatches, rfl, hopened⟩) ?_ (by simp [Wait.moveTo])
        (fun _ => halive) ?_ ?_
      · rw [hd]
        intro hwaiting
        cases hwaiting
      · rw [hstill, hlog]
        simp [hnot]
      · rw [hlog, always_snoc]
        refine ⟨h.gave, fun v c told heq => ?_⟩
        cases heq
        exact Or.inr ⟨hnot, by rw [← hdecide, hd]⟩

theorem StoreInv.check (h : StoreInv s) (hw : s.waits w = some wait)
    (hplace : wait.place = .checking) : StoreInv (s.check w wait) := by
  have hwatches : wait.place.watches = true := by
    rw [hplace]
    rfl
  have hrest : wait.holds = false := by simp [Wait.holds, hplace]
  have hawake := h.awake w wait hw (by rw [hplace]; rfl)
  unfold Sys.check
  split
  · have hm : Moves s (s.setWait w { wait with seen := s.version, place := .top }) w
        { wait with seen := s.version, place := .top } := ⟨rfl, rfl, rfl, rfl, rfl, rfl⟩
    exact h.quietMove hm hw rfl rfl (fun _ => ⟨hwatches, rfl, Nat.le_refl _⟩)
      (fun hwaiting => by cases hwaiting) (by simp) (hm.alive_eq h hw hrest rfl)
  · split
    · have hm : Moves s (s.setWait w (wait.moveTo .parked)) w (wait.moveTo .parked) :=
        ⟨rfl, rfl, rfl, rfl, rfl, rfl⟩
      exact h.quietMove hm hw rfl rfl
        (fun _ => ⟨hwatches, rfl, h.seen w wait hw hwatches⟩) (fun _ => hawake)
        (by simp [Wait.moveTo]) (hm.alive_eq h hw hrest rfl)
    · rename_i hgone
      exact h.giveDropped hw hrest (by simpa using hgone)

theorem StoreInv.waitStep (h : StoreInv s) (hw : s.waits w = some wait)
    (hs : s.waitStep w wait = some s') : StoreInv s' := by
  have hseen := h.seen w wait hw
  unfold Sys.waitStep at hs
  split at hs <;> cases hs
  · rename_i hplace
    exact h.openSection hw hplace
  · rename_i hplace
    have hwatches : wait.place.watches = true := by rw [hplace]; rfl
    exact h.release hw (by simp [Wait.holds, hplace]) rfl
      (fun _ => ⟨hwatches, rfl, hseen hwatches⟩)
      (fun hwaiting => by cases hwaiting) (by simp [Wait.moveTo])
  · rename_i hplace
    have hrest : wait.holds = false := by simp [Wait.holds, hplace]
    have hwatches : wait.place.watches = true := by rw [hplace]; rfl
    unfold Sys.upgrade
    split
    · rename_i halive
      have hm : Moves s (s.setWait w (wait.moveTo .upgraded)) w
          (wait.moveTo .upgraded) := ⟨rfl, rfl, rfl, rfl, rfl, rfl⟩
      exact h.quietMove hm hw rfl rfl (fun _ => ⟨hwatches, rfl, hseen hwatches⟩)
        (fun hwaiting => by cases hwaiting) (by simp [Wait.moveTo])
        ((hm.alive_of_holds h hw rfl).trans halive.symm)
    · rename_i hgone
      exact h.giveDropped hw hrest (by simpa using hgone)
  · rename_i hplace
    exact h.decideSection hw hplace
  · rename_i decision hplace
    have hheld : wait.holds = true := by simp [Wait.holds, hplace]
    have hwatches : wait.place.watches = true := by rw [hplace]; rfl
    cases decision with
    | some outcome =>
        exact h.release hw hheld rfl (fun hwatch => by cases hwatch)
          (fun hwaiting => by cases hwaiting) (by simp [Wait.moveTo])
    | none =>
        exact h.release hw hheld rfl (fun _ => ⟨hwatches, rfl, hseen hwatches⟩)
          (fun _ => h.awake w wait hw (by rw [hplace]; rfl)) (by simp [Wait.moveTo])
  · rename_i hplace
    exact h.check hw hplace

theorem StoreInv.poll (h : StoreInv s) (hw : s.waits w = some wait)
    (hs : s.poll w wait = some s') : StoreInv s' := by
  have hseen := h.seen w wait hw
  unfold Sys.poll at hs
  split at hs <;> cases hs
  · rename_i hplace
    have hwatches : wait.place.watches = true := by rw [hplace]; rfl
    have hm : Moves s (s.setWait w (wait.moveTo .top)) w (wait.moveTo .top) :=
      ⟨rfl, rfl, rfl, rfl, rfl, rfl⟩
    exact h.quietMove hm hw rfl rfl (fun _ => ⟨hwatches, rfl, hseen hwatches⟩)
      (fun hwaiting => by cases hwaiting) (by simp [Wait.moveTo])
      (hm.alive_eq h hw (by simp [Wait.holds, hplace]) rfl)
  · rename_i hplace
    have hwatches : wait.place.watches = true := by rw [hplace]; rfl
    have hm : Moves s (s.setWait w (wait.moveTo .checking)) w
        (wait.moveTo .checking) := ⟨rfl, rfl, rfl, rfl, rfl, rfl⟩
    exact h.quietMove hm hw rfl rfl (fun _ => ⟨hwatches, rfl, hseen hwatches⟩)
      (fun _ => h.awake w wait hw (by rw [hplace]; rfl)) (by simp [Wait.moveTo])
      (hm.alive_eq h hw (by simp [Wait.holds, hplace]) rfl)
  · rename_i hplace
    exact h.giveDropped hw (by simp [Wait.holds, hplace]) (h.ready w wait hw hplace)

theorem StoreInv.abandon (h : StoreInv s) (hw : s.waits w = some wait)
    (hs : s.abandon w wait = some s') : StoreInv s' := by
  obtain ⟨hrest, rfl⟩ : wait.holds = false ∧
      s' = { s with waits := Function.update s.waits w none } := by
    unfold Sys.abandon at hs
    split at hs <;> cases hs <;> exact ⟨by simp [Wait.holds, *], rfl⟩
  have hother : ∀ {v x}, Function.update s.waits w none v = some x →
      s.waits v = some x := by
    intro v x hv
    by_cases hvw : v = w
    · subst hvw
      rw [Function.update_self] at hv
      cases hv
    · rwa [Function.update_of_ne hvw] at hv
  have hfresh : ∀ v, s.nextWait ≤ v → Function.update s.waits w none v = none := by
    intro v hv
    by_cases hvw : v = w
    · subst hvw
      exact Function.update_self ..
    · rw [Function.update_of_ne hvw]
      exact h.fresh v hv
  have halive : ({ s with waits := Function.update s.waits w none } : Sys).alive =
      s.alive := by
    refine Bool.eq_iff_iff.mpr ?_
    rw [alive_iff hfresh, alive_iff h.fresh]
    constructor
    · rintro (hbook | ⟨v, x, hv, hholds⟩)
      · exact Or.inl hbook
      · exact Or.inr ⟨v, x, hother hv, hholds⟩
    · rintro (hbook | ⟨v, x, hv, hholds⟩)
      · exact Or.inl hbook
      · refine Or.inr ⟨v, x, ?_, hholds⟩
        have hvw : v ≠ w := by
          rintro rfl
          rw [hw] at hv
          cases hv
          rw [hrest] at hholds
          cases hholds
        show Function.update s.waits w none v = some x
        rwa [Function.update_of_ne hvw]
  refine ⟨h.outcomes, h.kept, h.last, h.generation, hfresh, ?_, ?_, ?_, ?_, ?_,
    h.due, h.gave⟩
  · exact fun v x hv => h.opened v x (hother hv)
  · exact fun v x hv => h.seen v x (hother hv)
  · exact fun v x hv => h.awake v x (hother hv)
  · intro v x hv hready
    rw [halive]
    exact h.ready v x (hother hv) hready
  · rw [halive]
    exact h.dropped

theorem StoreInv.step (h : StoreInv s) {e : Event} (hs : s.step e = some s') :
    StoreInv s' := by
  cases e with
  | arrival event =>
      simp only [Sys.step] at hs
      split at hs <;> cases hs
      exact h.arrival ‹_› event
  | arrivalEnded error =>
      simp only [Sys.step] at hs
      split at hs <;> cases hs
      exact h.arrivalEnded ‹_› error
  | arrivalOpenAgain =>
      simp only [Sys.step] at hs
      split at hs <;> cases hs
      exact h.reopen ‹_›
  | signal =>
      simp only [Sys.step] at hs
      split at hs <;> cases hs
      exact h.signal ‹_›
  | dropBook =>
      simp only [Sys.step] at hs
      split at hs <;> cases hs
      rename_i hboth
      exact h.dropBook hboth.1 hboth.2
  | watching child =>
      cases hs
      exact h.watching child
  | poll w =>
      obtain ⟨wait, hw, hs⟩ := Option.bind_eq_some_iff.mp hs
      exact h.poll hw hs
  | step w =>
      obtain ⟨wait, hw, hs⟩ := Option.bind_eq_some_iff.mp hs
      exact h.waitStep hw hs
  | abandon w =>
      obtain ⟨wait, hw, hs⟩ := Option.bind_eq_some_iff.mp hs
      exact h.abandon hw hs

theorem storeInv (h : machine.Reachable s) : StoreInv s :=
  h.invariant (P := StoreInv) storeInv_init fun hp hs => hp.step hs

end Sys

/-! ## The waits of a book -/

/-- What the waits of a book can rely on, in one state. -/
structure EndsReachWaits (s : Sys) : Prop where
  /-- A wait gives `BookDropped` behind the drop of the store, else the decision
  of the log. -/
  gave : Always Gave s.log
  dropped : s.alive = false ↔ .dropped ∈ s.log
  /-- The first outcome of a child stays. -/
  first_stays : ∀ child, s.held.outcomes child = firstOutcome child s.log
  /-- A parked wait that sees no change has nothing to give yet, or a signal is
  on its way. -/
  no_lost_wakeup : ∀ w wait, s.waits w = some wait → wait.place = .parked →
    wait.seen = s.version →
      decision s.log w wait.child = none ∨ 0 < s.due

namespace Sys

variable {s : Sys}

theorem ends_reach_waits (h : machine.Reachable s) : EndsReachWaits s := by
  have hinv := storeInv h
  refine ⟨hinv.gave, hinv.dropped, hinv.outcomes, ?_⟩
  intro w wait hw hparked hseen
  rcases hinv.awake w wait hw (by rw [hparked]; rfl) with hnone | hlt
  · exact Or.inl hnone
  · right
    omega

/-- A wait is opened and parks, the feed ends and is open again, and the wait
gives the failure when it is polled. -/
def reopenedRun : List Event :=
  [.watching 7, .step 0, .step 0, .poll 0, .step 0, .step 0, .step 0, .step 0,
    .arrivalEnded (.infraMissing "gone"), .arrivalOpenAgain, .signal, .poll 0,
    .step 0, .step 0, .step 0]

theorem ends_reach_waits_reopenedRun :
    ∃ s, machine.run reopenedRun = some s ∧ EndsReachWaits s ∧
      s.log.getLast? = some (.gave 0 7 (.error (.infraMissing "gone"))) :=
  ⟨_, rfl, ends_reach_waits (Machine.reachable_of_run reopenedRun rfl), rfl⟩

/-- The end of the child is stored; its signal is still to come. -/
def beforeSignalRun : List Event :=
  [.watching 7, .step 0, .step 0, .poll 0, .step 0, .step 0, .step 0, .step 0,
    .arrival (.syncEnd 7 (.cancelled "by the user"))]

/-- Every parked wait that sees no change has nothing to give. -/
def SleepsOnNothing (s : Sys) : Prop :=
  ∀ w wait, s.waits w = some wait → wait.place = .parked → wait.seen = s.version →
    decision s.log w wait.child = none

/-- The lock section of `record` and its signal are two steps: between them a
parked wait sleeps on an outcome. -/
theorem sleeps_before_signal : ¬ ∀ s, machine.Reachable s → SleepsOnNothing s := by
  intro h
  have hnone := h _ (Machine.reachable_of_run beforeSignalRun rfl) 0 _ rfl rfl rfl
  cases hnone

end Sys

end RunnerKit.EndWait
