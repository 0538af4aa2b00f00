import RunnerKit.Kit.Presence
import RunnerKit.Lib.Log

/-!
# What the presence tells of the loop

The session is polled at each head of the loop, and drains with the loop. So
whenever the loop waits, what was written last says whether it takes triggers,
and is not older than the interval; and the steps of the loop itself are those
of `RunLoop`.
-/

namespace RunnerKit.Kit.Present

open RunnerKit.Jobs RunnerKit.Lib

variable {decode : Value → Decoded} {pool : SlotPool} {presence : PresenceSession}

/-! ## Steps of the loop -/

section Loop

variable {loop loop' : Kit.Sys} {event : Kit.Event}

/-- A task ends or is dropped beside the loop. -/
theorem task_step (htask : ofTask event = true) (hs : loop.step decode event = some loop') :
    loop'.draining = loop.draining := by
  cases event with
  | ended number workload =>
      obtain ⟨task, -, hs⟩ := Option.bind_eq_some_iff.mp hs
      split at hs
      · cases hs
        unfold Kit.Sys.taskEnded
        split <;> rfl
      · cases hs
  | dropped number =>
      simp only [Kit.Sys.step] at hs
      split at hs
      · obtain ⟨task, -, hs⟩ := Option.bind_eq_some_iff.mp hs
        split at hs
        · cases hs
          rfl
        · cases hs
      · cases hs
  | _ => cases htask

/-- What a step of the loop itself does, as far as the presence is about it. -/
structure LoopStep (event : Kit.Event) (loop loop' : Kit.Sys) : Prop where
  draining : loop'.draining = (loop.draining || isShutdown event)
  shutdown : isShutdown event = true → loop.draining = false ∧ loop'.point = .head
  message : isMessage event = true → loop.draining = false

theorem draining_acceptTrigger (trigger : Option Trigger) :
    (loop.acceptTrigger trigger).draining = loop.draining := by
  unfold Kit.Sys.acceptTrigger
  cases trigger with
  | none => rfl
  | some trigger =>
      by_cases hcancelled : loop.cancels.isCancelled trigger.runId = true
      · simp [hcancelled]
      · simp only [hcancelled, Bool.false_eq_true, if_false]
        cases loop.slots.tryClaim trigger.runId with
        | mk decision slots => cases decision <;> rfl

theorem loop_step (htask : ofTask event = false) (hs : loop.step decode event = some loop') :
    LoopStep event loop loop' := by
  cases event with
  | shutdown =>
      simp only [Kit.Sys.step, Option.ite_none_right_eq_some, Option.some.injEq,
        Bool.and_eq_true, Bool.not_eq_true'] at hs
      obtain ⟨⟨hselecting, hdraining⟩, rfl⟩ := hs
      have hhead : loop.point = .head := by
        unfold Kit.Sys.selecting at hselecting
        split at hselecting
        · assumption
        · cases hselecting
      exact ⟨by simp [isShutdown], fun _ => ⟨hdraining, hhead⟩, by simp [isMessage]⟩
  | deadline =>
      simp only [Kit.Sys.step, Option.ite_none_right_eq_some, Option.some.injEq,
        Bool.and_eq_true] at hs
      obtain ⟨-, rfl⟩ := hs
      exact ⟨by simp [isShutdown], by simp [isShutdown], by simp [isMessage]⟩
  | message trigger =>
      simp only [Kit.Sys.step, Option.ite_none_right_eq_some, Option.some.injEq,
        Bool.and_eq_true, Bool.not_eq_true'] at hs
      obtain ⟨⟨⟨-, hdraining⟩, -⟩, rfl⟩ := hs
      exact ⟨by simp [draining_acceptTrigger, isShutdown], by simp [isShutdown],
        fun _ => hdraining⟩
  | published accepted =>
      simp only [Kit.Sys.step] at hs
      split at hs
      · cases hs
        refine ⟨?_, by simp [isShutdown], by simp [isMessage]⟩
        cases accepted <;> simp [Kit.Sys.publishedStarted, isShutdown]
      · cases hs
  | settled =>
      simp only [Kit.Sys.step] at hs
      split at hs
      · cases hs
        exact ⟨by simp [isShutdown], by simp [isShutdown], by simp [isMessage]⟩
      · cases hs
        exact ⟨by simp [Kit.Sys.spawn, isShutdown], by simp [isShutdown], by simp [isMessage]⟩
      · cases hs
  | cancel change =>
      simp only [Kit.Sys.step, Option.ite_none_right_eq_some, Option.some.injEq] at hs
      obtain ⟨-, rfl⟩ := hs
      refine ⟨?_, by simp [isShutdown], by simp [isMessage]⟩
      cases change <;> simp [Kit.Sys.onCancel, isShutdown]
  | join number =>
      simp only [Kit.Sys.step, Option.ite_none_right_eq_some] at hs
      obtain ⟨-, hs⟩ := hs
      obtain ⟨task, -, hs⟩ := Option.bind_eq_some_iff.mp hs
      refine ⟨?_, by simp [isShutdown], by simp [isMessage]⟩
      unfold Kit.Sys.joinNext at hs
      split at hs
      · cases hs
      · cases hs
        simp [isShutdown]
      · cases hs
        simp [isShutdown]
  | leave =>
      simp only [Kit.Sys.step] at hs
      split at hs
      · simp only [Option.ite_none_right_eq_some, Option.some.injEq] at hs
        obtain ⟨-, rfl⟩ := hs
        exact ⟨by simp [isShutdown], by simp [isShutdown], by simp [isMessage]⟩
      · cases hs
  | ended number workload => cases htask
  | dropped number => cases htask

end Loop

/-! ## The session -/

section Session

variable {session : PresenceSession} {phase : Phase} {action : PresenceAction}

theorem action_of_open (h : phase ≠ .closed) : ∃ action, phase.action = some action := by
  cases phase with
  | ready => exact ⟨_, rfl⟩
  | draining => exact ⟨_, rfl⟩
  | closed => exact absurd rfl h

theorem action_ne_delete (h : phase.action = some action) : action ≠ .delete := by
  rintro rfl
  cases phase <;> cases h

theorem ready_iff (h : phase.action = some action) :
    action = .publishReady ↔ phase = .ready := by
  cases phase <;> cases h <;> simp

/-- A poll gives what the phase publishes, as soon as the interval is over. -/
theorem poll_cases (hopen : session.phase ≠ .closed) (now : ℕ) :
    (∃ action, session.phase.action = some action ∧
      (∀ last, session.lastPublish = some last → last + session.interval ≤ now) ∧
      session.poll now = (some action, { session with lastPublish := some now })) ∨
    ∃ last, session.lastPublish = some last ∧ now < last + session.interval ∧
      session.poll now = (none, session) := by
  obtain ⟨action, haction⟩ := action_of_open hopen
  cases hlast : session.lastPublish with
  | none =>
      refine Or.inl ⟨action, haction, by simp, ?_⟩
      simp [PresenceSession.poll, haction, PresenceSession.isDue, PresenceSession.nextDue, hopen,
        hlast]
  | some last =>
      by_cases hdue : last + session.interval ≤ now
      · refine Or.inl ⟨action, haction, by simpa using hdue, ?_⟩
        simp [PresenceSession.poll, haction, PresenceSession.isDue, PresenceSession.nextDue, hopen,
          hlast, hdue]
      · refine Or.inr ⟨last, rfl, Nat.lt_of_not_le hdue, ?_⟩
        simp [PresenceSession.poll, haction, PresenceSession.isDue, PresenceSession.nextDue, hopen,
          hlast, hdue]

/-- A session that could be made is ready, and has an interval. -/
theorem of_new {ttl interval : ℕ} (h : PresenceSession.new ttl interval = .ok session) :
    session = ⟨interval, .ready, none⟩ ∧ 0 < interval ∧ interval < ttl := by
  unfold PresenceSession.new at h
  split at h
  · cases h
  · rename_i hzero
    split at h
    · cases h
    · rename_i httl
      cases h
      exact ⟨rfl, Nat.pos_of_ne_zero hzero, Nat.lt_of_not_le httl⟩

end Session

/-! ## The log -/

/-- What was written last, and when. -/
def Obs.write : Obs → Option (Option (PresenceAction × ℕ))
  | .wrote action time => some (some (action, time))
  | .took _ => none

def lastWrite (log : List Obs) : Option (PresenceAction × ℕ) := said Obs.write log

theorem lastWrite_wrote (log : List Obs) (action : PresenceAction) (time : ℕ) :
    lastWrite (log ++ [.wrote action time]) = some (action, time) := by
  simp [lastWrite, said_snoc, Obs.write]

theorem lastWrite_took (log : List Obs) (time : ℕ) :
    lastWrite (log ++ [.took time]) = lastWrite log := by
  simp [lastWrite, said_snoc, Obs.write]

theorem mem_of_lastWrite {log : List Obs} {action : PresenceAction} {time : ℕ}
    (h : lastWrite log = some (action, time)) : .wrote action time ∈ log := by
  induction log using List.reverseRecOn with
  | nil => cases h
  | append_singleton log x ih =>
      cases x with
      | wrote before time' =>
          rw [lastWrite_wrote] at h
          cases h
          simp
      | took time' =>
          rw [lastWrite_took] at h
          exact List.mem_append_left _ (ih h)

theorem mem_wrote {log : List Obs} {action before : PresenceAction} {time time' : ℕ} :
    .wrote before time' ∈ log ++ [.wrote action time] ↔
      .wrote before time' ∈ log ∨ (before = action ∧ time' = time) := by
  simp

theorem mem_took {log : List Obs} {before : PresenceAction} {time time' : ℕ} :
    .wrote before time' ∈ log ++ [.took time] ↔ .wrote before time' ∈ log := by
  simp

/-- Ready entries come before draining ones, and these before the delete, which is the last
write; two entries of one kind are the interval apart; and a trigger is taken while the last
write says that the loop is ready. -/
def Rule (interval : ℕ) (past : List Obs) : Obs → Prop
  | .wrote action time =>
      ∀ before time', .wrote before time' ∈ past →
        before ≠ .delete ∧ time' ≤ time ∧
        (action = .publishReady → before = .publishReady) ∧
        (before = action → time' + interval ≤ time)
  | .took _ => ∃ time, lastWrite past = some (.publishReady, time)

/-! ## The invariant -/

/-- What a point of the loop says of the presence. -/
def Standing (interval : ℕ) (s : Sys) : Point → Prop
  | .head | .closing => s.presence.phase ≠ .closed
  | .writing _ time => s.presence.phase ≠ .closed ∧ s.presence.lastPublish = some time
  | .polled time =>
      s.presence.phase ≠ .closed ∧
        ∃ last, s.presence.lastPublish = some last ∧ last ≤ time ∧ time < last + interval
  | .deleting | .over => ∃ time, lastWrite s.log = some (.delete, time)

/-- What the session knows of its writes and of the loop. -/
structure Inv (interval : ℕ) (s : Sys) : Prop where
  period : s.presence.interval = interval
  times : ∀ action time, .wrote action time ∈ s.log → time ≤ s.now
  kept : s.presence.phase ≠ .closed → ∀ time, .wrote .delete time ∉ s.log
  ready : s.presence.phase = .ready → s.loop.draining = false ∧
    ∀ action time, .wrote action time ∈ s.log → action = .publishReady
  draining : s.presence.phase = .draining → s.loop.draining = true
  last : ∀ last action, s.presence.lastPublish = some last →
    s.presence.phase.action = some action →
      lastWrite s.log = some (action, last) ∧
      ∀ before time, .wrote before time ∈ s.log → time ≤ last
  unsaid : s.presence.lastPublish = none → ∀ action, s.presence.phase.action = some action →
    ∀ time, .wrote action time ∉ s.log
  place : Standing interval s s.point
  rule : Always (Rule interval) s.log

variable {interval : ℕ} {s s' : Sys}

theorem inv_init (hnew : presence = ⟨interval, .ready, none⟩) :
    Inv interval (Sys.init pool presence) := by
  subst hnew
  exact
    { period := rfl
      times := by simp [Sys.init]
      kept := by simp [Sys.init]
      ready := by simp [Sys.init, Kit.Sys.init]
      draining := by simp [Sys.init]
      last := by simp [Sys.init]
      unsaid := by simp [Sys.init]
      place := by simp [Sys.init, Standing]
      rule := always_nil }

/-- A step beside the presence. -/
theorem Inv.of_same (h : Inv interval s) (hpresence : s'.presence = s.presence)
    (hlog : s'.log = s.log) (hnow : s.now ≤ s'.now)
    (hdraining : s'.loop.draining = s.loop.draining) (hplace : Standing interval s' s'.point) :
    Inv interval s' where
  period := hpresence ▸ h.period
  times action time hmem := (h.times action time (hlog ▸ hmem)).trans hnow
  kept := by
    rw [hpresence, hlog]
    exact h.kept
  ready := by
    rw [hpresence, hlog, hdraining]
    exact h.ready
  draining := by
    rw [hpresence, hdraining]
    exact h.draining
  last := by
    rw [hpresence, hlog]
    exact h.last
  unsaid := by
    rw [hpresence, hlog]
    exact h.unsaid
  place := hplace
  rule := by
    rw [hlog]
    exact h.rule

/-- The loop is elsewhere, but the point says the same. -/
theorem Standing.of_same {point : Point} (h : Standing interval s point)
    (hpresence : s'.presence = s.presence) (hlog : s'.log = s.log) :
    Standing interval s' point := by
  cases point <;> simpa only [Standing, hpresence, hlog] using h

/-! ## Writes -/

theorem Inv.poll (h : Inv interval s) (hpoint : s.point = .head) :
    Inv interval s.poll := by
  have hopen : s.presence.phase ≠ .closed := by
    have hplace := h.place
    rw [hpoint] at hplace
    exact hplace
  rcases poll_cases hopen s.now with ⟨action, haction, hdue, heq⟩ | ⟨last, hlast, hnow, heq⟩
  · have hs : s.poll =
        { s with
          presence := { s.presence with lastPublish := some s.now }
          point := .writing action s.now
          log := s.log ++ [.wrote action s.now] } := by
      simp [Sys.poll, heq]
    rw [hs]
    refine
      { period := h.period, times := ?_, kept := ?_, ready := ?_, draining := h.draining
        last := ?_, unsaid := ?_, place := ⟨hopen, rfl⟩, rule := ?_ }
    · intro before time hmem
      rcases mem_wrote.mp hmem with hmem | ⟨-, rfl⟩
      · exact h.times before time hmem
      · exact le_rfl
    · intro _ time hmem
      rcases mem_wrote.mp hmem with hmem | ⟨heq, -⟩
      · exact h.kept hopen time hmem
      · exact action_ne_delete haction heq.symm
    · intro hready
      refine ⟨(h.ready hready).1, fun before time hmem => ?_⟩
      rcases mem_wrote.mp hmem with hmem | ⟨rfl, -⟩
      · exact (h.ready hready).2 before time hmem
      · exact (ready_iff haction).mpr hready
    · intro last action' hlast haction'
      cases hlast
      cases haction.symm.trans haction'
      refine ⟨lastWrite_wrote _ _ _, fun before time hmem => ?_⟩
      rcases mem_wrote.mp hmem with hmem | ⟨-, rfl⟩
      · exact h.times before time hmem
      · exact le_rfl
    · intro hnone
      cases hnone
    · refine always_snoc.mpr
        ⟨h.rule, fun before time hmem => ⟨?_, h.times before time hmem, ?_, ?_⟩⟩
      · rintro rfl
        exact h.kept hopen time hmem
      · intro hready
        exact (h.ready ((ready_iff haction).mp hready)).2 before time hmem
      · -- the entry before it is not later than the last one, and the interval is over
        rintro rfl
        cases hlast : s.presence.lastPublish with
        | none => exact absurd hmem (h.unsaid hlast _ haction time)
        | some last =>
            have hle := (h.last last _ hlast haction).2 _ time hmem
            have hover := hdue last hlast
            rw [h.period] at hover
            omega
  · have hs : s.poll = { s with point := .polled s.now } := by
      simp [Sys.poll, heq]
    rw [hs]
    obtain ⟨action, haction⟩ := action_of_open hopen
    have hwrite := (h.last last action hlast haction).1
    refine h.of_same rfl rfl le_rfl rfl ⟨hopen, last, hlast, ?_, h.period ▸ hnow⟩
    exact h.times action last (mem_of_lastWrite hwrite)

theorem Inv.close (h : Inv interval s) (hpoint : s.point = .closing) :
    Inv interval s.close := by
  have hopen : s.presence.phase ≠ .closed := by
    have hplace := h.place
    rw [hpoint] at hplace
    exact hplace
  have hs : s.close =
      { s with
        presence := { s.presence with phase := .closed }
        point := .deleting
        log := s.log ++ [.wrote .delete s.now] } := by
    simp [Sys.close, PresenceSession.close, hopen]
  rw [hs]
  refine
    { period := h.period, times := ?_, kept := by simp, ready := by simp, draining := by simp
      last := ?_, unsaid := ?_, place := ⟨_, lastWrite_wrote _ _ _⟩, rule := ?_ }
  · intro before time hmem
    rcases mem_wrote.mp hmem with hmem | ⟨-, rfl⟩
    · exact h.times before time hmem
    · exact le_rfl
  · intro last action _ haction
    cases haction
  · intro _ action haction
    cases haction
  · refine always_snoc.mpr
      ⟨h.rule, fun before time hmem => ⟨?_, h.times before time hmem, ?_, ?_⟩⟩
    · rintro rfl
      exact h.kept hopen time hmem
    · intro hready
      cases hready
    · rintro rfl
      exact absurd hmem (h.kept hopen time)

/-! ## Steps of the loop -/

theorem Inv.took (h : Inv interval s) {time : ℕ} (hpoint : s.point = .polled time)
    (hready : s.loop.draining = false) :
    Inv interval { s with log := s.log ++ [.took s.now] } := by
  have hplace := h.place
  rw [hpoint] at hplace
  obtain ⟨hopen, last, hlast, hle, hlt⟩ := hplace
  obtain ⟨action, haction⟩ := action_of_open hopen
  have hphase : s.presence.phase = .ready := by
    cases hphase : s.presence.phase with
    | ready => rfl
    | draining => simp [h.draining hphase] at hready
    | closed => exact absurd hphase hopen
  refine
    { period := h.period, times := ?_, kept := ?_, ready := ?_, draining := h.draining
      last := ?_, unsaid := ?_, place := ?_, rule := always_snoc.mpr ⟨h.rule, last, ?_⟩ }
  · exact fun before time hmem => h.times before time (mem_took.mp hmem)
  · exact fun _ time hmem => h.kept hopen time (mem_took.mp hmem)
  · exact fun _ => ⟨hready, fun before time hmem =>
      (h.ready hphase).2 before time (mem_took.mp hmem)⟩
  · intro last' action' hlast' haction'
    obtain ⟨hwrite, hbehind⟩ := h.last last' action' hlast' haction'
    exact ⟨(lastWrite_took _ _).trans hwrite,
      fun before time hmem => hbehind before time (mem_took.mp hmem)⟩
  · exact fun hnone action' haction' time hmem =>
      h.unsaid hnone action' haction' time (mem_took.mp hmem)
  · show Standing interval _ s.point
    rw [hpoint]
    exact ⟨hopen, last, hlast, hle, hlt⟩
  · cases (ready_iff haction).mpr hphase
    exact (h.last last _ hlast haction).1

theorem standing_pointAfter {time : ℕ} {loop : Kit.Sys} (h : Standing interval s (.polled time))
    (hpresence : s'.presence = s.presence) : Standing interval s' (Sys.pointAfter time loop) := by
  have hpolled : Standing interval s' (.polled time) := by
    simpa only [Standing, hpresence] using h
  unfold Sys.pointAfter
  split
  · exact hpolled.1
  · exact hpolled.1
  · exact hpolled

theorem Inv.stepped (h : Inv interval s) {event : Kit.Event} {time : ℕ} {loop : Kit.Sys}
    (hpoint : s.point = .polled time) (hs : LoopStep event s.loop loop) :
    Inv interval (s.stepped event time loop) := by
  have hplace := h.place
  rw [hpoint] at hplace
  by_cases hshutdown : isShutdown event = true
  · -- a session that is ready drains, and has not said so yet
    obtain ⟨hready, hhead⟩ := hs.shutdown hshutdown
    have hphase : s.presence.phase = .ready := by
      cases hphase : s.presence.phase with
      | ready => rfl
      | draining => simp [h.draining hphase] at hready
      | closed => exact absurd hphase hplace.1
    have hmessage : isMessage event = false := by
      cases event <;> first | rfl | cases hshutdown
    have heq : s.stepped event time loop =
        { s with
          loop := loop
          presence := { s.presence with phase := .draining, lastPublish := none }
          point := .head } := by
      simp [Sys.stepped, hshutdown, hmessage, PresenceSession.beginDrain, hphase, Sys.pointAfter,
        hhead]
    rw [heq]
    refine
      { period := h.period, times := h.times, kept := fun _ => h.kept hplace.1
        ready := by simp, draining := ?_, last := by simp, unsaid := ?_
        place := by simp [Standing], rule := h.rule }
    · intro _
      simpa [hshutdown] using hs.draining
    · rintro - action haction time' hmem
      cases haction
      cases (h.ready hphase).2 _ _ hmem
  · rw [Bool.not_eq_true] at hshutdown
    have hdraining : loop.draining = s.loop.draining := by
      simpa [hshutdown] using hs.draining
    by_cases hmessage : isMessage event = true
    · have htook := h.took hpoint (hs.message hmessage)
      exact htook.of_same (by simp [Sys.stepped, hshutdown]) (by simp [Sys.stepped, hmessage])
        le_rfl hdraining (standing_pointAfter hplace (by simp [Sys.stepped, hshutdown]))
    · rw [Bool.not_eq_true] at hmessage
      exact h.of_same (by simp [Sys.stepped, hshutdown]) (by simp [Sys.stepped, hmessage])
        le_rfl hdraining (standing_pointAfter hplace (by simp [Sys.stepped, hshutdown]))

theorem Inv.step {event : Event} (h : Inv interval s) (hpos : 0 < interval)
    (hs : s.step decode event = some s') : Inv interval s' := by
  cases event with
  | poll =>
      simp only [Sys.step, Option.ite_none_right_eq_some, Option.some.injEq] at hs
      obtain ⟨hpoint, rfl⟩ := hs
      exact h.poll hpoint
  | written =>
      have hplace := h.place
      simp only [Sys.step] at hs
      split at hs
      · rename_i hpoint
        cases hs
        rw [hpoint] at hplace
        exact h.of_same rfl rfl le_rfl rfl
          ⟨hplace.1, _, hplace.2, le_rfl, Nat.lt_add_of_pos_right hpos⟩
      · rename_i hpoint
        cases hs
        rw [hpoint] at hplace
        exact h.of_same rfl rfl le_rfl rfl hplace
      · cases hs
  | loop event =>
      simp only [Sys.step] at hs
      split at hs
      · rename_i htask
        obtain ⟨loop, hloop, rfl⟩ := Option.map_eq_some_iff.mp hs
        exact h.of_same rfl rfl le_rfl (task_step htask hloop) (h.place.of_same rfl rfl)
      · rename_i htask
        split at hs
        · rename_i hpoint
          obtain ⟨loop, hloop, rfl⟩ := Option.map_eq_some_iff.mp hs
          exact h.stepped hpoint (loop_step (by simpa using htask) hloop)
        · cases hs
  | heartbeat =>
      have hplace := h.place
      simp only [Sys.step] at hs
      split at hs
      · rename_i hpoint
        simp only [Option.ite_none_right_eq_some, Option.some.injEq] at hs
        obtain ⟨-, rfl⟩ := hs
        rw [hpoint] at hplace
        exact h.of_same rfl rfl le_rfl rfl hplace.1
      · cases hs
  | close =>
      simp only [Sys.step, Option.ite_none_right_eq_some, Option.some.injEq] at hs
      obtain ⟨hpoint, rfl⟩ := hs
      exact h.close hpoint
  | tick =>
      simp only [Sys.step, Option.some.injEq] at hs
      subst hs
      exact h.of_same rfl rfl (Nat.le_succ _) rfl (h.place.of_same rfl rfl)

/-! ## The runs -/

theorem loop_poll (s : Sys) : s.poll.loop = s.loop := by
  unfold Sys.poll
  split <;> rfl

theorem loop_close (s : Sys) : s.close.loop = s.loop := by
  unfold Sys.close
  split <;> rfl

/-- A step leaves the loop as it is, or is a step of `RunLoop`. -/
theorem loop_moves {event : Event} (hs : s.step decode event = some s') :
    s'.loop = s.loop ∨ ∃ event, s.loop.step decode event = some s'.loop := by
  cases event with
  | poll =>
      simp only [Sys.step, Option.ite_none_right_eq_some, Option.some.injEq] at hs
      obtain ⟨-, rfl⟩ := hs
      exact Or.inl (loop_poll s)
  | written =>
      simp only [Sys.step] at hs
      split at hs
      · cases hs
        exact Or.inl rfl
      · cases hs
        exact Or.inl rfl
      · cases hs
  | loop event =>
      simp only [Sys.step] at hs
      split at hs
      · obtain ⟨loop, hloop, rfl⟩ := Option.map_eq_some_iff.mp hs
        exact Or.inr ⟨event, hloop⟩
      · split at hs
        · obtain ⟨loop, hloop, rfl⟩ := Option.map_eq_some_iff.mp hs
          exact Or.inr ⟨event, hloop⟩
        · cases hs
  | heartbeat =>
      simp only [Sys.step] at hs
      split at hs
      · simp only [Option.ite_none_right_eq_some, Option.some.injEq] at hs
        obtain ⟨-, rfl⟩ := hs
        exact Or.inl rfl
      · cases hs
  | close =>
      simp only [Sys.step, Option.ite_none_right_eq_some, Option.some.injEq] at hs
      obtain ⟨-, rfl⟩ := hs
      exact Or.inl (loop_close s)
  | tick =>
      simp only [Sys.step, Option.some.injEq] at hs
      subst hs
      exact Or.inl rfl

theorem loop_reachable (h : (machine decode pool presence).Reachable s) :
    (Kit.Sys.machine decode pool).Reachable s.loop := by
  refine h.invariant (P := fun s => (Kit.Sys.machine decode pool).Reachable s.loop)
    Machine.Reachable.init ?_
  intro s s' event hloop hs
  rcases loop_moves hs with heq | ⟨event, hstep⟩
  · show (Kit.Sys.machine decode pool).Reachable s'.loop
    rw [heq]
    exact hloop
  · exact Machine.Reachable.step hloop hstep

theorem inv (hnew : presence = ⟨interval, .ready, none⟩) (hpos : 0 < interval)
    (h : (machine decode pool presence).Reachable s) : Inv interval s :=
  h.invariant (P := Inv interval) (inv_init hnew) fun hinv hs => hinv.step hpos hs

/-- What the presence tells of the loop. -/
structure PresenceKept (interval : ℕ) (s : Sys) : Prop where
  rule : Always (Rule interval) s.log
  /-- Past its poll the loop has last written what it is, less than the interval before, and
  it sleeps to the end of that interval. -/
  polled : ∀ time, s.point = .polled time → ∃ last,
    lastWrite s.log =
      some (if s.loop.draining then .publishDraining else .publishReady, last) ∧
    last ≤ time ∧ time < last + interval ∧
    heartbeatDue time s.presence.nextDue = last + interval
  gone : s.point = .over → ∃ time, lastWrite s.log = some (.delete, time)

theorem Inv.presenceKept (h : Inv interval s) : PresenceKept interval s where
  rule := h.rule
  polled := by
    intro time hpoint
    have hplace := h.place
    rw [hpoint] at hplace
    obtain ⟨hopen, last, hlast, hle, hlt⟩ := hplace
    obtain ⟨action, haction⟩ := action_of_open hopen
    have hdue : s.presence.nextDue = .instant (last + interval) := by
      simp [PresenceSession.nextDue, hopen, hlast, h.period]
    refine ⟨last, ?_, hle, hlt, by rw [hdue]; rfl⟩
    rw [(h.last last action hlast haction).1]
    cases hphase : s.presence.phase with
    | ready =>
        rw [hphase] at haction
        cases haction
        simp [(h.ready hphase).1]
    | draining =>
        rw [hphase] at haction
        cases haction
        simp [h.draining hphase]
    | closed => exact absurd hphase hopen
  gone := by
    intro hpoint
    have hplace := h.place
    rw [hpoint] at hplace
    exact hplace

/-- In every run, whatever comes to the loop and however the writes end, the loop is a run of
`RunLoop` and the presence tells of it. -/
theorem presence_kept {ttl : ℕ} (hnew : PresenceSession.new ttl interval = .ok presence)
    (h : (machine decode pool presence).Reachable s) :
    (Kit.Sys.machine decode pool).Reachable s.loop ∧ PresenceKept interval s := by
  obtain ⟨hfresh, hpos, -⟩ := of_new hnew
  exact ⟨loop_reachable h, (inv hfresh hpos h).presenceKept⟩

/-- A frame is taken, the heartbeat is due once, and the loop drains and is left. -/
theorem presence_kept_drainedRun : ∃ s : Sys,
    s.point = .over ∧
    s.log = [.wrote .publishReady 0, .took 0, .wrote .publishReady 1, .wrote .publishDraining 1,
      .wrote .delete 1] ∧
    PresenceKept 1 s := by
  let decode : Value → Decoded := fun _ => .payload
  let presence : PresenceSession := ⟨1, .ready, none⟩
  let es : List Event := [.poll, .written, .loop (.message none), .loop .settled, .poll, .tick,
    .heartbeat, .poll, .written, .loop .shutdown, .poll, .written, .loop .leave, .close, .written]
  have hrun : ∃ s, (machine decode (.new 1 Nat.one_pos) presence).run es = some s ∧
      s.point = .over ∧
      s.log = [.wrote .publishReady 0, .took 0, .wrote .publishReady 1, .wrote .publishDraining 1,
        .wrote .delete 1] := ⟨_, rfl, rfl, rfl⟩
  obtain ⟨s, hs, hpoint, hlog⟩ := hrun
  have hnew : PresenceSession.new 3 1 = .ok presence := rfl
  exact ⟨s, hpoint, hlog, (presence_kept hnew (Machine.reachable_of_run es hs)).2⟩

end RunnerKit.Kit.Present
