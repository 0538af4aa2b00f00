import RunnerKit.InboxPort.Waiting

/-!
# What a step of the inbox port can do

A step belongs to a wait, to a mark, to a listing or to a caller of the book.
Each kind changes what is its own, and the lemmas here say so once for all the
invariants.
-/

namespace RunnerKit.InboxPort.Waiting

open RunnerKit.Jobs RunnerKit.Lib

variable {s s' : Sys} {w : ℕ} {x : Wait} {more : List Obs}

/-- The wait that a step belongs to. -/
def Event.ofWait : Event → Option ℕ
  | .waitStep w | .readDone w _ | .woken w | .registered w | .dropWait w => some w
  | _ => none

/-- The entries that a wait logs are its own. -/
def Obs.ofWait : Obs → Option ℕ
  | .subscribed w | .readStarted w | .readFailed w _ | .readHeld w _ _ | .emptied w
  | .returned w _ _ => some w
  | _ => none

/-! ## Listings -/

/-- A listing leaves the marks and the registrations alone. -/
theorem listing_port {port : InboxPort.Sys} {event : InboxPort.Event}
    (hallowed : s.listingAllowed event = true) (hs : s.port.step event = some port) :
    port.queued = s.port.queued ∧ port.inbox.marked = s.port.inbox.marked := by
  cases event with
  | begin agent after =>
      cases hs
      exact ⟨rfl, rfl⟩
  | items c limit =>
      obtain ⟨l, -, hs⟩ := Option.bind_eq_some_iff.mp hs
      split at hs
      · split at hs
        · cases hs
        · cases hs
          exact ⟨rfl, rfl⟩
      · cases hs
  | step c =>
      obtain ⟨l, -, hs⟩ := Option.bind_eq_some_iff.mp hs
      unfold InboxPort.Sys.listingStep at hs
      split at hs
      · cases hs
        unfold InboxPort.Sys.start
        split
        · exact ⟨rfl, rfl⟩
        · split <;> exact ⟨rfl, rfl⟩
      · cases hs
        exact ⟨rfl, rfl⟩
      · cases hs
        unfold InboxPort.Sys.keep
        dsimp only
        split <;> exact ⟨rfl, rfl⟩
      · rename_i rest _
        cases hs
        cases rest <;> exact ⟨rfl, rfl⟩
      · cases hs
  | readDone c result =>
      obtain ⟨l, -, hs⟩ := Option.bind_eq_some_iff.mp hs
      cases result with
      | ok read =>
          simp only [InboxPort.Sys.readDone] at hs
          split at hs
          · cases hs
            exact ⟨rfl, rfl⟩
          · cases hs
      | error error =>
          simp only [InboxPort.Sys.readDone] at hs
          split at hs
          · cases hs
            exact ⟨rfl, rfl⟩
          · cases hs
  | converted c ok =>
      obtain ⟨l, -, hs⟩ := Option.bind_eq_some_iff.mp hs
      unfold InboxPort.Sys.converted at hs
      split at hs
      · cases hs
        exact ⟨rfl, rfl⟩
      · cases hs
  | drop c =>
      obtain ⟨l, -, hs⟩ := Option.bind_eq_some_iff.mp hs
      unfold InboxPort.Sys.drop at hs
      split at hs
      · cases hs
        exact ⟨rfl, rfl⟩
      · cases hs
        exact ⟨rfl, rfl⟩
      · cases hs
  | registrationEnded agent => cases hallowed
  | markRead agent entryId => cases hallowed

theorem listingTold_quiet {before after : InboxPort.Sys} {event : InboxPort.Event}
    {obs : Obs} (h : obs ∈ Sys.listingTold before after event) :
    (∃ c agent page, obs = .cut c agent page) ∨
      ∃ c agent page, obs = .gave c agent page := by
  unfold Sys.listingTold at h
  split at h
  · split at h
    · split at h
      · cases List.mem_singleton.mp h
        exact Or.inl ⟨_, _, _, rfl⟩
      · cases List.mem_singleton.mp h
        exact Or.inr ⟨_, _, _, rfl⟩
      · cases List.mem_singleton.mp h
        exact Or.inr ⟨_, _, _, rfl⟩
      · cases h
    · cases h
  · cases h

/-! ## Waits -/

/-- What a wait logs is its own, and it returns without an error only right
behind a read with something unmarked. -/
structure Own (s : Sys) (v : ℕ) (x : Wait) (more : List Obs) : Prop where
  own : ∀ obs ∈ more, obs.ofWait = some v
  ok : ∀ agent, .returned v agent (.ok ()) ∈ more → ∃ items,
    leaveOutMarked (s.port.inbox.marked x.agent) items ≠ [] ∧
      more = [.readHeld v items (leaveOutMarked (s.port.inbox.marked x.agent) items),
        .returned v x.agent (.ok ())]

/-- The step of a wait changes this wait and logs entries of its own. -/
theorem own_step {e : Event} {v : ℕ} (he : e.ofWait = some v) (hs : s.step e = some s') :
    ∃ x x' more, s.waits v = some x ∧ s' = (s.setWait v x').told more ∧ Own s v x more := by
  have plain : ∀ {x : Wait} {more : List Obs}, (∀ obs ∈ more, obs.ofWait = some v) →
      (∀ agent, .returned v agent (.ok ()) ∉ more) → Own s v x more :=
    fun hown hok => ⟨hown, fun agent hin => absurd hin (hok agent)⟩
  have fails : ∀ (x : Wait) (error : PortError), ∃ x' more,
      s.fail v x error = (s.setWait v x').told more ∧ Own s v x more :=
    fun x error => ⟨_, _, rfl, plain (by simp [Obs.ofWait]) (by simp)⟩
  have sets : ∀ x x' : Wait, ∃ x'' more,
      s.setWait v x' = (s.setWait v x'').told more ∧ Own s v x more :=
    fun x x' => ⟨x', [], by simp [Sys.told], plain (by simp) (by simp)⟩
  have took : ∀ {x : Wait}, s.took v x = some s' → ∃ x' more,
      s' = (s.setWait v x').told more ∧ Own s v x more := by
    intro x htook
    unfold Sys.took at htook
    split at htook
    · cases htook
      exact sets _ _
    · cases htook
      exact fails _ _
    · split at htook
      · cases htook
      · cases htook
        exact fails _ _
  cases e with
  | waitStep w =>
      cases he
      obtain ⟨x, hx, hs⟩ := Option.bind_eq_some_iff.mp hs
      suffices h : ∃ x' more, s' = (s.setWait v x').told more ∧ Own s v x more by
        obtain ⟨x', more, h1, h2⟩ := h
        exact ⟨x, x', more, hx, h1, h2⟩
      unfold Sys.waitStep at hs
      split at hs
      · cases hs
        exact ⟨_, _, rfl, plain (by simp [Obs.ofWait]) (by simp)⟩
      · cases hs
        exact sets _ _
      · split at hs
        · cases hs
          exact sets _ _
        · cases hs
          exact fails _ _
      · split at hs
        · cases hs
          exact ⟨_, _, rfl, plain (by simp [Obs.ofWait]) (by simp)⟩
        · cases hs
          exact ⟨_, _, rfl, plain (by simp [Obs.ofWait]) (by simp)⟩
      · dsimp only at hs
        split at hs
        · cases hs
          exact ⟨_, _, rfl, plain (by simp [Obs.ofWait]) (by simp)⟩
        · rename_i hunmarked
          cases hs
          refine ⟨_, _, rfl, by simp [Obs.ofWait], fun agent _ => ⟨_, ?_, rfl⟩⟩
          simpa using hunmarked
      · cases hs
        unfold Sys.empty
        split
        · split
          · exact fails _ _
          · exact sets _ _
        · exact sets _ _
      · split at hs
        · cases hs
          exact sets _ _
        · exact took hs
      · cases hs
  | readDone w result =>
      cases he
      obtain ⟨x, hx, hs⟩ := Option.bind_eq_some_iff.mp hs
      cases result with
      | ok items =>
          simp only [Sys.readDone] at hs
          split at hs
          · cases hs
            obtain ⟨x', more, h1, h2⟩ := sets x (x.moveTo (.filtering items))
            exact ⟨x, x', more, hx, h1, h2⟩
          · cases hs
      | error error =>
          simp only [Sys.readDone] at hs
          split at hs
          · cases hs
            exact ⟨x, x.moveTo .done,
              [.readFailed v error, .returned v x.agent (.error (.fault error))], hx,
              by simp [Sys.fail, Sys.told, Sys.setWait], plain (by simp [Obs.ofWait]) (by simp)⟩
          · cases hs
  | woken w =>
      cases he
      obtain ⟨x, hx, hs⟩ := Option.bind_eq_some_iff.mp hs
      unfold Sys.woken at hs
      split at hs
      · obtain ⟨x', more, h1, h2⟩ := took hs
        exact ⟨x, x', more, hx, h1, h2⟩
      · cases hs
  | registered w =>
      cases he
      obtain ⟨x, hx, hs⟩ := Option.bind_eq_some_iff.mp hs
      unfold Sys.registered at hs
      split at hs
      · split at hs
        · cases hs
          obtain ⟨x', more, h1, h2⟩ :=
            sets x { x with registrationOpen := false, place := .draining }
          exact ⟨x, x', more, hx, h1, h2⟩
        · cases hs
      · cases hs
  | dropWait w =>
      cases he
      obtain ⟨x, hx, hs⟩ := Option.bind_eq_some_iff.mp hs
      unfold Sys.dropWait at hs
      split at hs
      · cases hs
        obtain ⟨x', more, h1, h2⟩ := sets x (x.moveTo .done)
        exact ⟨x, x', more, hx, h1, h2⟩
      · cases hs
        obtain ⟨x', more, h1, h2⟩ := sets x (x.moveTo .done)
        exact ⟨x, x', more, hx, h1, h2⟩
      · cases hs
  | agent _ => cases he
  | listing _ => cases he
  | registrationEnded _ => cases he
  | arrival _ => cases he
  | arrivalEnded _ => cases he
  | wakeAll _ => cases he
  | arrivalOpenAgain => cases he
  | dropBook => cases he
  | wait _ _ => cases he
  | markRead _ _ _ => cases he
  | markStep _ => cases he

/-! ## Marks -/

theorem mem_mark {inbox : Inbox} {agent agent' k itemId : Uuid}
    (h : k ∈ inbox.marked agent) : k ∈ (inbox.mark agent' itemId).marked agent := by
  by_cases hagent : agent = agent'
  · subst hagent
    simp [Inbox.mark, h]
  · simpa [Inbox.mark, Function.update_of_ne hagent] using h

/-- The call of `mark_read` that logs an entry. -/
def Obs.ofMark : Obs → Option ℕ
  | .marked c _ _ | .held c _ _ => some c
  | _ => none

/-- A call of `mark_read` that begins looks first. -/
def Begins (s s' : Sys) : Prop :=
  ∃ agent entryId, s'.marks = Function.update s.marks s.nextMark
    (some ⟨agent, entryId, .looking⟩) ∧ s'.nextMark = s.nextMark + 1

/-- What a step that is not one of a mark does to the marks. -/
structure BesideMarks (s s' : Sys) (more : List Obs) : Prop where
  log : s'.log = s.log ++ more
  quiet : ∀ obs ∈ more, obs.ofMark = none
  marked : s'.port.inbox.marked = s.port.inbox.marked
  runId : s'.runId = s.runId
  calls : (s'.marks = s.marks ∧ s'.nextMark = s.nextMark) ∨ Begins s s'

theorem step_beside_marks {e : Event} (hs : s.step e = some s')
    (hne : ∀ c, e ≠ .markStep c) : ∃ more, BesideMarks s s' more := by
  have same : ∀ {t : Sys} {more : List Obs}, t.log = s.log ++ more →
      (∀ obs ∈ more, obs.ofMark = none) → t.port.inbox.marked = s.port.inbox.marked →
      t.runId = s.runId → t.marks = s.marks → t.nextMark = s.nextMark →
      ∃ more, BesideMarks s t more :=
    fun h1 h2 h3 h4 h5 h6 => ⟨_, h1, h2, h3, h4, Or.inl ⟨h5, h6⟩⟩
  cases hof : e.ofWait with
  | some v =>
      obtain ⟨x, x', more, -, rfl, hmore⟩ := own_step hof hs
      refine same rfl (fun obs hobs => ?_) rfl rfl rfl rfl
      have hown := hmore.own obs hobs
      cases obs <;> first | rfl | cases hown
  | none =>
      cases e with
      | markStep c => exact absurd rfl (hne c)
      | markRead agent entryId lookup =>
          simp only [Sys.step, Option.ite_none_right_eq_some, Option.some.injEq] at hs
          obtain ⟨-, rfl⟩ := hs
          unfold Sys.markRead
          split
          · exact ⟨[], (List.append_nil _).symm, by simp, rfl, rfl,
              Or.inr ⟨agent, entryId, rfl, rfl⟩⟩
          · exact same (List.append_nil _).symm (by simp) rfl rfl rfl rfl
      | agent agent =>
          simp only [Sys.step, Option.ite_none_right_eq_some, Option.some.injEq] at hs
          obtain ⟨-, rfl⟩ := hs
          exact same (List.append_nil _).symm (by simp) rfl rfl rfl rfl
      | listing event =>
          simp only [Sys.step, Option.ite_none_right_eq_some] at hs
          obtain ⟨hallowed, hs⟩ := hs
          obtain ⟨port, hport, rfl⟩ := Option.map_eq_some_iff.mp hs
          refine same rfl (fun obs hobs => ?_) (listing_port hallowed hport).2 rfl rfl rfl
          rcases listingTold_quiet hobs with ⟨c, agent, page, rfl⟩ | ⟨c, agent, page, rfl⟩ <;>
            rfl
      | registrationEnded agent =>
          simp only [Sys.step, Option.ite_none_right_eq_some, Option.some.injEq] at hs
          obtain ⟨-, rfl⟩ := hs
          exact same rfl (by simp [Obs.ofMark]) rfl rfl rfl rfl
      | arrival event =>
          simp only [Sys.step, Option.ite_none_right_eq_some, Option.some.injEq] at hs
          obtain ⟨-, rfl⟩ := hs
          cases event with
          | item item =>
              cases haddress : item.address with
              | none =>
                  have hsame : s.arrival (.item item) = s := by simp [Sys.arrival, haddress]
                  rw [hsame]
                  exact same (List.append_nil _).symm (by simp) rfl rfl rfl rfl
              | some address =>
                  have heq : s.arrival (.item item) =
                      (s.wake (fun wait => wait.agent == address) (.item item)).told
                        [.doorbell address item.itemId] := by
                    simp [Sys.arrival, haddress]
                  rw [heq]
                  exact same rfl (by simp [Obs.ofMark]) rfl rfl rfl rfl
          | syncEnd child ended => exact same (List.append_nil _).symm (by simp) rfl rfl rfl rfl
          | unreadable child error =>
              cases child <;> exact same (List.append_nil _).symm (by simp) rfl rfl rfl rfl
      | arrivalEnded error =>
          simp only [Sys.step, Option.ite_none_right_eq_some, Option.some.injEq] at hs
          obtain ⟨-, rfl⟩ := hs
          unfold Sys.arrivalEnded
          split
          · exact same (List.append_nil _).symm (by simp) rfl rfl rfl rfl
          · exact same rfl (by simp [Obs.ofMark]) rfl rfl rfl rfl
      | wakeAll i =>
          obtain ⟨error, -, rfl⟩ := Option.map_eq_some_iff.mp hs
          exact same (List.append_nil _).symm (by simp) rfl rfl rfl rfl
      | arrivalOpenAgain =>
          simp only [Sys.step, Option.ite_none_right_eq_some, Option.some.injEq] at hs
          obtain ⟨-, rfl⟩ := hs
          exact same rfl (by simp [Obs.ofMark]) rfl rfl rfl rfl
      | dropBook =>
          simp only [Sys.step, Option.ite_none_right_eq_some, Option.some.injEq] at hs
          obtain ⟨-, rfl⟩ := hs
          exact same rfl (by simp [Obs.ofMark]) rfl rfl rfl rfl
      | wait agent lookup =>
          simp only [Sys.step, Option.ite_none_right_eq_some, Option.some.injEq] at hs
          obtain ⟨-, rfl⟩ := hs
          unfold Sys.wait
          dsimp only
          split
          · exact same (List.append_nil _).symm (by simp) rfl rfl rfl rfl
          · exact same rfl (by simp [Obs.ofMark]) rfl rfl rfl rfl
      | waitStep v => cases hof
      | readDone v result => cases hof
      | woken v => cases hof
      | registered v => cases hof
      | dropWait v => cases hof

/-- The marks of the log are those of the inbox. -/
theorem marked_of_log {runId : Uuid} (h : (Sys.machine runId).Reachable s) {c : ℕ}
    {agent k : Uuid} (hin : .marked c agent k ∈ s.log) :
    k ∈ s.port.inbox.marked agent := by
  revert c agent k
  refine h.invariant (P := fun s => ∀ {c agent k}, .marked c agent k ∈ s.log →
    k ∈ s.port.inbox.marked agent) (fun hin => by cases hin) ?_
  intro s s' e hp hs c agent k hin
  by_cases hmark : ∃ c, e = .markStep c
  · obtain ⟨d, rfl⟩ := hmark
    obtain ⟨call, -, hs⟩ := Option.bind_eq_some_iff.mp hs
    unfold Sys.markStep at hs
    split at hs
    · cases hs
      exact hp hin
    · split at hs
      · cases hs
        exact hp hin
      · cases hs
        rcases List.mem_append.mp hin with hin | hin
        · exact mem_mark (hp hin)
        · cases List.mem_singleton.mp hin
          simp [Sys.setMark, Inbox.mark]
    · cases hs
      rcases List.mem_append.mp hin with hin | hin
      · exact hp hin
      · cases List.mem_singleton.mp hin
    · cases hs
  · push Not at hmark
    obtain ⟨more, hmore⟩ := step_beside_marks hs hmark
    rw [hmore.log] at hin
    rw [hmore.marked]
    rcases List.mem_append.mp hin with hin | hin
    · exact hp hin
    · cases hmore.quiet _ hin

end RunnerKit.InboxPort.Waiting
