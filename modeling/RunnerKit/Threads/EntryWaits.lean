import RunnerKit.Threads.DroppedUnsent

/-!
# The waits of the thread queues

A wait looks at the queue of its thread under the lock and parks with the version of the
changes that it has seen before. Each change of a queue is told by the one that made it, in
a step behind the change. What a wait returns is told by the log: which items were queued,
how they ended, and which entries were accepted again since.
-/

namespace RunnerKit.Threads.Delivery

open Lib
open Jobs (Uuid Value)

variable {β : Type}

/-! ## What the log says of an entry -/

/-- An item that holds the entry is accepted. -/
def takes (t : ThreadRef) (entry : Uuid) : Obs β → Bool
  | .queued t' item _ _ => t' = t && item.entries.contains entry
  | _ => false

/-- An item that holds the entry ends refused or dropped. -/
def drops (t : ThreadRef) (entry : Uuid) : Obs β → Bool
  | .ended t' item _ how => t' = t && how ≠ .delivered && item.entries.contains entry
  | _ => false

/-- An item of the entry was dropped since one was accepted the last time. -/
def droppedBefore (t : ThreadRef) (entry : Uuid) (log : List (Obs β)) : Bool :=
  (since (takes t entry) log).any (drops t entry)

theorem takes_aside {t : ThreadRef} {entry : Uuid} {obs : Obs β} (h : obs.aside = true) :
    takes t entry obs = false := by
  cases obs <;> first | rfl | cases h

theorem drops_aside {t : ThreadRef} {entry : Uuid} {obs : Obs β} (h : obs.aside = true) :
    drops t entry obs = false := by
  cases obs <;> first | rfl | cases h

theorem droppedBefore_aside {t : ThreadRef} {entry : Uuid} {log more : List (Obs β)}
    (hmore : ∀ obs ∈ more, obs.aside = true) :
    droppedBefore t entry (log ++ more) = droppedBefore t entry log := by
  have hnone : more.any (drops t entry) = false := by
    rw [List.any_eq_false]
    intro obs hobs
    simp [drops_aside (hmore obs hobs)]
  rw [droppedBefore, since_append fun obs hobs => takes_aside (hmore obs hobs), List.any_append,
    hnone, Bool.or_false, droppedBefore]

/-- What the wait is after. -/
def WaitPlace.goal? : WaitPlace → Option Goal
  | .looping goal | .looking goal _ | .waiting goal _ => some goal
  | _ => none

/-- The version that its receiver has seen. -/
def WaitPlace.seen? : WaitPlace → Option ℕ
  | .looking _ seen | .waiting _ seen => some seen
  | _ => none

/-- What a wait may return. -/
def WaitRule (pre : List (Obs β)) : Obs β → Prop
  | .outcome _ t entry .dropped => droppedBefore t entry pre = true
  | .outcome _ t entry .stored =>
      droppedBefore t entry pre = false ∧
        ∃ waiting, Sys.queuedOn t pre = Sys.endedOn t pre ++ waiting ∧
          ∀ queued ∈ waiting, entry ∉ queued.item.entries
  | .returned w t =>
      .called w t ∈ pre ∧ ∀ before after, pre = before ++ .called w t :: after →
        Sys.queuedOn t before <+: Sys.endedOn t pre
  | _ => True

namespace Sys

variable {json : ItemJson β} {s s' : Sys β}

/-! ## The dropped entries -/

/-- The set of dropped entries is what the log says of them. -/
def Dropped (s : Sys β) : Prop :=
  ∀ t entry, (s.queue t).dropped entry = droppedBefore t entry s.log

theorem Dropped.aside (h : s.Dropped) (more : List (Obs β))
    (hmore : ∀ obs ∈ more, obs.aside = true) (hlog : s'.log = s.log ++ more)
    (hqueue : ∀ t, (s'.queue t).dropped = (s.queue t).dropped) : s'.Dropped := by
  intro t entry
  rw [hlog, hqueue, droppedBefore_aside hmore]
  exact h t entry

theorem Moves.dropped (h : Moves json s s') (hdropped : s.Dropped) : s'.Dropped := by
  have hlog : s.log = s.log ++ [] := (List.append_nil _).symm
  cases h with
  | unsent => exact hdropped.aside [_] (by simp [Obs.aside]) rfl fun _ => rfl
  | pushed hc hplace _ =>
      rename_i c call no _
      intro t entry
      have hold := hdropped t entry
      simp only [droppedBefore] at hold
      simp only [observe, Sys.setCall, droppedBefore, since_snoc]
      by_cases ht : t = call.thread
      · subst ht
        by_cases hentry : entry ∈ call.item.entries
        · simp [Sys.push, setQueue, takes, hentry]
        · simp [Sys.push, setQueue, takes, drops, hentry, hold]
      · simp [Sys.push, setQueue, takes, drops, ht, Ne.symm ht, hold]
  | task _ _ _ _ _ _ _ hmore =>
      exact hdropped.aside _ (fun obs hobs => Obs.aside_of_quiet (hmore obs hobs)) rfl fun _ => rfl
  | left hk hitems =>
      rename_i k t
      refine hdropped.aside [] (by simp) (by simp [setQueue, setTask]) fun t' => ?_
      by_cases ht : t' = t
      · subst ht
        simp [setQueue, setTask]
      · simp [setQueue, setTask, ht]
  | droppedUnsent => exact hdropped.aside [_] (by simp [Obs.aside]) rfl fun _ => rfl
  | sent => exact hdropped.aside [_] (by simp [Obs.aside]) rfl fun _ => rfl
  | retried hk =>
      rename_i k t head error
      refine hdropped.aside [_] (by simp [Obs.aside]) rfl fun t' => ?_
      by_cases ht : t' = t
      · subst ht
        simp [setQueue, setTask, observe]
      · simp [setQueue, setTask, observe, ht]
  | refused => exact hdropped.aside [_] (by simp [Obs.aside, refusal]) rfl fun _ => rfl
  | popped hk =>
      rename_i k t head how
      intro t' entry
      have hold := hdropped t' entry
      simp only [droppedBefore] at hold
      simp only [observe, setTask, droppedBefore, since_snoc]
      by_cases ht : t' = t
      · subst ht
        simp [Sys.pop, setQueue, takes, drops, hold]
      · simp [Sys.pop, setQueue, takes, drops, ht, Ne.symm ht, hold]
  | waited hwait =>
      exact hdropped.aside _ (fun obs hobs => Obs.aside_of_wait (hwait.ofWait obs hobs)) rfl
        fun _ => rfl
  | reportUnsent =>
      refine hdropped.aside _ (fun obs hobs => ?_) rfl fun _ => rfl
      obtain ⟨queued, -, rfl⟩ := List.mem_map.mp hobs
      rfl
  | restart => exact fun t entry => rfl
  | _ => exact hdropped.aside [] (by simp) hlog fun _ => rfl

/-! ## The slots and the numbers -/

structure Numbered (s : Sys β) : Prop where
  slotted : ∀ c call, s.calls c = some call → s.slots call.thread = true
  queued : ∀ t, queuedOn t s.log ≠ [] → s.slots t = true
  given : ∀ c call no, s.calls c = some call → call.place = .numbered no →
    no ≤ s.numbers ∧ (s.queue call.thread).lastNo < no
  last : ∀ t, (s.queue t).lastNo ≤ s.numbers
  bound : ∀ t, ∀ queued ∈ queuedOn t s.log, queued.no ≤ (s.queue t).lastNo

theorem Numbered.fresh (store : List StoredItem) (history : List (Kept β))
    (base : List (ThreadRef × Item β)) : (Sys.fresh store history base).Numbered := by
  refine ⟨?_, ?_, ?_, ?_, ?_⟩ <;> simp [Sys.fresh, QueueInner.default]

/-- A step that gives no number and puts nothing into a queue. -/
theorem Numbered.frame (h : s.Numbered) (more : List (Obs β))
    (hmore : ∀ t, queuedOn t more = []) (hlog : s'.log = s.log ++ more)
    (hslots : ∀ t, s.slots t = true → s'.slots t = true)
    (hcalls : ∀ c call, s'.calls c = some call → s'.slots call.thread = true ∧
      ∀ no, call.place = .numbered no → s.calls c = some call)
    (hlast : ∀ t, (s'.queue t).lastNo = (s.queue t).lastNo) (hnumbers : s'.numbers = s.numbers) :
    s'.Numbered where
  slotted c call hc := (hcalls c call hc).1
  queued t := by
    rw [hlog, queuedOn_append, hmore, List.append_nil]
    exact fun hne => hslots t (h.queued t hne)
  given c call no hc hplace := by
    rw [hnumbers, hlast]
    exact h.given c call no ((hcalls c call hc).2 no hplace) hplace
  last t := by
    rw [hnumbers, hlast]
    exact h.last t
  bound t := by
    rw [hlog, queuedOn_append, hmore, List.append_nil, hlast]
    exact h.bound t

/-- A call goes on to a place without a number. -/
theorem Numbered.setCall (h : s.Numbered) {c : ℕ} {call : Call β} (hc : s.calls c = some call)
    (place : CallPlace) (hplace : place.number? = none)
    (hcalls : s'.calls = (s.setCall c call place).calls) (hslots : s'.slots = s.slots) :
    ∀ c' call', s'.calls c' = some call' → s'.slots call'.thread = true ∧
      ∀ no, call'.place = .numbered no → s.calls c' = some call' := by
  intro c' call' hc'
  rw [hcalls] at hc'
  rw [hslots]
  rcases update_some hc' with ⟨rfl, rfl⟩ | ⟨-, hold⟩
  · refine ⟨h.slotted c' call hc, fun no hno => ?_⟩
    have hnumber : place.number? = some no := by rw [show place = .numbered no from hno]; rfl
    cases hplace.symm.trans hnumber
  · exact ⟨h.slotted c' call' hold, fun _ _ => hold⟩

theorem Numbered.call (h : s.Numbered) {c : ℕ} {call : Call β} (hc : s.calls c = some call)
    (place : CallPlace) (hplace : place.number? = none) (more : List (Obs β))
    (hmore : ∀ t, queuedOn t more = []) (hlog : s'.log = s.log ++ more)
    (hcalls : s'.calls = (s.setCall c call place).calls) (hslots : s'.slots = s.slots)
    (hqueue : s'.queue = s.queue) (hnumbers : s'.numbers = s.numbers) : s'.Numbered :=
  h.frame more hmore hlog (fun t ht => by rw [hslots]; exact ht)
    (h.setCall hc place hplace hcalls hslots) (fun t => by rw [hqueue]) hnumbers

theorem Numbered.aside (h : s.Numbered) (more : List (Obs β))
    (hmore : ∀ obs ∈ more, obs.aside = true) (hlog : s'.log = s.log ++ more)
    (hcalls : s'.calls = s.calls) (hslots : s'.slots = s.slots)
    (hlast : ∀ t, (s'.queue t).lastNo = (s.queue t).lastNo) (hnumbers : s'.numbers = s.numbers) :
    s'.Numbered := by
  refine h.frame more (fun t => queuedOn_aside hmore) hlog (fun t ht => by rw [hslots]; exact ht)
    (fun c call hc => ?_) hlast hnumbers
  rw [hcalls] at hc
  rw [hslots]
  exact ⟨h.slotted c call hc, fun _ _ => hc⟩

theorem Numbered.numbered (h : s.Numbered) {c : ℕ} {call : Call β} (hc : s.calls c = some call) :
    ({ s.setCall c call (.numbered (s.numbers + 1)) with
      numbers := s.numbers + 1 } : Sys β).Numbered := by
  refine ⟨fun c' call' hc' => ?_, h.queued, fun c' call' no hc' hplace => ?_,
    fun t => (h.last t).trans (Nat.le_succ _), h.bound⟩
  · rcases update_some hc' with ⟨rfl, rfl⟩ | ⟨-, hold⟩
    · exact h.slotted c' call hc
    · exact h.slotted c' call' hold
  · rcases update_some hc' with ⟨rfl, rfl⟩ | ⟨-, hold⟩
    · cases hplace
      exact ⟨le_refl _, Nat.lt_succ_of_le (h.last call.thread)⟩
    · obtain ⟨hno, hlast⟩ := h.given c' call' no hold hplace
      exact ⟨hno.trans (Nat.le_succ _), hlast⟩

/-- The number of an item is greater than those of the thread before it. -/
theorem Numbered.pushed (h : s.Numbered) (hlocks : s.Locks) {c : ℕ} {call : Call β} {no : ℕ}
    {spawn : Bool} (hc : s.calls c = some call) (hplace : call.place = .numbered no)
    (hcalls : s'.calls = (s.setCall c call (.queued spawn)).calls) (hslots : s'.slots = s.slots)
    (hqueue : s'.queue = (s.push call.thread call.item no).queue)
    (hlog : s'.log = s.log ++ [.queued call.thread call.item no call.kept])
    (hnumbers : s'.numbers = s.numbers) : s'.Numbered := by
  obtain ⟨hno, hlast⟩ := h.given c call no hc hplace
  have hsame : (s'.queue call.thread).lastNo = no := by simp [hqueue, Sys.push, setQueue]
  have hother : ∀ t, t ≠ call.thread → (s'.queue t).lastNo = (s.queue t).lastNo := by
    intro t ht
    simp [hqueue, Sys.push, setQueue, ht]
  have hset := h.setCall hc (.queued spawn) rfl hcalls hslots
  refine ⟨fun c' call' hc' => (hset c' call' hc').1, fun t hne => ?_,
    fun c' call' no' hc' hplace' => ?_, fun t => ?_, fun t queued hqueued => ?_⟩
  · rw [hslots]
    by_cases ht : t = call.thread
    · rw [ht]
      exact h.slotted c call hc
    · rw [hlog, queuedOn_append] at hne
      simp only [queuedOn_queued, Ne.symm ht, if_false, List.append_nil] at hne
      exact h.queued t hne
  · -- the one call that is busy with the thread gives its number away
    have hold := (hset c' call' hc').2 no' hplace'
    have hne : call'.thread ≠ call.thread := by
      intro heq
      have hsameCall := hlocks.alone hold (by rw [hplace']; rfl) hc (by rw [hplace]; rfl) heq
      subst hsameCall
      rw [hcalls] at hc'
      simp only [Sys.setCall, Function.update_self, Option.some.injEq] at hc'
      subst hc'
      cases hplace'
    rw [hnumbers, hother _ hne]
    exact h.given c' call' no' hold hplace'
  · rw [hnumbers]
    by_cases ht : t = call.thread
    · rw [ht, hsame]
      exact hno
    · rw [hother t ht]
      exact h.last t
  · rw [hlog, queuedOn_append] at hqueued
    by_cases ht : t = call.thread
    · subst ht
      rw [hsame]
      simp only [queuedOn_queued, if_true, List.mem_append, List.mem_singleton] at hqueued
      rcases hqueued with hold | rfl
      · exact (h.bound _ queued hold).trans hlast.le
      · exact le_refl _
    · simp only [queuedOn_queued, Ne.symm ht, if_false, List.append_nil] at hqueued
      rw [hother t ht]
      exact h.bound t queued hqueued

theorem Moves.numbers (h : Moves json s s') (hlocks : s.Locks) (hnumbered : s.Numbered) :
    s'.Numbered := by
  have hlog : s.log = s.log ++ [] := (List.append_nil _).symm
  have hnone : ∀ t, queuedOn t ([] : List (Obs β)) = [] := fun _ => rfl
  cases h with
  | slot =>
      rename_i t
      have hslot : ∀ t', s.slots t' = true → Function.update s.slots t true t' = true := by
        intro t' ht'
        by_cases heq : t' = t <;> simp [heq, ht']
      exact hnumbered.frame [] hnone hlog hslot
        (fun c call hc => ⟨hslot _ (hnumbered.slotted c call hc), fun _ _ => hc⟩) (fun _ => rfl) rfl
  | accept hbuilt hmem hcalls hthread hslot =>
      refine hnumbered.frame [] hnone hlog (fun _ ht => ht) (fun c' call' hc' => ?_) (fun _ => rfl)
        rfl
      rcases update_some hc' with ⟨rfl, rfl⟩ | ⟨-, hold⟩
      · exact ⟨hslot, fun no hno => by cases hno⟩
      · exact ⟨hnumbered.slotted c' call' hold, fun _ _ => hold⟩
  | keep hleftovers hrebuilding hcalls =>
      rename_i c t item leftovers
      have hslot : ∀ t', s.slots t' = true → Function.update s.slots t true t' = true := by
        intro t' ht'
        by_cases heq : t' = t <;> simp [heq, ht']
      refine hnumbered.frame [] hnone hlog hslot (fun c' call' hc' => ?_) (fun _ => rfl) rfl
      rcases update_some hc' with ⟨rfl, rfl⟩ | ⟨-, hold⟩
      · exact ⟨by simp, fun no hno => by cases hno⟩
      · exact ⟨hslot _ (hnumbered.slotted c' call' hold), fun _ _ => hold⟩
  | plain hc => exact hnumbered.call hc _ rfl [] hnone hlog rfl rfl rfl rfl
  | appends hc => exact hnumbered.call hc _ rfl [] hnone hlog rfl rfl rfl rfl
  | unkept hc => exact hnumbered.call hc _ rfl [] hnone hlog rfl rfl rfl rfl
  | appended hc => exact hnumbered.call hc .appended rfl [] hnone hlog rfl rfl rfl rfl
  | numbered hc => exact hnumbered.numbered hc
  | unsent hc => exact hnumbered.call hc _ rfl [_] (fun _ => rfl) rfl rfl rfl rfl rfl
  | pushed hc hplace => exact hnumbered.pushed hlocks hc hplace rfl rfl rfl rfl rfl
  | told hc => exact hnumbered.call hc _ rfl [] hnone hlog rfl rfl rfl rfl
  | spawned hc => exact hnumbered.call hc _ rfl [] hnone hlog rfl rfl rfl rfl
  | registered hc => exact hnumbered.call hc _ rfl [] hnone hlog rfl rfl rfl rfl
  | aborts hc => exact hnumbered.call hc _ rfl [] hnone hlog rfl rfl rfl rfl
  | released hc => exact hnumbered.call hc .left rfl [] hnone hlog rfl rfl rfl rfl
  | task _ _ _ _ _ _ _ hmore =>
      exact hnumbered.aside _ (fun obs hobs => Obs.aside_of_quiet (hmore obs hobs)) rfl rfl rfl
        (fun _ => rfl) rfl
  | left hk hitems =>
      rename_i k t
      refine hnumbered.aside [] (by simp) hlog rfl rfl (fun t' => ?_) rfl
      by_cases ht : t' = t
      · subst ht
        simp [setQueue, setTask]
      · simp [setQueue, setTask, ht]
  | droppedUnsent =>
      exact hnumbered.aside [_] (by simp [Obs.aside]) rfl rfl rfl (fun _ => rfl) rfl
  | sent => exact hnumbered.aside [_] (by simp [Obs.aside]) rfl rfl rfl (fun _ => rfl) rfl
  | retried hk =>
      rename_i k t head error
      refine hnumbered.aside [_] (by simp [Obs.aside]) rfl rfl rfl (fun t' => ?_) rfl
      by_cases ht : t' = t
      · subst ht
        simp [setQueue, setTask, observe]
      · simp [setQueue, setTask, observe, ht]
  | refused =>
      exact hnumbered.aside [_] (by simp [Obs.aside, refusal]) rfl rfl rfl (fun _ => rfl) rfl
  | popped hk =>
      rename_i k t head how
      refine hnumbered.frame [_] (fun _ => rfl) rfl (fun _ ht => ht)
        (fun c call hc => ⟨hnumbered.slotted c call hc, fun _ _ => hc⟩) (fun t' => ?_) rfl
      by_cases ht : t' = t
      · subst ht
        simp [Sys.pop, setQueue, setTask, observe]
      · simp [Sys.pop, setQueue, setTask, observe, ht]
  | waited hwait =>
      exact hnumbered.aside _ (fun obs hobs => Obs.aside_of_wait (hwait.ofWait obs hobs)) rfl rfl
        rfl (fun _ => rfl) rfl
  | reportUnsent =>
      refine hnumbered.aside _ (fun obs hobs => ?_) rfl rfl rfl (fun _ => rfl) rfl
      obtain ⟨queued, -, rfl⟩ := List.mem_map.mp hobs
      rfl
  | restart => exact .fresh _ _ _
  | _ => exact hnumbered.aside [] (by simp) hlog rfl rfl (fun _ => rfl) rfl

/-! ## Changes that are still to be told -/

/-- A call or a task has changed the queue and is about to tell it. -/
def Due (s : Sys β) (t : ThreadRef) : Prop :=
  (∃ c call, s.calls c = some call ∧ call.thread = t ∧ call.place.untold = true) ∨
    ∃ k place, s.tasks k = some ⟨t, place⟩ ∧ place.untold = true

/-- The step that tells it is open. -/
theorem Due.told {t : ThreadRef} (h : s.Due t) :
    ∃ e s', s.step json e = some s' ∧ s'.changed t = s.changed t + 1 := by
  rcases h with ⟨c, call, hc, rfl, hplace⟩ | ⟨k, place, hk, hplace⟩
  · cases hp : call.place with
    | queued spawn =>
        refine ⟨.call c, (s.setCall c call (.told spawn)).bump call.thread, ?_, ?_⟩
        · simp [step, hc, callStep, hp]
        · simp [bump, Sys.setCall]
    | _ =>
        rw [hp] at hplace
        cases hplace
  · cases place with
    | popped head =>
        refine ⟨.task k, (s.setTask k t (.removing head)).bump t, ?_, ?_⟩
        · simp [step, hk, taskStep]
        · simp [bump, setTask]
    | _ => cases hplace

/-- What a step means to a wait of the thread: the change is told, or it is due, or there is
none. -/
def Tells (s s' : Sys β) (t : ThreadRef) : Prop :=
  s.changed t < s'.changed t ∨ s'.changed t = s.changed t ∧
    (s'.Due t ∨ ¬ s.Due t ∧ ∀ goal, s'.met t goal = s.met t goal)

/-- Nothing that a wait looks at changes. -/
theorem Tells.same {t : ThreadRef} (hchanged : s'.changed t = s.changed t)
    (hmet : ∀ goal, s'.met t goal = s.met t goal) (hdue : s.Due t → s'.Due t) :
    Tells s s' t := by
  by_cases h : s.Due t
  · exact Or.inr ⟨hchanged, Or.inl (hdue h)⟩
  · exact Or.inr ⟨hchanged, Or.inr ⟨h, hmet⟩⟩

/-- A call goes on that has nothing to tell. -/
theorem Tells.call {t : ThreadRef} {c : ℕ} {call : Call β} (hc : s.calls c = some call)
    (place : CallPlace) (hplace : call.place.untold = false)
    (hcalls : s'.calls = (s.setCall c call place).calls) (hqueue : s'.queue = s.queue)
    (htasks : ∀ k task, s.tasks k = some task → s'.tasks k = some task)
    (hchanged : s'.changed = s.changed) : Tells s s' t := by
  refine Tells.same (by rw [hchanged]) (fun goal => by cases goal <;> simp [met, hqueue]) ?_
  rintro (⟨c', call', hc', hthread, huntold⟩ | ⟨k, place', hk, huntold⟩)
  · have hne : c' ≠ c := by
      rintro rfl
      obtain rfl : call = call' := Option.some.inj (hc.symm.trans hc')
      cases hplace.symm.trans huntold
    exact Or.inl ⟨c', call', by simpa [hcalls, Sys.setCall, hne] using hc', hthread, huntold⟩
  · exact Or.inr ⟨k, place', htasks k _ hk, huntold⟩

/-- A new call has nothing to tell. -/
theorem Tells.begin {t : ThreadRef} {c : ℕ} (hnone : s.calls c = none) {call : Call β}
    {place : CallPlace} (hcalls : s'.calls = (s.setCall c call place).calls)
    (hqueue : s'.queue = s.queue) (htasks : s'.tasks = s.tasks)
    (hchanged : s'.changed = s.changed) : Tells s s' t := by
  refine Tells.same (by rw [hchanged]) (fun goal => by cases goal <;> simp [met, hqueue]) ?_
  rintro (⟨c', call', hc', hthread, huntold⟩ | ⟨k, place', hk, huntold⟩)
  · have hne : c' ≠ c := by
      rintro rfl
      cases hnone.symm.trans hc'
    exact Or.inl ⟨c', call', by simpa [hcalls, Sys.setCall, hne] using hc', hthread, huntold⟩
  · exact Or.inr ⟨k, place', by rw [htasks]; exact hk, huntold⟩

/-- A task goes on that has nothing to tell. -/
theorem Tells.task {t t' : ThreadRef} {k : ℕ} {place : TaskPlace β}
    (hk : s.tasks k = some ⟨t', place⟩) (place' : TaskPlace β) (hplace : place.untold = false)
    (htasks : s'.tasks = (s.setTask k t' place').tasks)
    (hmet : ∀ goal, s'.met t goal = s.met t goal) (hcalls : s'.calls = s.calls)
    (hchanged : s'.changed = s.changed) : Tells s s' t := by
  refine Tells.same (by rw [hchanged]) hmet ?_
  rintro (⟨c, call, hc, hthread, huntold⟩ | ⟨j, q, hj, huntold⟩)
  · exact Or.inl ⟨c, call, by rw [hcalls]; exact hc, hthread, huntold⟩
  · have hne : j ≠ k := by
      rintro rfl
      cases hk.symm.trans hj
      cases hplace.symm.trans huntold
    exact Or.inr ⟨j, q, by simpa [htasks, setTask, hne] using hj, huntold⟩

/-- A step that leaves the calls, the tasks and what a wait looks at. -/
theorem Tells.rest {t : ThreadRef} (hqueue : s'.queue = s.queue) (hcalls : s'.calls = s.calls)
    (htasks : s'.tasks = s.tasks) (hchanged : s'.changed = s.changed) : Tells s s' t := by
  refine Tells.same (by rw [hchanged]) (fun goal => by cases goal <;> simp [met, hqueue]) ?_
  unfold Due
  rw [hcalls, htasks]
  exact id

/-- A change of the queue is told by a step of its own. -/
theorem Moves.tells (h : Moves json s s') (hworkers : s.Workers) (t : ThreadRef) :
    s'.waits = (fun _ => none) ∨ Tells s s' t := by
  have hsame : ∀ (queue : QueueInner β) (t' : ThreadRef),
      queue.items = (s.queue t').items → queue.dropped = (s.queue t').dropped →
      ∀ goal, (s.setQueue t' queue).met t goal = s.met t goal := by
    intro queue t' hitems hdropped goal
    by_cases ht : t = t'
    · subst ht
      cases goal <;> simp [met, setQueue, hitems, hdropped]
    · cases goal <;> simp [met, setQueue, ht]
  cases h with
  | restart => exact Or.inl rfl
  | accept _ _ hnone => exact Or.inr (.begin hnone rfl rfl rfl rfl)
  | keep _ _ hnone => exact Or.inr (.begin hnone rfl rfl rfl rfl)
  | plain hc hplace =>
      refine Or.inr (.call hc _ ?_ rfl rfl (fun _ _ hk => hk) rfl)
      revert hplace
      cases Call.place _ <;> simp [CallPlace.plain, CallPlace.untold]
  | appends hc hplace =>
      exact Or.inr (.call hc _ (by rw [hplace]; rfl) rfl rfl (fun _ _ hk => hk) rfl)
  | unkept hc hplace =>
      exact Or.inr (.call hc _ (by rw [hplace]; rfl) rfl rfl (fun _ _ hk => hk) rfl)
  | appended hc hplace =>
      exact Or.inr (.call hc .appended (by rw [hplace]; rfl) rfl rfl (fun _ _ hk => hk) rfl)
  | numbered hc hplace =>
      exact Or.inr (.call hc _ (by rw [hplace]; rfl) rfl rfl (fun _ _ hk => hk) rfl)
  | unsent hc hplace =>
      exact Or.inr (.call hc _ (by rw [hplace]; rfl) rfl rfl (fun _ _ hk => hk) rfl)
  | pushed hc hplace =>
      rename_i c call no _
      by_cases ht : t = call.thread
      · subst ht
        refine Or.inr (Or.inr ⟨rfl, Or.inl (Or.inl ⟨c, _, Function.update_self .., rfl, rfl⟩)⟩)
      · refine Or.inr (Tells.same rfl (fun goal => ?_) ?_)
        · cases goal <;> simp [met, observe, Sys.setCall, Sys.push, setQueue, ht]
        · rintro (⟨c', call', hc', hthread, huntold⟩ | ⟨k, place, hk, huntold⟩)
          · have hne : c' ≠ c := by
              rintro rfl
              obtain rfl : call = call' := Option.some.inj (hc.symm.trans hc')
              exact ht hthread.symm
            refine Or.inl ⟨c', call', ?_, hthread, huntold⟩
            simpa [observe, Sys.setCall, Sys.push, setQueue, hne] using hc'
          · exact Or.inr ⟨k, place, hk, huntold⟩
  | told hc hplace =>
      rename_i c call spawn
      by_cases ht : t = call.thread
      · subst ht
        exact Or.inr (Or.inl (by simp [bump, Sys.setCall]))
      · refine Or.inr (Tells.same (by simp [bump, Sys.setCall, ht]) (fun goal => ?_) ?_)
        · cases goal <;> rfl
        · rintro (⟨c', call', hc', hthread, huntold⟩ | ⟨k, place, hk, huntold⟩)
          · have hne : c' ≠ c := by
              rintro rfl
              obtain rfl : call = call' := Option.some.inj (hc.symm.trans hc')
              exact ht hthread.symm
            refine Or.inl ⟨c', call', ?_, hthread, huntold⟩
            simpa [bump, Sys.setCall, hne] using hc'
          · exact Or.inr ⟨k, place, hk, huntold⟩
  | spawned hc hplace =>
      refine Or.inr (.call hc _ (by rw [hplace]; rfl) rfl rfl (fun k task hk => ?_) rfl)
      have hne : k ≠ s.nextTask := (hworkers.fresh k task hk).ne
      simpa [Sys.setCall, setTask, hne] using hk
  | registered hc hplace =>
      exact Or.inr (.call hc _ (by rw [hplace]; rfl) rfl rfl (fun _ _ hk => hk) rfl)
  | aborts hc hplace =>
      exact Or.inr (.call hc _ (by rw [hplace]; rfl) rfl rfl (fun _ _ hk => hk) rfl)
  | released hc hplace =>
      exact Or.inr (.call hc .left (by rw [hplace]; rfl) rfl rfl (fun _ _ hk => hk) rfl)
  | task hk _ huntold =>
      exact Or.inr (.task hk _ huntold rfl (fun goal => by cases goal <;> rfl) rfl rfl)
  | left hk hitems =>
      rename_i k t'
      refine Or.inr (.task hk _ rfl rfl (fun goal => ?_) rfl rfl)
      exact hsame { s.queue t' with workerRunning := false } t' rfl rfl goal
  | took hk => exact Or.inr (.task hk _ rfl rfl (fun goal => by cases goal <;> rfl) rfl rfl)
  | droppedUnsent hk =>
      exact Or.inr (.task hk _ rfl rfl (fun goal => by cases goal <;> rfl) rfl rfl)
  | sent hk => exact Or.inr (.task hk _ rfl rfl (fun goal => by cases goal <;> rfl) rfl rfl)
  | retried hk =>
      rename_i k t' head error
      refine Or.inr (.task hk _ rfl rfl (fun goal => ?_) rfl rfl)
      exact hsame { s.queue t' with lastFailure := some (head.item.id, error) } t' rfl rfl goal
  | refused hk => exact Or.inr (.task hk _ rfl rfl (fun goal => by cases goal <;> rfl) rfl rfl)
  | broke hk => exact Or.inr (.task hk _ rfl rfl (fun goal => by cases goal <;> rfl) rfl rfl)
  | popped hk =>
      rename_i k t' head how
      by_cases ht : t = t'
      · subst ht
        refine Or.inr (Or.inr ⟨rfl, Or.inl (Or.inr ⟨k, _, Function.update_self .., rfl⟩)⟩)
      · refine Or.inr (.task hk _ rfl rfl (fun goal => ?_) rfl rfl)
        cases goal <;> simp [met, observe, setTask, Sys.pop, setQueue, ht]
  | toldEnd hk =>
      rename_i k t' head
      by_cases ht : t = t'
      · subst ht
        exact Or.inr (Or.inl (by simp [bump, setTask]))
      · refine Or.inr (Tells.same (by simp [bump, setTask, ht]) (fun goal => ?_) ?_)
        · cases goal <;> rfl
        · rintro (⟨c, call, hc, hthread, huntold⟩ | ⟨j, place, hj, huntold⟩)
          · exact Or.inl ⟨c, call, hc, hthread, huntold⟩
          · have hne : j ≠ k := by
              rintro rfl
              cases hk.symm.trans hj
              exact ht rfl
            exact Or.inr ⟨j, place, by simpa [bump, setTask, hne] using hj, huntold⟩
  | removed hk =>
      exact Or.inr (.task hk _ rfl rfl (fun goal => by cases goal <;> rfl) rfl rfl)
  | cut hk _ _ huntold =>
      exact Or.inr (.task hk _ huntold rfl (fun goal => by cases goal <;> rfl) rfl rfl)
  | _ => exact Or.inr (.rest rfl rfl rfl rfl)

/-! ## The waits -/

/-- The number that the wait has read stands between the items queued before and after. -/
def Targeted (s : Sys β) (w : ℕ) (t : ThreadRef) (target : ℕ) : Prop :=
  ∃ pre post, s.log = pre ++ .target w t target :: post ∧
    (∀ queued ∈ queuedOn t pre, queued.no ≤ target) ∧
    (∀ queued ∈ queuedOn t post, target < queued.no) ∧
    .called w t ∉ post ∧ target ≤ (s.queue t).lastNo

structure Waits (s : Sys β) : Prop where
  called : ∀ w t, .called w t ∈ s.log → ∃ place, s.waits w = some ⟨t, place⟩
  logged : ∀ w t place, s.waits w = some ⟨t, place⟩ → .called w t ∈ s.log
  past : ∀ w t place target, s.waits w = some ⟨t, place⟩ →
    place.goal? = some (.past target) → s.Targeted w t target
  seen : ∀ w t place seen, s.waits w = some ⟨t, place⟩ → place.seen? = some seen →
    seen ≤ s.changed t
  parked : ∀ w t goal seen, s.waits w = some ⟨t, .waiting goal seen⟩ → s.changed t = seen →
    s.met t goal = false ∨ s.Due t
  rule : Always WaitRule s.log

theorem Waits.fresh (store : List StoredItem) (history : List (Kept β))
    (base : List (ThreadRef × Item β)) : (Sys.fresh store history base).Waits := by
  refine ⟨?_, ?_, ?_, ?_, ?_, always_nil⟩ <;> simp [Sys.fresh]

theorem Targeted.append {w : ℕ} {t : ThreadRef} {target : ℕ} (h : s.Targeted w t target)
    (more : List (Obs β)) (hlog : s'.log = s.log ++ more)
    (hmore : ∀ queued ∈ queuedOn t more, (s.queue t).lastNo < queued.no)
    (hcalled : .called w t ∉ more) (hlast : (s.queue t).lastNo ≤ (s'.queue t).lastNo) :
    s'.Targeted w t target := by
  obtain ⟨pre, post, hsplit, hpre, hpost, hnone, htarget⟩ := h
  refine ⟨pre, post ++ more, by simp [hlog, hsplit], hpre, fun queued hqueued => ?_, ?_,
    htarget.trans hlast⟩
  · rw [queuedOn_append] at hqueued
    rcases List.mem_append.mp hqueued with hold | hnew
    · exact hpost queued hold
    · exact htarget.trans_lt (hmore queued hnew)
  · rw [List.mem_append]
    rintro (hold | hnew)
    · exact hnone hold
    · exact hcalled hnew

/-- A step of another party: the waits stay where they are. -/
theorem Waits.frame (h : s.Waits) (hwaits : s'.waits = s.waits) (more : List (Obs β))
    (hmore : ∀ obs ∈ more, obs.ofWait = false) (hlog : s'.log = s.log ++ more)
    (hqueued : ∀ t, ∀ queued ∈ queuedOn t more, (s.queue t).lastNo < queued.no)
    (hlast : ∀ t, (s.queue t).lastNo ≤ (s'.queue t).lastNo)
    (htells : ∀ w t place, s.waits w = some ⟨t, place⟩ → Tells s s' t) : s'.Waits := by
  have hnone : ∀ w t, .called w t ∉ more := fun w t hmem => by cases hmore _ hmem
  refine ⟨fun w t hmem => ?_, fun w t place hw => ?_, fun w t place target hw hgoal => ?_,
    fun w t place seen hw hseen => ?_, fun w t goal seen hw hseen => ?_, ?_⟩
  · rw [hlog] at hmem
    rw [hwaits]
    rcases List.mem_append.mp hmem with hold | hnew
    · exact h.called w t hold
    · exact absurd hnew (hnone w t)
  · rw [hlog]
    rw [hwaits] at hw
    exact List.mem_append_left _ (h.logged w t place hw)
  · rw [hwaits] at hw
    exact (h.past w t place target hw hgoal).append more hlog (hqueued t) (hnone w t) (hlast t)
  · rw [hwaits] at hw
    refine (h.seen w t place seen hw hseen).trans ?_
    rcases htells w t place hw with hlt | ⟨heq, -⟩
    · exact hlt.le
    · exact heq.ge
  · rw [hwaits] at hw
    have hle := h.seen w t _ seen hw rfl
    rcases htells w t _ hw with hlt | ⟨heq, hdue | ⟨hnot, hmet⟩⟩
    · -- the version that was seen is an older one
      exact absurd hseen (hle.trans_lt hlt).ne'
    · exact Or.inr hdue
    · refine Or.inl ?_
      rw [hmet goal]
      rcases h.parked w t goal seen hw (heq ▸ hseen) with hunmet | hdue
      · exact hunmet
      · exact absurd hdue hnot
  · rw [hlog]
    refine always_append h.rule fun obs hobs pre => ?_
    have hnot := hmore obs hobs
    cases obs <;> trivial

/-- A wait comes to a place. -/
theorem Waits.move (h : s.Waits) {w : ℕ} {t : ThreadRef} {place : WaitPlace}
    {more : List (Obs β)}
    (hfrom : (∃ before, s.waits w = some ⟨t, before⟩ ∧ ∀ w' t', .called w' t' ∉ more) ∨
      s.waits w = none ∧ more = [.called w t])
    (hqueued : ∀ t', queuedOn t' more = [])
    (hpast : ∀ target, place.goal? = some (.past target) →
      ({ s.setWait w t place with log := s.log ++ more } : Sys β).Targeted w t target)
    (hseen : ∀ seen, place.seen? = some seen → seen ≤ s.changed t)
    (hparked : ∀ goal seen, place = .waiting goal seen → s.met t goal = false)
    (hrule : Always WaitRule (s.log ++ more)) :
    ({ s.setWait w t place with log := s.log ++ more } : Sys β).Waits := by
  refine ⟨fun w' t' hmem => ?_, fun w' t' place' hw => ?_, fun w' t' place' target hw hgoal => ?_,
    fun w' t' place' seen hw hs => ?_, fun w' t' goal seen hw hs => ?_, hrule⟩
  · by_cases heq : w' = w
    · subst heq
      refine ⟨place, ?_⟩
      have hthread : t' = t := by
        rcases List.mem_append.mp hmem with hold | hnew
        · obtain ⟨before', hw'⟩ := h.called w' t' hold
          rcases hfrom with ⟨before, hw, -⟩ | ⟨hnone, -⟩
          · cases hw.symm.trans hw'
            rfl
          · cases hnone.symm.trans hw'
        · rcases hfrom with ⟨before, -, hnot⟩ | ⟨-, rfl⟩
          · exact absurd hnew (hnot w' t')
          · cases List.mem_singleton.mp hnew
            rfl
      simp [setWait, hthread]
    · rcases List.mem_append.mp hmem with hold | hnew
      · obtain ⟨before, hw'⟩ := h.called w' t' hold
        exact ⟨before, by simpa [setWait, heq] using hw'⟩
      · rcases hfrom with ⟨before, -, hnot⟩ | ⟨-, rfl⟩
        · exact absurd hnew (hnot w' t')
        · cases List.mem_singleton.mp hnew
          exact absurd rfl heq
  · rcases update_some hw with ⟨rfl, hplace⟩ | ⟨-, hold⟩
    · cases hplace
      rcases hfrom with ⟨before, hw', -⟩ | ⟨-, rfl⟩
      · exact List.mem_append_left _ (h.logged _ _ before hw')
      · exact List.mem_append_right _ (List.mem_singleton_self _)
    · exact List.mem_append_left _ (h.logged w' t' place' hold)
  · rcases update_some hw with ⟨rfl, hplace⟩ | ⟨hne, hold⟩
    · cases hplace
      exact hpast target hgoal
    · refine (h.past w' t' place' target hold hgoal).append more rfl (by simp [hqueued]) ?_ le_rfl
      rcases hfrom with ⟨before, -, hnot⟩ | ⟨-, rfl⟩
      · exact hnot w' t'
      · rw [List.mem_singleton]
        intro heq
        cases heq
        exact hne rfl
  · rcases update_some hw with ⟨rfl, hplace⟩ | ⟨-, hold⟩
    · cases hplace
      exact hseen seen hs
    · exact h.seen w' t' place' seen hold hs
  · rcases update_some hw with ⟨rfl, hplace⟩ | ⟨-, hold⟩
    · cases hplace
      exact Or.inl (hparked goal seen rfl)
    · exact h.parked w' t' goal seen hold hs

/-- The items queued before the number was read are those with no greater one. -/
theorem Targeted.met_iff (hfifo : s.Fifo) {w : ℕ} {t : ThreadRef} {target : ℕ}
    {pre post : List (Obs β)} (hsplit : s.log = pre ++ .target w t target :: post)
    (hpre : ∀ queued ∈ queuedOn t pre, queued.no ≤ target)
    (hpost : ∀ queued ∈ queuedOn t post, target < queued.no) :
    s.met t (.past target) = true ↔ queuedOn t pre <+: endedOn t s.log := by
  have hline : queuedOn t pre ++ queuedOn t post = endedOn t s.log ++ (s.queue t).items := by
    rw [← hfifo t, hsplit, ← List.singleton_append, queuedOn_append, queuedOn_append]
    rfl
  constructor
  · intro hmet
    rcases List.append_eq_append_iff.mp hline with ⟨rest, hended, -⟩ | ⟨rest, hqueued, hitems⟩
    · exact ⟨rest, hended.symm⟩
    · cases rest with
      | nil => exact ⟨[], by simpa using hqueued⟩
      | cons head rest =>
          -- the head of the queue would be one of the items before
          have hle := hpre head (by simp [hqueued])
          have hlt : target < head.no := by simpa [met, hitems] using hmet
          exact absurd hle hlt.not_ge
  · rintro ⟨rest, hended⟩
    rw [← hended, List.append_assoc] at hline
    have hrest := List.append_cancel_left hline
    cases hitems : (s.queue t).items with
    | nil => simp [met, hitems]
    | cons head items =>
        have hlt := hpost head (by simp [hrest, hitems])
        simp [met, hitems, hlt]

theorem droppedBefore_ended {t : ThreadRef} {entry : Uuid} {log : List (Obs β)}
    (h : droppedBefore t entry log = true) : endedOn t log ≠ [] := by
  obtain ⟨obs, hobs, hdrops⟩ := List.any_eq_true.mp h
  have hmem := mem_of_mem_since hobs
  cases obs with
  | ended t' item no how =>
      simp only [drops, Bool.and_eq_true, decide_eq_true_eq] at hdrops
      have hended : (⟨item, no⟩ : Queued β) ∈ endedOn t log :=
        List.mem_filterMap.mpr ⟨_, hmem, by simp [hdrops.1.1]⟩
      exact List.ne_nil_of_mem hended
  | _ => cases hdrops

/-- What a wait returns is what the rule allows. -/
theorem WaitMoves.rule (hwaits : s.Waits) (hfifo : s.Fifo) (hdropped : s.Dropped)
    (hnumbered : s.Numbered) {w : ℕ} {t : ThreadRef} {place : WaitPlace} {more : List (Obs β)}
    (h : s.WaitMoves w t place more) : ∀ obs ∈ more, WaitRule s.log obs := by
  -- a thread without a slot has never had an item
  have hempty : s.slots t = false → queuedOn t s.log = [] := by
    intro hslot
    by_contra hne
    cases hslot.symm.trans (hnumbered.queued t hne)
  intro obs hobs
  cases h with
  | called hnone =>
      rw [List.mem_singleton.mp hobs]
      trivial
  | target hw =>
      rw [List.mem_singleton.mp hobs]
      trivial
  | unslotted hw hslot =>
      rw [List.mem_singleton.mp hobs]
      refine ⟨hwaits.logged w t _ hw, fun before after hsplit => ?_⟩
      have hnone := hempty hslot
      rw [hsplit, queuedOn_append] at hnone
      rw [(List.append_eq_nil_iff.mp hnone).1]
      exact List.nil_prefix
  | unslottedEntry hw hslot =>
      rename_i entry
      rw [List.mem_singleton.mp hobs]
      have hnone := hempty hslot
      have hline := hfifo t
      rw [hnone] at hline
      have hended : endedOn t s.log = [] := (List.append_eq_nil_iff.mp hline.symm).1
      refine ⟨?_, [], by simp [hnone, hended], by simp⟩
      rw [← Bool.not_eq_true]
      exact fun hbefore => droppedBefore_ended hbefore hended
  | returns hw hmet =>
      rename_i target seen
      rw [List.mem_singleton.mp hobs]
      refine ⟨hwaits.logged w t _ hw, fun before after hsplit => ?_⟩
      obtain ⟨pre, post, htarget, hpre, hpost, hnone, -⟩ := hwaits.past w t _ target hw rfl
      have hended := (Targeted.met_iff hfifo htarget hpre hpost).mp hmet
      refine List.IsPrefix.trans ?_ hended
      -- the call stands before the reading of the number
      rcases List.append_eq_append_iff.mp (htarget.symm.trans hsplit) with
        ⟨rest, -, hpost'⟩ | ⟨rest, hpre', -⟩
      · cases rest with
        | nil => cases hpost'
        | cons x rest =>
            obtain ⟨-, hpost'⟩ := List.cons_eq_cons.mp hpost'
            exact absurd (by rw [hpost']; simp) hnone
      · rw [hpre', queuedOn_append]
        exact List.prefix_append _ _
  | gives hw hmet =>
      rename_i entry seen
      rw [List.mem_singleton.mp hobs]
      have hbefore := hdropped t entry
      cases hq : (s.queue t).dropped entry with
      | true =>
          rw [hq] at hbefore
          simpa [outcomeOf, hq, WaitRule] using hbefore.symm
      | false =>
          rw [hq] at hbefore
          have hnone : ∀ queued ∈ (s.queue t).items, entry ∉ queued.item.entries := by
            simpa [met, hq] using hmet
          have hrule : droppedBefore t entry s.log = false ∧ ∃ waiting,
              queuedOn t s.log = endedOn t s.log ++ waiting ∧
                ∀ queued ∈ waiting, entry ∉ queued.item.entries :=
            ⟨hbefore.symm, (s.queue t).items, hfifo t, hnone⟩
          simpa [outcomeOf, hq, WaitRule] using hrule
  | _ => cases hobs

theorem WaitMoves.waits (hwaits : s.Waits) (hfifo : s.Fifo) (hdropped : s.Dropped)
    (hnumbered : s.Numbered) {w : ℕ} {t : ThreadRef} {place : WaitPlace} {more : List (Obs β)}
    (h : s.WaitMoves w t place more) :
    ({ s.setWait w t place with log := s.log ++ more } : Sys β).Waits := by
  have hqueued : ∀ t', queuedOn t' more = [] :=
    fun t' => queuedOn_aside fun obs hobs => Obs.aside_of_wait (h.ofWait obs hobs)
  have hrule : Always WaitRule (s.log ++ more) := by
    have hall := h.rule hwaits hfifo hdropped hnumbered
    cases h <;> first
      | exact always_snoc.mpr ⟨hwaits.rule, hall _ (List.mem_singleton_self _)⟩
      | simpa using hwaits.rule
  cases h with
  | called hnone =>
      exact hwaits.move (Or.inr ⟨hnone, rfl⟩) hqueued (by simp [WaitPlace.goal?])
        (by simp [WaitPlace.seen?]) (by simp) hrule
  | target hw =>
      refine hwaits.move (Or.inl ⟨_, hw, by simp⟩) hqueued (fun target htarget => ?_)
        (by simp [WaitPlace.seen?]) (by simp) hrule
      cases htarget
      exact ⟨s.log, [], rfl, hnumbered.bound t, by simp, by simp, le_rfl⟩
  | subscribes hw =>
      refine hwaits.move (Or.inl ⟨_, hw, by simp⟩) hqueued (fun target htarget => ?_)
        (fun seen hseen => ?_) (by simp) hrule
      · exact (hwaits.past w t _ target hw htarget).append [] rfl (by simp) (by simp) le_rfl
      · cases hseen
        exact le_rfl
  | parks hw hunmet =>
      refine hwaits.move (Or.inl ⟨_, hw, by simp⟩) hqueued (fun target htarget => ?_)
        (fun seen hseen => ?_) (fun goal seen hplace => ?_) hrule
      · exact (hwaits.past w t _ target hw htarget).append [] rfl (by simp) (by simp) le_rfl
      · cases hseen
        exact hwaits.seen w t _ _ hw rfl
      · cases hplace
        exact hunmet
  | wakes hw hchanged =>
      refine hwaits.move (Or.inl ⟨_, hw, by simp⟩) hqueued (fun target htarget => ?_)
        (by simp [WaitPlace.seen?]) (by simp) hrule
      exact (hwaits.past w t _ target hw htarget).append [] rfl (by simp) (by simp) le_rfl
  | unslotted hw =>
      exact hwaits.move (Or.inl ⟨_, hw, by simp⟩) hqueued (by simp [WaitPlace.goal?])
        (by simp [WaitPlace.seen?]) (by simp) hrule
  | unslottedEntry hw =>
      exact hwaits.move (Or.inl ⟨_, hw, by simp⟩) hqueued (by simp [WaitPlace.goal?])
        (by simp [WaitPlace.seen?]) (by simp) hrule
  | slotted hw =>
      exact hwaits.move (Or.inl ⟨_, hw, by simp⟩) hqueued (by simp [WaitPlace.goal?])
        (by simp [WaitPlace.seen?]) (by simp) hrule
  | entry hw =>
      exact hwaits.move (Or.inl ⟨_, hw, by simp⟩) hqueued (by simp [WaitPlace.goal?])
        (by simp [WaitPlace.seen?]) (by simp) hrule
  | returns hw =>
      exact hwaits.move (Or.inl ⟨_, hw, by simp⟩) hqueued (by simp [WaitPlace.goal?])
        (by simp [WaitPlace.seen?]) (by simp) hrule
  | gives hw =>
      exact hwaits.move (Or.inl ⟨_, hw, by simp⟩) hqueued (by simp [WaitPlace.goal?])
        (by simp [WaitPlace.seen?]) (by simp) hrule
  | dropped hw =>
      exact hwaits.move (Or.inl ⟨_, hw, by simp⟩) hqueued (by simp [WaitPlace.goal?])
        (by simp [WaitPlace.seen?]) (by simp) hrule

/-! ## Runs -/

/-- A step of another party logs nothing of the waits, and queues behind what there is. -/
theorem Moves.apart (h : Moves json s s') (hnumbered : s.Numbered) :
    (∃ w t place more, s.WaitMoves w t place more ∧
      s' = { s.setWait w t place with log := s.log ++ more }) ∨
    (∃ store history base, s' = Sys.fresh store history base) ∨
    (s'.waits = s.waits ∧ ∃ more, (∀ obs ∈ more, obs.ofWait = false) ∧ s'.log = s.log ++ more ∧
      (∀ t, ∀ queued ∈ queuedOn t more, (s.queue t).lastNo < queued.no) ∧
      ∀ t, (s.queue t).lastNo ≤ (s'.queue t).lastNo) := by
  have hquiet : ∀ more : List (Obs β), (∀ obs ∈ more, obs.quiet = true) →
      ∀ obs ∈ more, obs.ofWait = false := by
    intro more hmore obs hobs
    have h := hmore obs hobs
    cases obs <;> first | rfl | cases h
  cases h with
  | waited hwait => exact Or.inl ⟨_, _, _, _, hwait, rfl⟩
  | restart => exact Or.inr (Or.inl ⟨_, _, _, rfl⟩)
  | unsent =>
      exact Or.inr (Or.inr ⟨rfl, [_], by simp [Obs.ofWait], rfl, by simp [queuedOn],
        fun _ => le_rfl⟩)
  | pushed hc hplace =>
      rename_i c call no _
      have hlast := (hnumbered.given c call no hc hplace).2
      refine Or.inr (Or.inr ⟨rfl, [_], by simp [Obs.ofWait], rfl, fun t queued hqueued => ?_,
        fun t => ?_⟩)
      · by_cases ht : call.thread = t
        · subst ht
          simp only [queuedOn_queued, if_true, List.mem_singleton] at hqueued
          rw [hqueued]
          exact hlast
        · simp [ht] at hqueued
      · by_cases ht : t = call.thread
        · subst ht
          simpa [observe, Sys.setCall, Sys.push, setQueue] using hlast.le
        · simp [observe, Sys.setCall, Sys.push, setQueue, ht]
  | task _ _ _ _ _ _ _ hmore =>
      refine Or.inr (Or.inr ⟨rfl, _, hquiet _ hmore, rfl, fun t queued hqueued => ?_,
        fun _ => le_rfl⟩)
      rw [queuedOn_aside fun obs hobs => Obs.aside_of_quiet (hmore obs hobs)] at hqueued
      cases hqueued
  | left hk hitems =>
      rename_i k t
      refine Or.inr (Or.inr ⟨rfl, [], by simp, by simp [setQueue, setTask], by simp,
        fun t' => ?_⟩)
      by_cases ht : t' = t
      · subst ht
        simp [setQueue, setTask]
      · simp [setQueue, setTask, ht]
  | droppedUnsent =>
      exact Or.inr (Or.inr ⟨rfl, [_], by simp [Obs.ofWait], rfl, by simp [queuedOn],
        fun _ => le_rfl⟩)
  | sent =>
      exact Or.inr (Or.inr ⟨rfl, [_], by simp [Obs.ofWait], rfl, by simp [queuedOn],
        fun _ => le_rfl⟩)
  | retried hk =>
      rename_i k t head error
      refine Or.inr (Or.inr ⟨rfl, [_], by simp [Obs.ofWait], rfl, by simp [queuedOn],
        fun t' => ?_⟩)
      by_cases ht : t' = t
      · subst ht
        simp [setQueue, setTask, observe]
      · simp [setQueue, setTask, observe, ht]
  | refused =>
      exact Or.inr (Or.inr ⟨rfl, [_], by simp [Obs.ofWait, refusal], rfl,
        by simp [queuedOn, refusal], fun _ => le_rfl⟩)
  | popped hk =>
      rename_i k t head how
      refine Or.inr (Or.inr ⟨rfl, [_], by simp [Obs.ofWait], rfl, by simp [queuedOn],
        fun t' => ?_⟩)
      by_cases ht : t' = t
      · subst ht
        simp [Sys.pop, setQueue, setTask, observe]
      · simp [Sys.pop, setQueue, setTask, observe, ht]
  | reportUnsent =>
      refine Or.inr (Or.inr ⟨rfl, _, fun obs hobs => ?_, rfl, fun t queued hqueued => ?_,
        fun _ => le_rfl⟩)
      · obtain ⟨queued, -, rfl⟩ := List.mem_map.mp hobs
        rfl
      · rw [queuedOn_aside fun obs hobs => ?_] at hqueued
        · cases hqueued
        · obtain ⟨queued, -, rfl⟩ := List.mem_map.mp hobs
          rfl
  | _ =>
      exact Or.inr (Or.inr ⟨rfl, [], by simp, (List.append_nil _).symm, by simp, fun _ => le_rfl⟩)

/-- All that the waits rest on. -/
structure Watched (s : Sys β) : Prop extends s.Inv where
  dropped : s.Dropped
  numbered : s.Numbered
  waits : s.Waits

theorem Moves.watched (h : Moves json s s') (hwatched : s.Watched) : s'.Watched where
  toInv := h.inv hwatched.toInv
  dropped := h.dropped hwatched.dropped
  numbered := h.numbers hwatched.locks hwatched.numbered
  waits := by
    have htells := h.tells hwatched.workers
    rcases h.apart hwatched.numbered with ⟨w, t, place, more, hwait, rfl⟩ |
      ⟨store, history, base, rfl⟩ | ⟨hwaits, more, hmore, hlog, hqueued, hlast⟩
    · exact hwait.waits hwatched.waits hwatched.fifo hwatched.dropped hwatched.numbered
    · exact .fresh _ _ _
    · refine hwatched.waits.frame hwaits more hmore hlog hqueued hlast fun w t place hw => ?_
      rcases htells t with hnone | htells
      · rw [← hwaits, hnone] at hw
        cases hw
      · exact htells

theorem reachable_watched (h : (machine json).Reachable s) : s.Watched := by
  refine h.invariant ?_ ?_
  · exact ⟨reachable_inv (Machine.Reachable.init (M := machine json)), fun _ _ => rfl,
      .fresh _ _ _, .fresh _ _ _⟩
  · intro s s' e hwatched hs
    exact (step_moves hs).watched hwatched

end Sys

/-! ## The result -/

/-- What the waits return is what the log allows; a wait for the items before it needs these
and no later ones; a parked wait that has seen all changes is not met, or the change that
meets it is told by a step that is open. -/
theorem waits_return {json : ItemJson β} {s : Sys β} (h : (machine json).Reachable s) :
    Always WaitRule s.log ∧
      (∀ w t place target, s.waits w = some ⟨t, place⟩ →
        place.goal? = some (.past target) →
          ∃ pre post, s.log = pre ++ .target w t target :: post ∧
            (s.met t (.past target) = true ↔
              Sys.queuedOn t pre <+: Sys.endedOn t s.log)) ∧
      ∀ w t goal seen, s.waits w = some ⟨t, .waiting goal seen⟩ → s.changed t = seen →
        s.met t goal = false ∨
          ∃ e s', s.step json e = some s' ∧ s'.changed t = s.changed t + 1 := by
  have hwatched := Sys.reachable_watched h
  refine ⟨hwatched.waits.rule, fun w t place target hw hgoal => ?_,
    fun w t goal seen hw hseen => ?_⟩
  · obtain ⟨pre, post, hsplit, hpre, hpost, -, -⟩ := hwatched.waits.past w t place target hw hgoal
    exact ⟨pre, post, hsplit, Sys.Targeted.met_iff hwatched.fifo hsplit hpre hpost⟩
  · rcases hwatched.waits.parked w t goal seen hw hseen with hunmet | hdue
    · exact Or.inl hunmet
    · exact Or.inr hdue.told

/-- The first chunk of an entry is refused, the second one is taken; a wait for the entry
comes before the second one has ended, another one after it. -/
def refusedChunkRun : List (Event Value) :=
  ([.slot threadOne] : List (Event Value)) ++ acceptRun 0 (openingItem 1) ++
    sendRun 0 (.ok none) ++ acceptRun 1 (chunkItem 2 0) ++ sendRun 1 (.error .unauthenticated) ++
    acceptRun 2 (chunkItem 3 1) ++
    ([.entryStored 0 threadOne 7, .wait 0, .wait 0, .wait 0, .drained 1 threadOne, .wait 1,
      .wait 1, .wait 1, .wait 1] : List (Event Value)) ++
    sendRun 2 (.ok none) ++
    ([.wait 0, .wait 0, .wait 0, .wait 1, .wait 1, .wait 1] : List (Event Value))

def refusedChunkLog : List (Obs Value) :=
  [.queued threadOne (openingItem 1) 1 false, .sent threadOne (openingItem 1) 1,
    .ended threadOne (openingItem 1) 1 .delivered, .queued threadOne (chunkItem 2 0) 2 false,
    .sent threadOne (chunkItem 2 0) 2,
    .report .itemRefused threadOne (chunkItem 2 0) (some .unauthenticated),
    .ended threadOne (chunkItem 2 0) 2 .refused, .queued threadOne (chunkItem 3 1) 3 false,
    .called 0 threadOne, .called 1 threadOne, .target 1 threadOne 3,
    .sent threadOne (chunkItem 3 1) 3, .ended threadOne (chunkItem 3 1) 3 .delivered]

theorem refusedChunk_run :
    ∃ s, (machine plainJson).Reachable s ∧
      s.log = refusedChunkLog ++ [.outcome 0 threadOne 7 .stored, .returned 1 threadOne] := by
  obtain ⟨s, hrun, hlog⟩ : ∃ s, (machine plainJson).run refusedChunkRun = some s ∧
      s.log = refusedChunkLog ++ [.outcome 0 threadOne 7 .stored, .returned 1 threadOne] :=
    ⟨_, rfl, rfl⟩
  exact ⟨s, Machine.reachable_of_run refusedChunkRun hrun, hlog⟩

theorem waits_return_refusedChunk :
    ∃ s, (machine plainJson).Reachable s ∧ Always WaitRule s.log ∧
      s.log = refusedChunkLog ++ [.outcome 0 threadOne 7 .stored, .returned 1 threadOne] := by
  obtain ⟨s, hreach, hlog⟩ := refusedChunk_run
  exact ⟨s, hreach, (waits_return hreach).1, hlog⟩

/-- The entry is stored although a chunk of it was refused: one accepted later clears it. -/
theorem stored_after_refused_chunk :
    ¬ ∀ s, (machine plainJson).Reachable s → ∀ pre w t entry post,
      s.log = pre ++ .outcome w t entry .stored :: post →
        ∀ item no how item' no' how', .ended t item no how ∈ pre → .ended t item' no' how' ∈ pre →
          entry ∈ item.entries → entry ∈ item'.entries → item.message = item'.message →
            how = .delivered := by
  intro hstored
  obtain ⟨s, hreach, hlog⟩ := refusedChunk_run
  have hdelivered := hstored s hreach refusedChunkLog 0 threadOne 7 [.returned 1 threadOne] hlog
    (chunkItem 2 0) 2 .refused (chunkItem 3 1) 3 .delivered (by simp [refusedChunkLog])
    (by simp [refusedChunkLog]) (by simp [chunkItem]) (by simp [chunkItem]) rfl
  cases hdelivered

end RunnerKit.Threads.Delivery
