import RunnerKit.Kit.RunLoop
import RunnerKit.Lib.Log

/-!
# Slots, tokens and terminal facts of the run loop

At the head of the loop the slots in flight and the keys of the token map are
the run ids of the tasks that were spawned and not joined, as long as no run
task ends by a panic. A task that panicked is joined as an error, and the loop
gives neither its slot nor its token back.
-/

namespace RunnerKit.Kit

open RunnerKit.Jobs RunnerKit.Lib

/-! ## What a log tells of a delivery -/

namespace Obs

def kindOf (n : ℕ) : Obs → Option AckKind
  | .settled delivery kind => if delivery = n then some kind else none
  | _ => none

def factOf (n : ℕ) : Obs → Option RunFact
  | .fact delivery told => if delivery = n then some told else none
  | _ => none

end Obs

/-- The acks, naks and terms of a delivery. -/
def kinds (n : ℕ) (log : List Obs) : List AckKind := log.filterMap (Obs.kindOf n)

/-- The terminal facts that a run handed over. -/
def facts (n : ℕ) (log : List Obs) : List RunFact := log.filterMap (Obs.factOf n)

@[simp] theorem kinds_append (n : ℕ) (log more : List Obs) :
    kinds n (log ++ more) = kinds n log ++ kinds n more :=
  List.filterMap_append

@[simp] theorem facts_append (n : ℕ) (log more : List Obs) :
    facts n (log ++ more) = facts n log ++ facts n more :=
  List.filterMap_append

/-- A run is spawned behind its accepted Started. -/
def SpawnedBehind (pre : List Obs) (obs : Obs) : Prop :=
  ∀ n runId, obs = .spawned n runId → .started n runId ∈ pre

@[simp] theorem kinds_nil (n : ℕ) : kinds n [] = [] := rfl

@[simp] theorem facts_nil (n : ℕ) : facts n [] = [] := rfl

@[simp] theorem kinds_cons (n : ℕ) (obs : Obs) (log : List Obs) :
    kinds n (obs :: log) = (obs.kindOf n).toList ++ kinds n log := by
  cases h : obs.kindOf n <;> simp [kinds, h]

@[simp] theorem facts_cons (n : ℕ) (obs : Obs) (log : List Obs) :
    facts n (obs :: log) = (obs.factOf n).toList ++ facts n log := by
  cases h : obs.factOf n <;> simp [facts, h]

/-- The collections of the loop in one state. -/
structure LoopKept (s : Sys) : Prop where
  slots : s.point = .head → ∀ id, id ∈ s.slots.inFlight ↔ ∃ t ∈ s.runs, t.runId = id
  tokens : s.point = .head → ∀ id, (s.tokens id).isSome ↔ ∃ t ∈ s.runs, t.runId = id
  distinct : (s.runs.map Task.runId).Nodup
  capacity : s.slots.inFlight.card ≤ s.slots.capacity ∧
    s.runs.length ≤ s.slots.capacity
  /-- A task that was just joined has left its slot and its token. -/
  freed : s.point = .head → ∀ n id, s.log.getLast? = some (.joined n id) →
    id ∉ s.slots.inFlight ∧ s.tokens id = none
  settled_once : ∀ n, (kinds n s.log).length ≤ 1
  settled_taken : ∀ n, kinds n s.log ≠ [] → .taken n ∈ s.log
  taken_settled : s.point = .head ∨ s.point = .over →
    ∀ n, .taken n ∈ s.log → (kinds n s.log).length = 1
  spawned_behind : Always SpawnedBehind s.log
  one_fact : ∀ n id, .spawned n id ∈ s.log → .dropped n ∉ s.log →
    (facts n s.log).length = 1 ∨
      facts n s.log = [] ∧ ∃ t ∈ s.runs, t.number = n ∧ t.state = .running
  most_one_fact : ∀ n, (facts n s.log).length ≤ 1

/-! ## The invariant of the loop -/

/-- The delivery that the loop has taken and not settled. -/
def Point.delivery : Point → Option ℕ
  | .settling n _ | .publishing n _ | .accepted n _ => some n
  | _ => none

/-- The run id whose slot is claimed and whose task is not spawned yet. -/
def Point.claimed : Point → Option Uuid
  | .publishing _ trigger | .accepted _ trigger => some trigger.runId
  | _ => none

def Obs.number : Obs → ℕ
  | .taken n | .started n _ | .settled n _ | .spawned n _ | .fact n _ | .panicked n
  | .joined n _ | .dropped n => n

namespace Sys

/-- The collections agree, whatever the loop is doing. -/
structure Tidy (s : Sys) : Prop where
  numbered : ∀ t ∈ s.runs, t.number < s.next
  numbers : (s.runs.map Task.number).Nodup
  distinct : (s.runs.map Task.runId).Nodup
  slots : s.point ≠ .over → ∀ id, id ∈ s.slots.inFlight ↔
    (∃ t ∈ s.runs, t.runId = id) ∨ s.point.claimed = some id
  unclaimed : ∀ id, s.point.claimed = some id → ∀ t ∈ s.runs, t.runId ≠ id
  tokens : s.point ≠ .over → ∀ id,
    (s.tokens id).isSome ↔ ∃ t ∈ s.runs, t.runId = id
  room : s.runs.length ≤ s.slots.capacity
  calm : ∀ t ∈ s.runs, t.state ≠ .panicked

/-- The log agrees with the deliveries and the tasks. -/
structure Told (s : Sys) : Prop where
  fresh : ∀ obs ∈ s.log, obs.number < s.next
  held : ∀ n, s.point.delivery = some n → n < s.next ∧ kinds n s.log = []
  settled : ∀ n, .taken n ∈ s.log → s.point.delivery ≠ some n →
    (kinds n s.log).length = 1
  taken : ∀ n, kinds n s.log ≠ [] ∨ s.point.delivery = some n → .taken n ∈ s.log
  started : ∀ n trigger, s.point = .accepted n trigger →
    .started n trigger.runId ∈ s.log
  unspawned : ∀ n, s.point.delivery = some n →
    (∀ id, .spawned n id ∉ s.log) ∧ .dropped n ∉ s.log
  behind : Always SpawnedBehind s.log
  running : ∀ t ∈ s.runs, .spawned t.number t.runId ∈ s.log ∧ .dropped t.number ∉ s.log
  runFacts : ∀ t ∈ s.runs,
    (t.state = .running → facts t.number s.log = []) ∧
      (t.state = .returned → (facts t.number s.log).length = 1)
  goneFacts : ∀ n id, .spawned n id ∈ s.log → (∀ t ∈ s.runs, t.number ≠ n) →
    .dropped n ∉ s.log → (facts n s.log).length = 1
  noFacts : ∀ n, (∀ id, .spawned n id ∉ s.log) ∨ .dropped n ∈ s.log →
    facts n s.log = []
  freed : ∀ n id, s.log.getLast? = some (.joined n id) → ∀ t ∈ s.runs, t.runId ≠ id

theorem tidy_init {capacity : ℕ} (h : 0 < capacity) :
    (init (.new capacity h)).Tidy := by
  constructor <;> simp [init, SlotPool.new, Point.claimed]

theorem told_init {pool : SlotPool} : (init pool).Told := by
  constructor <;> simp [init, Point.delivery, Always]

variable {s s' : Sys} {decode : Value → Decoded}

/-! ## Tasks that leave and tasks that end -/

theorem taskOf_some {number : ℕ} {task : Task} (h : s.taskOf number = some task) :
    task ∈ s.runs ∧ task.number = number :=
  ⟨List.mem_of_find?_eq_some h, by simpa using List.find?_some h⟩

theorem mem_removeTask {number : ℕ} {t : Task} :
    t ∈ s.removeTask number ↔ t ∈ s.runs ∧ t.number ≠ number := by
  simp [removeTask]

@[simp] theorem setState_numbers (number : ℕ) (state : TaskState) :
    (s.setState number state).map Task.number = s.runs.map Task.number := by
  simp only [setState, List.map_map]
  apply List.map_congr_left
  intro t _
  simp only [Function.comp_apply]
  split <;> rfl

@[simp] theorem setState_runIds (number : ℕ) (state : TaskState) :
    (s.setState number state).map Task.runId = s.runs.map Task.runId := by
  simp only [setState, List.map_map]
  apply List.map_congr_left
  intro t _
  simp only [Function.comp_apply]
  split <;> rfl

theorem mem_setState {number : ℕ} {state : TaskState} {t : Task} :
    t ∈ s.setState number state ↔
      ∃ u ∈ s.runs, (if u.number = number then { u with state := state } else u) = t := by
  simp [setState]

/-- Tasks of one number are one task, and so are tasks of one run id. -/
theorem Tidy.same (h : s.Tidy) {t u : Task} (ht : t ∈ s.runs) (hu : u ∈ s.runs) :
    (t.number = u.number → t = u) ∧ (t.runId = u.runId → t = u) :=
  ⟨List.inj_on_of_nodup_map h.numbers ht hu, List.inj_on_of_nodup_map h.distinct ht hu⟩

/-! ## Each transition keeps the collections tidy -/

theorem acceptTrigger_tidy (h : s.Tidy) (hpoint : s.point = .head)
    (trigger : Option Trigger) : (s.acceptTrigger trigger).Tidy := by
  obtain ⟨h1, h2, h3, h4, h5, h6, h7, h8⟩ := h
  unfold acceptTrigger
  cases trigger with
  | none => constructor <;> grind [Point.claimed]
  | some trigger =>
      dsimp only
      split
      · constructor <;> grind [Point.claimed]
      · have hcap : (s.slots.tryClaim trigger.runId).2.capacity = s.slots.capacity :=
          SlotPool.tryClaim_capacity
        have hclaim := s.slots.tryClaim_cases trigger.runId
        rcases hpair : s.slots.tryClaim trigger.runId with ⟨decision, slots⟩
        rw [hpair] at hclaim hcap
        rcases hclaim with ⟨hdec, hnot, hin⟩ | ⟨hdec, hsame⟩
        · simp only at hdec hin hcap
          subst hdec
          constructor <;> grind [Point.claimed]
        · cases decision <;> first
            | exact absurd rfl hdec
            | (constructor <;> grind [Point.claimed])

theorem publishedStarted_tidy (h : s.Tidy) {n : ℕ} {trigger : Trigger}
    (hpoint : s.point = .publishing n trigger) (accepted : Bool) :
    (s.publishedStarted n trigger accepted).Tidy := by
  obtain ⟨h1, h2, h3, h4, h5, h6, h7, h8⟩ := h
  cases accepted with
  | true => constructor <;> simp only [publishedStarted] <;> grind [Point.claimed]
  | false =>
      constructor <;> simp only [publishedStarted, SlotPool.release_inFlight,
        SlotPool.release_capacity, Finset.mem_erase] <;> grind [Point.claimed]

/-- The claimed slot is one more than the slots of the tasks. -/
theorem Tidy.card_claimed (h : s.Tidy) {id : Uuid} (hid : s.point.claimed = some id) :
    s.slots.inFlight.card = s.runs.length + 1 := by
  have hover : s.point ≠ .over := by
    intro hp
    simp [hp, Point.claimed] at hid
  have hset : s.slots.inFlight = insert id (s.runs.map Task.runId).toFinset := by
    ext i
    have := h.slots hover i
    simp only [hid, Option.some.injEq] at this
    simp only [this, Finset.mem_insert, List.mem_toFinset, List.mem_map]
    constructor
    · rintro (hi | rfl)
      · exact Or.inr hi
      · exact Or.inl rfl
    · rintro (rfl | hi)
      · exact Or.inr rfl
      · exact Or.inl hi
  have hnot : id ∉ (s.runs.map Task.runId).toFinset := by
    intro hmem
    obtain ⟨t, ht, htid⟩ := List.mem_map.mp (List.mem_toFinset.mp hmem)
    exact h.unclaimed id hid t ht htid
  rw [hset, Finset.card_insert_of_notMem hnot, List.toFinset_card_of_nodup h.distinct,
    List.length_map]

theorem spawn_tidy (h : s.Tidy) {n : ℕ} {trigger : Trigger}
    (hpoint : s.point = .accepted n trigger) (hn : n < s.next)
    (hnew : ∀ t ∈ s.runs, t.number ≠ n) : (s.spawn n trigger).Tidy := by
  have hclaimed : s.point.claimed = some trigger.runId := by rw [hpoint]; rfl
  have hroom : s.runs.length + 1 ≤ s.slots.capacity := by
    rw [← h.card_claimed hclaimed]
    exact s.slots.bounded
  obtain ⟨h1, h2, h3, h4, h5, h6, h7, h8⟩ := h
  constructor
  · grind [spawn]
  · simp only [spawn, List.map_append, List.map_cons, List.map_nil]
    grind [List.nodup_append]
  · simp only [spawn, List.map_append, List.map_cons, List.map_nil]
    grind [List.nodup_append]
  · simp only [spawn, List.mem_append, List.mem_singleton]
    grind [Point.claimed]
  · simp [spawn, Point.claimed]
  · simp only [spawn, List.mem_append, List.mem_singleton, Function.update_apply]
    grind
  · simpa [spawn] using hroom
  · grind [spawn]

theorem onCancel_tidy (h : s.Tidy) (event : CancelEvent) : (s.onCancel event).Tidy := by
  obtain ⟨h1, h2, h3, h4, h5, h6, h7, h8⟩ := h
  cases event <;> exact ⟨h1, h2, h3, h4, h5, h6, h7, h8⟩

/-- A task leaves the loop; what is left keeps its numbers and run ids. -/
theorem removeTask_sublist (number : ℕ) : (s.removeTask number).Sublist s.runs :=
  List.filter_sublist

theorem joinNext_tidy (h : s.Tidy) {task : Task} (ht : task ∈ s.runs)
    (hpoint : s.point = .head) (hs : s.joinNext task = some s') : s'.Tidy := by
  have hsub := s.removeTask_sublist task.number
  have hsame := fun t (hmem : t ∈ s.runs) => h.same hmem ht
  obtain ⟨h1, h2, h3, h4, h5, h6, h7, h8⟩ := h
  unfold joinNext at hs
  split at hs
  · cases hs
  · cases hs
    refine ⟨?_, ?_, ?_, ?_, ?_, ?_, ?_, ?_⟩
    · exact fun t hmem => h1 t (hsub.subset hmem)
    · exact (hsub.map _).nodup h2
    · exact (hsub.map _).nodup h3
    · simp only [SlotPool.release_inFlight, Finset.mem_erase, mem_removeTask]
      grind [Point.claimed]
    · simp [hpoint, Point.claimed]
    · simp only [mem_removeTask]
      grind [Function.update_apply]
    · exact hsub.length_le.trans h7
    · exact fun t hmem => h8 t (hsub.subset hmem)
  · rename_i hstate
    exact absurd hstate (h8 task ht)

theorem taskEnded_tidy (h : s.Tidy) (task : Task) (outcome : RunOutcome) :
    (s.taskEnded task (.returned outcome)).Tidy := by
  obtain ⟨h1, h2, h3, h4, h5, h6, h7, h8⟩ := h
  refine ⟨?_, ?_, ?_, ?_, ?_, ?_, ?_, ?_⟩
  · simp only [taskEnded, mem_setState]
    grind
  · simpa [taskEnded] using h2
  · simpa [taskEnded] using h3
  · simp only [taskEnded, mem_setState]
    grind
  · simp only [taskEnded, mem_setState]
    grind
  · simp only [taskEnded, mem_setState]
    grind
  · simpa [taskEnded, setState] using h7
  · simp only [taskEnded, mem_setState]
    grind

theorem dropped_tidy (h : s.Tidy) (hpoint : s.point = .over) (n : ℕ) :
    ({ s with runs := s.removeTask n, log := s.log ++ [.dropped n] } : Sys).Tidy := by
  have hsub := s.removeTask_sublist n
  obtain ⟨h1, h2, h3, h4, h5, h6, h7, h8⟩ := h
  refine ⟨?_, ?_, ?_, ?_, ?_, ?_, ?_, ?_⟩
  · exact fun t hmem => h1 t (hsub.subset hmem)
  · exact (hsub.map _).nodup h2
  · exact (hsub.map _).nodup h3
  · exact fun hover => absurd hpoint hover
  · exact fun id hid t hmem => h5 id hid t (hsub.subset hmem)
  · exact fun hover => absurd hpoint hover
  · exact hsub.length_le.trans h7
  · exact fun t hmem => h8 t (hsub.subset hmem)

/-! ## Each transition keeps what the log tells -/

/-- A log with no entry of a delivery tells nothing of it. -/
theorem Told.untold (h : s.Told) : kinds s.next s.log = [] ∧ facts s.next s.log = [] ∧
    (∀ id, .spawned s.next id ∉ s.log) ∧ .dropped s.next ∉ s.log ∧
    .taken s.next ∉ s.log := by
  have hfresh : ∀ obs ∈ s.log, obs.number ≠ s.next := fun obs hobs =>
    Nat.ne_of_lt (h.fresh obs hobs)
  refine ⟨?_, ?_, ?_, ?_, ?_⟩
  · apply List.filterMap_eq_nil_iff.mpr
    intro obs hobs
    have hne := hfresh obs hobs
    cases obs <;> simp_all [Obs.kindOf, Obs.number]
  · apply List.filterMap_eq_nil_iff.mpr
    intro obs hobs
    have hne := hfresh obs hobs
    cases obs <;> simp_all [Obs.factOf, Obs.number]
  · exact fun id hmem => hfresh _ hmem rfl
  · exact fun hmem => hfresh _ hmem rfl
  · exact fun hmem => hfresh _ hmem rfl

/-- Only the point, the slots and the cancels of the loop change. -/
theorem Told.move (h : s.Told) {slots : SlotPool} {cancels : CancelSet}
    {fired : Finset ℕ} {draining : Bool} {point : Point}
    (hdelivery : point.delivery = s.point.delivery)
    (haccepted : ∀ n trigger, point ≠ .accepted n trigger) :
    ({ s with slots := slots, cancels := cancels, fired := fired, draining := draining
              point := point } : Sys).Told := by
  obtain ⟨h1, h2, h3, h4, h5, h6, h7, h8, h9, h10, h11, h12⟩ := h
  refine ⟨h1, ?_, ?_, ?_, ?_, ?_, h7, h8, h9, h10, h11, h12⟩
  · simpa [hdelivery] using h2
  · simpa [hdelivery] using h3
  · simpa [hdelivery] using h4
  · exact fun n trigger hp => absurd hp (haccepted n trigger)
  · simpa [hdelivery] using h6

/-- A delivery is taken, and the loop turns to it. -/
theorem Told.take (h : s.Told) {slots : SlotPool} {point : Point}
    (hpoint : s.point.delivery = none) (hdelivery : point.delivery = some s.next)
    (haccepted : ∀ n trigger, point ≠ .accepted n trigger) :
    ({ s with slots := slots, point := point, next := s.next + 1
              log := s.log ++ [.taken s.next] } : Sys).Told := by
  obtain ⟨hkinds, hfacts, hspawned, hdropped, htaken⟩ := h.untold
  obtain ⟨h1, h2, h3, h4, h5, h6, h7, h8, h9, h10, h11, h12⟩ := h
  refine ⟨?_, ?_, ?_, ?_, ?_, ?_, ?_, ?_, ?_, ?_, ?_, ?_⟩
  · grind [Obs.number]
  · simp only [hdelivery, kinds_append]
    grind [Obs.kindOf, kinds_cons, kinds_nil]
  · simp only [hdelivery, kinds_append]
    grind [Obs.kindOf, kinds_cons, kinds_nil]
  · simp only [hdelivery, kinds_append]
    grind [Obs.kindOf, kinds_cons, kinds_nil]
  · exact fun n trigger hp => absurd hp (haccepted n trigger)
  · simp only [hdelivery]
    grind
  · exact always_snoc.mpr ⟨h7, by simp [SpawnedBehind]⟩
  · grind
  · simpa [Obs.factOf] using h9
  · simpa [Obs.factOf] using h10
  · simpa [Obs.factOf] using h11
  · simp

theorem acceptTrigger_told (h : s.Told) (hpoint : s.point.delivery = none)
    (trigger : Option Trigger) : (s.acceptTrigger trigger).Told := by
  unfold acceptTrigger
  cases trigger with
  | none => exact h.take hpoint rfl (by simp)
  | some trigger =>
      dsimp only
      split
      · exact h.take hpoint rfl (by simp)
      · rcases s.slots.tryClaim trigger.runId with ⟨decision, slots⟩
        cases decision with
        | claimed => exact h.take hpoint rfl (by simp)
        | atCapacity => exact h.take hpoint rfl (by simp)
        | draining => exact h.take hpoint rfl (by simp)
        | alreadyInFlight => exact h.take hpoint rfl (by simp)

theorem publishedStarted_told (h : s.Told) {n : ℕ} {trigger : Trigger}
    (hpoint : s.point = .publishing n trigger) (accepted : Bool) :
    (s.publishedStarted n trigger accepted).Told := by
  cases accepted with
  | false => exact h.move (by rw [hpoint]; rfl) (by simp)
  | true =>
      have hdelivery : (Point.accepted n trigger).delivery = s.point.delivery := by
        rw [hpoint]
        rfl
      have hlt := (h.held n (by rw [hpoint]; rfl)).1
      obtain ⟨h1, h2, h3, h4, h5, h6, h7, h8, h9, h10, h11, h12⟩ := h
      unfold publishedStarted
      refine ⟨?_, ?_, ?_, ?_, ?_, ?_, ?_, ?_, ?_, ?_, ?_, ?_⟩
      · grind [Obs.number]
      · simpa [Obs.kindOf, hdelivery] using h2
      · simpa [Obs.kindOf, hdelivery] using h3
      · simpa [Obs.kindOf, hdelivery] using h4
      · simp +contextual
      · simpa [hdelivery] using h6
      · exact always_snoc.mpr ⟨h7, by simp [SpawnedBehind]⟩
      · simpa using h8
      · simpa [Obs.factOf] using h9
      · simpa [Obs.factOf] using h10
      · simpa [Obs.factOf] using h11
      · simp

theorem settled_told (h : s.Told) {n : ℕ} {kind : AckKind}
    (hpoint : s.point = .settling n kind) :
    ({ s with point := .head, log := s.log ++ [.settled n kind] } : Sys).Told := by
  have hdelivery : s.point.delivery = some n := by rw [hpoint]; rfl
  obtain ⟨h1, h2, h3, h4, h5, h6, h7, h8, h9, h10, h11, h12⟩ := h
  refine ⟨?_, ?_, ?_, ?_, ?_, ?_, ?_, ?_, ?_, ?_, ?_, ?_⟩
  · grind [Obs.number]
  · simp [Point.delivery]
  · simp only [Point.delivery, kinds_append]
    grind [Obs.kindOf, kinds_cons, kinds_nil]
  · simp only [Point.delivery, kinds_append]
    grind [Obs.kindOf, kinds_cons, kinds_nil]
  · simp
  · simp [Point.delivery]
  · exact always_snoc.mpr ⟨h7, by simp [SpawnedBehind]⟩
  · simpa using h8
  · simpa [Obs.factOf] using h9
  · simpa [Obs.factOf] using h10
  · simpa [Obs.factOf] using h11
  · simp

theorem spawn_told (h : s.Told) {n : ℕ} {trigger : Trigger}
    (hpoint : s.point = .accepted n trigger) : (s.spawn n trigger).Told := by
  have hdelivery : s.point.delivery = some n := by rw [hpoint]; rfl
  have hstarted := h.started n trigger hpoint
  have hlog : (s.spawn n trigger).log =
      s.log ++ [.settled n .ack] ++ [.spawned n trigger.runId] := by
    simp [spawn]
  obtain ⟨h1, h2, h3, h4, h5, h6, h7, h8, h9, h10, h11, h12⟩ := h
  have hfacts : ∀ m, facts m (s.log ++ [.settled n .ack] ++ [.spawned n trigger.runId]) =
      facts m s.log := by
    simp [Obs.factOf]
  obtain ⟨hlt, hkinds⟩ := h2 n hdelivery
  obtain ⟨hspawned, hdropped⟩ := h6 n hdelivery
  constructor <;> rw [hlog]
  · grind [Obs.number, spawn]
  · simp [spawn, Point.delivery]
  · simp only [spawn, Point.delivery, kinds_append]
    grind [Obs.kindOf, kinds_cons, kinds_nil]
  · simp only [spawn, Point.delivery, kinds_append]
    grind [Obs.kindOf, kinds_cons, kinds_nil]
  · simp [spawn]
  · simp [spawn, Point.delivery]
  · exact always_snoc.mpr ⟨always_snoc.mpr ⟨h7, by simp [SpawnedBehind]⟩, by
      simpa [SpawnedBehind] using hstarted⟩
  · simp only [spawn, List.mem_append, List.mem_singleton]
    grind
  · simp only [hfacts, spawn, List.mem_append, List.mem_singleton]
    rintro t (ht | rfl)
    · exact h9 t ht
    · exact ⟨fun _ => h11 n (Or.inl hspawned), by simp⟩
  · intro m id hmem hgone hdrop
    have hnew : n ≠ m := hgone ⟨n, trigger.runId, trigger.config, .running⟩ (by simp [spawn])
    rw [hfacts]
    apply h10 m id
    · simp only [List.mem_append, List.mem_singleton] at hmem
      grind
    · exact fun t ht => hgone t (by simp [spawn, ht])
    · simpa using hdrop
  · simp only [hfacts]
    grind
  · simp

theorem joinNext_told (h : s.Told) (htidy : s.Tidy) {task : Task} (ht : task ∈ s.runs)
    (hs : s.joinNext task = some s') : s'.Told := by
  have hsame := fun t (hmem : t ∈ s.runs) => htidy.same hmem ht
  have hcalm := htidy.calm task ht
  have hnumber := htidy.numbered task ht
  obtain ⟨h1, h2, h3, h4, h5, h6, h7, h8, h9, h10, h11, h12⟩ := h
  unfold joinNext at hs
  split at hs
  · cases hs
  · cases hs
    refine ⟨?_, ?_, ?_, ?_, ?_, ?_, ?_, ?_, ?_, ?_, ?_, ?_⟩
    · grind [Obs.number]
    · simpa [Obs.kindOf] using h2
    · simpa [Obs.kindOf] using h3
    · simpa [Obs.kindOf] using h4
    · simpa using h5
    · simpa using h6
    · exact always_snoc.mpr ⟨h7, by simp [SpawnedBehind]⟩
    · simp only [mem_removeTask]
      grind
    · simp only [mem_removeTask, facts_append]
      grind [Obs.factOf, facts_cons, facts_nil]
    · simp only [mem_removeTask, facts_append]
      grind [Obs.factOf, facts_cons, facts_nil]
    · simpa [Obs.factOf] using h11
    · simp only [mem_removeTask]
      grind
  · rename_i hstate
    exact absurd hstate hcalm

theorem taskEnded_told (h : s.Told) (htidy : s.Tidy) {task : Task} (ht : task ∈ s.runs)
    (hrunning : task.state = .running) (outcome : RunOutcome) :
    (s.taskEnded task (.returned outcome)).Told := by
  have hsame := fun t (hmem : t ∈ s.runs) => htidy.same hmem ht
  have hnumber := htidy.numbered task ht
  obtain ⟨h1, h2, h3, h4, h5, h6, h7, h8, h9, h10, h11, h12⟩ := h
  unfold taskEnded
  refine ⟨?_, ?_, ?_, ?_, ?_, ?_, ?_, ?_, ?_, ?_, ?_, ?_⟩
  · grind [Obs.number]
  · simpa [Obs.kindOf] using h2
  · simpa [Obs.kindOf] using h3
  · simpa [Obs.kindOf] using h4
  · simpa using h5
  · simpa using h6
  · exact always_snoc.mpr ⟨h7, by simp [SpawnedBehind]⟩
  · simp only [mem_setState]
    grind
  · simp only [mem_setState, facts_append]
    grind [Obs.factOf, facts_cons, facts_nil]
  · simp only [mem_setState, facts_append]
    grind [Obs.factOf, facts_cons, facts_nil]
  · simp only [facts_append]
    grind [Obs.factOf, facts_cons, facts_nil]
  · simp

theorem dropped_told (h : s.Told) (htidy : s.Tidy) (hpoint : s.point = .over)
    {task : Task} (ht : task ∈ s.runs) (hrunning : task.state = .running) :
    ({ s with runs := s.removeTask task.number
              log := s.log ++ [.dropped task.number] } : Sys).Told := by
  have hsame := fun t (hmem : t ∈ s.runs) => htidy.same hmem ht
  have hnumber := htidy.numbered task ht
  obtain ⟨h1, h2, h3, h4, h5, h6, h7, h8, h9, h10, h11, h12⟩ := h
  refine ⟨?_, ?_, ?_, ?_, ?_, ?_, ?_, ?_, ?_, ?_, ?_, ?_⟩
  · grind [Obs.number]
  · simpa [Obs.kindOf] using h2
  · simpa [Obs.kindOf] using h3
  · simpa [Obs.kindOf] using h4
  · simpa using h5
  · simp [hpoint, Point.delivery]
  · exact always_snoc.mpr ⟨h7, by simp [SpawnedBehind]⟩
  · simp only [mem_removeTask]
    grind
  · simp only [mem_removeTask, facts_append]
    grind [Obs.factOf, facts_cons, facts_nil]
  · simp only [mem_removeTask, facts_append]
    grind [Obs.factOf, facts_cons, facts_nil]
  · simp only [facts_append]
    grind [Obs.factOf, facts_cons, facts_nil]
  · simp

/-! ## The whole run -/

theorem selecting_head (h : s.selecting = true) : s.point = .head := by
  unfold selecting at h
  split at h
  · assumption
  · cases h

/-- The loop is left at its head; what the collections hold does not matter then. -/
theorem Tidy.leave (h : s.Tidy) : ({ s with point := .over } : Sys).Tidy := by
  obtain ⟨h1, h2, h3, h4, h5, h6, h7, h8⟩ := h
  constructor <;> simp_all [Point.claimed]

theorem Tidy.beginDrain (h : s.Tidy) :
    ({ s with draining := true, slots := s.slots.beginDrain } : Sys).Tidy := by
  obtain ⟨h1, h2, h3, h4, h5, h6, h7, h8⟩ := h
  exact ⟨h1, h2, h3, h4, h5, h6, h7, h8⟩

theorem settled_tidy (h : s.Tidy) {n : ℕ} {kind : AckKind}
    (hpoint : s.point = .settling n kind) :
    ({ s with point := .head, log := s.log ++ [.settled n kind] } : Sys).Tidy := by
  obtain ⟨h1, h2, h3, h4, h5, h6, h7, h8⟩ := h
  constructor <;> simp_all [Point.claimed]

theorem onCancel_told (h : s.Told) (hpoint : s.point = .head) (event : CancelEvent) :
    (s.onCancel event).Told := by
  cases event <;> exact h.move rfl (by simp [hpoint])

/-- Both invariants hold as long as no run task ends by a panic. -/
theorem kept_step (h : s.Tidy ∧ s.Told) {e : Event}
    (hc : s.panics decode e = false) (hs : s.step decode e = some s') :
    s'.Tidy ∧ s'.Told := by
  obtain ⟨htidy, htold⟩ := h
  cases e with
  | shutdown =>
      simp only [step, Option.ite_none_right_eq_some, Option.some.injEq,
        Bool.and_eq_true] at hs
      obtain ⟨⟨hsel, -⟩, rfl⟩ := hs
      exact ⟨htidy.beginDrain, htold.move rfl (by simp [selecting_head hsel])⟩
  | deadline =>
      simp only [step, Option.ite_none_right_eq_some, Option.some.injEq,
        Bool.and_eq_true] at hs
      obtain ⟨⟨hsel, -⟩, rfl⟩ := hs
      exact ⟨htidy.leave, htold.move (by rw [selecting_head hsel]; rfl) (by simp)⟩
  | message trigger =>
      simp only [step, Option.ite_none_right_eq_some, Option.some.injEq,
        Bool.and_eq_true] at hs
      obtain ⟨⟨⟨hsel, -⟩, -⟩, rfl⟩ := hs
      have hpoint := selecting_head hsel
      exact ⟨acceptTrigger_tidy htidy hpoint trigger,
        acceptTrigger_told htold (by rw [hpoint]; rfl) trigger⟩
  | published accepted =>
      simp only [step] at hs
      split at hs
      · rename_i n trigger hpoint
        cases hs
        exact ⟨publishedStarted_tidy htidy hpoint accepted,
          publishedStarted_told htold hpoint accepted⟩
      · cases hs
  | settled =>
      simp only [step] at hs
      split at hs
      · rename_i n kind hpoint
        cases hs
        exact ⟨settled_tidy htidy hpoint, settled_told htold hpoint⟩
      · rename_i n trigger hpoint
        cases hs
        -- a delivery that is not settled has no task yet
        have hdelivery : s.point.delivery = some n := by rw [hpoint]; rfl
        have hnew : ∀ t ∈ s.runs, t.number ≠ n := by
          rintro t ht rfl
          exact (htold.unspawned t.number hdelivery).1 t.runId (htold.running t ht).1
        exact ⟨spawn_tidy htidy hpoint (htold.held n hdelivery).1 hnew,
          spawn_told htold hpoint⟩
      · cases hs
  | cancel event =>
      simp only [step, Option.ite_none_right_eq_some, Option.some.injEq] at hs
      obtain ⟨hsel, rfl⟩ := hs
      exact ⟨onCancel_tidy htidy event, onCancel_told htold (selecting_head hsel) event⟩
  | join number =>
      simp only [step, Option.ite_none_right_eq_some] at hs
      obtain ⟨hsel, hs⟩ := hs
      obtain ⟨task, htask, hjoin⟩ := Option.bind_eq_some_iff.mp hs
      have hmem := (taskOf_some htask).1
      exact ⟨joinNext_tidy htidy hmem (selecting_head hsel) hjoin,
        joinNext_told htold htidy hmem hjoin⟩
  | leave =>
      simp only [step] at hs
      split at hs
      · rename_i hpoint
        split at hs
        · cases hs
          exact ⟨htidy.leave, htold.move (by rw [hpoint]; rfl) (by simp)⟩
        · cases hs
      · cases hs
  | ended number workload =>
      obtain ⟨task, htask, hend⟩ := Option.bind_eq_some_iff.mp hs
      simp only [Option.ite_none_right_eq_some, Option.some.injEq] at hend
      obtain ⟨hrunning, rfl⟩ := hend
      simp only [panics, htask] at hc
      split at hc
      · cases hc
      · rename_i outcome hout
        rw [hout]
        exact ⟨taskEnded_tidy htidy task outcome,
          taskEnded_told htold htidy (taskOf_some htask).1 hrunning outcome⟩
  | dropped number =>
      simp only [step] at hs
      split at hs
      · rename_i hpoint
        obtain ⟨task, htask, hend⟩ := Option.bind_eq_some_iff.mp hs
        simp only [Option.ite_none_right_eq_some, Option.some.injEq] at hend
        obtain ⟨hrunning, rfl⟩ := hend
        obtain ⟨hmem, rfl⟩ := taskOf_some htask
        exact ⟨dropped_tidy htidy hpoint task.number,
          dropped_told htold htidy hpoint hmem hrunning⟩
      · cases hs

/-- What the two invariants say of the collections of the loop. -/
theorem loopKept (htidy : s.Tidy) (htold : s.Told) : LoopKept s where
  slots hpoint id := by
    simpa [hpoint, Point.claimed] using htidy.slots (by simp [hpoint]) id
  tokens hpoint := htidy.tokens (by simp [hpoint])
  distinct := htidy.distinct
  capacity := ⟨s.slots.bounded, htidy.room⟩
  freed hpoint n id hlast := by
    have hnone : ¬ ∃ t ∈ s.runs, t.runId = id := by
      rintro ⟨t, ht, hid⟩
      exact htold.freed n id hlast t ht hid
    constructor
    · intro hin
      have := (htidy.slots (by simp [hpoint]) id).mp hin
      simp [hpoint, Point.claimed] at this
      exact hnone this
    · have := (htidy.tokens (by simp [hpoint]) id).not.mpr hnone
      simpa using this
  settled_once n := by
    by_cases hk : kinds n s.log = []
    · simp [hk]
    · have hne : s.point.delivery ≠ some n := fun hd => hk (htold.held n hd).2
      exact (htold.settled n (htold.taken n (Or.inl hk)) hne).le
  settled_taken n hk := htold.taken n (Or.inl hk)
  taken_settled hpoint n htaken := by
    apply htold.settled n htaken
    rcases hpoint with hp | hp <;> simp [hp, Point.delivery]
  spawned_behind := htold.behind
  one_fact n id hspawned hdropped := by
    by_cases hgone : ∀ t ∈ s.runs, t.number ≠ n
    · exact Or.inl (htold.goneFacts n id hspawned hgone hdropped)
    · push Not at hgone
      obtain ⟨t, ht, rfl⟩ := hgone
      have hcalm := htidy.calm t ht
      cases hstate : t.state with
      | running => exact Or.inr ⟨(htold.runFacts t ht).1 hstate, t, ht, rfl, hstate⟩
      | returned => exact Or.inl ((htold.runFacts t ht).2 hstate)
      | panicked => exact absurd hstate hcalm
  most_one_fact n := by
    by_cases hnone : (∀ id, .spawned n id ∉ s.log) ∨ .dropped n ∈ s.log
    · simp [htold.noFacts n hnone]
    · push Not at hnone
      obtain ⟨⟨id, hspawned⟩, hdropped⟩ := hnone
      by_cases hgone : ∀ t ∈ s.runs, t.number ≠ n
      · exact (htold.goneFacts n id hspawned hgone hdropped).le
      · push Not at hgone
        obtain ⟨t, ht, rfl⟩ := hgone
        have hcalm := htidy.calm t ht
        cases hstate : t.state with
        | running => simp [(htold.runFacts t ht).1 hstate]
        | returned => exact ((htold.runFacts t ht).2 hstate).le
        | panicked => exact absurd hstate hcalm

/-- In every run in which no run task ends by a panic, whatever the workloads,
the payloads and the deliveries are. -/
theorem loop_kept (decode : Value → Decoded) {capacity : ℕ} (hcap : 0 < capacity)
    {s : Sys} (hs : (machine decode (.new capacity hcap)).Reach
      (fun s e => s.panics decode e = false) s) : LoopKept s := by
  have hboth : s.Tidy ∧ s.Told :=
    hs.invariant (P := fun s => s.Tidy ∧ s.Told) ⟨tidy_init hcap, told_init⟩
      fun _ hp hc hstep => kept_step hp hc hstep
  exact loopKept hboth.1 hboth.2

/-- One slot; a run with an undecodable config is taken, started, acked and
spawned, hands its failure over and is joined. -/
theorem loop_kept_oneRun : ∃ s : Sys,
    (machine (fun _ => .error "no") (.new 1 Nat.one_pos)).Reach
      (fun s e => s.panics (fun _ => .error "no") e = false) s ∧
    s.log.getLast? = some (.joined 0 7) ∧ LoopKept s := by
  let decode : Value → Decoded := fun _ => .error "no"
  let es : List Event := [.message (some ⟨7, 8, 1, none⟩), .published true, .settled,
    .ended 0 .panicked, .join 0]
  have hrun : ∃ s, (machine decode (.new 1 Nat.one_pos)).runChecked
      (fun s e => !s.panics decode e) (init (.new 1 Nat.one_pos)) es = some s ∧
      s.log.getLast? = some (.joined 0 7) := ⟨_, rfl, rfl⟩
  obtain ⟨s, hs, hlast⟩ := hrun
  have hreach : (machine decode (.new 1 Nat.one_pos)).Reach
      (fun s e => s.panics decode e = false) s :=
    (Machine.reach_of_checked es hs).mono (by simp)
  exact ⟨s, hreach, hlast, loop_kept decode Nat.one_pos hreach⟩

/-- The workload of the only run panics, and the run is joined: the slot is not
free, the token is kept, and no fact was handed over. -/
theorem loop_not_kept : ¬ ∀ s : Sys,
    (machine (fun _ => .payload) (.new 1 Nat.one_pos)).Reachable s → LoopKept s := by
  intro h
  let es : List Event := [.message (some ⟨7, 8, 1, none⟩), .published true, .settled,
    .ended 0 .panicked, .join 0]
  have hrun : ∃ s, (machine (fun _ => .payload) (.new 1 Nat.one_pos)).run es = some s ∧
      s.point = .head ∧ s.runs = [] ∧ 7 ∈ s.slots.inFlight :=
    ⟨_, rfl, rfl, rfl, by decide⟩
  obtain ⟨s, hs, hpoint, hruns, hin⟩ := hrun
  have hkept := h s (Machine.reachable_of_run es hs)
  obtain ⟨t, ht, -⟩ := (hkept.slots hpoint 7).mp hin
  simp [hruns] at ht

end Sys

end RunnerKit.Kit
