import RunnerKit.Lib.Log
import RunnerKit.Threads.Delivery

/-!
# The steps of the thread queues

`Moves` tells the steps by what they change. A place of a call or of a task is looked at
through what it means to the others: a call keeps its thread busy until it has left, holds
a number, is about to start a worker or has a change to tell; a task is alive, works on the
head of the queue or has a change to tell.
-/

namespace RunnerKit.Threads.Delivery

open Lib
open Jobs (Uuid)

variable {β : Type}

/-! ## Places -/

namespace CallPlace

def busy : CallPlace → Bool
  | .left => false
  | _ => true

/-- The call is about to start the worker of its thread. -/
def spawns : CallPlace → Bool
  | .queued spawn | .told spawn => spawn
  | _ => false

def number? : CallPlace → Option ℕ
  | .numbered no => some no
  | _ => none

/-- The item of a kept call is not queued yet. -/
def unqueued : CallPlace → Bool
  | .appended | .numbered _ => true
  | _ => false

/-- The queue has changed, and that is not told yet. -/
def untold : CallPlace → Bool
  | .queued _ => true
  | _ => false

/-- It neither starts a worker, nor holds a number, nor is at its item. -/
def plain : CallPlace → Bool
  | .entered | .told false | .spawned _ | .registered _ | .ended _ => true
  | _ => false

end CallPlace

namespace TaskPlace

def alive : TaskPlace β → Bool
  | .left | .cut => false
  | _ => true

/-- The item that the worker has taken and not ended yet. -/
def head? : TaskPlace β → Option (Queued β)
  | .took head | .attempting head | .answered head _ | .ending head _ | .popping head _ =>
      some head
  | _ => none

def untold : TaskPlace β → Bool
  | .popped _ => true
  | _ => false

end TaskPlace

/-- What the log says of the item that a worker has in hand. -/
def TaskPlace.Told (t : ThreadRef) (log : List (Obs β)) : TaskPlace β → Prop
  | .attempting head | .answered head _ | .ending head .delivered | .ending head .refused
  | .popping head .delivered | .popping head .refused =>
      .sent t head.item head.no ∈ log
  | .ending head .unsent | .popping head .unsent =>
      .report .itemDroppedUnsent t head.item none ∈ log
  | _ => True

/-- What the waits log. -/
def Obs.ofWait : Obs β → Bool
  | .called .. | .target .. | .returned .. | .outcome .. => true
  | _ => false

/-- A report that says nothing of a refusal or a drop. -/
def Obs.quiet : Obs β → Bool
  | .report kind _ _ _ =>
      kind = .attemptFailed || kind = .closingFailed || kind = .removeFailed || kind = .unsent
  | _ => false

/-- The entry puts nothing into a queue and ends nothing. -/
def Obs.aside : Obs β → Bool
  | .queued .. | .ended .. => false
  | _ => true

theorem Obs.aside_of_quiet {obs : Obs β} (h : obs.quiet = true) : obs.aside = true := by
  cases obs <;> first | rfl | cases h

theorem Obs.aside_of_wait {obs : Obs β} (h : obs.ofWait = true) : obs.aside = true := by
  cases obs <;> first | rfl | cases h

namespace Sys

/-! ## What a wait does -/

/-- The condition of a wait, as it looks at its queue. -/
def met (s : Sys β) (t : ThreadRef) : Goal → Bool
  | .past target => (s.queue t).items.head?.all fun head => decide (target < head.no)
  | .entry id =>
      (s.queue t).dropped id ||
        !((s.queue t).items.any fun queued => queued.item.entries.contains id)

/-- What `entry_stored` gives when it returns. -/
def outcomeOf (s : Sys β) (t : ThreadRef) (id : Uuid) : EntryOutcome :=
  if (s.queue t).dropped id then .dropped else .stored

/-- The place a wait comes to, and what it logs. -/
inductive WaitMoves (s : Sys β) (w : ℕ) (t : ThreadRef) : WaitPlace → List (Obs β) → Prop where
  | called {entry : Option Uuid} : s.waits w = none → WaitMoves s w t (.entered entry) [.called w t]
  | unslotted :
      s.waits w = some ⟨t, .entered none⟩ → s.slots t = false →
        WaitMoves s w t .ended [.returned w t]
  | unslottedEntry {entry : Uuid} :
      s.waits w = some ⟨t, .entered (some entry)⟩ → s.slots t = false →
        WaitMoves s w t .ended [.outcome w t entry .stored]
  | slotted : s.waits w = some ⟨t, .entered none⟩ → WaitMoves s w t .targeting []
  | target :
      s.waits w = some ⟨t, .targeting⟩ →
        WaitMoves s w t (.looping (.past (s.queue t).lastNo)) [.target w t (s.queue t).lastNo]
  | entry {entry : Uuid} :
      s.waits w = some ⟨t, .entered (some entry)⟩ → WaitMoves s w t (.looping (.entry entry)) []
  | subscribes {goal : Goal} :
      s.waits w = some ⟨t, .looping goal⟩ → WaitMoves s w t (.looking goal (s.changed t)) []
  | parks {goal : Goal} {seen : ℕ} :
      s.waits w = some ⟨t, .looking goal seen⟩ → s.met t goal = false →
        WaitMoves s w t (.waiting goal seen) []
  | returns {target seen : ℕ} :
      s.waits w = some ⟨t, .looking (.past target) seen⟩ → s.met t (.past target) = true →
        WaitMoves s w t .ended [.returned w t]
  | gives {entry : Uuid} {seen : ℕ} :
      s.waits w = some ⟨t, .looking (.entry entry) seen⟩ → s.met t (.entry entry) = true →
        WaitMoves s w t .ended [.outcome w t entry (s.outcomeOf t entry)]
  | wakes {goal : Goal} {seen : ℕ} :
      s.waits w = some ⟨t, .waiting goal seen⟩ → s.changed t ≠ seen →
        WaitMoves s w t (.looping goal) []
  | dropped {goal : Goal} {seen : ℕ} :
      s.waits w = some ⟨t, .waiting goal seen⟩ → WaitMoves s w t .dropped []

theorem WaitMoves.ofWait {s : Sys β} {w : ℕ} {t : ThreadRef} {place : WaitPlace}
    {more : List (Obs β)} (h : s.WaitMoves w t place more) : ∀ obs ∈ more, obs.ofWait = true := by
  intro obs hobs
  cases h <;> simp at hobs <;> subst hobs <;> rfl

/-! ## What a step does -/

inductive Moves (json : ItemJson β) (s : Sys β) : Sys β → Prop where
  | slot {t : ThreadRef} : Moves json s { s with slots := Function.update s.slots t true }
  | accept {c : ℕ} {t : ThreadRef} {item : Item β} :
      s.built = true → s.mem t = none → s.calls c = none → item.thread = t.val →
        s.slots t = true → Moves json s
          { s.setCall c ⟨t, item, false, .entered⟩ .entered with
            mem := Function.update s.mem t (some c) }
  | keep {c : ℕ} {t : ThreadRef} {item : Item β} {leftovers : List (ThreadRef × Item β)} :
      s.leftovers = (t, item) :: leftovers → s.rebuilding = none → s.calls c = none →
        Moves json s
          { s.setCall c ⟨t, item, true, .appended⟩ .appended with
            slots := Function.update s.slots t true
            leftovers := leftovers
            rebuilding := some c }
  | plain {c : ℕ} {call : Call β} {result : Except Error Unit} :
      s.calls c = some call → call.place.plain = true →
        Moves json s (s.setCall c call (.ended result))
  | appends {c : ℕ} {call : Call β} {stored : StoredItem} :
      s.calls c = some call → call.place = .entered →
        call.item.stored json call.thread = .ok stored →
          Moves json s (s.setCall c call (.appending stored))
  | unkept {c : ℕ} {call : Call β} {stored : StoredItem} {error : Error} :
      s.calls c = some call → call.place = .appending stored →
        Moves json s (s.setCall c call (.ended (.error error)))
  | appended {c : ℕ} {call : Call β} {stored : StoredItem} :
      s.calls c = some call → call.place = .appending stored →
        Moves json s
          { s.setCall c call .appended with
            store := s.store ++ [stored]
            history := s.history ++ [.appended call.thread call.item] }
  | numbered {c : ℕ} {call : Call β} :
      s.calls c = some call → call.place = .appended →
        Moves json s
          { s.setCall c call (.numbered (s.numbers + 1)) with numbers := s.numbers + 1 }
  | unsent {c : ℕ} {call : Call β} {no : ℕ} :
      s.calls c = some call → call.place = .numbered no → s.stopped = true →
        Moves json s ((s.setCall c call (.ended (.ok ()))).observe
          (.report .unsent call.thread call.item none))
  | pushed {c : ℕ} {call : Call β} {no : ℕ} :
      s.calls c = some call → call.place = .numbered no → s.stopped = false →
        Moves json s (((s.push call.thread call.item no).setCall c call
          (.queued !(s.queue call.thread).workerRunning)).observe
            (.queued call.thread call.item no call.kept))
  | told {c : ℕ} {call : Call β} {spawn : Bool} :
      s.calls c = some call → call.place = .queued spawn →
        Moves json s ((s.setCall c call (.told spawn)).bump call.thread)
  | spawned {c : ℕ} {call : Call β} :
      s.calls c = some call → call.place = .told true →
        Moves json s
          { (s.setCall c call (.spawned s.nextTask)).setTask s.nextTask call.thread .spawned with
            nextTask := s.nextTask + 1 }
  | registered {c : ℕ} {call : Call β} {task : ℕ} :
      s.calls c = some call → call.place = .spawned task →
        Moves json s { s.setCall c call (.registered task) with aborts := s.aborts ++ [task] }
  | aborts {c : ℕ} {call : Call β} {task : ℕ} :
      s.calls c = some call → call.place = .registered task → s.stopped = true →
        Moves json s
          { s.setCall c call (.ended (.ok ())) with
            aborted := Function.update s.aborted task true }
  | released {c : ℕ} {call : Call β} {result : Except Error Unit} :
      s.calls c = some call → call.place = .ended result → Moves json s (s.release c call)
  | task {k : ℕ} {t : ThreadRef} {place place' : TaskPlace β} {more : List (Obs β)} :
      s.tasks k = some ⟨t, place⟩ → place.alive = true → place.untold = false →
        place'.alive = true → place'.untold = false →
        (place'.head? = none ∨ place'.head? = place.head?) →
        (∀ log, place.Told t log → place'.Told t log) →
        (∀ obs ∈ more, obs.quiet = true) →
          Moves json s { s.setTask k t place' with log := s.log ++ more }
  | left {k : ℕ} {t : ThreadRef} :
      s.tasks k = some ⟨t, .looking⟩ → (s.queue t).items = [] →
        Moves json s
          ((s.setQueue t { s.queue t with workerRunning := false }).setTask k t .left)
  | took {k : ℕ} {t : ThreadRef} {head : Queued β} {rest : List (Queued β)} :
      s.tasks k = some ⟨t, .looking⟩ → (s.queue t).items = head :: rest →
        Moves json s (s.setTask k t (.took head))
  | droppedUnsent {k : ℕ} {t : ThreadRef} {head : Queued β} :
      s.tasks k = some ⟨t, .took head⟩ → head.item.kind ≠ .opening →
        s.refused head.item.message = true →
          Moves json s ((s.setTask k t (.ending head .unsent)).observe
            (.report .itemDroppedUnsent t head.item none))
  | sent {k : ℕ} {t : ThreadRef} {head : Queued β} :
      s.tasks k = some ⟨t, .took head⟩ →
        (head.item.kind = .opening ∨ s.refused head.item.message = false) →
          Moves json s ((s.setTask k t (.attempting head)).observe (.sent t head.item head.no))
  | retried {k : ℕ} {t : ThreadRef} {head : Queued β} {error : Error} :
      s.tasks k = some ⟨t, .answered head (.error error)⟩ →
        Moves json s
          (((s.setQueue t { s.queue t with lastFailure := some (head.item.id, error) }).setTask
            k t (.sleeping head)).observe (.report .attemptFailed t head.item (some error)))
  | refused {k : ℕ} {t : ThreadRef} {head : Queued β} {error : Error} :
      s.tasks k = some ⟨t, .answered head (.error error)⟩ →
        Moves json s
          ((({ s with
            refused :=
              if head.item.kind = .opening then Function.update s.refused head.item.message true
              else s.refused } : Sys β).setTask k t (.ending head .refused)).observe
                (refusal t head.item error))
  | broke {k : ℕ} {t : ThreadRef} {head : Queued β} {how : Ended} :
      s.tasks k = some ⟨t, .ending head how⟩ →
        Moves json s
          (({ s with
            broken :=
              if head.item.kind = .chunk ∧ how ≠ .delivered then
                Function.update s.broken head.item.message true
              else s.broken } : Sys β).setTask k t (.popping head how))
  | popped {k : ℕ} {t : ThreadRef} {head : Queued β} {how : Ended} :
      s.tasks k = some ⟨t, .popping head how⟩ →
        Moves json s (((s.pop t head how).setTask k t (.popped head)).observe
          (.ended t head.item head.no how))
  | toldEnd {k : ℕ} {t : ThreadRef} {head : Queued β} :
      s.tasks k = some ⟨t, .popped head⟩ →
        Moves json s ((s.setTask k t (.removing head)).bump t)
  | removed {k : ℕ} {t : ThreadRef} {head : Queued β} {place : TaskPlace β} :
      s.tasks k = some ⟨t, .removing head⟩ →
        (place = .looking ∨ place = .cut ∧ s.aborted k = true) →
        Moves json s ((s.removeStored t head.item.id).setTask k t place)
  | cut {k : ℕ} {t : ThreadRef} {place : TaskPlace β} :
      s.tasks k = some ⟨t, place⟩ → s.aborted k = true → place.alive = true →
        place.untold = false → Moves json s (s.setTask k t .cut)
  | waited {w : ℕ} {t : ThreadRef} {place : WaitPlace} {more : List (Obs β)} :
      s.WaitMoves w t place more →
        Moves json s { s.setWait w t place with log := s.log ++ more }
  | stop : s.built = true → Moves json s { s with stopped := true }
  | drainAborts :
      s.stopped = true →
        Moves json s
          { s with
            aborted := fun k => s.aborted k || s.aborts.contains k
            aborts := []
            drained := true }
  | reportUnsent {t : ThreadRef} :
      Moves json s
        { s with
          log := s.log ++ s.unsentOf t
          reported := Function.update s.reported t true }
  | restart {leftovers : List (ThreadRef × Item β)} :
      leftoversOf json s.store = .ok leftovers →
        Moves json s (fresh s.store s.history leftovers)

variable {json : ItemJson β} {s s' : Sys β}

theorem callStep_moves {c : ℕ} {call : Call β} (hc : s.calls c = some call)
    (hs : s.callStep json c call = some s') : Moves json s s' := by
  unfold callStep at hs
  split at hs
  case h_1 hplace =>
    split at hs
    · cases hs
      exact .plain hc (by rw [hplace]; rfl)
    · split at hs
      · cases hs
        exact .plain hc (by rw [hplace]; rfl)
      · rename_i stored hstored
        cases hs
        exact .appends hc hplace hstored
  case h_2 => cases hs
  case h_3 hplace =>
    cases hs
    exact .numbered hc hplace
  case h_4 hplace =>
    split at hs
    · rename_i hstopped
      cases hs
      exact .unsent hc hplace hstopped
    · rename_i hstopped
      cases hs
      exact .pushed hc hplace (by simpa using hstopped)
  case h_5 hplace =>
    cases hs
    exact .told hc hplace
  case h_6 hplace =>
    cases hs
    exact .plain hc (by rw [hplace]; rfl)
  case h_7 hplace =>
    cases hs
    exact .spawned hc hplace
  case h_8 hplace =>
    cases hs
    exact .registered hc hplace
  case h_9 hplace =>
    split at hs
    · rename_i hstopped
      cases hs
      exact .aborts hc hplace hstopped
    · cases hs
      exact .plain hc (by rw [hplace]; rfl)
  case h_10 hplace =>
    cases hs
    exact .released hc hplace
  case h_11 => cases hs

theorem appendDone_moves {c : ℕ} {call : Call β} {result : Except Error Unit}
    (hc : s.calls c = some call) (hs : s.appendDone c call result = some s') :
    Moves json s s' := by
  unfold appendDone at hs
  split at hs
  · rename_i hplace
    cases hs
    exact .appended hc hplace
  · rename_i hplace
    cases hs
    exact .unkept hc hplace
  · cases hs

/-- A task that goes on and tells nothing. -/
theorem task_moves {k : ℕ} {t : ThreadRef} {place place' : TaskPlace β}
    (hk : s.tasks k = some ⟨t, place⟩) (halive : place.alive = true)
    (huntold : place.untold = false) (halive' : place'.alive = true)
    (huntold' : place'.untold = false)
    (hhead : place'.head? = none ∨ place'.head? = place.head?)
    (htold : ∀ log, place.Told t log → place'.Told t log) :
    Moves json s (s.setTask k t place') := by
  have hmove : Moves json s { s.setTask k t place' with log := s.log ++ [] } :=
    .task hk halive huntold halive' huntold' hhead htold (by simp)
  simpa [setTask] using hmove

/-- A task that goes on with a report. -/
theorem report_moves {k : ℕ} {t : ThreadRef} {place place' : TaskPlace β} {obs : Obs β}
    (hk : s.tasks k = some ⟨t, place⟩) (halive : place.alive = true)
    (huntold : place.untold = false) (halive' : place'.alive = true)
    (huntold' : place'.untold = false)
    (hhead : place'.head? = none ∨ place'.head? = place.head?)
    (htold : ∀ log, place.Told t log → place'.Told t log) (hobs : obs.quiet = true) :
    Moves json s ((s.setTask k t place').observe obs) :=
  .task hk halive huntold halive' huntold' hhead htold (by simpa using hobs)

theorem taskStep_moves {k : ℕ} {task : Task β} (hk : s.tasks k = some task)
    (hs : s.taskStep k task = some s') : Moves json s s' := by
  obtain ⟨t, place⟩ := task
  unfold taskStep at hs
  dsimp only at hs
  split at hs
  case h_1 =>
    cases hs
    exact task_moves hk rfl rfl rfl rfl (Or.inl rfl) fun _ _ => trivial
  case h_2 =>
    split at hs
    · rename_i hitems
      cases hs
      exact .left hk hitems
    · rename_i hitems
      cases hs
      exact .took hk hitems
  case h_3 head =>
    split at hs
    · rename_i h
      cases hs
      exact .droppedUnsent hk h.1 h.2
    · rename_i h
      cases hs
      refine .sent hk ?_
      by_cases hkind : head.item.kind = .opening
      · exact Or.inl hkind
      · exact Or.inr (by simpa [hkind] using h)
  case h_4 => cases hs
  case h_5 =>
    split at hs
    · cases hs
      exact report_moves hk rfl rfl rfl rfl (Or.inr rfl) (fun _ h => h) rfl
    · cases hs
      exact task_moves hk rfl rfl rfl rfl (Or.inr rfl) fun _ h => h
  case h_6 =>
    split at hs
    · cases hs
      exact .retried hk
    · cases hs
      exact .refused hk
  case h_7 =>
    cases hs
    exact task_moves hk rfl rfl rfl rfl (Or.inl rfl) fun _ _ => trivial
  case h_8 =>
    cases hs
    exact .broke hk
  case h_9 =>
    cases hs
    exact .popped hk
  case h_10 =>
    cases hs
    exact .toldEnd hk
  case h_11 => cases hs
  case h_12 => cases hs
  case h_13 => cases hs

theorem removeDone_moves {k : ℕ} {task : Task β} {result : Except Error Unit}
    (hk : s.tasks k = some task) (hs : s.removeDone k task result = some s') :
    Moves json s s' := by
  obtain ⟨t, place⟩ := task
  unfold removeDone at hs
  split at hs
  · rename_i hplace
    cases hs
    cases hplace
    exact .removed hk (Or.inl rfl)
  · rename_i hplace
    cases hs
    cases hplace
    exact report_moves hk rfl rfl rfl rfl (Or.inl rfl) (fun _ _ => trivial) rfl
  · cases hs

theorem cut_moves {k : ℕ} {task : Task β} {removed : Bool} (hk : s.tasks k = some task)
    (haborted : s.aborted k = true) (hs : s.cut k task removed = some s') :
    Moves json s s' := by
  obtain ⟨t, place⟩ := task
  unfold Sys.cut at hs
  dsimp only at hs
  split at hs
  case h_1 =>
    cases hs
    exact .cut hk haborted rfl rfl
  case h_2 =>
    cases hs
    exact .cut hk haborted rfl rfl
  case h_3 =>
    cases hs
    exact .cut hk haborted rfl rfl
  case h_4 =>
    split at hs
    · cases hs
      exact .removed hk (Or.inr ⟨rfl, haborted⟩)
    · cases hs
      exact .cut hk haborted rfl rfl
  case h_5 => cases hs

/-- A wait goes on and logs nothing. -/
theorem wait_moves {w : ℕ} {t : ThreadRef} {place : WaitPlace}
    (h : s.WaitMoves w t place []) : Moves json s (s.setWait w t place) := by
  have hmove : Moves json s { s.setWait w t place with log := s.log ++ [] } := .waited h
  simpa [setWait] using hmove

theorem waitStep_moves {w : ℕ} {wait : Wait} (hw : s.waits w = some wait)
    (hs : s.waitStep w wait = some s') : Moves json s s' := by
  obtain ⟨t, place⟩ := wait
  unfold waitStep at hs
  dsimp only at hs
  split at hs
  case h_1 =>
    split at hs <;> cases hs
    · exact wait_moves (.slotted hw)
    · rename_i hslot
      exact .waited (.unslotted hw (by simpa using hslot))
  case h_2 =>
    split at hs <;> cases hs
    · exact wait_moves (.entry hw)
    · rename_i hslot
      exact .waited (.unslottedEntry hw (by simpa using hslot))
  case h_3 =>
    cases hs
    exact .waited (.target hw)
  case h_4 =>
    cases hs
    exact wait_moves (.subscribes hw)
  case h_5 target seen =>
    split at hs <;> cases hs
    · rename_i hmet
      exact .waited (.returns hw hmet)
    · rename_i hmet
      exact wait_moves (.parks hw (by simpa [met] using hmet))
  case h_6 entry seen =>
    split at hs
    · rename_i hdropped
      have houtcome : s.outcomeOf t entry = .dropped := if_pos hdropped
      cases hs
      rw [← houtcome]
      exact .waited (.gives hw (by simp [met, hdropped]))
    · rename_i hdropped
      split at hs <;> cases hs
      · rename_i hholds
        exact wait_moves (.parks hw (by simpa [met, hdropped] using hholds))
      · rename_i hholds
        have houtcome : s.outcomeOf t entry = .stored := if_neg hdropped
        rw [← houtcome]
        exact .waited (.gives hw (by simpa [met, hdropped] using hholds))
  case h_7 =>
    split at hs <;> cases hs
    rename_i hchanged
    exact wait_moves (.wakes hw hchanged)
  case h_8 => cases hs
  case h_9 => cases hs

theorem step_moves {e : Event β} (hs : s.step json e = some s') : Moves json s s' := by
  cases e with
  | slot t =>
      cases hs
      exact .slot
  | accept c t item =>
      simp only [step] at hs
      split at hs
      · rename_i h
        obtain ⟨hbuilt, hslot, hmem, hcall, hthread⟩ := h
        cases hs
        exact .accept hbuilt hmem (Option.isNone_iff_eq_none.mp hcall) hthread hslot
      · cases hs
  | keep c =>
      simp only [step] at hs
      split at hs
      · cases hs
      · rename_i hleftovers
        split at hs
        · rename_i h
          cases hs
          exact .keep hleftovers h.1 (Option.isNone_iff_eq_none.mp h.2)
        · cases hs
  | call c =>
      obtain ⟨call, hc, hs⟩ := Option.bind_eq_some_iff.mp hs
      exact callStep_moves hc hs
  | appended c result =>
      obtain ⟨call, hc, hs⟩ := Option.bind_eq_some_iff.mp hs
      exact appendDone_moves hc hs
  | task k =>
      obtain ⟨task, hk, hs⟩ := Option.bind_eq_some_iff.mp hs
      exact taskStep_moves hk hs
  | answer k answer =>
      obtain ⟨⟨t, place⟩, hk, hs⟩ := Option.bind_eq_some_iff.mp hs
      dsimp only at hs
      split at hs
      · cases hs
        exact task_moves hk rfl rfl rfl rfl (Or.inr rfl) fun _ h => h
      · cases hs
  | removed k result =>
      obtain ⟨task, hk, hs⟩ := Option.bind_eq_some_iff.mp hs
      exact removeDone_moves hk hs
  | cut k removed =>
      simp only [step] at hs
      split at hs
      · rename_i haborted
        obtain ⟨task, hk, hs⟩ := Option.bind_eq_some_iff.mp hs
        exact cut_moves hk haborted hs
      · cases hs
  | drained w t =>
      simp only [step] at hs
      split at hs <;> cases hs
      rename_i h
      exact .waited (.called (Option.isNone_iff_eq_none.mp h.2))
  | entryStored w t entry =>
      simp only [step] at hs
      split at hs <;> cases hs
      rename_i h
      exact .waited (.called (Option.isNone_iff_eq_none.mp h.2))
  | wait w =>
      obtain ⟨wait, hw, hs⟩ := Option.bind_eq_some_iff.mp hs
      exact waitStep_moves hw hs
  | dropWait w =>
      obtain ⟨⟨t, place⟩, hw, hs⟩ := Option.bind_eq_some_iff.mp hs
      dsimp only at hs
      split at hs <;> cases hs
      exact wait_moves (.dropped hw)
  | stop =>
      simp only [step] at hs
      split at hs
      · rename_i h
        cases hs
        exact .stop h.1
      · cases hs
  | drainAborts =>
      simp only [step] at hs
      split at hs
      · rename_i h
        cases hs
        exact .drainAborts h.1
      · cases hs
  | reportUnsent t =>
      simp only [step] at hs
      split at hs <;> cases hs
      exact .reportUnsent
  | restart =>
      simp only [step] at hs
      split at hs
      · rename_i hleftovers
        cases hs
        exact .restart hleftovers
      · cases hs

end Sys

end RunnerKit.Threads.Delivery
