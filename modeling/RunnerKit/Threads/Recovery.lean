import RunnerKit.Threads.DeliveryOrder

/-!
# An adapter on the items of another one

The store holds what was appended and not removed, in the order of the appends, and each
item reads back. So an adapter is built on it whenever the one before was stopped; what its
workers take from then on are these items, thread by thread in their order, and behind them
what it accepts itself.
-/

namespace RunnerKit.Threads.Delivery

open Lib
open Jobs (Uuid Value)

variable {β : Type}

/-! ## What the store holds -/

/-- The store after an append or a removal. -/
def keepStep (kept : List (ThreadRef × Item β)) : Kept β → List (ThreadRef × Item β)
  | .appended t item => kept ++ [(t, item)]
  | .removed t id => kept.filter fun pair => !(pair.2.id = id && pair.1 = t)

/-- What was appended and not removed. -/
def keptOf (history : List (Kept β)) : List (ThreadRef × Item β) := history.foldl keepStep []

@[simp] theorem keptOf_snoc (history : List (Kept β)) (kept : Kept β) :
    keptOf (history ++ [kept]) = keepStep (keptOf history) kept := by
  simp [keptOf]

/-- The text of the item, under its thread and its id. -/
def Reads (json : ItemJson β) (stored : StoredItem) (pair : ThreadRef × Item β) : Prop :=
  stored.thread = pair.1 ∧ stored.id = pair.2.id ∧ Item.read json stored = .ok pair.2

theorem reads_filter {json : ItemJson β} {store : List StoredItem}
    {kept : List (ThreadRef × Item β)} (h : List.Forall₂ (Reads json) store kept)
    (t : ThreadRef) (id : Uuid) :
    List.Forall₂ (Reads json)
      (store.filter fun stored => !(stored.id = id && stored.thread = t))
      (kept.filter fun pair => !(pair.2.id = id && pair.1 = t)) := by
  induction h with
  | nil => exact .nil
  | cons hreads _ ih =>
      obtain ⟨hthread, hid, hread⟩ := hreads
      simp only [List.filter_cons, hthread, hid]
      split
      · exact .cons ⟨hthread, hid, hread⟩ ih
      · exact ih

theorem leftoversOf_reads {json : ItemJson β} {store : List StoredItem}
    {kept : List (ThreadRef × Item β)} (h : List.Forall₂ (Reads json) store kept) :
    Sys.leftoversOf json store = .ok kept := by
  induction h with
  | nil => rfl
  | cons hreads _ ih =>
      obtain ⟨hthread, -, hread⟩ := hreads
      unfold Sys.leftoversOf at ih ⊢
      rw [List.mapM_cons, ih, hread, hthread]
      rfl

/-- What is read from the store is of the thread it was kept under. -/
theorem read_thread {json : ItemJson β} {kept : StoredItem} {item : Item β}
    (h : Item.read json kept = .ok item) : item.thread = kept.thread.val := by
  unfold Item.read at h
  split at h
  · cases h
  · split at h
    · cases h
    · split at h
      · cases h
      · rename_i thread hthread
        split at h
        · cases h
        · rename_i hsame
          cases h
          unfold ThreadRef.fromUuid at hthread
          split at hthread
          · cases hthread
            simp only [ne_eq, not_or, not_not] at hsame
            rw [← hsame.1]
          · cases hthread

theorem leftovers_thread {json : ItemJson β} {store : List StoredItem} :
    ∀ {kept : List (ThreadRef × Item β)}, Sys.leftoversOf json store = .ok kept →
      ∀ pair ∈ kept, pair.2.thread = pair.1.val := by
  induction store with
  | nil =>
      intro kept h pair hpair
      cases h
      cases hpair
  | cons stored store ih =>
      intro kept h pair hpair
      unfold Sys.leftoversOf at ih h
      rw [List.mapM_cons] at h
      obtain ⟨first, hfirst, h⟩ := bind_ok h
      obtain ⟨rest, hrest, h⟩ := bind_ok h
      cases h
      rcases List.mem_cons.mp hpair with rfl | hpair
      · cases hread : Item.read json stored with
        | error error =>
            rw [hread] at hfirst
            cases hfirst
        | ok item =>
            rw [hread] at hfirst
            cases hfirst
            exact read_thread hread
      · exact ih hrest pair hpair

namespace Sys

variable {json : ItemJson β} {s s' : Sys β}

/-- The store is what the history says, and what is on its way there reads back. -/
structure Stored (json : ItemJson β) (s : Sys β) : Prop where
  store : List.Forall₂ (Reads json) s.store (keptOf s.history)
  threads : ∀ c call, s.calls c = some call → call.item.thread = call.thread.val
  leftovers : ∀ pair ∈ s.leftovers, pair.2.thread = pair.1.val
  appending : ∀ c call stored, s.calls c = some call → call.place = .appending stored →
    call.item.stored json call.thread = .ok stored

/-- A call comes to a place that holds no text for the store. -/
theorem Stored.setCall (h : s.Stored json) {c : ℕ} {call : Call β} (hc : s.calls c = some call)
    (place : CallPlace) (hplace : ∀ stored, place ≠ .appending stored)
    (hcalls : s'.calls = (s.setCall c call place).calls)
    (hstore : List.Forall₂ (Reads json) s'.store (keptOf s'.history))
    (hleftovers : s'.leftovers = s.leftovers) : s'.Stored json := by
  refine ⟨hstore, fun c' call' hc' => ?_, hleftovers ▸ h.leftovers, fun c' call' stored hc' hp => ?_⟩
  · rw [hcalls] at hc'
    rcases update_some hc' with ⟨rfl, rfl⟩ | ⟨-, hold⟩
    · exact h.threads c' call hc
    · exact h.threads c' call' hold
  · rw [hcalls] at hc'
    rcases update_some hc' with ⟨rfl, rfl⟩ | ⟨-, hold⟩
    · exact absurd hp (hplace stored)
    · exact h.appending c' call' stored hold hp

theorem Moves.stored (h : Moves json s s') (hjson : json.Inverse) (hstored : s.Stored json) :
    s'.Stored json := by
  cases h with
  | accept hbuilt hmem hnone hthread hslot =>
      refine ⟨hstored.store, fun c' call' hc' => ?_, hstored.leftovers,
        fun c' call' stored hc' hp => ?_⟩
      · rcases update_some hc' with ⟨rfl, rfl⟩ | ⟨-, hold⟩
        · exact hthread
        · exact hstored.threads c' call' hold
      · rcases update_some hc' with ⟨rfl, rfl⟩ | ⟨-, hold⟩
        · cases hp
        · exact hstored.appending c' call' stored hold hp
  | keep hleftovers hrebuilding hnone =>
      have hthreads := hstored.leftovers
      rw [hleftovers] at hthreads
      refine ⟨hstored.store, fun c' call' hc' => ?_,
        fun pair hpair => hthreads pair (List.mem_cons_of_mem _ hpair),
        fun c' call' stored hc' hp => ?_⟩
      · rcases update_some hc' with ⟨rfl, rfl⟩ | ⟨-, hold⟩
        · exact hthreads _ List.mem_cons_self
        · exact hstored.threads c' call' hold
      · rcases update_some hc' with ⟨rfl, rfl⟩ | ⟨-, hold⟩
        · cases hp
        · exact hstored.appending c' call' stored hold hp
  | plain hc hplace => exact hstored.setCall hc _ (by simp) rfl hstored.store rfl
  | appends hc hplace hok =>
      rename_i c call stored
      refine ⟨hstored.store, fun c' call' hc' => ?_, hstored.leftovers,
        fun c' call' kept hc' hp => ?_⟩
      · rcases update_some hc' with ⟨rfl, rfl⟩ | ⟨-, hold⟩
        · exact hstored.threads c' call hc
        · exact hstored.threads c' call' hold
      · rcases update_some hc' with ⟨rfl, rfl⟩ | ⟨-, hold⟩
        · cases hp
          exact hok
        · exact hstored.appending c' call' kept hold hp
  | unkept hc hplace => exact hstored.setCall hc _ (by simp) rfl hstored.store rfl
  | appended hc hplace =>
      rename_i c call stored
      refine hstored.setCall hc .appended (by simp) rfl ?_ rfl
      have hread := Item.read_stored hjson (hstored.threads c call hc)
        (hstored.appending c call stored hc hplace)
      rw [keptOf_snoc]
      exact List.rel_append hstored.store (.cons hread .nil)
  | numbered hc hplace => exact hstored.setCall hc _ (by simp) rfl hstored.store rfl
  | unsent hc hplace _ => exact hstored.setCall hc _ (by simp) rfl hstored.store rfl
  | pushed hc hplace _ => exact hstored.setCall hc _ (by simp) rfl hstored.store rfl
  | told hc hplace => exact hstored.setCall hc _ (by simp) rfl hstored.store rfl
  | spawned hc hplace => exact hstored.setCall hc _ (by simp) rfl hstored.store rfl
  | registered hc hplace => exact hstored.setCall hc _ (by simp) rfl hstored.store rfl
  | aborts hc hplace _ => exact hstored.setCall hc _ (by simp) rfl hstored.store rfl
  | released hc hplace => exact hstored.setCall hc _ (by simp) rfl hstored.store rfl
  | removed hk hplace =>
      rename_i k t head place
      refine ⟨?_, hstored.threads, hstored.leftovers, hstored.appending⟩
      have hfilter := reads_filter hstored.store t head.item.id
      simpa [removeStored, setTask, keepStep] using hfilter
  | restart hleftovers =>
      refine ⟨hstored.store, ?_, leftovers_thread hleftovers, ?_⟩ <;> simp [fresh]
  | _ => exact ⟨hstored.store, hstored.threads, hstored.leftovers, hstored.appending⟩

theorem reachable_stored (hjson : json.Inverse) (h : (machine json).Reachable s) :
    s.Stored json := by
  refine h.invariant ?_ ?_
  · refine ⟨.nil, ?_, ?_, ?_⟩ <;> simp [machine, fresh]
  · intro s s' e hstored hs
    exact (step_moves hs).stored hjson hstored

end Sys

/-! ## What the new adapter has in line -/

/-- The items of the thread. -/
def onThread (t : ThreadRef) (kept : List (ThreadRef × Item β)) : List (Item β) :=
  kept.filterMap fun pair => if pair.1 = t then some pair.2 else none

/-- The kept items that were put into the queue of the thread. -/
def keptOn (t : ThreadRef) (log : List (Obs β)) : List (Item β) :=
  log.filterMap fun
    | .queued t' item _ true => if t' = t then some item else none
    | _ => none

/-- The items that were accepted on the thread. -/
def laterOn (t : ThreadRef) (log : List (Obs β)) : List (Item β) :=
  log.filterMap fun
    | .queued t' item _ false => if t' = t then some item else none
    | _ => none

def Obs.queues : Obs β → Bool
  | .queued .. => true
  | _ => false

theorem Obs.queues_of_aside {obs : Obs β} (h : obs.aside = true) : obs.queues = false := by
  cases obs <;> first | rfl | cases h

/-- Its text is in the store: the call is of a kept item, or the store has answered. -/
def CallPlace.filed : CallPlace → Bool
  | .entered | .appending _ => false
  | _ => true

section Log

variable {t t' : ThreadRef} {log more : List (Obs β)} {item : Item β} {no : ℕ}

@[simp] theorem onThread_cons {pair : ThreadRef × Item β} {kept : List (ThreadRef × Item β)} :
    onThread t (pair :: kept) = (if pair.1 = t then [pair.2] else []) ++ onThread t kept := by
  by_cases h : pair.1 = t <;> simp [onThread, h]

@[simp] theorem keptOn_append : keptOn t (log ++ more) = keptOn t log ++ keptOn t more :=
  List.filterMap_append

@[simp] theorem laterOn_append : laterOn t (log ++ more) = laterOn t log ++ laterOn t more :=
  List.filterMap_append

@[simp] theorem keptOn_queued {kept : Bool} :
    keptOn t [.queued t' item no kept] = if kept ∧ t' = t then [item] else [] := by
  by_cases h : t' = t <;> cases kept <;> simp [keptOn, h]

@[simp] theorem laterOn_queued {kept : Bool} :
    laterOn t [.queued t' item no kept] = if kept = false ∧ t' = t then [item] else [] := by
  by_cases h : t' = t <;> cases kept <;> simp [laterOn, h]

/-- Entries that put nothing into a queue. -/
theorem none_queued (h : ∀ obs ∈ more, obs.queues = false) :
    Sys.queuedOn t more = [] ∧ keptOn t more = [] ∧ laterOn t more = [] := by
  refine ⟨?_, ?_, ?_⟩
  all_goals
    refine List.filterMap_eq_nil_iff.mpr fun obs hobs => ?_
    have hnot := h obs hobs
    cases obs <;> first | rfl | cases hnot

end Log

namespace Sys

variable {json : ItemJson β} {s s' : Sys β}

/-- The kept item that is about to be put into the queue of the thread. -/
def pendingOn (s : Sys β) (t : ThreadRef) : List (Item β) :=
  match s.rebuilding.bind s.calls with
  | some call => if call.thread = t ∧ call.place.unqueued then [call.item] else []
  | none => []

/-- The kept items come into the queues in their order, and before all others. -/
structure Rebuilt (s : Sys β) : Prop where
  current : ∀ c, s.rebuilding = some c → ∃ call, s.calls c = some call ∧ call.kept = true
  filed : ∀ c call, s.calls c = some call → call.kept = true → call.place.filed = true
  order : ∀ t, keptOn t s.log ++ s.pendingOn t ++ onThread t s.leftovers = onThread t s.base
  queued : ∀ t, (queuedOn t s.log).map Queued.item = keptOn t s.log ++ laterOn t s.log
  none : s.built = false → ∀ t, laterOn t s.log = []

theorem Rebuilt.fresh (store : List StoredItem) (history : List (Kept β))
    (base : List (ThreadRef × Item β)) : (Sys.fresh store history base).Rebuilt := by
  refine ⟨?_, ?_, ?_, ?_, ?_⟩ <;> simp [Sys.fresh, pendingOn, keptOn, laterOn]

/-- A step that puts nothing into a queue. -/
theorem Rebuilt.frame (h : s.Rebuilt) (more : List (Obs β))
    (hmore : ∀ obs ∈ more, obs.queues = false) (hlog : s'.log = s.log ++ more)
    (hcurrent : ∀ c, s'.rebuilding = some c → ∃ call, s'.calls c = some call ∧ call.kept = true)
    (hfiled : ∀ c call, s'.calls c = some call → call.kept = true → call.place.filed = true)
    (hpending : ∀ t, s'.pendingOn t = s.pendingOn t) (hleftovers : s'.leftovers = s.leftovers)
    (hbase : s'.base = s.base) (hbuilt : s'.built = false → s.built = false) : s'.Rebuilt where
  current := hcurrent
  filed := hfiled
  order t := by
    obtain ⟨-, hkept, -⟩ := none_queued (t := t) hmore
    rw [hlog, keptOn_append, hkept, List.append_nil, hpending, hleftovers, hbase]
    exact h.order t
  queued t := by
    obtain ⟨hqueued, hkept, hlater⟩ := none_queued (t := t) hmore
    rw [hlog, queuedOn_append, keptOn_append, laterOn_append, hqueued, hkept, hlater,
      List.append_nil, List.append_nil, List.append_nil]
    exact h.queued t
  none hnot t := by
    obtain ⟨-, -, hlater⟩ := none_queued (t := t) hmore
    rw [hlog, laterOn_append, hlater, h.none (hbuilt hnot) t, List.append_nil]

/-- A step that leaves the calls. -/
theorem Rebuilt.same (h : s.Rebuilt) (more : List (Obs β))
    (hmore : ∀ obs ∈ more, obs.queues = false) (hlog : s'.log = s.log ++ more)
    (hcalls : s'.calls = s.calls) (hrebuilding : s'.rebuilding = s.rebuilding)
    (hleftovers : s'.leftovers = s.leftovers) (hbase : s'.base = s.base) : s'.Rebuilt := by
  refine h.frame more hmore hlog ?_ ?_ (fun t => ?_) hleftovers hbase ?_
  · rw [hcalls, hrebuilding]
    exact h.current
  · rw [hcalls]
    exact h.filed
  · simp only [pendingOn, hcalls, hrebuilding]
  · simp only [built, hleftovers, hrebuilding]
    exact id

/-- A call goes on and is at its item as before, or its item is not a kept one. -/
theorem pendingOn_setCall (h : s.Rebuilt) {c : ℕ} {call : Call β} (hc : s.calls c = some call)
    {place : CallPlace} (hplace : place.unqueued = call.place.unqueued ∨ call.kept = false)
    (t : ThreadRef) : (s.setCall c call place).pendingOn t = s.pendingOn t := by
  cases hrebuilding : s.rebuilding with
  | none => simp [pendingOn, Sys.setCall, hrebuilding]
  | some c' =>
      by_cases heq : c' = c
      · subst heq
        obtain ⟨current, hcurrent, hkept⟩ := h.current c' hrebuilding
        obtain rfl : call = current := Option.some.inj (hc.symm.trans hcurrent)
        rcases hplace with hplace | hplace
        · simp [pendingOn, Sys.setCall, hrebuilding, hc, hplace]
        · cases hkept.symm.trans hplace
      · simp [pendingOn, Sys.setCall, hrebuilding, heq]

/-- A call goes on and puts nothing into a queue. -/
theorem Rebuilt.call (h : s.Rebuilt) {c : ℕ} {call : Call β} (hc : s.calls c = some call)
    (place : CallPlace) (hplace : place.unqueued = call.place.unqueued ∨ call.kept = false)
    (hfiled : call.kept = true → place.filed = true) (more : List (Obs β))
    (hmore : ∀ obs ∈ more, obs.queues = false) (hlog : s'.log = s.log ++ more)
    (hcalls : s'.calls = (s.setCall c call place).calls)
    (hrebuilding : s'.rebuilding = s.rebuilding)
    (hleftovers : s'.leftovers = s.leftovers) (hbase : s'.base = s.base) : s'.Rebuilt := by
  refine h.frame more hmore hlog (fun c' hc' => ?_) (fun c' call' hc' hkept' => ?_) (fun t => ?_)
    hleftovers hbase ?_
  · rw [hrebuilding] at hc'
    obtain ⟨current, hcurrent, hkept⟩ := h.current c' hc'
    by_cases heq : c' = c
    · subst heq
      obtain rfl : call = current := Option.some.inj (hc.symm.trans hcurrent)
      exact ⟨{ call with place := place }, by simp [hcalls, Sys.setCall], hkept⟩
    · exact ⟨current, by simpa [hcalls, Sys.setCall, heq] using hcurrent, hkept⟩
  · rw [hcalls] at hc'
    rcases update_some hc' with ⟨rfl, rfl⟩ | ⟨-, hold⟩
    · exact hfiled hkept'
    · exact h.filed c' call' hold hkept'
  · rw [← pendingOn_setCall h hc hplace t]
    simp only [pendingOn, hcalls, hrebuilding, Sys.setCall]
  · simp only [built, hleftovers, hrebuilding]
    exact id

/-- A kept item is put into the queue, and any other one when all kept ones are. -/
theorem Rebuilt.pushed (h : s.Rebuilt) (hlocks : s.Locks) {c : ℕ} {call : Call β} {no : ℕ}
    {spawn : Bool} (hc : s.calls c = some call) (hplace : call.place = .numbered no)
    (hcalls : s'.calls = (s.setCall c call (.queued spawn)).calls)
    (hlog : s'.log = s.log ++ [.queued call.thread call.item no call.kept])
    (hrebuilding : s'.rebuilding = s.rebuilding)
    (hleftovers : s'.leftovers = s.leftovers) (hbase : s'.base = s.base) : s'.Rebuilt := by
  have hbusy : call.place.busy = true := by rw [hplace]; rfl
  have hheld := hlocks.held c call hc hbusy
  have hbuilt : s'.built = s.built := by simp [built, hleftovers, hrebuilding]
  -- the call that is at a kept item stays the same
  have hcurrent : ∀ c', s'.rebuilding = some c' →
      ∃ call', s'.calls c' = some call' ∧ call'.kept = true := by
    intro c' hc'
    rw [hrebuilding] at hc'
    obtain ⟨current, hcurrent, hkept⟩ := h.current c' hc'
    by_cases heq : c' = c
    · subst heq
      obtain rfl : call = current := Option.some.inj (hc.symm.trans hcurrent)
      exact ⟨{ call with place := .queued spawn }, by simp [hcalls, Sys.setCall], hkept⟩
    · exact ⟨current, by simpa [hcalls, Sys.setCall, heq] using hcurrent, hkept⟩
  have hfiled : ∀ c' call', s'.calls c' = some call' → call'.kept = true →
      call'.place.filed = true := by
    intro c' call' hc' hkept'
    rw [hcalls] at hc'
    rcases update_some hc' with ⟨rfl, rfl⟩ | ⟨-, hold⟩
    · rfl
    · exact h.filed c' call' hold hkept'
  have hpendingSet : ∀ t, s'.pendingOn t = (s.setCall c call (.queued spawn)).pendingOn t := by
    intro t
    simp only [pendingOn, hcalls, hrebuilding, Sys.setCall]
  cases hkept : call.kept with
  | true =>
      have hat : s.rebuilding = some c := by simpa [Held, hkept] using hheld
      have hnot : s.built = false := by simp [built, hat]
      have hpending : ∀ t, s.pendingOn t = if call.thread = t then [call.item] else [] := by
        intro t
        simp [pendingOn, hat, hc, hplace, CallPlace.unqueued]
      have hpending' : ∀ t, s'.pendingOn t = [] := by
        intro t
        rw [hpendingSet]
        simp [pendingOn, Sys.setCall, hat, CallPlace.unqueued]
      refine ⟨hcurrent, hfiled, fun t => ?_, fun t => ?_, fun _ t => ?_⟩
      · have horder := h.order t
        rw [hpending] at horder
        rw [hlog, hpending', hleftovers, hbase, keptOn_append, List.append_nil]
        simpa [hkept] using horder
      · have hqueued := h.queued t
        rw [h.none hnot t, List.append_nil] at hqueued
        rw [hlog, queuedOn_append, keptOn_append, laterOn_append, h.none hnot t, List.map_append,
          hqueued]
        by_cases ht : call.thread = t <;> simp [hkept, ht]
      · rw [hlog, laterOn_append, h.none hnot t]
        simp [hkept]
  | false =>
      have hat : s.built = true := by
        simp only [Held, hkept, Bool.false_eq_true, if_false] at hheld
        exact hheld.1
      have hpending : ∀ t, s'.pendingOn t = s.pendingOn t := by
        intro t
        rw [hpendingSet]
        exact pendingOn_setCall h hc (Or.inr hkept) t
      refine ⟨hcurrent, hfiled, fun t => ?_, fun t => ?_, fun hnot => ?_⟩
      · rw [hlog, hpending, hleftovers, hbase, keptOn_append]
        simpa [hkept] using h.order t
      · rw [hlog, queuedOn_append, keptOn_append, laterOn_append, List.map_append, h.queued t]
        by_cases ht : call.thread = t <;> simp [hkept, ht]
      · rw [hbuilt, hat] at hnot
        cases hnot

/-- The enqueue of a kept item is over. -/
theorem Rebuilt.release (h : s.Rebuilt) (hlocks : s.Locks) {c : ℕ} {call : Call β}
    {result : Except Error Unit} (hc : s.calls c = some call)
    (hplace : call.place = .ended result) : (s.release c call).Rebuilt := by
  have hbusy : call.place.busy = true := by rw [hplace]; rfl
  have hheld := hlocks.held c call hc hbusy
  cases hkept : call.kept with
  | true =>
      have hat : s.rebuilding = some c := by simpa [Held, hkept] using hheld
      refine h.frame [] (by simp) (by simp [Sys.release, Sys.setCall]) (fun c' hc' => ?_)
        (fun c' call' hc' hkept' => ?_) (fun t => ?_) rfl rfl fun _ => by simp [built, hat]
      · simp [Sys.release, hkept] at hc'
      · rcases update_some hc' with ⟨rfl, rfl⟩ | ⟨-, hold⟩
        · rfl
        · exact h.filed c' call' hold hkept'
      · simp [pendingOn, Sys.release, hkept, hat, hc, hplace, CallPlace.unqueued]
  | false =>
      refine h.call hc .left (Or.inr hkept) (fun _ => rfl) [] (by simp)
        (by simp [Sys.release, Sys.setCall]) rfl ?_ rfl rfl
      simp [Sys.release, hkept]

theorem Moves.rebuilt (h : Moves json s s') (hlocks : s.Locks) (hrebuilt : s.Rebuilt) :
    s'.Rebuilt := by
  have hlog : s.log = s.log ++ [] := (List.append_nil _).symm
  -- a call that has its text still to be filed is none of a kept item
  have hunfiled : ∀ c call, s.calls c = some call → call.place.filed = false →
      call.kept = false := by
    intro c call hc hplace
    cases hkept : call.kept with
    | true => cases (hrebuilt.filed c call hc hkept).symm.trans hplace
    | false => rfl
  cases h with
  | accept hbuilt hmem hnone hthread hslot =>
      rename_i c t item
      have hrebuilding : s.rebuilding = none := by
        simp only [built, Bool.and_eq_true, Option.isNone_iff_eq_none] at hbuilt
        exact hbuilt.2
      refine hrebuilt.frame [] (by simp) hlog (fun c' hc' => ?_) (fun c' call' hc' hkept' => ?_)
        (fun t' => ?_) rfl rfl id
      · cases hrebuilding.symm.trans hc'
      · rcases update_some hc' with ⟨rfl, rfl⟩ | ⟨-, hold⟩
        · cases hkept'
        · exact hrebuilt.filed c' call' hold hkept'
      · simp [pendingOn, Sys.setCall, hrebuilding]
  | keep hleftovers hrebuilding hnone =>
      rename_i c t item leftovers
      have hnot : s.built = false := by simp [built, hleftovers]
      refine ⟨fun c' hc' => ?_, fun c' call' hc' hkept' => ?_, fun t' => ?_, hrebuilt.queued,
        fun _ => hrebuilt.none hnot⟩
      · cases hc'
        exact ⟨_, Function.update_self .., rfl⟩
      · rcases update_some hc' with ⟨rfl, rfl⟩ | ⟨-, hold⟩
        · rfl
        · exact hrebuilt.filed c' call' hold hkept'
      · -- the item goes from the front of the leftovers to the call
        have horder := hrebuilt.order t'
        rw [hleftovers, onThread_cons] at horder
        have hpending : s.pendingOn t' = [] := by simp [pendingOn, hrebuilding]
        rw [hpending, List.append_nil] at horder
        simpa [pendingOn, Sys.setCall, CallPlace.unqueued] using horder
  | plain hc hplace =>
      refine hrebuilt.call hc _ ?_ (fun _ => rfl) [] (by simp) hlog rfl rfl rfl rfl
      left
      revert hplace
      cases Call.place _ <;> simp [CallPlace.plain, CallPlace.unqueued]
  | appends hc hplace hstored =>
      have hkept := hunfiled _ _ hc (by rw [hplace]; rfl)
      refine hrebuilt.call hc _ (Or.inr hkept) (fun heq => ?_) [] (by simp) hlog rfl rfl rfl rfl
      cases hkept.symm.trans heq
  | unkept hc hplace =>
      exact hrebuilt.call hc _ (Or.inl (by rw [hplace]; rfl)) (fun _ => rfl) [] (by simp) hlog
        rfl rfl rfl rfl
  | appended hc hplace =>
      have hkept := hunfiled _ _ hc (by rw [hplace]; rfl)
      exact hrebuilt.call hc .appended (Or.inr hkept) (fun _ => rfl) [] (by simp) hlog
        rfl rfl rfl rfl
  | numbered hc hplace =>
      exact hrebuilt.call hc _ (Or.inl (by rw [hplace]; rfl)) (fun _ => rfl) [] (by simp) hlog
        rfl rfl rfl rfl
  | unsent hc hplace hstopped =>
      rename_i c call no
      -- a kept item is enqueued before the adapter can be stopped
      have hkept : call.kept = false := by
        cases hkept : call.kept with
        | false => rfl
        | true =>
            have hheld := hlocks.held c call hc (by rw [hplace]; rfl)
            have hat : s.rebuilding = some c := by simpa [Held, hkept] using hheld
            have hbuilt := hlocks.stopped hstopped
            simp [built, hat] at hbuilt
      exact hrebuilt.call hc _ (Or.inr hkept) (fun _ => rfl) [_] (by simp [Obs.queues]) rfl
        rfl rfl rfl rfl
  | pushed hc hplace hstopped => exact hrebuilt.pushed hlocks hc hplace rfl rfl rfl rfl rfl
  | told hc hplace =>
      exact hrebuilt.call hc _ (Or.inl (by rw [hplace]; rfl)) (fun _ => rfl) [] (by simp) hlog
        rfl rfl rfl rfl
  | spawned hc hplace =>
      exact hrebuilt.call hc _ (Or.inl (by rw [hplace]; rfl)) (fun _ => rfl) [] (by simp) hlog
        rfl rfl rfl rfl
  | registered hc hplace =>
      exact hrebuilt.call hc _ (Or.inl (by rw [hplace]; rfl)) (fun _ => rfl) [] (by simp) hlog
        rfl rfl rfl rfl
  | aborts hc hplace hstopped =>
      exact hrebuilt.call hc _ (Or.inl (by rw [hplace]; rfl)) (fun _ => rfl) [] (by simp) hlog
        rfl rfl rfl rfl
  | released hc hplace => exact hrebuilt.release hlocks hc hplace
  | task hk _ _ _ _ _ _ hmore =>
      exact hrebuilt.same _
        (fun obs hobs => Obs.queues_of_aside (Obs.aside_of_quiet (hmore obs hobs)))
        rfl rfl rfl rfl rfl
  | droppedUnsent hk _ _ =>
      exact hrebuilt.same [_] (by simp [Obs.queues]) rfl rfl rfl rfl rfl
  | sent hk _ => exact hrebuilt.same [_] (by simp [Obs.queues]) rfl rfl rfl rfl rfl
  | retried hk => exact hrebuilt.same [_] (by simp [Obs.queues]) rfl rfl rfl rfl rfl
  | refused hk =>
      exact hrebuilt.same [_] (by simp [Obs.queues, refusal]) rfl rfl rfl rfl rfl
  | popped hk => exact hrebuilt.same [_] (by simp [Obs.queues]) rfl rfl rfl rfl rfl
  | waited hwait =>
      exact hrebuilt.same _
        (fun obs hobs => Obs.queues_of_aside (Obs.aside_of_wait (hwait.ofWait obs hobs)))
        rfl rfl rfl rfl rfl
  | reportUnsent =>
      refine hrebuilt.same _ (fun obs hobs => ?_) rfl rfl rfl rfl rfl
      obtain ⟨queued, -, rfl⟩ := List.mem_map.mp hobs
      rfl
  | restart _ => exact .fresh _ _ _
  | _ => exact hrebuilt.same [] (by simp) hlog rfl rfl rfl rfl

theorem reachable_rebuilt (h : (machine json).Reachable s) : s.Rebuilt := by
  have hboth : s.Inv ∧ s.Rebuilt := by
    refine h.invariant (P := fun s => s.Inv ∧ s.Rebuilt)
      ⟨reachable_inv (Machine.Reachable.init (M := machine json)), .fresh _ _ _⟩ ?_
    rintro s s' e ⟨hinv, hrebuilt⟩ hs
    have hmoves := step_moves hs
    exact ⟨hmoves.inv hinv, hmoves.rebuilt hinv.locks hrebuilt⟩
  exact hboth.2

/-! ## What is in line -/

/-- The items of a thread that the adapter has still to end or to put into the queue. -/
def lineOn (s : Sys β) (t : ThreadRef) : List (Item β) :=
  ((s.queue t).items).map Queued.item ++ s.pendingOn t ++ onThread t s.leftovers

/-- What has ended and what is in line are the kept items, then the accepted ones. -/
theorem Rebuilt.line (h : s.Rebuilt) (hfifo : s.Fifo) (t : ThreadRef) :
    onThread t s.base ++ laterOn t s.log =
      (endedOn t s.log).map Queued.item ++ s.lineOn t := by
  have hqueued := h.queued t
  rw [hfifo t, List.map_append] at hqueued
  rw [lineOn, ← List.append_assoc, ← List.append_assoc, hqueued, ← h.order t]
  cases hbuilt : s.built with
  | true =>
      -- nothing is left to be enqueued
      simp only [built, Bool.and_eq_true, List.isEmpty_iff, Option.isNone_iff_eq_none] at hbuilt
      simp [pendingOn, hbuilt.1, hbuilt.2, onThread]
  | false => simp [h.none hbuilt t]

end Sys

/-! ## The result -/

def Event.isRestart : Event β → Bool
  | .restart => true
  | _ => false

section

variable {json : ItemJson β} {s s' : Sys β}

/-- What the adapter has found in the store stays. -/
theorem Sys.step_base {e : Event β} (he : e.isRestart = false) (hs : s.step json e = some s') :
    s'.base = s.base := by
  cases e with
  | restart => cases he
  | call c =>
      obtain ⟨call, -, hs⟩ := Option.bind_eq_some_iff.mp hs
      unfold callStep at hs
      repeat' split at hs
      all_goals cases hs <;> rfl
  | appended c result =>
      obtain ⟨call, -, hs⟩ := Option.bind_eq_some_iff.mp hs
      unfold appendDone at hs
      split at hs
      all_goals cases hs <;> rfl
  | task k =>
      obtain ⟨task, -, hs⟩ := Option.bind_eq_some_iff.mp hs
      unfold taskStep at hs
      dsimp only at hs
      repeat' split at hs
      all_goals cases hs <;> rfl
  | answer k answer =>
      obtain ⟨task, -, hs⟩ := Option.bind_eq_some_iff.mp hs
      split at hs <;> cases hs
      rfl
  | removed k result =>
      obtain ⟨task, -, hs⟩ := Option.bind_eq_some_iff.mp hs
      unfold removeDone at hs
      split at hs
      all_goals cases hs <;> rfl
  | cut k removed =>
      simp only [step] at hs
      split at hs
      · obtain ⟨task, -, hs⟩ := Option.bind_eq_some_iff.mp hs
        unfold Sys.cut at hs
        repeat' split at hs
        all_goals cases hs <;> rfl
      · cases hs
  | wait w =>
      obtain ⟨wait, -, hs⟩ := Option.bind_eq_some_iff.mp hs
      unfold waitStep at hs
      dsimp only at hs
      repeat' split at hs
      all_goals cases hs <;> rfl
  | dropWait w =>
      obtain ⟨wait, -, hs⟩ := Option.bind_eq_some_iff.mp hs
      split at hs
      all_goals cases hs <;> rfl
  | keep c =>
      simp only [step] at hs
      repeat' split at hs
      all_goals cases hs <;> rfl
  | slot t =>
      cases hs
      rfl
  | _ =>
      simp only [step] at hs
      split at hs
      all_goals cases hs <;> rfl

theorem Sys.runFrom_base {es : List (Event β)} : ∀ {s u : Sys β},
    (∀ e ∈ es, e.isRestart = false) → (machine json).runFrom s es = some u →
      u.base = s.base := by
  induction es with
  | nil =>
      intro s u _ hrun
      cases hrun
      rfl
  | cons e es ih =>
      intro s u hes hrun
      obtain ⟨s', hs, hrest⟩ := Option.bind_eq_some_iff.mp hrun
      rw [ih (fun e' he' => hes e' (List.mem_cons_of_mem _ he')) hrest]
      exact step_base (hes e List.mem_cons_self) hs

/-- An adapter is built on whatever another one has left. -/
theorem restart_step (hjson : json.Inverse) (h : (machine json).Reachable s) :
    (machine json).step s .restart =
      some (Sys.fresh s.store s.history (keptOf s.history)) := by
  have hread := leftoversOf_reads (Sys.reachable_stored hjson h).store
  simp [machine, Sys.step, hread]

/-- An adapter takes up the items of another one: what it ends and what is in line are,
thread by thread, the items that were kept, then those it accepts. It sends the first in
line and nothing else, and it drops an item unsent only behind a refused opening. -/
theorem rebuilt_on_kept (hjson : json.Inverse) (h : (machine json).Reachable s) :
    ∃ s', (machine json).step s .restart = some s' ∧
      ∀ es u, (∀ e ∈ es, e.isRestart = false) → (machine json).runFrom s' es = some u →
        (∀ t, onThread t (keptOf s.history) ++ laterOn t u.log =
          (Sys.endedOn t u.log).map Queued.item ++ u.lineOn t) ∧
        Always InLine u.log ∧ Always DropRule u.log ∧
        ∀ t, u.stopped = false → (u.queue t).items ≠ [] →
          u.Spawning t ∨ ∃ k, u.Works k t := by
  have hstep := restart_step hjson h
  refine ⟨_, hstep, fun es u hes hrun => ?_⟩
  have hreach : (machine json).Reachable u :=
    Machine.Reach.runFrom (h.step hstep) (Machine.guarded_true es _) hrun
  have hinv := Sys.reachable_inv hreach
  have hbase : u.base = keptOf s.history := Sys.runFrom_base hes hrun
  refine ⟨fun t => ?_, Sys.reachable_inLine hreach, dropped_unsent hreach, fun t hrun hitems => ?_⟩
  · rw [← hbase]
    exact (Sys.reachable_rebuilt hreach).line hinv.fifo t
  · refine hinv.workers.worked hrun t ?_
    cases hworker : (u.queue t).workerRunning with
    | true => rfl
    | false => exact absurd (hinv.workers.idle t hworker) hitems

end

def keptJson : ItemJson Value := knownJson [openingItem 1, chunkItem 2 0]

theorem keptJson_inverse : keptJson.Inverse := knownJson_inverse (by decide +kernel)

/-- An adapter that stops between the append of the chunk and its enqueue. -/
def cutRun : List (Event Value) :=
  ([.slot threadOne] : List (Event Value)) ++ acceptRun 0 (openingItem 1) ++
    ([.accept 1 threadOne (chunkItem 2 0), .call 1, .appended 1 (.ok ())] : List (Event Value))

/-- The next one enqueues both items, and Threads refuses the opening. -/
def refusedRun : List (Event Value) :=
  [.keep 0, .call 0, .call 0, .call 0, .call 0, .call 0, .call 0, .call 0, .keep 1, .call 1,
    .call 1, .call 1, .call 1, .call 1, .task 0, .task 0, .task 0,
    .answer 0 (.error .unauthenticated), .task 0, .task 0, .task 0, .task 0, .removed 0 (.ok ()),
    .task 0, .task 0, .task 0, .task 0]

def refusedLog : List (Obs Value) :=
  [.queued threadOne (openingItem 1) 1 true, .queued threadOne (chunkItem 2 0) 2 true,
    .sent threadOne (openingItem 1) 1,
    .report .itemRefused threadOne (openingItem 1) (some .unauthenticated),
    .ended threadOne (openingItem 1) 1 .refused,
    .report .itemDroppedUnsent threadOne (chunkItem 2 0) none,
    .ended threadOne (chunkItem 2 0) 2 .unsent]

theorem cut_run :
    ∃ s, (machine keptJson).Reachable s ∧
      keptOf s.history = [(threadOne, openingItem 1), (threadOne, chunkItem 2 0)] := by
  obtain ⟨s, hrun, hkept⟩ : ∃ s, (machine keptJson).run cutRun = some s ∧
      keptOf s.history = [(threadOne, openingItem 1), (threadOne, chunkItem 2 0)] := ⟨_, rfl, rfl⟩
  exact ⟨s, Machine.reachable_of_run cutRun hrun, hkept⟩

theorem refused_run (store : List StoredItem) (history : List (Kept Value)) :
    ∃ u, (machine keptJson).runFrom
      (Sys.fresh store history [(threadOne, openingItem 1), (threadOne, chunkItem 2 0)])
        refusedRun = some u ∧ u.log = refusedLog ∧ u.lineOn threadOne = [] :=
  ⟨_, rfl, rfl, rfl⟩

theorem refusedRun_unbroken : ∀ e ∈ refusedRun, e.isRestart = false := by
  simp [refusedRun, Event.isRestart]

/-- The two runs, one adapter after the other. -/
theorem refused_after_cut :
    ∃ s s' u, (machine keptJson).Reachable s ∧
      onThread threadOne (keptOf s.history) = [openingItem 1, chunkItem 2 0] ∧
      (machine keptJson).step s .restart = some s' ∧
      (machine keptJson).runFrom s' refusedRun = some u ∧ u.log = refusedLog ∧
      u.lineOn threadOne = [] := by
  obtain ⟨s, hreach, hkept⟩ := cut_run
  obtain ⟨u, hrun, hlog, hline⟩ := refused_run s.store s.history
  have hstep := restart_step keptJson_inverse hreach
  rw [hkept] at hstep
  exact ⟨s, _, u, hreach, by rw [hkept]; rfl, hstep, hrun, hlog, hline⟩

theorem rebuilt_on_kept_cut :
    ∃ s u : Sys Value, (machine keptJson).Reachable s ∧ u.log = refusedLog ∧
      onThread threadOne (keptOf s.history) ++ laterOn threadOne u.log =
        (Sys.endedOn threadOne u.log).map Queued.item ++ u.lineOn threadOne := by
  obtain ⟨s, s', u, hreach, hkept, hstep, hrun, hlog, hline⟩ := refused_after_cut
  obtain ⟨s'', hstep'', hall⟩ := rebuilt_on_kept keptJson_inverse hreach
  obtain rfl : s' = s'' := Option.some.inj (hstep.symm.trans hstep'')
  exact ⟨s, u, hreach, hlog, (hall refusedRun u refusedRun_unbroken hrun).1 threadOne⟩

/-- The kept chunk is never sent: its opening is refused on the way. -/
theorem kept_chunk_unsent :
    ¬ ∀ json : ItemJson Value, json.Inverse → ∀ s, (machine json).Reachable s →
      ∀ s', (machine json).step s .restart = some s' →
        ∀ es u, (∀ e ∈ es, e.isRestart = false) → (machine json).runFrom s' es = some u →
          ∀ t, u.lineOn t = [] → ∀ item ∈ onThread t (keptOf s.history),
            ∃ no, .sent t item no ∈ u.log := by
  intro hsends
  obtain ⟨s, s', u, hreach, hkept, hstep, hrun, hlog, hline⟩ := refused_after_cut
  obtain ⟨no, hsent⟩ := hsends keptJson keptJson_inverse s hreach s' hstep refusedRun u
    refusedRun_unbroken hrun threadOne hline (chunkItem 2 0) (by simp [hkept])
  rw [hlog] at hsent
  simp [refusedLog, chunkItem, openingItem] at hsent

end RunnerKit.Threads.Delivery
