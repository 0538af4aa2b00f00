import RunnerKit.Queue.EndsOnce

/-!
# How a write joins the queue

An ordinary write joins in the section that hands it over. A held marker joins
when its gate ends `Stored`, right behind its follow-up. `joins` reads the
order of joining from the log; each registered write joins at most once.
-/

namespace RunnerKit.Queue

open RunnerKit.Jobs RunnerKit.Lib

def Obs.joins : Obs → List Entry
  | .enqueued entry => [entry]
  | .joined marker follow => follow.toList ++ [marker]
  | _ => []

def joins (log : List Obs) : List Entry := log.flatMap Obs.joins

@[simp] theorem joins_append (log more : List Obs) :
    joins (log ++ more) = joins log ++ joins more :=
  List.flatMap_append

@[simp] theorem joins_nil : joins [] = [] := rfl

@[simp] theorem joins_cons (obs : Obs) (log : List Obs) :
    joins (obs :: log) = obs.joins ++ joins log := rfl

/-- What one observation adds stands together in the order of joining. -/
theorem joins_of_mem {log : List Obs} {obs : Obs} (h : obs ∈ log) :
    ∃ before after, joins log = before ++ obs.joins ++ after := by
  obtain ⟨pre, post, rfl⟩ := List.append_of_mem h
  exact ⟨joins pre, joins post, by simp⟩

namespace Sys

/-- The numbers of the writes that joined or are held. -/
def joinable (s : Sys) : Multiset ℕ :=
  ((joins s.log).map Entry.seq : List ℕ) +
    (s.st.newHeld.map (fun h => h.entry.seq) : List ℕ) +
    (s.task.held.map (fun p => p.1.seq) : List ℕ)

structure JoinInv (s : Sys) : Prop where
  nodup : s.joinable.Nodup
  lt : ∀ q ∈ s.joinable, q < s.st.nextSeq
  newHeld : ∀ h ∈ s.st.newHeld, .held h.entry h.follow ∈ s.log
  held : ∀ p ∈ s.task.held, .held p.1 p.2 ∈ s.log
  /-- A marker joins with the follow-up that it was held with. -/
  joined : ∀ marker follow, .joined marker follow ∈ s.log →
    .held marker (follow.map Entry.write) ∈ s.log

variable {s s' : Sys}

theorem joinInv_init : init.JoinInv where
  nodup := by simp [joinable, init, State.new]
  lt := by simp [joinable, init, State.new]
  newHeld := by simp [init, State.new]
  held := by simp [init]
  joined := by simp [init]

/-- Nothing new is joined or held. -/
theorem JoinInv.frame (h : s.JoinInv) {more : List Obs}
    (hlog : s'.log = s.log ++ more) (hquiet : ∀ obs ∈ more, obs.joins = [])
    (hnextSeq : s'.st.nextSeq = s.st.nextSeq)
    (hnewHeld : ∀ x ∈ s'.st.newHeld, x ∈ s.st.newHeld)
    (hheld : ∀ p ∈ s'.task.held,
      p ∈ s.task.held ∨ ∃ x ∈ s.st.newHeld, p = (x.entry, x.follow))
    (hle : s'.joinable ≤ s.joinable) : s'.JoinInv where
  nodup := Multiset.nodup_of_le hle h.nodup
  lt := by
    intro q hq
    rw [hnextSeq]
    exact h.lt q (Multiset.mem_of_le hle hq)
  newHeld := by
    intro x hx
    rw [hlog]
    exact List.mem_append_left _ (h.newHeld x (hnewHeld x hx))
  held := by
    intro p hp
    rw [hlog]
    refine List.mem_append_left _ ?_
    rcases hheld p hp with hp | ⟨x, hx, rfl⟩
    · exact h.held p hp
    · exact h.newHeld x hx
  joined := by
    intro marker follow hmem
    rw [hlog] at hmem ⊢
    rcases List.mem_append.mp hmem with hmem | hmem
    · exact List.mem_append_left _ (h.joined marker follow hmem)
    · have hnil := hquiet _ hmem
      simp [Obs.joins] at hnil

/-- A step of a caller, of a drained call or of the task that neither joins
nor moves a held marker. -/
theorem JoinInv.same (h : s.JoinInv) {more : List Obs}
    (hlog : s'.log = s.log ++ more) (hquiet : ∀ obs ∈ more, obs.joins = [])
    (hnextSeq : s'.st.nextSeq = s.st.nextSeq)
    (hnewHeld : s'.st.newHeld = s.st.newHeld)
    (hheld : s'.task.held = s.task.held) : s'.JoinInv := by
  have hjoins : joins more = [] := List.flatMap_eq_nil_iff.mpr hquiet
  refine h.frame hlog hquiet hnextSeq ?_ ?_ ?_
  · rw [hnewHeld]
    exact fun x hx => hx
  · rw [hheld]
    exact fun p hp => Or.inl hp
  · simp [joinable, hlog, hjoins, hnewHeld, hheld]

/-- A newly registered write joins or is held. -/
theorem JoinInv.register (h : s.JoinInv) {obs : Obs}
    (hlog : s'.log = s.log ++ [obs])
    (hnextSeq : s'.st.nextSeq = s.st.nextSeq + 1)
    (hjoinable : s'.joinable = s.st.nextSeq ::ₘ s.joinable)
    (hnewHeld : ∀ x ∈ s'.st.newHeld, .held x.entry x.follow ∈ s'.log)
    (hheld : ∀ p ∈ s'.task.held, .held p.1 p.2 ∈ s'.log)
    (hjoined : ∀ marker follow, obs = .joined marker follow →
      .held marker (follow.map Entry.write) ∈ s.log) : s'.JoinInv where
  nodup := by
    rw [hjoinable]
    refine Multiset.nodup_cons.mpr ⟨?_, h.nodup⟩
    intro hmem
    exact lt_irrefl _ (h.lt _ hmem)
  lt := by
    intro q hq
    rw [hjoinable] at hq
    rw [hnextSeq]
    rcases Multiset.mem_cons.mp hq with rfl | hq
    · exact Nat.lt_succ_self _
    · exact Nat.lt_succ_of_lt (h.lt q hq)
  newHeld := hnewHeld
  held := hheld
  joined := by
    intro marker follow hmem
    rw [hlog] at hmem ⊢
    refine List.mem_append_left _ ?_
    rcases List.mem_append.mp hmem with hmem | hmem
    · exact h.joined marker follow hmem
    · exact hjoined marker follow (List.mem_singleton.mp hmem).symm

theorem JoinInv.join (h : s.JoinInv) {seq : ℕ} {marker : Entry}
    {follow : Option Write} {held : List (Entry × Option Write)} {now : ℕ}
    (htake : takeHeld seq s.task.held = some ((marker, follow), held)) :
    (s.joinHeld held marker follow now).JoinInv := by
  have hperm := takeHeld_perm htake
  have hmarker : .held marker follow ∈ s.log :=
    h.held (marker, follow) (hperm.mem_iff.mpr List.mem_cons_self)
  have hrest : ∀ p ∈ held, .held p.1 p.2 ∈ s.log := by
    intro p hp
    exact h.held p (hperm.mem_iff.mpr (List.mem_cons_of_mem _ hp))
  have hseqs : (s.task.held.map (fun p => p.1.seq) : Multiset ℕ) =
      marker.seq ::ₘ (held.map (fun p => p.1.seq) : List ℕ) := by
    rw [Multiset.cons_coe, Multiset.coe_eq_coe]
    exact hperm.map fun p => p.1.seq
  cases follow with
  | none =>
      have hsame : (s.joinHeld held marker none now).joinable = s.joinable := by
        simp only [joinable, joinHeld, State.join, hseqs, joins_append,
          joins_cons, joins_nil, Obs.joins, Option.map_none, Option.toList,
          List.nil_append, List.append_nil, List.map_append, List.map_cons,
          List.map_nil, ← Multiset.coe_add, Multiset.coe_singleton,
          ← Multiset.singleton_add]
        abel
      refine ⟨?_, ?_, ?_, ?_, ?_⟩
      · rw [hsame]
        exact h.nodup
      · intro q hq
        rw [hsame] at hq
        exact h.lt q hq
      · exact fun x hx => List.mem_append_left _ (h.newHeld x hx)
      · exact fun p hp => List.mem_append_left _ (hrest p hp)
      · intro marker' follow' hmem
        refine List.mem_append_left _ ?_
        rcases List.mem_append.mp hmem with hmem | hmem
        · exact h.joined marker' follow' hmem
        · cases List.mem_singleton.mp hmem
          exact hmarker
  | some write =>
      have hmore : (s.joinHeld held marker (some write) now).joinable =
          s.st.nextSeq ::ₘ s.joinable := by
        simp only [joinable, joinHeld, State.join, State.register, hseqs,
          joins_append, joins_cons, joins_nil, Obs.joins, Option.map_some,
          Option.toList, State.nextEntry, List.append_nil, List.map_append,
          List.map_cons, List.map_nil, ← Multiset.coe_add,
          Multiset.coe_singleton, ← Multiset.singleton_add]
        abel
      refine h.register rfl rfl hmore ?_ ?_ ?_
      · exact fun x hx => List.mem_append_left _ (h.newHeld x hx)
      · exact fun p hp => List.mem_append_left _ (hrest p hp)
      · intro marker' follow' hobs
        cases hobs
        exact hmarker

theorem completeStep_quiet (s : Sys) (entry : Entry) (result : WriteResult)
    (stage : Stage) :
    ∃ more, (s.completeStep entry result stage).log = s.log ++ more ∧
      ∀ obs ∈ more, obs.joins = [] := by
  cases stage with
  | signalling => exact ⟨[], by simp [completeStep], by simp⟩
  | _ => exact ⟨_, rfl, by simp [Obs.joins]⟩

theorem JoinInv.step (h : s.JoinInv) (hs : Step s s') : s'.JoinInv := by
  have hnone : s.log = s.log ++ [] := (List.append_nil _).symm
  cases hs with
  | enqueue write now hopen =>
      have hmore : (s.enqueue write now).joinable =
          s.st.nextSeq ::ₘ s.joinable := by
        simp only [joinable, enqueue, State.enqueue, State.register,
          State.nextEntry, joins_append, joins_cons, joins_nil, Obs.joins,
          List.append_nil, List.map_append, List.map_cons, List.map_nil,
          ← Multiset.coe_add, Multiset.coe_singleton, ← Multiset.singleton_add]
        abel
      refine h.register rfl rfl hmore ?_ ?_ (by simp)
      · exact fun x hx => List.mem_append_left _ (h.newHeld x hx)
      · exact fun p hp => List.mem_append_left _ (h.held p hp)
  | hold write follow now hopen =>
      have hmore : (s.hold write follow now).joinable =
          s.st.nextSeq ::ₘ s.joinable := by
        simp only [joinable, hold, State.hold, State.register, State.nextEntry,
          joins_append, joins_cons, joins_nil, Obs.joins, List.append_nil,
          List.map_append, List.map_cons, List.map_nil, ← Multiset.coe_add,
          Multiset.coe_singleton, ← Multiset.singleton_add]
        abel
      refine h.register rfl rfl hmore ?_ ?_ (by simp)
      · intro x hx
        rcases List.mem_append.mp hx with hx | hx
        · exact List.mem_append_left _ (h.newHeld x hx)
        · cases List.mem_singleton.mp hx
          exact List.mem_append_right _ List.mem_cons_self
      · exact fun p hp => List.mem_append_left _ (h.held p hp)
  | unqueue write removal hwhy =>
      exact h.same rfl (by simp [Obs.joins]) rfl rfl rfl
  | callNotify chan hcall => exact h.same rfl (by simp [Obs.joins]) rfl rfl rfl
  | callTable chan write removal hcall =>
      refine h.same hnone (by simp) ?_ ?_ rfl
      · exact State.recordEnd_nextSeq
      · exact State.recordEnd_newHeld
  | callAnswer chan write removal hcall =>
      exact h.same rfl (by simp [Obs.joins]) rfl rfl rfl
  | callReport chan write removal hcall =>
      exact h.same rfl (by simp [Obs.joins]) rfl rfl rfl
  | stopNow => exact h.same hnone (by simp) rfl rfl rfl
  | stopCancel hstop => exact h.same hnone (by simp) rfl rfl rfl
  | complete entry result stage hc =>
      obtain ⟨more, hlog, hquiet⟩ := completeStep_quiet s entry result stage
      refine h.same hlog hquiet ?_ ?_ ?_ <;> cases stage <;> simp [completeStep]
  | takeNewHeld hfree hpoint =>
      refine h.frame hnone (by simp) rfl (by simp [takeNewHeld]) ?_ ?_
      · intro p hp
        rcases List.mem_append.mp hp with hp | hp
        · exact Or.inl hp
        · obtain ⟨x, hx, rfl⟩ := List.mem_map.mp hp
          exact Or.inr ⟨x, hx, rfl⟩
      · refine le_of_eq ?_
        simp only [joinable, takeNewHeld, List.map_append, List.map_map,
          Function.comp_def, List.map_nil, ← Multiset.coe_add, Multiset.coe_nil]
        abel
  | noHead hat => exact h.same hnone (by simp) rfl rfl rfl
  | takeHead head rest hat hentry hopen hfifo hblocked =>
      exact h.same hnone (by simp) rfl rfl rfl
  | skipHead head rest removal hat hentry hopen hfifo hblocked =>
      exact h.same hnone (by simp) rfl rfl rfl
  | send attempt hat hattempt hphase =>
      exact h.same rfl (by simp [Obs.joins]) rfl rfl rfl
  | retry attempt error hat hattempt hphase =>
      exact h.same rfl (by simp [Obs.joins]) rfl rfl rfl
  | attemptDone attempt outcome result hat hattempt hphase hjudge =>
      exact h.same hnone (by simp) rfl rfl rfl
  | endHeld seq marker follow held removal hat htake hwhy =>
      have hperm := takeHeld_perm htake
      refine h.frame hnone (by simp) rfl (fun x hx => hx) ?_ ?_
      · exact fun p hp => Or.inl (hperm.mem_iff.mpr (List.mem_cons_of_mem _ hp))
      · have hsub : (held.map (fun p => p.1.seq) : Multiset ℕ) ≤
            (s.task.held.map (fun p => p.1.seq) : List ℕ) := by
          have hseqs := hperm.map fun p => p.1.seq
          rw [Multiset.coe_le]
          exact (List.sublist_cons_self _ _).subperm.trans hseqs.symm.subperm
        exact add_le_add le_rfl hsub
  | joinHeld seq marker follow held now hat hopen htake => exact h.join htake
  | woken hat hwake => exact h.same hnone (by simp) rfl rfl rfl
  | dropTask hfree hpoint =>
      refine h.frame hnone (by simp) rfl (fun x hx => hx) (by simp [dropTask]) ?_
      exact add_le_add le_rfl (Multiset.zero_le _)
  | dropLocked rest hat =>
      refine h.frame rfl (by simp [Obs.joins]) rfl (by simp [dropLocked])
        (fun p hp => Or.inl hp) ?_
      have hjoins : joins (s.dropLocked rest).log = joins s.log := by
        simp [dropLocked, Obs.joins]
      unfold joinable
      rw [hjoins]
      exact add_le_add (add_le_add le_rfl (Multiset.zero_le _)) le_rfl
  | dropEntry entry rest hat => exact h.same hnone (by simp) rfl rfl rfl
  | dropEnd hat => exact h.same hnone (by simp) rfl rfl rfl
  | drain => exact h.same hnone (by simp) rfl rfl rfl
  | drainRead d seen hd => exact h.same rfl (by simp [Obs.joins]) rfl rfl rfl
  | drainPark d upto seen hd hwaits => exact h.same hnone (by simp) rfl rfl rfl
  | drainPass d upto seen hd hwaits => exact h.same hnone (by simp) rfl rfl rfl
  | drainWake d upto seen hd hseen => exact h.same hnone (by simp) rfl rfl rfl
  | drainLeave d hd => exact h.same rfl (by simp [Obs.joins]) rfl rfl rfl
  | drainAbandon d => exact h.same hnone (by simp) rfl rfl rfl

theorem joinInv (h : machine.Reachable s) : s.JoinInv :=
  invariant (P := JoinInv) joinInv_init (fun hp hs => hp.step hs) h

/-- What joined was registered. -/
theorem registered_of_joins (h : s.JoinInv) {e : Entry} (he : e ∈ joins s.log) :
    e ∈ registered s.log := by
  obtain ⟨obs, hobs, hin⟩ := List.mem_flatMap.mp he
  cases obs with
  | enqueued entry =>
      cases List.mem_singleton.mp hin
      exact List.mem_filterMap.mpr ⟨_, hobs, rfl⟩
  | joined marker follow =>
      rcases List.mem_append.mp hin with hin | hin
      · exact List.mem_filterMap.mpr ⟨_, hobs, Option.mem_toList.mp hin⟩
      · cases List.mem_singleton.mp hin
        exact List.mem_filterMap.mpr ⟨_, h.joined e follow hobs, rfl⟩
  | _ => cases hin

theorem joins_nodup (h : s.JoinInv) : ((joins s.log).map Entry.seq).Nodup := by
  have hnodup := h.nodup
  unfold joinable at hnodup
  rw [add_assoc] at hnodup
  exact (Multiset.nodup_add.mp hnodup).1

/-! ## When a write joins -/

/-- The numbers and the writes that join at an event: an ordinary write where it is
handed over, unless it ends there, and a held marker where its gate ends `Stored` in
a queue that is not stopped, its follow-up directly before it. -/
def joinsAt (s : Sys) : Event → List (ℕ × Write)
  | .enqueue write _ =>
      if s.st.unqueuedBy write = none then [(s.st.nextSeq, write)] else []
  | .task (.gateEnded seq .stored _) =>
      if s.st.stopped then [] else
        match s.task.held.find? fun item => item.1.seq = seq with
        | some (marker, follow) =>
            follow.toList.map (fun write => (s.st.nextSeq, write)) ++ [(seq, marker.write)]
        | none => []
  | _ => []

/-- An entry by its number and its write. -/
def named (e : Entry) : ℕ × Write := (e.seq, e.write)

theorem takeHeld_find {seq : ℕ} {item : Entry × Option Write} :
    ∀ {held rest : List (Entry × Option Write)}, takeHeld seq held = some (item, rest) →
      held.find? (fun item => item.1.seq = seq) = some item ∧ item.1.seq = seq
  | [], _, h => by simp [takeHeld] at h
  | first :: more, rest, h => by
      unfold takeHeld at h
      split at h
      · rename_i hseq
        cases h
        exact ⟨List.find?_cons_of_pos (by simpa using hseq), hseq⟩
      · rename_i hseq
        obtain ⟨⟨item', rest'⟩, hfound, heq⟩ := Option.map_eq_some_iff.mp h
        cases heq
        obtain ⟨hfind, hitem⟩ := takeHeld_find hfound
        exact ⟨(List.find?_cons_of_neg (by simpa using hseq)).trans hfind, hitem⟩

theorem nextHead_log : s.nextHead.log = s.log := by
  unfold nextHead
  split
  · rfl
  · split
    · rfl
    · split <;> rfl

theorem completeStep_joins {entry : Entry} {result : WriteResult} {stage : Stage} :
    joins (s.completeStep entry result stage).log = joins s.log := by
  cases stage <;> simp [completeStep, Obs.joins]

theorem callStep_joins {chan : Chan} (hs : s.callStep chan = some s') :
    joins s'.log = joins s.log := by
  obtain ⟨call, -, rfl⟩ := Option.map_eq_some_iff.mp hs
  cases call with
  | notify => simp [callNotify, Obs.joins]
  | unqueued write removal stage =>
      cases stage <;> simp [callTable, callAnswer, callReport, Obs.joins]

theorem drainedStep_joins {d : ℕ} {e : DrainEvent} (hs : s.drainedStep d e = some s') :
    joins s'.log = joins s.log := by
  cases e with
  | abandon =>
      cases hs
      rfl
  | wake =>
      simp only [drainedStep] at hs
      split at hs
      · split at hs <;> cases hs
        rfl
      · cases hs
  | _ =>
      simp only [drainedStep] at hs
      split at hs <;> cases hs
      simp [readTarget, setDrain, observe, Obs.joins]

/-- A gate that ends `Stored` brings its marker; any other step of the task brings nothing. -/
theorem taskStep_joins {e : TaskEvent} (hs : s.taskStep e = some s') :
    (joins s'.log).map named = (joins s.log).map named ++ s.joinsAt (.task e) := by
  have hnothing : joins s'.log = joins s.log → s.joinsAt (.task e) = [] →
      (joins s'.log).map named = (joins s.log).map named ++ s.joinsAt (.task e) := by
    intro hsame hnone
    rw [hsame, hnone, List.append_nil]
  cases e with
  | gateEnded seq gate now =>
      simp only [taskStep] at hs
      split at hs
      · rename_i marker follow held hpoint htake
        obtain ⟨hfind, hseq⟩ := takeHeld_find htake
        cases hs
        cases gate with
        | dropped => exact hnothing rfl rfl
        | stored =>
            simp only [gateEnded, joinsAt, hfind]
            split
            · exact (List.append_nil _).symm
            · -- the follow-up gets the next number
              cases follow <;> simp [joinHeld, Obs.joins, named, State.nextEntry, ← hseq]
      · cases hs
  | send =>
      simp only [taskStep] at hs
      split at hs
      · split at hs <;> cases hs
        exact hnothing (by simp [send, setPhase, observe, Obs.joins]) rfl
      · cases hs
  | attemptEnded outcome =>
      simp only [taskStep] at hs
      split at hs
      · split at hs
        · split at hs <;> cases hs
          · exact hnothing (by simp [retry, setPhase, observe, Obs.joins]) rfl
          · exact hnothing rfl rfl
        · cases hs
      · cases hs
  | nextHead =>
      simp only [taskStep] at hs
      split at hs <;> cases hs
      exact hnothing (congrArg joins nextHead_log) rfl
  | dropLocked =>
      simp only [taskStep] at hs
      split at hs <;> cases hs
      exact hnothing (by simp [dropLocked, Obs.joins]) rfl
  | dropNext =>
      simp only [taskStep] at hs
      split at hs
      · rename_i rest _
        cases hs
        cases rest <;> exact hnothing rfl rfl
      · cases hs
  | takeNewHeld =>
      simp only [taskStep] at hs
      split at hs <;> cases hs <;> exact hnothing rfl rfl
  | drop =>
      simp only [taskStep] at hs
      split at hs <;> cases hs <;> exact hnothing rfl rfl
  | _ =>
      simp only [taskStep] at hs
      split at hs
      · split at hs <;> cases hs
        exact hnothing rfl rfl
      · cases hs

/-- What joins in a step is what joins at its event. -/
theorem step_joins {e : Event} (hs : s.step e = some s') :
    (joins s'.log).map named = (joins s.log).map named ++ s.joinsAt e := by
  have hnothing : joins s'.log = joins s.log → s.joinsAt e = [] →
      (joins s'.log).map named = (joins s.log).map named ++ s.joinsAt e := by
    intro hsame hnone
    rw [hsame, hnone, List.append_nil]
  cases e with
  | enqueue write now =>
      cases hs
      simp only [joinsAt]
      split
      · rename_i removal hwhy
        simp [unqueue, Obs.joins, hwhy]
      · rename_i hopen
        simp [enqueue, Obs.joins, hopen, named, State.nextEntry]
  | hold write follow now =>
      cases hs
      refine hnothing ?_ rfl
      split <;> simp [unqueue, hold, Obs.joins]
  | call chan => exact hnothing (callStep_joins hs) rfl
  | stopNow =>
      cases hs
      exact hnothing rfl rfl
  | stopCancel =>
      simp only [step] at hs
      split at hs <;> cases hs
      exact hnothing rfl rfl
  | complete =>
      obtain ⟨c, -, rfl⟩ := Option.map_eq_some_iff.mp hs
      exact hnothing completeStep_joins rfl
  | task event =>
      simp only [step] at hs
      split at hs
      · exact taskStep_joins hs
      · cases hs
  | drain =>
      cases hs
      exact hnothing rfl rfl
  | drained d event => exact hnothing (drainedStep_joins hs) rfl

end Sys

end RunnerKit.Queue
