import RunnerKit.Threads.OpsProtocol

/-!
# The actions of the operations keep the protocol

One lemma for each kind of action of a call: a guard is taken or given back, an item is accepted,
the memory of a thread is written, an agent is taken off a thread, or nothing that a call relies
on changes. Then the steps of the environment.
-/

namespace RunnerKit.Threads.Ops

open Lib
open Jobs (Uuid)
open Delivery (Ended QueueInner Queued TaskPlace)

variable {β D B U E : Type} {settings : Settings β D B U E} {i j : ℕ} {s s' u : Inner β D}
  {t : ThreadRef}

/-! ## Actions that change nothing of a thread -/

/-- What is said of no stream, and refuses nothing. -/
def Obs.plain : Obs β → Bool
  | .queued .. | .unsent .. | .dropped .. | .refused .. => false
  | _ => true

/-- What has no rule and decides nothing either. -/
def Obs.free : Obs β → Bool
  | .unkept .. | .returned .. | .decided .. => false
  | obs => obs.plain

theorem Obs.passes_of_plain {obs : Obs β} (h : obs.plain = true) : obs.passes t = true := by
  cases obs <;> first | rfl | cases h

theorem Obs.plain_of_free {obs : Obs β} (h : obs.free = true) : obs.plain = true := by
  cases obs <;> first | rfl | cases h

theorem Obs.undecided_of_free {obs : Obs β} (h : obs.free = true) : obs.decided? i = none := by
  cases obs <;> first | rfl | cases h

theorem rule_of_free {interval : ℕ} {pre : List (Obs β)} {obs : Obs β} (h : obs.free = true) :
    Rule interval pre obs := by
  cases obs <;> trivial

structure Aside (s s' : Inner β D) : Prop where
  slots : ∀ t ∈ s.slots, t ∈ s'.slots
  order : s'.order = s.order
  memLock : s'.memLock = s.memLock
  mem : s'.mem = s.mem
  queue : s'.queue = s.queue
  worker : ∀ t, s'.worker t = s.worker t ∨ headOf (s'.worker t) = none
  now : s'.now = s.now
  refused : s'.refused = s.refused
  leftovers : s'.leftovers = s.leftovers
  log : ∃ more, s'.log = s.log ++ more ∧ ∀ obs ∈ more, obs.plain = true

theorem MemFits.congr {lib : Library β} (h : MemFits lib t s)
    (hturns : (s'.mem t).turns = (s.mem t).turns)
    (hstream : ∀ message, stream t message s'.log = stream t message s.log)
    (hnow : s.now ≤ s'.now) : MemFits lib t s' where
  fits := fun message => by rw [hturns, hstream]; exact h.fits message
  times := by
    intro message x hx
    rw [hstream] at hx
    exact le_trans (h.times message x hx) hnow
  lastItem := by
    intro message state hstate hopen
    rw [hturns] at hstate
    obtain ⟨hlast, htimes⟩ := h.lastItem message state hstate hopen
    refine ⟨le_trans hlast hnow, fun x hx => htimes x ?_⟩
    rwa [hstream] at hx

theorem not_refused_of_plain {more : List (Obs β)} (h : ∀ obs ∈ more, obs.plain = true)
    {item : Item β} : .refused t item ∉ more :=
  fun hin => by cases h _ hin

theorem Aside.stream (h : Aside s s') (t : ThreadRef) (message : Uuid) :
    stream t message s'.log = Ops.stream t message s.log := by
  obtain ⟨more, hlog, hplain⟩ := h.log
  rw [hlog]
  exact stream_append fun obs hobs => Obs.passes_of_plain (hplain obs hobs)

theorem Aside.refused_iff (h : Aside s s') {item : Item β} :
    .refused t item ∈ s'.log ↔ .refused t item ∈ s.log := by
  obtain ⟨more, hlog, hplain⟩ := h.log
  rw [hlog, List.mem_append]
  exact or_iff_left (not_refused_of_plain hplain)

theorem Aside.rests (h : Aside s s') : Rests i s s' where
  slots := h.slots
  now := le_of_eq h.now.symm
  built := fun hb => by unfold Inner.built at hb ⊢; rwa [h.leftovers]
  order := fun t => by rw [h.order]
  memLock := fun t => by rw [h.memLock]
  turns := fun t _ => by
    rw [h.mem]
    exact ⟨rfl, rfl, h.stream t⟩
  tip := fun t _ => by rw [h.mem]
  idle := fun t _ _ => by
    refine ⟨?_, fun item hitem => h.refused_iff.mp hitem⟩
    rw [h.queue]
    exact SameQueue.refl _
  grown := by
    obtain ⟨more, hlog, -⟩ := h.log
    refine ⟨more, hlog, fun t message agent hholds => Or.inl ?_⟩
    unfold Holds at hholds ⊢
    rwa [h.mem]

theorem Aside.relies (h : Aside s s') (hdecided : decisions i s'.log = decisions i s.log) :
    Relies i s s' :=
  ⟨h.rests, hdecided⟩

theorem Aside.base (h : Aside s s') (hb : Base settings s)
    (hrules : Always (Rule settings.keepaliveInterval) s'.log) : Base settings s' where
  built := by
    intro hbuilt t
    rw [h.order, h.memLock]
    refine hb.built ?_ t
    unfold Inner.built at hbuilt ⊢
    rwa [h.leftovers] at hbuilt
  fits := by
    intro t ht
    rw [h.memLock] at ht
    exact (hb.fits t ht).congr (by rw [h.mem]) (h.stream t) (le_of_eq h.now.symm)
  front := by
    intro t head hhead
    rw [h.queue]
    rcases h.worker t with hw | hw
    · exact hb.front t head (hw ▸ hhead)
    · rw [hw] at hhead
      cases hhead
  refused := by
    intro t item hitem
    rw [h.refused]
    exact hb.refused t item (h.refused_iff.mp hitem)
  slots := by
    intro t ht
    rw [h.mem]
    exact hb.slots t fun hin => ht (h.slots t hin)
  lanes := by
    rw [h.mem]
    exact hb.lanes
  rules := hrules

theorem Aside.good (h : Aside s s') (hb : Base settings s)
    (hrules : Always (Rule settings.keepaliveInterval) s'.log)
    (hdecided : ∀ j, j ≠ i → decisions j s'.log = decisions j s.log) :
    (protocol settings).Good i s s' :=
  ⟨h.base hb hrules, fun j hj => h.relies (hdecided j hj)⟩

/-- Nothing of the thread's state, and nothing in the log. -/
theorem Aside.good_of_log (h : Aside s s') (hb : Base settings s) (hlog : s'.log = s.log) :
    (protocol settings).Good i s s' :=
  h.good hb (hlog ▸ hb.rules) fun j _ => congrArg (decisions j) hlog

theorem aside_observe {obs : Obs β} (h : obs.plain = true) : Aside s (s.observe obs) where
  slots := fun _ h => h
  order := rfl
  memLock := rfl
  mem := rfl
  queue := rfl
  worker := fun _ => Or.inl rfl
  now := rfl
  refused := rfl
  leftovers := rfl
  log := ⟨[obs], rfl, by simpa using h⟩

theorem decisions_observe {obs : Obs β} (h : obs.decided? i = none) :
    decisions i (s.observe obs).log = decisions i s.log :=
  decisions_append (by simpa using h)

theorem good_observe {obs : Obs β} (h : obs.plain = true) (hb : Base settings s)
    (hrule : Rule settings.keepaliveInterval s.log obs)
    (hdecided : ∀ j, j ≠ i → obs.decided? j = none) :
    (protocol settings).Good i s (s.observe obs) :=
  (aside_observe h).good hb (always_snoc.mpr ⟨hb.rules, hrule⟩) fun j hj =>
    decisions_observe (hdecided j hj)

/-- Only what no call relies on differs. -/
theorem aside_same {s s' : Inner β D} (hslots : ∀ t ∈ s.slots, t ∈ s'.slots)
    (horder : s'.order = s.order) (hmemLock : s'.memLock = s.memLock) (hmem : s'.mem = s.mem)
    (hqueue : s'.queue = s.queue) (hworker : s'.worker = s.worker) (hnow : s'.now = s.now)
    (hrefused : s'.refused = s.refused) (hleftovers : s'.leftovers = s.leftovers)
    (hlog : s'.log = s.log) : Aside s s' where
  slots := hslots
  order := horder
  memLock := hmemLock
  mem := hmem
  queue := hqueue
  worker := fun t => Or.inl (congrFun hworker t)
  now := hnow
  refused := hrefused
  leftovers := hleftovers
  log := ⟨[], by rw [hlog, List.append_nil], by simp⟩

theorem aside_addSlot : Aside s (s.addSlot t) := by
  refine aside_same ?_ rfl rfl rfl rfl rfl rfl rfl rfl rfl
  intro t' ht'
  unfold Inner.addSlot
  dsimp only
  split
  · exact ht'
  · exact List.mem_append_left _ ht'

theorem mem_addSlot : t ∈ (s.addSlot t).slots := by
  unfold Inner.addSlot
  dsimp only
  split
  · assumption
  · exact List.mem_append_right _ (List.mem_singleton.mpr rfl)

theorem aside_setShared {c : ℕ} {shared : Shared D} : Aside s (s.setShared c shared) :=
  aside_same (fun _ h => h) rfl rfl rfl rfl rfl rfl rfl rfl rfl

theorem aside_releaseShared {c : ℕ} : Aside s (s.releaseShared i c) := by
  unfold Inner.releaseShared
  split
  · exact aside_setShared
  · exact aside_same (fun _ h => h) rfl rfl rfl rfl rfl rfl rfl rfl rfl

/-- A worker starts. -/
theorem aside_spawned : Aside s (s.setWorker t .spawned) where
  slots := fun _ h => h
  order := rfl
  memLock := rfl
  mem := rfl
  queue := rfl
  worker := by
    intro t'
    by_cases h : t' = t
    · subst t'
      exact Or.inr (by simp [Inner.setWorker, headOf])
    · exact Or.inl (by simp [Inner.setWorker, h])
  now := rfl
  refused := rfl
  leftovers := rfl
  log := ⟨[], (List.append_nil _).symm, by simp⟩

/-! ## Guards -/

theorem update_take {f : ThreadRef → Option ℕ} (hfree : f t = none) (hj : j ≠ i)
    (t' : ThreadRef) : Function.update f t (some i) t' = some j ↔ f t' = some j := by
  by_cases h : t' = t
  · subst t'
    simp [hfree, hj.symm]
  · simp [h]

theorem update_release {f : ThreadRef → Option ℕ} (hheld : f t = some i) (hj : j ≠ i)
    (t' : ThreadRef) : Function.update f t none t' = some j ↔ f t' = some j := by
  by_cases h : t' = t
  · subst t'
    simp [hheld, hj.symm]
  · simp [h]

/-- Only who holds what has changed. -/
structure SameBut (s s' : Inner β D) : Prop where
  slots : s'.slots = s.slots
  mem : s'.mem = s.mem
  queue : s'.queue = s.queue
  worker : s'.worker = s.worker
  now : s'.now = s.now
  refused : s'.refused = s.refused
  leftovers : s'.leftovers = s.leftovers
  log : s'.log = s.log

theorem SameBut.relies (h : SameBut s s')
    (horder : ∀ t, s'.order t = some j ↔ s.order t = some j)
    (hlock : ∀ t, s'.memLock t = some j ↔ s.memLock t = some j) : Relies j s s' where
  decided := by rw [h.log]
  slots := fun t ht => h.slots ▸ ht
  now := le_of_eq h.now.symm
  built := fun hb => by unfold Inner.built at hb ⊢; rwa [h.leftovers]
  order := horder
  memLock := hlock
  turns := fun t _ => by
    rw [h.mem, h.log]
    exact ⟨rfl, rfl, fun _ => rfl⟩
  tip := fun t _ => by rw [h.mem]
  idle := fun t _ _ => by
    refine ⟨?_, fun item hitem => h.log ▸ hitem⟩
    rw [h.queue]
    exact SameQueue.refl _
  grown := by
    refine ⟨[], by rw [h.log, List.append_nil], fun t message agent hholds => Or.inl ?_⟩
    unfold Holds at hholds ⊢
    rwa [h.mem]

theorem SameBut.base (h : SameBut s s') (hb : Base settings s)
    (hbuilt : s'.built = false → ∀ t, s'.order t = none ∧ s'.memLock t = none)
    (hfits : ∀ t, s'.memLock t = none → s.memLock t = none ∨ MemFits settings.lib t s) :
    Base settings s' where
  built := hbuilt
  fits := by
    intro t ht
    have hfit : MemFits settings.lib t s := (hfits t ht).elim (hb.fits t) id
    exact hfit.congr (by rw [h.mem]) (fun _ => by rw [h.log]) (le_of_eq h.now.symm)
  front := fun t head hhead => by
    rw [h.queue]
    exact hb.front t head (h.worker ▸ hhead)
  refused := fun t item hitem => by
    rw [h.refused]
    exact hb.refused t item (h.log ▸ hitem)
  slots := fun t ht => by
    rw [h.mem]
    exact hb.slots t (h.slots ▸ ht)
  lanes := by
    rw [h.mem]
    exact hb.lanes
  rules := h.log ▸ hb.rules

theorem good_takeOrder (hb : Base settings s) (hbuilt : s.built = true)
    (hfree : s.orderFree t = true) : (protocol settings).Good i s (s.takeOrder i t) := by
  have hsame : SameBut s (s.takeOrder i t) := ⟨rfl, rfl, rfl, rfl, rfl, rfl, rfl, rfl⟩
  refine ⟨hsame.base hb ?_ fun t' ht' => Or.inl ht', fun j hj => hsame.relies ?_ fun _ => Iff.rfl⟩
  · intro hnot
    exact absurd (hnot.symm.trans hbuilt) Bool.false_ne_true
  · exact update_take (Option.isNone_iff_eq_none.mp hfree) hj

theorem good_releaseOrder (hb : Base settings s) :
    (protocol settings).Good i s (s.releaseOrder i t) := by
  unfold Inner.releaseOrder
  split
  · rename_i hheld
    have hsame : SameBut s { s with order := Function.update s.order t none } :=
      ⟨rfl, rfl, rfl, rfl, rfl, rfl, rfl, rfl⟩
    refine ⟨hsame.base hb ?_ fun t' ht' => Or.inl ht', fun j hj => hsame.relies ?_ fun _ => Iff.rfl⟩
    · intro hnot
      have hnone := (hb.built hnot t).1
      rw [hheld] at hnone
      cases hnone
    · exact update_release hheld hj
  · exact Protocol.Good.same hb

theorem good_takeMem (hb : Base settings s) (hbuilt : s.built = true)
    (hfree : s.memFree t = true) : (protocol settings).Good i s (s.takeMem i t) := by
  have hsame : SameBut s (s.takeMem i t) := ⟨rfl, rfl, rfl, rfl, rfl, rfl, rfl, rfl⟩
  refine ⟨hsame.base hb ?_ ?_, fun j hj => hsame.relies (fun _ => Iff.rfl) ?_⟩
  · intro hnot
    exact absurd (hnot.symm.trans hbuilt) Bool.false_ne_true
  · intro t' ht'
    by_cases h : t' = t
    · subst t'
      simp [Inner.takeMem] at ht'
    · exact Or.inl (by simpa [Inner.takeMem, h] using ht')
  · exact update_take (Option.isNone_iff_eq_none.mp hfree) hj

/-- What the call holds of the memories fits the log. -/
def Calm (settings : Settings β D B U E) (i : ℕ) (s : Inner β D) : Prop :=
  ∀ t, s.memLock t = some i → MemFits settings.lib t s

theorem good_releaseMem (hb : Base settings s) (hcalm : Calm settings i s) :
    (protocol settings).Good i s (s.releaseMem i t) := by
  unfold Inner.releaseMem
  split
  · rename_i hheld
    have hsame : SameBut s { s with memLock := Function.update s.memLock t none } :=
      ⟨rfl, rfl, rfl, rfl, rfl, rfl, rfl, rfl⟩
    refine ⟨hsame.base hb ?_ ?_, fun j hj => hsame.relies (fun _ => Iff.rfl) ?_⟩
    · intro hnot
      have hnone := (hb.built hnot t).2
      rw [hheld] at hnone
      cases hnone
    · intro t' ht'
      by_cases h : t' = t
      · subst t'
        exact Or.inr (hcalm _ hheld)
      · exact Or.inl (by simpa [h] using ht')
    · exact update_release hheld hj
  · exact Protocol.Good.same hb

/-! ## Writing -/

theorem good_setMem {mem : Mem β} (hb : Base settings s) (hlock : s.memLock t = some i)
    (hturns : s.order t = some i ∨
      mem.turns = (s.mem t).turns ∧ mem.responses = (s.mem t).responses)
    (hholds : ∀ message state, (s.mem t).turns.lookup message = some state →
      ∃ state', mem.turns.lookup message = some state' ∧ state'.agent = state.agent)
    (hslot : t ∈ s.slots ∨ mem.turns = (s.mem t).turns)
    (hlanes : ∀ entry response, mem.responses.lookup entry = some response →
      response.control.thread = t) :
    (protocol settings).Good i s (s.setMem t mem) := by
  have hsame : ∀ t', t' ≠ t → (s.setMem t mem).mem t' = s.mem t' := fun t' ht' => by
    simp [Inner.setMem, ht']
  have hself : (s.setMem t mem).mem t = mem := by simp [Inner.setMem]
  refine ⟨⟨hb.built, ?_, hb.front, hb.refused, ?_, ?_, hb.rules⟩, fun j hj => ?_⟩
  · intro t' ht'
    have hne : t' ≠ t := by
      rintro rfl
      rw [show (s.setMem t' mem).memLock t' = s.memLock t' from rfl, hlock] at ht'
      cases ht'
    exact (hb.fits t' ht').congr (by rw [hsame t' hne]) (fun _ => rfl) (le_refl _)
  · intro t' ht'
    by_cases h : t' = t
    · subst t'
      rcases hslot with hin | heq
      · exact absurd hin ht'
      · rw [hself, heq]
        exact hb.slots t ht'
    · rw [hsame t' h]
      exact hb.slots t' ht'
  · intro t' entry response hresponse
    by_cases h : t' = t
    · subst t'
      exact hlanes entry response (by rwa [hself] at hresponse)
    · exact hb.lanes t' entry response (by rwa [hsame t' h] at hresponse)
  · refine ⟨⟨fun _ h => h, le_refl _, id, fun _ => Iff.rfl, fun _ => Iff.rfl, ?_, ?_,
      fun _ _ _ => ⟨SameQueue.refl _, fun _ h => h⟩, ?_⟩, rfl⟩
    · intro t' ht'
      by_cases h : t' = t
      · subst t'
        rcases ht' with ho | hl
        · rcases hturns with ho' | ⟨hts, hrs⟩
          · exact absurd (Option.some.inj (ho.symm.trans ho')) hj
          · rw [hself]
            exact ⟨hts, hrs, fun _ => rfl⟩
        · exact absurd (Option.some.inj (hl.symm.trans hlock)) hj
      · rw [hsame t' h]
        exact ⟨rfl, rfl, fun _ => rfl⟩
    · intro t' ht'
      have hne : t' ≠ t := by
        rintro rfl
        exact absurd (Option.some.inj (ht'.symm.trans hlock)) hj
      rw [hsame t' hne]
    · refine ⟨[], (List.append_nil _).symm, ?_⟩
      rintro t' message agent ⟨state, hstate, hagent⟩
      left
      by_cases h : t' = t
      · subst t'
        obtain ⟨state', hstate', hagent'⟩ := hholds message state hstate
        exact ⟨state', by rw [hself]; exact hstate', hagent'.trans hagent⟩
      · exact ⟨state, by rw [hsame t' h]; exact hstate, hagent⟩

theorem good_setTip {tip : Option Uuid} (hb : Base settings s) (hlock : s.memLock t = some i) :
    (protocol settings).Good i s (s.setTip t tip) :=
  good_setMem hb hlock (Or.inr ⟨rfl, rfl⟩) (fun _ state h => ⟨state, h, rfl⟩) (Or.inr rfl)
    (hb.lanes t)

/-- Another call than the one that holds the thread relies on nothing there. -/
theorem good_thread (more : List (Obs β)) (hb : Base settings s) (horder : s.order t = some i)
    (hlock : s.memLock t = some i)
    (hkept : s'.slots = s.slots ∧ s'.now = s.now ∧ s'.leftovers = s.leftovers ∧
      s'.order = s.order ∧ s'.memLock = s.memLock ∧ s'.refused = s.refused ∧
      s'.worker = s.worker)
    (hmem : ∀ t', t' ≠ t → s'.mem t' = s.mem t')
    (hqueue : ∀ t', t' ≠ t → s'.queue t' = s.queue t')
    (hhead : ∀ head, (s.queue t).items.head? = some head →
      (s'.queue t).items.head? = some head)
    (hlog : s'.log = s.log ++ more)
    (hpasses : ∀ t', t' ≠ t → ∀ obs ∈ more, obs.passes t' = true)
    (hrefused : ∀ t' item, .refused t' item ∉ more)
    (hdecided : ∀ j, ∀ obs ∈ more, obs.decided? j = none)
    (hslots : t ∈ s.slots ∨ (s'.mem t).turns = ∅)
    (hlanes : ∀ entry response, (s'.mem t).responses.lookup entry = some response →
      response.control.thread = t)
    (hrules : Always (Rule settings.keepaliveInterval) s'.log)
    (hholds : ∀ message agent, Holds s t message agent →
      Holds s' t message agent ∨ ∃ obs ∈ more, obs.drops t message = true) :
    (protocol settings).Good i s s' := by
  obtain ⟨hs, hnow, hleft, ho, hl, hr, hw⟩ := hkept
  have hstream : ∀ t', t' ≠ t → ∀ message, stream t' message s'.log = stream t' message s.log :=
    fun t' ht' message => by
      rw [hlog]
      exact stream_append (hpasses t' ht')
  have hin : ∀ {t' item}, .refused t' item ∈ s'.log → .refused t' item ∈ s.log := by
    intro t' item hitem
    rw [hlog] at hitem
    exact (List.mem_append.mp hitem).resolve_right (hrefused t' item)
  have hbuilt : s'.built = s.built := by
    unfold Inner.built
    rw [hleft]
  refine ⟨⟨?_, ?_, ?_, ?_, ?_, ?_, hrules⟩, fun j hj => ?_⟩
  · intro hnot t'
    rw [ho, hl]
    exact hb.built (hbuilt ▸ hnot) t'
  · intro t' ht'
    rw [hl] at ht'
    have hne : t' ≠ t := by
      rintro rfl
      rw [hlock] at ht'
      cases ht'
    exact (hb.fits t' ht').congr (by rw [hmem t' hne]) (hstream t' hne) (le_of_eq hnow.symm)
  · intro t' head h
    rw [hw] at h
    by_cases hne : t' = t
    · subst t'
      exact hhead head (hb.front t head h)
    · rw [hqueue t' hne]
      exact hb.front t' head h
  · intro t' item hitem
    rw [hr]
    exact hb.refused t' item (hin hitem)
  · intro t' ht'
    rw [hs] at ht'
    by_cases hne : t' = t
    · subst t'
      exact hslots.resolve_left ht'
    · rw [hmem t' hne]
      exact hb.slots t' ht'
  · intro t' entry response hresponse
    by_cases hne : t' = t
    · subst t'
      exact hlanes entry response hresponse
    · exact hb.lanes t' entry response (by rwa [hmem t' hne] at hresponse)
  · have hother : ∀ t', s.order t' = some j ∨ s.memLock t' = some j → t' ≠ t := by
      rintro t' h rfl
      rcases h with h | h
      · exact hj (Option.some.inj (h.symm.trans horder))
      · exact hj (Option.some.inj (h.symm.trans hlock))
    refine ⟨⟨fun t' ht' => hs ▸ ht', le_of_eq hnow.symm, fun hb' => hbuilt ▸ hb',
      fun _ => by rw [ho], fun _ => by rw [hl], ?_, ?_, ?_, ?_⟩,
      hlog ▸ decisions_append (hdecided j)⟩
    · intro t' ht'
      rw [hmem t' (hother t' ht')]
      exact ⟨rfl, rfl, hstream t' (hother t' ht')⟩
    · intro t' ht'
      rw [hmem t' (hother t' (Or.inr ht'))]
    · intro t' ht' _
      refine ⟨?_, fun item hitem => hin hitem⟩
      rw [hqueue t' (hother t' (Or.inl ht'))]
      exact SameQueue.refl _
    · refine ⟨more, hlog, fun t' message agent h => ?_⟩
      by_cases hne : t' = t
      · subst t'
        exact hholds message agent h
      · left
        unfold Holds at h ⊢
        rwa [hmem t' hne]

theorem head_append {queue : QueueInner β} {head : Queued β} {item : Queued β}
    (h : queue.items.head? = some head) : (queue.items ++ [item]).head? = some head := by
  rw [List.head?_append, h]
  rfl

theorem good_enqueued {item : Item β} {no : ℕ} (hb : Base settings s)
    (horder : s.order t = some i) (hlock : s.memLock t = some i) (hslot : t ∈ s.slots)
    (hrule : isKeepalive item = true → KeepaliveDue settings.keepaliveInterval s.log t
      item.message s.now (s.queue t).items.length) :
    (protocol settings).Good i s (s.enqueued i t item no) := by
  unfold Inner.enqueued
  split
  · refine good_thread [.unsent i t item s.now (s.queue t).items.length,
        .report ⟨.unsent, t, item.message, item.kind, item.id, none⟩] hb horder hlock
      ⟨rfl, rfl, rfl, rfl, rfl, rfl, rfl⟩ (fun _ _ => rfl) (fun _ _ => rfl) (fun _ h => h)
      (by simp [Inner.observe]) ?_ (by simp) (by simp [Obs.decided?]) (Or.inl hslot) (hb.lanes t) ?_
      (fun _ _ h => Or.inl h)
    · intro t' ht' obs hobs
      rcases List.mem_cons.mp hobs with rfl | hobs
      · exact decide_eq_true (Ne.symm ht')
      · obtain rfl := List.mem_singleton.mp hobs
        rfl
    · exact always_snoc.mpr ⟨always_snoc.mpr ⟨hb.rules, hrule⟩, trivial⟩
  · refine good_thread [.queued i t item s.now (s.queue t).items.length] hb horder hlock
      ⟨rfl, rfl, rfl, rfl, rfl, rfl, rfl⟩ (fun _ _ => rfl) ?_ ?_ rfl ?_ (by simp)
      (by simp [Obs.decided?]) (Or.inl hslot) (hb.lanes t) (always_snoc.mpr ⟨hb.rules, hrule⟩)
      (fun _ _ h => Or.inl h)
    · intro t' ht'
      simp [Inner.observe, Inner.push, Inner.setQueue, ht']
    · intro head hhead
      simpa [Inner.observe, Inner.push, Inner.setQueue] using head_append hhead
    · intro t' ht' obs hobs
      obtain rfl := List.mem_singleton.mp hobs
      exact decide_eq_true (Ne.symm ht')

theorem Mem.mem_turnsOf {mem : Mem β} {agent message : Uuid} :
    message ∈ mem.turnsOf agent ↔
      ∃ state, mem.turns.lookup message = some state ∧ state.agent = agent := by
  unfold Mem.turnsOf
  rw [← AList.mem_keys, ← AList.lookup_isSome, Table.lookup_retain, Option.isSome_iff_exists]
  simp [Option.filter_eq_some_iff]

theorem Mem.lookup_without {mem : Mem β} {agent message : Uuid} :
    (mem.without agent).turns.lookup message =
      (mem.turns.lookup message).filter fun state => state.agent ≠ agent :=
  Table.lookup_retain _ _ _

theorem good_dropAgent {agent : Uuid} (hb : Base settings s) (horder : s.order t = some i)
    (hlock : s.memLock t = some i) : (protocol settings).Good i s (s.dropAgent i t agent) := by
  have hself : (s.dropAgent i t agent).mem t = (s.mem t).without agent := by
    simp [Inner.dropAgent, Inner.observe, Inner.setMem]
  refine good_thread [.dropped i t agent ((s.mem t).turnsOf agent)] hb horder hlock
    ⟨rfl, rfl, rfl, rfl, rfl, rfl, rfl⟩ ?_ (fun _ _ => rfl) (fun _ h => h) rfl ?_ (by simp)
    (by simp [Obs.decided?]) ?_ ?_ (always_snoc.mpr ⟨hb.rules, trivial⟩) ?_
  · intro t' ht'
    simp [Inner.dropAgent, Inner.observe, Inner.setMem, ht']
  · intro t' ht' obs hobs
    obtain rfl := List.mem_singleton.mp hobs
    exact decide_eq_true (Ne.symm ht')
  · by_cases h : t ∈ s.slots
    · exact Or.inl h
    · right
      rw [hself]
      simp [Mem.without, hb.slots t h]
  · intro entry response hresponse
    rw [hself] at hresponse
    have hheld := hresponse
    simp only [Mem.without, Table.lookup_retain, Option.filter_eq_some_iff] at hheld
    exact hb.lanes t entry response hheld.1
  · rintro message holder ⟨state, hstate, hholder⟩
    by_cases h : state.agent = agent
    · right
      refine ⟨_, List.mem_singleton.mpr rfl, decide_eq_true ⟨rfl, ?_⟩⟩
      exact Mem.mem_turnsOf.mpr ⟨state, hstate, h⟩
    · left
      refine ⟨state, ?_, hholder⟩
      rw [hself, Mem.lookup_without, hstate, Option.filter_some]
      simp [h]

/-! ## The environment -/

/-- A section of the worker of a thread, or of `new`. -/
structure Worked (t : ThreadRef) (s s' : Inner β D) : Prop where
  slots : ∀ t ∈ s.slots, t ∈ s'.slots
  order : s'.order = s.order
  memLock : s'.memLock = s.memLock
  mem : s'.mem = s.mem
  now : s'.now = s.now
  built : s.built = true → s'.built = true
  queue : ∀ t', t' ≠ t → s'.queue t' = s.queue t'
  worker : ∀ t', t' ≠ t → s'.worker t' = s.worker t'
  front : ∀ head, headOf (s'.worker t) = some head → (s'.queue t).items.head? = some head
  marked : ∀ message, s.refused message = true → s'.refused message = true
  log : ∃ more, s'.log = s.log ++ more ∧ ∀ obs ∈ more, obs.free = true ∨
    ∃ item, obs = .refused t item ∧ s'.refused item.message = true ∧ (s.queue t).items ≠ []
  idle : s.built = true → (s.queue t).items = [] → SameQueue (s.queue t) (s'.queue t)

theorem Worked.kept (h : Worked t s s') (hb : Base settings s) :
    Base settings s' ∧ ∀ j, Relies j s s' := by
  obtain ⟨more, hlog, hmore⟩ := h.log
  have hpasses : ∀ t', ∀ obs ∈ more, obs.passes t' = true := by
    intro t' obs hobs
    rcases hmore obs hobs with hfree | ⟨item, rfl, -, -⟩
    · exact Obs.passes_of_plain (Obs.plain_of_free hfree)
    · rfl
  have hstream : ∀ t' message, stream t' message s'.log = stream t' message s.log :=
    fun t' message => by
      rw [hlog]
      exact stream_append (hpasses t')
  have hin : ∀ {t' item}, .refused t' item ∈ s'.log → .refused t' item ∈ s.log ∨
      t' = t ∧ s'.refused item.message = true ∧ (s.queue t).items ≠ [] := by
    intro t' item hitem
    rw [hlog] at hitem
    rcases List.mem_append.mp hitem with hitem | hitem
    · exact Or.inl hitem
    · rcases hmore _ hitem with hfree | ⟨item', heq, hmarked, hne⟩
      · cases hfree
      · cases heq
        exact Or.inr ⟨rfl, hmarked, hne⟩
  refine ⟨⟨?_, ?_, ?_, ?_, ?_, ?_, ?_⟩, fun j => ?_⟩
  · intro hnot t'
    rw [h.order, h.memLock]
    refine hb.built (Bool.eq_false_iff.mpr fun hbuilt => ?_) t'
    exact absurd (hnot.symm.trans (h.built hbuilt)) Bool.false_ne_true
  · intro t' ht'
    rw [h.memLock] at ht'
    exact (hb.fits t' ht').congr (by rw [h.mem]) (hstream t') (le_of_eq h.now.symm)
  · intro t' head hhead
    by_cases hne : t' = t
    · subst t'
      exact h.front head hhead
    · rw [h.queue t' hne]
      exact hb.front t' head (h.worker t' hne ▸ hhead)
  · intro t' item hitem
    rcases hin hitem with hitem | ⟨-, hmarked, -⟩
    · exact h.marked _ (hb.refused t' item hitem)
    · exact hmarked
  · intro t' ht'
    rw [h.mem]
    exact hb.slots t' fun hslot => ht' (h.slots t' hslot)
  · rw [h.mem]
    exact hb.lanes
  · rw [hlog]
    refine always_append hb.rules fun obs hobs pre => ?_
    rcases hmore obs hobs with hfree | ⟨item, rfl, -, -⟩
    · exact rule_of_free hfree
    · trivial
  · refine ⟨⟨h.slots, le_of_eq h.now.symm, h.built, fun _ => by rw [h.order],
      fun _ => by rw [h.memLock], fun t' _ => ⟨by rw [h.mem], by rw [h.mem], hstream t'⟩,
      fun t' _ => by rw [h.mem], ?_, more, hlog, fun t' message agent hholds => Or.inl ?_⟩,
      hlog ▸ decisions_append fun obs hobs => ?_⟩
    · intro t' ht' hitems
      have hbuilt : s.built = true := by
        by_contra hnot
        have hnone := (hb.built (Bool.eq_false_iff.mpr hnot) t').1
        rw [ht'] at hnone
        cases hnone
      refine ⟨?_, fun item hitem => ?_⟩
      · by_cases hne : t' = t
        · subst t'
          exact h.idle hbuilt hitems
        · rw [h.queue t' hne]
          exact SameQueue.refl _
      · rcases hin hitem with hitem | ⟨rfl, -, hne⟩
        · exact hitem
        · exact absurd hitems hne
    · unfold Holds at hholds ⊢
      rwa [h.mem]
    · rcases hmore obs hobs with hfree | ⟨item, rfl, -, -⟩
      · exact Obs.undecided_of_free hfree
      · rfl

/-- The worker goes to its next place. -/
theorem worked_setWorker {place : TaskPlace β}
    (hfront : ∀ head, headOf place = some head → (s.queue t).items.head? = some head) :
    Worked t s (s.setWorker t place) where
  slots := fun _ h => h
  order := rfl
  memLock := rfl
  mem := rfl
  now := rfl
  built := id
  queue := fun _ _ => rfl
  worker := fun t' ht' => by simp [Inner.setWorker, ht']
  front := fun head hhead => hfront head (by simpa [Inner.setWorker] using hhead)
  marked := fun _ h => h
  log := ⟨[], (List.append_nil _).symm, by simp⟩
  idle := fun _ _ => SameQueue.refl _

theorem Worked.of_head {place : TaskPlace β} {head : Queued β}
    (hfront : (s.queue t).items.head? = some head) (hplace : headOf place = some head) :
    Worked t s (s.setWorker t place) := by
  refine worked_setWorker fun head' hhead' => ?_
  rw [hplace] at hhead'
  cases hhead'
  exact hfront

theorem work_kept (hb : Base settings s) (h : s.work t = some s') : Worked t s s' := by
  have hfront := hb.front t
  unfold Inner.work at h
  split at h
  · cases h
    exact worked_setWorker fun head hhead => by cases hhead
  · split at h
    · rename_i hitems
      cases h
      refine ⟨fun _ h => h, rfl, rfl, rfl, rfl, id, fun t' ht' => ?_, fun t' ht' => ?_,
        fun head hhead => ?_, fun _ h => h, ⟨[], (List.append_nil _).symm, by simp⟩,
        fun _ _ => ?_⟩
      · simp [Inner.setWorker, Inner.setQueue, ht']
      · simp [Inner.setWorker, Inner.setQueue, ht']
      · simp [Inner.setWorker, headOf] at hhead
      · simp [SameQueue, Inner.setWorker, Inner.setQueue]
    · rename_i head rest hitems
      cases h
      exact Worked.of_head (by rw [hitems]; rfl) rfl
  · rename_i head hw
    have hhead := hfront head (by rw [hw]; rfl)
    split at h
    · cases h
      exact Worked.of_head hhead rfl
    · cases h
      exact Worked.of_head hhead rfl
  · rename_i head status hw
    cases h
    exact Worked.of_head (hfront head (by rw [hw]; rfl)) rfl
  · rename_i head error hw
    have hhead := hfront head (by rw [hw]; rfl)
    have hne : (s.queue t).items ≠ [] := by
      intro hnil
      rw [hnil] at hhead
      cases hhead
    split at h
    · cases h
      refine ⟨fun _ h => h, rfl, rfl, rfl, rfl, id, fun t' ht' => ?_, fun t' ht' => ?_,
        fun head' hhead' => ?_, fun _ h => h, ⟨[], (List.append_nil _).symm, by simp⟩,
        fun _ hnil => absurd hnil hne⟩
      · simp [Inner.setWorker, Inner.setQueue, ht']
      · simp [Inner.setWorker, Inner.setQueue, ht']
      · simp only [Inner.setWorker, Function.update_self, headOf, Option.some.injEq] at hhead'
        subst hhead'
        simpa [Inner.setWorker, Inner.setQueue] using hhead
    · split at h
      · cases h
        refine ⟨fun _ h => h, rfl, rfl, rfl, rfl, id, fun _ _ => rfl, fun t' ht' => ?_,
          fun head' hhead' => ?_, fun message hm => ?_, ?_, fun _ hnil => absurd hnil hne⟩
        · simp [Inner.setWorker, Inner.refuse, Inner.observe, ht']
        · simp only [Inner.setWorker, Function.update_self, headOf, Option.some.injEq] at hhead'
          subst hhead'
          exact hhead
        · simp only [Inner.setWorker, Inner.refuse, Inner.observe, Function.update_apply]
          split
          · rfl
          · exact hm
        · refine ⟨[.refused t head.item], rfl, fun obs hobs => Or.inr ⟨head.item, ?_, ?_, hne⟩⟩
          · exact List.mem_singleton.mp hobs
          · simp [Inner.setWorker, Inner.refuse, Inner.observe]
      · cases h
        exact Worked.of_head hhead rfl
  · rename_i head how hw
    have hhead := hfront head (by rw [hw]; rfl)
    cases h
    refine ⟨fun _ h => h, rfl, rfl, rfl, rfl, id, fun _ _ => rfl, fun t' ht' => ?_,
      fun head' hhead' => ?_, fun _ h => h, ⟨[], (List.append_nil _).symm, by simp⟩,
      fun _ _ => SameQueue.refl _⟩
    · simp [Inner.setWorker, ht']
    · simp only [Inner.setWorker, Function.update_self, headOf, Option.some.injEq] at hhead'
      subst hhead'
      exact hhead
  · rename_i head how hw
    have hhead := hfront head (by rw [hw]; rfl)
    cases h
    refine ⟨fun _ h => h, rfl, rfl, rfl, rfl, id, fun t' ht' => ?_, fun t' ht' => ?_,
      fun head' hhead' => ?_, fun _ h => h,
      ⟨[.ended t head.item how], rfl, fun obs hobs => ?_⟩, fun _ hnil => ?_⟩
    · simp [Inner.setWorker, Inner.pop, Inner.setQueue, Inner.observe, ht']
    · simp [Inner.setWorker, Inner.pop, Inner.setQueue, Inner.observe, ht']
    · simp [Inner.setWorker, Inner.observe, headOf] at hhead'
    · obtain rfl := List.mem_singleton.mp hobs
      exact Or.inl rfl
    · rw [hnil] at hhead
      cases hhead
  · cases h

theorem keepNext_kept (hb : Base settings s) (h : s.keepNext = some s') :
    ∃ t, Worked t s s' := by
  unfold Inner.keepNext at h
  split at h
  · cases h
  · rename_i t item leftovers hleft
    have hunbuilt : s.built ≠ true := by
      unfold Inner.built
      rw [hleft]
      exact Bool.false_ne_true
    refine ⟨t, ?_⟩
    have hslots : ∀ t' ∈ s.slots, t' ∈ (s.addSlot t).slots := aside_addSlot.slots
    have hlog : ∀ obs ∈ [Obs.leftover t item], obs.free = true ∨
        ∃ item', obs = .refused t item' ∧ s'.refused item'.message = true ∧
          (s.queue t).items ≠ [] := by
      intro obs hobs
      obtain rfl := List.mem_singleton.mp hobs
      exact Or.inl rfl
    split at h
    · cases h
      refine ⟨hslots, rfl, rfl, rfl, rfl, fun hb' => absurd hb' hunbuilt, fun t' ht' => ?_,
        fun _ _ => rfl, fun head hhead => ?_, fun _ h => h, ⟨_, rfl, hlog⟩,
        fun hb' => absurd hb' hunbuilt⟩
      · simp [Inner.observe, Inner.push, Inner.setQueue, Inner.addSlot, ht']
      · have hhead' := hb.front t head hhead
        simpa [Inner.observe, Inner.push, Inner.setQueue, Inner.addSlot] using head_append hhead'
    · cases h
      refine ⟨hslots, rfl, rfl, rfl, rfl, fun hb' => absurd hb' hunbuilt, fun t' ht' => ?_,
        fun t' ht' => ?_, fun head hhead => ?_, fun _ h => h, ⟨_, rfl, hlog⟩,
        fun hb' => absurd hb' hunbuilt⟩
      · simp [Inner.setWorker, Inner.observe, Inner.push, Inner.setQueue, Inner.addSlot, ht']
      · simp [Inner.setWorker, Inner.observe, Inner.push, Inner.setQueue, Inner.addSlot, ht']
      · simp [Inner.setWorker, headOf] at hhead

theorem env_kept {e : Env} (hb : Base settings s) (h : s.env e = some s') :
    Base settings s' ∧ ∀ j, Relies j s s' := by
  cases e with
  | keep =>
      obtain ⟨t, hworked⟩ := keepNext_kept hb h
      exact hworked.kept hb
  | work t => exact (work_kept hb h).kept hb
  | answer t answer =>
      simp only [Inner.env] at h
      split at h
      · rename_i head hw
        cases h
        exact (Worked.of_head (hb.front t head (by rw [hw]; rfl)) rfl).kept hb
      · cases h
  | goOn t =>
      simp only [Inner.env] at h
      split at h
      · cases h
        exact (worked_setWorker fun head hhead => by cases hhead).kept hb
      · cases h
        exact (worked_setWorker fun head hhead => by cases hhead).kept hb
      · cases h
  | cut t =>
      have hcut : Worked t s (s.setWorker t .cut) :=
        worked_setWorker fun head hhead => by cases hhead
      simp only [Inner.env] at h
      split at h
      all_goals first
        | cases h
        | (split at h
           · cases h
             exact hcut.kept hb
           · cases h)
  | stop =>
      simp only [Inner.env] at h
      split at h
      · cases h
        have haside : Aside s { s with stopped := true } :=
          aside_same (fun _ h => h) rfl rfl rfl rfl rfl rfl rfl rfl rfl
        exact ⟨haside.base hb hb.rules, fun _ => haside.relies rfl⟩
      · cases h
  | tick =>
      cases h
      refine ⟨⟨hb.built, fun t ht => ?_, hb.front, hb.refused, hb.slots,
        hb.lanes, hb.rules⟩, fun j => ?_⟩
      · exact (hb.fits t ht).congr rfl (fun _ => rfl) (Nat.le_succ _)
      · exact ⟨⟨fun _ h => h, Nat.le_succ _, id, fun _ => Iff.rfl, fun _ => Iff.rfl,
          fun _ _ => ⟨rfl, rfl, fun _ => rfl⟩, fun _ _ => rfl,
          fun _ _ _ => ⟨SameQueue.refl _, fun _ h => h⟩,
          [], (List.append_nil _).symm, fun _ _ _ h => Or.inl h⟩, rfl⟩

end RunnerKit.Threads.Ops
