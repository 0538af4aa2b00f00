import RunnerKit.Toolkit.Drain

/-!
# The registries of the runs and of their closings

Which runs the two registries hold, by where each run stands: a run is
registered from its start until its closing has ended, and its closing is held
from the end of its slot until it removes itself or the drain takes it. A run is
in one slot at most, and an id names one run.
-/

namespace RunnerKit.Toolkit.Drain

open RunnerKit.Jobs RunnerKit.Queue RunnerKit.Lib

/-! ## Where a run can stand -/

def Slot.run : Slot → Option ℕ
  | .executing r | .forgetting r | .spawned r | .added r => some r
  | .idle | .ended => none

/-- Where the run of a slot stands. -/
def Slot.place : Slot → Place
  | .executing _ => .executing
  | .forgetting _ => .refusing
  | .spawned _ | .added _ => .spawned
  | .idle | .ended => .unknown

namespace Place

def inSlot : Place → Bool
  | .executing | .refusing | .spawned => true
  | _ => false

def inClosings : Place → Bool
  | .closing | .closed | .queueTaken => true
  | _ => false

/-- The run is registered. -/
def registered (place : Place) : Bool :=
  place.inSlot || place.inClosings || place == .removed

/-- The run is not registered, or not any more. -/
def out : Place → Bool
  | .unknown | .unopened | .forgotten => true
  | _ => false

/-- The record still has the queue it was given. -/
def keepsQueue : Place → Bool
  | .executing | .spawned | .closing => true
  | _ => false

def noQueue : Place → Bool
  | .queueTaken | .removed | .forgotten => true
  | _ => false

/-- Nothing moves the run any more. -/
def settled : Place → Bool
  | .unknown | .abandoned | .unopened | .forgotten | .aborted => true
  | _ => false

theorem not_registered {place : Place} (h : place.settled = true) :
    place.registered = false := by
  cases place <;> first | rfl | cases h

end Place

theorem Slot.place_inSlot {slot : Slot} {r : ℕ} (h : slot.run = some r) :
    slot.place.inSlot = true := by
  cases slot <;> first | rfl | cases h

namespace Sys

/-- The writes that wait in the queue of the run, if it has one. -/
def queue (s : Sys) (r : ℕ) : Option (List WriteName) :=
  (s.records r).bind RunRecord.queue

def leftUnsent (s : Sys) (r : ℕ) : Option (List WriteName) :=
  (s.records r).bind RunRecord.leftUnsent

/-! ## The registries -/

structure Registered (s : Sys) : Prop where
  fresh : ∀ r, s.nextRun ≤ r → s.records r = none ∧ s.places r = .unknown
  recorded : ∀ r < s.nextRun, (s.records r).isSome
  held : ∀ i r, (s.slots i).run = some r → s.places r = (s.slots i).place
  home : ∀ r, (s.places r).inSlot = true →
    ∃ i < s.numSlots, (s.slots i).run = some r
  one : ∀ i j r, (s.slots i).run = some r → (s.slots j).run = some r → i = j
  ids : (s.registry.map s.runId).Nodup
  closingIds : (s.closings.map s.runId).Nodup
  known : ∀ r, r ∈ s.registry ∨ r ∈ s.closings → r < s.nextRun
  gone : ∀ r, (s.places r).out = true → r ∉ s.registry
  kept : ∀ r, (s.places r).registered = true → r ∈ s.registry
  inClosings : ∀ r, (s.places r).inClosings = true ∨ (∃ i, s.slots i = .added r) →
    r ∈ s.closings ∨ r ∈ s.taken
  noQueue : ∀ r, (s.places r).noQueue = true → s.queue r = none
  queueKept : ∀ r, (s.places r).keepsQueue = true → s.leftUnsent r = none

theorem registered_init (numSlots : ℕ) : (init numSlots).Registered where
  fresh := fun _ _ => ⟨rfl, rfl⟩
  recorded := by simp [init]
  held := by simp [init, Slot.run]
  home := by simp [init, Place.inSlot]
  one := by simp [init, Slot.run]
  ids := by simp [init]
  closingIds := by simp [init]
  known := by simp [init]
  gone := by simp [init]
  kept := by simp [init, Place.registered, Place.inSlot, Place.inClosings]
  inClosings := by simp [init, Place.inClosings]
  noQueue := by simp [init, Place.noQueue]
  queueKept := by simp [init, Place.keepsQueue]

variable {s s' : Sys} {r i : ℕ}

/-- The registry holds one run of an id. -/
theorem Registered.eq_of_id (h : s.Registered) {r r' : ℕ} (hr : r ∈ s.registry)
    (hr' : r' ∈ s.registry) (hid : s.runId r = s.runId r') : r = r' :=
  List.inj_on_of_nodup_map h.ids hr hr' hid

theorem mem_without {entries : List ℕ} {r r' : ℕ} :
    r' ∈ s.without r entries ↔ r' ∈ entries ∧ s.runId r' ≠ s.runId r := by
  simp [without]

/-- What the drain does to a record besides taking its queue. -/
structure SameData (s s' : Sys) : Prop where
  places : s'.places = s.places
  nextRun : s'.nextRun = s.nextRun
  registry : s'.registry = s.registry
  closings : s'.closings = s.closings
  slots : s'.slots = s.slots
  numSlots : s'.numSlots = s.numSlots
  taken : s'.taken = s.taken
  known : ∀ r, (s'.records r).isSome = (s.records r).isSome
  runId : s'.runId = s.runId

theorem Registered.same (h : s.Registered) (hs : SameData s s')
    (hnone' : ∀ r, (s.places r).noQueue = true → s.queue r = none → s'.queue r = none)
    (hleft : ∀ r, (s.places r).keepsQueue = true → s'.leftUnsent r = s.leftUnsent r) :
    s'.Registered where
  fresh := by
    intro r hr
    rw [hs.nextRun] at hr
    have hnone := h.fresh r hr
    refine ⟨Option.isSome_eq_false_iff.mp ?_ |> Option.isNone_iff_eq_none.mp, ?_⟩
    · rw [hs.known, hnone.1]
      rfl
    · rw [hs.places]
      exact hnone.2
  recorded := by
    intro r hr
    rw [hs.nextRun] at hr
    rw [hs.known]
    exact h.recorded r hr
  held := by rw [hs.slots, hs.places]; exact h.held
  home := by rw [hs.slots, hs.places, hs.numSlots]; exact h.home
  one := by rw [hs.slots]; exact h.one
  ids := by rw [hs.registry, hs.runId]; exact h.ids
  closingIds := by rw [hs.closings, hs.runId]; exact h.closingIds
  known := by rw [hs.registry, hs.closings, hs.nextRun]; exact h.known
  gone := by rw [hs.registry, hs.places]; exact h.gone
  kept := by rw [hs.registry, hs.places]; exact h.kept
  inClosings := by
    rw [hs.closings, hs.places, hs.slots, hs.taken]
    exact h.inClosings
  noQueue := by
    intro r hr
    rw [hs.places] at hr
    exact hnone' r hr (h.noQueue r hr)
  queueKept := by
    intro r hr
    rw [hs.places] at hr
    rw [hleft r hr]
    exact h.queueKept r hr

theorem modify_runId {f : RunRecord → RunRecord}
    (hid : ∀ record, (f record).runId = record.runId) :
    (s.modify r f).runId = s.runId := by
  funext r'
  simp only [runId, modify]
  by_cases hr : r' = r
  · subst hr
    rw [Function.update_self]
    cases s.records r' <;> simp [hid]
  · rw [Function.update_of_ne hr]

theorem Registered.lt_numSlots (h : s.Registered) (hrun : (s.slots i).run = some r) :
    i < s.numSlots := by
  have hin : (s.places r).inSlot = true := by
    rw [h.held i r hrun]
    exact Slot.place_inSlot hrun
  obtain ⟨j, hj, hrun'⟩ := h.home r hin
  rw [h.one i j r hrun hrun']
  exact hj

/-! ## What the steps do to the registries -/

theorem Registered.setPlace (h : s.Registered) {place : Place}
    (hfrom : (s.places r).inSlot = false) (hin : place.inSlot = false)
    (hknown : s.places r ≠ .unknown)
    (hgone : place.out = true → r ∉ s.registry)
    (hkept : place.registered = true → r ∈ s.registry)
    (hclosings : place.inClosings = true → r ∈ s.closings ∨ r ∈ s.taken)
    (hqueue : place.noQueue = true → s.queue r = none)
    (hleft : place.keepsQueue = true → s.leftUnsent r = none) :
    (s.setPlace r place).Registered := by
  have hslot : ∀ i, (s.slots i).run ≠ some r := by
    intro i hi
    have hat := h.held i r hi
    have hslot := Slot.place_inSlot hi
    grind
  have hlt : r < s.nextRun := by
    have hfresh := h.fresh r
    grind
  constructor <;> simp only [Sys.setPlace]
  · have hfresh := h.fresh
    grind [Function.update_apply]
  · exact h.recorded
  · have hheld := h.held
    grind [Function.update_apply]
  · have hhome := h.home
    grind [Function.update_apply]
  · exact h.one
  · exact h.ids
  · exact h.closingIds
  · exact h.known
  · have hout := h.gone
    grind [Function.update_apply]
  · have hreg := h.kept
    grind [Function.update_apply]
  · have hin := h.inClosings
    grind [Function.update_apply, Slot.run]
  · have hnone := h.noQueue
    grind [Function.update_apply, Sys.queue]
  · have hkeeps := h.queueKept
    grind [Function.update_apply, leftUnsent]

/-- The run of a slot goes on in it or leaves it. -/
theorem Registered.moveSlot (h : s.Registered) {place : Place} {slot : Slot}
    (hrun : (s.slots i).run = some r)
    (hslot : ∀ r', slot.run = some r' → r' = r ∧ slot.place = place)
    (hin : place.inSlot = true → slot.run = some r)
    (hgone : place.out = true → r ∉ s.registry)
    (hkept : place.registered = true → r ∈ s.registry)
    (hclosings : place.inClosings = true ∨ slot = .added r →
      r ∈ s.closings ∨ r ∈ s.taken)
    (hqueue : place.noQueue = true → s.queue r = none)
    (hleft : place.keepsQueue = true → s.leftUnsent r = none) :
    ((s.setPlace r place).setSlot i slot).Registered := by
  have hat := h.held i r hrun
  have hi := h.lt_numSlots hrun
  have hone := h.one i
  have hlt : r < s.nextRun := by
    have hfresh := h.fresh r
    have hslot := Slot.place_inSlot hrun
    grind [Place.inSlot]
  constructor <;> simp only [Sys.setPlace, Sys.setSlot]
  · have hfresh := h.fresh
    grind [Function.update_apply]
  · exact h.recorded
  · have hheld := h.held
    grind [Function.update_apply]
  · intro r' hr'
    by_cases hrr : r' = r
    · subst hrr
      rw [Function.update_self] at hr'
      exact ⟨i, hi, by rw [Function.update_self]; exact hin hr'⟩
    · rw [Function.update_of_ne hrr] at hr'
      obtain ⟨j, hj, hrun'⟩ := h.home r' hr'
      have hji : j ≠ i := by
        rintro rfl
        rw [hrun] at hrun'
        exact hrr (Option.some.inj hrun').symm
      exact ⟨j, hj, by rwa [Function.update_of_ne hji]⟩
  · have hone := h.one
    grind [Function.update_apply]
  · exact h.ids
  · exact h.closingIds
  · exact h.known
  · have hout := h.gone
    grind [Function.update_apply]
  · have hreg := h.kept
    grind [Function.update_apply]
  · have hclosed := h.inClosings
    grind [Function.update_apply, Slot.run]
  · have hnone := h.noQueue
    grind [Function.update_apply, Sys.queue]
  · have hkeeps := h.queueKept
    grind [Function.update_apply, leftUnsent]

/-- A slot without a run. -/
theorem Registered.setSlot (h : s.Registered) {slot : Slot}
    (hfrom : (s.slots i).run = none) (hrun : slot.run = none) :
    (s.setSlot i slot).Registered := by
  constructor <;> simp only [Sys.setSlot]
  · exact h.fresh
  · exact h.recorded
  · have hheld := h.held
    grind [Function.update_apply]
  · intro r hr
    obtain ⟨j, hj, hrun'⟩ := h.home r hr
    have hji : j ≠ i := by
      rintro rfl
      rw [hfrom] at hrun'
      cases hrun'
    exact ⟨j, hj, by rwa [Function.update_of_ne hji]⟩
  · have hone := h.one
    grind [Function.update_apply]
  · exact h.ids
  · exact h.closingIds
  · exact h.known
  · exact h.gone
  · exact h.kept
  · have hclosed := h.inClosings
    grind [Function.update_apply, Slot.run]
  · exact h.noQueue
  · exact h.queueKept

/-- Only the run itself is forgotten with it. -/
theorem Registered.forgetRun (h : s.Registered) (hr : r ∈ s.registry)
    (hplace : (s.places r).registered = false) : (s.forgetRun r).Registered := by
  constructor <;> simp only [Sys.forgetRun]
  · exact h.fresh
  · exact h.recorded
  · exact h.held
  · exact h.home
  · exact h.one
  · exact h.ids.sublist (List.filter_sublist.map _)
  · exact h.closingIds
  · have hknown := h.known
    grind [mem_without]
  · have hout := h.gone
    grind [mem_without]
  · have hreg := h.kept
    have hid : ∀ {u}, u ∈ s.registry → s.runId r = s.runId u → r = u :=
      fun hu heq => h.eq_of_id hr hu heq
    grind [mem_without]
  · exact h.inClosings
  · exact h.noQueue
  · exact h.queueKept

theorem queue_modify (f : RunRecord → RunRecord) {r' : ℕ} (hne : r' ≠ r) :
    (s.modify r f).queue r' = s.queue r' := by
  simp [queue, modify, Function.update_of_ne hne]

theorem leftUnsent_modify (f : RunRecord → RunRecord) {r' : ℕ} (hne : r' ≠ r) :
    (s.modify r f).leftUnsent r' = s.leftUnsent r' := by
  simp [leftUnsent, modify, Function.update_of_ne hne]

theorem sameData_modify {f : RunRecord → RunRecord}
    (hid : ∀ record, (f record).runId = record.runId) :
    SameData s (s.modify r f) where
  places := rfl
  nextRun := rfl
  registry := rfl
  closings := rfl
  slots := rfl
  numSlots := rfl
  taken := rfl
  known := by
    intro r'
    simp only [modify, Function.update_apply]
    split
    · rename_i hr
      rw [hr, Option.isSome_map]
    · rfl
  runId := modify_runId hid

@[simp] theorem queue_takeQueue : (s.modify r RunRecord.takeQueue).queue r = none := by
  simp only [queue, modify, Function.update_self]
  cases s.records r <;> rfl

@[simp] theorem leftUnsent_takeQueue :
    (s.modify r RunRecord.takeQueue).leftUnsent r =
      (s.queue r).or (s.leftUnsent r) := by
  simp only [queue, leftUnsent, modify, Function.update_self]
  cases s.records r <;> rfl

theorem Registered.takeQueue (h : s.Registered)
    (hplace : (s.places r).keepsQueue = false) :
    (s.modify r RunRecord.takeQueue).Registered := by
  refine h.same (sameData_modify fun _ => rfl) ?_ ?_
  · intro r' hr' hnone
    by_cases hrr : r' = r
    · subst hrr
      exact queue_takeQueue
    · rw [queue_modify _ hrr]
      exact hnone
  · intro r' hr'
    have hrr : r' ≠ r := by
      rintro rfl
      rw [hplace] at hr'
      cases hr'
    exact leftUnsent_modify _ hrr

/-- What leaves the queue of the record alone. -/
theorem Registered.modify (h : s.Registered) {f : RunRecord → RunRecord}
    (hid : ∀ record, (f record).runId = record.runId)
    (hqueue : (s.places r).noQueue = true →
      ∀ record : RunRecord, record.queue = none → (f record).queue = none)
    (hleft : ∀ record, (f record).leftUnsent = record.leftUnsent) :
    (s.modify r f).Registered := by
  refine h.same (sameData_modify hid) ?_ ?_
  · intro r' hplace hnone
    by_cases hrr : r' = r
    · subst hrr
      simp only [queue, Sys.modify, Function.update_self] at hnone ⊢
      cases hrec : s.records r' with
      | none => rfl
      | some record =>
          rw [hrec] at hnone
          exact hqueue hplace record hnone
    · rw [queue_modify _ hrr]
      exact hnone
  · intro r' _
    by_cases hrr : r' = r
    · subst hrr
      simp only [leftUnsent, Sys.modify, Function.update_self]
      cases s.records r' with
      | none => rfl
      | some record => exact hleft record
    · exact leftUnsent_modify _ hrr

theorem Registered.registerRun (h : s.Registered) (hidle : s.slots i = .idle)
    (hi : i < s.numSlots) (runId jobId : Uuid) :
    (s.registerRun i runId jobId).Registered := by
  unfold Sys.registerRun
  split
  · exact h
  · rename_i hnew
    have hfresh := h.fresh s.nextRun (Nat.le_refl _)
    have hnot : ∀ j, (s.slots j).run ≠ some s.nextRun := by
      intro j hj
      have hat := h.held j _ hj
      have hin := Slot.place_inSlot hj
      grind [Place.inSlot]
    have hout : s.nextRun ∉ s.registry := fun hin => Nat.lt_irrefl _ (h.known _ (Or.inl hin))
    have hsame : ∀ r, r ≠ s.nextRun →
        Function.update s.records s.nextRun (some (RunRecord.new runId jobId)) r =
          s.records r := fun r hr => Function.update_of_ne hr _ _
    constructor <;> simp only [Sys.setRecord, Sys.setPlace, Sys.setSlot]
    · intro r hr
      have hlt : s.nextRun < r := hr
      rw [Function.update_of_ne (Nat.ne_of_gt hlt), Function.update_of_ne (Nat.ne_of_gt hlt)]
      exact h.fresh r (Nat.le_of_lt hlt)
    · have hrecorded := h.recorded
      grind [Function.update_apply]
    · have hheld := h.held
      grind [Function.update_apply, Slot.run, Slot.place]
    · intro r hr
      by_cases hrn : r = s.nextRun
      · subst hrn
        exact ⟨i, hi, by rw [Function.update_self]; rfl⟩
      · rw [Function.update_of_ne hrn] at hr
        obtain ⟨j, hj, hrun⟩ := h.home r hr
        have hji : j ≠ i := by
          rintro rfl
          rw [hidle] at hrun
          cases hrun
        exact ⟨j, hj, by rwa [Function.update_of_ne hji]⟩
    · have hone := h.one
      grind [Function.update_apply, Slot.run]
    · have hids := h.ids
      rw [List.map_cons, List.nodup_cons]
      refine ⟨?_, ?_⟩
      · intro hmem
        obtain ⟨r, hr, hid⟩ := List.mem_map.mp hmem
        have hne : r ≠ s.nextRun := fun heq => hout (heq ▸ hr)
        refine hnew ⟨r, hr, ?_⟩
        simpa [Sys.runId, Function.update_of_ne hne, RunRecord.new] using hid
      · refine (List.map_congr_left fun r hr => ?_).symm ▸ hids
        have hne : r ≠ s.nextRun := fun heq => hout (heq ▸ hr)
        simp [Sys.runId, Function.update_of_ne hne]
    · refine (List.map_congr_left fun r hr => ?_).symm ▸ h.closingIds
      have hne : r ≠ s.nextRun := fun heq =>
        Nat.lt_irrefl _ (h.known _ (Or.inr (heq ▸ hr)))
      simp [Sys.runId, Function.update_of_ne hne]
    · have hknown := h.known
      grind
    · have hgone := h.gone
      grind [Function.update_apply, Place.out]
    · have hkept := h.kept
      grind [Function.update_apply]
    · have hclosings := h.inClosings
      grind [Function.update_apply, Place.inClosings]
    · have hnone := h.noQueue
      grind [Function.update_apply, Sys.queue, Place.noQueue]
    · have hkeeps := h.queueKept
      grind [Function.update_apply, leftUnsent, RunRecord.new]

theorem Registered.places_eq (h : s.Registered) (hrun : (s.slots i).run = some r) :
    s.places r = (s.slots i).place :=
  h.held i r hrun

theorem Registered.refuse (h : s.Registered) (hslot : s.slots i = .executing r) :
    (s.refuse i r).Registered := by
  have hrun : (s.slots i).run = some r := by rw [hslot]; rfl
  have hplace := h.places_eq hrun
  have hmoved : ((s.setPlace r .refusing).setSlot i (.forgetting r)).Registered := by
    refine h.moveSlot hrun ?_ (fun _ => rfl) nofun ?_ ?_ nofun nofun
    · rintro r' hr'
      cases hr'
      exact ⟨rfl, rfl⟩
    · intro _
      refine h.kept r ?_
      rw [hplace, hslot]
      rfl
    · rintro (hin | hin)
      · cases hin
      · cases hin
  refine hmoved.takeQueue (?_ : (Function.update s.places r _ r).keepsQueue = false)
  rw [Function.update_self]
  rfl

/-- A run that is out of its slot and of the closings is forgotten. -/
theorem Registered.forget (h : s.Registered) {place : Place} (hr : r ∈ s.registry)
    (hfrom : s.places r = .abandoned) (hin : place.inSlot = false)
    (hreg : place.registered = false) (hclosings : place.inClosings = false)
    (hqueue : place.noQueue = true → s.queue r = none)
    (hleft : place.keepsQueue = false) :
    ((s.forgetRun r).setPlace r place).Registered := by
  have hforgot := h.forgetRun hr (by rw [hfrom]; rfl)
  refine hforgot.setPlace ?_ hin ?_ ?_ ?_ ?_ hqueue ?_
  · rw [show (s.forgetRun r).places r = _ from hfrom]
    rfl
  · rw [show (s.forgetRun r).places r = _ from hfrom]
    exact Place.noConfusion
  · exact fun _ hmem => (mem_without.mp hmem).2 rfl
  · rw [hreg]
    exact nofun
  · rw [hclosings]
    exact nofun
  · rw [hleft]
    exact nofun

theorem Registered.removeClosing (h : s.Registered) (hr : r ∈ s.registry)
    (hfrom : s.places r = .abandoned) : (s.removeClosing r).Registered := by
  constructor <;> simp only [Sys.removeClosing]
  · exact h.fresh
  · exact h.recorded
  · exact h.held
  · exact h.home
  · exact h.one
  · exact h.ids
  · exact h.closingIds.sublist (List.filter_sublist.map _)
  · have hknown := h.known
    grind [mem_without]
  · exact h.gone
  · exact h.kept
  · have hclosings := h.inClosings
    have hkept := h.kept
    have hid : ∀ {u}, u ∈ s.registry → s.runId r = s.runId u → r = u :=
      fun hu heq => h.eq_of_id hr hu heq
    have hheld := h.held
    grind [mem_without, Place.registered, Place.inClosings, Place.inSlot, Slot.run,
      Slot.place]
  · exact h.noQueue
  · exact h.queueKept

theorem Registered.addClosing (h : s.Registered) (hr : r ∈ s.registry) :
    (s.addClosing r).Registered := by
  constructor <;> simp only [Sys.addClosing]
  · exact h.fresh
  · exact h.recorded
  · exact h.held
  · exact h.home
  · exact h.one
  · exact h.ids
  · rw [List.map_cons, List.nodup_cons]
    refine ⟨?_, h.closingIds.sublist (List.filter_sublist.map _)⟩
    intro hmem
    obtain ⟨r', hr', hid⟩ := List.mem_map.mp hmem
    exact (mem_without.mp hr').2 hid
  · have hknown := h.known
    grind [mem_without]
  · exact h.gone
  · exact h.kept
  · have hclosings := h.inClosings
    have hkept := h.kept
    have hid : ∀ {u}, u ∈ s.registry → s.runId r = s.runId u → r = u :=
      fun hu heq => h.eq_of_id hr hu heq
    have hheld := h.held
    grind [mem_without, Place.registered, Place.inClosings, Place.inSlot, Slot.run,
      Slot.place]
  · exact h.noQueue
  · exact h.queueKept

theorem setPlace_same {place : Place} (hplace : s.places r = place) :
    s.setPlace r place = s := by
  rw [← hplace]
  simp [Sys.setPlace]

theorem setPlace_setPlace (place place' : Place) :
    (s.setPlace r place).setPlace r place' = s.setPlace r place' := by
  simp [Sys.setPlace]

theorem Registered.slotStep (h : s.Registered) (hs : s.slotStep i = some s') :
    s'.Registered := by
  unfold Sys.slotStep at hs
  split at hs
  · rename_i r hslot
    cases hs
    have hrun : (s.slots i).run = some r := by rw [hslot]; rfl
    have hplace := h.places_eq hrun
    have hr : r ∈ s.registry := h.kept r (by rw [hplace, hslot]; rfl)
    have hleft : ((s.setPlace r .abandoned).setSlot i .idle).Registered :=
      h.moveSlot hrun nofun nofun nofun nofun (by rintro (hin | hin) <;> cases hin) nofun
        nofun
    have hforgot : ((((s.setPlace r .abandoned).setSlot i .idle).forgetRun r).setPlace r
        .unopened).Registered :=
      hleft.forget hr (by simp [Sys.setPlace, Sys.setSlot]) rfl rfl rfl nofun rfl
    have heq : (((s.setPlace r .abandoned).setSlot i .idle).forgetRun r).setPlace r
        .unopened = ((s.forgetRun r).setPlace r .unopened).setSlot i .idle := by
      show (((s.forgetRun r).setPlace r .abandoned).setPlace r .unopened).setSlot i
        .idle = _
      rw [setPlace_setPlace]
    rw [heq] at hforgot
    exact hforgot
  · rename_i r hslot
    cases hs
    have hrun : (s.slots i).run = some r := by rw [hslot]; rfl
    have hplace : s.places r = .spawned := by rw [h.places_eq hrun, hslot]; rfl
    have hr : r ∈ s.registry := h.kept r (by rw [hplace]; rfl)
    have hadded := h.addClosing hr
    have hsame : (s.addClosing r).setPlace r .spawned = s.addClosing r :=
      setPlace_same hplace
    have hmoved : (((s.addClosing r).setPlace r .spawned).setSlot i
        (.added r)).Registered :=
      hadded.moveSlot hrun (by rintro r' hr'; cases hr'; exact ⟨rfl, rfl⟩)
        (fun _ => rfl) nofun (fun _ => hr) (fun _ => Or.inl List.mem_cons_self) nofun
        (fun _ => h.queueKept r (by rw [hplace]; rfl))
    rw [hsame] at hmoved
    exact hmoved
  · rename_i r hslot
    cases hs
    have hrun : (s.slots i).run = some r := by rw [hslot]; rfl
    have hplace : s.places r = .spawned := by rw [h.places_eq hrun, hslot]; rfl
    exact h.moveSlot hrun nofun nofun nofun (fun _ => h.kept r (by rw [hplace]; rfl))
      (fun _ => h.inClosings r (Or.inr ⟨i, hslot⟩)) nofun
      (fun _ => h.queueKept r (by rw [hplace]; rfl))
  · cases hs

theorem Registered.spawnClosing (h : s.Registered) (hslot : s.slots i = .executing r) :
    (s.spawnClosing i r).Registered := by
  have hrun : (s.slots i).run = some r := by rw [hslot]; rfl
  have hplace : s.places r = .executing := by rw [h.places_eq hrun, hslot]; rfl
  have hmoved : ((s.setPlace r .spawned).setSlot i (.spawned r)).Registered :=
    h.moveSlot hrun (by rintro r' hr'; cases hr'; exact ⟨rfl, rfl⟩) (fun _ => rfl)
      nofun (fun _ => h.kept r (by rw [hplace]; rfl))
      (by rintro (hin | hin) <;> cases hin) nofun
      (fun _ => h.queueKept r (by rw [hplace]; rfl))
  exact hmoved.modify (fun _ => rfl) (fun _ _ hnone => hnone) fun _ => rfl

/-- The slot ends or starts again, and its run is left where it was. -/
theorem Registered.abandon (h : s.Registered) {slot : Slot} (hslot : slot.run = none)
    (hfrom : s.slots i = .idle ∨ ∃ r, s.slots i = .executing r) :
    (s.abandon i slot).Registered := by
  unfold Sys.abandon
  rcases hfrom with hidle | ⟨r, hrun⟩
  · rw [hidle]
    exact h.setSlot (by rw [hidle]; rfl) hslot
  · rw [hrun]
    have hnone : ∀ r', slot.run ≠ some r' := by
      rw [hslot]
      exact nofun
    refine h.moveSlot (by rw [hrun]; rfl) (fun r' hr' => absurd hr' (hnone r')) nofun
      nofun nofun ?_ nofun nofun
    rintro (hin | rfl)
    · cases hin
    · exact absurd rfl (hnone r)

theorem Registered.closingStep (h : s.Registered) (hs : s.closingStep r = some s') :
    s'.Registered := by
  unfold Sys.closingStep at hs
  split at hs
  · rename_i hplace
    cases hs
    have htaken := h.takeQueue (r := r) (by rw [hplace]; rfl)
    refine htaken.setPlace ?_ rfl ?_ nofun ?_ ?_ (fun _ => queue_takeQueue) nofun
    · rw [show (s.modify r _).places r = _ from hplace]
      rfl
    · rw [show (s.modify r _).places r = _ from hplace]
      exact Place.noConfusion
    · exact fun _ => h.kept r (by rw [hplace]; rfl)
    · exact fun _ => h.inClosings r (Or.inl (by rw [hplace]; rfl))
  · rename_i hplace
    cases hs
    have hr : r ∈ s.registry := h.kept r (by rw [hplace]; rfl)
    have hout : (s.setPlace r .abandoned).Registered :=
      h.setPlace (by rw [hplace]; rfl) rfl (by rw [hplace]; exact Place.noConfusion)
        nofun nofun nofun nofun nofun
    have hremoved : (((s.setPlace r .abandoned).removeClosing r).setPlace r
        .removed).Registered := by
      have hat : ((s.setPlace r .abandoned).removeClosing r).places r = .abandoned := by
        simp [Sys.setPlace, Sys.removeClosing]
      refine (hout.removeClosing hr (by simp [Sys.setPlace])).setPlace ?_ rfl ?_ nofun
        (fun _ => hr) nofun ?_ nofun
      · rw [hat]
        rfl
      · rw [hat]
        exact Place.noConfusion
      · exact fun _ => h.noQueue r (by rw [hplace]; rfl)
    have heq : ((s.setPlace r .abandoned).removeClosing r).setPlace r .removed =
        (s.removeClosing r).setPlace r .removed := by
      show ((s.removeClosing r).setPlace r .abandoned).setPlace r .removed = _
      rw [setPlace_setPlace]
    rw [heq] at hremoved
    exact hremoved
  · rename_i hplace
    cases hs
    have hr : r ∈ s.registry := h.kept r (by rw [hplace]; rfl)
    have hout : (s.setPlace r .abandoned).Registered :=
      h.setPlace (by rw [hplace]; rfl) rfl (by rw [hplace]; exact Place.noConfusion)
        nofun nofun nofun nofun nofun
    have hforgot : (((s.setPlace r .abandoned).forgetRun r).setPlace r
        .forgotten).Registered :=
      hout.forget hr (by simp [Sys.setPlace]) rfl rfl rfl
        (fun _ => h.noQueue r (by rw [hplace]; rfl)) rfl
    have heq : ((s.setPlace r .abandoned).forgetRun r).setPlace r .forgotten =
        (s.forgetRun r).setPlace r .forgotten := by
      show ((s.forgetRun r).setPlace r .abandoned).setPlace r .forgotten = _
      rw [setPlace_setPlace]
    rw [heq] at hforgot
    exact hforgot
  · cases hs

/-- Once every run is settled the registry holds nothing that is still needed. -/
theorem Registered.forgetSettled (h : s.Registered)
    (hsettled : ∀ r, (s.places r).settled = true) : (s.forgetRun r).Registered := by
  constructor <;> simp only [Sys.forgetRun]
  · exact h.fresh
  · exact h.recorded
  · exact h.held
  · exact h.home
  · exact h.one
  · exact h.ids.sublist (List.filter_sublist.map _)
  · exact h.closingIds
  · have hknown := h.known
    grind [mem_without]
  · have hout := h.gone
    grind [mem_without]
  · intro r' hr'
    rw [Place.not_registered (hsettled r')] at hr'
    cases hr'
  · exact h.inClosings
  · exact h.noQueue
  · exact h.queueKept

theorem runStep_eq {event : RunEvent} (hs : s.runStep r event = some s') :
    s' = s.modify r (fun record => record.after event) ∧
      (event.ofExecution = true → s.places r = .executing) := by
  unfold Sys.runStep at hs
  split at hs
  · cases hs
  · rename_i hcan
    obtain ⟨record, hrecord, rfl⟩ := Option.map_eq_some_iff.mp hs
    refine ⟨by simp [setRecord, Sys.modify, hrecord], fun hof => ?_⟩
    by_contra hne
    exact hcan (by simp [hof, hne])

theorem Registered.runStep (h : s.Registered) {event : RunEvent}
    (hs : s.runStep r event = some s') : s'.Registered := by
  obtain ⟨rfl, hof⟩ := runStep_eq hs
  refine h.modify (fun record => ?_) (fun hplace record hnone => ?_) fun record => ?_
  · cases event <;> rfl
  · cases event with
    | opened =>
        rw [hof rfl] at hplace
        cases hplace
    | handedOver name => simp [RunRecord.after, hnone]
    | writeEnded name => simp [RunRecord.after, hnone]
    | executorReturned => exact hnone
    | executorRunning running => exact hnone
    | instanceCreated id => exact hnone
    | hookReturned id => exact hnone
    | cancelled => exact hnone
  · cases event <;> rfl

end Sys

end RunnerKit.Toolkit.Drain
