import RunnerKit.Threads.Keepalives

/-!
# The stream of a turn

What the operations of the adapter accept for a turn, between two ends of its
instance, is at most one opening, then the chunks of the turn's state, numbered
from 0, and at most one closing; a closing of a turn that is not held comes alone.
The operations put an item into the queue and write it into the memory of the
thread under one lock, so wherever that lock is free the memory and the accepted
items say the same.
-/

namespace RunnerKit.Threads.Ops

open Lib Lib.Protocol
open Jobs (Uuid)

variable {β D B U E : Type}

/-- The chunks of a turn that may not be held. -/
def heldChunks (held : Option (TurnState β)) : List (Chunk β) :=
  (held.map TurnState.chunks).getD []

/-- What was accepted for a turn, as its state has it. -/
structure StreamKept (lib : Library β) (held : Option (TurnState β)) (items : List (Item β)) :
    Prop where
  unheld : held = none → items = []
  /-- An opening comes first of all, and there is one before any chunk. -/
  opening : ∀ i item, items[i]? = some item → item.kind = .opening → i = 0
  opened : ∀ item ∈ items, item.kind = .chunk →
    ∃ opening, items.head? = some opening ∧ opening.kind = .opening
  /-- Without an opening, as of a turn that was not held, there is at most the closing. -/
  alone : (∀ item ∈ items, item.kind ≠ .opening) →
    items = [] ∨ ∃ closing, items = [closing] ∧ closing.kind = .closing
  /-- The chunks are those of the state, in order and numbered without gap or repeat. -/
  chunks : Chunked (heldChunks held) (items.filter fun item => decide (item.kind = .chunk))
  /-- A closing comes last of all, and its seal is that of all the chunks. -/
  closing : ∀ i item, items[i]? = some item → item.kind = .closing →
    i + 1 = items.length ∧ Closes lib (heldChunks held) item
  closed : (∃ item ∈ items, item.kind = .closing) ↔ ∃ state, held = some state ∧ state.closed = true
  kinds : ∀ item ∈ items, item.kind = .opening ∨ item.kind = .chunk ∨ item.kind = .closing

section Fits

variable {lib : Library β} {chunks : List (Chunk β)} {items : List (Item β)}
  {opening closing : Item β}

theorem Chunked.filter (h : Chunked chunks items) :
    (items.filter fun item => decide (item.kind = .chunk)) = items :=
  List.filter_eq_self.mpr fun _ hitem => decide_eq_true (h.kind hitem)

/-- An item of another kind than the chunks is no chunk. -/
theorem Chunked.not_mem (h : Chunked chunks items) {item : Item β} (hkind : item.kind ≠ .chunk) :
    item ∉ items :=
  fun hin => hkind (h.kind hin)

/-- A turn that is open has an opening and its chunks. -/
theorem streamKept_open {state : TurnState β} (hopen : state.closed = false)
    (hopening : opening.kind = .opening) (hchunks : Chunked state.chunks items) :
    StreamKept lib (some state) (opening :: items) where
  unheld := by simp
  opening := by
    intro i item hitem hkind
    cases i with
    | zero => rfl
    | succ i =>
        have hin : item ∈ items := List.mem_of_getElem? hitem
        rw [hchunks.kind hin] at hkind
        cases hkind
  opened := fun _ _ _ => ⟨opening, rfl, hopening⟩
  alone := fun hno => absurd hopening (hno opening List.mem_cons_self)
  chunks := by
    rw [List.filter_cons_of_neg (by simp [hopening]), hchunks.filter]
    exact hchunks
  closing := by
    intro i item hitem hkind
    rcases List.mem_cons.mp (List.mem_of_getElem? hitem) with rfl | hin
    · rw [hopening] at hkind
      cases hkind
    · rw [hchunks.kind hin] at hkind
      cases hkind
  closed := by
    constructor
    · rintro ⟨item, hin, hkind⟩
      rcases List.mem_cons.mp hin with rfl | hin
      · rw [hopening] at hkind
        cases hkind
      · rw [hchunks.kind hin] at hkind
        cases hkind
    · rintro ⟨held, hheld, hclosed⟩
      cases hheld
      rw [hopen] at hclosed
      cases hclosed
  kinds := by
    intro item hin
    rcases List.mem_cons.mp hin with rfl | hin
    · exact Or.inl hopening
    · exact Or.inr (Or.inl (hchunks.kind hin))

/-- The closing comes behind what was accepted, and is the only one. -/
theorem StreamKept.close {state : TurnState β} {before : List (Item β)}
    (h : StreamKept lib (some { state with closed := false }) before)
    (hclosed : state.closed = true) (hclosing : Closes lib state.chunks closing) :
    StreamKept lib (some state) (before ++ [closing]) := by
  have hkind := hclosing.kind
  have hno : ∀ item ∈ before, item.kind ≠ .closing := by
    intro item hin hitem
    obtain ⟨held, hheld, hfalse⟩ := h.closed.mp ⟨item, hin, hitem⟩
    cases hheld
    cases hfalse
  have hlast : ∀ {i item}, (before ++ [closing])[i]? = some item →
      before[i]? = some item ∨ i = before.length ∧ item = closing := by
    intro i item hitem
    rcases Nat.lt_or_ge i before.length with hlt | hge
    · rw [List.getElem?_append_left hlt] at hitem
      exact Or.inl hitem
    · rw [List.getElem?_append_right hge, List.getElem?_singleton] at hitem
      split at hitem <;> cases hitem
      exact Or.inr ⟨by omega, rfl⟩
  refine ⟨by simp, ?_, ?_, ?_, ?_, ?_, ?_, ?_⟩
  · intro i item hitem hopening
    rcases hlast hitem with hitem | ⟨-, rfl⟩
    · exact h.opening i item hitem hopening
    · rw [hkind] at hopening
      cases hopening
  · intro item hin hchunk
    rcases List.mem_append.mp hin with hin | hin
    · obtain ⟨opening, hhead, hopening⟩ := h.opened item hin hchunk
      exact ⟨opening, by rw [List.head?_append, hhead]; rfl, hopening⟩
    · rw [List.mem_singleton.mp hin, hkind] at hchunk
      cases hchunk
  · intro hnone
    rcases h.alone fun item hin => hnone item (List.mem_append_left _ hin) with
      rfl | ⟨other, rfl, hother⟩
    · exact Or.inr ⟨closing, rfl, hkind⟩
    · exact absurd hother (hno other List.mem_cons_self)
  · rw [List.filter_append, List.filter_cons_of_neg (by simp [hkind]), List.filter_nil,
      List.append_nil]
    exact h.chunks
  · intro i item hitem hitemKind
    rcases hlast hitem with hitem | ⟨rfl, rfl⟩
    · exact absurd hitemKind (hno item (List.mem_of_getElem? hitem))
    · exact ⟨by simp, hclosing⟩
  · refine ⟨fun _ => ⟨state, rfl, hclosed⟩, fun _ => ⟨closing, ?_, hkind⟩⟩
    exact List.mem_append_right _ List.mem_cons_self
  · intro item hin
    rcases List.mem_append.mp hin with hin | hin
    · exact h.kinds item hin
    · rw [List.mem_singleton.mp hin]
      exact Or.inr (Or.inr hkind)

theorem Fits.streamKept {held : Option (TurnState β)} (h : Fits lib held items) :
    StreamKept lib held items := by
  cases h with
  | none =>
      refine ⟨fun _ => rfl, by simp, by simp, fun _ => Or.inl rfl, ?_, by simp, by simp, by simp⟩
      exact rfl
  | opened hopen hopening hchunks => exact streamKept_open hopen hopening hchunks
  | closed hclosed hopening hchunks hclosing =>
      rename_i state opening closing chunks
      refine StreamKept.close ?_ hclosed hclosing
      exact streamKept_open rfl hopening hchunks
  | closedBy hclosed hchunks hclosing =>
      -- the turn was not held, so nothing was accepted for it
      rename_i state closing
      have hempty : StreamKept lib (some { state with closed := false }) ([] : List (Item β)) := by
        refine ⟨by simp, by simp, by simp, fun _ => Or.inl rfl, ?_, by simp, by simp, by simp⟩
        show Chunked state.chunks []
        rw [hchunks]
        exact rfl
      exact hempty.close hclosed (hchunks ▸ hclosing)

end Fits

/-- In every run of turn operations, annotations, sends, reads, keepalives, deliveries and
ends of instances, each dropped at any await and with every answer of the store: the items
that were accepted for a turn since the last end that took it off its thread are at most
one opening, which is first, the chunks of its state in order, and at most one closing with
their seal. The closing of a turn that is not held is all there is of it. -/
theorem streams_kept [DecidableEq B] [DecidableEq U] [DecidableEq E]
    {settings : Settings β D B U E} {leftovers : List (ThreadRef × Item β)}
    {s : Calls (Inner β D) Ask.Reply PortError}
    (h : (world settings leftovers).machine.Reachable s) {t : ThreadRef}
    (hfree : s.shared.memLock t = none) (message : Uuid) :
    StreamKept settings.lib ((s.shared.mem t).turns.lookup message)
      ((stream t message s.shared.log).map Prod.fst) :=
  (((base_of_reachable h).fits t hfree).fits message).streamKept

/-- A turn is opened for a result and gets its entry, and then it is closed. -/
def closedRun : List TickEvent := List.flatten
  [.start (.openResult tickThread planned) :: ticks 0 7, .reply 0 allKept :: ticks 0 6,
    .reply 0 allKept :: ticks 0 11,
    .start (.addEntry tickThread planned ⟨7, .other, .ok (.string "text")⟩) :: ticks 1 1,
    .reply 1 allKept :: ticks 1 7, .reply 1 allKept :: ticks 1 5,
    .start (.closeTurn tickThread planned (.known .completed none)) :: ticks 2 1,
    .reply 2 allKept :: ticks 2 7, .reply 2 allKept :: ticks 2 5]

theorem streams_kept_closedRun :
    ∃ s, (world tickSettings []).machine.run closedRun = some s ∧
      StreamKept namingLibrary ((s.shared.mem tickThread).turns.lookup 9)
        ((stream tickThread 9 s.shared.log).map Prod.fst) ∧
      (stream tickThread 9 s.shared.log).map (fun x => x.1.kind) =
        [.opening, .chunk, .closing] := by
  have hends : ((world tickSettings []).machine.run closedRun).map (fun s =>
      (s.shared.memLock tickThread, (stream tickThread 9 s.shared.log).map fun x => x.1.kind)) =
        some (none, [.opening, .chunk, .closing]) := by decide +kernel
  obtain ⟨s, hrun, hs⟩ := Option.map_eq_some_iff.mp hends
  obtain ⟨hfree, hkinds⟩ := Prod.mk.inj hs
  exact ⟨s, hrun, streams_kept (Machine.reachable_of_run closedRun hrun) hfree 9, hkinds⟩

/-! ## The end of an instance -/

/-- When the end of an instance has returned, each turn that its agent held when it was called has
been taken off its thread since; and one that is open now was opened again behind that. -/
theorem ended_takes_turns [DecidableEq B] [DecidableEq U] [DecidableEq E]
    {settings : Settings β D B U E} {leftovers : List (ThreadRef × Item β)}
    {s : Calls (Inner β D) Ask.Reply PortError}
    (h : (world settings leftovers).machine.Reachable s) {i : ℕ} {agent : Uuid}
    {pre post : List (Obs β)} (hlog : s.shared.log = pre ++ Obs.returned i agent :: post) :
    ∃ (before after : List (Obs β)) (mem : ThreadRef → Mem β),
      pre = before ++ Obs.ending i agent mem :: after ∧
      ∀ t message state, (mem t).turns.lookup message = some state → state.agent = agent →
        (∃ obs ∈ after, obs.drops t message = true) ∧
        (s.shared.memLock t = none → ∀ held, (s.shared.mem t).turns.lookup message = some held →
          held.closed = false → Reopened t message (after ++ Obs.returned i agent :: post)) := by
  have hbase := base_of_reachable h
  obtain ⟨before, mem, after, rfl, hall⟩ : AllDropped i agent pre :=
    hbase.rules pre (.returned i agent) post hlog
  refine ⟨before, after, mem, rfl, fun t message state hstate hagent => ?_⟩
  obtain ⟨drop, hdrop, hdrops⟩ := hall t message state hstate hagent
  refine ⟨⟨drop, hdrop, hdrops⟩, fun hfree held hheld hopen => ?_⟩
  have hfits := (hbase.fits t hfree).fits message
  rw [hheld] at hfits
  obtain ⟨opening, rest, hitems, hkind, -⟩ := hfits.of_open hopen
  have hmem : opening ∈ (stream t message s.shared.log).map Prod.fst := by
    rw [hitems]
    exact List.mem_cons_self
  obtain ⟨x, hx, rfl⟩ := List.mem_map.mp hmem
  refine reopened_of_opened (before ++ [.ending i agent mem]) ⟨x, ?_, hkind⟩
    ⟨drop, List.mem_append_left _ hdrop, hdrops⟩
  rw [hlog] at hx
  simpa using hx

theorem Obs.eq_of_mark_returned {obs : Obs β} {agent : Uuid} (h : obs.mark = .returned agent) :
    ∃ i, obs = .returned i agent := by
  cases obs with
  | returned i of =>
      cases h
      exact ⟨i, rfl⟩
  | _ => cases h

/-- The agent of the turn that an end finds on the thread. -/
def Obs.found : Obs Jobs.Value → Option (Option Uuid)
  | .ending _ _ mem => some (((mem tickThread).turns.lookup 9).map TurnState.agent)
  | _ => none

/-- The turn that was closed without being held is taken off, and opened again. -/
theorem ended_takes_turns_reopened :
    ∃ (s : Calls (Inner Jobs.Value Unit) Ask.Reply PortError) (i : ℕ)
        (before after post : List (Obs Jobs.Value)) (mem : ThreadRef → Mem Jobs.Value),
      (world tickSettings []).machine.run reopenedRun = some s ∧
      s.shared.log = before ++ Obs.ending i 5 mem :: after ++ Obs.returned i 5 :: post ∧
      ((mem tickThread).turns.lookup 9).map TurnState.agent = some 5 ∧
      Reopened tickThread 9 (after ++ Obs.returned i 5 :: post) := by
  have hends : ((world tickSettings []).machine.run reopenedRun).map (fun s =>
      (s.shared.log.map Obs.mark, s.shared.log.filterMap Obs.found,
        s.shared.memLock tickThread,
        ((s.shared.mem tickThread).turns.lookup 9).map TurnState.closed)) =
      some (reopenedMarks, [some 5], none, some false) := by decide +kernel
  obtain ⟨s, hrun, hs⟩ := Option.map_eq_some_iff.mp hends
  simp only [Prod.mk.injEq] at hs
  obtain ⟨hmarks, hfound, hfree, hopen⟩ := hs
  have hreturned : (Mark.returned 5) ∈ s.shared.log.map Obs.mark := by
    rw [hmarks]
    decide
  obtain ⟨obs, hobs, hmark⟩ := List.mem_map.mp hreturned
  obtain ⟨i, rfl⟩ := Obs.eq_of_mark_returned hmark
  obtain ⟨pre, post, hlog⟩ := List.append_of_mem hobs
  obtain ⟨before, after, mem, rfl, hall⟩ :=
    ended_takes_turns (Machine.reachable_of_run reopenedRun hrun) hlog
  have hagent : ((mem tickThread).turns.lookup 9).map TurnState.agent = some 5 := by
    have hending : Obs.ending i 5 mem ∈ s.shared.log := by
      rw [hlog]
      simp
    have hin : ((mem tickThread).turns.lookup 9).map TurnState.agent ∈
        s.shared.log.filterMap Obs.found := List.mem_filterMap.mpr ⟨_, hending, rfl⟩
    rw [hfound] at hin
    exact List.mem_singleton.mp hin
  obtain ⟨state, hstate, hof⟩ := Option.map_eq_some_iff.mp hagent
  obtain ⟨held, hheld, hclosed⟩ := Option.map_eq_some_iff.mp hopen
  refine ⟨s, i, before, after, post, mem, hrun, hlog, hagent, ?_⟩
  exact (hall tickThread 9 state hstate hof).2 hfree held hheld hclosed

end RunnerKit.Threads.Ops
