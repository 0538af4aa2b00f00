import RunnerKit.InboxPort.Listing

/-!
# Chains of pages that end

A caller that is alone follows the cursors of a listing, and jobs answers each read
alike. The cursor is the id of the last item of a page, and the next page is cut behind
the first item with that id. So the pages go on through the read as long as the item of
a cursor stands nowhere before its page.
-/

namespace RunnerKit.InboxPort

open RunnerKit.Jobs RunnerKit.Lib RunnerKit.Lib.Paging

/-! ## Positions in a read -/

/-- The position behind the first item with this id. -/
def posAfter (read : List UnreadItem) (a : Uuid) : ℕ :=
  (read.findIdx fun item => item.itemId = a) + 1

def startOf (read : List UnreadItem) (after : Option Uuid) : ℕ :=
  (after.map (posAfter read)).getD 0

/-- No item that is not marked, but for the last such item, has the id of another one
before it. -/
def Unrepeated (marked : List Uuid) (read : List UnreadItem) : Prop :=
  ((leaveOutMarked marked read).dropLast.map UnreadItem.itemId).Nodup

variable {marked : List Uuid} {read rest : List UnreadItem} {a : Uuid} {limit : ℕ}

theorem afterItem_eq_drop (h : a ∈ read.map UnreadItem.itemId) :
    afterItem read a = some (read.drop (posAfter read a)) := by
  induction read with
  | nil => simp at h
  | cons item read ih =>
      by_cases hitem : item.itemId = a
      · simp [afterItem, afterKey, posAfter, List.findIdx_cons, hitem]
      · have hmem : a ∈ read.map UnreadItem.itemId := by
          rcases List.mem_cons.mp h with h | h
          · exact absurd h.symm hitem
          · exact h
        have hrest := ih hmem
        simp only [afterItem, posAfter] at hrest
        simp [afterItem, afterKey, posAfter, hitem, List.findIdx_cons, hrest]

/-- What is cut for a page: its items and the cursor behind it. -/
def pageOf (marked : List Uuid) (rest : List UnreadItem) (limit : ℕ) : List UnreadItem :=
  (leaveOutMarked marked rest).take limit

def nextOf (marked : List Uuid) (rest : List UnreadItem) (limit : ℕ) : Option Uuid :=
  nextCursor (pageOf marked rest limit)
    (decide (limit < (leaveOutMarked marked rest).length))

theorem posAfter_le_of_mem {before behind : List UnreadItem}
    (h : a ∈ before.map UnreadItem.itemId) :
    posAfter (before ++ behind) a ≤ before.length := by
  obtain ⟨item, hitem, hid⟩ := List.mem_map.mp h
  have hlt : before.findIdx (fun item => item.itemId = a) < before.length :=
    List.findIdx_lt_length_of_exists ⟨item, hitem, by simpa using hid⟩
  rw [posAfter, List.findIdx_append, if_pos hlt]
  exact hlt

theorem mem_take_of_posAfter_le {p : ℕ} (hp : posAfter read a ≤ p)
    (h : a ∈ read.map UnreadItem.itemId) : a ∈ (read.take p).map UnreadItem.itemId := by
  obtain ⟨item, hitem, hid⟩ := List.mem_map.mp h
  have hlt : read.findIdx (fun item => decide (item.itemId = a)) < read.length :=
    List.findIdx_lt_length_of_exists ⟨item, hitem, by simpa using hid⟩
  have hfound := List.findIdx_getElem (w := hlt)
  refine List.mem_map.mpr ⟨_, ?_, by simpa using hfound⟩
  exact List.mem_take_iff_getElem.mpr ⟨_, Nat.lt_min.mpr ⟨hp, hlt⟩, rfl⟩

/-- The item of a cursor stands nowhere before its page, so the next page starts
further. -/
theorem further {p : ℕ} (h : Unrepeated marked read)
    (hnext : nextOf marked (read.drop p) limit = some a) : p < posAfter read a := by
  by_contra hle
  simp only [nextOf, nextCursor] at hnext
  split at hnext
  · rename_i hmore
    rw [decide_eq_true_iff] at hmore
    obtain ⟨last, hlast, hid⟩ := Option.map_eq_some_iff.mp hnext
    obtain ⟨init, hinit⟩ := List.getLast?_eq_some_iff.mp hlast
    have hunmarked : last ∈ leaveOutMarked marked (read.drop p) :=
      List.mem_of_mem_take (hinit ▸ List.mem_append_right _ List.mem_cons_self)
    obtain ⟨hdrop, hmark⟩ := List.mem_filter.mp hunmarked
    have hread : last ∈ read := List.mem_of_mem_drop hdrop
    have htake := mem_take_of_posAfter_le (Nat.not_lt.mp hle)
      (List.mem_map.mpr ⟨last, hread, hid⟩)
    obtain ⟨earlier, hearlier, hsame⟩ := List.mem_map.mp htake
    have hkept : earlier ∈ leaveOutMarked marked (read.take p) := by
      refine List.mem_filter.mpr ⟨hearlier, ?_⟩
      rw [hsame, ← hid]
      exact hmark
    -- the items before the page, the page, and what is left behind it
    have hsplit : leaveOutMarked marked read =
        leaveOutMarked marked (read.take p) ++
          ((init ++ [last]) ++ (leaveOutMarked marked (read.drop p)).drop limit) := by
      have hcut : (init ++ [last]) ++ (leaveOutMarked marked (read.drop p)).drop limit =
          leaveOutMarked marked (read.drop p) := by
        rw [← hinit]
        exact List.take_append_drop limit _
      rw [hcut]
      simp only [leaveOutMarked, ← List.filter_append, List.take_append_drop]
    have hbehind : (leaveOutMarked marked (read.drop p)).drop limit ≠ [] := by
      simpa using hmore
    rw [Unrepeated, hsplit, ← List.append_assoc, List.dropLast_append_of_ne_nil hbehind,
      List.map_append, List.map_append] at h
    have hapart := (List.nodup_append.mp h.of_append_left).2.2
    exact hapart _ (List.mem_map_of_mem hkept) _
      (List.mem_map_of_mem (List.mem_append_right init List.mem_cons_self))
      (hsame.trans hid.symm)
  · cases hnext

/-- A list with a repeated key has an item whose key stands before it. -/
theorem exists_repeated {α κ : Type} {key : α → κ} {l : List α} (h : ¬ (l.map key).Nodup) :
    ∃ before item behind, l = before ++ item :: behind ∧ key item ∈ before.map key := by
  induction l using List.reverseRecOn with
  | nil => simp at h
  | append_singleton l last ih =>
      by_cases hl : (l.map key).Nodup
      · refine ⟨l, last, [], rfl, ?_⟩
        by_contra hnew
        apply h
        rw [List.map_append]
        exact hl.append (List.nodup_singleton _) (by simpa using hnew)
      · obtain ⟨before, item, behind, rfl, hkey⟩ := ih hl
        exact ⟨before, item, behind ++ [last], by simp, hkey⟩

/-- Behind a repeated id there is a place in the read that pages of one item never
leave. -/
theorem never_further (h : ¬ Unrepeated marked read) :
    ∃ m, ∀ p ≤ m, ∃ a, nextOf marked (read.drop p) 1 = some a ∧
      a ∈ read.map UnreadItem.itemId ∧ posAfter read a ≤ m := by
  obtain ⟨before, item, behind, hsplit, hid⟩ := exists_repeated h
  obtain ⟨last, hlast⟩ : ∃ last, leaveOutMarked marked read =
      before ++ item :: (behind ++ [last]) := by
    have hne : leaveOutMarked marked read ≠ [] := by
      intro hnil
      simp [hnil] at hsplit
    refine ⟨(leaveOutMarked marked read).getLast hne, ?_⟩
    conv_lhs => rw [← List.dropLast_append_getLast hne, hsplit]
    simp
  obtain ⟨start, rest, rfl, hstart, hrest⟩ := List.filter_eq_append_iff.mp hlast
  obtain ⟨skipped, tail, rfl, -, hitem, htail⟩ := List.filter_eq_cons_iff.mp hrest
  -- the item stands behind `start ++ skipped`, and one with its id in `start`
  have hstays : item.itemId ∈ (start ++ skipped).map UnreadItem.itemId := by
    obtain ⟨other, hother, hsame⟩ := List.mem_map.mp hid
    rw [← hstart] at hother
    exact List.mem_map.mpr
      ⟨other, List.mem_append_left _ (List.mem_filter.mp hother).1, hsame⟩
  refine ⟨(start ++ skipped).length, fun p hp => ?_⟩
  have hread : start ++ (skipped ++ item :: tail) = (start ++ skipped) ++ item :: tail := by
    simp
  rw [hread, List.drop_append_of_le_length hp]
  have hunmarked : leaveOutMarked marked ((start ++ skipped).drop p ++ item :: tail) =
      leaveOutMarked marked ((start ++ skipped).drop p) ++ item :: (behind ++ [last]) := by
    have hcons : leaveOutMarked marked (item :: tail) =
        item :: leaveOutMarked marked tail := List.filter_cons_of_pos hitem
    rw [leaveOutMarked, List.filter_append, ← htail]
    exact congrArg _ hcons
  obtain ⟨first, more, hfirst, hmore, hin⟩ : ∃ first more,
      leaveOutMarked marked ((start ++ skipped).drop p ++ item :: tail) = first :: more ∧
      more ≠ [] ∧ first.itemId ∈ (start ++ skipped).map UnreadItem.itemId := by
    rw [hunmarked]
    cases hcut : leaveOutMarked marked ((start ++ skipped).drop p) with
    | nil => exact ⟨item, behind ++ [last], rfl, by simp, hstays⟩
    | cons first more =>
        refine ⟨first, more ++ item :: (behind ++ [last]), rfl, by simp, ?_⟩
        have hkept : first ∈ leaveOutMarked marked ((start ++ skipped).drop p) :=
          hcut ▸ List.mem_cons_self
        exact List.mem_map_of_mem (List.mem_of_mem_drop (List.mem_filter.mp hkept).1)
  refine ⟨first.itemId, ?_, ?_, posAfter_le_of_mem hin⟩
  · simp [nextOf, pageOf, hfirst, nextCursor, hmore, List.length_pos_iff]
  · rw [List.map_append]
    exact List.mem_append_left _ hin

/-! ## A caller that is alone -/

def Obs.next : Obs → Option Uuid
  | .page _ _ _ next => next
  | .marked _ _ => none

namespace Sys

/-- An event of the listing `c`, whose calls have this limit and whose reads give
`read`. -/
def IsAlone (c limit : ℕ) (read : List UnreadItem) : Event → Prop
  | .items v n => v = c ∧ n = limit
  | .step v | .converted v _ | .drop v => v = c
  | .readDone v result => v = c ∧ ∀ found, result = .ok found → found = read
  | _ => False

/-- The runs of one caller that begins a listing, with no other operation. -/
def Alone (s : Sys) (agent : Uuid) (limit : ℕ) (read : List UnreadItem) : Sys → Prop :=
  Machine.Reach (M := ⟨s.begin agent none, step⟩)
    fun _ e => IsAlone s.nextListing limit read e

/-- The pages that were given since `s`. -/
def pagesSince (s t : Sys) : List Obs := t.log.drop s.log.length

/-- Where in the read the pages since `s` start, with the page that comes next. -/
def startsSince (s t : Sys) (read : List UnreadItem) : List ℕ :=
  0 :: ((s.pagesSince t).filterMap Obs.next).map (posAfter read)

variable {s t t' : Sys} {agent : Uuid} {c : ℕ} {l : Listing} {cut : Cut}

/-- The page is cut behind the cursor of the listing. -/
structure CutAlone (s : Sys) (l : Listing) (limit : ℕ) (read : List UnreadItem) (cut : Cut) :
    Prop where
  read_eq : cut.read = read
  next : cut.next =
    nextOf (s.inbox.marked l.agent) (read.drop (startOf read l.after)) limit

/-- What holds of the listing where its call stands. -/
def PlaceOk (s t : Sys) (limit : ℕ) (read : List UnreadItem) (l : Listing) : Prop :=
  match l.place with
  | .idle => l.finished = false → l.after.isSome → t.inbox.snapshots l.agent = some read
  | .starting n => n = limit ∧ l.finished = false ∧
      (l.after.isSome → t.inbox.snapshots l.agent = some read)
  | .reading n => n = limit ∧ l.finished = false ∧ s.queued l.agent = false ∧ l.after = none
  | .cutting n rest found fresh => n = limit ∧ l.finished = false ∧ s.queued l.agent = false ∧
      rest = read.drop (startOf read l.after) ∧ found = read ∧
      (fresh = false ∨ l.after.isSome → t.inbox.snapshots l.agent = some read)
  | .converting cut | .keeping cut => CutAlone s l limit read cut ∧
      l.finished = false ∧ s.queued l.agent = false ∧
      (cut.fresh = false ∨ l.after.isSome → t.inbox.snapshots l.agent = some read)
  | .recording cut _ => CutAlone s l limit read cut ∧
      l.finished = false ∧ s.queued l.agent = false ∧
      (cut.next.isSome → t.inbox.snapshots l.agent = some read)

/-- The pages given so far fit to the cursor of the listing. -/
structure Paged (s : Sys) (l : Listing) (read : List UnreadItem) (pages : List Obs) :
    Prop where
  after : l.after = (pages.filterMap Obs.next).getLast?
  count : pages.length = (pages.filterMap Obs.next).length + (if l.finished then 1 else 0)
  mem : ∀ a ∈ pages.filterMap Obs.next, a ∈ read.map UnreadItem.itemId
  queued : s.queued l.agent = true → pages.filterMap Obs.next = []
  further : Unrepeated (s.inbox.marked l.agent) read →
    (0 :: (pages.filterMap Obs.next).map (posAfter read)).Pairwise (· < ·)

/-- What holds of the listing at any time while its caller is alone. -/
structure AloneInv (s : Sys) (agent : Uuid) (limit : ℕ) (read : List UnreadItem) (t : Sys)
    (l : Listing) : Prop where
  listing : t.listings s.nextListing = some l
  agent : l.agent = agent
  marked : t.inbox.marked = s.inbox.marked
  queued : t.queued = s.queued
  paged : ∃ pages, t.log = s.log ++ pages ∧ Paged s l read pages
  place : PlaceOk s t limit read l

theorem alone_init (s : Sys) (agent : Uuid) (limit : ℕ) (read : List UnreadItem) :
    AloneInv s agent limit read (s.begin agent none) ⟨agent, none, none, false, .idle⟩ where
  listing := by simp [begin, setListing]
  agent := rfl
  marked := rfl
  queued := rfl
  paged := ⟨[], by simp [begin, setListing], by constructor <;> simp⟩
  place := by simp [PlaceOk]

/-- The listing moves to another place of its call, and the marks stay. -/
theorem AloneInv.moveWith (h : AloneInv s agent limit read t l) {p : Place} {inbox : Inbox}
    (hmarked : inbox.marked = t.inbox.marked)
    (hplace : PlaceOk s { t with inbox := inbox } limit read { l with place := p }) :
    AloneInv s agent limit read { t.moveTo s.nextListing l p with inbox := inbox }
      { l with place := p } where
  listing := by simp [Sys.moveTo, setListing]
  agent := h.agent
  marked := hmarked.trans h.marked
  queued := h.queued
  paged := by
    obtain ⟨pages, hlog, hpaged⟩ := h.paged
    exact ⟨pages, hlog, ⟨hpaged.after, hpaged.count, hpaged.mem, hpaged.queued, hpaged.further⟩⟩
  place := hplace

theorem AloneInv.moveTo (h : AloneInv s agent limit read t l) {p : Place}
    (hplace : PlaceOk s t limit read { l with place := p }) :
    AloneInv s agent limit read (t.moveTo s.nextListing l p) { l with place := p } :=
  h.moveWith rfl hplace

/-- A page is given: the next one starts further, if there is one. -/
theorem AloneInv.give (h : AloneInv s agent limit read t l) (hfinished : l.finished = false)
    (found : Option (List UnreadItem)) (page : List UnreadItem) {next : Option Uuid}
    (hnext : ∀ a, next = some a → s.queued l.agent = false ∧
      t.inbox.snapshots l.agent = some read ∧ a ∈ read.map UnreadItem.itemId ∧
      (Unrepeated (s.inbox.marked l.agent) read → startOf read l.after < posAfter read a)) :
    AloneInv s agent limit read (t.give s.nextListing l found page next)
      { l with after := next.or l.after, finished := next.isNone, place := .idle } := by
  obtain ⟨pages, hlog, hpaged⟩ := h.paged
  refine ⟨by simp [Sys.give, setListing], h.agent, h.marked, h.queued,
    ⟨pages ++ [.page s.nextListing found page next], ?_, ?_⟩, ?_⟩
  · simp [Sys.give, setListing, hlog]
  · obtain ⟨hafter, hcount, hmem, hqueued, hfurther⟩ := hpaged
    rw [hfinished] at hcount
    cases next with
    | none =>
        refine ⟨?_, ?_, ?_, ?_, ?_⟩ <;>
          simp only [List.filterMap_append, List.filterMap_cons, Obs.next, List.filterMap_nil,
            List.append_nil]
        · simpa using hafter
        · simpa using hcount
        · exact hmem
        · exact hqueued
        · exact hfurther
    | some a =>
        obtain ⟨hq, -, hin, hfar⟩ := hnext a rfl
        refine ⟨?_, ?_, ?_, ?_, ?_⟩ <;>
          simp only [List.filterMap_append, List.filterMap_cons, Obs.next, List.filterMap_nil]
        · simp
        · simpa using hcount
        · intro b hb
          rcases List.mem_append.mp hb with hb | hb
          · exact hmem b hb
          · rw [List.mem_singleton.mp hb]
            exact hin
        · simp [hq]
        · intro hunrepeated
          have hold := hfurther hunrepeated
          rw [List.map_append, ← List.cons_append, List.pairwise_append]
          refine ⟨hold, by simp, ?_⟩
          intro p hp q hq
          rw [List.mem_singleton.mp hq]
          -- every page so far starts no further than the last one
          have hend : (0 :: (pages.filterMap Obs.next).map (posAfter read)).getLast? =
              some (startOf read l.after) := by
            rw [hafter, startOf, ← List.getLast?_map, List.getLast?_cons]
          have hlast : p ≤ startOf read l.after := by
            have hsorted : Sorted (· < ·) id
                (0 :: (pages.filterMap Obs.next).map (posAfter read)) := hold
            rcases hsorted.le_last hend hp with heq | hlt
            · exact Nat.le_of_eq heq
            · exact Nat.le_of_lt hlt
          exact Nat.lt_of_le_of_lt hlast (hfar hunrepeated)
  · intro hfin hsome
    cases next with
    | none => simp at hfin
    | some a => exact (hnext a rfl).2.1

/-- The item of a cursor is in the read that its page was cut from. -/
theorem mem_of_nextOf {p : ℕ} (h : nextOf marked (read.drop p) limit = some a) :
    a ∈ read.map UnreadItem.itemId := by
  simp only [nextOf, nextCursor] at h
  split at h
  · obtain ⟨last, hlast, rfl⟩ := Option.map_eq_some_iff.mp h
    have hmem := List.mem_of_mem_take (List.mem_of_getLast? hlast)
    exact List.mem_map_of_mem (List.mem_of_mem_drop (List.mem_filter.mp hmem).1)
  · cases h

theorem AloneInv.start (h : AloneInv s agent limit read t l)
    (hplace : l.place = .starting limit) :
    ∃ l', AloneInv s agent limit read (t.start s.nextListing l limit) l' := by
  have hok := h.place
  simp only [PlaceOk, hplace, true_and] at hok
  obtain ⟨hfin, hsnap⟩ := hok
  unfold Sys.start
  split
  · exact ⟨_, h.give hfin none [] (by simp)⟩
  · rename_i hq
    have hqueued : s.queued l.agent = false := by
      rw [← h.queued]
      exact eq_false_of_ne_true hq
    cases hafter : l.after with
    | none =>
        refine ⟨_, h.moveTo (p := .reading limit) ?_⟩
        exact ⟨rfl, hfin, hqueued, hafter⟩
    | some a =>
        have hkept := hsnap (by simp [hafter])
        obtain ⟨pages, -, hpaged⟩ := h.paged
        have hmem : a ∈ read.map UnreadItem.itemId :=
          hpaged.mem a (List.mem_of_getLast? (hpaged.after ▸ hafter))
        have hrest : restOfSnapshot (t.inbox.snapshots l.agent) (some a) =
            some (read.drop (posAfter read a), read) := by
          simp [restOfSnapshot, hkept, afterItem_eq_drop hmem]
        rw [hrest]
        refine ⟨_, h.moveTo (p := .cutting limit _ read false) ?_⟩
        exact ⟨rfl, hfin, hqueued, by simp [startOf, hafter], rfl, fun _ => hkept⟩

theorem AloneInv.listingStep (h : AloneInv s agent limit read t l)
    (hs : t.listingStep s.nextListing l = some t') :
    ∃ l', AloneInv s agent limit read t' l' := by
  have hok := h.place
  unfold Sys.listingStep at hs
  split at hs
  · rename_i n hplace
    cases hs
    simp only [PlaceOk, hplace] at hok
    obtain ⟨rfl, -⟩ := hok
    exact h.start hplace
  · rename_i n rest found fresh hplace
    cases hs
    simp only [PlaceOk, hplace] at hok
    obtain ⟨rfl, hfin, hq, rfl, rfl, hsnap⟩ := hok
    refine ⟨_, h.moveTo (p := .converting _) ?_⟩
    exact ⟨⟨rfl, by rw [h.marked]; rfl⟩, hfin, hq, hsnap⟩
  · rename_i cut hplace
    cases hs
    simp only [PlaceOk, hplace] at hok
    obtain ⟨hcut, hfin, hq, hsnap⟩ := hok
    unfold Sys.keep
    cases hnext : cut.next.isSome with
    | false =>
        refine ⟨_, h.moveWith (p := .recording cut cut.page) rfl ?_⟩
        exact ⟨⟨hcut.read_eq, hcut.next⟩, hfin, hq, by simp [hnext]⟩
    | true =>
        cases hfresh : cut.fresh with
        | true =>
            refine ⟨_, h.moveWith (p := .recording cut cut.page) rfl ?_⟩
            refine ⟨⟨hcut.read_eq, hcut.next⟩, hfin, hq, fun _ => ?_⟩
            simp [Inbox.keepSnapshot, hcut.read_eq]
        | false =>
            refine ⟨_, h.moveTo (p := .recording cut cut.page) ?_⟩
            exact ⟨⟨hcut.read_eq, hcut.next⟩, hfin, hq, fun _ => hsnap (Or.inl hfresh)⟩
  · rename_i cut rest hplace
    cases hs
    simp only [PlaceOk, hplace] at hok
    obtain ⟨hcut, hfin, hq, hsnap⟩ := hok
    cases rest with
    | nil =>
        refine ⟨_, h.give hfin _ _ fun a ha => ?_⟩
        have hnext := hcut.next.symm.trans ha
        exact ⟨hq, hsnap (by simp [ha]), mem_of_nextOf hnext,
          fun hunrepeated => further hunrepeated hnext⟩
    | cons item rest =>
        refine ⟨_, h.moveWith (p := .recording cut rest) rfl ?_⟩
        exact ⟨⟨hcut.read_eq, hcut.next⟩, hfin, hq, hsnap⟩
  · cases hs

/-- Each step of the caller keeps the invariant, also one that fails or drops its
call. -/
theorem AloneInv.step (h : AloneInv s agent limit read t l) {e : Event}
    (halone : IsAlone s.nextListing limit read e) (hs : t.step e = some t') :
    ∃ l', AloneInv s agent limit read t' l' := by
  have hok := h.place
  cases e with
  | items v n =>
      obtain ⟨rfl, rfl⟩ := halone
      simp only [Sys.step, h.listing, Option.bind_some] at hs
      split at hs
      · rename_i hplace
        split at hs
        · cases hs
        · rename_i hgo
          cases hs
          simp only [PlaceOk, hplace] at hok
          have hfin : l.finished = false := by
            cases hfin : l.finished with
            | false => rfl
            | true => simp [hfin] at hgo
          exact ⟨_, h.moveTo (p := .starting _) ⟨rfl, hfin, hok hfin⟩⟩
      · cases hs
  | step v =>
      cases halone
      simp only [Sys.step, h.listing, Option.bind_some] at hs
      exact h.listingStep hs
  | readDone v result =>
      obtain ⟨rfl, hread⟩ := halone
      simp only [Sys.step, h.listing, Option.bind_some] at hs
      unfold Sys.readDone at hs
      split at hs
      · rename_i found
        cases hread found rfl
        split at hs
        · rename_i n hplace
          cases hs
          simp only [PlaceOk, hplace] at hok
          obtain ⟨rfl, hfin, hq, hafter⟩ := hok
          refine ⟨_, h.moveTo (p := .cutting _ _ _ true) ?_⟩
          refine ⟨rfl, hfin, hq, ?_, rfl, ?_⟩
          · simp [hafter, restOfRead, startOf]
          · simp [hafter]
        · cases hs
      · split at hs
        · rename_i n hplace
          cases hs
          simp only [PlaceOk, hplace] at hok
          exact ⟨_, h.moveTo (p := .idle) (by simp [PlaceOk, hok.2.2.2])⟩
        · cases hs
  | converted v ok =>
      cases halone
      simp only [Sys.step, h.listing, Option.bind_some] at hs
      unfold Sys.converted at hs
      split at hs
      · rename_i cut hplace
        cases hs
        simp only [PlaceOk, hplace] at hok
        obtain ⟨hcut, hfin, hq, hsnap⟩ := hok
        cases ok with
        | true =>
            exact ⟨_, h.moveTo (p := .keeping cut)
              ⟨⟨hcut.read_eq, hcut.next⟩, hfin, hq, hsnap⟩⟩
        | false => exact ⟨_, h.moveTo (p := .idle) fun _ hsome => hsnap (Or.inr hsome)⟩
      · cases hs
  | drop v =>
      cases halone
      simp only [Sys.step, h.listing, Option.bind_some] at hs
      unfold Sys.drop at hs
      split at hs
      · rename_i n hplace
        cases hs
        simp only [PlaceOk, hplace] at hok
        exact ⟨_, h.moveTo (p := .idle) (by simp [PlaceOk, hok.2.2.2])⟩
      · rename_i cut hplace
        cases hs
        simp only [PlaceOk, hplace] at hok
        exact ⟨_, h.moveTo (p := .idle) fun _ hsome => hok.2.2.2 (Or.inr hsome)⟩
      · cases hs
  | begin agent after => cases halone
  | registrationEnded agent => cases halone
  | markRead agent entryId => cases halone

theorem alone_inv (h : Alone s agent limit read t) :
    ∃ l, AloneInv s agent limit read t l := by
  refine Machine.Reach.invariant (P := fun t => ∃ l, AloneInv s agent limit read t l)
    ⟨_, alone_init s agent limit read⟩ ?_ h
  rintro t t' e - ⟨l, hl⟩ halone hs
  exact hl.step halone hs

theorem pagesSince_append {pages : List Obs} (h : t.log = s.log ++ pages) :
    s.pagesSince t = pages := by
  rw [pagesSince, h, List.drop_left]

/-- Positions that go on and on within a read are not more than the read has. -/
theorem length_le_of_further {starts : List ℕ} {n : ℕ}
    (h : (0 :: starts).Pairwise (· < ·)) (hle : ∀ p ∈ starts, p ≤ n) : starts.length ≤ n := by
  have hnodup : (0 :: starts).Nodup := h.imp Nat.ne_of_lt
  have hsub : (0 :: starts) ⊆ List.range (n + 1) := by
    intro p hp
    rw [List.mem_range]
    rcases List.mem_cons.mp hp with rfl | hp
    · omega
    · have hlast := hle p hp
      omega
  have hlen := (List.subperm_of_subset hnodup hsub).length_le
  simpa using hlen

theorem posAfter_le (h : a ∈ read.map UnreadItem.itemId) : posAfter read a ≤ read.length := by
  have hle : posAfter (read ++ []) a ≤ read.length := posAfter_le_of_mem h
  rwa [List.append_nil] at hle

/-- Unless an id is repeated, a chain has at most one page more than the read has
items, and each page starts further in the read than the page before. -/
theorem AloneInv.bound (h : AloneInv s agent limit read t l)
    (hok : s.queued agent = true ∨ Unrepeated (s.inbox.marked agent) read) :
    (s.pagesSince t).length ≤ read.length + 1 ∧
      (s.startsSince t read).Pairwise (· < ·) := by
  obtain ⟨pages, hlog, hpaged⟩ := h.paged
  have hcount := hpaged.count
  have hle : (pages.filterMap Obs.next).length + (if l.finished then 1 else 0) ≤
      (pages.filterMap Obs.next).length + 1 := by
    split <;> omega
  rw [startsSince, pagesSince_append hlog]
  rcases hok with hq | hunrepeated
  · have hnil := hpaged.queued (h.agent ▸ hq)
    rw [hnil] at hcount hle ⊢
    refine ⟨?_, by simp⟩
    simp only [List.length_nil] at hcount hle
    omega
  · have hfurther := hpaged.further (h.agent ▸ hunrepeated)
    refine ⟨?_, hfurther⟩
    have hbound := length_le_of_further hfurther (n := read.length) fun p hp => by
      obtain ⟨a, ha, rfl⟩ := List.mem_map.mp hp
      exact posAfter_le (hpaged.mem a ha)
    rw [List.length_map] at hbound
    omega

/-! ### A chain that goes on -/

/-- The next step of the caller. -/
theorem Alone.next (h : Alone s agent limit read t) {e : Event}
    (halone : IsAlone s.nextListing limit read e) (hs : t.step e = some t') :
    Alone s agent limit read t' :=
  Machine.Reach.step h halone hs

theorem Alone.listingStep (h : Alone s agent limit read t)
    (hl : t.listings s.nextListing = some l)
    (hs : t.listingStep s.nextListing l = some t') : Alone s agent limit read t' := by
  apply h.next (e := .step s.nextListing) rfl
  simp only [Sys.step, hl, Option.bind_some]
  exact hs

@[simp] theorem moveTo_listing (p : Place) :
    (t.moveTo c l p).listings c = some { l with place := p } := by
  simp [Sys.moveTo, setListing]

@[simp] theorem keep_listing :
    (t.keep c l cut).listings c = some { l with place := .recording cut cut.page } := by
  unfold Sys.keep
  split <;> simp

@[simp] theorem keep_log : (t.keep c l cut).log = t.log := by
  unfold Sys.keep
  split <;> rfl

/-- The items of a page are recorded one by one, and the page is given. -/
theorem Alone.recorded {rest : List UnreadItem} (h : Alone s agent limit read t)
    (hl : t.listings s.nextListing = some l) (hplace : l.place = .recording cut rest) :
    ∃ t', Alone s agent limit read t' ∧
      t'.listings s.nextListing = some
        { l with after := cut.next.or l.after, finished := cut.next.isNone, place := .idle } ∧
      t'.log = t.log ++ [.page s.nextListing (some cut.read) cut.page cut.next] := by
  induction rest generalizing t l with
  | nil =>
      refine ⟨t.record s.nextListing l cut [], h.listingStep hl ?_, ?_, rfl⟩
      · simp only [Sys.listingStep, hplace]
      · simp [Sys.record, Sys.give, setListing]
  | cons item rest ih =>
      have hnext : Alone s agent limit read (t.record s.nextListing l cut (item :: rest)) :=
        h.listingStep hl (by simp only [Sys.listingStep, hplace])
      have hl' : (t.record s.nextListing l cut (item :: rest)).listings s.nextListing =
          some { l with place := .recording cut rest } := moveTo_listing _
      obtain ⟨t', ht', hlast, hlog⟩ := ih hnext hl' rfl
      exact ⟨t', ht', hlast, hlog⟩

/-- From the cut on a call of the caller gives its page. -/
theorem Alone.given {rest found : List UnreadItem} {fresh : Bool}
    (h : Alone s agent limit read t) (hl : t.listings s.nextListing = some l)
    (hplace : l.place = .cutting limit rest found fresh) :
    ∃ t' page, Alone s agent limit read t' ∧
      t'.listings s.nextListing = some { l with
        after := (nextOf (t.inbox.marked l.agent) rest limit).or l.after
        finished := (nextOf (t.inbox.marked l.agent) rest limit).isNone, place := .idle } ∧
      t'.log = t.log ++ [.page s.nextListing (some found) page
        (nextOf (t.inbox.marked l.agent) rest limit)] := by
  have h1 : Alone s agent limit read (t.cutPage s.nextListing l limit rest found fresh) :=
    h.listingStep hl (by simp only [Sys.listingStep, hplace])
  obtain ⟨cut, hcut, hnext⟩ : ∃ cut : Cut,
      t.cutPage s.nextListing l limit rest found fresh =
        t.moveTo s.nextListing l (.converting cut) ∧ cut =
        ⟨found, fresh, pageOf (t.inbox.marked l.agent) rest limit,
          nextOf (t.inbox.marked l.agent) rest limit⟩ := ⟨_, rfl, rfl⟩
  rw [hcut] at h1
  have h2 : Alone s agent limit read ((t.moveTo s.nextListing l (.converting cut)).moveTo
      s.nextListing { l with place := .converting cut } (.keeping cut)) := by
    apply h1.next (e := .converted s.nextListing true) rfl
    simp only [Sys.step, moveTo_listing, Option.bind_some]
    rfl
  have h3 := h2.listingStep (moveTo_listing _) rfl
  obtain ⟨t', ht', hl', hlog⟩ := h3.recorded keep_listing rfl
  refine ⟨t', cut.page, ht', ?_, ?_⟩
  · rw [hl', hnext]
  · rw [hlog, keep_log, hnext]
    rfl

/-- Each call of the caller can give its page, and then the next page comes behind the
first item with the id of the cursor. -/
theorem Alone.page (h : Alone s agent limit read t) (hlimit : 0 < limit)
    (hq : s.queued agent = false) (hinv : AloneInv s agent limit read t l)
    (hidle : l.place = .idle) (hfin : l.finished = false) {next : Option Uuid}
    (hnext : nextOf (s.inbox.marked agent) (read.drop (startOf read l.after)) limit = next) :
    ∃ t' found page, Alone s agent limit read t' ∧
      t'.listings s.nextListing =
        some { l with after := next.or l.after, finished := next.isNone, place := .idle } ∧
      t'.log = t.log ++ [.page s.nextListing found page next] := by
  have hok := hinv.place
  simp only [PlaceOk, hidle] at hok
  have h1 : Alone s agent limit read (t.moveTo s.nextListing l (.starting limit)) := by
    apply h.next (e := .items s.nextListing limit) ⟨rfl, rfl⟩
    simp [Sys.step, hinv.listing, hidle, hfin, Nat.ne_of_gt hlimit]
  have hqueued : t.queued l.agent = false := by
    rw [hinv.queued, hinv.agent]
    exact hq
  have h2 := h1.listingStep (moveTo_listing _) rfl
  obtain ⟨t2, fresh, hcut, h3, hlog⟩ : ∃ t2 fresh,
      t2.listings s.nextListing = some { l with
        place := .cutting limit (read.drop (startOf read l.after)) read fresh } ∧
      Alone s agent limit read t2 ∧ t2.inbox = t.inbox ∧ t2.log = t.log := by
    rcases Option.eq_none_or_eq_some l.after with hafter | ⟨a, hafter⟩
    · have hstart : (t.moveTo s.nextListing l (.starting limit)).start s.nextListing
          { l with place := .starting limit } limit =
          (t.moveTo s.nextListing l (.starting limit)).moveTo s.nextListing
            { l with place := .starting limit } (.reading limit) := by
        simp [Sys.start, Sys.moveTo, setListing, hqueued, hafter, restOfSnapshot]
      rw [hstart] at h2
      refine ⟨((t.moveTo s.nextListing l (.starting limit)).moveTo s.nextListing
        { l with place := .starting limit } (.reading limit)).moveTo s.nextListing
        { l with place := .reading limit }
        (.cutting limit (read.drop (startOf read l.after)) read true),
        true, moveTo_listing _, h2.next
        (e := .readDone s.nextListing (.ok read)) ⟨rfl, fun found heq => ?_⟩ ?_, rfl, rfl⟩
      · cases heq
        rfl
      · simp [Sys.step, Sys.readDone, restOfRead, hafter, startOf]
    · have hkept := hok hfin (by simp [hafter])
      obtain ⟨pages, -, hpaged⟩ := hinv.paged
      have hmem : a ∈ read.map UnreadItem.itemId :=
        hpaged.mem a (List.mem_of_getLast? (hpaged.after ▸ hafter))
      have hrest : restOfSnapshot (t.inbox.snapshots l.agent) (some a) =
          some (read.drop (posAfter read a), read) := by
        simp [restOfSnapshot, hkept, afterItem_eq_drop hmem]
      have hstart : (t.moveTo s.nextListing l (.starting limit)).start s.nextListing
          { l with place := .starting limit } limit =
          (t.moveTo s.nextListing l (.starting limit)).moveTo s.nextListing
            { l with place := .starting limit }
            (.cutting limit (read.drop (posAfter read a)) read false) := by
        simp [Sys.start, Sys.moveTo, setListing, hqueued, hafter, hrest]
      rw [hstart] at h2
      refine ⟨_, false, ?_, h2, rfl, rfl⟩
      simp [startOf, hafter]
  obtain ⟨t', page, ht', hl', hlog'⟩ := h3.given hcut rfl
  have hmarked : t2.inbox.marked l.agent = s.inbox.marked agent := by
    rw [hlog.1, hinv.marked, hinv.agent]
  simp only [hmarked, hnext] at hl' hlog'
  exact ⟨t', _, page, ht', hl', by rw [hlog', hlog.2]⟩

/-- Where pages of one item never leave a part of the read, there is always another
page. -/
theorem Alone.endless (s : Sys) (agent : Uuid) (hq : s.queued agent = false) {m : ℕ}
    (hm : ∀ p ≤ m, ∃ a, nextOf (s.inbox.marked agent) (read.drop p) 1 = some a ∧
      a ∈ read.map UnreadItem.itemId ∧ posAfter read a ≤ m) (n : ℕ) :
    ∃ t l, Alone s agent 1 read t ∧ t.listings s.nextListing = some l ∧ l.place = .idle ∧
      l.finished = false ∧ startOf read l.after ≤ m ∧ (s.pagesSince t).length = n := by
  induction n with
  | zero =>
      refine ⟨s.begin agent none, _, .init, (alone_init s agent 1 read).listing, rfl, rfl, ?_, ?_⟩
      · simp [startOf]
      · simp [pagesSince, begin, setListing]
  | succ n ih =>
      obtain ⟨t, l, ht, hl, hidle, hfin, hstart, hlen⟩ := ih
      obtain ⟨l', hinv⟩ := alone_inv ht
      cases hl.symm.trans hinv.listing
      obtain ⟨a, hnext, -, ha⟩ := hm _ hstart
      obtain ⟨t', found, page, ht', hl', hlog⟩ :=
        ht.page Nat.one_pos hq hinv hidle hfin hnext
      refine ⟨t', _, ht', hl', rfl, rfl, by simpa [startOf] using ha, ?_⟩
      obtain ⟨pages, hpages, -⟩ := hinv.paged
      have hmore : t'.log = s.log ++ (pages ++ [.page s.nextListing found page (some a)]) := by
        rw [hlog, hpages, List.append_assoc]
      rw [pagesSince_append hpages] at hlen
      rw [pagesSince_append hmore, List.length_append, hlen]
      rfl

/-- A listing of a caller that is alone ends for every limit, each page starting further
than the one before, exactly if the agent is not registered yet or no item that is not
marked, but for the last one, repeats an id. -/
theorem chain_ends (s : Sys) (agent : Uuid) (read : List UnreadItem) :
    (∀ limit, 0 < limit → ∃ bound, ∀ t, Alone s agent limit read t →
      (s.pagesSince t).length ≤ bound ∧ (s.startsSince t read).Pairwise (· < ·)) ↔
    (s.queued agent = true ∨ Unrepeated (s.inbox.marked agent) read) := by
  constructor
  · intro h
    by_contra hno
    push Not at hno
    obtain ⟨hq, hrepeated⟩ := hno
    obtain ⟨m, hm⟩ := never_further hrepeated
    obtain ⟨bound, hbound⟩ := h 1 Nat.one_pos
    obtain ⟨t, -, ht, -, -, -, -, hlen⟩ :=
      Alone.endless s agent (eq_false_of_ne_true hq) hm (bound + 1)
    have hle := (hbound t ht).1
    omega
  · intro hok limit _
    refine ⟨read.length + 1, fun t ht => ?_⟩
    obtain ⟨l, hl⟩ := alone_inv ht
    exact hl.bound hok

/-- Of three notices the first two have one id. With pages of one item the second page
ends with the id of the first, and is given again and again. -/
theorem repeated_id_never_ends : ∃ (s : Sys) (agent : Uuid) (read : List UnreadItem),
    ∀ bound, ∃ t, Alone s agent 1 read t ∧ bound < (s.pagesSince t).length := by
  refine ⟨{ init with queued := fun _ => false }, 1,
    [.mailNotice 5 none none "a", .mailNotice 5 none none "b", .mailNotice 6 none none "c"],
    fun bound => ?_⟩
  have hrepeated : ¬ Unrepeated [] [.mailNotice 5 none none "a",
      .mailNotice 5 none none "b", .mailNotice 6 none none "c"] := by
    unfold Unrepeated
    decide
  obtain ⟨m, hm⟩ := never_further hrepeated
  obtain ⟨t, -, ht, -, -, -, -, hlen⟩ :=
    Alone.endless { init with queued := fun _ => false } 1 rfl hm (bound + 1)
  exact ⟨t, ht, by omega⟩

end Sys

end RunnerKit.InboxPort
