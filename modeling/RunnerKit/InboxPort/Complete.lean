import RunnerKit.InboxPort.Listing

/-!
# A listing gives every item once

The reads of an address need not be alike, but they list its items in one
order, and where a page goes on by comparing ids, that order is the order of the
ids. Then what a listing gave is the part of the order up to its cursor,
whichever read a page was cut from.
-/

namespace RunnerKit.InboxPort

open RunnerKit.Jobs RunnerKit.Lib RunnerKit.Lib.Paging

/-! ## What a listing gave -/

def Obs.itemsOf (c : ℕ) : Obs → List UnreadItem
  | .page c' _ items _ => if c' = c then items else []
  | .marked _ _ => []

def Obs.readOf (c : ℕ) : Obs → Option (List UnreadItem)
  | .page c' read _ _ => if c' = c then read else none
  | .marked _ _ => none

/-- The items of the pages of a listing. -/
def given (c : ℕ) (log : List Obs) : List UnreadItem :=
  log.flatMap (Obs.itemsOf c)

/-- The reads from which the pages of a listing were cut. -/
def readsOf (c : ℕ) (log : List Obs) : List (List UnreadItem) :=
  log.filterMap (Obs.readOf c)

def ids (items : List UnreadItem) : List Uuid := items.map UnreadItem.itemId

/-- The item is in every read that a page of the listing was cut from. -/
def InReads (c : ℕ) (log : List Obs) (k : Uuid) : Prop :=
  ∀ read ∈ readsOf c log, k ∈ ids read

instance (c : ℕ) (log : List Obs) (k : Uuid) : Decidable (InReads c log k) :=
  inferInstanceAs (Decidable (∀ read ∈ readsOf c log, k ∈ ids read))

/-- The entries tell nothing of the listing. -/
def Quiet (c : ℕ) (more : List Obs) : Prop :=
  ∀ obs ∈ more, obs.itemsOf c = [] ∧ obs.readOf c = none

variable {c : ℕ} {log more : List Obs}

@[simp] theorem quiet_nil : Quiet c [] := by simp [Quiet]

@[simp] theorem quiet_marked (agent itemId : Uuid) :
    Quiet c [.marked agent itemId] := by
  simp [Quiet, Obs.itemsOf, Obs.readOf]

theorem quiet_page {v : ℕ} (hne : v ≠ c) (read : Option (List UnreadItem))
    (items : List UnreadItem) (next : Option Uuid) :
    Quiet c [.page v read items next] := by
  simp [Quiet, Obs.itemsOf, Obs.readOf, hne]

theorem Quiet.given (h : Quiet c more) : given c (log ++ more) = given c log := by
  have hnone : more.flatMap (Obs.itemsOf c) = [] :=
    List.flatMap_eq_nil_iff.mpr fun obs hobs => (h obs hobs).1
  simp [InboxPort.given, hnone]

theorem Quiet.readsOf (h : Quiet c more) :
    readsOf c (log ++ more) = readsOf c log := by
  have hnone : more.filterMap (Obs.readOf c) = [] :=
    List.filterMap_eq_nil_iff.mpr fun obs hobs => (h obs hobs).2
  simp [InboxPort.readsOf, hnone]

@[simp] theorem given_page (read : Option (List UnreadItem))
    (items : List UnreadItem) (next : Option Uuid) :
    given c (log ++ [.page c read items next]) = given c log ++ items := by
  simp [given, Obs.itemsOf]

@[simp] theorem readsOf_page_none (items : List UnreadItem) (next : Option Uuid) :
    readsOf c (log ++ [.page c none items next]) = readsOf c log := by
  simp [readsOf, Obs.readOf]

@[simp] theorem readsOf_page (read items : List UnreadItem) (next : Option Uuid) :
    readsOf c (log ++ [.page c (some read) items next]) =
      readsOf c log ++ [read] := by
  simp [readsOf, Obs.readOf]

/-! ## Pages and cuts -/

/-- What is left of the read is what lies beyond the cursor. -/
structure Left (lt : Uuid → Uuid → Prop) (after : Option Uuid)
    (rest read : List UnreadItem) : Prop where
  sorted : Sorted lt UnreadItem.itemId read
  part : rest.Sublist read
  beyond : ∀ x, x ∈ rest ↔ x ∈ read ∧ Beyond lt after x.itemId

/-- The page lies beyond the cursor, and what is not on it is marked, was not
beyond the cursor, or lies beyond the next one. -/
structure CutOk (lt : Uuid → Uuid → Prop) (after : Option Uuid)
    (marked : List Uuid) (cut : Cut) : Prop where
  sorted : Sorted lt UnreadItem.itemId cut.read
  part : cut.page.Sublist cut.read
  beyond : ∀ x ∈ cut.page, Beyond lt after x.itemId
  covers : ∀ k ∈ ids cut.read, k ∉ marked → Beyond lt after k →
    k ∈ ids cut.page ∨ ∃ n, cut.next = some n ∧ lt n k
  last : ∀ n, cut.next = some n →
    ∃ item, cut.page.getLast? = some item ∧ item.itemId = n

variable {lt : Uuid → Uuid → Prop} {after : Option Uuid} {marked : List Uuid}

theorem left_snapshot (hirrefl : ∀ k, ¬ lt k k)
    (htrans : ∀ i j k, lt i j → lt j k → lt i k) {snapshot : Option (List UnreadItem)}
    {rest kept : List UnreadItem} (hsorted : ∀ read, snapshot = some read →
      Sorted lt UnreadItem.itemId read)
    (h : restOfSnapshot snapshot after = some (rest, kept)) :
    Left lt after rest kept := by
  unfold restOfSnapshot at h
  obtain ⟨a, ha, h⟩ := Option.bind_eq_some_iff.mp h
  obtain ⟨kept', hkept, h⟩ := Option.bind_eq_some_iff.mp h
  obtain ⟨rest', hrest, heq⟩ := Option.map_eq_some_iff.mp h
  cases heq
  subst ha
  have hs := hsorted kept hkept
  refine ⟨hs, afterKey_sublist hrest, fun x => ?_⟩
  rw [mem_afterKey hirrefl htrans hs hrest]
  simp [Beyond]

/-- Where the read does not hold the item of the cursor, the order must be that
of the ids. -/
theorem left_read (hirrefl : ∀ k, ¬ lt k k)
    (htrans : ∀ i j k, lt i j → lt j k → lt i k) {read : List UnreadItem}
    (hsorted : Sorted lt UnreadItem.itemId read)
    (hids : ∀ a, after = some a → a ∉ ids read →
      ∀ x ∈ read, lt a x.itemId ↔ a < x.itemId) :
    Left lt after (restOfRead read after) read := by
  cases after with
  | none => exact ⟨hsorted, List.Sublist.refl _, fun x => by simp [restOfRead, Beyond]⟩
  | some a =>
      cases hafter : afterItem read a with
      | some rest =>
          have hrest : restOfRead read (some a) = rest := by
            simp [restOfRead, hafter]
          rw [hrest]
          refine ⟨hsorted, afterKey_sublist hafter, fun x => ?_⟩
          rw [mem_afterKey hirrefl htrans hsorted hafter]
          simp [Beyond]
      | none =>
          have hgone : a ∉ ids read := afterKey_none hafter
          have hrest : restOfRead read (some a) = laterThan read a := by
            simp [restOfRead, hafter]
          rw [hrest]
          refine ⟨hsorted, List.filter_sublist, fun x => ?_⟩
          simp only [laterThan, List.mem_filter, decide_eq_true_eq, Beyond,
            Option.some.injEq, forall_eq']
          constructor
          · exact fun ⟨hx, hlt⟩ => ⟨hx, (hids a rfl hgone x hx).mpr hlt⟩
          · exact fun ⟨hx, hlt⟩ => ⟨hx, (hids a rfl hgone x hx).mp hlt⟩

/-- The cut of `cutPage`. -/
def cutOf (marked : List Uuid) (limit : ℕ) (rest read : List UnreadItem)
    (fresh : Bool) : Cut :=
  let unmarked := leaveOutMarked marked rest
  let page := unmarked.take limit
  ⟨read, fresh, page, nextCursor page (decide (limit < unmarked.length))⟩

theorem Left.cut {rest read : List UnreadItem} (h : Left lt after rest read)
    (limit : ℕ) (hlimit : limit ≠ 0) (fresh : Bool) :
    CutOk lt after marked (cutOf marked limit rest read fresh) := by
  have hunmarked : (leaveOutMarked marked rest).Sublist rest := List.filter_sublist
  have hpage : ((leaveOutMarked marked rest).take limit).Sublist rest :=
    (List.take_sublist ..).trans hunmarked
  refine ⟨h.sorted, hpage.trans h.part, ?_, ?_, ?_⟩
  · exact fun x hx => ((h.beyond x).mp (hpage.subset hx)).2
  · intro k hk hnot hbeyond
    obtain ⟨x, hx, rfl⟩ := List.mem_map.mp hk
    have hrest : x ∈ leaveOutMarked marked rest := by
      simp [leaveOutMarked, (h.beyond x).mpr ⟨hx, hbeyond⟩, hnot]
    rcases mem_take_or_beyond (h.sorted.sublist (hunmarked.trans h.part)) limit hrest
      with hon | hlater
    · exact Or.inl (List.mem_map_of_mem hon)
    · by_cases hmore : limit < (leaveOutMarked marked rest).length
      · -- the page is cut short, so it has a last item
        right
        cases hlast : ((leaveOutMarked marked rest).take limit).getLast? with
        | none =>
            rw [List.getLast?_eq_none_iff, List.take_eq_nil_iff] at hlast
            rcases hlast with hzero | hnil
            · exact absurd hzero hlimit
            · rw [hnil] at hmore
              simp at hmore
        | some item =>
            refine ⟨item.itemId, ?_, hlater _ (by rw [hlast]; rfl)⟩
            simp [cutOf, nextCursor, hmore, hlast]
      · left
        simp only [cutOf]
        rw [List.take_of_length_le (Nat.le_of_not_lt hmore)]
        exact List.mem_map_of_mem hrest
  · intro n hn
    simp only [cutOf, nextCursor] at hn
    split at hn
    · exact Option.map_eq_some_iff.mp hn
    · cases hn

theorem CutOk.mono {marked' : List Uuid} {cut : Cut} (h : CutOk lt after marked cut)
    (hmono : ∀ k ∈ marked, k ∈ marked') : CutOk lt after marked' cut :=
  { h with covers := fun k hk hnot => h.covers k hk fun hin => hnot (hmono k hin) }

/-! ## One listing -/

/-- What was given is the order up to the cursor; at the end it is all of it. -/
structure Chain (lt : Uuid → Uuid → Prop) (log : List Obs) (marked : List Uuid)
    (c : ℕ) (after : Option Uuid) (finished : Bool) : Prop where
  sorted : Sorted lt UnreadItem.itemId (given c log)
  upto : finished = false → ∀ x ∈ given c log,
    ∃ a, after = some a ∧ (x.itemId = a ∨ lt x.itemId a)
  going : finished = false → ∀ k, InReads c log k → k ∉ marked →
    k ∈ ids (given c log) ∨ Beyond lt after k
  all : finished = true → readsOf c log ≠ [] → ∀ k, InReads c log k →
    k ∉ marked → k ∈ ids (given c log)

def PlaceOk (lt : Uuid → Uuid → Prop) (after : Option Uuid) (marked : List Uuid) :
    Place → Prop
  | .idle => True
  | .starting limit | .reading limit => limit ≠ 0
  | .cutting limit rest read _ => limit ≠ 0 ∧ Left lt after rest read
  | .converting cut | .keeping cut | .recording cut _ => CutOk lt after marked cut

/-- The call is behind the check of the registration. -/
def Place.started : Place → Bool
  | .idle | .starting _ => false
  | _ => true

structure ListingOk (lt : Uuid → Uuid → Prop) (log : List Obs)
    (marked : List Uuid) (queued : Bool) (c : ℕ) (l : Listing) : Prop where
  place : PlaceOk lt l.after marked l.place
  busy : l.place ≠ .idle → l.finished = false
  started : l.place.started = true ∨ readsOf c log ≠ [] → queued = false
  pages : ∀ read items next, .page c read items next ∈ log →
    items.Sublist (read.getD [])
  chain : l.begun = none → Chain lt log marked c l.after l.finished

theorem chain_begin (h : given c log = []) :
    Chain lt log marked c none false where
  sorted := by simp [h, Sorted]
  upto := by simp [h]
  going := fun _ k _ _ => Or.inr (by simp [Beyond])
  all := by simp

/-- The next page fits behind what was given. -/
theorem Chain.page {cut : Cut} (htrans : ∀ i j k, lt i j → lt j k → lt i k)
    (h : Chain lt log marked c after false) (hcut : CutOk lt after marked cut) :
    Chain lt (log ++ [.page c (some cut.read) cut.page cut.next]) marked c
      (cut.next.or after) cut.next.isNone where
  sorted := by
    rw [given_page]
    exact h.sorted.append htrans (hcut.sorted.sublist hcut.part) hcut.beyond
      (h.upto rfl)
  upto := by
    intro hmore x hx
    obtain ⟨n, hn⟩ := Option.isSome_iff_exists.mp (Option.isNone_eq_false_iff.mp hmore)
    obtain ⟨item, hlast, rfl⟩ := hcut.last n hn
    refine ⟨item.itemId, by simp [hn], ?_⟩
    rw [given_page] at hx
    rcases List.mem_append.mp hx with hx | hx
    · obtain ⟨a, ha, hle⟩ := h.upto rfl x hx
      have hlt := hcut.beyond item (List.mem_of_getLast? hlast) a ha
      rcases hle with heq | hle
      · exact Or.inr (heq ▸ hlt)
      · exact Or.inr (htrans _ _ _ hle hlt)
    · exact (hcut.sorted.sublist hcut.part).le_last hlast hx
  going := by
    intro _ k hk hnot
    simp only [InReads, readsOf_page, List.forall_mem_append, List.forall_mem_singleton]
      at hk
    simp only [given_page, ids, List.map_append, List.mem_append]
    rcases h.going rfl k hk.1 hnot with hgiven | hbeyond
    · exact Or.inl (Or.inl hgiven)
    · rcases hcut.covers k hk.2 hnot hbeyond with hon | ⟨m, hm, hlt⟩
      · exact Or.inl (Or.inr hon)
      · right
        intro a ha
        rw [hm] at ha
        cases ha
        exact hlt
  all := by
    intro hend _ k hk hnot
    have hn := Option.isNone_iff_eq_none.mp hend
    simp only [InReads, readsOf_page, List.forall_mem_append, List.forall_mem_singleton]
      at hk
    simp only [given_page, ids, List.map_append, List.mem_append]
    rcases h.going rfl k hk.1 hnot with hgiven | hbeyond
    · exact Or.inl hgiven
    · rcases hcut.covers k hk.2 hnot hbeyond with hon | ⟨m, hm, -⟩
      · exact Or.inr hon
      · rw [hn] at hm
        cases hm

theorem PlaceOk.mono {marked' : List Uuid} {place : Place}
    (h : PlaceOk lt after marked place) (hmono : ∀ k ∈ marked, k ∈ marked') :
    PlaceOk lt after marked' place := by
  cases place with
  | idle => trivial
  | starting limit => exact h
  | reading limit => exact h
  | cutting limit rest read fresh => exact h
  | converting cut => exact CutOk.mono h hmono
  | keeping cut => exact CutOk.mono h hmono
  | recording cut rest => exact CutOk.mono h hmono

theorem Chain.mono {marked' : List Uuid} {finished : Bool}
    (h : Chain lt log marked c after finished) (hquiet : Quiet c more)
    (hmono : ∀ k ∈ marked, k ∈ marked') :
    Chain lt (log ++ more) marked' c after finished where
  sorted := by rw [hquiet.given]; exact h.sorted
  upto := by rw [hquiet.given]; exact h.upto
  going := by
    simp only [InReads, hquiet.given, hquiet.readsOf]
    exact fun hf k hk hnot => h.going hf k hk fun hin => hnot (hmono k hin)
  all := by
    simp only [InReads, hquiet.given, hquiet.readsOf]
    exact fun hf hr k hk hnot => h.all hf hr k hk fun hin => hnot (hmono k hin)

/-- What others do to the inbox and the log leaves a listing as it is. -/
theorem ListingOk.mono {marked' : List Uuid} {queued queued' : Bool} {l : Listing}
    (h : ListingOk lt log marked queued c l) (hquiet : Quiet c more)
    (hmono : ∀ k ∈ marked, k ∈ marked') (hqueued : queued = false → queued' = false) :
    ListingOk lt (log ++ more) marked' queued' c l where
  place := h.place.mono hmono
  busy := h.busy
  started := by
    rw [hquiet.readsOf]
    exact fun hs => hqueued (h.started hs)
  pages := by
    intro read items next hmem
    rcases List.mem_append.mp hmem with hmem | hmem
    · exact h.pages read items next hmem
    · have hnil : items = [] := by simpa [Obs.itemsOf] using (hquiet _ hmem).1
      rw [hnil]
      exact List.nil_sublist _
  chain := fun hbegun => (h.chain hbegun).mono hquiet hmono

theorem ListingOk.moveTo {queued : Bool} {l : Listing} {place : Place}
    (h : ListingOk lt log marked queued c l) (hplace : PlaceOk lt l.after marked place)
    (hbusy : place ≠ .idle → l.finished = false)
    (hstarted : place.started = true → queued = false) :
    ListingOk lt log marked queued c { l with place := place } where
  place := hplace
  busy := hbusy
  started := fun hs => hs.elim hstarted fun hr => h.started (Or.inr hr)
  pages := h.pages
  chain := h.chain

/-- The call gives the page that it cut. -/
theorem ListingOk.give {queued : Bool} {l : Listing} {cut : Cut}
    (htrans : ∀ i j k, lt i j → lt j k → lt i k)
    (h : ListingOk lt log marked queued c l) (hcut : CutOk lt l.after marked cut)
    (hopen : l.finished = false) (hstarted : queued = false) :
    ListingOk lt (log ++ [.page c (some cut.read) cut.page cut.next]) marked queued c
      { l with after := cut.next.or l.after, finished := cut.next.isNone
               place := .idle } where
  place := trivial
  busy := fun hne => absurd rfl hne
  started := fun _ => hstarted
  pages := by
    intro read items next hmem
    rcases List.mem_append.mp hmem with hmem | hmem
    · exact h.pages read items next hmem
    · cases List.mem_singleton.mp hmem
      exact hcut.part
  chain := by
    intro hbegun
    have hchain := h.chain hbegun
    rw [hopen] at hchain
    exact hchain.page htrans hcut

/-- An agent whose registration is queued has an empty inbox. -/
theorem ListingOk.giveNone {l : Listing} (h : ListingOk lt log marked true c l) :
    ListingOk lt (log ++ [.page c none [] none]) marked true c
      { l with after := l.after, finished := true, place := .idle } where
  place := trivial
  busy := fun hne => absurd rfl hne
  started := by
    rw [readsOf_page_none]
    exact fun hs => h.started (Or.inr (hs.resolve_left Bool.false_ne_true))
  pages := by
    intro read items next hmem
    rcases List.mem_append.mp hmem with hmem | hmem
    · exact h.pages read items next hmem
    · cases List.mem_singleton.mp hmem
      exact List.nil_sublist _
  chain := by
    intro hbegun
    refine ⟨?_, by simp, by simp, ?_⟩
    · simpa using (h.chain hbegun).sorted
    · rw [readsOf_page_none]
      intro _ hreads
      exact absurd (h.started (Or.inr hreads)) (by simp)

/-! ## All listings of an agent -/

/-- Jobs lists the items of the agent in the order, which is the order of the ids
where a listing goes on behind an item that is gone. -/
def InOrder (lt : Uuid → Uuid → Prop) (agent : Uuid) (s : Sys) : Event → Prop
  | .readDone c (.ok read) => ∀ l, s.listings c = some l → l.agent = agent →
      Sorted lt UnreadItem.itemId read ∧
        ∀ a, l.after = some a → a ∉ ids read →
          ∀ x ∈ read, lt a x.itemId ↔ a < x.itemId
  | _ => True

structure SysInv (lt : Uuid → Uuid → Prop) (agent : Uuid) (s : Sys) : Prop where
  fresh : ∀ c, s.nextListing ≤ c → s.listings c = none
  unused : ∀ c, s.nextListing ≤ c → ∀ read items next,
    .page c read items next ∉ s.log
  snapshots : ∀ read, s.inbox.snapshots agent = some read →
    Sorted lt UnreadItem.itemId read
  listings : ∀ c l, s.listings c = some l → l.agent = agent →
    ListingOk lt s.log (s.inbox.marked agent) (s.queued agent) c l

theorem not_given (h : ∀ read items next, .page c read items next ∉ log) :
    given c log = [] := by
  refine List.flatMap_eq_nil_iff.mpr fun obs hobs => ?_
  cases obs with
  | marked agent itemId => rfl
  | page v read items next =>
      have hne : v ≠ c := by
        rintro rfl
        exact h read items next hobs
      simp [Obs.itemsOf, hne]

theorem not_read (h : ∀ read items next, .page c read items next ∉ log) :
    readsOf c log = [] := by
  refine List.filterMap_eq_nil_iff.mpr fun obs hobs => ?_
  cases obs with
  | marked agent itemId => rfl
  | page v read items next =>
      have hne : v ≠ c := by
        rintro rfl
        exact h read items next hobs
      simp [Obs.readOf, hne]

/-- The step moves the listing `c` and touches of the rest at most the snapshots
and what is recorded. -/
structure Moves (s s' : Sys) (c : ℕ) (l' : Listing) (more : List Obs) : Prop where
  listings : s'.listings = Function.update s.listings c (some l')
  nextListing : s'.nextListing = s.nextListing
  marked : s'.inbox.marked = s.inbox.marked
  queued : s'.queued = s.queued
  log : s'.log = s.log ++ more
  pages : ∀ obs ∈ more, ∃ read items next, obs = .page c read items next

theorem moves_give (s : Sys) (c : ℕ) (l : Listing) (read : Option (List UnreadItem))
    (page : List UnreadItem) (next : Option Uuid) :
    Moves s (s.give c l read page next) c
      { l with after := next.or l.after, finished := next.isNone, place := .idle }
      [.page c read page next] :=
  ⟨rfl, rfl, rfl, rfl, rfl, by simp⟩

namespace SysInv

variable {s s' : Sys} {agent : Uuid} {l l' : Listing}

theorem init : SysInv lt agent Sys.init where
  fresh := fun _ _ => rfl
  unused := by simp [Sys.init]
  snapshots := by simp [Sys.init, Inbox.new]
  listings := by simp [Sys.init]

theorem move (h : SysInv lt agent s) (hl : s.listings c = some l)
    (hm : Moves s s' c l' more) (hagent : l'.agent = l.agent)
    (hsnapshots : ∀ read, s'.inbox.snapshots agent = some read →
      Sorted lt UnreadItem.itemId read)
    (hok : l.agent = agent → ListingOk lt (s.log ++ more) (s.inbox.marked agent)
      (s.queued agent) c l') : SysInv lt agent s' where
  fresh := by
    intro v hv
    rw [hm.nextListing] at hv
    have hne : v ≠ c := by
      rintro rfl
      rw [h.fresh v hv] at hl
      cases hl
    rw [hm.listings, Function.update_of_ne hne]
    exact h.fresh v hv
  unused := by
    intro v hv read items next hmem
    rw [hm.nextListing] at hv
    rw [hm.log] at hmem
    rcases List.mem_append.mp hmem with hmem | hmem
    · exact h.unused v hv read items next hmem
    · obtain ⟨read', items', next', heq⟩ := hm.pages _ hmem
      cases heq
      rw [h.fresh _ hv] at hl
      cases hl
  snapshots := hsnapshots
  listings := by
    intro v x hv hx
    rw [hm.listings] at hv
    rw [hm.log, hm.marked, hm.queued]
    by_cases hvc : v = c
    · subst hvc
      rw [Function.update_self] at hv
      cases hv
      exact hok (hagent.symm.trans hx)
    · rw [Function.update_of_ne hvc] at hv
      refine (h.listings v x hv hx).mono (fun obs hobs => ?_) (fun _ hk => hk) id
      obtain ⟨read, items, next, rfl⟩ := hm.pages obs hobs
      exact quiet_page (Ne.symm hvc) read items next _ (by simp)

/-- A step that gives no page. -/
theorem moveQuietly (h : SysInv lt agent s) (hl : s.listings c = some l)
    (hm : Moves s s' c l' []) (hagent : l'.agent = l.agent)
    (hsnapshots : ∀ read, s'.inbox.snapshots agent = some read →
      Sorted lt UnreadItem.itemId read)
    (hok : l.agent = agent → ListingOk lt s.log (s.inbox.marked agent)
      (s.queued agent) c l') : SysInv lt agent s' := by
  refine h.move hl hm hagent hsnapshots ?_
  rw [List.append_nil]
  exact hok

/-- A call that goes to its next place and leaves the inbox as it is. -/
theorem moveTo (h : SysInv lt agent s) (hl : s.listings c = some l) {place : Place}
    (hok : l.agent = agent → ListingOk lt s.log (s.inbox.marked agent)
      (s.queued agent) c l → ListingOk lt s.log (s.inbox.marked agent)
      (s.queued agent) c { l with place := place }) :
    SysInv lt agent (s.moveTo c l place) :=
  h.moveQuietly hl ⟨rfl, rfl, rfl, rfl, (List.append_nil _).symm, by simp⟩
    rfl h.snapshots fun hagent => hok hagent (h.listings c l hl hagent)

theorem begin (h : SysInv lt agent s) (agent' : Uuid) (after : Option Uuid) :
    SysInv lt agent (s.begin agent' after) where
  fresh := by
    intro v hv
    have hlt : s.nextListing < v := hv
    show Function.update s.listings s.nextListing _ v = none
    rw [Function.update_of_ne (Nat.ne_of_gt hlt)]
    exact h.fresh v (Nat.le_of_lt hlt)
  unused := fun v hv => h.unused v (Nat.le_of_succ_le hv)
  snapshots := h.snapshots
  listings := by
    intro v x hv hx
    change Function.update s.listings s.nextListing _ v = some x at hv
    by_cases hnew : v = s.nextListing
    · subst hnew
      rw [Function.update_self] at hv
      cases hv
      have hunused := h.unused s.nextListing (Nat.le_refl _)
      refine ⟨trivial, fun hne => absurd rfl hne, ?_, ?_, ?_⟩
      · rintro (hs | hr)
        · cases hs
        · exact absurd (not_read hunused) hr
      · exact fun read items next hmem => absurd hmem (hunused read items next)
      · intro hbegun
        cases hbegun
        exact chain_begin (not_given hunused)
    · rw [Function.update_of_ne hnew] at hv
      exact h.listings v x hv hx

theorem start (h : SysInv lt agent s) (hirrefl : ∀ k, ¬ lt k k)
    (htrans : ∀ i j k, lt i j → lt j k → lt i k) (hl : s.listings c = some l)
    {limit : ℕ} (hplace : l.place = .starting limit) :
    SysInv lt agent (s.start c l limit) := by
  have hlimit : l.agent = agent → limit ≠ 0 := by
    intro hagent
    have hok := (h.listings c l hl hagent).place
    rwa [hplace] at hok
  have hopen : l.agent = agent → l.finished = false := fun hagent =>
    (h.listings c l hl hagent).busy (by rw [hplace]; exact Place.noConfusion)
  unfold Sys.start
  split
  · rename_i hqueued
    refine h.move hl (moves_give ..) rfl h.snapshots fun hagent => ?_
    have hok := h.listings c l hl hagent
    rw [← hagent, hqueued] at hok ⊢
    exact hok.giveNone
  · rename_i hqueued
    have hstarted : l.agent = agent → s.queued agent = false := by
      rintro rfl
      exact Bool.eq_false_iff.mpr hqueued
    split
    · rename_i rest kept hrest
      refine h.moveTo hl fun hagent hok => hok.moveTo ⟨hlimit hagent, ?_⟩
        (fun _ => hopen hagent) fun _ => hstarted hagent
      rw [hagent] at hrest
      exact left_snapshot hirrefl htrans h.snapshots hrest
    · exact h.moveTo hl fun hagent hok => hok.moveTo (hlimit hagent)
        (fun _ => hopen hagent) fun _ => hstarted hagent

theorem cutPage (h : SysInv lt agent s) (hl : s.listings c = some l) {limit : ℕ}
    {rest read : List UnreadItem} {fresh : Bool}
    (hplace : l.place = .cutting limit rest read fresh) :
    SysInv lt agent (s.cutPage c l limit rest read fresh) := by
  refine h.moveTo hl fun hagent hok => ?_
  have hleft := hok.place
  rw [hplace] at hleft
  refine hok.moveTo ?_ (fun _ => hok.busy ?_) fun _ => hok.started (Or.inl ?_)
  · rw [hagent]
    exact hleft.2.cut limit hleft.1 fresh
  · rw [hplace]
    exact Place.noConfusion
  · rw [hplace]
    rfl

/-- A call that goes on with what it holds. -/
theorem carry (h : SysInv lt agent s) (hl : s.listings c = some l) {place : Place}
    (hold : ∀ after marked, PlaceOk lt after marked l.place →
      PlaceOk lt after marked place)
    (hne : l.place ≠ .idle) (hstarted : l.place.started = true) :
    l.agent = agent → ListingOk lt s.log (s.inbox.marked agent) (s.queued agent) c
      { l with place := place } := by
  intro hagent
  have hok := h.listings c l hl hagent
  exact hok.moveTo (hold _ _ hok.place) (fun _ => hok.busy hne)
    fun _ => hok.started (Or.inl hstarted)

/-- What the call holds once its page is cut. -/
theorem cut (h : SysInv lt agent s) (hl : s.listings c = some l) {cut : Cut}
    (hplace : ∀ after marked, PlaceOk lt after marked l.place →
      CutOk lt after marked cut) (hagent : l.agent = agent) :
    CutOk lt l.after (s.inbox.marked agent) cut :=
  hplace _ _ (h.listings c l hl hagent).place

theorem keep (h : SysInv lt agent s) (hl : s.listings c = some l) {cut : Cut}
    (hplace : l.place = .keeping cut) : SysInv lt agent (s.keep c l cut) := by
  have hok : l.agent = agent → ListingOk lt s.log (s.inbox.marked agent)
      (s.queued agent) c { l with place := .recording cut cut.page } :=
    h.carry hl (by rw [hplace]; exact fun _ _ hcut => hcut)
      (by rw [hplace]; exact Place.noConfusion) (by rw [hplace]; rfl)
  have hcut : l.agent = agent → CutOk lt l.after (s.inbox.marked agent) cut :=
    h.cut hl (by rw [hplace]; exact fun _ _ hcut => hcut)
  have hsame : s.log = s.log ++ [] := (List.append_nil _).symm
  unfold Sys.keep
  split
  · refine h.moveQuietly hl ⟨rfl, rfl, rfl, rfl, hsame, by simp⟩ rfl ?_ hok
    intro read hread
    change Function.update s.inbox.snapshots l.agent _ agent = some read at hread
    by_cases hagent : agent = l.agent
    · rw [hagent, Function.update_self] at hread
      cases hread
      exact (hcut hagent.symm).sorted
    · rw [Function.update_of_ne hagent] at hread
      exact h.snapshots read hread
  · exact h.moveQuietly hl ⟨rfl, rfl, rfl, rfl, hsame, by simp⟩ rfl h.snapshots hok
  · refine h.moveQuietly hl ⟨rfl, rfl, rfl, rfl, hsame, by simp⟩ rfl ?_ hok
    intro read hread
    change Function.update s.inbox.snapshots l.agent _ agent = some read at hread
    by_cases hagent : agent = l.agent
    · rw [hagent, Function.update_self] at hread
      cases hread
    · rw [Function.update_of_ne hagent] at hread
      exact h.snapshots read hread

theorem record (h : SysInv lt agent s) (htrans : ∀ i j k, lt i j → lt j k → lt i k)
    (hl : s.listings c = some l) {cut : Cut} {rest : List UnreadItem}
    (hplace : l.place = .recording cut rest) :
    SysInv lt agent (s.record c l cut rest) := by
  cases rest with
  | nil =>
      refine h.move hl (moves_give ..) rfl h.snapshots fun hagent => ?_
      have hok := h.listings c l hl hagent
      refine hok.give htrans ?_ (hok.busy ?_) (hok.started (Or.inl ?_))
      · exact h.cut hl (by rw [hplace]; exact fun _ _ hcut => hcut) hagent
      · rw [hplace]
        exact Place.noConfusion
      · rw [hplace]
        rfl
  | cons item rest =>
      refine h.moveQuietly hl
        ⟨rfl, rfl, rfl, rfl, (List.append_nil _).symm, by simp⟩ rfl h.snapshots ?_
      refine h.carry hl ?_ ?_ ?_
      · rw [hplace]
        exact fun _ _ hcut => hcut
      · rw [hplace]
        exact Place.noConfusion
      · rw [hplace]
        rfl

theorem listingStep (h : SysInv lt agent s) (hirrefl : ∀ k, ¬ lt k k)
    (htrans : ∀ i j k, lt i j → lt j k → lt i k) (hl : s.listings c = some l)
    (hs : s.listingStep c l = some s') : SysInv lt agent s' := by
  unfold Sys.listingStep at hs
  split at hs
  · rename_i hplace
    cases hs
    exact h.start hirrefl htrans hl hplace
  · rename_i hplace
    cases hs
    exact h.cutPage hl hplace
  · rename_i hplace
    cases hs
    exact h.keep hl hplace
  · rename_i hplace
    cases hs
    exact h.record htrans hl hplace
  · cases hs

/-- A call that ends without a page. -/
theorem toIdle (h : SysInv lt agent s) (hl : s.listings c = some l) :
    SysInv lt agent (s.moveTo c l .idle) :=
  h.moveTo hl fun _ hok => hok.moveTo trivial (fun hne => absurd rfl hne)
    fun hs => absurd hs Bool.false_ne_true

theorem readDone (h : SysInv lt agent s) (hirrefl : ∀ k, ¬ lt k k)
    (htrans : ∀ i j k, lt i j → lt j k → lt i k) (hl : s.listings c = some l)
    {result : Except Error (List UnreadItem)}
    (horder : InOrder lt agent s (.readDone c result))
    (hs : s.readDone c l result = some s') : SysInv lt agent s' := by
  cases result with
  | error e =>
      simp only [Sys.readDone] at hs
      split at hs
      · cases hs
        exact h.toIdle hl
      · cases hs
  | ok read =>
      simp only [Sys.readDone] at hs
      split at hs
      · rename_i limit hplace
        cases hs
        refine h.moveTo hl fun hagent hok => ?_
        obtain ⟨hsorted, hids⟩ := horder l hl hagent
        have hlimit := hok.place
        rw [hplace] at hlimit
        refine hok.moveTo ⟨hlimit, left_read hirrefl htrans hsorted hids⟩
          (fun _ => hok.busy ?_) fun _ => hok.started (Or.inl ?_)
        · rw [hplace]
          exact Place.noConfusion
        · rw [hplace]
          rfl
      · cases hs

theorem converted (h : SysInv lt agent s) (hl : s.listings c = some l) {ok : Bool}
    (hs : s.converted c l ok = some s') : SysInv lt agent s' := by
  unfold Sys.converted at hs
  split at hs
  · rename_i cut hplace
    cases hs
    cases ok with
    | false => exact h.toIdle hl
    | true =>
        refine h.moveTo hl fun hagent _ => h.carry hl ?_ ?_ ?_ hagent
        · rw [hplace]
          exact fun _ _ hcut => hcut
        · rw [hplace]
          exact Place.noConfusion
        · rw [hplace]
          rfl
  · cases hs

theorem drop (h : SysInv lt agent s) (hl : s.listings c = some l)
    (hs : s.drop c l = some s') : SysInv lt agent s' := by
  unfold Sys.drop at hs
  split at hs
  · cases hs
    exact h.toIdle hl
  · cases hs
    exact h.toIdle hl
  · cases hs

theorem registrationEnded (h : SysInv lt agent s) (agent' : Uuid) :
    SysInv lt agent { s with queued := Function.update s.queued agent' false } where
  fresh := h.fresh
  unused := h.unused
  snapshots := h.snapshots
  listings := by
    intro v x hv hx
    rw [← List.append_nil s.log]
    refine (h.listings v x hv hx).mono quiet_nil (fun _ hk => hk) fun hqueued => ?_
    show Function.update s.queued agent' false agent = false
    by_cases hagent : agent = agent'
    · rw [hagent, Function.update_self]
    · rwa [Function.update_of_ne hagent]

theorem markRead (h : SysInv lt agent s) (agent' entryId : Uuid) :
    SysInv lt agent (s.markRead agent' entryId) := by
  unfold Sys.markRead
  split
  · exact h
  · rename_i entry _
    split
    · exact h
    · refine ⟨h.fresh, ?_, h.snapshots, ?_⟩
      · intro v hv read items next hmem
        rcases List.mem_append.mp hmem with hmem | hmem
        · exact h.unused v hv read items next hmem
        · cases List.mem_singleton.mp hmem
      · intro v x hv hx
        refine (h.listings v x hv hx).mono (quiet_marked _ _) (fun k hk => ?_) id
        show k ∈ Function.update s.inbox.marked agent' _ agent
        by_cases hagent : agent = agent'
        · subst hagent
          rw [Function.update_self]
          exact List.mem_cons_of_mem _ hk
        · rwa [Function.update_of_ne hagent]

theorem step {event : Event} (h : SysInv lt agent s) (hirrefl : ∀ k, ¬ lt k k)
    (htrans : ∀ i j k, lt i j → lt j k → lt i k) (horder : InOrder lt agent s event)
    (hs : s.step event = some s') : SysInv lt agent s' := by
  cases event with
  | begin agent' after =>
      cases hs
      exact h.begin agent' after
  | items v limit =>
      obtain ⟨l, hl, hs⟩ := Option.bind_eq_some_iff.mp hs
      split at hs
      · split at hs
        · cases hs
        · rename_i hcan
          cases hs
          simp only [Bool.or_eq_true, beq_iff_eq, not_or, Bool.not_eq_true] at hcan
          exact h.moveTo hl fun _ hok => hok.moveTo hcan.2 (fun _ => hcan.1)
            fun hs => absurd hs Bool.false_ne_true
      · cases hs
  | step v =>
      obtain ⟨l, hl, hs⟩ := Option.bind_eq_some_iff.mp hs
      exact h.listingStep hirrefl htrans hl hs
  | readDone v result =>
      obtain ⟨l, hl, hs⟩ := Option.bind_eq_some_iff.mp hs
      exact h.readDone hirrefl htrans hl horder hs
  | converted v ok =>
      obtain ⟨l, hl, hs⟩ := Option.bind_eq_some_iff.mp hs
      exact h.converted hl hs
  | drop v =>
      obtain ⟨l, hl, hs⟩ := Option.bind_eq_some_iff.mp hs
      exact h.drop hl hs
  | registrationEnded agent' =>
      cases hs
      exact h.registrationEnded agent'
  | markRead agent' entryId =>
      cases hs
      exact h.markRead agent' entryId

end SysInv

/-! ## Completeness -/

/-- What the pages of a listing that began at the start gave. -/
structure Complete (s : Sys) (c : ℕ) (l : Listing) : Prop where
  /-- No item is given twice. -/
  once : (ids (given c s.log)).Nodup
  /-- A page has the order of the read that it was cut from. -/
  inOrder : ∀ read items next, .page c read items next ∈ s.log →
    items.Sublist (read.getD [])
  /-- At the end every item that was in every read and is not marked was given. -/
  all : l.finished = true → readsOf c s.log ≠ [] → ∀ k, InReads c s.log k →
    k ∉ s.inbox.marked l.agent → k ∈ ids (given c s.log)

theorem nodup_of_sorted (hirrefl : ∀ k, ¬ lt k k) {items : List UnreadItem}
    (h : Sorted lt UnreadItem.itemId items) : (ids items).Nodup := by
  refine List.pairwise_map.mpr (List.Pairwise.imp ?_ h)
  intro x y hlt heq
  exact hirrefl _ (heq ▸ hlt)

/-- For reads that list the items of the agent in one order. -/
theorem listing_complete {agent : Uuid} {s : Sys} {l : Listing}
    (hirrefl : ∀ k, ¬ lt k k) (htrans : ∀ i j k, lt i j → lt j k → lt i k)
    (h : Sys.machine.Reach (InOrder lt agent) s) (hl : s.listings c = some l)
    (hagent : l.agent = agent) (hbegun : l.begun = none) : Complete s c l := by
  have hinv : SysInv lt agent s :=
    h.invariant (P := SysInv lt agent) SysInv.init
      fun _ hp ho hs => hp.step hirrefl htrans ho hs
  have hok := hinv.listings c l hl hagent
  have hchain := hok.chain hbegun
  refine ⟨nodup_of_sorted hirrefl hchain.sorted, hok.pages, ?_⟩
  rw [hagent]
  exact hchain.all

/-! ## Runs -/

/-- An item of an unknown kind, which is given under its own id. -/
def itemOf (k : Uuid) : UnreadItem := .unknown k none "NEW_KIND" none

/-- A page that is read: from the call to the batch of `n` items. -/
def readPage (c limit : ℕ) (read : List Uuid) (n : ℕ) : List Event :=
  [.items c limit, .step c, .readDone c (.ok (read.map itemOf)), .step c,
    .converted c true, .step c] ++ List.replicate (n + 1) (.step c)

/-- A page that is cut from the snapshot. -/
def snapshotPage (c limit n : ℕ) : List Event :=
  [.items c limit, .step c, .step c, .converted c true, .step c] ++
    List.replicate (n + 1) (.step c)

/-- Between the first two pages of a listing another one drops the snapshot, and
the item of the cursor is marked and gone. -/
def pagedRun (first second : List Uuid) (k : Uuid) : List Event :=
  [.registrationEnded 1, .begin 1 none] ++ readPage 0 1 first 1 ++
    [.begin 1 none] ++ readPage 1 9 first first.length ++ [.markRead 1 k] ++
    readPage 0 1 second 1

/-- The reads of the run are sorted by id. -/
def sortedRead : Event → Bool
  | .readDone _ (.ok read) => decide (Sorted (· < ·) UnreadItem.itemId read)
  | _ => true

theorem inOrder_of_sorted {agent : Uuid} {s : Sys} {event : Event}
    (h : sortedRead event = true) : InOrder (· < ·) agent s event := by
  unfold sortedRead at h
  split at h
  · exact fun _ _ _ => ⟨of_decide_eq_true h, fun _ _ _ _ _ => Iff.rfl⟩
  · rename_i hother
    unfold InOrder
    split
    · exact absurd rfl (hother _ _)
    · trivial

/-- The items 3, 5 and 7 are given on three pages: from a read, from another read
behind an item that is gone, and from a snapshot. -/
theorem listing_complete_pagedRun :
    ∃ s l, Sys.machine.run (pagedRun [3, 5, 7] [5, 7] 3 ++ snapshotPage 0 1 1) =
        some s ∧ s.listings 0 = some l ∧ Complete s 0 l ∧
      ids (given 0 s.log) = [3, 5, 7] := by
  have hreach : Sys.machine.Reach (fun _ event => sortedRead event = true) _ :=
    Machine.reach_of_checked (pagedRun [3, 5, 7] [5, 7] 3 ++ snapshotPage 0 1 1) rfl
  refine ⟨_, _, rfl, rfl, ?_, rfl⟩
  exact listing_complete (fun k => BitVec.lt_irrefl k)
    (fun _ _ _ hij hjk => BitVec.lt_trans hij hjk)
    (hreach.mono fun _ _ hsorted => inOrder_of_sorted hsorted) rfl rfl rfl

/-- The items of every read are distinct. -/
def distinctRead : Event → Bool
  | .readDone _ (.ok read) => decide (ids read).Nodup
  | _ => true

/-- Without one order of the reads an item is missed: 3 comes behind 5 in both
reads, but the listing goes on behind 5 by comparing ids. -/
theorem listing_misses :
    ¬ ∀ s, Sys.machine.Reach (fun _ event => distinctRead event = true) s →
      ∀ c l, s.listings c = some l → l.begun = none → Complete s c l := by
  intro h
  have hreach : Sys.machine.Reach (fun _ event => distinctRead event = true) _ :=
    Machine.reach_of_checked (pagedRun [5, 3, 7] [3, 7] 5) rfl
  have hall := (h _ hreach 0 _ rfl rfl).all rfl (by decide) 3 (by decide) (by decide)
  exact absurd hall (by decide)

end RunnerKit.InboxPort
