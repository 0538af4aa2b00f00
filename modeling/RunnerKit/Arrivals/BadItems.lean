import RunnerKit.Arrivals.Resolve
import RunnerKit.Jobs.Text

/-!
# A bad item hurts nobody else

An arrival of a read records an outcome for the child job that its entry names, and for
no other. So of two replies that differ in one entry both consumers record the same for
every child job that neither entry names.

The replay and the read for a notice differ in what they take: the replay gives each
item that cannot be read, the other read only the items with the id of its event. A
child job has the same outcome in both when one notice alone can end its wait. A notice
to an agent that cannot be read counts as well: its address may be what is unreadable,
so the replay ends the wait of the child job that it names.
-/

namespace RunnerKit.Arrivals

open RunnerKit.Jobs RunnerKit.Graphql RunnerKit.EndWait

/-! ## What an arrival names -/

theorem ended_names {notice : CallNotice} {named child : Uuid} {outcome : Outcome}
    (h : outcomeFor child (ended notice named) = some outcome) : named = child := by
  have hsync : ∀ ended, outcomeFor child (.syncEnd named ended) = some outcome →
      named = child := by
    intro ended h
    by_contra hne
    simp [outcomeFor, hne] at h
  have hbad : ∀ what, outcomeFor child (unreadable (some named) what) = some outcome →
      named = child := by
    intro what h
    by_contra hne
    simp [outcomeFor, unreadable, hne] at h
  unfold ended at h
  split at h
  · split at h
    · exact hbad _ h
    · exact hsync _ h
  · split at h
    · exact hsync _ h
    · exact hbad _ h
  · split at h
    · exact hsync _ h
    · exact hbad _ h
  · exact hbad _ h

/-- Only a run-level notice that ends the call of the child job records an outcome. -/
theorem syncEnd_names {item : UnreadItem} {child : Uuid} {outcome : Outcome}
    (h : (syncEnd item).bind (outcomeFor child) = some outcome) :
    ∃ notice, item = .callNotice notice ∧ notice.address = none ∧
      ends notice.kind = true ∧ notice.childJobId = some child := by
  unfold syncEnd at h
  split at h
  · rename_i notice
    split at h
    · cases h
    · rename_i haddress
      split at h
      · cases h
      · rename_i hends
        refine ⟨notice, rfl, by simpa using haddress, by simpa using hends, ?_⟩
        split at h
        · rename_i named hnamed
          rw [hnamed, ended_names h]
        · simp [outcomeFor, unreadable] at h
  · cases h

variable {c : Contract}

/-- What a read records for a child job at the replay. -/
def replayOutcome (child : Uuid) (read : Read) : Option Outcome :=
  (replayed read).findSome? (outcomeFor child)

/-- What a read records for a child job when the read is made for this event. -/
def liveOutcome (child : Uuid) (event : ItemArrived) (read : Read) : Option Outcome :=
  (resolved event read).bind (outcomeFor child)

@[simp] theorem replayOutcome_item (child : Uuid) (item : UnreadItem) :
    replayOutcome child (.item item) = (syncEnd item).bind (outcomeFor child) := by
  have hitem : outcomeFor child (.item (itemArrived item)) = none := rfl
  cases h : syncEnd item with
  | none => simp [replayOutcome, replayed, hitem, h]
  | some arrival =>
      cases ho : outcomeFor child arrival <;>
        simp [replayOutcome, replayed, hitem, h, ho]

@[simp] theorem replayOutcome_bad (child : Uuid) (failed : BadItem) :
    replayOutcome child (.bad failed) = outcomeFor child (bad failed) := by
  cases ho : outcomeFor child (bad failed) <;> simp [replayOutcome, replayed, ho]

/-- The read for an event records nothing that the replay does not. -/
theorem liveOutcome_replayOutcome {child : Uuid} {event : ItemArrived} {read : Read}
    {outcome : Outcome} (h : liveOutcome child event read = some outcome) :
    replayOutcome child read = some outcome := by
  unfold liveOutcome resolved at h
  split at h
  · split at h
    · rwa [replayOutcome_item]
    · cases h
  · split at h
    · rwa [replayOutcome_bad]
    · cases h

/-- A notice that ends a call names its child job in its entry. -/
theorem namedChild_of_notice {entry : Value} {notice : CallNotice} {child : Uuid}
    (h : c.item entry = .ok (.callNotice notice)) (hends : ends notice.kind = true)
    (hchild : notice.childJobId = some child) : c.namedChild entry = some child := by
  obtain ⟨-, hnotice⟩ := Contract.item_ok h
  obtain ⟨hkind, address, hread⟩ := hnotice notice rfl
  have hknown : notice.kind ≠ .unknown ∧ notice.kind ≠ .refused := by
    constructor
    · intro heq
      simp [ends, heq] at hends
    · intro heq
      simp [ends, heq] at hends
  obtain ⟨id, hid, hsome⟩ := (Contract.notice_ok hread).2 hknown
  have heq : id = child := Option.some.inj (hsome.symm.trans hchild)
  rw [Contract.namedChild, if_pos hkind, hid, heq]
  rfl

/-- What an entry records at the replay it records for the child job that it names. -/
theorem replayOutcome_names {entry : Value} {child : Uuid} {outcome : Outcome}
    (h : replayOutcome child (c.read entry) = some outcome) :
    c.namedChild entry = some child := by
  unfold Contract.read at h
  split at h
  · rename_i item hitem
    rw [replayOutcome_item] at h
    obtain ⟨notice, rfl, -, hends, hchild⟩ := syncEnd_names h
    exact namedChild_of_notice hitem hends hchild
  · rename_i error herror
    rw [replayOutcome_bad] at h
    by_contra hne
    simp [outcomeFor, bad, hne] at h

theorem replayOutcome_silent {entry : Value} {child : Uuid}
    (h : c.namedChild entry ≠ some child) : replayOutcome child (c.read entry) = none := by
  cases hout : replayOutcome child (c.read entry) with
  | none => rfl
  | some outcome => exact absurd (replayOutcome_names hout) h

theorem liveOutcome_silent {entry : Value} {child : Uuid} {event : ItemArrived}
    (h : replayOutcome child (c.read entry) = none) :
    liveOutcome child event (c.read entry) = none := by
  cases hout : liveOutcome child event (c.read entry) with
  | none => rfl
  | some outcome => exact absurd (liveOutcome_replayOutcome hout) (by simp [h])

/-! ## What a whole reply records -/

theorem findSome_congr {α β : Type} {f g : α → Option β} {l : List α}
    (h : ∀ a ∈ l, f a = g a) : l.findSome? f = l.findSome? g := by
  induction l with
  | nil => rfl
  | cons a l ih =>
      rw [List.findSome?_cons, List.findSome?_cons, h a List.mem_cons_self,
        ih fun b hb => h b (List.mem_cons_of_mem a hb)]

theorem findSome_replay (child : Uuid) (reads : List Read) :
    (replay reads).findSome? (outcomeFor child) =
      reads.findSome? (replayOutcome child) := by
  induction reads with
  | nil => rfl
  | cons read reads ih =>
      have hcons : replay (read :: reads) = replayed read ++ replay reads := rfl
      rw [hcons, List.findSome?_append, ih, List.findSome?_cons]
      cases h : replayOutcome child read with
      | none => rw [show (replayed read).findSome? (outcomeFor child) = none from h, Option.or]
      | some outcome =>
          rw [show (replayed read).findSome? (outcomeFor child) = some outcome from h, Option.or]

theorem findSome_resolved (child : Uuid) (event : ItemArrived) (reads : List Read) :
    (reads.filterMap (resolved event)).findSome? (outcomeFor child) =
      reads.findSome? (liveOutcome child event) := by
  induction reads with
  | nil => rfl
  | cons read reads ih =>
      rw [List.filterMap_cons, List.findSome?_cons, ← ih, liveOutcome]
      cases h : resolved event read with
      | none => rfl
      | some arrival => exact List.findSome?_cons

theorem outcomes_replay (s : Sys) (child : Uuid) (reads : List Read) :
    outcomes s (replay reads) child =
      (s.held.outcomes child).or (reads.findSome? (replayOutcome child)) := by
  rw [outcomes_eq, findSome_replay]

theorem outcomes_live (s : Sys) (child : Uuid) (event : ItemArrived) (reads : List Read) :
    outcomes s (live event (.ok reads)) child =
      (s.held.outcomes child).or
        (if isRunLevelNotice event then reads.findSome? (liveOutcome child event)
          else none) := by
  have hcons : (live event (.ok reads)).findSome? (outcomeFor child) =
      if isRunLevelNotice event then reads.findSome? (liveOutcome child event) else none := by
    cases hevent : isRunLevelNotice event with
    | false => simp [live, hevent, outcomeFor]
    | true =>
        have hitem : outcomeFor child (.item event) = none := rfl
        rw [live, if_pos hevent, List.findSome?_cons, hitem]
        exact findSome_resolved child event reads
  rw [outcomes_eq, hcons]

theorem unreadEach_ok {data : Except Error Value} {entries : List Value}
    (h : c.entries data = .ok entries) : c.unreadEach data = .ok (entries.map c.read) := by
  rw [Contract.unreadEach, h]
  rfl

/-- An entry that is silent can be replaced by another that is. -/
theorem findSome_replaced {α β : Type} {f : α → Option β} {old new : α} (pre post : List α)
    (hold : f old = none) (hnew : f new = none) :
    (pre ++ old :: post).findSome? f = (pre ++ new :: post).findSome? f := by
  simp only [List.findSome?_append, List.findSome?_cons, hold, hnew]

/-! ## One notice for a child job -/

/-- Whether an entry is a notice that names the child job and is run-level, or cannot be
read. -/
def canEnd (c : Contract) (child : Uuid) (entry : Value) : Bool :=
  c.namedChild entry = some child &&
    match c.read entry with
    | .item item => item.address.isNone
    | .bad _ => true

/-- A notice that cannot end the wait of a child job records nothing for it. -/
theorem replayOutcome_of_not_canEnd {entry : Value} {child : Uuid}
    (h : canEnd c child entry = false) : replayOutcome child (c.read entry) = none := by
  by_contra hne
  obtain ⟨outcome, hout⟩ := Option.ne_none_iff_exists'.mp hne
  have hnamed := replayOutcome_names hout
  cases hread : c.read entry with
  | bad failed => simp [canEnd, hnamed, hread] at h
  | item item =>
      rw [hread, replayOutcome_item] at hout
      obtain ⟨notice, rfl, haddress, -, -⟩ := syncEnd_names hout
      simp [canEnd, hnamed, hread, UnreadItem.address, haddress] at h

/-- The read that is made for the event of an entry takes what the replay takes of it. -/
theorem liveOutcome_of_event {entry : Value} {child : Uuid} {event : ItemArrived}
    (h : ∀ itemId, c.uuid entry "itemId" = .ok itemId → itemId = event.itemId) :
    liveOutcome child event (c.read entry) = replayOutcome child (c.read entry) := by
  unfold Contract.read
  split
  · rename_i item hitem
    have hid : item.itemId = event.itemId := h _ (Contract.item_ok hitem).1
    rw [replayOutcome_item, liveOutcome, resolved, if_pos hid]
  · rename_i error herror
    have hid : ((c.uuid entry "itemId").toOption.all fun id => id = event.itemId) = true := by
      cases huuid : c.uuid entry "itemId" with
      | error error => rfl
      | ok itemId => simp [Except.toOption, h itemId huuid]
    rw [replayOutcome_bad, liveOutcome, resolved, if_pos hid]
    rfl

theorem eq_of_countP_le_one {α : Type} {p : α → Bool} {l : List α} (h : l.countP p ≤ 1)
    {a b : α} (ha : a ∈ l) (hb : b ∈ l) (hpa : p a = true) (hpb : p b = true) : a = b := by
  rw [List.countP_eq_length_filter] at h
  have hma : a ∈ l.filter p := List.mem_filter.mpr ⟨ha, hpa⟩
  have hmb : b ∈ l.filter p := List.mem_filter.mpr ⟨hb, hpb⟩
  match l.filter p, h, hma, hmb with
  | [only], _, hma, hmb =>
      rw [List.mem_singleton.mp hma, List.mem_singleton.mp hmb]

/-- Replacing one entry of a reply changes only what is recorded for the child jobs that
the old and the new entry name, and of a child job that one notice alone can end the
replay and the event of that notice record the same. -/
theorem bad_item_apart (c : Contract) :
    (∀ (data data' : Except Error Value) (pre post : List Value) (old new : Value),
      c.entries data = .ok (pre ++ old :: post) →
      c.entries data' = .ok (pre ++ new :: post) →
      ∃ buffer buffer', fromRaw (c.unreadEach data) = .ok buffer ∧
        fromRaw (c.unreadEach data') = .ok buffer' ∧
        ∀ (s : Sys) (child : Uuid), c.namedChild old ≠ some child →
          c.namedChild new ≠ some child →
          outcomes s buffer child = outcomes s buffer' child ∧
          ∀ event, outcomes s (live event (c.unreadEach data)) child =
            outcomes s (live event (c.unreadEach data')) child) ∧
    ∀ (data : Except Error Value) (entries : List Value),
      c.entries data = .ok entries →
      ∃ buffer, fromRaw (c.unreadEach data) = .ok buffer ∧
        ∀ (s : Sys) (child : Uuid) (entry : Value) (event : ItemArrived),
          entries.countP (canEnd c child) ≤ 1 → entry ∈ entries →
          canEnd c child entry = true → isRunLevelNotice event = true →
          (∀ itemId, c.uuid entry "itemId" = .ok itemId → itemId = event.itemId) →
          outcomes s buffer child =
            outcomes s (live event (c.unreadEach data)) child := by
  refine ⟨?_, ?_⟩
  · intro data data' pre post old new hdata hdata'
    rw [unreadEach_ok hdata, unreadEach_ok hdata']
    refine ⟨_, _, rfl, rfl, fun s child hold hnew => ?_⟩
    have hold := replayOutcome_silent hold
    have hnew := replayOutcome_silent hnew
    simp only [List.map_append, List.map_cons]
    refine ⟨?_, fun event => ?_⟩
    · rw [outcomes_replay, outcomes_replay, findSome_replaced _ _ hold hnew]
    · rw [outcomes_live, outcomes_live,
        findSome_replaced _ _ (liveOutcome_silent hold) (liveOutcome_silent hnew)]
  · intro data entries hdata
    rw [unreadEach_ok hdata]
    refine ⟨_, rfl, fun s child entry event hone hmem hends hevent hid => ?_⟩
    rw [outcomes_replay, outcomes_live, if_pos hevent, List.findSome?_map,
      List.findSome?_map]
    congr 1
    apply findSome_congr
    intro other hother
    by_cases hcan : canEnd c child other = true
    · rw [eq_of_countP_le_one hone hother hmem hcan hends]
      exact (liveOutcome_of_event hid).symm
    · have hsilent := replayOutcome_of_not_canEnd (eq_false_of_ne_true hcan)
      exact hsilent.trans (liveOutcome_silent hsilent).symm

/-! ## Two replies -/

/-- The identifiers of the replies below. -/
def sample : Contract where
  parseStr text := [1, 2, 5, 6, 9].find? fun id => Uuid.hyphenated id == text
  unreadRoot := "unread"

def idText (id : Uuid) : Value := .string (Uuid.hyphenated id)

def reply (entries : List Value) : Value :=
  .object [("unread", .object [("success", .bool true), ("items", .array entries)])]

/-- A run-level notice that a child job failed. -/
def failedNotice : Value :=
  .object [("itemId", idText 2), ("itemKind", .string "NOTICE"),
    ("noticeType", .string "JOB_FAILED"), ("jobId", idText 5),
    ("message", .string "it failed")]

/-- A notice to an agent that names the same child job and has no type. -/
def addressedNotice : Value :=
  .object [("itemId", idText 1), ("address", idText 9), ("itemKind", .string "NOTICE"),
    ("jobId", idText 5)]

theorem bad_item_apart_null :
    ∃ buffer buffer',
      fromRaw (sample.unreadEach (.ok (reply [addressedNotice, failedNotice]))) =
        .ok buffer ∧
      fromRaw (sample.unreadEach (.ok (reply [.null, failedNotice]))) = .ok buffer' ∧
      outcomes .init buffer 6 = outcomes .init buffer' 6 ∧
      outcomes .init buffer' 5 =
        outcomes .init (live ⟨none, 2, .callNotice⟩
          (sample.unreadEach (.ok (reply [.null, failedNotice])))) 5 := by
  obtain ⟨buffer, buffer', hbuffer, hbuffer', hothers⟩ :=
    (bad_item_apart sample).1 (.ok (reply [addressedNotice, failedNotice]))
      (.ok (reply [.null, failedNotice])) [] [failedNotice] addressedNotice .null rfl rfl
  obtain ⟨again, hagain, hsame⟩ :=
    (bad_item_apart sample).2 (.ok (reply [.null, failedNotice])) [.null, failedNotice] rfl
  have heq : again = buffer' := Except.ok.inj (hagain.symm.trans hbuffer')
  refine ⟨buffer, buffer', hbuffer, hbuffer',
    (hothers .init 6 (by decide) (by decide)).1, ?_⟩
  rw [← heq]
  have hid : ∀ itemId, sample.uuid failedNotice "itemId" = .ok itemId → itemId = 2 := by
    have hread : sample.uuid failedNotice "itemId" = .ok 2 := rfl
    intro itemId h
    exact (Except.ok.inj (hread.symm.trans h)).symm
  exact hsame .init 5 failedNotice ⟨none, 2, .callNotice⟩ (by decide)
    (List.mem_cons_of_mem _ List.mem_cons_self) rfl rfl hid

/-- Whether an entry is a run-level notice that names the child job. -/
def namesAtRunLevel (c : Contract) (child : Uuid) (entry : Value) : Bool :=
  c.namedChild entry = some child && (present entry "address").isNone

/-- The notice to the agent cannot be read, so it ends the wait at the replay, and the
only run-level notice comes too late there. -/
theorem addressed_notice_ends_wait :
    ∃ reads,
      sample.entries (.ok (reply [addressedNotice, failedNotice])) =
        .ok [addressedNotice, failedNotice] ∧
      sample.unreadEach (.ok (reply [addressedNotice, failedNotice])) = .ok reads ∧
      (∀ child,
        [addressedNotice, failedNotice].countP (namesAtRunLevel sample child) ≤ 1) ∧
      namesAtRunLevel sample 5 failedNotice = true ∧
      sample.uuid failedNotice "itemId" = .ok 2 ∧
      outcomes .init (replay reads) 5 =
        some (.error (Graphql.unreadable "noticeType")) ∧
      outcomes .init (live ⟨none, 2, .callNotice⟩ (.ok reads)) 5 =
        some (.ok (.failed none "it failed")) := by
  refine ⟨_, rfl, rfl, fun child => ?_, rfl, rfl, rfl, rfl⟩
  have haddress : (present addressedNotice "address").isNone = false := rfl
  have hfirst : namesAtRunLevel sample child addressedNotice = false := by
    rw [namesAtRunLevel, haddress, Bool.and_false]
  rw [List.countP_cons_of_neg (by simp [hfirst])]
  exact List.countP_le_length

end RunnerKit.Arrivals
