import RunnerKit.RunnerTransport.Cancel

/-!
# The orders that the feed leaves standing

After the replay the orders follow the bucket: what was put last stands and
what was deleted last does not. During the replay the feed reports no
deletion, so an order that is put and deleted before the entry marked current
stands until its key is written again.
-/

namespace RunnerKit.RunnerTransport

open RunnerKit.Jobs RunnerKit.Lib

/-! ## Live keys -/

def Wire.isOf (w : Wire) (runId : Uuid) (entry : Entry) : Bool :=
  decide (w.runOf entry.key = some runId)

/-- The last entry of the key of this Run. -/
def lastOf (w : Wire) (runId : Uuid) (entries : List Entry) : Option Entry :=
  (entries.filter (w.isOf runId)).getLast?

/-- The last entry of the key is a put. -/
def Live (w : Wire) (entries : List Entry) (runId : Uuid) : Prop :=
  (lastOf w runId entries).map Entry.operation = some .put

/-- The entries up to the one marked current, and those after it. -/
def splitReplay : List Entry → List Entry × List Entry
  | [] => ([], [])
  | e :: es =>
      if e.seenCurrent then ([e], es)
      else (e :: (splitReplay es).1, (splitReplay es).2)

/-- What the feed reports of the entries of an opening: the replay without its
deletions, and everything after it. -/
def heard (stored : ℕ) (entries : List Entry) : List Entry :=
  if stored = 0 then entries
  else (splitReplay entries).1.filter (fun e => decide (e.operation = .put)) ++
    (splitReplay entries).2

/-- The replay is over. -/
def marked (stored : ℕ) (entries : List Entry) : Bool :=
  decide (stored = 0) || entries.any Entry.seenCurrent

/-- The key was put in the replay, deleted last in the replay, and not written
since. -/
def Stale (w : Wire) (stored : ℕ) (entries : List Entry) (runId : Uuid) : Prop :=
  stored ≠ 0 ∧ lastOf w runId (splitReplay entries).2 = none ∧
    (∃ e ∈ (splitReplay entries).1, w.isOf runId e = true ∧ e.operation = .put) ∧
    ∃ e, lastOf w runId (splitReplay entries).1 = some e ∧ e.operation ≠ .put

/-- The puts on keys of Runs can be read. -/
def Readable (w : Wire) (entries : List Entry) : Prop :=
  ∀ e ∈ entries, e.operation = .put → ∀ runId, w.runOf e.key = some runId →
    w.made runId e.value = .ok (.orderMade runId)

section Entries

variable {w : Wire} {runId : Uuid} {es fs : List Entry} {e : Entry}

theorem lastOf_append :
    lastOf w runId (es ++ fs) = (lastOf w runId fs).or (lastOf w runId es) := by
  simp [lastOf, List.getLast?_append]

theorem lastOf_single : lastOf w runId [e] = if w.isOf runId e then some e else none := by
  unfold lastOf
  cases h : w.isOf runId e <;> simp [h]

theorem live_snoc_own (h : w.runOf e.key = some runId) :
    Live w (es ++ [e]) runId ↔ e.operation = .put := by
  have hof : w.isOf runId e = true := decide_eq_true h
  unfold Live
  rw [lastOf_append, lastOf_single, hof]
  simp

theorem live_snoc_other (h : w.runOf e.key ≠ some runId) :
    Live w (es ++ [e]) runId ↔ Live w es runId := by
  have hof : w.isOf runId e = false := decide_eq_false h
  unfold Live
  rw [lastOf_append, lastOf_single, hof]
  simp

theorem splitReplay_append (es : List Entry) :
    (splitReplay es).1 ++ (splitReplay es).2 = es := by
  induction es with
  | nil => rfl
  | cons x xs ih =>
      unfold splitReplay
      split_ifs
      · rfl
      · simp [ih]

theorem splitReplay_snoc :
    splitReplay (es ++ [e]) =
      if es.any Entry.seenCurrent then
        ((splitReplay es).1, (splitReplay es).2 ++ [e])
      else (es ++ [e], []) := by
  induction es with
  | nil =>
      cases h : e.seenCurrent <;> simp [splitReplay, h]
  | cons x xs ih =>
      cases hx : x.seenCurrent with
      | true => simp [splitReplay, hx]
      | false =>
          cases hxs : xs.any Entry.seenCurrent <;>
            simp [splitReplay, hx, hxs, ih]

/-- Before the mark everything is replay. -/
theorem splitReplay_unmarked (h : es.any Entry.seenCurrent = false) :
    splitReplay es = (es, []) := by
  induction es with
  | nil => rfl
  | cons x xs ih =>
      rw [List.any_cons, Bool.or_eq_false_iff] at h
      simp [splitReplay, h.1, ih h.2]

theorem heard_snoc (stored : ℕ) :
    heard stored (es ++ [e]) = heard stored es ++
      if marked stored es || decide (e.operation = .put) then [e] else [] := by
  unfold heard marked
  by_cases hstored : stored = 0
  · simp [hstored]
  · simp only [hstored, if_false, decide_false, Bool.false_or]
    rw [splitReplay_snoc]
    cases hany : es.any Entry.seenCurrent with
    | true => simp
    | false =>
        rw [splitReplay_unmarked hany]
        by_cases hput : e.operation = .put <;> simp [List.filter_append, hput]

theorem lastOf_mem (h : lastOf w runId es = some e) : e ∈ es ∧ w.isOf runId e = true := by
  have hmem := List.mem_of_getLast? h
  exact List.mem_filter.mp hmem

theorem lastOf_eq_none : lastOf w runId es = none ↔ ∀ x ∈ es, w.isOf runId x ≠ true := by
  unfold lastOf
  rw [List.getLast?_eq_none_iff, List.filter_eq_nil_iff]

/-- Among puts alone a key is live as soon as it was put. -/
theorem live_filter_put :
    Live w (es.filter fun e => decide (e.operation = .put)) runId ↔
      ∃ e ∈ es, w.isOf runId e = true ∧ e.operation = .put := by
  unfold Live
  cases hlast : lastOf w runId (es.filter fun e => decide (e.operation = .put)) with
  | none =>
      have hnone := lastOf_eq_none.mp hlast
      constructor
      · intro h
        cases h
      · rintro ⟨x, hx, hof, hput⟩
        exact absurd hof (hnone x (List.mem_filter.mpr ⟨hx, decide_eq_true hput⟩))
  | some x =>
      obtain ⟨hmem, hof⟩ := lastOf_mem hlast
      obtain ⟨hx, hput⟩ := List.mem_filter.mp hmem
      constructor
      · exact fun _ => ⟨x, hx, hof, of_decide_eq_true hput⟩
      · exact fun _ => congrArg some (of_decide_eq_true hput)

theorem not_live_of_stale {stored : ℕ} (h : Stale w stored es runId) :
    ¬ Live w es runId := by
  obtain ⟨-, hrest, -, e, he, hput⟩ := h
  unfold Live
  rw [← splitReplay_append es, lastOf_append, hrest, Option.none_or, he]
  exact fun heq => hput (Option.some.inj heq)

/-- What the feed reports leaves the live keys standing, and the stale ones. -/
theorem live_heard_iff (stored : ℕ) :
    Live w (heard stored es) runId ↔ Live w es runId ∨ Stale w stored es runId := by
  by_cases hstored : stored = 0
  · simp [heard, Stale, hstored]
  unfold heard
  rw [if_neg hstored]
  cases hrest : lastOf w runId (splitReplay es).2 with
  | some x =>
      have hheard : Live w ((splitReplay es).1.filter
          (fun e => decide (e.operation = .put)) ++ (splitReplay es).2) runId ↔
            Live w es runId := by
        conv_rhs => rw [← splitReplay_append es]
        unfold Live
        rw [lastOf_append, lastOf_append, hrest]
        simp
      rw [hheard]
      simp [Stale, hrest]
  | none =>
      have hheard : Live w ((splitReplay es).1.filter
          (fun e => decide (e.operation = .put)) ++ (splitReplay es).2) runId ↔
            ∃ e ∈ (splitReplay es).1, w.isOf runId e = true ∧ e.operation = .put := by
        rw [← live_filter_put]
        unfold Live
        rw [lastOf_append, hrest, Option.none_or]
      have hes : Live w es runId ↔ (lastOf w runId (splitReplay es).1).map
          Entry.operation = some .put := by
        unfold Live
        conv_lhs => rw [← splitReplay_append es]
        rw [lastOf_append, hrest, Option.none_or]
      rw [hheard, hes]
      constructor
      · rintro ⟨x, hx, hof, hput⟩
        cases hlast : lastOf w runId (splitReplay es).1 with
        | none => exact absurd hof (lastOf_eq_none.mp hlast x hx)
        | some last =>
            by_cases hlastput : last.operation = .put
            · exact Or.inl (congrArg some hlastput)
            · exact Or.inr ⟨hstored, hrest, ⟨x, hx, hof, hput⟩, last, hlast, hlastput⟩
      · rintro (hlive | ⟨-, -, hput, -⟩)
        · obtain ⟨last, hlast, hlastput⟩ := Option.map_eq_some_iff.mp hlive
          obtain ⟨hmem, hof⟩ := lastOf_mem hlast
          exact ⟨last, hmem, hof, hlastput⟩
        · exact hput

end Entries

/-! ## The set of the events -/

/-- `OrderMade` inserts and `OrderDeleted` removes. -/
def orderSet (events : List (Except Error CancelEvent)) : Finset Uuid :=
  events.foldl (fun orders event =>
    match event with
    | .ok (.orderMade runId) => insert runId orders
    | .ok (.orderDeleted runId) => orders.erase runId
    | _ => orders) ∅

@[simp] theorem orderSet_snoc (events : List (Except Error CancelEvent))
    (event : Except Error CancelEvent) :
    orderSet (events ++ [event]) = match event with
      | .ok (.orderMade runId) => insert runId (orderSet events)
      | .ok (.orderDeleted runId) => (orderSet events).erase runId
      | _ => orderSet events := by
  unfold orderSet
  rw [List.foldl_append]
  rfl

def isComplete : Except Error CancelEvent → Bool
  | .ok .replayComplete => true
  | _ => false

/-- The orders that the runner has gathered, in use once the replay is over. -/
def Orders.current (orders : Orders) : Finset Uuid :=
  if orders.complete then orders.known else orders.replayed

theorem Orders.complete_event (orders : Orders) (event : Except Error CancelEvent) :
    (orders.event event).complete = (orders.complete || isComplete event) := by
  unfold Orders.event
  split
  · cases orders.complete <;> simp [isComplete]
  · cases orders.complete <;> simp [isComplete]
  · simp [isComplete]
  · simp [isComplete]

/-- The runner folds the events, as long as the replay is completed once. -/
theorem Orders.current_event {orders : Orders} {event : Except Error CancelEvent}
    {events : List (Except Error CancelEvent)} (hcurrent : orders.current = orderSet events)
    (honce : isComplete event = true → orders.complete = false) :
    (orders.event event).current = orderSet (events ++ [event]) := by
  rw [orderSet_snoc, ← hcurrent]
  unfold Orders.event Orders.current
  split
  · cases orders.complete <;> simp
  · cases orders.complete <;> simp
  · simp [honce rfl]
  · rfl

/-- The events of the entries taken, given or still to be given. -/
def Sys.events (s : Sys) : List (Except Error CancelEvent) := s.given ++ s.feed.pending

/-- The feed has reported what `heard` keeps of the entries. -/
structure FeedInv (w : Wire) (stored : ℕ) (s : Sys) : Prop where
  replayed : s.feed.replayed = marked stored s.taken
  once : s.events.countP isComplete = if s.feed.replayed then 1 else 0
  set : Readable w s.taken → ∀ runId,
    runId ∈ orderSet s.events ↔ Live w (heard stored s.taken) runId
  complete : s.orders.complete = s.given.any isComplete
  current : s.orders.current = orderSet s.given

/-! ### Taking an entry -/

/-- What the feed reports of one entry, the mark apart. -/
def CancelFeed.told (w : Wire) (feed : CancelFeed) (entry : Entry) :
    List (Except Error CancelEvent) :=
  match w.runOf entry.key with
  | none => []
  | some runId =>
      if entry.operation = .put then [w.made runId entry.value]
      else if feed.replayed then [.ok (.orderDeleted runId)]
      else []

def CancelFeed.mark (feed : CancelFeed) (entry : Entry) :
    List (Except Error CancelEvent) :=
  if !feed.replayed && entry.seenCurrent then [.ok .replayComplete] else []

section Take

variable {w : Wire} {feed : CancelFeed} {entry : Entry}

theorem order_eq {runId : Uuid} (h : w.runOf entry.key = some runId) :
    feed.order w runId entry =
      { feed with pending := feed.pending ++ feed.told w entry } := by
  obtain ⟨pending, replayed, ended⟩ := feed
  unfold CancelFeed.order CancelFeed.told
  rw [h]
  cases entry.operation with
  | put => rfl
  | delete => cases replayed <;> simp [CancelFeed.push]
  | purge => cases replayed <;> simp [CancelFeed.push]

theorem take_eq : feed.take w entry =
    { feed with
      pending := feed.pending ++ feed.told w entry ++ feed.mark entry
      replayed := feed.replayed || entry.seenCurrent } := by
  unfold CancelFeed.take
  cases h : w.runOf entry.key with
  | none =>
      obtain ⟨pending, replayed, ended⟩ := feed
      cases replayed <;> cases hseen : entry.seenCurrent <;>
        simp [CancelFeed.told, CancelFeed.mark, CancelFeed.push, h, hseen]
  | some runId =>
      simp only [order_eq h]
      obtain ⟨pending, replayed, ended⟩ := feed
      cases replayed <;> cases hseen : entry.seenCurrent <;>
        simp [CancelFeed.mark, CancelFeed.push, hseen]

theorem countP_told : (feed.told w entry).countP isComplete = 0 := by
  unfold CancelFeed.told Wire.made
  split
  · rfl
  · split_ifs
    · split
      · split_ifs <;> rfl
      · rfl
    · rfl
    · rfl

theorem orderSet_mark (events : List (Except Error CancelEvent)) :
    orderSet (events ++ feed.mark entry) = orderSet events := by
  unfold CancelFeed.mark
  split_ifs <;> simp

/-- The report of one entry changes the set as the entry changes what is
heard. -/
theorem mem_orderSet_told {stored : ℕ} {events : List (Except Error CancelEvent)}
    {taken : List Entry} (hreplayed : feed.replayed = marked stored taken)
    (hset : ∀ runId, runId ∈ orderSet events ↔ Live w (heard stored taken) runId)
    (hread : entry.operation = .put → ∀ runId, w.runOf entry.key = some runId →
      w.made runId entry.value = .ok (.orderMade runId)) (runId : Uuid) :
    runId ∈ orderSet (events ++ feed.told w entry) ↔
      Live w (heard stored (taken ++ [entry])) runId := by
  rw [heard_snoc, ← hreplayed]
  cases hrun : w.runOf entry.key with
  | none =>
      have htold : feed.told w entry = [] := by simp [CancelFeed.told, hrun]
      rw [htold, List.append_nil, hset runId]
      split_ifs
      · rw [live_snoc_other (by rw [hrun]; simp)]
      · rw [List.append_nil]
  | some r =>
      have hother : runId ≠ r → w.runOf entry.key ≠ some runId := by
        rw [hrun]
        exact fun hne heq => hne (Option.some.inj heq).symm
      by_cases hput : entry.operation = .put
      · have htold : feed.told w entry = [.ok (.orderMade r)] := by
          simp [CancelFeed.told, hrun, hput, hread hput r hrun]
        rw [htold, orderSet_snoc, Finset.mem_insert, hset runId]
        simp only [hput, decide_true, Bool.or_true, if_true]
        by_cases hr : runId = r
        · subst hr
          rw [live_snoc_own hrun]
          simp [hput]
        · rw [live_snoc_other (hother hr)]
          simp [hr]
      · cases hmarked : feed.replayed with
        | false =>
            have htold : feed.told w entry = [] := by
              simp [CancelFeed.told, hrun, hput, hmarked]
            simpa [htold, hput] using hset runId
        | true =>
            have htold : feed.told w entry = [.ok (.orderDeleted r)] := by
              simp [CancelFeed.told, hrun, hput, hmarked]
            rw [htold, orderSet_snoc, Finset.mem_erase, hset runId]
            simp only [Bool.true_or, if_true]
            by_cases hr : runId = r
            · subst hr
              rw [live_snoc_own hrun]
              simp [hput]
            · rw [live_snoc_other (hother hr)]
              simp [hr]

end Take

/-! ### The invariant -/

variable {w : Wire} {stored : ℕ} {s s' : Sys}

theorem marked_snoc (stored : ℕ) (es : List Entry) (e : Entry) :
    marked stored (es ++ [e]) = (marked stored es || e.seenCurrent) := by
  simp [marked, Bool.or_assoc]

theorem feedInv_init (w : Wire) (stored : ℕ) : FeedInv w stored (.init stored) := by
  by_cases hstored : stored = 0
  · subst hstored
    refine ⟨rfl, rfl, fun _ runId => ?_, rfl, rfl⟩
    simp [Sys.init, Sys.events, CancelFeed.opened, orderSet, heard, Live, lastOf]
  · have hopened : CancelFeed.opened stored = ⟨[], false, none⟩ := by
      simp [CancelFeed.opened, hstored]
    refine ⟨?_, ?_, fun _ runId => ?_, rfl, rfl⟩
    · simp [Sys.init, hopened, marked, hstored]
    · simp [Sys.init, Sys.events, hopened]
    · simp [Sys.init, Sys.events, hopened, orderSet, heard, Live, lastOf, splitReplay]

theorem FeedInv.entry (h : FeedInv w stored s) (entry : Entry) :
    FeedInv w stored
      { s with feed := s.feed.take w entry, taken := s.taken ++ [entry] } := by
  have hevents : Sys.events { s with
      feed := s.feed.take w entry, taken := s.taken ++ [entry] } =
        s.events ++ s.feed.told w entry ++ s.feed.mark entry := by
    simp [Sys.events, take_eq]
  refine ⟨?_, ?_, ?_, h.complete, h.current⟩
  · rw [take_eq, marked_snoc, ← h.replayed]
  · rw [hevents, List.countP_append, List.countP_append, countP_told, h.once, take_eq]
    unfold CancelFeed.mark
    cases s.feed.replayed <;> cases entry.seenCurrent <;> rfl
  · intro hread runId
    have hbefore : Readable w s.taken :=
      fun e he => hread e (List.mem_append_left _ he)
    rw [hevents, orderSet_mark]
    exact mem_orderSet_told h.replayed (h.set hbefore) (hread entry (by simp)) runId

/-- Only the first `ReplayComplete` is ever given. -/
theorem FeedInv.not_complete (h : FeedInv w stored s) {event : Except Error CancelEvent}
    {rest : List (Except Error CancelEvent)} (hpending : s.feed.pending = event :: rest)
    (hevent : isComplete event = true) : s.orders.complete = false := by
  by_contra hcomplete
  have hany : s.given.any isComplete = true := by
    rw [← h.complete]
    simpa using hcomplete
  have hpos : 0 < s.given.countP isComplete :=
    List.countP_pos_iff.mpr (List.any_eq_true.mp hany)
  have honce := h.once
  rw [Sys.events, List.countP_append, hpending, List.countP_cons_of_pos hevent] at honce
  split_ifs at honce
  omega

theorem FeedInv.give (h : FeedInv w stored s) {event : Except Error CancelEvent}
    {rest : List (Except Error CancelEvent)} (hpending : s.feed.pending = event :: rest) :
    FeedInv w stored
      ({ s with feed := { s.feed with pending := rest } }.give event) := by
  have hevents : Sys.events ({ s with feed := { s.feed with pending := rest } }.give event) =
      s.events := by
    simp [Sys.events, Sys.give, hpending]
  refine ⟨h.replayed, by rw [hevents]; exact h.once, by rw [hevents]; exact h.set, ?_, ?_⟩
  · change (s.orders.event event).complete = (s.given ++ [event]).any isComplete
    rw [Orders.complete_event, h.complete]
    simp
  · exact Orders.current_event h.current (h.not_complete hpending)

/-- An error of the feed itself changes nothing. -/
theorem FeedInv.giveError (h : FeedInv w stored s) (hpending : s.feed.pending = [])
    (error : Error) : FeedInv w stored (s.give (.error error)) := by
  have hevents : (s.give (.error error)).events = s.events ++ [.error error] := by
    simp [Sys.events, Sys.give, hpending]
  refine ⟨h.replayed, ?_, ?_, ?_, ?_⟩
  · rw [hevents, List.countP_append, h.once]
    rfl
  · intro hread runId
    rw [hevents, orderSet_snoc]
    exact h.set hread runId
  · rw [show (s.give (.error error)).orders = s.orders from rfl, h.complete]
    simp [Sys.give, isComplete]
  · exact Orders.current_event h.current (by simp [isComplete])

theorem FeedInv.step (h : FeedInv w stored s) {e : Event}
    (hs : s.step w e = some s') : FeedInv w stored s' := by
  cases e with
  | entry entry =>
      simp only [Sys.step] at hs
      split at hs <;> cases hs
      exact h.entry entry
  | watchFailed missing text =>
      simp only [Sys.step] at hs
      split at hs <;> cases hs
      exact ⟨h.replayed, h.once, h.set, h.complete, h.current⟩
  | watchEnded =>
      simp only [Sys.step] at hs
      split at hs <;> cases hs
      exact ⟨h.replayed, h.once, h.set, h.complete, h.current⟩
  | next =>
      simp only [Sys.step] at hs
      split at hs
      · cases hs
        exact h.give ‹_›
      · obtain ⟨error, -, rfl⟩ := Option.map_eq_some_iff.mp hs
        exact h.giveError ‹_› error

theorem feedInv (h : (Sys.machine w stored).Reachable s) : FeedInv w stored s :=
  Machine.Reachable.invariant (P := FeedInv w stored) (feedInv_init w stored)
    (fun hp hs => hp.step hs) h

/-! ## The orders in use -/

/-- What the cancel feed leaves standing, with the puts readable. -/
structure OrdersStand (w : Wire) (stored : ℕ) (s : Sys) : Prop where
  /-- `ReplayComplete` comes once: with the entry marked current, or at the
  opening of an empty bucket. -/
  once : s.events.countP isComplete = if marked stored s.taken then 1 else 0
  /-- After each event the set is that of the keys put last, the deletions of
  the replay left out. -/
  heard : s.feed.pending = [] → s.given.any isComplete = true → ∀ runId,
    runId ∈ orderSet s.given ↔ Live w (heard stored s.taken) runId
  /-- Those are the live keys, with the stale ones. -/
  stale : s.feed.pending = [] → s.given.any isComplete = true → ∀ runId,
    runId ∈ orderSet s.given ↔ Live w s.taken runId ∨ Stale w stored s.taken runId
  /-- So they are exactly the live ones as long as no key is stale. -/
  exact : s.feed.pending = [] → s.given.any isComplete = true →
    ((∀ runId, runId ∈ orderSet s.given ↔ Live w s.taken runId) ↔
      ∀ runId, ¬ Stale w stored s.taken runId)
  /-- The runner has installed that set. -/
  installed : s.given.any isComplete = true → s.orders.known = orderSet s.given

theorem orders_stand (h : (Sys.machine w stored).Reachable s) (hread : Readable w s.taken) :
    OrdersStand w stored s := by
  have hinv := feedInv h
  have hheard : s.feed.pending = [] → ∀ runId,
      runId ∈ orderSet s.given ↔ Live w (heard stored s.taken) runId := by
    intro hpending runId
    have hset := hinv.set hread runId
    rwa [Sys.events, hpending, List.append_nil] at hset
  refine ⟨?_, fun hp _ => hheard hp, ?_, ?_, ?_⟩
  · rw [hinv.once, hinv.replayed]
  · intro hpending _ runId
    rw [hheard hpending, live_heard_iff]
  · intro hpending _
    constructor
    · intro hlive runId hstale
      have hmem : runId ∈ orderSet s.given := by
        rw [hheard hpending, live_heard_iff]
        exact Or.inr hstale
      exact not_live_of_stale hstale ((hlive runId).mp hmem)
    · intro hnone runId
      rw [hheard hpending, live_heard_iff]
      exact or_iff_left (hnone runId)
  · intro hcomplete
    have hcurrent := hinv.current
    rwa [Orders.current, hinv.complete, if_pos hcomplete] at hcurrent

/-! ### Two orders -/

def firstKey : String := "00000000-0000-0000-0000-000000000001"

def secondKey : String := "00000000-0000-0000-0000-000000000002"

/-- The keys and the values of the two runs below. -/
def sampleWire : Wire where
  parseStr key :=
    if key = firstKey then some 1 else if key = secondKey then some 2 else none
  runCancelKey runId := if runId = 1 then firstKey else secondKey
  display runId := if runId = 1 then firstKey else secondKey
  fromSlice value :=
    match value with
    | [1] => .ok ⟨1⟩
    | [2] => .ok ⟨2⟩
    | _ => .error ⟨.badSyntax, 1, 1⟩
  cancelBucket := "cancel"

/-- Two stored orders are replayed; then the first is deleted. -/
def deletedAfter : List Event :=
  [.entry ⟨firstKey, .put, [1], false⟩, .next, .entry ⟨secondKey, .put, [2], true⟩,
    .next, .next, .entry ⟨firstKey, .delete, [], true⟩, .next]

theorem orders_stand_deletedAfter :
    ∃ s, (Sys.machine sampleWire 2).run deletedAfter = some s ∧
      OrdersStand sampleWire 2 s ∧ s.orders.known = {2} := by
  refine ⟨_, rfl, orders_stand (Machine.reachable_of_run deletedAfter rfl) ?_, by decide⟩
  intro e he hput runId hrun
  have hcases : e = ⟨firstKey, .put, [1], false⟩ ∨ e = ⟨secondKey, .put, [2], true⟩ ∨
      e = ⟨firstKey, .delete, [], true⟩ := by
    simpa using (show e ∈ [_, _, _] from he)
  rcases hcases with rfl | rfl | rfl
  · cases hrun
    rfl
  · cases hrun
    rfl
  · cases hput

/-- The first order is put and deleted before the entry marked current. -/
def deletedInReplay : List Event :=
  [.entry ⟨firstKey, .put, [1], false⟩, .next, .entry ⟨firstKey, .delete, [], false⟩,
    .entry ⟨secondKey, .put, [2], true⟩, .next, .next]

/-- The runner installs an order whose key was deleted last. -/
theorem deleted_order_stands :
    ∃ s, (Sys.machine sampleWire 2).run deletedInReplay = some s ∧
      s.feed.pending = [] ∧ s.orders.complete = true ∧ s.orders.known = {1, 2} ∧
      (lastOf sampleWire 1 s.taken).map Entry.operation = some .delete :=
  ⟨_, rfl, rfl, rfl, by decide, by decide⟩

end RunnerKit.RunnerTransport
