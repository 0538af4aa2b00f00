import RunnerKit.EndWait.Store
import RunnerKit.Graphql.Items

/-!
# What a read of the unread items gives

`arrival/resolve.rs` and the two consumers of a read in `arrival/mod.rs`: the replay
that a feed starts with, and the read that is made for a run-level notice. The first
outcome of a child job that the end store is given stays.
-/

namespace RunnerKit.Arrivals

open RunnerKit.Jobs RunnerKit.Graphql RunnerKit.EndWait

/-! ## One item -/

def itemArrived (item : UnreadItem) : ItemArrived where
  address := item.address
  itemId := item.itemId
  kind := match item with
    | .directMail .. => .directMail
    | .ccNotice .. => .ccNotice
    | .callNotice _ => .callNotice
    | .mailNotice .. => .mailNotice
    | .unknown .. => .unknown

def bad (bad : BadItem) : Arrival := .unreadable bad.childJobId bad.error

def unreadable (childJobId : Option Uuid) (what : String) : Arrival :=
  .unreadable childJobId
    (.unreadable ("the end of a sync call cannot be read: " ++ what))

def ended (notice : CallNotice) (childJobId : Uuid) : Arrival :=
  match notice.kind with
  | .runCompleted =>
      if notice.inline.isNone ∧ notice.resultRef.isNone then
        unreadable (some childJobId) "a completion with no Result"
      else .syncEnd childJobId (.completed notice.inline notice.resultRef)
  | .jobFailed =>
      match notice.message with
      | some message => .syncEnd childJobId (.failed notice.report message)
      | none => unreadable (some childJobId) "a failure with no message"
  | .jobCancelled =>
      match notice.message with
      | some message => .syncEnd childJobId (.cancelled message)
      | none => unreadable (some childJobId) "a cancel with no message"
  | _ => unreadable (some childJobId) "a notice that does not end a call"

def ends : CallNoticeKind → Bool
  | .runCompleted | .jobFailed | .jobCancelled => true
  | _ => false

def syncEnd : UnreadItem → Option Arrival
  | .callNotice notice =>
      if notice.address.isSome then none
      else if !ends notice.kind then none
      else match notice.childJobId with
        | some childJobId => some (ended notice childJobId)
        | none => some (unreadable none "a run-level notice with no child Job")
  | _ => none

/-! ## The two consumers -/

def resolved (event : ItemArrived) : Read → Option Arrival
  | .item item => if item.itemId = event.itemId then syncEnd item else none
  | .bad failed =>
      if failed.itemId.all fun id => id = event.itemId then some (bad failed) else none

def isRunLevelNotice (event : ItemArrived) : Bool :=
  event.address.isNone && event.kind = .callNotice

def replayed : Read → List Arrival
  | .item item => .item (itemArrived item) :: (syncEnd item).toList
  | .bad failed => [bad failed]

def replay (reads : List Read) : List Arrival := reads.flatMap replayed

/-- The buffer that `from_raw` starts with. -/
def fromRaw : Except Error (List Read) → Except Error (List Arrival)
  | .ok reads => .ok (replay reads)
  | .error error =>
      if error.isUnreadable then .ok [.unreadable none error] else .error error

/-- What `resolve` adds to the buffer, and the error that then ends the feed. -/
def resolve (event : ItemArrived) : Except Error (List Read) → List Arrival × Option Error
  | .ok reads => (reads.filterMap (resolved event), none)
  | .error error =>
      if error.isUnreadable then ([.unreadable none error], none) else ([], some error)

/-- What `next` gives for an event, with the read that it makes for a run-level notice. -/
def live (event : ItemArrived) (reads : Except Error (List Read)) : List Arrival :=
  .item event :: if isRunLevelNotice event then (resolve event reads).1 else []

/-! ## The outcome of a child job -/

/-- What an arrival records for a child job. -/
def outcomeFor (child : Uuid) : Arrival → Option Outcome
  | .item _ => none
  | .syncEnd named ended => if named = child then some (.ok ended) else none
  | .unreadable named error => if named = some child then some (.error error) else none

/-- The outcomes that the end store has after these arrivals. -/
def outcomes (s : Sys) (arrivals : List Arrival) : Uuid → Option Outcome :=
  (arrivals.foldl Sys.arrival s).held.outcomes

theorem record_outcomes (held : Held) (named child : Uuid) (outcome : Outcome) :
    (held.record named outcome).2.outcomes child =
      (held.outcomes child).or (if named = child then some outcome else none) := by
  unfold Held.record
  by_cases hchild : named = child
  · subst hchild
    cases hheld : held.outcomes named with
    | some found => simp [hheld]
    | none => simp
  · have hupdate : ∀ found : Option Outcome,
        Function.update held.outcomes named found child = held.outcomes child :=
      fun found => Function.update_of_ne (Ne.symm hchild) _ _
    cases held.outcomes named with
    | some found => simp [hchild]
    | none => simp [hchild, hupdate]

theorem arrival_outcomes (s : Sys) (arrival : Arrival) (child : Uuid) :
    (s.arrival arrival).held.outcomes child =
      (s.held.outcomes child).or (outcomeFor child arrival) := by
  cases arrival with
  | item item => simp [Sys.arrival, outcomeFor]
  | syncEnd named ended => exact record_outcomes s.held named child _
  | unreadable named error =>
      cases named with
      | none => simp [Sys.arrival, outcomeFor]
      | some named =>
          simp only [outcomeFor, Option.some.injEq]
          exact record_outcomes s.held named child (.error error)

/-- Of the arrivals that name a child job the first counts, unless it has an outcome. -/
theorem outcomes_eq (s : Sys) (arrivals : List Arrival) (child : Uuid) :
    outcomes s arrivals child =
      (s.held.outcomes child).or (arrivals.findSome? (outcomeFor child)) := by
  unfold outcomes
  induction arrivals generalizing s with
  | nil => simp
  | cons arrival arrivals ih =>
      rw [List.foldl_cons, ih, arrival_outcomes, List.findSome?_cons]
      cases outcomeFor child arrival with
      | none => simp
      | some outcome =>
          cases s.held.outcomes child with
          | none => rfl
          | some found => rfl

end RunnerKit.Arrivals
