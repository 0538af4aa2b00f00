import RunnerKit.Jobs.Model

/-!
# The unread items of a Run and what arrives

`model/mod.rs`, `graphql/items.rs` and the arrivals of `arrival/mod.rs`. An
item is read alone, so one bad item spoils neither the others nor the read.
-/

namespace RunnerKit.Jobs

/-! ## Items -/

inductive ItemKind where
  | directMail | ccNotice | callNotice | mailNotice | unknown
deriving DecidableEq

/-- The doorbell event of an item; it carries no content. -/
structure ItemArrived where
  address : Option Uuid
  itemId : Uuid
  kind : ItemKind
deriving DecidableEq

inductive CallNoticeKind where
  | accepted | queuePosition | runStarted | runCompleted | jobFailed
  | jobCancelled | refused | unknown
deriving DecidableEq

structure FailureReportView where
  kind : Option FailureKind
  reasonCode : String
  params : Value
  diagnostic : Value

abbrev ResultRef := Uuid

/-- How a sync call ended. -/
inductive SyncEnd where
  | completed (inline : Option Content) (resultRef : Option ResultRef)
  | failed (report : Option FailureReportView) (message : String)
  | cancelled (message : String)

structure CallNotice where
  itemId : Uuid
  address : Option Uuid
  kind : CallNoticeKind
  noticeType : Option String
  childJobId : Option Uuid
  position : Option ℤ
  message : Option String
  report : Option FailureReportView
  inline : Option Content
  resultRef : Option ResultRef

/-- Of the mail of a direct mail only the id is kept here. -/
inductive UnreadItem where
  | directMail (itemId : Uuid) (address : Option Uuid) (mailId : Uuid)
  | ccNotice (itemId : Uuid) (address : Option Uuid) (mailId : Uuid)
      (subject : String)
  | callNotice (notice : CallNotice)
  | mailNotice (itemId : Uuid) (address : Option Uuid) (mailId : Option Uuid)
      (text : String)
  | unknown (itemId : Uuid) (address : Option Uuid) (itemKind : String)
      (message : Option String)

namespace UnreadItem

def itemId : UnreadItem → Uuid
  | .directMail itemId _ _ | .ccNotice itemId _ _ _ | .mailNotice itemId _ _ _
  | .unknown itemId _ _ _ => itemId
  | .callNotice notice => notice.itemId

def address : UnreadItem → Option Uuid
  | .directMail _ address _ | .ccNotice _ address _ _ | .mailNotice _ address _ _
  | .unknown _ address _ _ => address
  | .callNotice notice => notice.address

end UnreadItem

/-! ## Reads and arrivals -/

/-- An item that cannot be read, with what could be read of it. -/
structure BadItem where
  itemId : Option Uuid
  childJobId : Option Uuid
  error : Error

inductive Read where
  | item (item : UnreadItem)
  | bad (bad : BadItem)

inductive Arrival where
  | item (item : ItemArrived)
  | syncEnd (childJobId : Uuid) (ended : SyncEnd)
  | unreadable (childJobId : Option Uuid) (error : Error)

def Error.isUnreadable : Error → Bool
  | .unreadable _ => true
  | _ => false

def Error.isInfraMissing : Error → Bool
  | .infraMissing _ => true
  | _ => false

end RunnerKit.Jobs
