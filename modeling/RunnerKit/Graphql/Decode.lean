import RunnerKit.Jobs.Text
import RunnerKit.Jobs.Value

/-!
# Reading the replies of jobs

`graphql/decode.rs` and `graphql/lift.rs`. A field that is missing or null is not
present, and the error of a field names its key. The parser of a UUID and the names of
the roots are not in this repository; a `Contract` stands for them.
-/

namespace RunnerKit.Graphql

open RunnerKit.Jobs

structure Contract where
  parseStr : String → Option Uuid
  unreadRoot : String

/-! ## Fields -/

def unreadable (what : String) : Error :=
  .unreadable ("the reply of jobs cannot be read: " ++ what)

def orUnreadable {α : Type} (what : String) : Option α → Except Error α
  | some found => .ok found
  | none => .error (unreadable what)

def transpose {α : Type} : Option (Except Error α) → Except Error (Option α)
  | none => .ok none
  | some (.ok found) => .ok (some found)
  | some (.error error) => .error error

def present (value : Value) (key : String) : Option Value :=
  (value.get key).filter fun found => !found.isNull

/-- A number that is written as an integer of 64 bits; `-0` is not. -/
def asI64 : Value → Option ℤ
  | .number text =>
      (if text = "-0" then none else text.toInt?).filter fun n =>
        decide (-2 ^ 63 ≤ n ∧ n < 2 ^ 63)
  | _ => none

def object (value : Value) (key : String) : Except Error Value :=
  orUnreadable key ((present value key).filter fun found => found.asObject.isSome)

def string (value : Value) (key : String) : Except Error String :=
  orUnreadable key ((present value key).bind Value.asStr)

def optString (value : Value) (key : String) : Except Error (Option String) :=
  transpose ((present value key).map fun found => orUnreadable key found.asStr)

def optInteger (value : Value) (key : String) : Except Error (Option ℤ) :=
  transpose ((present value key).map fun found => orUnreadable key (asI64 found))

def list (value : Value) (key : String) : Except Error (List Value) :=
  orUnreadable key ((present value key).bind Value.asArray)

namespace Contract

variable (c : Contract)

def uuidOf (value : Value) (what : String) : Except Error Uuid :=
  orUnreadable what (value.asStr.bind c.parseStr)

def uuid (value : Value) (key : String) : Except Error Uuid :=
  (orUnreadable key (present value key)).bind fun found => c.uuidOf found key

def optUuid (value : Value) (key : String) : Except Error (Option Uuid) :=
  transpose ((present value key).map fun found => c.uuidOf found key)

end Contract

/-! ## Contents and attachments -/

structure MailAttachment where
  attachmentId : Uuid
  name : String
  contentType : Option String
  size : Option ℕ

def attachment (entry : Value) (contentType : String) : Except Error ContentAttachment := do
  let name ← string entry "name"
  let contentType ← string entry contentType
  let content ← string entry "content"
  return ⟨name, contentType, content⟩

def contentWith (value : Value) (contentType : String) : Except Error Content := do
  let message ← string value "message"
  let entries ← list value "attachments"
  let attachments ← entries.mapM fun entry => attachment entry contentType
  return ⟨message, attachments⟩

def answer (value : Value) : Except Error Content :=
  if value.asObject.isNone then .error (unreadable "answer")
  else contentWith value "content_type"

def sizeOf (size : ℤ) : Except Error ℕ :=
  if 0 ≤ size then .ok size.toNat else .error (unreadable "size")

def Contract.mailAttachments (c : Contract) (value : Value) (key : String) :
    Except Error (List MailAttachment) := do
  let entries ← list value key
  entries.mapM fun entry => do
    let attachmentId ← c.uuid entry "attachmentId"
    let name ← string entry "name"
    let contentType ← optString entry "contentType"
    let size ← optInteger entry "size"
    let size ← transpose (size.map sizeOf)
    return ⟨attachmentId, name, contentType, size⟩

/-! ## Replies -/

def retag (operation : Operation) : Error → Error
  | .refused refusal => .refused { refusal with operation := operation }
  | other => other

def asBool : Value → Option Bool
  | .bool b => some b
  | _ => none

def text (root : Value) (key : String) : Except Error String :=
  orUnreadable "a refusal without its reason or its text" ((root.get key).bind Value.asStr)

def badAddressLine (entry : Value) : Option String := do
  let address ← (entry.get "address").bind Value.asStr
  let message ← (entry.get "message").bind Value.asStr
  let reason ← (entry.get "reason").bind Value.asStr
  return address ++ ": " ++ message ++ " (" ++ reason ++ ")"

def refusalMessage (root : Value) : Except Error String := do
  let message ← text root "message"
  let bad := ((root.get "badAddresses").bind Value.asArray).getD []
  let lines ← bad.mapM fun entry => orUnreadable "a bad address" (badAddressLine entry)
  return lines.foldl (fun message line => message ++ "\n" ++ line) message

/-- `call`, with what the backend answers to the document. -/
def call (operation : Operation) (rootName : String) (data : Except Error Value) :
    Except Error Value :=
  match data with
  | .error error => .error (retag operation error)
  | .ok data =>
      match (data.get rootName).filter fun root => root.asObject.isSome with
      | none => .error (unreadable ("no " ++ rootName ++ " in the reply"))
      | some root =>
          match (root.get "success").bind asBool with
          | some true => .ok root
          | some false => do
              let reason ← text root "reason"
              let message ← refusalMessage root
              .error (.refused ⟨operation, .ofWord reason, message, none⟩)
          | none => .error (unreadable "no success flag in the reply")

/-! ## Reads that succeed -/

theorem bind_ok {α β : Type} {x : Except Error α} {f : α → Except Error β} {b : β}
    (h : (x >>= f) = .ok b) : ∃ a, x = .ok a ∧ f a = .ok b := by
  cases x with
  | error error => cases h
  | ok a => exact ⟨a, rfl, h⟩

theorem orUnreadable_ok {α : Type} {what : String} {found : Option α} {a : α}
    (h : orUnreadable what found = .ok a) : found = some a := by
  cases found with
  | none => cases h
  | some b =>
      cases h
      rfl

/-- A string that is read is there, and not null. -/
theorem string_ok {value : Value} {key text : String} (h : string value key = .ok text) :
    (value.get key).bind Value.asStr = some text := by
  obtain ⟨found, hfound, htext⟩ := Option.bind_eq_some_iff.mp (orUnreadable_ok h)
  rw [(Option.filter_eq_some_iff.mp hfound).1]
  exact htext

end RunnerKit.Graphql
