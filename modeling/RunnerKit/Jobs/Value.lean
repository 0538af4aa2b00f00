import RunnerKit.Jobs.Model

/-!
# JSON values

The accessors of `serde_json::Value` that the readers of this crate use.
-/

namespace RunnerKit.Jobs

namespace Value

def isNull : Value → Bool
  | .null => true
  | _ => false

def asStr : Value → Option String
  | .string text => some text
  | _ => none

def asArray : Value → Option (List Value)
  | .array items => some items
  | _ => none

def asObject : Value → Option (List (String × Value))
  | .object members => some members
  | _ => none

def get (value : Value) (key : String) : Option Value :=
  match value with
  | .object members => (members.find? fun member => member.1 == key).map Prod.snd
  | _ => none

/-- `remove` of the map of an object; any other value stays as it is. -/
def remove (value : Value) (key : String) : Value :=
  match value with
  | .object members => .object (members.filter fun member => member.1 != key)
  | other => other

/-- The values of the fields of a struct, as a derived reader takes them: by their names
from an object, in their order from an array. -/
def structFields (names : List String) : Value → Option (List Value)
  | .object members => names.mapM fun name => (Value.object members).get name
  | .array items => if items.length = names.length then some items else none
  | _ => none

/-! ## Equality -/

mutual

/-- Structural equality. -/
def same : Value → Value → Bool
  | .null, .null => true
  | .bool a, .bool b => a == b
  | .number a, .number b => a == b
  | .string a, .string b => a == b
  | .array as, .array bs => sameItems as bs
  | .object as, .object bs => sameMembers as bs
  | _, _ => false
termination_by structural a => a

def sameItems : List Value → List Value → Bool
  | [], [] => true
  | a :: as, b :: bs => same a b && sameItems as bs
  | _, _ => false
termination_by structural as => as

def sameMembers : List (String × Value) → List (String × Value) → Bool
  | [], [] => true
  | a :: as, b :: bs => sameMember a b && sameMembers as bs
  | _, _ => false
termination_by structural as => as

def sameMember : String × Value → String × Value → Bool
  | (k, a), (l, b) => k == l && same a b
termination_by structural a => a

end

mutual

theorem same_eq : ∀ {a b : Value}, same a b = true → a = b
  | .null, b, h => by
      cases b <;> first | rfl | cases h
  | .bool a, b, h => by
      cases b <;> simp_all [same]
  | .number a, b, h => by
      cases b <;> simp_all [same]
  | .string a, b, h => by
      cases b <;> simp_all [same]
  | .array as, b, h => by
      cases b with
      | array bs => exact congrArg Value.array (sameItems_eq h)
      | _ => cases h
  | .object as, b, h => by
      cases b with
      | object bs => exact congrArg Value.object (sameMembers_eq h)
      | _ => cases h

theorem sameItems_eq : ∀ {as bs : List Value}, sameItems as bs = true → as = bs
  | [], [], _ => rfl
  | [], _ :: _, h => by cases h
  | _ :: _, [], h => by cases h
  | a :: as, b :: bs, h => by
      obtain ⟨hab, hrest⟩ := Bool.and_eq_true_iff.mp h
      rw [same_eq hab, sameItems_eq hrest]

theorem sameMembers_eq : ∀ {as bs : List (String × Value)}, sameMembers as bs = true → as = bs
  | [], [], _ => rfl
  | [], _ :: _, h => by cases h
  | _ :: _, [], h => by cases h
  | a :: as, b :: bs, h => by
      obtain ⟨hab, hrest⟩ := Bool.and_eq_true_iff.mp h
      rw [sameMember_eq hab, sameMembers_eq hrest]

theorem sameMember_eq : ∀ {a b : String × Value}, sameMember a b = true → a = b
  | (k, a), (l, b), h => by
      obtain ⟨hkl, hab⟩ := Bool.and_eq_true_iff.mp h
      rw [same_eq hab, eq_of_beq hkl]

end

/-! ## The text -/

/-- The members of a list or of an object, with commas between. -/
def commas : List (List Char) → List Char
  | [] => []
  | [part] => part
  | part :: parts => part ++ ',' :: commas parts

mutual

/-- The compact text of a value whose strings need no escapes. -/
def text : Value → List Char
  | .null => "null".toList
  | .bool b => if b then "true".toList else "false".toList
  | .number digits => digits.toList
  | .string text => '"' :: text.toList ++ ['"']
  | .array items => '[' :: commas (texts items) ++ [']']
  | .object members => '\x7b' :: commas (memberTexts members) ++ ['\x7d']
termination_by structural a => a

def texts : List Value → List (List Char)
  | [] => []
  | item :: items => text item :: texts items
termination_by structural as => as

def memberTexts : List (String × Value) → List (List Char)
  | [] => []
  | member :: members => memberText member :: memberTexts members
termination_by structural as => as

def memberText : String × Value → List Char
  | (key, value) => '"' :: key.toList ++ '"' :: ':' :: text value
termination_by structural a => a

end

def bytes (value : Value) : List UInt8 := value.text.map fun c => UInt8.ofNat c.toNat

end Value

end RunnerKit.Jobs
