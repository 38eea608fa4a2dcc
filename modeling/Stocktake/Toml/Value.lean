import Stocktake.Decode

/-! TOML values, and how decoders see them. -/

namespace Stocktake.Toml

/-- A value that stands behind an equals sign. -/
inductive Value
  | string (content : String)
  | integer (n : Int)
  | float (literal : String)
  /-- A number that no integer or float can hold, or whose digits are not those of its base. -/
  | unreadable (literal : String)
  | bool (truth : Bool)
  | dateTime (literal : String)
  | array (items : List Value)
  | table (members : List (String × Value))

/-- How a decoder sees a value; a date has no field that a structure knows. -/
def Value.shape : Value → Shape Value
  | .string content => .text content
  | .integer (.ofNat n) => .natural n
  | .bool truth => .bool truth
  | .dateTime _ => .fields []
  | .array items => .items items
  | .table members => .fields members
  | _ => .other

mutual

/-- A value is readable when no number in it is unreadable. -/
def Value.isReadable : Value → Bool
  | .unreadable _ => false
  | .array items => areReadable items
  | .table members => membersAreReadable members
  | _ => true

/-- All items are readable. -/
def areReadable : List Value → Bool
  | [] => true
  | item :: items => if item.isReadable then areReadable items else false

/-- The values of all members are readable. -/
def membersAreReadable : List (String × Value) → Bool
  | [] => true
  | (_, value) :: members => if value.isReadable then membersAreReadable members else false

end

/-- A structure written as an array may have items that no field takes. -/
instance : Document Value where
  shape := Value.shape
  isReadable := Value.isReadable
  ignoresExtraItems := true

mutual

/-- Whether two values are the same, part by part. -/
def Value.same : Value → Value → Bool
  | .string a, .string b => a == b
  | .integer a, .integer b => a == b
  | .float a, .float b => a == b
  | .unreadable a, .unreadable b => a == b
  | .bool a, .bool b => a == b
  | .dateTime a, .dateTime b => a == b
  | .array a, .array b => itemsSame a b
  | .table a, .table b => membersSame a b
  | _, _ => false

/-- Whether two lists have the same items. -/
def itemsSame : List Value → List Value → Bool
  | [], [] => true
  | a :: items, b :: others => a.same b && itemsSame items others
  | _, _ => false

/-- Whether two tables have the same members in the same order. -/
def membersSame : List (String × Value) → List (String × Value) → Bool
  | [], [] => true
  | (name, a) :: members, (label, b) :: others =>
    name == label && a.same b && membersSame members others
  | _, _ => false

end

mutual

/-- A value is the same as itself. -/
theorem Value.same_self : ∀ value : Value, value.same value = true
  -- Scalars are compared by their own equality, and tables and arrays part by part.
  | .string _ => beq_self_eq_true _
  | .integer _ => beq_self_eq_true _
  | .float _ => beq_self_eq_true _
  | .unreadable _ => beq_self_eq_true _
  | .bool _ => beq_self_eq_true _
  | .dateTime _ => beq_self_eq_true _
  | .array items => itemsSame_self items
  | .table members => membersSame_self members

/-- A list has the same items as itself. -/
theorem itemsSame_self : ∀ items : List Value, itemsSame items items = true
  -- Each item is compared with itself, and so are the items behind it.
  | [] => rfl
  | item :: items => by rw [itemsSame, item.same_self, itemsSame_self items]; rfl

/-- A table has the same members as itself. -/
theorem membersSame_self : ∀ members : List (String × Value), membersSame members members = true
  -- Names are compared as texts, and values as values.
  | [] => rfl
  | (name, value) :: members => by
    rw [membersSame, value.same_self, membersSame_self members, beq_self_eq_true]
    rfl

end

mutual

/-- Values that are the same are equal. -/
theorem Value.eq_of_same : ∀ {value other : Value}, value.same other = true → value = other
  -- Values of different kinds are never the same, so each kind meets only itself.
  | .string _, .string _, same => congrArg _ (eq_of_beq same)
  | .integer _, .integer _, same => congrArg _ (eq_of_beq same)
  | .float _, .float _, same => congrArg _ (eq_of_beq same)
  | .unreadable _, .unreadable _, same => congrArg _ (eq_of_beq same)
  | .bool _, .bool _, same => congrArg _ (eq_of_beq same)
  | .dateTime _, .dateTime _, same => congrArg _ (eq_of_beq same)
  | .array _, .array _, same => congrArg _ (eq_of_itemsSame same)
  | .table _, .table _, same => congrArg _ (eq_of_membersSame same)

/-- Lists with the same items are equal. -/
theorem eq_of_itemsSame : ∀ {items others : List Value}, itemsSame items others = true →
    items = others
  -- Lists that are the same have equal heads and go on alike.
  | [], [], _ => rfl
  | _ :: _, _ :: _, same => by
    rw [itemsSame, Bool.and_eq_true] at same
    rw [Value.eq_of_same same.1, eq_of_itemsSame same.2]

/-- Tables with the same members are equal. -/
theorem eq_of_membersSame : ∀ {members others : List (String × Value)},
    membersSame members others = true → members = others
  -- Both the names and the values agree, member by member.
  | [], [], _ => rfl
  | (_, _) :: _, (_, _) :: _, same => by
    rw [membersSame, Bool.and_eq_true, Bool.and_eq_true] at same
    rw [eq_of_beq same.1.1, Value.eq_of_same same.1.2, eq_of_membersSame same.2]

end

/-- Values can be compared. As they nest in lists, no comparison can be derived. -/
instance : DecidableEq Value := fun value other =>
  decidable_of_iff (value.same other = true)
    ⟨Value.eq_of_same, fun equal => equal ▸ value.same_self⟩

end Stocktake.Toml
