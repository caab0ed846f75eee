import Caret.Number.Layout

/-!
JSON values. The members of an object stand in the order of their names, each name once; `Members.collect` brings any
list of members into that form, the later of two members with one name taking the place of the earlier.
-/

namespace Caret

namespace Members

variable {α : Type}

/-- Puts a member in its place, over one with the same name. -/
def insert (name : String) (value : α) : List (String × α) → List (String × α)
  | [] => [(name, value)]
  | (other, old) :: rest =>
    if name < other then (name, value) :: (other, old) :: rest
    else if name = other then (name, value) :: rest
    else (other, old) :: insert name value rest

def collect (members : List (String × α)) : List (String × α) :=
  members.foldl (fun object (name, value) => insert name value object) []

def find? (name : String) : List (String × α) → Option α
  | [] => none
  | (other, value) :: rest => if name = other then some value else find? name rest

end Members

inductive Json where
  | null
  | bool (value : Bool)
  | number (value : Double)
  | string (value : String)
  | array (items : List Json)
  | object (members : List (String × Json))

namespace Json

instance : Inhabited Json := ⟨null⟩

def ofMembers (members : List (String × Json)) : Json :=
  object (Members.collect members)

def kind : Json → String
  | null => "null"
  | bool _ => "bool"
  | number _ => "number"
  | string _ => "string"
  | array _ => "array"
  | object _ => "object"

def isNull : Json → Bool
  | null => true
  | _ => false

def bool? : Json → Option Bool
  | bool value => some value
  | _ => none

def number? : Json → Option Double
  | number value => some value
  | _ => none

def string? : Json → Option String
  | string value => some value
  | _ => none

def array? : Json → Option (List Json)
  | array items => some items
  | _ => none

def object? : Json → Option (List (String × Json))
  | object members => some members
  | _ => none

def get? (name : String) (value : Json) : Option Json :=
  value.object?.bind (Members.find? name)

mutual

/-- Equality with numbers compared as numbers. -/
def equals : Json → Json → Bool
  | null, null => true
  | bool value, bool other => value == other
  | number value, number other => value.equals other
  | string value, string other => value == other
  | array items, array others => itemsEqual items others
  | object members, object others => membersEqual members others
  | _, _ => false

def itemsEqual : List Json → List Json → Bool
  | [], [] => true
  | item :: rest, other :: others => item.equals other && itemsEqual rest others
  | _, _ => false

def membersEqual : List (String × Json) → List (String × Json) → Bool
  | [], [] => true
  | (name, value) :: rest, (other, otherValue) :: others =>
    name == other && value.equals otherValue && membersEqual rest others
  | _, _ => false

end

mutual

def depth : Json → Nat
  | array items => itemsDepth items + 1
  | object members => membersDepth members + 1
  | _ => 0

def itemsDepth : List Json → Nat
  | [] => 0
  | item :: rest => max item.depth (itemsDepth rest)

def membersDepth : List (String × Json) → Nat
  | [] => 0
  | (_, value) :: rest => max value.depth (membersDepth rest)

end

end Json

end Caret
