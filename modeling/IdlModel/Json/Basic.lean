import IdlModel.Json.Number

/-!
# JSON values

A JSON value keeps the members of its objects in order, and a key may occur more than once.
-/

namespace IdlModel

/-- A JSON value. -/
inductive Json where
  | null
  | bool (value : Bool)
  | number (value : Json.Number)
  | string (value : String)
  | array (items : List Json)
  | object (members : List (String × Json))

namespace Json

instance : Inhabited Json := ⟨.null⟩

/-- An object with the members that are present. -/
def ofMembers (members : List (Option (String × Json))) : Json :=
  .object (members.filterMap id)

/-- A member that is there whatever its value. -/
def member (key : String) (value : Json) : Option (String × Json) :=
  some (key, value)

/-- A member that is there only if its value is. -/
def member? (key : String) (value : Option Json) : Option (String × Json) :=
  value.map (key, ·)

/-- A list of strings. -/
def ofStrings (texts : List String) : Json :=
  .array (texts.map .string)

mutual

/-- How deep arrays and objects nest in a value. -/
def depth : Json → Nat
  | .array items => depthOfItems items + 1
  | .object members => depthOfMembers members + 1
  | _ => 0

/-- The greatest depth among the items of an array. -/
def depthOfItems : List Json → Nat
  | [] => 0
  | v :: vs => max v.depth (depthOfItems vs)

/-- The greatest depth among the members of an object. -/
def depthOfMembers : List (String × Json) → Nat
  | [] => 0
  | (_, v) :: ms => max v.depth (depthOfMembers ms)

end

end Json

end IdlModel
