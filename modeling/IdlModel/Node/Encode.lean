import IdlModel.Json.Basic
import IdlModel.Node.Basic

/-!
# Syntax trees as JSON

The JSON form of a node: its rule as the member `kind`, and its text, fields and children where
they are not empty. Named fields come in the order of their names.
-/

namespace IdlModel

/-- Named fields as JSON. -/
def Fields.toJson (fs : Fields) : Json :=
  .object (fs.entries.map fun (name, text) => (name, .string text))

namespace Node

/-- The members of a node, given its children as JSON. -/
def membersWith (rule text : String) (fields : Fields) (children : List Json) : Json :=
  .ofMembers [Json.member "kind" (.string rule),
    if text.isEmpty then none else Json.member "text" (.string text),
    if fields.isEmpty then none else Json.member "fields" fields.toJson,
    if children.isEmpty then none else Json.member "children" (.array children)]

mutual

/-- A tree as JSON. -/
def toJson : Node → Json
  | ⟨rule, text, fields, children⟩ => membersWith rule text fields (toJsonAll children)

/-- A number of trees as JSON. -/
def toJsonAll : List Node → List Json
  | [] => []
  | n :: ns => n.toJson :: toJsonAll ns

end

theorem toJsonAll_eq_map (ns : List Node) : toJsonAll ns = ns.map toJson := by
  induction ns with
  | nil => rw [toJsonAll, List.map_nil]
  | cons n ns ih => rw [toJsonAll, List.map_cons, ih]

end Node

end IdlModel
