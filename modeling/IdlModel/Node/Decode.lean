import IdlModel.Json.Reader
import IdlModel.Node.Basic

/-!
# Syntax trees from JSON

A node is read from an object with the members `kind`, `text`, `fields` and `children`, of which
only the first is required, or from an array of these values in this order. Members of other names
are passed over. Of two named fields with one name the later one counts, but a member of a node
may occur only once.
-/

namespace IdlModel

namespace Node

open Json (Reader Mismatch)
open Json.Reader

/-- What has been read of a node. -/
structure Draft where
  rule : Option String := none
  text : Option String := none
  fields : Option Fields := none
  children : Option (List Node) := none

/-- The node that has been read, unless its rule is missing. -/
def Draft.node (d : Draft) : Except Mismatch Node :=
  match d.rule with
  | some rule => .ok {
      rule
      text := d.text.getD ""
      fields := d.fields.getD .empty
      children := d.children.getD [] }
  | none => .error (.missingField "kind")

/-- Read named fields, for which there are some levels left. -/
def readFields (levels : Nat) : Reader Fields := do
  match ← head with
  | .opening .curly => do
    spend levels
    let fields ← members (fun name (fields : Fields) => do
      colon
      let text ← string
      pure (fields.insert name text)) .empty
    close .curly
    pure fields
  | h => mismatch (.invalidType h.found .map)

/-- Read the value of one member of a node. -/
def readMember (levels : Nat) (child : Reader Node) (name : String) (d : Draft) : Reader Draft :=
  match name with
  | "kind" => do
    let rule ← once name d.rule string
    pure { d with rule }
  | "text" => do
    let text ← once name d.text string
    pure { d with text }
  | "fields" => do
    let fields ← once name d.fields (readFields levels)
    pure { d with fields }
  | "children" => do
    let children ← once name d.children (list levels child)
    pure { d with children }
  | _ => do
    colon
    skipValue
    pure d

/-- Read a node from an array, behind the opening bracket. -/
def readItems (levels : Nat) (child : Reader Node) : Reader Node := do
  match ← itemAt? 0 string with
  | none => mismatch (.tooShort 0 "TreeNode" 4)
  | some rule =>
    let text ← itemAt? 1 string
    let fields ← itemAt? 2 (readFields levels)
    let children ← itemAt? 3 (list levels child)
    ofExcept (Draft.node { rule := some rule, text, fields, children })

/-- Read a node, for which there are some levels left, given the reader of its children. -/
def readWith (levels : Nat) (child : Reader Node) : Reader Node := do
  match ← head with
  | .opening .curly => do
    spend levels
    let d ← members (readMember (levels - 1) child) {}
    let n ← ofExcept d.node
    close .curly
    pure n
  | .opening .square => do
    spend levels
    let n ← readItems (levels - 1) child
    close .square
    pure n
  | h => mismatch (.invalidType h.found (.record "TreeNode"))

/-- Read a tree, for which there are some levels left. A node spends one level, and the list of
its children another. -/
def reader : Nat → Reader Node
  | levels + 2 => readWith (levels + 2) (reader levels)
  | levels => readWith levels (fault .malformed)

/-- The syntax tree that a text is the JSON form of. -/
def ofJsonText (text : String) : Except Json.ReadError Node :=
  Json.Reader.read (reader maxDepth) text

end Node

end IdlModel
