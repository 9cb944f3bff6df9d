import IdlModel.Node.Fields
import IdlModel.Node.Kind

/-!
# Syntax tree nodes

The syntax tree of an IDL file as a parser for the language hands it over: every node has the
name of its grammar rule, a text, named fields, and children in the order of the source. The
constructors below build the nodes that the model of a file is made from.
-/

namespace IdlModel

/-- A node of a syntax tree. -/
structure Node where
  rule : String
  text : String := ""
  fields : Fields := .empty
  children : List Node := []

/-- The named fields that matter for the model. -/
inductive Part where
  | identifier
  | fieldType
  | functionType
  deriving DecidableEq, Repr, Inhabited

/-- The name of the field that holds a part. -/
def Part.name : Part → String
  | .identifier => "identifier"
  | .fieldType => "field_type"
  | .functionType => "function_type"

namespace Node

instance : Inhabited Node := ⟨{ rule := "" }⟩

/-- What the node is for the model. -/
def kind (n : Node) : NodeKind :=
  .ofRule n.rule

theorem kind_of_rule {n : Node} {k : NodeKind} (h : n.rule = k.name) : n.kind = k := by
  rw [kind, h, NodeKind.ofRule_name]

/-- The text of a part, exactly as the tree has it. -/
def part? (n : Node) (p : Part) : Option String :=
  n.fields.get? p.name

/-! ## Building nodes -/

/-- A node of a kind, with nothing in it. -/
def ofKind (k : NodeKind) : Node :=
  { rule := k.name }

/-- The node with another text. -/
def withText (n : Node) (text : String) : Node :=
  { n with text }

/-- The node with one field set. -/
def withField (n : Node) (name text : String) : Node :=
  { n with fields := n.fields.insert name text }

/-- The node with one part set. -/
def withPart (n : Node) (p : Part) (text : String) : Node :=
  n.withField p.name text

/-- The node with more children behind those it has. -/
def withChildren (n : Node) (ns : List Node) : Node :=
  { n with children := n.children ++ ns }

/-- The node with one more child behind those it has. -/
def push (n child : Node) : Node :=
  n.withChildren [child]

/-- The root of a tree. -/
def document (children : List Node) : Node :=
  (ofKind .document).withChildren children

/-- A declaration of some kind. -/
def declaration (k : DeclarationKind) (name : String) (children : List Node) : Node :=
  ((ofKind (.declaration k)).withPart .identifier name).withChildren children

/-- One value of an enum. -/
def enumValue (name : String) : Node :=
  (ofKind .enumValue).withPart .identifier name

/-- A field of a struct or an exception, a parameter, or an entry of a throws list. -/
def field (name type : String) : Node :=
  ((ofKind .field).withPart .identifier name).withPart .fieldType type

/-- A function of a service. -/
def function (name returnType : String) (children : List Node) : Node :=
  (((ofKind .function).withPart .identifier name).withPart .functionType returnType).withChildren
    children

/-- The list of what a function throws. -/
def throwsList (children : List Node) : Node :=
  (ofKind .throwsList).withChildren children

/-- A comment that may document something. -/
def commentMultiline (raw : String) : Node :=
  (ofKind .commentMultiline).withText raw

/-- A comment that documents nothing. -/
def commentSingleline (raw : String) : Node :=
  (ofKind .commentSingleline).withText raw

end Node

end IdlModel
