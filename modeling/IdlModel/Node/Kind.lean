import IdlModel.Declaration.Basic

/-!
# Kinds of syntax tree nodes

A node carries the name of the grammar rule that it stands for. `NodeKind` lists the rules that
matter for the model of a file; every other rule is `other`, a wrapper that is walked through.
-/

namespace IdlModel

/-- What a node is for the model, judged by its rule name. -/
inductive NodeKind where
  | document
  | declaration (kind : DeclarationKind)
  | enumValue
  | field
  | function
  | throwsList
  | commentMultiline
  | commentSingleline
  | other
  deriving DecidableEq, Repr, Inhabited

namespace NodeKind

/-- The rule name of a kind; `other` stands for many rules and has the name `other` here. -/
def name : NodeKind → String
  | .document => "document"
  | .declaration .enum => "enum_declaration"
  | .declaration .struct => "struct_declaration"
  | .declaration .exception => "exception_declaration"
  | .declaration .service => "service_declaration"
  | .enumValue => "enum_value"
  | .field => "field"
  | .function => "function"
  | .throwsList => "throws_list"
  | .commentMultiline => "comment_multiline"
  | .commentSingleline => "comment_singleline"
  | .other => "other"

/-- The kind of a rule. -/
def ofRule : String → NodeKind
  | "document" => .document
  | "enum_declaration" => .declaration .enum
  | "struct_declaration" => .declaration .struct
  | "exception_declaration" => .declaration .exception
  | "service_declaration" => .declaration .service
  | "enum_value" => .enumValue
  | "field" => .field
  | "function" => .function
  | "throws_list" => .throwsList
  | "comment_multiline" => .commentMultiline
  | "comment_singleline" => .commentSingleline
  | _ => .other

/-- The kind of declaration that such a node opens, if it opens one. -/
def declarationKind? : NodeKind → Option DeclarationKind
  | .declaration k => some k
  | _ => none

/-- Every kind is the kind of its own name; `other` too, since no rule of interest has that name. -/
theorem ofRule_name (k : NodeKind) : ofRule k.name = k := by
  cases k with
  | declaration k => cases k <;> rfl
  | _ => rfl

end NodeKind

end IdlModel
