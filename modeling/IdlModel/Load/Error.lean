import IdlModel.Node.Basic

/-!
# Why a tree has no document

The causes for which a syntax tree is refused. Each constructor carries what its message names;
`LoadError.message` holds all the wording.
-/

namespace IdlModel

/-- What is closed when a context ends: a declaration, a function, or the whole document. -/
inductive Closing where
  | declaration (kind : DeclarationKind)
  | function
  | document
  deriving DecidableEq, Repr

/-- The word for what is closed. -/
def Closing.name : Closing → String
  | .declaration k => k.keyword
  | .function => "function"
  | .document => "document"

/-- Why a syntax tree is refused. -/
inductive LoadError where
  /-- An enum value that does not stand in an enum. -/
  | enumValueOutsideEnum (value : String)
  /-- A function that does not stand in a service. -/
  | functionOutsideService (name : String)
  /-- A throws list without a function, or the second one of a function. -/
  | throwsOutsideFunction
  /-- A declaration inside another one. -/
  | nestedDeclaration (kind : DeclarationKind) (name : String) (enclosing : DeclarationKind)
  /-- An end that does not belong to the innermost beginning. -/
  | unbalancedExit (closing : Closing)
  /-- A node without a part it needs, or with a blank one. -/
  | missingField (node : NodeKind) (part : Part)
  /-- A field that nothing takes, where that is not allowed. -/
  | orphanField (name : String)
  /-- A context that refers to an entity the document does not have. -/
  | staleContext
  /-- Other than one document node: none, or the second one met. -/
  | documentCount (found : Nat)
  deriving DecidableEq, Repr

namespace LoadError

/-- The text of an error. -/
def message : LoadError → String
  | .enumValueOutsideEnum value =>
    "Enum value `" ++ value ++ "` appears outside an enum declaration"
  | .functionOutsideService name =>
    "Function `" ++ name ++ "` appears outside a service declaration"
  | .throwsOutsideFunction => "Throws list appears outside a function"
  | .nestedDeclaration kind name enclosing =>
    kind.keyword ++ " `" ++ name ++ "` opened while a " ++ enclosing.keyword ++
      " declaration is still open"
  | .unbalancedExit closing => "Exit of `" ++ closing.name ++ "` does not match the open context"
  | .missingField node part => "`" ++ node.name ++ "` node is missing its `" ++ part.name ++ "`"
  | .orphanField name =>
    "Field `" ++ name ++ "` has no enclosing struct, exception or function"
  | .staleContext => "Open context refers to an entity that is not in the document"
  | .documentCount found => "Expected exactly one document node, found " ++ toString found

end LoadError

end IdlModel
