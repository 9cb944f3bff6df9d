import IdlModel.Document.Basic
import IdlModel.Text.Lines

/-!
# The outline of a document

A document as a list of lines: its name, then every declaration with what it holds, indented by
depth, and comments in front of what they belong to.

```text
calc.idl
  // Simple calculator.
  service Calc
    add(a: i32, b: i32) -> i32 throws Overflow
```

The comments of parameters are not shown.
-/

namespace IdlModel

namespace Outline

/-- The lines of a comment, as one shows them at a depth. -/
def commentLines (indent : String) (comment : Option String) : List String :=
  match comment with
  | none => []
  | some text => (Text.lines text.toList).map fun line =>
    if line.isEmpty then indent ++ "//" else indent ++ "// " ++ String.ofList line

/-- A name and its type. -/
def typed (a : Attribute) : String :=
  a.name ++ ": " ++ a.type.text

/-- The lines of an attribute of a struct or an exception. -/
def attributeLines (a : Attribute) : List String :=
  commentLines "    " a.comment ++ ["    " ++ typed a]

/-- The signature of a method. -/
def signature (m : Method) : String :=
  let parameters := ", ".intercalate (m.parameters.map typed)
  let thrown :=
    if m.exceptions.isEmpty then ""
    else " throws " ++ ", ".intercalate (m.exceptions.map TypeRef.text)
  m.name ++ "(" ++ parameters ++ ") -> " ++ m.returnType.text ++ thrown

/-- The lines of a method. -/
def methodLines (m : Method) : List String :=
  commentLines "    " m.comment ++ ["    " ++ signature m]

/-- The lines of what a declaration holds. -/
def bodyLines : Body → List String
  | .enum values => values.map ("    " ++ ·)
  | .struct attributes => attributes.flatMap attributeLines
  | .exception attributes => attributes.flatMap attributeLines
  | .service methods => methods.flatMap methodLines

/-- The lines of a declaration. -/
def declarationLines (d : Declaration) : List String :=
  commentLines "  " d.comment ++ ["  " ++ d.kind.keyword ++ " " ++ d.name] ++ bodyLines d.body

end Outline

namespace Document

/-- The lines of the outline. -/
def outlineLines (d : Document) : List String :=
  d.name :: d.declarations.flatMap Outline.declarationLines

/-- The outline as a text in which a newline ends every line. -/
def outline (d : Document) : String :=
  String.join (d.outlineLines.map (· ++ "\n"))

end Document

end IdlModel
