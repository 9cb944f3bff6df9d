import IdlModel.Document.Basic
import IdlModel.Json.Basic

/-!
# Documents as JSON

The JSON form of a document and of its parts. Members come in a fixed order; an absent comment has
no member, and lists are written even when they are empty. A declaration carries its kind as the
first member.
-/

namespace IdlModel

open Json (member member?)

/-- A comment, if there is one, as a member. -/
def commentMember (comment : Option String) : Option (String × Json) :=
  member? "comment" (comment.map .string)

/-- A type as JSON: its text. -/
def TypeRef.toJson (t : TypeRef) : Json :=
  .string t.text

/-- An attribute as JSON. -/
def Attribute.toJson (a : Attribute) : Json :=
  .ofMembers [member "name" (.string a.name), member "type_ref" a.type.toJson,
    commentMember a.comment]

/-- A method as JSON. -/
def Method.toJson (m : Method) : Json :=
  .ofMembers [member "name" (.string m.name), commentMember m.comment,
    member "return_type" m.returnType.toJson,
    member "parameters" (.array (m.parameters.map Attribute.toJson)),
    member "exceptions" (.array (m.exceptions.map TypeRef.toJson))]

/-- The list that a body consists of, as a member. -/
def Body.toMember : Body → Option (String × Json)
  | .enum values => member "values" (.ofStrings values)
  | .struct attributes => member "attributes" (.array (attributes.map Attribute.toJson))
  | .exception attributes => member "attributes" (.array (attributes.map Attribute.toJson))
  | .service methods => member "methods" (.array (methods.map Method.toJson))

/-- A declaration as JSON. -/
def Declaration.toJson (d : Declaration) : Json :=
  .ofMembers [member "kind" (.string d.kind.keyword), member "name" (.string d.name),
    commentMember d.comment, d.body.toMember]

/-- A document as JSON. -/
def Document.toJson (d : Document) : Json :=
  .ofMembers [member "name" (.string d.name),
    member "declarations" (.array (d.declarations.map Declaration.toJson))]

end IdlModel
