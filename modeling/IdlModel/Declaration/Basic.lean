/-!
# Declarations

The four kinds of top-level constructs of an IDL file. A `Declaration` has a name, perhaps a
comment, and a body: the values of an enum, the attributes of a struct or an exception, or the
methods of a service. All lists keep the order of the source. Nothing is resolved or checked: a
type is the text that was written for it.
-/

namespace IdlModel

/-- A type as it is written, such as `i32`, `list<string>` or `Point`. Two references are equal
only if their texts are. -/
structure TypeRef where
  text : String
  deriving DecidableEq, Repr, Inhabited

/-- A named and typed entry: a field of a struct or an exception, or a parameter of a method. -/
structure Attribute where
  name : String
  type : TypeRef
  comment : Option String := none
  deriving DecidableEq, Repr, Inhabited

/-- A method of a service. Of the exceptions it throws only the types are kept. -/
structure Method where
  name : String
  comment : Option String := none
  returnType : TypeRef
  parameters : List Attribute := []
  exceptions : List TypeRef := []
  deriving DecidableEq, Repr, Inhabited

/-- The kinds of declarations. -/
inductive DeclarationKind where
  | enum
  | struct
  | exception
  | service
  deriving DecidableEq, Repr, Inhabited

/-- What a declaration holds, by its kind. -/
inductive Body where
  | enum (values : List String)
  | struct (attributes : List Attribute)
  | exception (attributes : List Attribute)
  | service (methods : List Method)
  deriving DecidableEq, Repr, Inhabited

/-- A top-level named construct. -/
structure Declaration where
  name : String
  comment : Option String := none
  body : Body
  deriving DecidableEq, Repr, Inhabited

namespace TypeRef

instance : ToString TypeRef where
  toString t := t.text

end TypeRef

namespace Attribute

/-- The attribute as one word, name and type with a colon between them. -/
def shown (a : Attribute) : String :=
  a.name ++ ":" ++ a.type.text

end Attribute

namespace DeclarationKind

/-- All kinds, in the order in which messages list them. -/
def all : List DeclarationKind :=
  [.enum, .struct, .exception, .service]

/-- The keyword that opens a declaration of this kind. -/
def keyword : DeclarationKind → String
  | .enum => "enum"
  | .struct => "struct"
  | .exception => "exception"
  | .service => "service"

/-- The kind with a given keyword. -/
def ofKeyword? (word : String) : Option DeclarationKind :=
  all.find? (·.keyword == word)

instance : ToString DeclarationKind where
  toString := keyword

theorem ofKeyword?_keyword (k : DeclarationKind) : ofKeyword? k.keyword = some k := by
  cases k <;> decide

end DeclarationKind

namespace Body

/-- The kind of declaration that has such a body. -/
def kind : Body → DeclarationKind
  | .enum _ => .enum
  | .struct _ => .struct
  | .exception _ => .exception
  | .service _ => .service

/-- The body with nothing in it. -/
def empty : DeclarationKind → Body
  | .enum => .enum []
  | .struct => .struct []
  | .exception => .exception []
  | .service => .service []

/-- The values of an enum; other bodies have none. -/
def values : Body → List String
  | .enum vs => vs
  | _ => []

/-- The attributes of a struct or an exception; other bodies have none. -/
def attributes : Body → List Attribute
  | .struct as => as
  | .exception as => as
  | _ => []

/-- The methods of a service; other bodies have none. -/
def methods : Body → List Method
  | .service ms => ms
  | _ => []

@[simp] theorem kind_empty (k : DeclarationKind) : (empty k).kind = k := by
  cases k <;> rfl

end Body

namespace Declaration

/-- A declaration that holds nothing yet. -/
def opened (kind : DeclarationKind) (name : String) (comment : Option String := none) :
    Declaration :=
  { name, comment, body := .empty kind }

/-- The kind of a declaration. -/
def kind (d : Declaration) : DeclarationKind :=
  d.body.kind

/-- Structs and exceptions take attributes of their own; enums and services do not. -/
def acceptsAttributes (d : Declaration) : Bool :=
  match d.body with
  | .struct _ | .exception _ => true
  | .enum _ | .service _ => false

/-- The first method of a name. -/
def method? (d : Declaration) (name : String) : Option Method :=
  d.body.methods.find? (·.name == name)

/-- All attributes that a declaration shows: its own, or those of its methods' parameters. -/
def shownAttributes (d : Declaration) : List Attribute :=
  d.body.attributes ++ d.body.methods.flatMap Method.parameters

@[simp] theorem kind_opened (k : DeclarationKind) (name : String) (c : Option String) :
    (opened k name c).kind = k :=
  Body.kind_empty k

end Declaration

namespace Method

/-- The first parameter of a name. -/
def parameter? (m : Method) (name : String) : Option Attribute :=
  m.parameters.find? (·.name == name)

end Method

end IdlModel
