import IdlModel.Document.Basic
import IdlModel.Json.Reader

/-!
# Documents from JSON

A document is read from an object with the members `name` and `declarations`, or from an array of
these two. A declaration is read as a value first, all but its kind, and then taken apart by the
kind; its parts are objects, or arrays of the values of the members in a fixed order. A member of
another name has no influence, and no member may occur twice. A missing or null comment is absent,
and a missing list is empty.
-/

namespace IdlModel

open Json (Reader Mismatch)

/-! ## Values taken apart -/

namespace Decode

/-- A result, or how the value does not fit. -/
abbrev Result (α : Type) := Except Mismatch α

/-- The value is not what was expected. -/
def unexpected {α : Type} (v : Json) (expected : Json.Shape) : Result α :=
  .error (.invalidType v.found expected)

/-- A string. -/
def string : Json → Result String
  | .string s => .ok s
  | v => unexpected v .string

/-- A type. -/
def typeRef (v : Json) : Result TypeRef :=
  TypeRef.mk <$> string v

/-- A comment that may be null. -/
def comment : Json → Result (Option String)
  | .null => .ok none
  | v => some <$> string v

/-- A list. -/
def list {α : Type} (item : Json → Result α) : Json → Result (List α)
  | .array vs => vs.mapM item
  | v => unexpected v .sequence

/-- The value of a member that must not have been met before. -/
def once {α : Type} (key : String) (before : Option α) (value : Result α) : Result (Option α) :=
  if before.isSome then .error (.duplicateField key) else some <$> value

/-- What has been found for a member that has to be there. -/
def required {α : Type} (key : String) : Option α → Result α
  | some a => .ok a
  | none => .error (.missingField key)

/-- How a record is taken apart: by its members, or by the items of an array. -/
structure Record (σ : Type) where
  name : String
  /-- The number of members, which is the greatest length of an array. -/
  size : Nat
  /-- The positions of the items that an array must have. -/
  needed : List Nat
  /-- What a member makes of the parts found before it. -/
  member : String → Json → σ → Result σ
  /-- What the item at a position makes of the parts found before it. -/
  item : Nat → Json → σ → Result σ

/-- The parts of a record found in the items of an array, from a position on. -/
def Record.ofItems {σ : Type} (r : Record σ) (length : Nat) : Nat → List Json → σ → Result σ
  | _, [], s => .ok s
  | position, v :: vs, s =>
    if position < r.size then do
      let s ← r.item position v s
      r.ofItems length (position + 1) vs s
    else .error (.tooLong length r.size)

/-- The parts of a record found in a value. -/
def Record.parts {σ : Type} (r : Record σ) (start : σ) : Json → Result σ
  | .object ms => ms.foldlM (fun s (k, v) => r.member k v s) start
  | .array vs => do
    let s ← r.ofItems vs.length 0 vs start
    match r.needed.find? (vs.length ≤ ·) with
    | some position => .error (.tooShort position r.name r.size)
    | none => .ok s
  | v => unexpected v (.record r.name)

/-! ## Attributes and methods -/

/-- What has been found of an attribute. -/
structure AttributeDraft where
  name : Option String := none
  type : Option TypeRef := none
  comment : Option (Option String) := none

/-- The members of an attribute. -/
def attributeMember (key : String) (v : Json) (d : AttributeDraft) : Result AttributeDraft :=
  match key with
  | "name" => return { d with name := ← once key d.name (string v) }
  | "type_ref" => return { d with type := ← once key d.type (typeRef v) }
  | "comment" => return { d with comment := ← once key d.comment (comment v) }
  | _ => return d

/-- An attribute as a record. -/
def attributeRecord : Record AttributeDraft where
  name := "Attribute"
  size := 3
  needed := [0, 1]
  member := attributeMember
  item := fun position v d =>
    attributeMember (["name", "type_ref", "comment"].getD position "") v d

/-- An attribute. -/
def toAttribute (v : Json) : Result Attribute := do
  let d ← attributeRecord.parts {} v
  let name ← required "name" d.name
  let type ← required "type_ref" d.type
  return { name, type, comment := d.comment.getD none }

/-- What has been found of a method. -/
structure MethodDraft where
  name : Option String := none
  comment : Option (Option String) := none
  returnType : Option TypeRef := none
  parameters : Option (List Attribute) := none
  exceptions : Option (List TypeRef) := none

/-- The members of a method. -/
def methodMember (key : String) (v : Json) (d : MethodDraft) : Result MethodDraft :=
  match key with
  | "name" => return { d with name := ← once key d.name (string v) }
  | "comment" => return { d with comment := ← once key d.comment (comment v) }
  | "return_type" => return { d with returnType := ← once key d.returnType (typeRef v) }
  | "parameters" => return { d with parameters := ← once key d.parameters (list toAttribute v) }
  | "exceptions" => return { d with exceptions := ← once key d.exceptions (list typeRef v) }
  | _ => return d

/-- A method as a record. -/
def methodRecord : Record MethodDraft where
  name := "Method"
  size := 5
  needed := [0, 2]
  member := methodMember
  item := fun position v d =>
    methodMember
      (["name", "comment", "return_type", "parameters", "exceptions"].getD position "") v d

/-- A method. -/
def toMethod (v : Json) : Result Method := do
  let d ← methodRecord.parts {} v
  let name ← required "name" d.name
  let returnType ← required "return_type" d.returnType
  return {
    name
    comment := d.comment.getD none
    returnType
    parameters := d.parameters.getD []
    exceptions := d.exceptions.getD [] }

/-! ## Declarations by kind -/

/-- The name of the record that a declaration of a kind is. -/
def recordName : DeclarationKind → String
  | .enum => "Enum"
  | .struct => "Struct"
  | .exception => "Exception"
  | .service => "Service"

/-- The key of the list that a declaration of a kind holds. -/
def listKey : DeclarationKind → String
  | .enum => "values"
  | .struct | .exception => "attributes"
  | .service => "methods"

/-- The body that a list makes. -/
def body : DeclarationKind → Json → Result Body
  | .enum, v => .enum <$> list string v
  | .struct, v => .struct <$> list toAttribute v
  | .exception, v => .exception <$> list toAttribute v
  | .service, v => .service <$> list toMethod v

/-- What has been found of a declaration of a kind. -/
structure DeclarationDraft where
  name : Option String := none
  comment : Option (Option String) := none
  body : Option Body := none

/-- The members of a declaration, its kind apart. -/
def declarationMember (kind : DeclarationKind) (key : String) (v : Json) (d : DeclarationDraft) :
    Result DeclarationDraft :=
  if key = "name" then return { d with name := ← once key d.name (string v) }
  else if key = "comment" then return { d with comment := ← once key d.comment (comment v) }
  else if key = listKey kind then return { d with body := ← once key d.body (body kind v) }
  else return d

/-- A declaration of a kind as a record. -/
def declarationRecord (kind : DeclarationKind) : Record DeclarationDraft where
  name := recordName kind
  size := 3
  needed := [0]
  member := declarationMember kind
  item := fun position v d =>
    declarationMember kind (["name", "comment", listKey kind].getD position "") v d

/-- A declaration of a kind, from a value without the kind. -/
def toDeclaration (kind : DeclarationKind) (v : Json) : Result Declaration := do
  let d ← (declarationRecord kind).parts {} v
  let name ← required "name" d.name
  return { name, comment := d.comment.getD none, body := d.body.getD (.empty kind) }

/-- The kind that a word stands for. -/
def kind (word : String) : Result DeclarationKind :=
  match DeclarationKind.ofKeyword? word with
  | some k => .ok k
  | none => .error (.unknownVariant word (DeclarationKind.all.map (·.keyword)))

end Decode

/-! ## Reading -/

open Json.Reader

namespace Declaration

/-- Read a kind. -/
def readKind : Reader DeclarationKind := do
  match ← head with
  | .scalar (.string word) => ofExcept (Decode.kind word)
  | h => mismatch (.invalidType h.found .variant)

/-- The kind that has been read of a declaration, and its other members, the last one first. -/
structure Draft where
  kind : Option DeclarationKind := none
  others : List (String × Json) := []

/-- Read one member of a declaration. -/
def readMember (levels : Nat) (key : String) (d : Draft) : Reader Draft := do
  if key = "kind" then
    let kind ← once key d.kind readKind
    pure { d with kind }
  else
    colon
    let v ← value levels
    pure { d with others := (key, v) :: d.others }

/-- Read the kind and the rest of a declaration, for which there are some levels left. -/
def readTagged (levels : Nat) : Reader (DeclarationKind × Json) := do
  match ← head with
  | .opening .curly => do
    spend levels
    let d ← members (readMember (levels - 1)) {}
    let kind ← ofExcept (Decode.required "kind" d.kind)
    close .curly
    pure (kind, .object d.others.reverse)
  | .opening .square => do
    spend levels
    match ← itemAt? 0 readKind with
    | none => mismatch (.missingField "kind")
    | some kind =>
      let vs ← itemsWithin (value (levels - 1)) (← get) false
      close .square
      pure (kind, .array vs)
  | h => mismatch (.invalidType h.found (.tagged "Declaration"))

/-- Read a declaration, for which there are some levels left. -/
def reader (levels : Nat) : Reader Declaration := do
  let (kind, v) ← readTagged levels
  ofExcept (Decode.toDeclaration kind v)

end Declaration

namespace Document

/-- What has been read of a document. -/
structure Draft where
  name : Option String := none
  declarations : Option (List Declaration) := none

/-- The document that has been read, unless its name is missing. -/
def Draft.document (d : Draft) : Except Mismatch Document := do
  let name ← Decode.required "name" d.name
  return { name, declarations := d.declarations.getD [] }

/-- Read a list of declarations, for which there are some levels left. -/
def readDeclarations (levels : Nat) : Reader (List Declaration) :=
  list levels (Declaration.reader (levels - 1))

/-- Read one member of a document. -/
def readMember (levels : Nat) (key : String) (d : Draft) : Reader Draft :=
  match key with
  | "name" => do
    let name ← once key d.name string
    pure { d with name }
  | "declarations" => do
    let declarations ← once key d.declarations (readDeclarations levels)
    pure { d with declarations }
  | _ => do
    colon
    skipValue
    pure d

/-- Read a document, for which there are some levels left. -/
def reader (levels : Nat) : Reader Document := do
  match ← head with
  | .opening .curly => do
    spend levels
    let d ← members (readMember (levels - 1)) {}
    let document ← ofExcept d.document
    close .curly
    pure document
  | .opening .square => do
    spend levels
    match ← itemAt? 0 string with
    | none => mismatch (.tooShort 0 "Document" 2)
    | some name =>
      let declarations ← itemAt? 1 (readDeclarations (levels - 1))
      let document ← ofExcept (Draft.document { name := some name, declarations })
      close .square
      pure document
  | h => mismatch (.invalidType h.found (.record "Document"))

/-- The document that a text is the JSON form of. -/
def ofJsonText (text : String) : Except Json.ReadError Document :=
  Json.Reader.read (reader maxDepth) text

end Document

end IdlModel
