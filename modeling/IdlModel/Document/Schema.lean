import IdlModel.Json.Printer

/-!
# The schema of documents

A JSON Schema, in the dialect of draft 2020-12, of the JSON form of documents. The definitions come
in the order of their names.
-/

namespace IdlModel

namespace Schema

open Json (member)

/-- A schema that is a reference to a definition. -/
def reference (name : String) : Json :=
  .object [("$ref", .string ("#/$defs/" ++ name))]

/-- The schema of values of a basic type. -/
def ofType (type : String) : Json :=
  .object [("type", .string type)]

/-- The schema of strings. -/
def text : Json :=
  ofType "string"

/-- The schema of a string that may be null. -/
def nullableText : Json :=
  .object [("type", .ofStrings ["string", "null"])]

/-- The schema of a list that is empty by default. -/
def listOf (items : Json) : Json :=
  .object [("type", .string "array"), ("default", .array []), ("items", items)]

/-- The schema of an object with some properties, some of which are required. -/
def record (description : Option String) (properties : List (String × Json))
    (required : List String) : Json :=
  .ofMembers [Json.member? "description" (description.map .string),
    member "type" (.string "object"), member "properties" (.object properties),
    member "required" (.ofStrings required)]

/-- A declaration of one kind: its definition, and the kind as a property. -/
def tagged (keyword definition : String) : Json :=
  .object [("type", .string "object"),
    ("properties", .object [("kind", .object [("type", .string "string"),
      ("const", .string keyword)])]),
    ("$ref", .string ("#/$defs/" ++ definition)),
    ("required", .ofStrings ["kind"])]

/-- The definitions. -/
def definitions : List (String × Json) :=
  [("Attribute", record
      (some "A named, typed field of a struct/exception, or a method parameter.")
      [("comment", nullableText), ("name", text), ("type_ref", reference "TypeRef")]
      ["name", "type_ref"]),
   ("Declaration", .object
      [("description", .string "A top-level named construct of a document."),
       ("oneOf", .array [tagged "enum" "Enum", tagged "struct" "Struct",
          tagged "exception" "Exception", tagged "service" "Service"])]),
   ("Enum", record (some "An enumeration. Values carry names only.")
      [("comment", nullableText), ("name", text), ("values", listOf text)] ["name"]),
   ("Exception", record none
      [("attributes", listOf (reference "Attribute")), ("comment", nullableText), ("name", text)]
      ["name"]),
   ("Method", record
      (some ("A service method (Thrift `function`).\n\n`parameters` and `exceptions` are filled " ++
        "independently: field entries\ninside the parameter list land in `parameters`, entries " ++
        "inside the\n`throws (...)` clause contribute only their type to `exceptions`."))
      [("comment", nullableText), ("exceptions", listOf (reference "TypeRef")), ("name", text),
       ("parameters", listOf (reference "Attribute")), ("return_type", reference "TypeRef")]
      ["name", "return_type"]),
   ("Service", record none
      [("comment", nullableText), ("methods", listOf (reference "Method")), ("name", text)]
      ["name"]),
   ("Struct", record none
      [("attributes", listOf (reference "Attribute")), ("comment", nullableText), ("name", text)]
      ["name"]),
   ("TypeRef", .object
      [("description", .string ("IDL type syntax exactly as written, e.g. `i32`, " ++
          "`list<string>`, `Point`.\n\nNo resolution is performed; two references are equal " ++
          "only if their\ntext is equal.")),
       ("type", .string "string")])]

end Schema

/-- The schema of documents. -/
def Document.schema : Json :=
  .object
    [("$schema", .string "https://json-schema.org/draft/2020-12/schema"),
     ("title", .string "Document"),
     ("description", .string ("The model of one IDL source file.\n\nDeclarations are kept in " ++
        "source order. The only mutation is appending\na whole declaration; existing " ++
        "declarations cannot be edited in place.")),
     ("type", .string "object"),
     ("properties", .object
        [("declarations", Schema.listOf (Schema.reference "Declaration")),
         ("name", Schema.text)]),
     ("required", .ofStrings ["name"]),
     ("$defs", .object Schema.definitions)]

end IdlModel
