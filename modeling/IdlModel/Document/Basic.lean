import IdlModel.Declaration.Basic

/-!
# Documents

The model of one IDL file: a name for the file and its declarations in the order of the source. A
document grows by whole declarations only.
-/

namespace IdlModel

/-- The model of one IDL file. -/
structure Document where
  name : String
  declarations : List Declaration := []
  deriving DecidableEq, Repr, Inhabited

namespace Document

/-- The number of declarations. -/
def size (d : Document) : Nat :=
  d.declarations.length

/-- Has the document no declarations? -/
def isEmpty (d : Document) : Bool :=
  d.declarations.isEmpty

/-- The document with one more declaration, and the index of that declaration. -/
def push (d : Document) (declaration : Declaration) : Nat × Document :=
  (d.size, { d with declarations := d.declarations ++ [declaration] })

/-- The first declaration of a name. -/
def get? (d : Document) (name : String) : Option Declaration :=
  d.declarations.find? (·.name == name)

end Document

end IdlModel
