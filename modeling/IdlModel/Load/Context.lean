import IdlModel.Load.Error

/-!
# The open context

What is open at a point of a walk, as a stack of frames: a declaration, and in a service perhaps a
method or its throws list. Frames refer to entities by their index in the document under
construction. An operation that does not fit the open frames is refused and leaves them as they
are.

The queries read the stack from its two ends: which declaration is open is a matter of the
outermost frame, and what receives values, methods and fields is a matter of the innermost one.
-/

namespace IdlModel

/-- Something open. -/
inductive Frame where
  /-- The declaration with this index. -/
  | declaration (index : Nat) (kind : DeclarationKind)
  /-- A method of a service, in its parameter list. -/
  | method (service method : Nat)
  /-- A method of a service, in or behind its throws list. -/
  | throws (service method : Nat)
  deriving DecidableEq, Repr

/-- The list that receives fields. -/
inductive Slot where
  /-- The attributes of the declaration with this index. -/
  | declaration (index : Nat)
  /-- The parameters of a method. -/
  | parameters (service method : Nat)
  /-- The exceptions of a method. -/
  | throws (service method : Nat)
  deriving DecidableEq, Repr

/-- The open frames, the innermost first. -/
structure Context where
  frames : List Frame := []
  deriving DecidableEq, Repr, Inhabited

namespace Context

/-- Is nothing open? -/
def isEmpty (c : Context) : Bool :=
  c.frames.isEmpty

/-- The open declaration and its kind, from the outermost frame. -/
def declaration? (c : Context) : Option (Nat × DeclarationKind) :=
  match c.frames.getLast? with
  | some (.declaration index kind) => some (index, kind)
  | some (.method service _) | some (.throws service _) => some (service, .service)
  | none => none

/-- The enum whose body is innermost. -/
def enum? (c : Context) : Option Nat :=
  match c.frames with
  | .declaration index .enum :: _ => some index
  | _ => none

/-- The service whose body is innermost, outside any method. -/
def service? (c : Context) : Option Nat :=
  match c.frames with
  | .declaration index .service :: _ => some index
  | _ => none

/-- The list that receives fields; bodies of enums and services receive none. -/
def slot? (c : Context) : Option Slot :=
  match c.frames with
  | .declaration index .struct :: _ | .declaration index .exception :: _ =>
    some (.declaration index)
  | .method service method :: _ => some (.parameters service method)
  | .throws service method :: _ => some (.throws service method)
  | _ => none

/-- Open a declaration, which nothing else may enclose. -/
def enterDeclaration (c : Context) (kind : DeclarationKind) (index : Nat) (name : String) :
    Except LoadError Context :=
  match c.declaration? with
  | some (_, enclosing) => .error (.nestedDeclaration kind name enclosing)
  | none => .ok ⟨.declaration index kind :: c.frames⟩

/-- Close the declaration of a kind, which has to be innermost. -/
def exitDeclaration (c : Context) (kind : DeclarationKind) : Except LoadError Context :=
  match c.frames with
  | .declaration _ k :: outer =>
    if k = kind then .ok ⟨outer⟩ else .error (.unbalancedExit (.declaration kind))
  | _ => .error (.unbalancedExit (.declaration kind))

/-- Open a method of the service whose body is innermost. -/
def enterMethod (c : Context) (method : Nat) (name : String) : Except LoadError Context :=
  match c.service? with
  | some service => .ok ⟨.method service method :: c.frames⟩
  | none => .error (.functionOutsideService name)

/-- From here on the fields of the innermost method are what it throws, until the method ends. -/
def enterThrows (c : Context) : Except LoadError Context :=
  match c.frames with
  | .method service method :: outer => .ok ⟨.throws service method :: outer⟩
  | _ => .error .throwsOutsideFunction

/-- Close the innermost method, with or without a throws list. -/
def exitMethod (c : Context) : Except LoadError Context :=
  match c.frames with
  | .method _ _ :: outer | .throws _ _ :: outer => .ok ⟨outer⟩
  | _ => .error (.unbalancedExit .function)

end Context

end IdlModel
