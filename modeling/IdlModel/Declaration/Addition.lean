import IdlModel.Declaration.Basic

/-!
# Adding to a declaration

A declaration grows only at the ends of its lists. An `Addition` names the item and the list it is
for; `Declaration.add?` carries it out, or refuses it when the declaration has no such list. A
method is addressed by its index among the methods of its service.
-/

namespace IdlModel

/-- An item together with the list it is added to. -/
inductive Addition where
  /-- For the attributes of a struct or an exception. -/
  | field (entry : Attribute)
  /-- For the values of an enum. -/
  | value (name : String)
  /-- For the methods of a service. -/
  | method (method : Method)
  /-- For the parameters of the method with this index. -/
  | parameter (method : Nat) (entry : Attribute)
  /-- For the exceptions of the method with this index. -/
  | thrown (method : Nat) (entry : Attribute)
  deriving DecidableEq, Repr

namespace Method

/-- The method with one more parameter. -/
def addParameter (m : Method) (a : Attribute) : Method :=
  { m with parameters := m.parameters ++ [a] }

/-- The method with one more exception: an entry of a throws list counts by its type alone. -/
def addThrown (m : Method) (a : Attribute) : Method :=
  { m with exceptions := m.exceptions ++ [a.type] }

end Method

/-- The methods with one of them changed, unless there is none at that index. -/
def modifyMethod? (ms : List Method) (i : Nat) (f : Method → Method) : Option (List Method) :=
  if i < ms.length then some (ms.modify i f) else none

namespace Body

/-- The body with an item at the end of one of its lists. -/
def add? : Body → Addition → Option Body
  | .enum vs, .value v => some (.enum (vs ++ [v]))
  | .struct as, .field a => some (.struct (as ++ [a]))
  | .exception as, .field a => some (.exception (as ++ [a]))
  | .service ms, .method m => some (.service (ms ++ [m]))
  | .service ms, .parameter i a => (modifyMethod? ms i (·.addParameter a)).map .service
  | .service ms, .thrown i a => (modifyMethod? ms i (·.addThrown a)).map .service
  | _, _ => none

/-- An addition does not change the kind of a body. -/
theorem kind_add? {b b' : Body} {a : Addition} (h : b.add? a = some b') : b'.kind = b.kind := by
  cases b <;> cases a <;> simp only [add?, Option.some.injEq, Option.map_eq_some_iff, reduceCtorEq]
    at h <;> first | (subst h; rfl) | (obtain ⟨_, _, rfl⟩ := h; rfl)

end Body

namespace Declaration

/-- The declaration with an item at the end of one of its lists; none if it has no such list. -/
def add? (d : Declaration) (a : Addition) : Option Declaration :=
  (d.body.add? a).map fun body => { d with body }

/-- The declaration after a number of additions; those it has no list for leave it as it is. -/
def addAll (d : Declaration) (as : List Addition) : Declaration :=
  as.foldl (fun d a => (d.add? a).getD d) d

end Declaration

end IdlModel
