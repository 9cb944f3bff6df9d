import IdlModel.Load.Context

/-!
# The open context as a machine with four kinds of states

A context is a stack of frames that is asked at both its ends and changed in place. Only four kinds
of stacks come about: a `Position` says where in a document one is, without a stack, and
`Position.advance` is the table of all moves, the possible ones first and then, for the others, why
they are refused.

A context does what its position does, move by move (`Position.advance_context`), so after any
moves, refused ones included, it is the context of a position and answers every question as that
position does (`Context.refines_position`).
-/

namespace IdlModel

/-- A change of what is open. -/
inductive Move where
  | enterDeclaration (kind : DeclarationKind) (index : Nat) (name : String)
  | exitDeclaration (kind : DeclarationKind)
  | enterMethod (method : Nat) (name : String)
  | enterThrows
  | exitMethod
  deriving DecidableEq, Repr

namespace Context

/-- The context after a move; the cause if the move is refused. -/
def advance (c : Context) : Move → Except LoadError Context
  | .enterDeclaration kind index name => c.enterDeclaration kind index name
  | .exitDeclaration kind => c.exitDeclaration kind
  | .enterMethod method name => c.enterMethod method name
  | .enterThrows => c.enterThrows
  | .exitMethod => c.exitMethod

/-- The outcome of a move, and the context after it. -/
def step (c : Context) (move : Move) : Except LoadError Unit × Context :=
  match c.advance move with
  | .ok c' => (.ok (), c')
  | .error e => (.error e, c)

/-- The context after a number of moves; a refused move is passed over. -/
def feed (c : Context) (moves : List Move) : Context :=
  moves.foldl (fun c move => (c.step move).2) c

end Context

/-- Where in a document one is. -/
inductive Position where
  /-- Outside of all declarations. -/
  | idle
  /-- In the body of a declaration, outside of any method. -/
  | body (index : Nat) (kind : DeclarationKind)
  /-- In the parameter list of a method. -/
  | parameters (service method : Nat)
  /-- In or behind the throws list of a method. -/
  | throws (service method : Nat)
  deriving DecidableEq, Repr

namespace Position

/-! ## Moves -/

/-- The position after a move; the cause if the move is refused. -/
def advance : Position → Move → Except LoadError Position
  | .idle, .enterDeclaration kind index _ => .ok (.body index kind)
  | .body _ kind, .exitDeclaration kind' =>
    if kind = kind' then .ok .idle else .error (.unbalancedExit (.declaration kind'))
  | .body service .service, .enterMethod method _ => .ok (.parameters service method)
  | .parameters service method, .enterThrows => .ok (.throws service method)
  | .parameters service _, .exitMethod => .ok (.body service .service)
  | .throws service _, .exitMethod => .ok (.body service .service)
  | .body _ enclosing, .enterDeclaration kind _ name =>
    .error (.nestedDeclaration kind name enclosing)
  | .parameters _ _, .enterDeclaration kind _ name => .error (.nestedDeclaration kind name .service)
  | .throws _ _, .enterDeclaration kind _ name => .error (.nestedDeclaration kind name .service)
  | _, .exitDeclaration kind => .error (.unbalancedExit (.declaration kind))
  | _, .enterMethod _ name => .error (.functionOutsideService name)
  | _, .enterThrows => .error .throwsOutsideFunction
  | _, .exitMethod => .error (.unbalancedExit .function)

/-- The outcome of a move, and the position after it. -/
def step (p : Position) (move : Move) : Except LoadError Unit × Position :=
  match p.advance move with
  | .ok p' => (.ok (), p')
  | .error e => (.error e, p)

/-- The position after a number of moves; a refused move is passed over. -/
def feed (p : Position) (moves : List Move) : Position :=
  moves.foldl (fun p move => (p.step move).2) p

/-! ## Questions -/

/-- Is nothing open? -/
def isIdle : Position → Bool
  | .idle => true
  | _ => false

/-- The open declaration and its kind. -/
def declaration? : Position → Option (Nat × DeclarationKind)
  | .idle => none
  | .body index kind => some (index, kind)
  | .parameters service _ => some (service, .service)
  | .throws service _ => some (service, .service)

/-- The enum in whose body one is. -/
def enum? : Position → Option Nat
  | .body index .enum => some index
  | _ => none

/-- The service in whose body one is, outside of any method. -/
def service? : Position → Option Nat
  | .body index .service => some index
  | _ => none

/-- The list that receives fields. -/
def slot? : Position → Option Slot
  | .body index .struct => some (.declaration index)
  | .body index .exception => some (.declaration index)
  | .parameters service method => some (.parameters service method)
  | .throws service method => some (.throws service method)
  | _ => none

end Position

/-- The declaration that a list belongs to. -/
def Slot.index : Slot → Nat
  | .declaration index => index
  | .parameters service _ => service
  | .throws service _ => service

namespace Position

/-! ## Contexts of positions -/

/-- The context that a position stands for. -/
def context : Position → Context
  | .idle => ⟨[]⟩
  | .body index kind => ⟨[.declaration index kind]⟩
  | .parameters service method => ⟨[.method service method, .declaration service .service]⟩
  | .throws service method => ⟨[.throws service method, .declaration service .service]⟩

/-- A context moves as its position does, and refuses what its position refuses. -/
theorem advance_context (p : Position) (move : Move) :
    p.context.advance move = context <$> p.advance move := by
  cases move with
  | enterDeclaration kind index name => cases p <;> rfl
  | exitDeclaration kind =>
    cases p with
    | body index open_ =>
      rw [advance, apply_ite (context <$> ·)]
      rfl
    | _ => rfl
  | enterMethod method name =>
    cases p with
    | body index kind => cases kind <;> rfl
    | _ => rfl
  | enterThrows => cases p <;> rfl
  | exitMethod => cases p <;> rfl

theorem step_context (p : Position) (move : Move) :
    p.context.step move = ((p.step move).1, (p.step move).2.context) := by
  rw [Context.step, advance_context, step]
  cases p.advance move <;> rfl

theorem feed_context (p : Position) (moves : List Move) :
    p.context.feed moves = (p.feed moves).context := by
  induction moves generalizing p with
  | nil => rfl
  | cons move moves ih =>
    show (p.context.step move).2.feed moves = _
    rw [step_context]
    exact ih (p.step move).2

theorem enum?_context (p : Position) : p.context.enum? = p.enum? := by
  cases p with
  | body index kind => cases kind <;> rfl
  | _ => rfl

theorem service?_context (p : Position) : p.context.service? = p.service? := by
  cases p with
  | body index kind => cases kind <;> rfl
  | _ => rfl

theorem slot?_context (p : Position) : p.context.slot? = p.slot? := by
  cases p with
  | body index kind => cases kind <;> rfl
  | _ => rfl

/-! ## What the answers have to do with each other -/

/-- Values, methods and fields are never received at the same position. -/
theorem count_receivers_le_one (p : Position) :
    [p.enum?.isSome, p.service?.isSome, p.slot?.isSome].count true ≤ 1 := by
  cases p with
  | body index kind => cases kind <;> simp [enum?, service?, slot?]
  | _ => simp [enum?, service?, slot?]

/-- A list that receives fields belongs to the open declaration. -/
theorem declaration?_of_slot? {p : Position} {slot : Slot} (h : p.slot? = some slot) :
    p.declaration?.map Prod.fst = some slot.index := by
  cases p with
  | body index kind => cases kind <;> cases h <;> rfl
  | _ => cases h <;> rfl

end Position

namespace Context

theorem step_of_error {c : Context} {move : Move} {e : LoadError}
    (h : (c.step move).1 = .error e) : (c.step move).2 = c := by
  rw [step] at h ⊢
  cases ha : c.advance move with
  | ok c' => rw [ha] at h; cases h
  | error e' => rfl

/-- Whatever moves are made from the empty context, in whatever order and with whatever is refused
among them, it goes along with the position: it is the context of that position, takes and refuses
every further move as the position does, is left alone by a refused one, and gives the answers of
the position. At most one of enum, service and list of fields is there to receive something, and
the list belongs to the open declaration. -/
theorem refines_position (moves : List Move) :
    let c := feed {} moves
    let p := Position.idle.feed moves
    c = p.context ∧
    (∀ move, c.step move = ((p.step move).1, (p.step move).2.context)) ∧
    (∀ move e, (c.step move).1 = .error e → (c.step move).2 = c) ∧
    c.isEmpty = p.isIdle ∧ c.declaration? = p.declaration? ∧ c.enum? = p.enum? ∧
    c.service? = p.service? ∧ c.slot? = p.slot? ∧
    [c.enum?.isSome, c.service?.isSome, c.slot?.isSome].count true ≤ 1 ∧
    ∀ slot, c.slot? = some slot → c.declaration?.map Prod.fst = some slot.index := by
  intro c p
  have hc : c = p.context := Position.feed_context .idle moves
  have hempty : p.context.isEmpty = p.isIdle := by cases p <;> rfl
  have hdeclaration : p.context.declaration? = p.declaration? := by cases p <;> rfl
  rw [hc, hempty, hdeclaration, p.enum?_context, p.service?_context, p.slot?_context]
  exact ⟨rfl, p.step_context, fun move e => step_of_error, rfl, rfl, rfl, rfl, rfl,
    p.count_receivers_le_one, fun slot => Position.declaration?_of_slot?⟩

end Context

end IdlModel
