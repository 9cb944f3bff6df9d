import IdlModel.Comment.Normalize
import IdlModel.Comment.Pending
import IdlModel.Declaration.Addition
import IdlModel.Document.Basic
import IdlModel.Load.Context
import IdlModel.Node.Walk
import IdlModel.Text.Blank

/-!
# Building a document from a walk

A `Builder` is the document under construction together with what is open and which comment
waits. `Builder.handle` takes in one event of a walk:

* a declaration takes the waiting comment and joins the document, and closes when its node ends;
* an enum value goes to the open enum;
* a field becomes an attribute of the innermost struct or exception, a parameter of the innermost
  method, or one of its exceptions once the throws list has begun;
* a function becomes a method of the open service, and takes the waiting comment;
* a multi-line comment waits in place of the one before it, single-line comments do not count;
* what nothing has taken when a declaration or function ends is dropped.

An event that is refused may have taken effect in part: the builder keeps the state it had
reached. `Document.ofTree` walks a whole tree and stops at the first refusal.
-/

namespace IdlModel

/-- What a caller may choose about building a document. -/
structure LoadSettings where
  /-- Is a field that nothing takes refused, rather than passed over? -/
  strictFields : Bool := false
  /-- What the raw text of a comment is turned into. -/
  normalize : String → String := Comment.normalize

/-- A document under construction. -/
structure Builder where
  declarations : List Declaration := []
  context : Context := {}
  pending : Comment.Pending := {}
  /-- How many document nodes have been entered. -/
  documents : Nat := 0
  deriving DecidableEq, Repr, Inhabited

/-- A step in building: it may fail, and keeps the state it had reached. -/
abbrev Build := EStateM LoadError Builder

namespace Builder

/-! ## Parts of a step -/

/-- A part of a node without the white space around it, which must not be all there is. -/
def requiredPart (n : Node) (p : Part) : Except LoadError String :=
  match (n.part? p).map Text.trimmed with
  | some text => if text = "" then .error (.missingField n.kind p) else .ok text
  | none => .error (.missingField n.kind p)

/-- Take the waiting comment. -/
def takeComment : Build (Option String) :=
  modifyGet fun b => (b.pending.text, { b with pending := b.pending.clear })

/-- Drop the waiting comment. -/
def dropComment : Build Unit :=
  modify fun b => { b with pending := b.pending.clear }

/-- Change what is open, if the change is allowed. -/
def changeContext (change : Context → Except LoadError Context) : Build Unit := do
  let context ← liftExcept (change (← get).context)
  modify fun b => { b with context }

/-- Add an item to a list of the declaration with an index. -/
def addTo (index : Nat) (addition : Addition) : Build Unit := do
  let b ← get
  match b.declarations[index]?.bind (·.add? addition) with
  | some d => set { b with declarations := b.declarations.set index d }
  | none => throw .staleContext

/-- Add an attribute to the list that receives fields. -/
def addToSlot (slot : Slot) (a : Attribute) : Build Unit :=
  match slot with
  | .declaration index => addTo index (.field a)
  | .parameters service method => addTo service (.parameter method a)
  | .throws service method => addTo service (.thrown method a)

/-- The number of methods that the declaration with an index has. -/
def methodCount (b : Builder) (index : Nat) : Nat :=
  (b.declarations[index]?.map (·.body.methods.length)).getD 0

/-! ## Entering and exiting nodes -/

/-- A second document node is refused, and counts. -/
def enterDocument : Build Unit := do
  modify fun b => { b with documents := b.documents + 1 }
  let count := (← get).documents
  if count > 1 then throw (.documentCount count)

/-- A declaration joins the document and takes the waiting comment. -/
def enterDeclaration (kind : DeclarationKind) (n : Node) : Build Unit := do
  let name ← liftExcept (requiredPart n .identifier)
  let index := (← get).declarations.length
  changeContext (·.enterDeclaration kind index name)
  let comment ← takeComment
  modify fun b => { b with declarations := b.declarations ++ [.opened kind name comment] }

/-- A value goes to the enum whose body is innermost. -/
def enterEnumValue (n : Node) : Build Unit := do
  let value ← liftExcept (requiredPart n .identifier)
  match (← get).context.enum? with
  | some index => addTo index (.value value)
  | none => throw (.enumValueOutsideEnum value)

/-- A field takes the waiting comment and goes where fields go at this point. Where nothing takes
it, it is passed over without a look at its type, or refused if the settings say so; the comment
is gone in any case. -/
def enterField (settings : LoadSettings) (n : Node) : Build Unit := do
  let comment ← takeComment
  match (← get).context.slot? with
  | some slot =>
    let name ← liftExcept (requiredPart n .identifier)
    let type ← liftExcept (requiredPart n .fieldType)
    addToSlot slot { name, type := ⟨type⟩, comment }
  | none =>
    if settings.strictFields then
      let name ← liftExcept (requiredPart n .identifier)
      throw (.orphanField name)

/-- A function becomes the last method of the service whose body is innermost, takes the waiting
comment, and is then open itself. -/
def enterFunction (n : Node) : Build Unit := do
  let name ← liftExcept (requiredPart n .identifier)
  match (← get).context.service? with
  | some service =>
    let returnType ← liftExcept (requiredPart n .functionType)
    let comment ← takeComment
    let method := (← get).methodCount service
    addTo service (.method { name, comment, returnType := ⟨returnType⟩ })
    changeContext (·.enterMethod method name)
  | none => throw (.functionOutsideService name)

/-- A comment waits, in its final form. -/
def enterComment (settings : LoadSettings) (n : Node) : Build Unit :=
  modify fun b => { b with pending := b.pending.set (settings.normalize n.text) }

/-- The beginning of a node. -/
def enter (settings : LoadSettings) (n : Node) : Build Unit :=
  match n.kind with
  | .document => enterDocument
  | .declaration kind => enterDeclaration kind n
  | .enumValue => enterEnumValue n
  | .field => enterField settings n
  | .function => enterFunction n
  | .throwsList => changeContext Context.enterThrows
  | .commentMultiline => enterComment settings n
  | .commentSingleline | .other => pure ()

/-- The end of a node. A comment that nothing took does not outlive a declaration or a function. -/
def exit (n : Node) : Build Unit :=
  match n.kind with
  | .declaration kind => do
    dropComment
    changeContext (·.exitDeclaration kind)
  | .function => do
    dropComment
    changeContext Context.exitMethod
  | _ => pure ()

/-- One event of a walk. -/
def handle (settings : LoadSettings) : Event → Build Unit
  | .enter n => enter settings n
  | .exit n => exit n

/-- The document that has been built, if exactly one document node was entered and nothing is
open. A comment that still waits is dropped. -/
def finish (b : Builder) (name : String) : Except LoadError Document :=
  if b.documents ≠ 1 then .error (.documentCount b.documents)
  else if !b.context.isEmpty then .error (.unbalancedExit .document)
  else .ok { name, declarations := b.declarations }

/-- The outcome of one event, and the builder after it. -/
def step (settings : LoadSettings) (b : Builder) (event : Event) :
    Except LoadError Unit × Builder :=
  match (handle settings event).run b with
  | .ok _ b' => (.ok (), b')
  | .error e b' => (.error e, b')

/-- The builder after a number of events; a refused event is passed over. -/
def feed (settings : LoadSettings) (b : Builder) (events : List Event) : Builder :=
  events.foldl (fun b event => (b.step settings event).2) b

end Builder

/-- The document of a syntax tree. -/
def Document.ofTree (settings : LoadSettings) (name : String) (root : Node) :
    Except LoadError Document :=
  match (root.walk (Builder.handle settings)).run {} with
  | .ok _ b => b.finish name
  | .error e _ => .error e

end IdlModel
