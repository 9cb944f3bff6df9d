import IdlModel.Proofs.Load.Parts

/-!
# Building without indices

A builder keeps what has been written in one list and what is open in a stack of frames that point
into it. A `Sketch` holds the same without indices: the declarations that are closed, and the open
one, with the method that is open in it apart. `Sketch.toBuilder` is the builder it stands for.

Every step of a builder is a step of its sketch (`Sketch.step_toBuilder`), refused or not, so
loading a tree is running its events from the empty sketch (`Document.ofTree_eq_run`).
-/

namespace IdlModel

open Builder (requiredPart)

/-- What is open, with all that has been written of it. -/
inductive Focus where
  | nothing
  /-- A declaration, outside of any method. -/
  | body (d : Declaration)
  /-- The last method of a service: in its parameter list, or in or behind its throws list. -/
  | method (service : String) (comment : Option String) (earlier : List Method) (m : Method)
    (thrown : Bool)

namespace Focus

/-- One case for each kind of thing that may be open. -/
@[elab_as_elim]
theorem by_kind {P : Focus → Prop} (nothing : P .nothing)
    («enum» : ∀ name comment vs, P (.body ⟨name, comment, .enum vs⟩))
    (struct : ∀ name comment as, P (.body ⟨name, comment, .struct as⟩))
    (exception : ∀ name comment as, P (.body ⟨name, comment, .exception as⟩))
    (service : ∀ name comment ms, P (.body ⟨name, comment, .service ms⟩))
    (parameters : ∀ name comment earlier m, P (.method name comment earlier m false))
    (throws : ∀ name comment earlier m, P (.method name comment earlier m true)) : ∀ f, P f
  | .nothing => nothing
  | .body ⟨name, comment, .enum vs⟩ => «enum» name comment vs
  | .body ⟨name, comment, .struct as⟩ => struct name comment as
  | .body ⟨name, comment, .exception as⟩ => exception name comment as
  | .body ⟨name, comment, .service ms⟩ => service name comment ms
  | .method name comment earlier m false => parameters name comment earlier m
  | .method name comment earlier m true => throws name comment earlier m

/-- The open declaration, the open method included. -/
def declaration? : Focus → Option Declaration
  | .nothing => none
  | .body d => some d
  | .method name comment earlier m _ => some ⟨name, comment, .service (earlier ++ [m])⟩

/-- The open frames, if the open declaration has this index. -/
def frames (index : Nat) : Focus → List Frame
  | .nothing => []
  | .body d => [.declaration index d.kind]
  | .method _ _ earlier _ false =>
    [.method index earlier.length, .declaration index .service]
  | .method _ _ earlier _ true =>
    [.throws index earlier.length, .declaration index .service]

/-- The kind of the open declaration. -/
def kind? (f : Focus) : Option DeclarationKind :=
  f.declaration?.map Declaration.kind

/-- What is open after a field; nothing changes where no field is taken. -/
def addField : Focus → Attribute → Focus
  | .body ⟨name, comment, .struct as⟩, a => .body ⟨name, comment, .struct (as ++ [a])⟩
  | .body ⟨name, comment, .exception as⟩, a => .body ⟨name, comment, .exception (as ++ [a])⟩
  | .method name comment earlier m false, a =>
    .method name comment earlier (m.addParameter a) false
  | .method name comment earlier m true, a => .method name comment earlier (m.addThrown a) true
  | f, _ => f

/-- Are fields taken? -/
def takesFields : Focus → Bool
  | .body d => d.acceptsAttributes
  | .method .. => true
  | .nothing => false

end Focus

/-- A document under construction, by what is closed and what is open. -/
structure Sketch where
  closed : List Declaration := []
  focus : Focus := .nothing
  pending : Option String := none
  documents : Nat := 0

namespace Sketch

/-- The builder that a sketch stands for. -/
def toBuilder (s : Sketch) : Builder where
  declarations := s.closed ++ s.focus.declaration?.toList
  context := ⟨s.focus.frames s.closed.length⟩
  pending := ⟨s.pending⟩
  documents := s.documents

/-! ## Steps -/

/-- A declaration opens with the waiting comment where nothing is open. -/
def enterDeclaration (s : Sketch) (kind : DeclarationKind) (n : Node) :
    Except LoadError Sketch := do
  let name ← requiredPart n .identifier
  match s.focus.kind? with
  | some enclosing => .error (.nestedDeclaration kind name enclosing)
  | none => .ok { s with focus := .body (.opened kind name s.pending), pending := none }

/-- A value goes to the end of the open enum. -/
def enterEnumValue (s : Sketch) (n : Node) : Except LoadError Sketch := do
  let value ← requiredPart n .identifier
  match s.focus with
  | .body ⟨name, comment, .enum vs⟩ =>
    .ok { s with focus := .body ⟨name, comment, .enum (vs ++ [value])⟩ }
  | _ => .error (.enumValueOutsideEnum value)

/-- A field goes to the end of the list that takes fields. -/
def enterField (settings : LoadSettings) (s : Sketch) (n : Node) : Except LoadError Sketch :=
  if s.focus.takesFields then do
    let name ← requiredPart n .identifier
    let type ← requiredPart n .fieldType
    .ok { s with
      focus := s.focus.addField { name, type := ⟨type⟩, comment := s.pending }
      pending := none }
  else if settings.strictFields then do
    let name ← requiredPart n .identifier
    .error (.orphanField name)
  else .ok { s with pending := none }

/-- A function opens as the last method of the open service. -/
def enterFunction (s : Sketch) (n : Node) : Except LoadError Sketch := do
  let name ← requiredPart n .identifier
  match s.focus with
  | .body ⟨service, comment, .service ms⟩ =>
    let returnType ← requiredPart n .functionType
    .ok { s with
      focus := .method service comment ms
        { name, comment := s.pending, returnType := ⟨returnType⟩ } false
      pending := none }
  | _ => .error (.functionOutsideService name)

/-- The open method goes over to what it throws. -/
def enterThrows (s : Sketch) : Except LoadError Sketch :=
  match s.focus with
  | .method service comment earlier m false =>
    .ok { s with focus := .method service comment earlier m true }
  | _ => .error .throwsOutsideFunction

/-- The beginning of a node. -/
def enter (settings : LoadSettings) (s : Sketch) (n : Node) : Except LoadError Sketch :=
  match n.kind with
  | .document =>
    if s.documents = 0 then .ok { s with documents := 1 }
    else .error (.documentCount (s.documents + 1))
  | .declaration kind => s.enterDeclaration kind n
  | .enumValue => s.enterEnumValue n
  | .field => s.enterField settings n
  | .function => s.enterFunction n
  | .throwsList => s.enterThrows
  | .commentMultiline => .ok { s with pending := some (settings.normalize n.text) }
  | .commentSingleline | .other => .ok s

/-- The end of a node. -/
def exit (s : Sketch) (n : Node) : Except LoadError Sketch :=
  match n.kind with
  | .declaration kind =>
    match s.focus with
    | .body d =>
      if d.kind = kind then
        .ok { s with closed := s.closed ++ [d], focus := .nothing, pending := none }
      else .error (.unbalancedExit (.declaration kind))
    | _ => .error (.unbalancedExit (.declaration kind))
  | .function =>
    match s.focus with
    | .method service comment earlier m _ =>
      .ok { s with focus := .body ⟨service, comment, .service (earlier ++ [m])⟩, pending := none }
    | _ => .error (.unbalancedExit .function)
  | _ => .ok s

/-- The sketch after an event; the cause if the event is refused. -/
def advance (settings : LoadSettings) (s : Sketch) : Event → Except LoadError Sketch
  | .enter n => s.enter settings n
  | .exit n => s.exit n

/-- What a refused event leaves behind. -/
def refuse (s : Sketch) : Event → Sketch
  | .enter n =>
    match n.kind with
    | .document => { s with documents := s.documents + 1 }
    | .field => { s with pending := none }
    | _ => s
  | .exit n =>
    match n.kind with
    | .declaration _ | .function => { s with pending := none }
    | _ => s

/-- The outcome of one event, and the sketch after it. -/
def step (settings : LoadSettings) (s : Sketch) (e : Event) : Except LoadError Unit × Sketch :=
  match s.advance settings e with
  | .ok s' => (.ok (), s')
  | .error err => (.error err, s.refuse e)

/-! ## A builder's steps are those of its sketch -/

/-- How a step of a builder ends, told by sketches. -/
def result (refused : Sketch) : Except LoadError Sketch → EStateM.Result LoadError Builder Unit
  | .ok s => .ok () s.toBuilder
  | .error e => .error e refused.toBuilder

theorem run_enterDocument (s : Sketch) :
    Builder.enterDocument.run s.toBuilder = result { s with documents := s.documents + 1 }
      (if s.documents = 0 then .ok { s with documents := 1 }
        else .error (.documentCount (s.documents + 1))) := by
  rw [Builder.enterDocument]
  simp only [EStateM.run_bind, EStateM.run_modify, EStateM.run_get]
  by_cases h : s.documents = 0
  · rw [if_neg (by simp [toBuilder, h]), if_pos h, EStateM.run_pure, result, toBuilder, toBuilder,
      h]
  · rw [if_pos (by simp [toBuilder]; omega), if_neg h, EStateM.run_throw]
    rfl

theorem run_enterDeclaration (s : Sketch) (kind : DeclarationKind) (n : Node) :
    (Builder.enterDeclaration kind n).run s.toBuilder = result s (s.enterDeclaration kind n) := by
  rw [Builder.enterDeclaration, enterDeclaration]
  simp only [EStateM.run_bind, Builder.run_liftExcept, EStateM.run_get, Builder.run_changeContext]
  cases requiredPart n .identifier with
  | error e => rfl
  | ok name =>
    obtain ⟨closed, focus, pending, documents⟩ := s
    cases focus using Focus.by_kind with
    | nothing =>
      simp [toBuilder, result, Focus.frames, Focus.kind?, Focus.declaration?,
        Context.enterDeclaration, Context.declaration?, Builder.run_takeComment, bind, Except.bind]
    | _ => rfl

theorem run_enterEnumValue (s : Sketch) (n : Node) :
    (Builder.enterEnumValue n).run s.toBuilder = result s (s.enterEnumValue n) := by
  rw [Builder.enterEnumValue, enterEnumValue]
  simp only [EStateM.run_bind, Builder.run_liftExcept, EStateM.run_get]
  cases requiredPart n .identifier with
  | error e => rfl
  | ok value =>
    obtain ⟨closed, focus, pending, documents⟩ := s
    cases focus using Focus.by_kind with
    | «enum» name comment vs =>
      show (Builder.addTo closed.length (.value value)).run _ = _
      rw [Builder.run_addTo_last closed ⟨name, comment, .enum vs⟩ rfl]
      rfl
    | _ => rfl

/-- Where fields are taken, there is a slot, and adding to it is adding to what is open. -/
theorem exists_slot {f : Focus} (h : f.takesFields) (closed : List Declaration) :
    ∃ slot, (⟨f.frames closed.length⟩ : Context).slot? = some slot ∧
      ∀ (pending : Option String) (documents : Nat) (a : Attribute),
        (Builder.addToSlot slot a).run (toBuilder ⟨closed, f, pending, documents⟩) =
          .ok () (toBuilder ⟨closed, f.addField a, pending, documents⟩) := by
  cases f using Focus.by_kind with
  | struct name comment as =>
    refine ⟨.declaration closed.length, rfl, fun pending documents a => ?_⟩
    show (Builder.addTo closed.length (.field a)).run _ = _
    rw [Builder.run_addTo_last closed ⟨name, comment, .struct as⟩ rfl]
    rfl
  | exception name comment as =>
    refine ⟨.declaration closed.length, rfl, fun pending documents a => ?_⟩
    show (Builder.addTo closed.length (.field a)).run _ = _
    rw [Builder.run_addTo_last closed ⟨name, comment, .exception as⟩ rfl]
    rfl
  | parameters name comment earlier m =>
    refine ⟨.parameters closed.length earlier.length, rfl, fun pending documents a => ?_⟩
    show (Builder.addTo closed.length (.parameter earlier.length a)).run _ = _
    rw [Builder.run_addTo_last closed ⟨name, comment, .service (earlier ++ [m])⟩ rfl,
      Declaration.add?, Body.add?, modifyMethod?_last]
    rfl
  | throws name comment earlier m =>
    refine ⟨.throws closed.length earlier.length, rfl, fun pending documents a => ?_⟩
    show (Builder.addTo closed.length (.thrown earlier.length a)).run _ = _
    rw [Builder.run_addTo_last closed ⟨name, comment, .service (earlier ++ [m])⟩ rfl,
      Declaration.add?, Body.add?, modifyMethod?_last]
    rfl
  | _ => cases h

theorem slot?_eq_none {f : Focus} (h : f.takesFields = false) (index : Nat) :
    (⟨f.frames index⟩ : Context).slot? = none := by
  cases f using Focus.by_kind with
  | nothing => rfl
  | «enum» name comment vs => rfl
  | service name comment ms => rfl
  | _ => cases h

theorem run_enterField (settings : LoadSettings) (s : Sketch) (n : Node) :
    (Builder.enterField settings n).run s.toBuilder =
      result { s with pending := none } (s.enterField settings n) := by
  obtain ⟨closed, focus, pending, documents⟩ := s
  rw [Builder.enterField, enterField]
  simp only [EStateM.run_bind, Builder.run_takeComment, EStateM.run_get]
  cases h : focus.takesFields with
  | true =>
    obtain ⟨slot, hslot, hadd⟩ := exists_slot h closed
    simp only [toBuilder] at hslot hadd ⊢
    simp only [hslot, EStateM.run_bind, Builder.run_liftExcept]
    cases requiredPart n .identifier with
    | error e => rfl
    | ok name =>
      cases requiredPart n .fieldType with
      | error e => rfl
      | ok type => exact hadd none documents _
  | false =>
    have hslot := slot?_eq_none h closed.length
    simp only [toBuilder, hslot]
    cases settings.strictFields with
    | false => rfl
    | true =>
      simp only [if_true, EStateM.run_bind, Builder.run_liftExcept]
      cases requiredPart n .identifier <;> rfl

theorem run_enterFunction (s : Sketch) (n : Node) :
    (Builder.enterFunction n).run s.toBuilder = result s (s.enterFunction n) := by
  rw [Builder.enterFunction, enterFunction]
  simp only [EStateM.run_bind, Builder.run_liftExcept, EStateM.run_get]
  cases requiredPart n .identifier with
  | error e => rfl
  | ok name =>
    obtain ⟨closed, focus, pending, documents⟩ := s
    cases focus using Focus.by_kind with
    | service service comment ms =>
      simp only [toBuilder, Focus.frames, Context.service?, Declaration.kind, Body.kind]
      cases requiredPart n .functionType with
      | error e => rfl
      | ok returnType =>
        simp only [EStateM.run_bind, Builder.run_liftExcept, EStateM.run_get,
          Builder.run_takeComment]
        rw [Builder.run_addTo_last closed ⟨service, comment, .service ms⟩ rfl,
          Builder.methodCount_last closed ⟨service, comment, .service ms⟩ rfl]
        simp only [Declaration.add?, Body.add?, Option.map, Builder.run_changeContext]
        rfl
    | _ => rfl

theorem run_enterThrows (s : Sketch) :
    (Builder.changeContext Context.enterThrows).run s.toBuilder = result s s.enterThrows := by
  rw [Builder.run_changeContext]
  obtain ⟨closed, focus, pending, documents⟩ := s
  cases focus using Focus.by_kind <;> rfl

theorem run_exit (s : Sketch) (n : Node) :
    (Builder.exit n).run s.toBuilder = result (s.refuse (.exit n)) (s.exit n) := by
  obtain ⟨closed, focus, pending, documents⟩ := s
  cases h : n.kind with
  | declaration kind =>
    simp only [Builder.exit, exit, refuse, h, EStateM.run_bind, Builder.run_dropComment,
      Builder.run_changeContext]
    cases focus with
    | nothing => rfl
    | body d =>
      by_cases hk : d.kind = kind <;>
        simp [toBuilder, result, Focus.frames, Focus.declaration?, Context.exitDeclaration, hk]
    | method service comment earlier m thrown => cases thrown <;> rfl
  | function =>
    simp only [Builder.exit, exit, refuse, h, EStateM.run_bind, Builder.run_dropComment,
      Builder.run_changeContext]
    cases focus using Focus.by_kind <;> rfl
  | _ =>
    simp only [Builder.exit, exit, refuse, h]
    rfl

/-- A step of a builder is a step of its sketch, whether it is refused or not. -/
theorem run_handle (settings : LoadSettings) (s : Sketch) (e : Event) :
    (Builder.handle settings e).run s.toBuilder = result (s.refuse e) (s.advance settings e) := by
  cases e with
  | exit n => exact run_exit s n
  | enter n =>
    simp only [Builder.handle, Builder.enter, advance, enter, refuse]
    cases n.kind with
    | document => exact run_enterDocument s
    | declaration kind => exact run_enterDeclaration s kind n
    | enumValue => exact run_enterEnumValue s n
    | field => exact run_enterField settings s n
    | function => exact run_enterFunction s n
    | throwsList => exact run_enterThrows s
    | _ => rfl

theorem step_toBuilder (settings : LoadSettings) (s : Sketch) (e : Event) :
    s.toBuilder.step settings e =
      ((s.step settings e).1, (s.step settings e).2.toBuilder) := by
  rw [Builder.step, run_handle, step]
  cases s.advance settings e <;> rfl

/-! ## Runs -/

/-- The sketch after a number of events; the cause if one of them is refused. -/
def run (settings : LoadSettings) (s : Sketch) (es : List Event) : Except LoadError Sketch :=
  es.foldlM (advance settings) s

/-- The document, if exactly one document node was entered and nothing is open. -/
def finish (s : Sketch) (name : String) : Except LoadError Document :=
  if s.documents ≠ 1 then .error (.documentCount s.documents)
  else match s.focus with
    | .nothing => .ok { name, declarations := s.closed }
    | _ => .error (.unbalancedExit .document)

section Runs

variable {settings : LoadSettings}

@[simp] theorem run_nil (s : Sketch) : run settings s [] = .ok s := rfl

theorem run_cons (s : Sketch) (e : Event) (es : List Event) :
    run settings s (e :: es) = s.advance settings e >>= fun s' => run settings s' es := by
  rw [run, List.foldlM_cons]
  rfl

theorem run_singleton (s : Sketch) (e : Event) : run settings s [e] = s.advance settings e := by
  rw [run_cons]
  cases s.advance settings e <;> rfl

theorem run_append (s : Sketch) (es es' : List Event) :
    run settings s (es ++ es') = run settings s es >>= fun s' => run settings s' es' := by
  rw [run, List.foldlM_append]
  rfl

/-- A map between sketches that goes with every step goes with every run. -/
theorem run_map {settings' : LoadSettings} {g : Sketch → Sketch}
    (h : ∀ s event, (g s).advance settings' event = g <$> s.advance settings event) (s : Sketch)
    (es : List Event) : run settings' (g s) es = g <$> run settings s es := by
  induction es generalizing s with
  | nil => rfl
  | cons event es ih =>
    rw [run_cons, run_cons, h]
    cases s.advance settings event with
    | error e => rfl
    | ok s' => exact ih s'

theorem run_toBuilder (settings : LoadSettings) (s : Sketch) (es : List Event) :
    match run settings s es with
    | .ok s' => (es.forM (Builder.handle settings)).run s.toBuilder = .ok () s'.toBuilder
    | .error e => ∃ b, (es.forM (Builder.handle settings)).run s.toBuilder = .error e b := by
  induction es generalizing s with
  | nil => rfl
  | cons e es ih =>
    simp only [run_cons, List.forM_eq_forM, List.forM_cons, EStateM.run_bind, run_handle]
    cases s.advance settings e with
    | error err => exact ⟨_, rfl⟩
    | ok s' => exact ih s'

end Runs

theorem finish_toBuilder (s : Sketch) (name : String) :
    s.toBuilder.finish name = s.finish name := by
  rw [Builder.finish, finish, show s.toBuilder.documents = s.documents from rfl]
  by_cases h : s.documents ≠ 1
  · rw [if_pos h, if_pos h]
  · rw [if_neg h, if_neg h]
    obtain ⟨closed, focus, pending, documents⟩ := s
    cases focus with
    | nothing => simp [toBuilder, Focus.frames, Focus.declaration?, Context.isEmpty]
    | body d => rfl
    | method service comment earlier m thrown => cases thrown <;> rfl

end Sketch

/-- Loading a tree is running its events from the empty sketch. -/
theorem Document.ofTree_eq_run (settings : LoadSettings) (name : String) (root : Node) :
    Document.ofTree settings name root =
      Sketch.run settings {} root.events >>= fun s => s.finish name := by
  have h := Sketch.run_toBuilder settings {} root.events
  rw [Document.ofTree, Node.walk_eq_forM_events]
  cases hr : Sketch.run settings {} root.events with
  | error e =>
    rw [hr] at h
    obtain ⟨b, h⟩ := h
    rw [show (Sketch.toBuilder {} : Builder) = {} from rfl] at h
    rw [h]
    rfl
  | ok s =>
    rw [hr] at h
    rw [show (Sketch.toBuilder {} : Builder) = {} from rfl] at h
    rw [h]
    exact Sketch.finish_toBuilder s name

end IdlModel
