import IdlModel.Proofs.Load.Step

/-!
# The final form of comments

What the raw text of a comment is turned into has no influence on anything but that text. A comment
waits in its final form, through any number of events, until an entity takes it or it is dropped; no
step looks at it. So a run with comments in one form is the run with comments in another, with the
form changed in all entities written so far and in the comment that waits (`Sketch.run_mapComments`).

Raw comments changed afterwards are therefore the same as comments changed when they are met
(`Document.ofTree_normalize`).
-/

namespace IdlModel

variable (f : String → String)

/-! ## Comments of a document -/

def Attribute.mapComments (a : Attribute) : Attribute :=
  { a with comment := a.comment.map f }

def Method.mapComments (m : Method) : Method :=
  { m with comment := m.comment.map f, parameters := m.parameters.map (Attribute.mapComments f) }

def Body.mapComments : Body → Body
  | .enum vs => .enum vs
  | .struct as => .struct (as.map (Attribute.mapComments f))
  | .exception as => .exception (as.map (Attribute.mapComments f))
  | .service ms => .service (ms.map (Method.mapComments f))

def Declaration.mapComments (d : Declaration) : Declaration :=
  { d with comment := d.comment.map f, body := d.body.mapComments f }

/-- The document with every comment changed. -/
def Document.mapComments (d : Document) : Document :=
  { d with declarations := d.declarations.map (Declaration.mapComments f) }

@[simp] theorem Body.kind_mapComments (b : Body) : (b.mapComments f).kind = b.kind := by
  cases b <;> rfl

@[simp] theorem Declaration.kind_mapComments (d : Declaration) : (d.mapComments f).kind = d.kind :=
  Body.kind_mapComments f d.body

/-! ## Steps -/

/-- What is open, with every comment changed. -/
def Focus.mapComments : Focus → Focus
  | .nothing => .nothing
  | .body d => .body (d.mapComments f)
  | .method service comment earlier m thrown =>
    .method service (comment.map f) (earlier.map (Method.mapComments f)) (m.mapComments f) thrown

namespace Focus

theorem takesFields_mapComments (focus : Focus) :
    (focus.mapComments f).takesFields = focus.takesFields := by
  cases focus using by_kind <;> rfl

theorem addField_mapComments (focus : Focus) (a : Attribute) :
    (focus.mapComments f).addField (a.mapComments f) = (focus.addField a).mapComments f := by
  cases focus using by_kind <;>
    simp [addField, mapComments, Declaration.mapComments, Body.mapComments, Method.mapComments,
      Method.addParameter, Method.addThrown, Attribute.mapComments]

end Focus

namespace Sketch

/-- The sketch with every comment changed, the waiting one too. -/
def mapComments (s : Sketch) : Sketch where
  closed := s.closed.map (Declaration.mapComments f)
  focus := s.focus.mapComments f
  pending := s.pending.map f
  documents := s.documents

variable {settings : LoadSettings} (s : Sketch)

theorem enter_mapComments (n : Node) :
    (s.mapComments f).enter { settings with normalize := f ∘ settings.normalize } n =
      mapComments f <$> s.enter settings n := by
  obtain ⟨closed, focus, pending, documents⟩ := s
  rw [enter, enter]
  cases n.kind with
  | document =>
    simp only [apply_ite (mapComments f <$> ·)]
    rfl
  | declaration k =>
    simp only [enterDeclaration, map_bind]
    refine bind_congr fun name => ?_
    cases focus using Focus.by_kind with
    | nothing => cases k <;> rfl
    | _ => rfl
  | enumValue =>
    simp only [enterEnumValue, map_bind]
    refine bind_congr fun value => ?_
    cases focus using Focus.by_kind <;> rfl
  | field =>
    simp only [enterField, apply_ite (mapComments f <$> ·), map_bind]
    refine ite_congr (congrArg (· = true) (Focus.takesFields_mapComments f focus)) (fun _ => ?_)
      fun _ => rfl
    refine bind_congr fun name => bind_congr fun type => ?_
    exact congrArg (fun focus => Except.ok (⟨_, focus, none, documents⟩ : Sketch))
      (Focus.addField_mapComments f focus ⟨name, ⟨type⟩, pending⟩)
  | function =>
    simp only [enterFunction, map_bind]
    refine bind_congr fun name => ?_
    cases focus using Focus.by_kind with
    | service =>
      simp only [mapComments, map_bind]
      rfl
    | _ => rfl
  | throwsList => cases focus using Focus.by_kind <;> rfl
  | _ => rfl

theorem exit_mapComments (n : Node) :
    (s.mapComments f).exit n = mapComments f <$> s.exit n := by
  obtain ⟨closed, focus, pending, documents⟩ := s
  rw [exit, exit]
  cases n.kind with
  | declaration k =>
    cases focus with
    | body d =>
      simp only [mapComments, Focus.mapComments, Declaration.kind_mapComments,
        apply_ite (mapComments f <$> ·)]
      refine ite_congr rfl (fun _ => ?_) fun _ => rfl
      show Except.ok _ = Except.ok (mapComments f _)
      simp [mapComments, Focus.mapComments]
    | _ => rfl
  | function =>
    cases focus with
    | method service comment earlier m thrown =>
      show Except.ok _ = Except.ok (mapComments f _)
      simp [mapComments, Focus.mapComments, Declaration.mapComments, Body.mapComments]
    | _ => rfl
  | _ => rfl

/-- No step looks at the text of a comment. -/
theorem advance_mapComments (event : Event) :
    (s.mapComments f).advance { settings with normalize := f ∘ settings.normalize } event =
      mapComments f <$> s.advance settings event := by
  cases event with
  | enter n => exact enter_mapComments f s n
  | exit n => exact exit_mapComments f s n

theorem run_mapComments (es : List Event) :
    run { settings with normalize := f ∘ settings.normalize } (s.mapComments f) es =
      mapComments f <$> run settings s es :=
  run_map (advance_mapComments f) s es

theorem finish_mapComments (name : String) :
    (s.mapComments f).finish name = Document.mapComments f <$> s.finish name := by
  rw [finish, finish, show (s.mapComments f).documents = s.documents from rfl]
  by_cases h : s.documents ≠ 1
  · rw [if_pos h, if_pos h]
    rfl
  · rw [if_neg h, if_neg h]
    obtain ⟨closed, focus, pending, documents⟩ := s
    cases focus <;> rfl

end Sketch

/-! ## Documents -/

namespace Document

/-- Comments changed twice on the way are changed once on the way and once in the document. -/
theorem ofTree_comp (settings : LoadSettings) (name : String) (root : Node) :
    ofTree { settings with normalize := f ∘ settings.normalize } name root =
      mapComments f <$> ofTree settings name root := by
  have hrun : Sketch.run { settings with normalize := f ∘ settings.normalize } {} root.events =
      Sketch.mapComments f <$> Sketch.run settings {} root.events :=
    Sketch.run_mapComments f {} root.events
  rw [ofTree_eq_run, ofTree_eq_run, hrun, map_bind]
  cases Sketch.run settings {} root.events with
  | error e => rfl
  | ok s => exact Sketch.finish_mapComments f s name

/-- Comments put into their final form when they are met are raw comments put into that form
afterwards. So no two forms differ in what is refused and why, or in any part of the document but
the texts of comments: with these made empty the results are the same, and comments that are not
there stay away. -/
theorem ofTree_normalize (strictFields : Bool) (normalize : String → String) (name : String)
    (root : Node) :
    ofTree { strictFields, normalize } name root =
      mapComments normalize <$> ofTree { strictFields, normalize := id } name root ∧
    ∀ other : String → String,
      mapComments (fun _ => "") <$> ofTree { strictFields, normalize } name root =
        mapComments (fun _ => "") <$> ofTree { strictFields, normalize := other } name root := by
  constructor
  · exact ofTree_comp normalize { strictFields, normalize := id } name root
  · intro other
    rw [← ofTree_comp, ← ofTree_comp]
    rfl

end Document

end IdlModel
