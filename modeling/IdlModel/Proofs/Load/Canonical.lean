import IdlModel.Proofs.Load.LeadingComment

/-!
# The tree of a document

`Document.toTree` writes a document down as a tree: every entity is one node, with its comment in
front of it. Loading that tree gives the document back (`Document.ofTree_toTree`), whatever the
settings, if its names and types are clean and its comments survive the way there and back.

The run keeps what is written in step with what has been read. Over a list of items that is always
the same induction, `Sketch.run_flatMap`; it is used for values, attributes, parameters, exceptions,
methods and declarations.
-/

namespace IdlModel

/-! ## Writing -/

/-- The node of a comment, if there is one. -/
def commentNodes (g : String → String) (comment : Option String) : List Node :=
  comment.toList.map fun text => .commentMultiline (g text)

def Attribute.toNodes (g : String → String) (a : Attribute) : List Node :=
  commentNodes g a.comment ++ [.field a.name a.type.text]

/-- The list of what a method throws, if it throws anything. -/
def Method.throwsNodes (m : Method) : List Node :=
  if m.exceptions = [] then []
  else [.throwsList (m.exceptions.map fun type => .field "e" type.text)]

def Method.toNodes (g : String → String) (m : Method) : List Node :=
  commentNodes g m.comment ++
    [.function m.name m.returnType.text (m.parameters.flatMap (·.toNodes g) ++ m.throwsNodes)]

def Body.toNodes (g : String → String) : Body → List Node
  | .enum vs => vs.map .enumValue
  | .struct as | .exception as => as.flatMap (·.toNodes g)
  | .service ms => ms.flatMap (·.toNodes g)

def Declaration.toNodes (g : String → String) (d : Declaration) : List Node :=
  commentNodes g d.comment ++ [.declaration d.kind d.name (d.body.toNodes g)]

/-- The tree of a document, if `g` is what turns a comment into raw text. -/
def Document.toTree (g : String → String) (d : Document) : Node :=
  .document (d.declarations.flatMap (·.toNodes g))

/-! ## What a document must be like -/

/-- A text that is there, without white space around it. -/
def Text.Clean (s : String) : Prop :=
  s ≠ "" ∧ Text.trimmed s = s

instance (s : String) : Decidable (Text.Clean s) :=
  inferInstanceAs (Decidable (_ ∧ _))

def Attribute.texts (a : Attribute) : List String :=
  [a.name, a.type.text]

def Method.texts (m : Method) : List String :=
  m.name :: m.returnType.text ::
    (m.parameters.flatMap Attribute.texts ++ m.exceptions.map TypeRef.text)

def Body.texts : Body → List String
  | .enum vs => vs
  | .struct as | .exception as => as.flatMap Attribute.texts
  | .service ms => ms.flatMap Method.texts

def Declaration.texts (d : Declaration) : List String :=
  d.name :: d.body.texts

/-- All names and types in a document, its own name aside. -/
def Document.texts (d : Document) : List String :=
  d.declarations.flatMap Declaration.texts

/-- All comments in a document. -/
def Document.comments (d : Document) : List String :=
  d.entities.filterMap Entity.comment

/-- The comment survives being turned into raw text and back. -/
def LoadSettings.Restores (settings : LoadSettings) (g : String → String)
    (comment : Option String) : Prop :=
  ∀ c ∈ comment, settings.normalize (g c) = c

theorem Method.forall_mem_texts {m : Method} {P : String → Prop} : (∀ t ∈ m.texts, P t) ↔
    P m.name ∧ P m.returnType.text ∧ (∀ a ∈ m.parameters, ∀ t ∈ a.texts, P t) ∧
      ∀ type ∈ m.exceptions, P type.text := by
  rw [Method.texts, List.forall_mem_cons, List.forall_mem_cons, List.forall_mem_append,
    List.forall_mem_flatMap, List.forall_mem_map]

theorem Method.forall_mem_entities {m : Method} {P : Option String → Prop} :
    (∀ e ∈ m.entities, P e.comment) ↔ P m.comment ∧ ∀ a ∈ m.parameters, P a.comment := by
  rw [Method.entities, List.forall_mem_cons, List.forall_mem_map]
  rfl

/-! ## The nodes that are written -/

namespace Node

@[simp] theorem part?_withChildren (n : Node) (ns : List Node) (p : Part) :
    (n.withChildren ns).part? p = n.part? p := rfl

@[simp] theorem part?_withPart (n : Node) (p q : Part) (text : String) :
    (n.withPart p text).part? q = if q = p then some text else n.part? q := by
  rw [withPart, withField, part?, Fields.get?_insert, part?]
  cases p <;> cases q <;> rfl

end Node

theorem Builder.requiredPart_eq_ok {n : Node} {p : Part} {text : String}
    (hn : n.part? p = some text) (ht : Text.Clean text) : requiredPart n p = .ok text := by
  rw [requiredPart, hn, Option.map_some, ht.2]
  exact if_neg ht.1

namespace Sketch

open Builder (requiredPart requiredPart_eq_ok)

variable {settings : LoadSettings} {g : String → String} {closed : List Declaration}
  {documents : Nat} {focus : Focus}

/-- A run through what is written for a list of items, if each item moves on to the next state. -/
theorem run_flatMap {α : Type} {toNodes : α → List Node} (state : List α → Sketch) {xs : List α}
    (h : ∀ done, ∀ x ∈ xs,
      run settings (state done) (Node.eventsOfAll (toNodes x)) = .ok (state (done ++ [x])))
    (done : List α) :
    run settings (state done) (Node.eventsOfAll (xs.flatMap toNodes)) =
      .ok (state (done ++ xs)) := by
  induction xs generalizing done with
  | nil =>
    rw [List.flatMap_nil, List.append_nil, Node.eventsOfAll]
    rfl
  | cons x xs ih =>
    rw [List.flatMap_cons, Node.eventsOfAll_append, run_append_eq_ok]
    refine ⟨_, h done x List.mem_cons_self, ?_⟩
    have := ih (fun done y hy => h done y (List.mem_cons_of_mem _ hy)) (done ++ [x])
    rwa [List.append_assoc, List.singleton_append] at this

/-- A run through a node without children that opens no scope. -/
theorem run_leaf_node {n : Node} {s s' : Sketch} (hc : n.children = [])
    (hn : n.kind.opensScope = false) (h : s.enter settings n = .ok s') :
    run settings s (Node.eventsOfAll [n]) = .ok s' := by
  refine run_node_eq_ok.2 ⟨s', s', h, ?_, exit_other hn⟩
  rw [hc, Node.eventsOfAll]
  rfl

theorem run_commentNodes {comment : Option String}
    (hg : settings.Restores g comment) :
    run settings ⟨closed, focus, none, documents⟩ (Node.eventsOfAll (commentNodes g comment)) =
      .ok ⟨closed, focus, comment, documents⟩ := by
  cases comment with
  | none =>
    rw [commentNodes, Option.toList_none, List.map_nil, Node.eventsOfAll]
    rfl
  | some c =>
    have hk : (Node.commentMultiline (g c)).kind = .commentMultiline := Node.kind_of_rule rfl
    refine run_leaf_node rfl (by rw [hk]; rfl) ?_
    simp only [enter, hk]
    rw [show (Node.commentMultiline (g c)).text = g c from rfl, hg c rfl]

/-- A field with clean parts is added with the waiting comment. -/
theorem run_field {name type : String} {comment : Option String} (hname : Text.Clean name)
    (htype : Text.Clean type) (hf : focus.takesFields) :
    run settings ⟨closed, focus, comment, documents⟩ (Node.eventsOfAll [.field name type]) =
      .ok ⟨closed, focus.addField ⟨name, ⟨type⟩, comment⟩, none, documents⟩ := by
  have hk : (Node.field name type).kind = .field := Node.kind_of_rule rfl
  refine run_leaf_node rfl (by rw [hk]; rfl) ?_
  simp only [enter, hk]
  rw [enterField, if_pos hf, requiredPart_eq_ok (by simp [Node.field]) hname,
    requiredPart_eq_ok (by simp [Node.field]) htype]
  rfl

theorem run_attribute {a : Attribute} (ha : ∀ t ∈ a.texts, Text.Clean t)
    (hg : settings.Restores g a.comment) (hf : focus.takesFields) :
    run settings ⟨closed, focus, none, documents⟩ (Node.eventsOfAll (a.toNodes g)) =
      .ok ⟨closed, focus.addField a, none, documents⟩ := by
  rw [Attribute.toNodes, Node.eventsOfAll_append, run_append_eq_ok]
  refine ⟨_, run_commentNodes hg, ?_⟩
  exact run_field (ha _ (by simp [Attribute.texts])) (ha _ (by simp [Attribute.texts])) hf

theorem run_enumValue {name : String} {comment : Option String} {vs : List String} {v : String}
    (hv : Text.Clean v) :
    run settings ⟨closed, .body ⟨name, comment, .enum vs⟩, none, documents⟩
      (Node.eventsOfAll [.enumValue v]) =
        .ok ⟨closed, .body ⟨name, comment, .enum (vs ++ [v])⟩, none, documents⟩ := by
  have hk : (Node.enumValue v).kind = .enumValue := Node.kind_of_rule rfl
  refine run_leaf_node rfl (by rw [hk]; rfl) ?_
  simp only [enter, hk]
  rw [enterEnumValue, requiredPart_eq_ok (by simp [Node.enumValue]) hv]
  rfl

/-! ## Lists of entries -/

/-- Attributes go to the end of the open list, whichever it is. -/
theorem run_attributes {as : List Attribute} (state : List Attribute → Focus)
    (htakes : ∀ as, (state as).takesFields)
    (hadd : ∀ as a, (state as).addField a = state (as ++ [a]))
    (ha : ∀ a ∈ as, ∀ t ∈ a.texts, Text.Clean t)
    (hg : ∀ a ∈ as, settings.Restores g a.comment) (done : List Attribute) :
    run settings ⟨closed, state done, none, documents⟩
      (Node.eventsOfAll (as.flatMap (·.toNodes g))) =
        .ok ⟨closed, state (done ++ as), none, documents⟩ := by
  refine run_flatMap (fun as => ⟨closed, state as, none, documents⟩) (fun done a h => ?_) done
  rw [run_attribute (ha a h) (hg a h) (htakes done), hadd]

theorem run_enumValues {name : String} {comment : Option String} {vs : List String}
    (hv : ∀ v ∈ vs, Text.Clean v) :
    run settings ⟨closed, .body ⟨name, comment, .enum []⟩, none, documents⟩
      (Node.eventsOfAll (vs.map .enumValue)) =
        .ok ⟨closed, .body ⟨name, comment, .enum vs⟩, none, documents⟩ := by
  rw [List.map_eq_flatMap]
  refine run_flatMap (fun vs => ⟨closed, .body ⟨name, comment, .enum vs⟩, none, documents⟩)
    (fun done v h => ?_) []
  exact run_enumValue (hv v h)

/-! ## Methods -/

/-- The throws list of a method gives its exceptions back. -/
theorem run_throwsNodes {service : String} {comment : Option String} {earlier : List Method}
    {m : Method} (hm : ∀ type ∈ m.exceptions, Text.Clean type.text) :
    run settings
      ⟨closed, .method service comment earlier { m with exceptions := [] } false, none, documents⟩
      (Node.eventsOfAll m.throwsNodes) =
        .ok ⟨closed, .method service comment earlier m (!m.exceptions.isEmpty), none,
          documents⟩ := by
  rw [Method.throwsNodes]
  by_cases he : m.exceptions = []
  · obtain ⟨name, methodComment, returnType, parameters, exceptions⟩ := m
    obtain rfl : exceptions = [] := he
    rw [if_pos rfl, Node.eventsOfAll]
    rfl
  · rw [if_neg he, List.isEmpty_eq_false_iff.2 he]
    generalize hns : (m.exceptions.map fun type => Node.field "e" type.text) = ns
    have hk : (Node.throwsList ns).kind = .throwsList := Node.kind_of_rule rfl
    have h₁ : enter settings ⟨closed, .method service comment earlier { m with exceptions := [] }
        false, none, documents⟩ (.throwsList ns) =
          .ok ⟨closed, .method service comment earlier { m with exceptions := [] } true, none,
            documents⟩ := by
      simp only [enter, hk]
      rfl
    have h₂ : run settings ⟨closed, .method service comment earlier { m with exceptions := [] }
        true, none, documents⟩ (Node.eventsOfAll ns) =
          .ok ⟨closed, .method service comment earlier m true, none, documents⟩ := by
      rw [← hns, List.map_eq_flatMap]
      refine run_flatMap (fun types => ⟨closed,
        .method service comment earlier { m with exceptions := types } true, none, documents⟩)
        (fun done type h => ?_) []
      rw [run_field (by decide) (hm type h) rfl]
      rfl
    exact run_node_eq_ok.2 ⟨_, _, h₁, h₂, exit_other (by rw [hk]; rfl)⟩

theorem run_method_toNodes {service : String} {comment : Option String} {ms : List Method}
    {m : Method} (hm : ∀ t ∈ m.texts, Text.Clean t)
    (hg : ∀ e ∈ m.entities, settings.Restores g e.comment) :
    run settings ⟨closed, .body ⟨service, comment, .service ms⟩, none, documents⟩
      (Node.eventsOfAll (m.toNodes g)) =
        .ok ⟨closed, .body ⟨service, comment, .service (ms ++ [m])⟩, none, documents⟩ := by
  obtain ⟨hname, htype, hparams, hthrown⟩ := Method.forall_mem_texts.1 hm
  obtain ⟨hgm, hga⟩ := Method.forall_mem_entities.1 hg
  rw [Method.toNodes, Node.eventsOfAll_append, run_append_eq_ok]
  refine ⟨_, run_commentNodes hgm, ?_⟩
  generalize hns : m.parameters.flatMap (·.toNodes g) ++ m.throwsNodes = ns
  have hk : (Node.function m.name m.returnType.text ns).kind = .function := Node.kind_of_rule rfl
  have h₁ : enter settings ⟨closed, .body ⟨service, comment, .service ms⟩, m.comment, documents⟩
      (.function m.name m.returnType.text ns) =
        .ok ⟨closed, .method service comment ms { m with parameters := [], exceptions := [] } false,
          none, documents⟩ := by
    simp only [enter, hk]
    rw [enterFunction, requiredPart_eq_ok (by simp [Node.function]) hname]
    show requiredPart _ .functionType >>= _ = _
    rw [requiredPart_eq_ok (by simp [Node.function]) htype]
    rfl
  have h₂ : run settings ⟨closed,
      .method service comment ms { m with parameters := [], exceptions := [] } false, none,
        documents⟩ (Node.eventsOfAll ns) =
          .ok ⟨closed, .method service comment ms m (!m.exceptions.isEmpty), none, documents⟩ := by
    rw [← hns, Node.eventsOfAll_append, run_append_eq_ok]
    refine ⟨_, ?_, run_throwsNodes hthrown⟩
    exact run_attributes
      (fun as => .method service comment ms { m with parameters := as, exceptions := [] } false)
      (fun _ => rfl) (fun _ _ => rfl) hparams hga []
  refine run_node_eq_ok.2 ⟨_, _, h₁, h₂, ?_⟩
  simp only [exit, hk]

/-! ## Declarations -/

theorem run_body_toNodes {name : String} {comment : Option String} {body : Body}
    (hb : ∀ t ∈ body.texts, Text.Clean t)
    (hg : ∀ e ∈ body.entities, settings.Restores g e.comment) :
    run settings ⟨closed, .body (.opened body.kind name comment), none, documents⟩
      (Node.eventsOfAll (body.toNodes g)) =
        .ok ⟨closed, .body ⟨name, comment, body⟩, none, documents⟩ := by
  cases body with
  | «enum» vs => exact run_enumValues hb
  | struct as =>
    have hg : ∀ a ∈ as, settings.Restores g a.comment :=
      fun a ha => hg a.entity (List.mem_map_of_mem ha)
    exact run_attributes (fun as => .body ⟨name, comment, .struct as⟩) (fun _ => rfl)
      (fun _ _ => rfl) (List.forall_mem_flatMap.1 hb) hg []
  | exception as =>
    have hg : ∀ a ∈ as, settings.Restores g a.comment :=
      fun a ha => hg a.entity (List.mem_map_of_mem ha)
    exact run_attributes (fun as => .body ⟨name, comment, .exception as⟩) (fun _ => rfl)
      (fun _ _ => rfl) (List.forall_mem_flatMap.1 hb) hg []
  | service ms =>
    refine run_flatMap (fun ms => ⟨closed, .body ⟨name, comment, .service ms⟩, none, documents⟩)
      (fun done m hm => ?_) []
    exact run_method_toNodes (List.forall_mem_flatMap.1 hb m hm) (List.forall_mem_flatMap.1 hg m hm)

theorem run_declaration_toNodes {d : Declaration} (hd : ∀ t ∈ d.texts, Text.Clean t)
    (hg : ∀ e ∈ d.entities, settings.Restores g e.comment) :
    run settings ⟨closed, .nothing, none, documents⟩ (Node.eventsOfAll (d.toNodes g)) =
      .ok ⟨closed ++ [d], .nothing, none, documents⟩ := by
  obtain ⟨hname, hbody⟩ := List.forall_mem_cons.1 hd
  obtain ⟨hgd, hgb⟩ := List.forall_mem_cons.1 hg
  rw [Declaration.toNodes, Node.eventsOfAll_append, run_append_eq_ok]
  refine ⟨_, run_commentNodes hgd, ?_⟩
  have hk : (Node.declaration d.kind d.name (d.body.toNodes g)).kind = .declaration d.kind :=
    Node.kind_of_rule rfl
  have h₁ : enter settings ⟨closed, .nothing, d.comment, documents⟩
      (.declaration d.kind d.name (d.body.toNodes g)) =
        .ok ⟨closed, .body (.opened d.kind d.name d.comment), none, documents⟩ := by
    simp only [enter, hk]
    rw [enterDeclaration, requiredPart_eq_ok (by simp [Node.declaration]) hname]
    rfl
  refine run_node_eq_ok.2 ⟨_, _, h₁, run_body_toNodes hbody hgb, ?_⟩
  simp only [exit, hk]
  exact if_pos trivial

end Sketch

/-- Loading the tree of a document gives the document back. -/
theorem Document.ofTree_toTree {settings : LoadSettings} {g : String → String} {d : Document}
    (hd : ∀ t ∈ d.texts, Text.Clean t) (hg : ∀ c ∈ d.comments, settings.normalize (g c) = c) :
    Document.ofTree settings d.name (d.toTree g) = .ok d := by
  have hrestores : ∀ e ∈ d.entities, settings.Restores g e.comment := fun e he c hc =>
    hg c (List.mem_filterMap.2 ⟨e, he, hc⟩)
  have hk : (d.toTree g).kind = .document := Node.kind_of_rule rfl
  have h₁ : Sketch.enter settings {} (d.toTree g) = .ok ⟨[], .nothing, none, 1⟩ := by
    simp only [Sketch.enter, hk]
    rfl
  have h₂ : Sketch.run settings ⟨[], .nothing, none, 1⟩ (Node.eventsOfAll (d.toTree g).children) =
      .ok ⟨d.declarations, .nothing, none, 1⟩ := by
    refine Sketch.run_flatMap (fun ds => ⟨ds, .nothing, none, 1⟩) (fun done x hx => ?_) []
    exact Sketch.run_declaration_toNodes (List.forall_mem_flatMap.1 hd x hx)
      (List.forall_mem_flatMap.1 hrestores x hx)
  rw [Document.ofTree_eq_run, bind_eq_ok_iff, ← Node.eventsOfAll_singleton]
  exact ⟨_, Sketch.run_node_eq_ok.2 ⟨_, _, h₁, h₂, Sketch.exit_other (by rw [hk]; rfl)⟩, rfl⟩

/-- A declaration of each kind, some of the entities with a comment. -/
def Document.bank : Document where
  name := "bank"
  declarations := [
    { name := "Currency", comment := some "What counts.", body := .enum ["EUR", "USD"] },
    { name := "Amount", body := .struct [
      { name := "cents", type := ⟨"i64"⟩, comment := some "Never negative." },
      { name := "currency", type := ⟨"Currency"⟩ }] },
    { name := "Refused", body := .exception [{ name := "why", type := ⟨"string"⟩ }] },
    { name := "Bank", comment := some "All of it.", body := .service [
      { name := "pay", comment := some "At once.", returnType := ⟨"void"⟩,
        parameters := [{ name := "amount", type := ⟨"Amount"⟩, comment := some "How much." }],
        exceptions := [⟨"Refused"⟩, ⟨"Closed"⟩] },
      { name := "close", returnType := ⟨"bool"⟩ }] }]

theorem Document.ofTree_toTree_bank :
    let g : String → String := fun c => "/** " ++ c ++ " */"
    (∀ t ∈ bank.texts, Text.Clean t) ∧ (∀ c ∈ bank.comments, Comment.normalize (g c) = c) ∧
      Document.ofTree { strictFields := true } bank.name (bank.toTree g) = .ok bank := by
  intro g
  have hd : ∀ t ∈ bank.texts, Text.Clean t := by decide +kernel
  have hg : ∀ c ∈ bank.comments, Comment.normalize (g c) = c := by decide +kernel
  exact ⟨hd, hg, ofTree_toTree hd hg⟩

end IdlModel
