import IdlModel.Proofs.Load.Site
import IdlModel.Proofs.Load.Step

/-!
# The document of a tree, read off the tree

`Node.extract` is the document of a tree but for its comments, written down without a walk: every
declaration is made from the nodes of its own subtree, in preorder. Loading gives this document.

A run goes through three kinds of regions. In an enum, a struct, an exception or a method no scope
opens, and the run folds `Focus.note` over the nodes (`Runs.leaf`). In the body of a service each
function is such a region of its own (`Runs.service`). Outside of declarations each declaration is
one of these two (`Runs.outside`).
-/

namespace IdlModel

/-! ## Documents without comments -/

def Attribute.uncommented (a : Attribute) : Attribute :=
  { a with comment := none }

def Method.uncommented (m : Method) : Method :=
  { m with comment := none, parameters := m.parameters.map Attribute.uncommented }

def Body.uncommented : Body → Body
  | .enum vs => .enum vs
  | .struct as => .struct (as.map Attribute.uncommented)
  | .exception as => .exception (as.map Attribute.uncommented)
  | .service ms => .service (ms.map Method.uncommented)

def Declaration.uncommented (d : Declaration) : Declaration :=
  { d with comment := none, body := d.body.uncommented }

/-- The document without any comment. -/
def Document.uncommented (d : Document) : Document :=
  { d with declarations := d.declarations.map Declaration.uncommented }

/-! ## The document of a tree -/

/-- The nodes of a kind, in order. -/
def NodeKind.among (k : NodeKind) (ns : List Node) : List Node :=
  ns.filter (·.kind == k)

namespace Node

/-- The attribute that a field makes. -/
def toAttribute (n : Node) : Attribute where
  name := n.trimmedPart .identifier
  type := ⟨n.trimmedPart .fieldType⟩

/-- The method that a function makes: the fields before its throws list are its parameters, and
the types of those in or behind it are its exceptions. -/
def toMethod (n : Node) : Method where
  name := n.trimmedPart .identifier
  returnType := ⟨n.trimmedPart .functionType⟩
  parameters :=
    (NodeKind.field.among (n.preorder.takeWhile (·.kind != .throwsList))).map toAttribute
  exceptions :=
    (NodeKind.field.among (n.preorder.dropWhile (·.kind != .throwsList))).map (·.toAttribute.type)

/-- The body that a declaration of a kind makes of its nodes. -/
def bodyOf (ns : List Node) : DeclarationKind → Body
  | .enum => .enum ((NodeKind.enumValue.among ns).map (trimmedPart · .identifier))
  | .struct => .struct ((NodeKind.field.among ns).map toAttribute)
  | .exception => .exception ((NodeKind.field.among ns).map toAttribute)
  | .service => .service ((NodeKind.function.among ns).map toMethod)

/-- The declaration that a node makes, if it is one. -/
def toDeclaration? (n : Node) : Option Declaration :=
  n.kind.declarationKind?.map fun k =>
    { name := n.trimmedPart .identifier, body := bodyOf n.preorder k }

/-- The document of a tree, its comments aside. -/
def extract (root : Node) (name : String) : Document where
  name
  declarations := root.preorder.filterMap toDeclaration?

end Node

/-! ## What a node adds that opens no scope -/

namespace Focus

/-- What is open, without comments. -/
def uncommented : Focus → Focus
  | .nothing => .nothing
  | .body d => .body d.uncommented
  | .method service _ earlier m thrown =>
    .method service none (earlier.map Method.uncommented) m.uncommented thrown

/-- Is it an enum, a struct, an exception or a method? -/
def isLeaf : Focus → Bool
  | .nothing => false
  | .body d => d.kind != .service
  | .method .. => true

/-- What is open after a value of an enum. -/
def addValue : Focus → String → Focus
  | .body ⟨name, comment, .enum vs⟩, v => .body ⟨name, comment, .enum (vs ++ [v])⟩
  | f, _ => f

/-- What is open from a throws list on. -/
def throwing : Focus → Focus
  | .method service comment earlier m _ => .method service comment earlier m true
  | f => f

/-- What is open after a node that opens no scope. -/
def note (f : Focus) (n : Node) : Focus :=
  match n.kind with
  | .enumValue => f.addValue (n.trimmedPart .identifier)
  | .field => f.addField n.toAttribute
  | .throwsList => f.throwing
  | _ => f

theorem uncommented_addField (f : Focus) (a : Attribute) :
    (f.addField a).uncommented = f.uncommented.addField a.uncommented := by
  cases f using by_kind <;>
    simp [addField, uncommented, Declaration.uncommented, Body.uncommented, Method.uncommented,
      Method.addParameter, Method.addThrown, Attribute.uncommented]

theorem isLeaf_note (f : Focus) (n : Node) : (f.note n).isLeaf = f.isLeaf := by
  rw [note]
  cases f using by_kind <;> cases n.kind <;> rfl

theorem isLeaf_foldl_note {f : Focus} (h : f.isLeaf) (ns : List Node) :
    (ns.foldl note f).isLeaf := by
  induction ns generalizing f with
  | nil => exact h
  | cons n ns ih => exact ih (by rw [isLeaf_note]; exact h)

/-- Outside of declarations, and in a service, such a node adds nothing. -/
theorem note_of_not_isLeaf {f : Focus} (h : f.isLeaf = false) (n : Node) : f.note n = f := by
  rw [note]
  cases f using by_kind with
  | nothing => cases n.kind <;> rfl
  | service name comment ms => cases n.kind <;> rfl
  | _ => cases h

end Focus

namespace Sketch

variable {settings : LoadSettings} {s s' : Sketch}

theorem enter_note {n : Node} (hn : n.kind.opensScope = false)
    (h : s.enter settings n = .ok s') :
    s'.closed = s.closed ∧ s'.focus.uncommented = s.focus.uncommented.note n := by
  rw [Focus.note]
  cases entered_of_eq_ok h with
  | declaration hk hf => rw [hk] at hn; cases hn
  | function hk hf => rw [hk] at hn; cases hn
  | document hk => rw [hk]; exact ⟨rfl, rfl⟩
  | enumValue hk hf => rw [hk, hf]; exact ⟨rfl, rfl⟩
  | field hk => rw [hk]; exact ⟨rfl, Focus.uncommented_addField _ _⟩
  | throwsList hk hf => rw [hk, hf]; exact ⟨rfl, rfl⟩
  | comment hk => rw [hk]; exact ⟨rfl, rfl⟩
  | passed hk => rcases hk with hk | hk <;> rw [hk] <;> exact ⟨rfl, rfl⟩

/-! ## Nodes that open a scope -/

theorem enter_declaration {n : Node} {k : DeclarationKind} (hn : n.kind = .declaration k)
    (h : s.enter settings n = .ok s') :
    s.focus.uncommented = .nothing ∧ s'.closed = s.closed ∧
      s'.focus.uncommented = .body ⟨n.trimmedPart .identifier, none, .empty k⟩ := by
  simp only [enter, hn] at h
  obtain ⟨hf, rfl⟩ := enterDeclaration_eq_ok h
  rw [hf]
  exact ⟨rfl, rfl, by cases k <;> rfl⟩

theorem enter_function {n : Node} (hn : n.kind = .function) (h : s.enter settings n = .ok s') :
    ∃ service ms, s.focus.uncommented = .body ⟨service, none, .service ms⟩ ∧
      s'.closed = s.closed ∧
      s'.focus.uncommented = .method service none ms
        { name := n.trimmedPart .identifier, returnType := ⟨n.trimmedPart .functionType⟩ }
        false := by
  simp only [enter, hn] at h
  obtain ⟨service, comment, ms, hf, rfl⟩ := enterFunction_eq_ok h
  rw [hf]
  exact ⟨service, _, rfl, rfl, rfl⟩

theorem exit_declaration_uncommented {n : Node} {k : DeclarationKind} {d : Declaration}
    (hn : n.kind = .declaration k) (hs : s.focus.uncommented = .body d) (h : s.exit n = .ok s') :
    s'.focus.uncommented = .nothing ∧
      s'.closed.map Declaration.uncommented = s.closed.map Declaration.uncommented ++ [d] := by
  obtain ⟨d', hf, rfl⟩ := exit_declaration_eq_ok hn h
  rw [hf] at hs
  rw [List.map_append, List.map_singleton, Focus.body.inj hs]
  exact ⟨rfl, rfl⟩

theorem exit_function_uncommented {n : Node} {service : String} {ms : List Method} {m : Method}
    {thrown : Bool} (hn : n.kind = .function)
    (hs : s.focus.uncommented = .method service none ms m thrown) (h : s.exit n = .ok s') :
    s'.closed = s.closed ∧
      s'.focus.uncommented = .body ⟨service, none, .service (ms ++ [m])⟩ := by
  obtain ⟨service', comment, ms', m', thrown', hf, rfl⟩ := exit_function_eq_ok hn h
  rw [hf] at hs
  obtain ⟨rfl, -, rfl, rfl, -⟩ := Focus.method.inj hs
  exact ⟨rfl, by simp [Focus.uncommented, Declaration.uncommented, Body.uncommented]⟩

/-- In an enum, a struct, an exception or a method no scope opens. -/
theorem opensScope_of_isLeaf {n : Node} (hs : s.focus.uncommented.isLeaf)
    (h : s.enter settings n = .ok s') : n.kind.opensScope = false := by
  cases hk : n.kind with
  | declaration k =>
    rw [(enter_declaration hk h).1] at hs
    cases hs
  | function =>
    obtain ⟨service, ms, hf, -⟩ := enter_function hk h
    rw [hf] at hs
    cases hs
  | _ => rfl

/-- A run through trees in such a place. -/
theorem Runs.leaf {ns : List Node} (h : Runs settings s ns s')
    (hs : s.focus.uncommented.isLeaf) :
    (∀ n ∈ Node.preorderOfAll ns, n.kind.opensScope = false) ∧ s'.closed = s.closed ∧
      s'.focus.uncommented = (Node.preorderOfAll ns).foldl Focus.note s.focus.uncommented := by
  induction h with
  | nil =>
    rw [Node.preorderOfAll]
    exact ⟨List.forall_mem_nil _, rfl, rfl⟩
  | cons _ _ ihn ih =>
    obtain ⟨hk₁, hc₁, hu₁⟩ := ihn hs
    obtain ⟨hk₂, hc₂, hu₂⟩ := ih (by rw [hu₁]; exact Focus.isLeaf_foldl_note hs _)
    rw [Node.preorderOfAll_cons, List.foldl_append, ← hu₁]
    exact ⟨List.forall_mem_append.2 ⟨hk₁, hk₂⟩, hc₂.trans hc₁, hu₂⟩
  | node he _ hx ih =>
    have hk := opensScope_of_isLeaf hs he
    obtain ⟨hc₁, hu₁⟩ := enter_note hk he
    obtain ⟨hks, hc₂, hu₂⟩ := ih (by rw [hu₁, Focus.isLeaf_note]; exact hs)
    rw [exit_other hk] at hx
    obtain rfl := Except.ok.inj hx
    rw [Node.preorderOfAll_node, List.foldl_cons, ← hu₁]
    exact ⟨List.forall_mem_cons.2 ⟨hk, hks⟩, hc₂.trans hc₁, hu₂⟩

end Sketch

/-! ## What such nodes come to -/

theorem NodeKind.among_cons_of_ne {k : NodeKind} {n : Node} (h : n.kind ≠ k) (ns : List Node) :
    k.among (n :: ns) = k.among ns := by
  rw [among, List.filter_cons_of_neg (by simpa using h), among]

theorem NodeKind.among_cons_of_eq {k : NodeKind} {n : Node} (h : n.kind = k) (ns : List Node) :
    k.among (n :: ns) = n :: k.among ns := by
  rw [among, List.filter_cons_of_pos (by simpa using h), among]

namespace Focus

open NodeKind (among among_cons_of_ne among_cons_of_eq)

/-- A list that grows by what every node of one kind is made into. -/
theorem foldl_note_of_grows {α : Type} (make : List α → Focus) (k : NodeKind) (g : Node → α)
    (grows : ∀ xs n, (make xs).note n = make (if n.kind = k then xs ++ [g n] else xs))
    (ns : List Node) (xs : List α) :
    ns.foldl note (make xs) = make (xs ++ (k.among ns).map g) := by
  induction ns generalizing xs with
  | nil => simp [among]
  | cons n ns ih =>
    rw [List.foldl_cons, grows, ih]
    by_cases h : n.kind = k
    · rw [if_pos h, among_cons_of_eq h, List.map_cons, List.append_assoc, List.singleton_append]
    · rw [if_neg h, among_cons_of_ne h]

theorem foldl_note_enum (name : String) (ns : List Node) (vs : List String) :
    ns.foldl note (.body ⟨name, none, .enum vs⟩) = .body ⟨name, none,
      .enum (vs ++ (NodeKind.enumValue.among ns).map (Node.trimmedPart · .identifier))⟩ := by
  refine foldl_note_of_grows (fun vs => .body ⟨name, none, .enum vs⟩) .enumValue _
    (fun vs n => ?_) ns vs
  rw [note]
  cases n.kind <;> rfl

theorem foldl_note_struct (name : String) (ns : List Node) (as : List Attribute) :
    ns.foldl note (.body ⟨name, none, .struct as⟩) = .body ⟨name, none,
      .struct (as ++ (NodeKind.field.among ns).map Node.toAttribute)⟩ := by
  refine foldl_note_of_grows (fun as => .body ⟨name, none, .struct as⟩) .field _
    (fun as n => ?_) ns as
  rw [note]
  cases n.kind <;> rfl

theorem foldl_note_exception (name : String) (ns : List Node) (as : List Attribute) :
    ns.foldl note (.body ⟨name, none, .exception as⟩) = .body ⟨name, none,
      .exception (as ++ (NodeKind.field.among ns).map Node.toAttribute)⟩ := by
  refine foldl_note_of_grows (fun as => .body ⟨name, none, .exception as⟩) .field _
    (fun as n => ?_) ns as
  rw [note]
  cases n.kind <;> rfl

theorem foldl_note_throws (service : String) (ms : List Method) (m : Method) (ns : List Node) :
    ns.foldl note (.method service none ms m true) = .method service none ms
      { m with exceptions := m.exceptions ++ (NodeKind.field.among ns).map (·.toAttribute.type) }
      true := by
  refine foldl_note_of_grows
    (fun types => .method service none ms { m with exceptions := types } true) .field _
    (fun types n => ?_) ns m.exceptions
  rw [note]
  cases n.kind <;> rfl

/-- The fields up to a throws list are parameters, and the types of those behind it exceptions. -/
theorem foldl_note_parameters (service : String) (ms : List Method) (m : Method)
    (ns : List Node) :
    ns.foldl note (.method service none ms m false) = .method service none ms
      { m with
        parameters := m.parameters ++
          (NodeKind.field.among (ns.takeWhile (·.kind != .throwsList))).map Node.toAttribute
        exceptions := m.exceptions ++
          (NodeKind.field.among (ns.dropWhile (·.kind != .throwsList))).map (·.toAttribute.type) }
      (ns.any (·.kind == .throwsList)) := by
  induction ns generalizing m with
  | nil => simp [among]
  | cons n ns ih =>
    rw [List.foldl_cons, note]
    by_cases ht : n.kind = .throwsList
    · simp only [ht]
      rw [List.takeWhile_cons_of_neg (by simp [ht]), List.dropWhile_cons_of_neg (by simp [ht]),
        List.any_cons, ht, among_cons_of_ne (by rw [ht]; nofun)]
      show ns.foldl note (.method service none ms m true) = _
      rw [foldl_note_throws]
      simp [among]
    · rw [List.takeWhile_cons_of_pos (by simp [ht]), List.dropWhile_cons_of_pos (by simp [ht]),
        List.any_cons, beq_eq_false_iff_ne.2 ht, Bool.false_or]
      by_cases hf : n.kind = .field
      · simp only [hf]
        rw [among_cons_of_eq hf, List.map_cons, ← List.singleton_append, ← List.append_assoc]
        exact ih (m.addParameter n.toAttribute)
      · rw [among_cons_of_ne hf, ← ih m]
        congr 1
        cases hk : n.kind with
        | field => exact absurd hk hf
        | throwsList => exact absurd hk ht
        | _ => rfl

end Focus

namespace Sketch

open NodeKind (among among_cons_of_ne among_cons_of_eq)

variable {settings : LoadSettings} {s s' : Sketch}

/-- A run through a function adds its method to the open service. -/
theorem Runs.function {n : Node} {s₁ s₂ : Sketch} (hn : n.kind = .function)
    (he : s.enter settings n = .ok s₁) (h : Runs settings s₁ n.children s₂)
    (hx : s₂.exit n = .ok s') :
    (∀ x ∈ Node.preorderOfAll n.children, x.kind.opensScope = false) ∧ s'.closed = s.closed ∧
      ∃ service ms, s.focus.uncommented = .body ⟨service, none, .service ms⟩ ∧
        s'.focus.uncommented = .body ⟨service, none, .service (ms ++ [n.toMethod])⟩ := by
  obtain ⟨service, ms, hs, hc₁, hu₁⟩ := enter_function hn he
  obtain ⟨hks, hc₂, hu₂⟩ := h.leaf (by rw [hu₁]; rfl)
  rw [hu₁, Focus.foldl_note_parameters] at hu₂
  obtain ⟨hc₃, hu₃⟩ := exit_function_uncommented hn hu₂ hx
  refine ⟨hks, hc₃.trans (hc₂.trans hc₁), service, ms, hs, ?_⟩
  rw [hu₃, Node.toMethod, Node.preorder_eq, Node.preorderOfAll_node,
    List.takeWhile_cons_of_pos (by simp [hn]), List.dropWhile_cons_of_pos (by simp [hn]),
    among_cons_of_ne (by rw [hn]; nofun)]
  rfl

/-- A run through trees in a service adds the methods of their functions to it. -/
theorem Runs.service {ns : List Node} {service : String} {ms : List Method}
    (h : Runs settings s ns s') (hs : s.focus.uncommented = .body ⟨service, none, .service ms⟩) :
    (∀ n ∈ Node.preorderOfAll ns, n.kind.isDeclaration = false) ∧ s'.closed = s.closed ∧
      s'.focus.uncommented = .body ⟨service, none, .service
        (ms ++ (NodeKind.function.among (Node.preorderOfAll ns)).map Node.toMethod)⟩ := by
  induction h generalizing ms with
  | nil =>
    rw [Node.preorderOfAll]
    exact ⟨List.forall_mem_nil _, rfl, by simpa [among] using hs⟩
  | cons _ _ ihn ih =>
    obtain ⟨hk₁, hc₁, hu₁⟩ := ihn hs
    obtain ⟨hk₂, hc₂, hu₂⟩ := ih hu₁
    rw [Node.preorderOfAll_cons, among, List.filter_append, List.map_append, ← List.append_assoc]
    exact ⟨List.forall_mem_append.2 ⟨hk₁, hk₂⟩, hc₂.trans hc₁, hu₂⟩
  | @node s s₁ s₂ s' n he h hx ih =>
    rw [Node.preorderOfAll_node, List.forall_mem_cons]
    by_cases hf : n.kind = .function
    · obtain ⟨hks, hc, service', ms', hs', hu⟩ := Runs.function hf he h hx
      obtain ⟨rfl, rfl⟩ : service = service' ∧ ms = ms' := by simpa using hs.symm.trans hs'
      have hnone : NodeKind.function.among (Node.preorderOfAll n.children) = [] := by
        refine List.filter_eq_nil_iff.2 fun x hx hk => ?_
        have := hks x hx
        rw [eq_of_beq hk] at this
        cases this
      rw [among_cons_of_eq hf, hu, List.map_cons, hnone]
      exact ⟨⟨by rw [hf]; rfl, fun x hx => NodeKind.isDeclaration_eq_false (hks x hx)⟩, hc, rfl⟩
    · have hk : n.kind.opensScope = false := by
        cases hk : n.kind with
        | declaration k =>
          have := (enter_declaration hk he).1
          rw [hs] at this
          cases this
        | function => exact absurd hk hf
        | _ => rfl
      obtain ⟨hc₁, hu₁⟩ := enter_note hk he
      rw [hs, Focus.note_of_not_isLeaf rfl] at hu₁
      obtain ⟨hks, hc₂, hu₂⟩ := ih hu₁
      rw [exit_other hk] at hx
      obtain rfl := Except.ok.inj hx
      rw [among_cons_of_ne hf]
      exact ⟨⟨NodeKind.isDeclaration_eq_false hk, hks⟩, hc₂.trans hc₁, hu₂⟩

/-- A run through trees in a declaration that holds nothing yet makes its body of their nodes. -/
theorem Runs.body {ns : List Node} {name : String} {k : DeclarationKind}
    (h : Runs settings s ns s') (hs : s.focus.uncommented = .body ⟨name, none, .empty k⟩) :
    (∀ n ∈ Node.preorderOfAll ns, n.kind.isDeclaration = false) ∧ s'.closed = s.closed ∧
      s'.focus.uncommented = .body ⟨name, none, Node.bodyOf (Node.preorderOfAll ns) k⟩ := by
  by_cases hk : k = .service
  · subst hk
    exact h.service hs
  · have hleaf : s.focus.uncommented.isLeaf := by
      rw [hs]
      simpa [Focus.isLeaf, Declaration.kind] using hk
    obtain ⟨hks, hc, hu⟩ := h.leaf hleaf
    refine ⟨fun n hn => NodeKind.isDeclaration_eq_false (hks n hn), hc, ?_⟩
    rw [hu, hs]
    cases k with
    | «enum» => exact Focus.foldl_note_enum name _ []
    | struct => exact Focus.foldl_note_struct name _ []
    | exception => exact Focus.foldl_note_exception name _ []
    | service => exact absurd rfl hk

/-- A run through a declaration adds it to the document. -/
theorem Runs.declaration {n : Node} {s₁ s₂ : Sketch} {k : DeclarationKind}
    (hn : n.kind = .declaration k) (he : s.enter settings n = .ok s₁)
    (h : Runs settings s₁ n.children s₂) (hx : s₂.exit n = .ok s') :
    (∀ x ∈ Node.preorderOfAll n.children, x.kind.isDeclaration = false) ∧
      s'.focus.uncommented = .nothing ∧
      s'.closed.map Declaration.uncommented = s.closed.map Declaration.uncommented ++
        [{ name := n.trimmedPart .identifier, body := Node.bodyOf n.preorder k }] := by
  obtain ⟨-, hc₁, hu₁⟩ := enter_declaration hn he
  obtain ⟨hks, hc₂, hu₂⟩ := h.body hu₁
  obtain ⟨hu₃, hc₃⟩ := exit_declaration_uncommented hn hu₂ hx
  have hbody : Node.bodyOf n.preorder k = Node.bodyOf (Node.preorderOfAll n.children) k := by
    rw [Node.preorder_eq, Node.preorderOfAll_node]
    cases k <;>
    · rw [Node.bodyOf, Node.bodyOf, among_cons_of_ne]
      rw [hn]
      nofun
  exact ⟨hks, hu₃, by rw [hc₃, hc₂, hc₁, hbody]⟩

/-- A run through trees outside of declarations adds their declarations to the document. -/
theorem Runs.outside {ns : List Node} (h : Runs settings s ns s')
    (hs : s.focus.uncommented = .nothing) :
    s'.focus.uncommented = .nothing ∧
      s'.closed.map Declaration.uncommented = s.closed.map Declaration.uncommented ++
        (Node.preorderOfAll ns).filterMap Node.toDeclaration? := by
  induction h with
  | nil =>
    rw [Node.preorderOfAll, List.filterMap_nil, List.append_nil]
    exact ⟨hs, rfl⟩
  | cons _ _ ihn ih =>
    obtain ⟨hu₁, hc₁⟩ := ihn hs
    obtain ⟨hu₂, hc₂⟩ := ih hu₁
    rw [Node.preorderOfAll_cons, List.filterMap_append, ← List.append_assoc, ← hc₁]
    exact ⟨hu₂, hc₂⟩
  | @node s s₁ s₂ s' n he h hx ih =>
    rw [Node.preorderOfAll_node, List.filterMap_cons, Node.toDeclaration?]
    cases hd : n.kind.declarationKind? with
    | some k =>
      have hn : n.kind = .declaration k := NodeKind.declarationKind?_eq_some.1 hd
      obtain ⟨hks, hu, hc⟩ := Runs.declaration hn he h hx
      have hnone : (Node.preorderOfAll n.children).filterMap Node.toDeclaration? = [] := by
        refine List.filterMap_eq_nil_iff.2 fun x hx => ?_
        have := hks x hx
        rw [NodeKind.isDeclaration, Option.isSome_eq_false_iff, Option.isNone_iff_eq_none] at this
        rw [Node.toDeclaration?, this, Option.map_none]
      rw [hnone]
      exact ⟨hu, hc⟩
    | none =>
      have hk : n.kind.opensScope = false := by
        cases hk : n.kind with
        | declaration k => rw [hk] at hd; cases hd
        | function =>
          obtain ⟨service, ms, hf, -⟩ := enter_function hk he
          rw [hs] at hf
          cases hf
        | _ => rfl
      obtain ⟨hc₁, hu₁⟩ := enter_note hk he
      rw [hs, Focus.note_of_not_isLeaf rfl] at hu₁
      rw [exit_other hk] at hx
      obtain rfl := Except.ok.inj hx
      rw [← hc₁]
      exact ih hu₁

end Sketch

/-- A tree that loads gives the document that is read off it, comments aside. -/
theorem Document.uncommented_eq_extract {settings : LoadSettings} {name : String} {root : Node}
    {d : Document} (h : Document.ofTree settings name root = .ok d) :
    d.uncommented = root.extract name := by
  obtain ⟨s, hs, -, rfl⟩ := Document.runs_of_ofTree h
  obtain ⟨-, hc⟩ := hs.outside rfl
  rw [Node.extract, Node.preorder_eq, uncommented, hc]
  rfl

/-- Fields in a field, and a wrapped function with fields before, in and behind a wrapped throws
list; two fields stand where nothing takes them. -/
def Node.tangled : Node :=
  document [
    field "stray" "i8",
    declaration .struct "Point" [
      commentMultiline "/** Across. */",
      (field " x " "i32").push (field "y" "i32")],
    declaration .service "Shop" [
      field "stray" "i8",
      (ofKind .other).push (function "buy" "void" [
        field "what" "Item",
        (ofKind .other).push (throwsList [field "e" "SoldOut"]),
        field "f" "Closed"])]]

theorem Document.uncommented_eq_extract_tangled :
    let d : Document := {
      name := "shop"
      declarations := [
        { name := "Point", body := .struct [
          { name := "x", type := ⟨"i32"⟩, comment := some "Across." },
          { name := "y", type := ⟨"i32"⟩ }] },
        { name := "Shop", body := .service [
          { name := "buy", returnType := ⟨"void"⟩,
            parameters := [{ name := "what", type := ⟨"Item"⟩ }],
            exceptions := [⟨"SoldOut"⟩, ⟨"Closed"⟩] }] }] }
    Document.ofTree {} "shop" Node.tangled = .ok d ∧
      d.uncommented = Node.tangled.extract "shop" := by
  intro d
  have h : Document.ofTree {} "shop" Node.tangled = .ok d := by decide +kernel
  exact ⟨h, uncommented_eq_extract h⟩

end IdlModel
