import IdlModel.Except
import IdlModel.Proofs.Load.Sketch
import IdlModel.Proofs.Node.Place

/-!
# Steps that are not refused

For each kind of step what the sketch was like before, and what it is like after, if the step is not
refused. Later proofs take steps apart with these lemmas and do not unfold them: `Entered` and
`Exited` have one case for each way not to be refused, and the lemmas `*_eq_ok` speak of one kind of
node.
-/

namespace IdlModel

open Builder (requiredPart requiredPart_bind_eq_ok)

instance decidableEqOk {ε α : Type} [DecidableEq α] (x : Except ε α) (a : α) :
    Decidable (x = .ok a) :=
  match x with
  | .ok b => decidable_of_iff (b = a) ⟨congrArg _, Except.ok.inj⟩
  | .error _ => isFalse nofun

instance decidableEqError {ε α : Type} [DecidableEq ε] (x : Except ε α) (e : ε) :
    Decidable (x = .error e) :=
  match x with
  | .ok _ => isFalse nofun
  | .error e' => decidable_of_iff (e' = e) ⟨congrArg _, Except.error.inj⟩

theorem Focus.addField_of_takesFields_eq_false {f : Focus} (h : f.takesFields = false)
    (a : Attribute) : f.addField a = f := by
  cases f using by_kind with
  | nothing => rfl
  | «enum» name comment vs => rfl
  | service name comment ms => rfl
  | _ => cases h

namespace Sketch

variable {settings : LoadSettings} {s s' : Sketch} {n : Node}

theorem run_append_eq_ok {es es' : List Event} : run settings s (es ++ es') = .ok s' ↔
    ∃ s₁, run settings s es = .ok s₁ ∧ run settings s₁ es' = .ok s' := by
  rw [run_append, bind_eq_ok_iff]

/-- A run through one tree: in at the root, through its children, and out again. -/
theorem run_node_eq_ok : run settings s (Node.eventsOfAll [n]) = .ok s' ↔
    ∃ s₁ s₂, s.enter settings n = .ok s₁ ∧
      run settings s₁ (Node.eventsOfAll n.children) = .ok s₂ ∧ s₂.exit n = .ok s' := by
  rw [Node.eventsOfAll_node, run_append_eq_ok]
  constructor
  · rintro ⟨s₂, h, h₂⟩
    obtain ⟨s₁, h₁, h⟩ := run_append_eq_ok.1 h
    rw [run_singleton] at h₁ h₂
    exact ⟨s₁, s₂, h₁, h, h₂⟩
  · rintro ⟨s₁, s₂, h₁, h, h₂⟩
    refine ⟨s₂, run_append_eq_ok.2 ⟨s₁, ?_, h⟩, ?_⟩ <;> rw [run_singleton]
    · exact h₁
    · exact h₂

/-! ## Entering -/

theorem enterDeclaration_eq_ok {k : DeclarationKind} (h : s.enterDeclaration k n = .ok s') :
    s.focus = .nothing ∧
      s' = { s with
        focus := .body (.opened k (n.trimmedPart .identifier) s.pending)
        pending := none } := by
  rw [enterDeclaration, requiredPart_bind_eq_ok] at h
  obtain ⟨closed, focus, pending, documents⟩ := s
  cases focus with
  | nothing => exact ⟨rfl, (Except.ok.inj h.2).symm⟩
  | _ => cases h.2

theorem enterEnumValue_eq_ok (h : s.enterEnumValue n = .ok s') :
    ∃ name comment vs, s.focus = .body ⟨name, comment, .enum vs⟩ ∧
      s' = { s with
        focus := .body ⟨name, comment, .enum (vs ++ [n.trimmedPart .identifier])⟩ } := by
  rw [enterEnumValue, requiredPart_bind_eq_ok] at h
  obtain ⟨closed, focus, pending, documents⟩ := s
  cases focus using Focus.by_kind with
  | «enum» name comment vs => exact ⟨name, comment, vs, rfl, (Except.ok.inj h.2).symm⟩
  | _ => cases h.2

/-- The attribute that a field makes, with the comment that waits. -/
def attributeOf (s : Sketch) (n : Node) : Attribute where
  name := n.trimmedPart .identifier
  type := ⟨n.trimmedPart .fieldType⟩
  comment := s.pending

theorem enterField_eq_ok (h : s.enterField settings n = .ok s') :
    s' = { s with focus := s.focus.addField (s.attributeOf n), pending := none } := by
  rw [enterField] at h
  cases hf : s.focus.takesFields with
  | true =>
    rw [if_pos hf, requiredPart_bind_eq_ok, requiredPart_bind_eq_ok] at h
    exact (Except.ok.inj h.2.2).symm
  | false =>
    rw [hf, if_neg Bool.false_ne_true] at h
    rw [Focus.addField_of_takesFields_eq_false hf]
    split at h
    · rw [requiredPart_bind_eq_ok] at h
      cases h.2
    · exact (Except.ok.inj h).symm

theorem enterFunction_eq_ok (h : s.enterFunction n = .ok s') :
    ∃ service comment ms, s.focus = .body ⟨service, comment, .service ms⟩ ∧
      s' = { s with
        focus := .method service comment ms
          { name := n.trimmedPart .identifier, comment := s.pending,
            returnType := ⟨n.trimmedPart .functionType⟩ } false
        pending := none } := by
  rw [enterFunction, requiredPart_bind_eq_ok] at h
  obtain ⟨closed, focus, pending, documents⟩ := s
  cases focus using Focus.by_kind with
  | service service comment ms =>
    have h := (requiredPart_bind_eq_ok.1 h.2).2
    exact ⟨service, comment, ms, rfl, (Except.ok.inj h).symm⟩
  | _ => cases h.2

theorem enterThrows_eq_ok (h : s.enterThrows = .ok s') :
    ∃ service comment earlier m, s.focus = .method service comment earlier m false ∧
      s' = { s with focus := .method service comment earlier m true } := by
  obtain ⟨closed, focus, pending, documents⟩ := s
  cases focus using Focus.by_kind with
  | parameters service comment earlier m =>
    exact ⟨service, comment, earlier, m, rfl, (Except.ok.inj h).symm⟩
  | _ => cases h

/-- What entering a node makes of a sketch, one case for each way not to be refused. -/
inductive Entered (settings : LoadSettings) (s : Sketch) (n : Node) : Sketch → Prop where
  | document (hn : n.kind = .document) : Entered settings s n { s with documents := 1 }
  | declaration {k : DeclarationKind} (hn : n.kind = .declaration k) (hf : s.focus = .nothing) :
    Entered settings s n { s with
      focus := .body (.opened k (n.trimmedPart .identifier) s.pending)
      pending := none }
  | enumValue {name : String} {comment : Option String} {vs : List String}
    (hn : n.kind = .enumValue) (hf : s.focus = .body ⟨name, comment, .enum vs⟩) :
    Entered settings s n { s with
      focus := .body ⟨name, comment, .enum (vs ++ [n.trimmedPart .identifier])⟩ }
  | field (hn : n.kind = .field) :
    Entered settings s n { s with
      focus := s.focus.addField (s.attributeOf n)
      pending := none }
  | function {service : String} {comment : Option String} {ms : List Method}
    (hn : n.kind = .function) (hf : s.focus = .body ⟨service, comment, .service ms⟩) :
    Entered settings s n { s with
      focus := .method service comment ms
        { name := n.trimmedPart .identifier, comment := s.pending,
          returnType := ⟨n.trimmedPart .functionType⟩ } false
      pending := none }
  | throwsList {service : String} {comment : Option String} {earlier : List Method} {m : Method}
    (hn : n.kind = .throwsList) (hf : s.focus = .method service comment earlier m false) :
    Entered settings s n { s with focus := .method service comment earlier m true }
  | comment (hn : n.kind = .commentMultiline) :
    Entered settings s n { s with pending := some (settings.normalize n.text) }
  | passed (hn : n.kind = .commentSingleline ∨ n.kind = .other) : Entered settings s n s

theorem entered_of_eq_ok (h : s.enter settings n = .ok s') : Entered settings s n s' := by
  rw [enter] at h
  cases hk : n.kind with
  | document =>
    simp only [hk] at h
    split at h
    · exact Except.ok.inj h ▸ .document hk
    · cases h
  | declaration k =>
    simp only [hk] at h
    obtain ⟨hf, rfl⟩ := enterDeclaration_eq_ok h
    exact .declaration hk hf
  | enumValue =>
    simp only [hk] at h
    obtain ⟨name, comment, vs, hf, rfl⟩ := enterEnumValue_eq_ok h
    exact .enumValue hk hf
  | field =>
    simp only [hk] at h
    obtain rfl := enterField_eq_ok h
    exact .field hk
  | function =>
    simp only [hk] at h
    obtain ⟨service, comment, ms, hf, rfl⟩ := enterFunction_eq_ok h
    exact .function hk hf
  | throwsList =>
    simp only [hk] at h
    obtain ⟨service, comment, earlier, m, hf, rfl⟩ := enterThrows_eq_ok h
    exact .throwsList hk hf
  | commentMultiline =>
    simp only [hk] at h
    exact Except.ok.inj h ▸ .comment hk
  | commentSingleline =>
    simp only [hk] at h
    exact Except.ok.inj h ▸ .passed (.inl hk)
  | other =>
    simp only [hk] at h
    exact Except.ok.inj h ▸ .passed (.inr hk)

/-! ## Exiting -/

theorem exit_declaration_eq_ok {k : DeclarationKind} (hn : n.kind = .declaration k)
    (h : s.exit n = .ok s') :
    ∃ d, s.focus = .body d ∧
      s' = { s with closed := s.closed ++ [d], focus := .nothing, pending := none } := by
  obtain ⟨closed, focus, pending, documents⟩ := s
  simp only [exit, hn] at h
  cases focus with
  | body d =>
    simp only at h
    split at h
    · exact ⟨d, rfl, (Except.ok.inj h).symm⟩
    · cases h
  | _ => cases h

theorem exit_function_eq_ok (hn : n.kind = .function) (h : s.exit n = .ok s') :
    ∃ service comment earlier m thrown, s.focus = .method service comment earlier m thrown ∧
      s' = { s with
        focus := .body ⟨service, comment, .service (earlier ++ [m])⟩
        pending := none } := by
  obtain ⟨closed, focus, pending, documents⟩ := s
  simp only [exit, hn] at h
  cases focus with
  | method service comment earlier m thrown =>
    exact ⟨service, comment, earlier, m, thrown, rfl, (Except.ok.inj h).symm⟩
  | _ => cases h

/-- The exit of a node that opens no scope is never refused, and changes nothing. -/
theorem exit_other (hn : n.kind.opensScope = false) : s.exit n = .ok s := by
  rw [exit]
  cases h : n.kind with
  | declaration k => rw [h] at hn; cases hn
  | function => rw [h] at hn; cases hn
  | _ => rfl

/-- What exiting a node makes of a sketch, one case for each way not to be refused. -/
inductive Exited (s : Sketch) (n : Node) : Sketch → Prop where
  | declaration {k : DeclarationKind} {d : Declaration} (hn : n.kind = .declaration k)
    (hf : s.focus = .body d) :
    Exited s n { s with closed := s.closed ++ [d], focus := .nothing, pending := none }
  | function {service : String} {comment : Option String} {earlier : List Method} {m : Method}
    {thrown : Bool} (hn : n.kind = .function)
    (hf : s.focus = .method service comment earlier m thrown) :
    Exited s n { s with
      focus := .body ⟨service, comment, .service (earlier ++ [m])⟩
      pending := none }
  | other (hn : n.kind.opensScope = false) : Exited s n s

theorem exited_of_eq_ok (h : s.exit n = .ok s') : Exited s n s' := by
  cases hk : n.kind with
  | declaration k =>
    obtain ⟨d, hf, rfl⟩ := exit_declaration_eq_ok hk h
    exact .declaration hk hf
  | function =>
    obtain ⟨service, comment, earlier, m, thrown, hf, rfl⟩ := exit_function_eq_ok hk h
    exact .function hk hf
  | _ =>
    have hn : n.kind.opensScope = false := by rw [hk]; rfl
    rw [exit_other hn] at h
    exact Except.ok.inj h ▸ .other hn

/-! ## Whole runs -/

/-- A run through trees side by side that is not refused, in at each node and out again behind its
children. Laws of runs go by induction on it. -/
inductive Runs (settings : LoadSettings) : Sketch → List Node → Sketch → Prop where
  | nil {s : Sketch} : Runs settings s [] s
  | cons {s s₁ s' : Sketch} {n : Node} {ns : List Node} (first : Runs settings s [n] s₁)
    (rest : Runs settings s₁ ns s') : Runs settings s (n :: ns) s'
  | node {s s₁ s₂ s' : Sketch} {n : Node} (enter : s.enter settings n = .ok s₁)
    (children : Runs settings s₁ n.children s₂) (exit : s₂.exit n = .ok s') :
    Runs settings s [n] s'

theorem runs_of_eq_ok {ns : List Node} (h : run settings s (Node.eventsOfAll ns) = .ok s') :
    Runs settings s ns s' := by
  induction ns using Node.forest_induction generalizing s s' with
  | nil =>
    rw [Node.eventsOfAll, run_nil] at h
    exact Except.ok.inj h ▸ .nil
  | cons n ns ihn ih =>
    rw [Node.eventsOfAll_cons, run_append_eq_ok] at h
    obtain ⟨s₁, h₁, h₂⟩ := h
    exact .cons (ihn h₁) (ih h₂)
  | node n ih =>
    obtain ⟨s₁, s₂, h₁, h₂, h₃⟩ := run_node_eq_ok.1 h
    exact .node h₁ (ih h₂) h₃

/-! ## Finishing -/

theorem finish_eq_ok {name : String} {d : Document} (h : s.finish name = .ok d) :
    s.focus = .nothing ∧ d = { name, declarations := s.closed } := by
  rw [finish] at h
  split at h
  · cases h
  · obtain ⟨closed, focus, pending, documents⟩ := s
    cases focus with
    | nothing => exact ⟨rfl, (Except.ok.inj h).symm⟩
    | _ => cases h

end Sketch

/-- Loading that is not refused is a run from the empty sketch to one where nothing is open. -/
theorem Document.runs_of_ofTree {settings : LoadSettings} {name : String} {root : Node}
    {d : Document} (h : Document.ofTree settings name root = .ok d) :
    ∃ s, Sketch.Runs settings {} [root] s ∧ s.focus = .nothing ∧
      d = { name, declarations := s.closed } := by
  rw [Document.ofTree_eq_run, bind_eq_ok_iff, ← Node.eventsOfAll_singleton] at h
  obtain ⟨s, hs, hfin⟩ := h
  exact ⟨s, Sketch.runs_of_eq_ok hs, Sketch.finish_eq_ok hfin⟩

end IdlModel
