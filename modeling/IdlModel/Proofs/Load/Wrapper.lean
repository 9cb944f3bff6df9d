import IdlModel.Proofs.Load.Step

/-!
# What loading does not look at

Wrappers are walked through: a wrapper changes nothing at its beginning or its end, so the document
is the same if its children stand in its place. Of the other nodes loading reads the kind and the
three parts, and the text of comments that may document something; all else may be different.

`Unwraps` relates trees that differ in such ways only, anywhere and in any number of places. A run
through the one is a run through the other (`Sketch.run_unwraps`).
-/

namespace IdlModel

/-- The kinds of nodes that are walked through. -/
def NodeKind.isWrapper : NodeKind → Bool
  | .commentSingleline | .other => true
  | _ => false

theorem NodeKind.opensScope_of_isWrapper {k : NodeKind} (h : k.isWrapper) :
    k.opensScope = false := by
  cases k with
  | declaration k => cases h
  | function => cases h
  | _ => rfl

/-- Loading makes no difference between the nodes, their children aside: the texts may differ, but
for comments that may document something, and so may all named fields that are no parts. -/
structure Node.Matches (n m : Node) : Prop where
  kind : m.kind = n.kind
  part : ∀ p, m.part? p = n.part? p
  text : n.kind = .commentMultiline → m.text = n.text

namespace Node

theorem Matches.refl (n : Node) : n.Matches n :=
  ⟨rfl, fun _ => rfl, fun _ => rfl⟩

theorem Matches.symm {n m : Node} (h : n.Matches m) : m.Matches n :=
  ⟨h.kind.symm, fun p => (h.part p).symm, fun hm => (h.text (h.kind.symm.trans hm)).symm⟩

theorem Matches.trans {n m l : Node} (h : n.Matches m) (h' : m.Matches l) : n.Matches l :=
  ⟨h'.kind.trans h.kind, fun p => (h'.part p).trans (h.part p),
    fun hn => (h'.text (h.kind.trans hn)).trans (h.text hn)⟩

theorem Matches.withChildren (n : Node) (ns ms : List Node) :
    (n.withChildren ns).Matches (n.withChildren ms) :=
  ⟨rfl, fun _ => rfl, fun _ => rfl⟩

/-- The text may be another, unless it is that of a comment that may document something. -/
theorem matches_withText {n : Node} (h : n.kind ≠ .commentMultiline) (text : String) :
    n.Matches (n.withText text) :=
  ⟨rfl, fun _ => rfl, fun hn => absurd hn h⟩

/-- A named field that is no part may be added or changed. -/
theorem matches_withField (n : Node) {name : String} (h : ∀ p : Part, p.name ≠ name)
    (text : String) : n.Matches (n.withField name text) :=
  ⟨rfl, fun p => by rw [withField, part?, Fields.get?_insert, if_neg (h p), part?], fun _ => rfl⟩

end Node

/-- Trees and what they are with some of the wrappers in them replaced by their children, and every
other node by one that matches it. -/
inductive Unwraps : List Node → List Node → Prop where
  | nil : Unwraps [] []
  | keep {n m : Node} {ns ms : List Node} (same : n.Matches m)
    (children : Unwraps n.children m.children) (rest : Unwraps ns ms) : Unwraps (n :: ns) (m :: ms)
  | unwrap {n : Node} {ns cs ms : List Node} (wrapper : n.kind.isWrapper)
    (children : Unwraps n.children cs) (rest : Unwraps ns ms) : Unwraps (n :: ns) (cs ++ ms)

namespace Unwraps

theorem append {ns ms ns' ms' : List Node} (h : Unwraps ns ms) (h' : Unwraps ns' ms') :
    Unwraps (ns ++ ns') (ms ++ ms') := by
  induction h with
  | nil => exact h'
  | keep same children _ _ ih => exact .keep same children ih
  | unwrap wrapper children _ _ ih =>
    rw [List.append_assoc]
    exact .unwrap wrapper children ih

theorem refl (ns : List Node) : Unwraps ns ns := by
  induction ns using Node.forest_induction with
  | nil => exact .nil
  | cons n ns ihn ih => exact ihn.append ih
  | node n ih => exact .keep (.refl n) ih .nil

end Unwraps

namespace Sketch

variable {settings : LoadSettings} {s : Sketch} {n m : Node}

theorem requiredPart_of_matches (h : n.Matches m) (p : Part) :
    Builder.requiredPart m p = Builder.requiredPart n p := by
  rw [Builder.requiredPart, Builder.requiredPart, h.kind, h.part]

theorem enter_of_matches (h : n.Matches m) : s.enter settings m = s.enter settings n := by
  have hp := requiredPart_of_matches h
  rw [enter, enter, h.kind]
  cases hn : n.kind with
  | declaration k => simp only [enterDeclaration, hp]
  | enumValue => simp only [enterEnumValue, hp]
  | field => simp only [enterField, hp]
  | function => simp only [enterFunction, hp]
  | commentMultiline => simp only [h.text hn]
  | _ => rfl

theorem exit_of_matches (h : n.Matches m) : s.exit m = s.exit n := by
  rw [exit, exit, h.kind]

theorem enter_wrapper (h : n.kind.isWrapper) : s.enter settings n = .ok s := by
  rw [enter]
  cases hn : n.kind with
  | commentSingleline => rfl
  | other => rfl
  | _ => rw [hn] at h; cases h

/-- A run goes in at a node, through its children, out again, and on. -/
theorem run_eventsOfAll_cons (s : Sketch) (n : Node) (ns : List Node) :
    run settings s (Node.eventsOfAll (n :: ns)) =
      s.enter settings n >>= fun s₁ => run settings s₁ (Node.eventsOfAll n.children) >>= fun s₂ =>
        s₂.exit n >>= fun s₃ => run settings s₃ (Node.eventsOfAll ns) := by
  rw [Node.eventsOfAll_cons, Node.eventsOfAll_node, List.append_assoc, List.append_assoc,
    List.singleton_append, run_cons]
  refine bind_congr fun s₁ => ?_
  rw [run_append]
  refine bind_congr fun s₂ => ?_
  rw [List.singleton_append, run_cons]
  rfl

/-- A run does not see which wrappers there are. -/
theorem run_unwraps {ns ms : List Node} (h : Unwraps ns ms) (s : Sketch) :
    run settings s (Node.eventsOfAll ms) = run settings s (Node.eventsOfAll ns) := by
  induction h generalizing s with
  | nil => rfl
  | @keep n m ns ms same _ _ ihc ih =>
    rw [run_eventsOfAll_cons, run_eventsOfAll_cons, enter_of_matches same]
    refine bind_congr fun s₁ => ?_
    rw [ihc]
    refine bind_congr fun s₂ => ?_
    rw [exit_of_matches same]
    exact bind_congr fun s₃ => ih s₃
  | @unwrap n ns cs ms wrapper _ _ ihc ih =>
    rw [Node.eventsOfAll_append, run_append, ihc, run_eventsOfAll_cons, enter_wrapper wrapper]
    refine bind_congr fun s₂ => ?_
    rw [exit_other (NodeKind.opensScope_of_isWrapper wrapper)]
    exact ih s₂

end Sketch

/-- Loading does not see wrappers: any number of them, at any depth, may be replaced by their
children. Nor does it see texts that are not those of comments that may document something, or named
fields that are no parts. The result is the same, a document or an error. The root may be unwrapped
like any other node, as long as one tree is left. -/
theorem Document.ofTree_unwraps {root root' : Node} (h : Unwraps [root] [root'])
    (settings : LoadSettings) (name : String) :
    Document.ofTree settings name root' = Document.ofTree settings name root := by
  rw [ofTree_eq_run, ofTree_eq_run, ← Node.eventsOfAll_singleton, ← Node.eventsOfAll_singleton,
    Sketch.run_unwraps h]

/-- A field as a parser may hand it over, with its source text and line. -/
def Node.sourceField : Node :=
  ((field "a" "i32").withText "1: i32 a").withField "line" "4"

/-- Wrappers in one another, and a single-line comment. -/
def Node.wrappedPair : Node :=
  document [
    (ofKind .other).withChildren [
      commentSingleline "// Pairs.",
      commentMultiline "/** A pair. */",
      (ofKind .other).push (declaration .struct "Pair" [(ofKind .other).push sourceField])]]

/-- The same without most of this; one wrapper is left. -/
def Node.barePair : Node :=
  document [
    commentMultiline "/** A pair. */",
    declaration .struct "Pair" [(ofKind .other).push (field "a" "i32")]]

theorem Document.ofTree_unwraps_pair :
    Unwraps [Node.wrappedPair] [Node.barePair] ∧
      Document.ofTree {} "pair" Node.barePair = Document.ofTree {} "pair" Node.wrappedPair := by
  have hfield : Node.sourceField.Matches (.field "a" "i32") := by
    refine ((Node.matches_withText ?_ _).trans (Node.matches_withField _ ?_ _)).symm
    · decide +kernel
    · intro p
      cases p <;> decide
  have hfields : Unwraps [(Node.ofKind .other).push .sourceField]
      [(Node.ofKind .other).push (.field "a" "i32")] :=
    .keep (.withChildren _ _ _) (.keep hfield .nil .nil) .nil
  have hpair : Unwraps
      [Node.declaration .struct "Pair" [(Node.ofKind .other).push .sourceField]]
      [Node.declaration .struct "Pair" [(Node.ofKind .other).push (.field "a" "i32")]] :=
    .keep (.withChildren _ _ _) hfields .nil
  have hcomment := Unwraps.refl [.commentMultiline "/** A pair. */"]
  have hroot : Unwraps Node.wrappedPair.children (([] ++ ([.commentMultiline "/** A pair. */"] ++
      ([Node.declaration .struct "Pair" [(Node.ofKind .other).push (.field "a" "i32")]] ++ []))) ++
      []) :=
    .unwrap rfl (.unwrap rfl .nil (hcomment.append (.unwrap rfl hpair .nil))) .nil
  have h : Unwraps [Node.wrappedPair] [Node.barePair] :=
    .keep (.withChildren _ _ _) hroot .nil
  exact ⟨h, ofTree_unwraps h {} "pair"⟩

end IdlModel
