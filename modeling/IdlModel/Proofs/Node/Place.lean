import IdlModel.Proofs.Node.Preorder

/-!
# Nodes where they stand

The laws of loading speak of the nodes around a node and of what a walk meets before it. A `Place`
is a node together with both: the events before the node is entered, and its ancestors.
`Node.places` are the places of a tree in preorder.

A tree may hold equal nodes, so a node alone does not say which of them is meant. The number of
events before a node is entered, its moment, does (`Node.pairwise_moment_places`), and a `Spot` is
a node with its moment.

* `Node.enter_before`: the events before a place are those the walk begins with;
* `Node.exists_place_of_above`: the ancestors of a place are places of the tree, with ancestors of
  their own that are the rest of the list.
-/

namespace IdlModel

/-- A node and the number of events before a walk enters it. -/
structure Spot where
  moment : Nat
  node : Node

/-- A node, the events before a walk enters it, and its ancestors, the innermost first. -/
structure Place where
  node : Node
  before : List Event
  above : List Spot

namespace NodeKind

/-- Declarations and functions are the scopes of what stands in them. -/
def opensScope : NodeKind → Bool
  | .declaration _ | .function => true
  | _ => false

/-- Is it the kind of some declaration? -/
def isDeclaration (k : NodeKind) : Bool :=
  k.declarationKind?.isSome

theorem declarationKind?_eq_some {k : NodeKind} {d : DeclarationKind} :
    k.declarationKind? = some d ↔ k = .declaration d := by
  cases k <;> simp [declarationKind?]

theorem opensScope_of_isDeclaration {k : NodeKind} (h : k.isDeclaration) : k.opensScope := by
  cases k with
  | declaration k => rfl
  | _ => cases h

theorem isDeclaration_eq_false {k : NodeKind} (h : k.opensScope = false) :
    k.isDeclaration = false := by
  cases k with
  | declaration k => cases h
  | _ => rfl

end NodeKind

/-- The innermost of a number of ancestors that is a declaration or a function. -/
def scopeOf? (above : List Spot) : Option Spot :=
  above.find? (·.node.kind.opensScope)

namespace Place

/-- The kind of the node. -/
def kind (p : Place) : NodeKind :=
  p.node.kind

/-- How many events a walk meets before the node. -/
def moment (p : Place) : Nat :=
  p.before.length

/-- The node with its moment. -/
def spot (p : Place) : Spot :=
  ⟨p.moment, p.node⟩

/-- The innermost ancestor that is a declaration or a function. -/
def scope? (p : Place) : Option Spot :=
  scopeOf? p.above

/-- The kind of the scope. -/
def scopeKind? (p : Place) : Option NodeKind :=
  p.scope?.map (·.node.kind)

end Place

namespace Node

mutual

/-- The places of a tree in preorder, given the events before its root and the ancestors of it. -/
def placesFrom : Node → List Event → List Spot → List Place
  | ⟨rule, text, fields, children⟩, before, above =>
    ⟨⟨rule, text, fields, children⟩, before, above⟩ ::
      placesOfAll children (before ++ [.enter ⟨rule, text, fields, children⟩])
        (⟨before.length, ⟨rule, text, fields, children⟩⟩ :: above)

/-- The places of a number of trees, one after the other. -/
def placesOfAll : List Node → List Event → List Spot → List Place
  | [], _, _ => []
  | n :: ns, before, above =>
    placesFrom n before above ++ placesOfAll ns (before ++ n.events) above

end

/-- The places of a tree in preorder. -/
def places (root : Node) : List Place :=
  root.placesFrom [] []

theorem placesOfAll_cons (n : Node) (ns : List Node) (before : List Event) (above : List Spot) :
    placesOfAll (n :: ns) before above =
      placesOfAll [n] before above ++ placesOfAll ns (before ++ eventsOfAll [n]) above := by
  simp [placesOfAll, eventsOfAll]

theorem placesOfAll_node (n : Node) (before : List Event) (above : List Spot) :
    placesOfAll [n] before above = ⟨n, before, above⟩ ::
      placesOfAll n.children (before ++ [.enter n]) (⟨before.length, n⟩ :: above) := by
  cases n
  rw [placesOfAll, placesOfAll, List.append_nil, placesFrom]

theorem places_eq (root : Node) : root.places = placesOfAll [root] [] [] := by
  rw [places, placesOfAll, placesOfAll, List.append_nil]

/-! ## What is before a place -/

variable {ns : List Node} {before : List Event} {above : List Spot}

/-- The events before a place and its own are those the walk begins with, and the events before
the trees come first. -/
theorem enter_before : ∀ p ∈ placesOfAll ns before above,
    before <+: p.before ∧ p.before ++ [.enter p.node] <+: before ++ eventsOfAll ns := by
  induction ns using forest_induction generalizing before above with
  | nil => intro p hp; rw [placesOfAll] at hp; cases hp
  | cons n ns ihn ih =>
    intro p hp
    rw [placesOfAll_cons, List.mem_append] at hp
    rw [eventsOfAll_cons, ← List.append_assoc]
    rcases hp with hp | hp
    · obtain ⟨h1, h2⟩ := ihn p hp
      exact ⟨h1, h2.trans (List.prefix_append _ _)⟩
    · obtain ⟨h1, h2⟩ := ih p hp
      exact ⟨(List.prefix_append _ _).trans h1, h2⟩
  | node n ih =>
    intro p hp
    rw [placesOfAll_node, List.mem_cons] at hp
    rw [eventsOfAll_node, ← List.append_assoc, ← List.append_assoc]
    rcases hp with rfl | hp
    · refine ⟨List.prefix_rfl, ?_⟩
      rw [List.append_assoc (before ++ _)]
      exact List.prefix_append _ _
    · obtain ⟨h1, h2⟩ := ih p hp
      exact ⟨(List.prefix_append _ _).trans h1, h2.trans (List.prefix_append _ _)⟩

/-- The events in front of trees come first among those before each of their places. -/
theorem exists_append_of_place {es front : List Event} {p : Place}
    (hp : p ∈ placesOfAll ns (before ++ front) above) (hes : p.before = before ++ es) :
    ∃ es', es = front ++ es' ∧ p.before = before ++ front ++ es' := by
  obtain ⟨es', h⟩ := (enter_before p hp).1
  refine ⟨es', ?_, h.symm⟩
  rw [hes, List.append_assoc] at h
  exact (List.append_cancel_left h).symm

/-- The events before a place of a tree and its own are those its walk begins with. -/
theorem enter_before_events (root : Node) :
    ∀ p ∈ root.places, p.before ++ [.enter p.node] <+: root.events := by
  rw [places_eq, ← eventsOfAll_singleton]
  exact fun p hp => (enter_before p hp).2

/-- A node that a walk enters stands at a place, and the events so far are those before it. -/
theorem exists_place_of_enter {es after : List Event} {x : Node}
    (h : eventsOfAll ns = es ++ .enter x :: after) :
    ∃ p ∈ placesOfAll ns before above, p.before = before ++ es ∧ p.node = x := by
  induction ns using forest_induction generalizing before above es after with
  | nil =>
    rw [eventsOfAll] at h
    exact absurd h.symm (by simp)
  | cons n ns ihn ih =>
    rw [eventsOfAll_cons] at h
    rw [placesOfAll_cons]
    rcases append_eq_append_cons h with ⟨rest, hn⟩ | ⟨rest, rfl, hrest⟩
    · obtain ⟨p, hp, hb, hx⟩ := ihn hn
      exact ⟨p, List.mem_append_left _ hp, hb, hx⟩
    · obtain ⟨p, hp, hb, hx⟩ := ih hrest
      exact ⟨p, List.mem_append_right _ hp, by rw [hb, List.append_assoc], hx⟩
  | node n ih =>
    rw [eventsOfAll_node, List.append_assoc, List.singleton_append] at h
    rw [placesOfAll_node]
    cases es with
    | nil =>
      obtain rfl : n = x := Event.enter.inj (List.cons_eq_cons.1 h).1
      exact ⟨_, List.mem_cons_self, (List.append_nil before).symm, rfl⟩
    | cons event es =>
      obtain ⟨rfl, htail⟩ := List.cons_eq_cons.1 h
      rcases append_eq_append_cons htail with ⟨rest, hn⟩ | ⟨rest, -, hrest⟩
      · obtain ⟨p, hp, hb, hx⟩ := ih hn
        refine ⟨p, List.mem_cons_of_mem _ hp, ?_, hx⟩
        rw [hb, List.append_assoc, List.singleton_append]
      · cases rest <;> simp at hrest

theorem exists_place_of_enter_events {root x : Node} {es after : List Event}
    (h : root.events = es ++ .enter x :: after) : ∃ p ∈ root.places, p.before = es ∧ p.node = x := by
  rw [← eventsOfAll_singleton] at h
  rw [places_eq]
  exact exists_place_of_enter h

theorem moment_mem {p : Place} (hp : p ∈ placesOfAll ns before above) :
    before.length ≤ p.moment ∧ p.moment < (before ++ eventsOfAll ns).length := by
  obtain ⟨h1, h2⟩ := enter_before p hp
  have h2 := h2.length_le
  rw [List.length_append, List.length_singleton] at h2
  exact ⟨h1.length_le, by rw [Place.moment]; omega⟩

/-- Places come in the order of their moments, so no two of them have the same one. -/
theorem pairwise_moment_placesOfAll :
    (placesOfAll ns before above).Pairwise (·.moment < ·.moment) := by
  induction ns using forest_induction generalizing before above with
  | nil => rw [placesOfAll]; exact .nil
  | cons n ns ihn ih =>
    rw [placesOfAll_cons]
    refine List.pairwise_append.2 ⟨ihn, ih, fun p hp q hq => ?_⟩
    exact Nat.lt_of_lt_of_le (moment_mem hp).2 (moment_mem hq).1
  | node n ih =>
    rw [placesOfAll_node]
    refine List.pairwise_cons.2 ⟨fun p hp => ?_, ih⟩
    have := (moment_mem hp).1
    rw [List.length_append, List.length_singleton] at this
    exact this

theorem pairwise_moment_places (root : Node) :
    root.places.Pairwise (·.moment < ·.moment) := by
  rw [places_eq]
  exact pairwise_moment_placesOfAll

/-- Of two places the one that comes first is entered before the other. -/
theorem enter_before_of_moment_lt {root : Node} {p q : Place} (hp : p ∈ root.places)
    (hq : q ∈ root.places) (h : p.moment < q.moment) : p.before ++ [.enter p.node] <+: q.before := by
  refine List.prefix_of_prefix_length_le (enter_before_events root p hp)
    ((List.prefix_append _ _).trans (enter_before_events root q hq)) ?_
  rw [List.length_append]
  exact h

/-! ## What is around a place -/

/-- An ancestor of a place, and the rest of its ancestors, are from the outside or a place in the
trees with its ancestors. -/
theorem exists_place_of_above : ∀ p ∈ placesOfAll ns before above,
    ∀ inner a outer, p.above = inner ++ a :: outer →
      a :: outer <:+ above ∨
        ∃ q ∈ placesOfAll ns before above, q.spot = a ∧ q.above = outer := by
  induction ns using forest_induction generalizing before above with
  | nil => intro p hp; rw [placesOfAll] at hp; cases hp
  | cons n ns ihn ih =>
    intro p hp inner a outer ha
    rw [placesOfAll_cons] at hp ⊢
    rcases List.mem_append.1 hp with hp | hp
    · refine (ihn p hp inner a outer ha).imp_right fun ⟨q, hq, h⟩ => ⟨q, ?_, h⟩
      exact List.mem_append_left _ hq
    · refine (ih p hp inner a outer ha).imp_right fun ⟨q, hq, h⟩ => ⟨q, ?_, h⟩
      exact List.mem_append_right _ hq
  | node n ih =>
    intro p hp inner a outer ha
    rw [placesOfAll_node] at hp ⊢
    rcases List.mem_cons.1 hp with rfl | hp
    · exact Or.inl ⟨inner, ha.symm⟩
    · rcases ih p hp inner a outer ha with h | ⟨q, hq, h⟩
      · rcases List.suffix_cons_iff.1 h with h | h
        · obtain ⟨rfl, rfl⟩ := List.cons_eq_cons.1 h
          exact Or.inr ⟨_, List.mem_cons_self, rfl, rfl⟩
        · exact Or.inl h
      · exact Or.inr ⟨q, List.mem_cons_of_mem _ hq, h⟩

/-- An ancestor of a place of a tree, as a place itself. -/
theorem exists_place_of_mem_above {root : Node} {p : Place} (hp : p ∈ root.places) {a : Spot}
    (ha : a ∈ p.above) : ∃ q ∈ root.places, q.spot = a ∧ ∀ b ∈ q.above, b ∈ p.above := by
  rw [places_eq] at hp ⊢
  obtain ⟨inner, outer, h⟩ := List.append_of_mem ha
  rcases exists_place_of_above p hp inner a outer h with hs | ⟨q, hq, hqa, hqo⟩
  · exact absurd (List.eq_nil_of_suffix_nil hs) (List.cons_ne_nil _ _)
  · refine ⟨q, hq, hqa, fun b hb => ?_⟩
    rw [h, ← hqo]
    exact List.mem_append_right _ (List.mem_cons_of_mem _ hb)

end Node

end IdlModel
