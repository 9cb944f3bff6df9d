import IdlModel.Node.Walk

/-!
# Trees side by side

`Node.preorder` lists the nodes of a tree, a node before its children. Laws of trees are stated of
a number of trees that stand side by side, and hold of one tree as a case of that; the induction
they go by is `Node.forest_induction`.
-/

namespace IdlModel

namespace Node

mutual

/-- The nodes of a tree in preorder. -/
def preorder : Node → List Node
  | ⟨rule, text, fields, children⟩ => ⟨rule, text, fields, children⟩ :: preorderOfAll children

/-- The nodes of a number of trees in preorder. -/
def preorderOfAll : List Node → List Node
  | [] => []
  | n :: ns => preorder n ++ preorderOfAll ns

end

/-- Induction on trees that stand side by side: from one tree to the next, and from the children of
a node to the node. -/
@[elab_as_elim]
theorem forest_induction {P : List Node → Prop} (nil : P [])
    (cons : ∀ n ns, P [n] → P ns → P (n :: ns)) (node : ∀ n, P n.children → P [n]) :
    ∀ ns, P ns
  | [] => nil
  | ⟨rule, text, fields, children⟩ :: ns =>
    cons _ ns (node _ (forest_induction nil cons node children))
      (forest_induction nil cons node ns)

theorem eventsOfAll_cons (n : Node) (ns : List Node) :
    eventsOfAll (n :: ns) = eventsOfAll [n] ++ eventsOfAll ns := by
  simp [eventsOfAll]

theorem eventsOfAll_node (n : Node) :
    eventsOfAll [n] = [.enter n] ++ eventsOfAll n.children ++ [.exit n] := by
  rw [eventsOfAll, eventsOfAll, List.append_nil, events_eq, List.append_assoc,
    List.singleton_append]

theorem eventsOfAll_singleton (n : Node) : eventsOfAll [n] = n.events := by
  rw [eventsOfAll, eventsOfAll, List.append_nil]

theorem eventsOfAll_append (ns ms : List Node) :
    eventsOfAll (ns ++ ms) = eventsOfAll ns ++ eventsOfAll ms := by
  simp [eventsOfAll_eq]

/-- An element of two lists in a row is one of the first or one of the second. -/
theorem append_eq_append_cons {α : Type} {xs ys before after : List α} {a : α}
    (h : xs ++ ys = before ++ a :: after) :
    (∃ rest, xs = before ++ a :: rest) ∨ ∃ rest, before = xs ++ rest ∧ ys = rest ++ a :: after := by
  rcases List.append_eq_append_iff.1 h with ⟨rest, hb, hy⟩ | ⟨rest, hx, ha⟩
  · exact Or.inr ⟨rest, hb, hy⟩
  · cases rest with
    | nil => exact Or.inr ⟨[], by simpa using hx.symm, ha.symm⟩
    | cons b rest =>
      obtain ⟨rfl, -⟩ := List.cons_eq_cons.1 ha
      exact Or.inl ⟨rest, hx⟩

theorem preorderOfAll_cons (n : Node) (ns : List Node) :
    preorderOfAll (n :: ns) = preorderOfAll [n] ++ preorderOfAll ns := by
  simp [preorderOfAll]

theorem preorderOfAll_node (n : Node) : preorderOfAll [n] = n :: preorderOfAll n.children := by
  cases n
  rw [preorderOfAll, preorderOfAll, List.append_nil, preorder]

theorem preorder_eq (n : Node) : n.preorder = preorderOfAll [n] := by
  rw [preorderOfAll, preorderOfAll, List.append_nil]

end Node

end IdlModel
