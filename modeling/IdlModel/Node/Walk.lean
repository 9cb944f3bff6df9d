import IdlModel.Node.Basic

/-!
# Walking a syntax tree

A walk enters every node before its children and exits it after them. `Node.walk` carries the
events out one by one in any monad, so a visitor that fails stops the walk where it stands;
`Node.events` is the list of all of them. `Node.walk_eq_forM_events` says that walking a tree is
going through that list.
-/

namespace IdlModel

/-- What a walk meets: the beginning or the end of a node. -/
inductive Event where
  | enter (node : Node)
  | exit (node : Node)

namespace Event

/-- The node that is entered or exited. -/
def node : Event → Node
  | .enter n => n
  | .exit n => n

/-- A plus or minus sign for entering or exiting, and the rule of the node. -/
def label : Event → String
  | .enter n => "+" ++ n.rule
  | .exit n => "-" ++ n.rule

end Event

namespace Node

mutual

/-- The events of a walk through a tree, in order. -/
def events : Node → List Event
  | ⟨rule, text, fields, children⟩ =>
    .enter ⟨rule, text, fields, children⟩ ::
      (eventsOfAll children ++ [.exit ⟨rule, text, fields, children⟩])

/-- The events of the walks through a number of trees, one after the other. -/
def eventsOfAll : List Node → List Event
  | [] => []
  | n :: ns => events n ++ eventsOfAll ns

end

section Visiting

variable {m : Type → Type} [Monad m]

mutual

/-- Walk through a tree with a visitor that is shown every event. -/
def walk (visit : Event → m Unit) : Node → m Unit
  | ⟨rule, text, fields, children⟩ => do
    visit (.enter ⟨rule, text, fields, children⟩)
    walkAll visit children
    visit (.exit ⟨rule, text, fields, children⟩)

/-- Walk through a number of trees, one after the other. -/
def walkAll (visit : Event → m Unit) : List Node → m Unit
  | [] => pure ()
  | n :: ns => do
    walk visit n
    walkAll visit ns

end

end Visiting

theorem events_eq (n : Node) :
    n.events = .enter n :: (eventsOfAll n.children ++ [.exit n]) := by
  cases n
  rw [events]

theorem eventsOfAll_eq (ns : List Node) : eventsOfAll ns = ns.flatMap events := by
  induction ns with
  | nil => rw [eventsOfAll, List.flatMap_nil]
  | cons n ns ih => rw [eventsOfAll, List.flatMap_cons, ih]

section Lawful

variable {m : Type → Type} [Monad m] [LawfulMonad m]

mutual

/-- Walking a tree is going through its events. -/
theorem walk_eq_forM_events (visit : Event → m Unit) (n : Node) :
    walk visit n = n.events.forM visit := by
  obtain ⟨rule, text, fields, children⟩ := n
  rw [walk, events, walkAll_eq_forM_events visit children]
  simp

theorem walkAll_eq_forM_events (visit : Event → m Unit) (ns : List Node) :
    walkAll visit ns = (eventsOfAll ns).forM visit := by
  cases ns with
  | nil => simp [walkAll, eventsOfAll]
  | cons n ns =>
    rw [walkAll, eventsOfAll, walk_eq_forM_events visit n, walkAll_eq_forM_events visit ns]
    simp

end

end Lawful

end Node

end IdlModel
