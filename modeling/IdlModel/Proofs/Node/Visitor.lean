import IdlModel.Proofs.Node.Place

/-!
# What a visitor is shown

A walk shows a visitor the events of a tree one by one and stops at the first that fails. Told
without the recursion of the walk, this is going through the list of the events (`Visitor.Gets`): to
its end, or as far as the first event that fails, the state being carried on from each event to the
next. A visitor that writes down what it is shown (`Visitor.recording`) makes the list that it has
seen a part of the result, so `Visitor.run_walk` says of every walk what was shown, what came out of
it, and in which state it ends.

A walk that does not fail shows all events of the tree. `Node.Traversed` says what is special about
these: they are bracketed, and each node has one beginning and one end among them.
-/

namespace IdlModel

/-- Something that is shown events, keeps a state, and may fail with what it has made of it. -/
abbrev Visitor (ε σ : Type) := Event → EStateM ε σ Unit

/-! ## Going through a list of events -/

namespace Visitor

variable {ε σ : Type} {visit : Visitor ε σ} {s : σ} {event : Event} {events : List Event}

/-- The answer to an event, and the state behind it. -/
def react (visit : Visitor ε σ) (s : σ) (event : Event) : Except ε Unit × σ :=
  match (visit event).run s with
  | .ok _ s' => (.ok (), s')
  | .error e s' => (.error e, s')

/-- The state behind a number of events, whatever fails among them. -/
def after (visit : Visitor ε σ) (s : σ) (events : List Event) : σ :=
  events.foldl (fun s event => (visit.react s event).2) s

/-- No event fails in the state behind those before it. -/
def Passes (visit : Visitor ε σ) (s : σ) (events : List Event) : Prop :=
  ∀ before event later, events = before ++ event :: later →
    (visit.react (visit.after s before) event).1 = .ok ()

/-- How far a visitor gets in a list of events, and with what outcome: to its end, or as far as the
first event that fails. -/
inductive Gets (visit : Visitor ε σ) (s : σ) (events : List Event) :
    List Event → Except ε Unit → Prop where
  | all (passes : visit.Passes s events) : Gets visit s events events (.ok ())
  | upTo {before later : List Event} {event : Event} {e : ε}
    (split : events = before ++ event :: later) (passes : visit.Passes s before)
    (fails : (visit.react (visit.after s before) event).1 = .error e) :
    Gets visit s events (before ++ [event]) (.error e)

/-- An outcome together with the state in which it comes. -/
def result (outcome : Except ε Unit) (s : σ) : EStateM.Result ε σ Unit :=
  match outcome with
  | .ok _ => .ok () s
  | .error e => .error e s

/-- The visitor that writes down what it is shown, besides. -/
def recording (visit : Visitor ε σ) : Visitor ε (σ × List Event) := fun event (s, shown) =>
  let (outcome, s') := visit.react s event
  result outcome (s', shown ++ [event])

theorem run_eq_result (visit : Visitor ε σ) (s : σ) (event : Event) :
    (visit event).run s = result (visit.react s event).1 (visit.react s event).2 := by
  rw [react]
  cases (visit event).run s <;> rfl

theorem passes_nil (visit : Visitor ε σ) (s : σ) : visit.Passes s [] := by
  intro before event later h
  simp at h

theorem Passes.cons (hevent : (visit.react s event).1 = .ok ())
    (h : visit.Passes (visit.react s event).2 events) : visit.Passes s (event :: events) := by
  intro before event' later hsplit
  cases before with
  | nil =>
    obtain ⟨rfl, -⟩ := List.cons_eq_cons.1 hsplit
    exact hevent
  | cons first before =>
    obtain ⟨rfl, hevents⟩ := List.cons_eq_cons.1 hsplit
    exact h before event' later hevents

theorem Gets.cons {shown : List Event} {outcome : Except ε Unit}
    (hevent : (visit.react s event).1 = .ok ())
    (h : visit.Gets (visit.react s event).2 events shown outcome) :
    visit.Gets s (event :: events) (event :: shown) outcome := by
  cases h with
  | all passes => exact .all (passes.cons hevent)
  | @upTo before later event' e split passes fails =>
    have hsplit : event :: events = (event :: before) ++ event' :: later := by
      rw [split, List.cons_append]
    exact .upTo hsplit (passes.cons hevent) fails

/-- A visitor that goes through a list of events gets so far, with this outcome, and ends in the
state behind what it was shown. -/
theorem run_forM (visit : Visitor ε σ) (s : σ) (events : List Event) :
    ∃ shown outcome, visit.Gets s events shown outcome ∧
      (events.forM visit).run s = result outcome (visit.after s shown) ∧
      ∀ earlier, (events.forM visit.recording).run (s, earlier) =
        result outcome (visit.after s shown, earlier ++ shown) := by
  induction events generalizing s with
  | nil =>
    refine ⟨[], .ok (), .all (passes_nil visit s), rfl, fun earlier => ?_⟩
    rw [List.append_nil]
    rfl
  | cons event events ih =>
    simp only [List.forM_eq_forM, List.forM_cons, EStateM.run_bind, run_eq_result visit s event]
    have hrecording (earlier : List Event) : (visit.recording event).run (s, earlier) =
        result (visit.react s event).1 ((visit.react s event).2, earlier ++ [event]) := rfl
    simp only [hrecording]
    cases hevent : (visit.react s event).1 with
    | error e =>
      exact ⟨[event], .error e, .upTo rfl (passes_nil visit s) hevent, rfl, fun earlier => rfl⟩
    | ok u =>
      obtain ⟨shown, outcome, hgets, hrun, hrecord⟩ := ih (visit.react s event).2
      refine ⟨event :: shown, outcome, .cons hevent hgets, hrun, fun earlier => ?_⟩
      have := hrecord (earlier ++ [event])
      rwa [List.append_assoc, List.singleton_append] at this

/-- A walk through a tree is going through its events. -/
theorem run_walk (visit : Visitor ε σ) (s : σ) (root : Node) :
    ∃ shown outcome, visit.Gets s root.events shown outcome ∧
      (root.walk visit).run s = result outcome (visit.after s shown) ∧
      (root.walk visit.recording).run (s, []) = result outcome (visit.after s shown, shown) := by
  obtain ⟨shown, outcome, hgets, hrun, hrecord⟩ := visit.run_forM s root.events
  refine ⟨shown, outcome, hgets, ?_, ?_⟩
  · rw [Node.walk_eq_forM_events]
    exact hrun
  · rw [Node.walk_eq_forM_events]
    exact hrecord []

theorem Gets.eq_of_ok {shown : List Event} {outcome : Except ε Unit}
    (h : visit.Gets s events shown outcome) (ho : outcome = .ok ()) : shown = events := by
  cases h with
  | all passes => rfl
  | upTo split passes fails => cases ho

end Visitor

/-! ## The events of a tree -/

/-- Every beginning has its end behind it, with nothing but bracketed events between them. -/
inductive Bracketed : List Event → Prop where
  | nil : Bracketed []
  | node (n : Node) {inner later : List Event} (inside : Bracketed inner)
    (behind : Bracketed later) : Bracketed (.enter n :: (inner ++ .exit n :: later))

theorem Bracketed.append {es es' : List Event} (h : Bracketed es) (h' : Bracketed es') :
    Bracketed (es ++ es') := by
  induction h with
  | nil => exact h'
  | node n inside behind _ ih =>
    rw [List.cons_append, List.append_assoc, List.cons_append]
    exact .node n inside ih

namespace Event

/-- The node that begins with the event, if one does. -/
def entered? : Event → Option Node
  | .enter n => some n
  | .exit _ => none

/-- The node that ends with the event, if one does. -/
def exited? : Event → Option Node
  | .enter _ => none
  | .exit n => some n

end Event

/-- What a number of events show of nodes, each with the number of events before it, if there were
some events before the first of them. -/
def spotsFrom (shows : Event → Option Node) (moment : Nat) (es : List Event) : List Spot :=
  (es.zipIdx moment).filterMap fun (event, m) => (shows event).map fun n => ⟨m, n⟩

theorem spotsFrom_append (shows : Event → Option Node) (moment : Nat) (es es' : List Event) :
    spotsFrom shows moment (es ++ es') =
      spotsFrom shows moment es ++ spotsFrom shows (moment + es.length) es' := by
  rw [spotsFrom, List.zipIdx_append, List.filterMap_append]
  rfl

theorem spotsFrom_node (shows : Event → Option Node) (moment : Nat) (n : Node) :
    spotsFrom shows moment (Node.eventsOfAll [n]) =
      spotsFrom shows moment [.enter n] ++
        spotsFrom shows (moment + 1) (Node.eventsOfAll n.children) ++
        spotsFrom shows (moment + (Node.eventsOfAll n.children).length + 1) [.exit n] := by
  rw [Node.eventsOfAll_node, spotsFrom_append, spotsFrom_append, List.length_append,
    List.length_singleton, Nat.add_assoc moment, Nat.add_comm 1]

/-- The node of a place with the number of events before its end. -/
def Place.ending (p : Place) : Spot :=
  ⟨p.moment + (Node.eventsOfAll p.node.children).length + 1, p.node⟩

namespace Node

variable {ns : List Node} {before : List Event} {above : List Spot}

theorem bracketed_eventsOfAll (ns : List Node) : Bracketed (eventsOfAll ns) := by
  induction ns using forest_induction with
  | nil => exact .nil
  | cons n ns ihn ih =>
    rw [eventsOfAll_cons]
    exact ihn.append ih
  | node n ih =>
    rw [eventsOfAll_node, List.append_assoc, List.singleton_append]
    exact .node n ih .nil

/-- Nodes are entered at their places, in order. -/
theorem spotsFrom_entered? (ns : List Node) (before : List Event) (above : List Spot) :
    spotsFrom Event.entered? before.length (eventsOfAll ns) =
      (placesOfAll ns before above).map Place.spot := by
  induction ns using forest_induction generalizing before above with
  | nil => rw [eventsOfAll, placesOfAll]; rfl
  | cons n ns ihn ih =>
    rw [eventsOfAll_cons, placesOfAll_cons, List.map_append, spotsFrom_append, ihn,
      ← List.length_append, ih _ above]
  | node n ih =>
    have ih := @ih (before ++ [.enter n]) (⟨before.length, n⟩ :: above)
    rw [List.length_append, List.length_singleton] at ih
    rw [spotsFrom_node, placesOfAll_node, ih, List.map_cons]
    exact List.append_nil _

/-- Every place ends, with the end of its node. -/
theorem spotsFrom_exited?_perm (ns : List Node) (before : List Event) (above : List Spot) :
    (spotsFrom Event.exited? before.length (eventsOfAll ns)).Perm
      ((placesOfAll ns before above).map Place.ending) := by
  induction ns using forest_induction generalizing before above with
  | nil => rw [eventsOfAll, placesOfAll]; exact .nil
  | cons n ns ihn ih =>
    rw [eventsOfAll_cons, placesOfAll_cons, List.map_append, spotsFrom_append,
      ← List.length_append]
    exact (ihn before above).append (ih _ above)
  | node n ih =>
    have ih := @ih (before ++ [.enter n]) (⟨before.length, n⟩ :: above)
    rw [List.length_append, List.length_singleton] at ih
    rw [spotsFrom_node, placesOfAll_node, List.map_cons]
    -- nothing ends with the first event, and the node itself with the last
    exact (List.perm_append_singleton _ _).trans (.cons _ ih)

/-- A walk goes through the whole of each node that it enters. -/
theorem events_of_place : ∀ p ∈ placesOfAll ns before above,
    p.before ++ p.node.events <+: before ++ eventsOfAll ns := by
  induction ns using forest_induction generalizing before above with
  | nil => intro p hp; rw [placesOfAll] at hp; cases hp
  | cons n ns ihn ih =>
    intro p hp
    rw [placesOfAll_cons, List.mem_append] at hp
    rw [eventsOfAll_cons, ← List.append_assoc]
    rcases hp with hp | hp
    · exact (ihn p hp).trans (List.prefix_append _ _)
    · exact ih p hp
  | node n ih =>
    intro p hp
    rw [placesOfAll_node, List.mem_cons] at hp
    rcases hp with rfl | hp
    · refine ⟨[], ?_⟩
      rw [eventsOfAll_singleton, List.append_nil]
    · rw [eventsOfAll_node, ← List.append_assoc, ← List.append_assoc]
      exact (ih p hp).trans (List.prefix_append _ _)

/-- The events go through the tree: beginnings and ends belong together, and each node is entered
once, at its place, and exited once, with all that belongs to it between. -/
structure Traversed (root : Node) (es : List Event) : Prop where
  bracketed : Bracketed es
  entered : spotsFrom Event.entered? 0 es = root.places.map Place.spot
  exited : (spotsFrom Event.exited? 0 es).Perm (root.places.map Place.ending)
  within : ∀ p ∈ root.places, p.before ++ p.node.events <+: es

theorem traversed_events (root : Node) : root.Traversed root.events := by
  rw [← eventsOfAll_singleton]
  refine ⟨bracketed_eventsOfAll _, ?_, ?_, ?_⟩
  · rw [places_eq]
    exact spotsFrom_entered? [root] [] []
  · rw [places_eq]
    exact spotsFrom_exited?_perm [root] [] []
  · rw [places_eq]
    exact events_of_place

end Node

end IdlModel
