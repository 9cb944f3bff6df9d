import IdlModel.Proofs.Node.Place

/-!
# Trees as lists of rows

A tree can be written down as the list of its nodes in preorder, each without its children but with
its depth: a `Row`. A walk enters the nodes in that order and exits a node when a row comes that is
not inside it, so the walk up to a row can be told from the rows so far (`retrace`). It has to be
the same for trees that agree so far, whatever they have behind it (`Node.bare_before_congr`).
-/

namespace IdlModel

/-- The node without its children. -/
def Node.bare (n : Node) : Node :=
  { n with children := [] }

/-- The event with the node alone. -/
def Event.bare : Event → Event
  | .enter n => .enter n.bare
  | .exit n => .exit n.bare

/-- What there is of a node alone, and how many ancestors it has. -/
structure Row where
  depth : Nat
  node : Node

/-- The row of a place. -/
def Place.row (p : Place) : Row :=
  ⟨p.above.length, p.node.bare⟩

/-- The events up to the last of some rows, given the nodes that are open before them, the innermost
first: the nodes that a row is not inside of end before it. -/
def retrace : List Node → List Row → List Event
  | _, [] => []
  | opened, r :: rows =>
    (opened.take (opened.length - r.depth)).map .exit ++
      .enter r.node :: retrace (r.node :: opened.drop (opened.length - r.depth)) rows

theorem retrace_inside {opened : List Node} {r : Row} (h : r.depth = opened.length)
    (rows : List Row) :
    retrace opened (r :: rows) = .enter r.node :: retrace (r.node :: opened) rows := by
  rw [retrace, h, Nat.sub_self]
  rfl

/-- A row that is not inside the innermost node ends it. -/
theorem retrace_outside {opened : List Node} {r : Row} (h : r.depth ≤ opened.length) (n : Node)
    (rows : List Row) :
    retrace (n :: opened) (r :: rows) = .exit n :: retrace opened (r :: rows) := by
  have hdepth : (n :: opened).length - r.depth = opened.length - r.depth + 1 := by
    rw [List.length_cons, Nat.succ_sub h]
  rw [retrace, retrace, hdepth]
  rfl

namespace Node

variable {ns : List Node} {before : List Event} {above : List Spot} {opened : List Node}

/-- The first of the places has no ancestors but those that all have. -/
theorem row_depth_of_placesOfAll_eq_cons {p : Place} {ps : List Place}
    (h : placesOfAll ns before above = p :: ps) : p.row.depth = above.length := by
  cases ns with
  | nil =>
    rw [placesOfAll] at h
    cases h
  | cons n ns =>
    rw [placesOfAll_cons, placesOfAll_node, List.cons_append] at h
    rw [← (List.cons_eq_cons.1 h).1]
    rfl

/-- The rows of trees, with a row behind them that is not inside, are retraced to the events of the
trees. -/
theorem retrace_places (hopened : opened.length = above.length) {r : Row}
    (hr : r.depth ≤ opened.length) (rows : List Row) :
    retrace opened ((placesOfAll ns before above).map Place.row ++ r :: rows) =
      (eventsOfAll ns).map Event.bare ++ retrace opened (r :: rows) := by
  induction ns using forest_induction generalizing before above opened r rows with
  | nil => rw [placesOfAll, eventsOfAll]; rfl
  | cons n ns ihn ih =>
    rw [eventsOfAll_cons, List.map_append, List.append_assoc,
      ← @ih (before ++ eventsOfAll [n]) above opened hopened r hr rows, placesOfAll_cons,
      List.map_append, List.append_assoc]
    cases hps : placesOfAll ns (before ++ eventsOfAll [n]) above with
    | nil => exact ihn hopened hr rows
    | cons p ps =>
      exact ihn hopened
        (Nat.le_of_eq ((row_depth_of_placesOfAll_eq_cons hps).trans hopened.symm)) _
  | node n ih =>
    have hinside : (n.bare :: opened).length = (Spot.mk before.length n :: above).length := by
      rw [List.length_cons, List.length_cons, hopened]
    rw [placesOfAll_node, List.map_cons, List.cons_append, retrace_inside hopened.symm]
    show .enter n.bare :: retrace (n.bare :: opened) _ = _
    rw [ih hinside (Nat.le_succ_of_le hr), retrace_outside hr, eventsOfAll_node, List.map_append,
      List.map_append, List.append_assoc, List.append_assoc]
    rfl

/-- The rows up to a place are retraced to the events up to the entry of its node. -/
theorem retrace_place {earlier later : List Place} {p : Place}
    (h : placesOfAll ns before above = earlier ++ p :: later) :
    before.map Event.bare ++ retrace (above.map (·.node.bare)) ((earlier ++ [p]).map Place.row) =
      (p.before ++ [Event.enter p.node]).map Event.bare := by
  induction ns using forest_induction generalizing before above earlier later with
  | nil =>
    rw [placesOfAll] at h
    exact absurd h.symm (by simp)
  | cons n ns ihn ih =>
    rw [placesOfAll_cons] at h
    rcases append_eq_append_cons h with ⟨rest, hn⟩ | ⟨rest, rfl, hrest⟩
    · exact ihn hn
    · have hlength : (above.map (·.node.bare)).length = above.length := List.length_map _
      -- the first row behind the tree is not inside of it
      obtain ⟨q, qs, hq⟩ : ∃ q qs, rest ++ [p] = q :: qs :=
        List.exists_cons_of_ne_nil (by simp)
      have hnext : placesOfAll ns (before ++ eventsOfAll [n]) above = q :: (qs ++ later) := by
        rw [hrest, ← List.cons_append, ← hq, List.append_assoc]
        rfl
      have hdepth : q.row.depth ≤ (above.map (·.node.bare)).length :=
        Nat.le_of_eq ((row_depth_of_placesOfAll_eq_cons hnext).trans hlength.symm)
      rw [← ih hrest, List.append_assoc, hq, List.map_append, List.map_cons,
        retrace_places hlength hdepth, ← List.append_assoc, ← List.map_append]
  | node n ih =>
    have hlength : above.length = (above.map (·.node.bare)).length := (List.length_map _).symm
    rw [placesOfAll_node] at h
    cases earlier with
    | nil =>
      obtain ⟨rfl, -⟩ := List.cons_eq_cons.1 h
      rw [List.nil_append, List.map_singleton, retrace_inside (r := Place.row ⟨n, before, above⟩)
        hlength, List.map_append]
      rfl
    | cons q earlier =>
      obtain ⟨rfl, htail⟩ := List.cons_eq_cons.1 h
      rw [← ih htail, List.cons_append, List.map_cons,
        retrace_inside (r := Place.row ⟨n, before, above⟩) hlength, @List.map_append _ _ _ before,
        List.append_assoc]
      rfl

/-- Trees with the same rows up to some place begin with the same events up to the entry of the node
there. -/
theorem bare_before_congr {root root' : Node} {earlier later earlier' later' : List Place}
    {p p' : Place} (h : root.places = earlier ++ p :: later)
    (h' : root'.places = earlier' ++ p' :: later')
    (hrows : (earlier' ++ [p']).map Place.row = (earlier ++ [p]).map Place.row) :
    (p'.before ++ [Event.enter p'.node]).map Event.bare =
      (p.before ++ [Event.enter p.node]).map Event.bare := by
  rw [places_eq] at h h'
  rw [← retrace_place h, ← retrace_place h', hrows]

end Node

end IdlModel
