import IdlModel.Proofs.Load.Linked
import IdlModel.Proofs.Node.Visitor

/-!
# Refused events

A step takes what it needs and checks it by turns: a comment is taken before the field it is for is
looked at, a method is written down before it is opened. So a step could be refused half done. It is
not: next to nothing is left of a refused event (`Builder.step_of_refused`), since what it could
still be refused for after it has written something, an index that leads nowhere, does not come
about in a builder that is linked.

A tree is loaded up to the first event that is refused, and `Node.walk_shows` says so for visitors
of all kinds: a walk is going through a list of events, as far as none fails.
-/

namespace IdlModel

namespace Event

/-- Does no comment wait behind the event, refused or not? -/
def takesComment : Event → Bool
  | .enter n => n.kind == .field
  | .exit n => n.kind.opensScope

/-- Does the event count as a document node, refused or not? -/
def countsDocument : Event → Bool
  | .enter n => n.kind == .document
  | .exit _ => false

end Event

namespace Sketch

/-- What a refused event leaves behind, told of the builder. -/
theorem toBuilder_refuse (s : Sketch) (event : Event) :
    (s.refuse event).toBuilder = { s.toBuilder with
      pending := if event.takesComment then {} else s.toBuilder.pending
      documents := s.toBuilder.documents + if event.countsDocument then 1 else 0 } := by
  cases event with
  | enter n =>
    cases hn : n.kind <;> simp only [refuse, Event.takesComment, Event.countsDocument, hn] <;> rfl
  | exit n =>
    cases hn : n.kind <;> simp only [refuse, Event.takesComment, Event.countsDocument, hn] <;> rfl

end Sketch

namespace Builder

variable {settings : LoadSettings} {b : Builder} {event : Event} {e : LoadError}

/-- A refused step of a linked builder leaves the declarations and what is open as they were. -/
theorem Linked.step_of_error (h : b.Linked) (he : (b.step settings event).1 = .error e) :
    (b.step settings event).2 = { b with
      pending := if event.takesComment then {} else b.pending
      documents := b.documents + if event.countsDocument then 1 else 0 } := by
  obtain ⟨s, rfl⟩ := h.exists_sketch
  rw [Sketch.step_toBuilder, Sketch.step] at he
  rw [Sketch.step_toBuilder, Sketch.step, ← Sketch.toBuilder_refuse]
  cases hs : s.advance settings event with
  | ok s' =>
    rw [hs] at he
    cases he
  | error e' => rfl

/-- Whatever events a builder has been shown, in whatever order and with whatever was refused among
them: an event that is refused now leaves it as it was, but that a document node has been counted,
and that no comment waits any more behind the beginning of a field or the end of a declaration or a
function. -/
theorem step_of_refused (settings : LoadSettings) (events : List Event) (event : Event)
    (e : LoadError) :
    let b := feed settings {} events
    (b.step settings event).1 = .error e →
      (b.step settings event).2 = { b with
        pending := if event.takesComment then {} else b.pending
        documents := b.documents + if event.countsDocument then 1 else 0 } := by
  intro b he
  have hlinked : b.Linked := Linked.feed (.nothing rfl) settings events
  exact hlinked.step_of_error he

/-- A parameter without a type, with a comment in front of it: the method stays as it was, and the
comment is gone. -/
theorem step_of_refused_parameter :
    let events : List Event := [.enter (.document []), .enter (.declaration .service "Shop" []),
      .enter (.function "buy" "void" []), .enter (.commentMultiline "/** what to buy */")]
    let b := feed {} {} events
    let event := Event.enter ((Node.ofKind .field).withPart .identifier "item")
    b.pending = ⟨some "what to buy"⟩ ∧
      (b.step {} event).1 = .error (.missingField .field .fieldType) ∧
      (b.step {} event).2 = { b with pending := {} } := by
  intro events b event
  have he : (b.step {} event).1 = .error (.missingField .field .fieldType) := by decide +kernel
  exact ⟨by decide +kernel, he, step_of_refused {} events event _ he⟩

theorem step_eq_react (settings : LoadSettings) (b : Builder) (event : Event) :
    b.step settings event = Visitor.react (handle settings) b event := by
  rw [step, Visitor.react]
  cases (handle settings event).run b <;> rfl

theorem feed_eq_after (settings : LoadSettings) (b : Builder) (events : List Event) :
    b.feed settings events = Visitor.after (handle settings) b events := by
  simp only [feed, Visitor.after, step_eq_react]

end Builder

/-- A tree is loaded up to the first event that is refused, and else finished. -/
theorem Document.ofTree_shown (settings : LoadSettings) (name : String) (root : Node) :
    ∃ shown outcome, Visitor.Gets (Builder.handle settings) {} root.events shown outcome ∧
      Document.ofTree settings name root =
        outcome >>= fun _ => (Builder.feed settings {} shown).finish name := by
  obtain ⟨shown, outcome, hgets, hrun, -⟩ := Visitor.run_walk (Builder.handle settings) {} root
  refine ⟨shown, outcome, hgets, ?_⟩
  rw [Document.ofTree, hrun, Builder.feed_eq_after]
  cases outcome <;> rfl

/-- A walk shows every visitor the events of the tree, the beginning of a node before its children
and its end behind them, up to the first that fails, and comes out as that one does; the state is
what going through these events one after the other makes of it. If none fails, each node has been
entered and exited once, and beginnings and ends belong together. So a tree is loaded by feeding a
builder its events one by one up to the first that is refused, and finishing it if none is. -/
theorem Node.walk_shows {ε σ : Type} (visit : Visitor ε σ) (s : σ) (root : Node) :
    (∃ shown outcome, visit.Gets s root.events shown outcome ∧
      (root.walk visit).run s = Visitor.result outcome (visit.after s shown) ∧
      (root.walk visit.recording).run (s, []) =
        Visitor.result outcome (visit.after s shown, shown) ∧
      (outcome = .ok () → root.Traversed shown)) ∧
    ∀ settings name, ∃ shown outcome,
      Visitor.Gets (Builder.handle settings) {} root.events shown outcome ∧
      Document.ofTree settings name root =
        outcome >>= fun _ => (Builder.feed settings {} shown).finish name := by
  refine ⟨?_, fun settings name => Document.ofTree_shown settings name root⟩
  obtain ⟨shown, outcome, hgets, hrun, hrecord⟩ := visit.run_walk s root
  refine ⟨shown, outcome, hgets, hrun, hrecord, fun ho => ?_⟩
  rw [hgets.eq_of_ok ho]
  exact traversed_events root

/-- A visitor that counts events and fails when there are too many. -/
def Visitor.counting (limit : Nat) : Visitor String Nat := fun event => do
  modify (· + 1)
  if (← get) > limit then throw event.label

/-- A struct in a document has four events. With a limit of three the visitor is shown the last as
well, and fails there. -/
theorem Node.walk_shows_counting :
    let root : Node := .document [.declaration .struct "Point" []]
    (root.walk (Visitor.counting 3)).run 0 = .error "-document" 4 ∧
      ∃ shown,
        (root.walk (Visitor.recording (Visitor.counting 4))).run (0, []) = .ok () (4, shown) ∧
          root.Traversed shown := by
  intro root
  have hok : (root.walk (Visitor.counting 4)).run 0 = .ok () 4 := rfl
  obtain ⟨⟨shown, outcome, -, hrun, hrecord, htraversed⟩, -⟩ :=
    Node.walk_shows (Visitor.counting 4) 0 root
  rw [hok] at hrun
  cases outcome with
  | error e => cases hrun
  | ok u =>
    obtain ⟨-, hafter⟩ := EStateM.Result.ok.inj hrun
    rw [← hafter] at hrecord
    exact ⟨rfl, shown, hrecord, htraversed rfl⟩

end IdlModel
