import IdlModel.Proofs.Load.Balance

/-!
# Trees one after the other

What has been closed has no influence on what comes behind it. A sketch with more declarations in
front goes through the same steps (`Sketch.advance_preceded`), and so does a builder, whose frames
count the declarations in front with the others (`Builder.Linked.step_preceded`).

Behind a declaration nothing is open and no comment waits, so the trees behind it are met by the
state in which they would be met alone, but for the declarations so far (`Sketch.exists_eq_preceded`).
Hence a document whose trees come in two parts is the documents of the parts put together
(`Document.ofTree_document_append`).
-/

namespace IdlModel

/-- The frame when this many more declarations come first. -/
def Frame.shift (count : Nat) : Frame → Frame
  | .declaration index kind => .declaration (count + index) kind
  | .method service m => .method (count + service) m
  | .throws service m => .throws (count + service) m

/-- The builder with more declarations in front of those it has. -/
def Builder.preceded (ds : List Declaration) (b : Builder) : Builder :=
  { b with
    declarations := ds ++ b.declarations
    context := ⟨b.context.frames.map (Frame.shift ds.length)⟩ }

/-! ## Steps -/

namespace Sketch

variable {settings : LoadSettings} (ds : List Declaration) (s : Sketch)

/-- The sketch with more closed declarations in front of those it has. -/
def preceded : Sketch :=
  { s with closed := ds ++ s.closed }

theorem enter_preceded (n : Node) :
    (s.preceded ds).enter settings n = preceded ds <$> s.enter settings n := by
  obtain ⟨closed, focus, pending, documents⟩ := s
  rw [enter, enter]
  cases n.kind with
  | document =>
    simp only [apply_ite (preceded ds <$> ·)]
    rfl
  | declaration k =>
    simp only [enterDeclaration, map_bind]
    refine bind_congr fun name => ?_
    cases focus <;> rfl
  | enumValue =>
    simp only [enterEnumValue, map_bind]
    refine bind_congr fun value => ?_
    cases focus using Focus.by_kind <;> rfl
  | field =>
    simp only [enterField, apply_ite (preceded ds <$> ·), map_bind]
    rfl
  | function =>
    simp only [enterFunction, map_bind]
    refine bind_congr fun name => ?_
    cases focus using Focus.by_kind with
    | service =>
      simp only [preceded, map_bind]
      rfl
    | _ => rfl
  | throwsList => cases focus using Focus.by_kind <;> rfl
  | _ => rfl

theorem exit_preceded (n : Node) : (s.preceded ds).exit n = preceded ds <$> s.exit n := by
  obtain ⟨closed, focus, pending, documents⟩ := s
  rw [exit, exit]
  cases n.kind with
  | declaration k =>
    cases focus with
    | body d =>
      simp only [preceded, apply_ite (preceded ds <$> ·), List.append_assoc]
      rfl
    | _ => rfl
  | function => cases focus <;> rfl
  | _ => rfl

/-- What is closed has no part in a step. -/
theorem advance_preceded (event : Event) :
    (s.preceded ds).advance settings event = preceded ds <$> s.advance settings event := by
  cases event with
  | enter n => exact enter_preceded ds s n
  | exit n => exact exit_preceded ds s n

theorem refuse_preceded (event : Event) :
    (s.preceded ds).refuse event = (s.refuse event).preceded ds := by
  cases event with
  | enter n => rw [refuse, refuse]; cases n.kind <;> rfl
  | exit n => rw [refuse, refuse]; cases n.kind <;> rfl

theorem step_preceded (event : Event) : (s.preceded ds).step settings event =
    ((s.step settings event).1, (s.step settings event).2.preceded ds) := by
  rw [step, step, advance_preceded, refuse_preceded]
  cases s.advance settings event <;> rfl

theorem toBuilder_preceded : (s.preceded ds).toBuilder = s.toBuilder.preceded ds := by
  obtain ⟨closed, focus, pending, documents⟩ := s
  simp only [toBuilder, preceded, Builder.preceded, List.append_assoc, List.length_append]
  cases focus using Focus.by_kind <;> rfl

theorem finish_preceded (name : String) : (s.preceded ds).finish name =
    s.finish name >>= fun d => .ok { name, declarations := ds ++ d.declarations } := by
  rw [finish, finish, show (s.preceded ds).documents = s.documents from rfl]
  by_cases h : s.documents ≠ 1
  · rw [if_pos h, if_pos h]
    rfl
  · rw [if_neg h, if_neg h]
    obtain ⟨closed, focus, pending, documents⟩ := s
    cases focus <;> rfl

end Sketch

namespace Builder

variable {b : Builder} {settings : LoadSettings}

/-- More declarations in front make no difference to a step but for the indices. -/
theorem Linked.step_preceded (h : b.Linked) (ds : List Declaration) (event : Event) :
    (b.preceded ds).step settings event =
      ((b.step settings event).1, (b.step settings event).2.preceded ds) := by
  obtain ⟨s, rfl⟩ := linked_iff_exists_sketch.1 h
  rw [← Sketch.toBuilder_preceded, Sketch.step_toBuilder, Sketch.step_toBuilder,
    Sketch.step_preceded, Sketch.toBuilder_preceded]

theorem Linked.feed_preceded (h : b.Linked) (ds : List Declaration) (events : List Event) :
    (b.preceded ds).feed settings events = (b.feed settings events).preceded ds := by
  induction events generalizing b with
  | nil => rfl
  | cons event events ih =>
    show ((b.preceded ds).step settings event).2.feed settings events = _
    rw [h.step_preceded]
    exact ih (h.step settings event).1

end Builder

/-! ## Runs -/

namespace Sketch

variable {settings : LoadSettings} {s s' : Sketch} {ns : List Node} {n : Node}

/-- The state of a walk behind the beginning of a document node. -/
def opened : Sketch where
  documents := 1

theorem documents_eq_one_of_run {es : List Event} (hs : s.documents = 1)
    (h : run settings s es = .ok s') : s'.documents = 1 := by
  induction es generalizing s with
  | nil => exact Except.ok.inj h ▸ hs
  | cons event es ih =>
    rw [run_cons, bind_eq_ok_iff] at h
    obtain ⟨s₁, h₁, h⟩ := h
    refine ih ?_ h
    cases event with
    | enter n =>
      cases entered_of_eq_ok h₁ with
      | document => rfl
      | _ => exact hs
    | exit n => cases exited_of_eq_ok h₁ <;> exact hs

/-- Behind a declaration no comment waits. -/
theorem pending_of_run (hn : n.kind.isDeclaration)
    (h : run settings s (Node.eventsOfAll (ns ++ [n])) = .ok s') : s'.pending = none := by
  rw [Node.eventsOfAll_append, run_append_eq_ok] at h
  obtain ⟨s₁, -, h⟩ := h
  obtain ⟨-, s₂, -, -, hx⟩ := run_node_eq_ok.1 h
  cases exited_of_eq_ok hx with
  | other hk => rw [NodeKind.isDeclaration_eq_false hk] at hn; cases hn
  | _ => rfl

/-- Of trees of which the last is a declaration all that is left behind them is the declarations
they have made. -/
theorem exists_eq_preceded (hns : ∀ n, ns.getLast? = some n → n.kind.isDeclaration)
    (h : run settings opened (Node.eventsOfAll ns) = .ok s) : ∃ ds, s = opened.preceded ds := by
  have hfocus : s.focus = .nothing := focus_of_run rfl h
  have hdocuments : s.documents = 1 := documents_eq_one_of_run rfl h
  have hpending : s.pending = none := by
    rcases List.eq_nil_or_concat ns with rfl | ⟨ns, n, rfl⟩
    · exact Except.ok.inj h ▸ rfl
    · rw [List.concat_eq_append] at h hns
      exact pending_of_run (hns n (by simp)) h
  obtain ⟨closed, focus, pending, documents⟩ := s
  obtain rfl : focus = .nothing := hfocus
  obtain rfl : documents = 1 := hdocuments
  obtain rfl : pending = none := hpending
  exact ⟨closed, by simp [opened, preceded]⟩

theorem enter_document (hn : n.kind = .document) : enter settings {} n = .ok opened := by
  simp only [enter, hn]
  rfl

end Sketch

/-- Loading a document node is running through its children. -/
theorem Document.ofTree_document (settings : LoadSettings) (name : String) (ns : List Node) :
    Document.ofTree settings name (.document ns) =
      Sketch.run settings .opened (Node.eventsOfAll ns) >>= fun s => s.finish name := by
  have hk : (Node.document ns).kind = .document := Node.kind_of_rule rfl
  rw [ofTree_eq_run, ← Node.eventsOfAll_singleton, Node.eventsOfAll_node, List.append_assoc,
    Sketch.run_append, Sketch.run_singleton]
  show Sketch.enter settings {} (Node.document ns) >>= _ >>= _ = _
  rw [Sketch.enter_document hk]
  show Sketch.run settings .opened (Node.eventsOfAll ns ++ [.exit (Node.document ns)]) >>= _ = _
  rw [Sketch.run_append, bind_assoc]
  refine bind_congr fun s => ?_
  rw [Sketch.run_singleton, Sketch.advance, Sketch.exit_other (by rw [hk]; rfl)]
  rfl

/-- If the first of two lists of trees ends with a declaration, the document of both in a row is
that of the first with the declarations of the second behind its own, and the first refusal counts.
Whatever events come behind the first list, they are met as if it had not been there, but for its
declarations. -/
theorem Document.ofTree_document_append (settings : LoadSettings) (name : String)
    {as bs : List Node} (has : ∀ n, as.getLast? = some n → n.kind.isDeclaration) :
    (Document.ofTree settings name (.document (as ++ bs)) = do
      let d ← Document.ofTree settings name (.document as)
      let d' ← Document.ofTree settings name (.document bs)
      return { name, declarations := d.declarations ++ d'.declarations }) ∧
    ∀ b, Builder.after? settings {}
        (.enter (.document (as ++ bs)) :: Node.eventsOfAll as) = some b →
      ∀ events event,
        let alone := Builder.feed settings { documents := 1 } events
        (b.feed settings events).step settings event =
          ((alone.step settings event).1, (alone.step settings event).2.preceded b.declarations) := by
  constructor
  · rw [ofTree_document, ofTree_document, ofTree_document, Node.eventsOfAll_append,
      Sketch.run_append]
    cases hs : Sketch.run settings .opened (Node.eventsOfAll as) with
    | error e => rfl
    | ok s =>
      obtain ⟨ds, rfl⟩ := Sketch.exists_eq_preceded has hs
      have hfirst : (Sketch.opened.preceded ds).finish name = .ok { name, declarations := ds } := by
        rw [Sketch.finish_preceded]
        show Except.ok (⟨name, ds ++ []⟩ : Document) = _
        rw [List.append_nil]
      show Sketch.run settings (Sketch.opened.preceded ds) (Node.eventsOfAll bs) >>= _ =
        (Sketch.opened.preceded ds).finish name >>= _
      rw [hfirst, Sketch.run_map (Sketch.advance_preceded ds)]
      cases Sketch.run settings .opened (Node.eventsOfAll bs) with
      | error e => rfl
      | ok s => exact Sketch.finish_preceded ds s name
  · intro b hb events event
    obtain ⟨s, hs, rfl⟩ := (Builder.after?_toBuilder_eq_some (s := {})).1 hb
    have hk : (Node.document (as ++ bs)).kind = .document := Node.kind_of_rule rfl
    rw [Sketch.run_cons, Sketch.advance, Sketch.enter_document hk] at hs
    obtain ⟨ds, rfl⟩ := Sketch.exists_eq_preceded has hs
    have hds : (Sketch.opened.preceded ds).toBuilder.declarations = ds := by
      simp [Sketch.toBuilder, Sketch.preceded, Sketch.opened, Focus.declaration?]
    have hopened : Sketch.opened.toBuilder.Linked := Builder.linked_toBuilder _
    rw [hds, Sketch.toBuilder_preceded, hopened.feed_preceded]
    exact (hopened.feed settings events).step_preceded ds event

/-- A service with a method that throws, and a comment at its end. -/
def Node.shop : Node :=
  declaration .service "Shop" [
    function "buy" "void" [field "item" "Item", throwsList [field "e" "SoldOut"]],
    commentMultiline "/** No more. */"]

/-- What the method throws, and one more service. -/
def Node.counter : List Node :=
  [declaration .exception "SoldOut" [], declaration .service "Counter" [function "next" "i32" []]]

theorem Document.ofTree_document_append_shop :
    (∀ n, [Node.shop].getLast? = some n → n.kind.isDeclaration) ∧
      Document.ofTree {} "shop" (.document ([Node.shop] ++ Node.counter)) = .ok {
        name := "shop"
        declarations := [
          { name := "Shop", body := .service [
            { name := "buy", returnType := ⟨"void"⟩, exceptions := [⟨"SoldOut"⟩],
              parameters := [{ name := "item", type := ⟨"Item"⟩ }] }] },
          { name := "SoldOut", body := .exception [] },
          { name := "Counter", body := .service [{ name := "next", returnType := ⟨"i32"⟩ }] }] } ∧
      ∃ b, Builder.after? {} {}
          (.enter (.document ([Node.shop] ++ Node.counter)) :: Node.eventsOfAll [Node.shop]) =
            some b ∧
        ∀ events event,
          let alone := Builder.feed {} { documents := 1 } events
          (b.feed {} events).step {} event =
            ((alone.step {} event).1, (alone.step {} event).2.preceded b.declarations) := by
  have has : ∀ n, [Node.shop].getLast? = some n → n.kind.isDeclaration := by
    intro n hn
    obtain rfl := Option.some.inj hn
    decide +kernel
  obtain ⟨happend, hbehind⟩ := @ofTree_document_append {} "shop" [Node.shop] Node.counter has
  obtain ⟨b, hb⟩ : ∃ b, Builder.after? {} {}
      (.enter (.document ([Node.shop] ++ Node.counter)) :: Node.eventsOfAll [Node.shop]) = some b :=
    Option.isSome_iff_exists.1 (by decide +kernel)
  refine ⟨has, ?_, b, hb, hbehind b hb⟩
  rw [happend]
  decide +kernel

end IdlModel
