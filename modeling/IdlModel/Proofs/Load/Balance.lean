import IdlModel.Proofs.Load.Linked

/-!
# Walks are balanced

A walk that is not refused leaves open what was open before it: the frame of a declaration or a
function is there from its beginning to its end. Only a throws list changes the frame that it finds,
and that change outlives it (`Context.behind`). This holds from every state a builder can be in, and
the induction on the tree needs it so (`Sketch.Runs.context`).

So the end of a node meets the frame that its beginning left, and is never refused
(`Sketch.exit_of_split`): where a walk stops, it stops at the beginning of a node. That leaves few
causes for which a tree is refused, and they are told at the end (`Builder.walk_balanced`).
-/

namespace IdlModel

/-! ## Contexts -/

namespace Context

/-- The context behind nodes, with or without a throws list among them: with one, fields of the
innermost method are what it throws. -/
def behind (c : Context) (throws : Bool) : Context :=
  match throws, c.frames with
  | true, .method service method :: outer => ⟨.throws service method :: outer⟩
  | _, _ => c

/-- What is innermost, by its kind. -/
def site (c : Context) : Site :=
  match c.frames with
  | [] => .outside
  | .declaration _ kind :: _ => .body kind
  | .method _ _ :: _ => .parameters
  | .throws _ _ :: _ => .throws

/-- One case for each kind of thing that may be innermost. -/
@[elab_as_elim]
theorem by_innermost {P : Context → Prop} (nothing : P ⟨[]⟩)
    (declaration : ∀ index kind outer, P ⟨.declaration index kind :: outer⟩)
    (method : ∀ service method outer, P ⟨.method service method :: outer⟩)
    (throws : ∀ service method outer, P ⟨.throws service method :: outer⟩) : ∀ c, P c
  | ⟨[]⟩ => nothing
  | ⟨.declaration index kind :: outer⟩ => declaration index kind outer
  | ⟨.method service m :: outer⟩ => method service m outer
  | ⟨.throws service m :: outer⟩ => throws service m outer

variable (c : Context) (t u : Bool)

@[simp] theorem behind_false : c.behind false = c := by
  cases c using by_innermost <;> rfl

theorem behind_behind : (c.behind t).behind u = c.behind (t || u) := by
  cases c using by_innermost <;> cases t <;> cases u <;> rfl

/-- Only the innermost frame changes. -/
theorem tail_behind : (c.behind t).frames.tail = c.frames.tail := by
  cases c using by_innermost <;> cases t <;> rfl

theorem site_behind_of_body {k : DeclarationKind} (h : c.site = .body k) :
    (c.behind t).site = .body k := by
  cases c using by_innermost with
  | declaration index kind outer => cases t <;> exact h
  | _ => cases h

theorem site_behind_of_parameters (h : c.site = .parameters) :
    (c.behind t).site = .parameters ∨ (c.behind t).site = .throws := by
  cases c using by_innermost with
  | method service m outer =>
    cases t with
    | false => exact Or.inl rfl
    | true => exact Or.inr rfl
  | _ => cases h

end Context

/-- Is there a throws list in the tree, its root included? -/
def Node.hasThrows (n : Node) : Bool :=
  n.preorder.any (·.kind == .throwsList)

namespace Sketch

variable {settings : LoadSettings} {s s' s₁ s₂ : Sketch} {n : Node} {e : LoadError}

/-- The open frames of the builder. -/
def context (s : Sketch) : Context :=
  ⟨s.focus.frames s.closed.length⟩

theorem site_context (s : Sketch) : s.context.site = s.focus.site := by
  obtain ⟨closed, focus, pending, documents⟩ := s
  cases focus using Focus.by_kind <;> rfl

/-! ## Frames are there from the beginning to the end of a node -/

theorem frames_addField (f : Focus) (a : Attribute) (index : Nat) :
    (f.addField a).frames index = f.frames index := by
  cases f using Focus.by_kind <;> rfl

/-- A node that opens no scope changes the innermost frame, if it is a throws list, and no other. -/
theorem context_enter_of_not_opensScope (hn : n.kind.opensScope = false)
    (h : s.enter settings n = .ok s') : s'.context = s.context.behind (n.kind == .throwsList) := by
  cases entered_of_eq_ok h with
  | declaration hk => rw [hk] at hn; cases hn
  | function hk => rw [hk] at hn; cases hn
  | enumValue hk hf =>
    rw [hk, context, context, hf]
    rfl
  | field hk =>
    rw [hk, context, frames_addField]
    exact (Context.behind_false _).symm
  | throwsList hk hf =>
    rw [hk, context, context, hf]
    rfl
  | document hk | comment hk =>
    rw [hk]
    exact (Context.behind_false _).symm
  | passed hk =>
    rcases hk with hk | hk <;>
    · rw [hk]
      exact (Context.behind_false _).symm

/-- A declaration or a function adds a frame, and not to those of a method. -/
theorem context_enter_of_opensScope (hn : n.kind.opensScope) (h : s.enter settings n = .ok s') :
    s'.context.frames.tail = s.context.frames ∧ ∀ t, s.context.behind t = s.context := by
  cases entered_of_eq_ok h with
  | declaration hk hf =>
    rw [context, context, hf]
    exact ⟨rfl, fun t => by cases t <;> rfl⟩
  | function hk hf =>
    rw [context, context, hf]
    exact ⟨rfl, fun t => by cases t <;> rfl⟩
  | passed hk => rcases hk with hk | hk <;> rw [hk] at hn <;> cases hn
  | document hk | enumValue hk | field hk | throwsList hk | comment hk => rw [hk] at hn; cases hn

/-- The end of a declaration or a function takes the innermost frame away. -/
theorem context_exit_of_opensScope (hn : n.kind.opensScope) (h : s.exit n = .ok s') :
    s'.context.frames = s.context.frames.tail := by
  rw [context, context]
  cases exited_of_eq_ok h with
  | declaration hk hf =>
    rw [hf]
    rfl
  | @function service comment earlier m thrown hk hf =>
    rw [hf]
    cases thrown <;> rfl
  | other hk =>
    rw [hn] at hk
    cases hk

/-- A run leaves open what was open before it, in its throws list if there was one on the way. -/
theorem Runs.context {ns : List Node} (h : Runs settings s ns s') :
    s'.context = s.context.behind ((Node.preorderOfAll ns).any (·.kind == .throwsList)) := by
  induction h with
  | nil => simp [Node.preorderOfAll]
  | cons _ _ ihn ih =>
    rw [ih, ihn, Context.behind_behind, ← List.any_append, ← Node.preorderOfAll_cons]
  | @node s s₁ s₂ s' n he _ hx ih =>
    rw [Node.preorderOfAll_node, List.any_cons]
    cases hn : n.kind.opensScope with
    | true =>
      obtain ⟨htail, hkeep⟩ := context_enter_of_opensScope hn he
      have hframes : s'.context.frames = s.context.frames := by
        rw [context_exit_of_opensScope hn hx, ih, Context.tail_behind, htail]
      rw [hkeep]
      exact congrArg Context.mk hframes
    | false =>
      rw [exit_other hn] at hx
      obtain rfl := Except.ok.inj hx
      rw [ih, context_enter_of_not_opensScope hn he, Context.behind_behind]

/-! ## The end of a node is not refused -/

/-- Behind its children a node can end. -/
theorem Runs.exit (h : Runs settings s₁ n.children s₂) (he : s.enter settings n = .ok s₁) :
    ∃ s', s₂.exit n = .ok s' := by
  have hs₁ : s₁.context.site = s.focus.site.enter n.kind := by
    have hf := enter_follows settings s n
    rw [he] at hf
    rw [site_context]
    exact hf.of_ok.2.1
  cases hn : n.kind with
  | declaration k =>
    rw [hn] at hs₁
    have hs₂ : s₂.focus.site = .body k := by
      rw [← site_context, h.context]
      exact Context.site_behind_of_body _ _ hs₁
    obtain ⟨s', hx, -⟩ := exit_declaration hn hs₂
    exact ⟨s', hx⟩
  | function =>
    rw [hn] at hs₁
    have hs₂ : s₂.focus.site = .parameters ∨ s₂.focus.site = .throws := by
      rw [← site_context, h.context]
      exact Context.site_behind_of_parameters _ _ hs₁
    obtain ⟨s', hx, -⟩ := exit_function hn hs₂
    exact ⟨s', hx⟩
  | _ => exact ⟨s₂, exit_other (by rw [hn]; rfl)⟩

/-- Where a run through trees gets to the end of a node, that is not refused. -/
theorem exit_of_split {ns : List Node} {before after : List Event} {x : Node}
    (hns : Node.eventsOfAll ns = before ++ .exit x :: after)
    (h : run settings s before = .ok s₁) : ∃ s₂, s₁.exit x = .ok s₂ := by
  induction ns using Node.forest_induction generalizing s before after with
  | nil =>
    rw [Node.eventsOfAll] at hns
    exact absurd hns.symm (by simp)
  | cons n ns ihn ih =>
    rw [Node.eventsOfAll_cons] at hns
    rcases Node.append_eq_append_cons hns with ⟨rest, hn⟩ | ⟨rest, rfl, hrest⟩
    · exact ihn hn h
    · obtain ⟨s', -, h'⟩ := run_append_eq_ok.1 h
      exact ih hrest h'
  | node n ih =>
    rw [Node.eventsOfAll_node, List.append_assoc, List.singleton_append] at hns
    cases before with
    | nil => cases (List.cons_eq_cons.1 hns).1
    | cons event before =>
      obtain ⟨rfl, htail⟩ := List.cons_eq_cons.1 hns
      rw [run_cons, bind_eq_ok_iff] at h
      obtain ⟨s', he, h⟩ := h
      rcases Node.append_eq_append_cons htail with ⟨rest, hchildren⟩ | ⟨rest, rfl, hrest⟩
      · exact ih hchildren h
      · -- the end of the node itself, since only one event is left
        obtain ⟨rfl, hx⟩ : rest = [] ∧ n = x := by
          cases rest with
          | nil => exact ⟨rfl, Event.exit.inj (List.cons_eq_cons.1 hrest).1⟩
          | cons event rest => simp at hrest
        rw [List.append_nil] at h
        subst hx
        exact (runs_of_eq_ok h).exit he

/-! ## Where a run is refused -/

theorem run_eq_error {es : List Event} (h : run settings s es = .error e) :
    ∃ before event after s₁, es = before ++ event :: after ∧
      run settings s before = .ok s₁ ∧ s₁.advance settings event = .error e := by
  induction es generalizing s with
  | nil => cases h
  | cons event es ih =>
    rw [run_cons] at h
    cases hs : s.advance settings event with
    | error err =>
      rw [hs] at h
      obtain rfl := Except.error.inj h
      exact ⟨[], event, es, s, rfl, rfl, hs⟩
    | ok s' =>
      rw [hs] at h
      obtain ⟨before, event', after, s₁, rfl, h₁, h₂⟩ := ih h
      refine ⟨event :: before, event', after, s₁, rfl, ?_, h₂⟩
      rw [run_cons, hs]
      exact h₁

/-- A run through a tree is refused at the beginning of a node, or not at all. -/
theorem run_events_eq_error (h : run settings s n.events = .error e) :
    ∃ before x after s₁, n.events = before ++ .enter x :: after ∧
      run settings s before = .ok s₁ ∧ s₁.enter settings x = .error e := by
  obtain ⟨before, event, after, s₁, hes, h₁, h₂⟩ := run_eq_error h
  cases event with
  | enter x => exact ⟨before, x, after, s₁, hes, h₁, h₂⟩
  | exit x =>
    rw [← Node.eventsOfAll_singleton] at hes
    obtain ⟨s₂, hx⟩ := exit_of_split hes h₁
    rw [show s₁.advance settings (.exit x) = s₁.exit x from rfl, hx] at h₂
    cases h₂

theorem documents_advance {event : Event} (h : s.advance settings event = .ok s')
    (hs : s.documents ≤ 1) : s'.documents ≤ 1 := by
  cases event with
  | enter n =>
    cases entered_of_eq_ok h with
    | document => exact Nat.le_refl 1
    | _ => exact hs
  | exit n => cases exited_of_eq_ok h <;> exact hs

/-- A second document node is refused, so a run that is not has met at most one. -/
theorem documents_run {es : List Event} (h : run settings s es = .ok s')
    (hs : s.documents ≤ 1) : s'.documents ≤ 1 := by
  induction es generalizing s with
  | nil => exact Except.ok.inj h ▸ hs
  | cons event es ih =>
    rw [run_cons, bind_eq_ok_iff] at h
    obtain ⟨s₁, h₁, h⟩ := h
    exact ih h (documents_advance h₁ hs)

/-- A run through trees that begins with nothing open ends so. -/
theorem focus_of_run {ns : List Node} (hs : s.focus = .nothing)
    (h : run settings s (Node.eventsOfAll ns) = .ok s') : s'.focus = .nothing := by
  have hc : s'.context.site = .outside := by
    rw [(runs_of_eq_ok h).context, context, hs]
    cases (Node.preorderOfAll ns).any (·.kind == .throwsList) <;> rfl
  rw [site_context] at hc
  cases hf : s'.focus using Focus.by_kind with
  | nothing => rfl
  | _ => rw [hf] at hc; cases hc

theorem focus_of_run_events (h : run settings {} n.events = .ok s) : s.focus = .nothing := by
  rw [← Node.eventsOfAll_singleton] at h
  exact focus_of_run rfl h

end Sketch

/-- Why loading is refused: for what it meets at the beginning of a node, or for the want of a
document node. -/
theorem Document.ofTree_eq_error {settings : LoadSettings} {name : String} {root : Node}
    {e : LoadError} (h : Document.ofTree settings name root = .error e) :
    (∃ before x after s, root.events = before ++ .enter x :: after ∧
      Sketch.run settings {} before = .ok s ∧ s.documents ≤ 1 ∧ s.enter settings x = .error e) ∨
    e = .documentCount 0 := by
  rw [Document.ofTree_eq_run] at h
  cases hr : Sketch.run settings {} root.events with
  | error err =>
    rw [hr] at h
    obtain rfl := Except.error.inj h
    obtain ⟨before, x, after, s, hes, h₁, h₂⟩ := Sketch.run_events_eq_error hr
    exact Or.inl ⟨before, x, after, s, hes, h₁, Sketch.documents_run h₁ (Nat.zero_le 1), h₂⟩
  | ok s =>
    rw [hr] at h
    have hdocs : s.documents ≤ 1 := Sketch.documents_run hr (Nat.zero_le 1)
    change s.finish name = .error e at h
    rw [Sketch.finish, Sketch.focus_of_run_events hr] at h
    split at h
    · next hne =>
      obtain rfl := Except.error.inj h
      exact Or.inr (congrArg LoadError.documentCount (by omega))
    · cases h

/-! ## Builders -/

namespace Builder

/-- The builder after a number of events, if none of them is refused. -/
def after? (settings : LoadSettings) (b : Builder) (events : List Event) : Option Builder :=
  match (events.forM (handle settings)).run b with
  | .ok _ b' => some b'
  | .error _ _ => none

theorem after?_toBuilder (settings : LoadSettings) (s : Sketch) (events : List Event) :
    after? settings s.toBuilder events = (s.run settings events).toOption.map Sketch.toBuilder := by
  have h := s.run_toBuilder settings events
  rw [after?]
  cases hr : s.run settings events with
  | ok s' =>
    rw [hr] at h
    rw [h]
    rfl
  | error e =>
    rw [hr] at h
    obtain ⟨b, h⟩ := h
    rw [h]
    rfl

theorem after?_toBuilder_eq_some {settings : LoadSettings} {s : Sketch} {events : List Event}
    {b : Builder} : after? settings s.toBuilder events = some b ↔
      ∃ s', s.run settings events = .ok s' ∧ s'.toBuilder = b := by
  rw [after?_toBuilder, Option.map_eq_some_iff]
  cases s.run settings events <;> simp [Except.toOption]

theorem after?_events_eq_some {settings : LoadSettings} {b b' : Builder} {n : Node} :
    after? settings b n.events = some b' ↔ (n.walk (handle settings)).run b = .ok () b' := by
  rw [after?, ← Node.walk_eq_forM_events]
  cases (n.walk (handle settings)).run b <;> simp

/-- A walk that is not refused leaves open what was open before it, in its throws list if there was
one on the way; no walk is refused at the end of a node, from whatever state it begins. So a tree
is never refused for an end that does not belong to the innermost beginning, and for the number of
document nodes only where there is none or a second one. -/
theorem walk_balanced (settings : LoadSettings) (events : List Event) (n : Node) :
    let b := feed settings {} events
    (∀ b', (n.walk (handle settings)).run b = .ok () b' →
      b'.context = b.context.behind n.hasThrows) ∧
    (∀ before x after b', n.events = before ++ .exit x :: after →
      b.after? settings before = some b' → (b'.step settings (.exit x)).1 = .ok ()) ∧
    (∀ b', (n.walk (handle settings)).run {} = .ok () b' → b'.context.isEmpty) ∧
    (∀ name closing, Document.ofTree settings name n ≠ .error (.unbalancedExit closing)) ∧
    ∀ name count, Document.ofTree settings name n = .error (.documentCount count) →
      count = 0 ∨ count = 2 := by
  have hlinked : (feed settings {} events).Linked := Linked.feed (.nothing rfl) settings events
  obtain ⟨s, hs⟩ := linked_iff_exists_sketch.1 hlinked
  intro b
  rw [show b = s.toBuilder from hs.symm]
  refine ⟨fun b' h => ?_, fun before x after b' hes h => ?_, fun b' h => ?_,
    fun name closing h => ?_, fun name count h => ?_⟩
  · obtain ⟨s', hrun, rfl⟩ := after?_toBuilder_eq_some.1 (after?_events_eq_some.2 h)
    rw [← Node.eventsOfAll_singleton] at hrun
    have := (Sketch.runs_of_eq_ok hrun).context
    rwa [← Node.preorder_eq] at this
  · obtain ⟨s', hrun, rfl⟩ := after?_toBuilder_eq_some.1 h
    rw [← Node.eventsOfAll_singleton] at hes
    obtain ⟨s'', hx⟩ := Sketch.exit_of_split hes hrun
    rw [Sketch.step_toBuilder, Sketch.step,
      show s'.advance settings (.exit x) = s'.exit x from rfl, hx]
  · obtain ⟨s', hrun, rfl⟩ :=
      (after?_toBuilder_eq_some (s := {})).1 (after?_events_eq_some.2 h)
    rw [Sketch.toBuilder, Sketch.focus_of_run_events hrun]
    rfl
  · rcases Document.ofTree_eq_error h with ⟨before, x, after, s, -, -, -, hx⟩ | h
    · exact Sketch.enter_eq_error hx
    · cases h
  · rcases Document.ofTree_eq_error h with ⟨before, x, after, s, -, -, hdocs, hx⟩ | h
    · obtain ⟨hne, hcount⟩ := Sketch.enter_eq_error hx
      omega
    · exact Or.inl (LoadError.documentCount.inj h)

/-- In the parameter list of a method, a wrapped throws list: the method is open behind it as it was
before, but its fields go to what it throws. -/
theorem walk_balanced_throws :
    let b := feed {} {} [.enter (.declaration .service "Shop" []), .enter (.function "buy" "void" [])]
    let n : Node := (Node.ofKind .other).push (.throwsList [.field "e" "SoldOut"])
    b.context = ⟨[.method 0 0, .declaration 0 .service]⟩ ∧
      ∃ b', (n.walk (handle {})).run b = .ok () b' ∧
        b'.context = ⟨[.throws 0 0, .declaration 0 .service]⟩ := by
  intro b n
  have hb : b.context = ⟨[.method 0 0, .declaration 0 .service]⟩ := by decide +kernel
  obtain ⟨b', h⟩ : ∃ b', after? {} b n.events = some b' :=
    Option.isSome_iff_exists.1 (by decide +kernel)
  have hwalk := after?_events_eq_some.1 h
  refine ⟨hb, b', hwalk, ?_⟩
  rw [(walk_balanced {} _ n).1 b' hwalk, hb]
  decide +kernel

end Builder

end IdlModel
