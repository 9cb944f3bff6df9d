import IdlModel.Proofs.Load.Linked

/-!
# A document under construction grows at its end

One step of a builder adds at most one thing to what has been written: a declaration with nothing in
it at the end of all of them, or an item at the end of one list of the last declaration
(`Builder.Appends`). What stands somewhere keeps its place, and of what has been written about it
nothing changes (`Kept`, `Declaration.Extends`, `Method.Extends`).

An end closes what it belongs to for good. In sketches this is plain, since what is closed is kept
apart from what is open: `Sketch.closed_step` says what a step does to the closed declarations and to
the closed methods of the open one. Steps are put together in `Builder.feed_appends`.
-/

namespace IdlModel

/-! ## Keeping what was written -/

/-- Every item has one in its place to which it is related. -/
def Kept {α : Type} (r : α → α → Prop) (as bs : List α) : Prop :=
  ∀ (i : Nat) (a : α), as[i]? = some a → ∃ b, bs[i]? = some b ∧ r a b

namespace Kept

variable {α : Type} {r : α → α → Prop} {as bs cs : List α}

theorem of_prefix (hr : ∀ a, r a a) (h : as <+: bs) : Kept r as bs := by
  intro i a ha
  obtain ⟨more, rfl⟩ := h
  obtain ⟨hi, -⟩ := List.getElem?_eq_some_iff.1 ha
  exact ⟨a, by rw [List.getElem?_append_left hi, ha], hr a⟩

theorem trans (hr : ∀ {a b c}, r a b → r b c → r a c) (h : Kept r as bs) (h' : Kept r bs cs) :
    Kept r as cs := by
  intro i a ha
  obtain ⟨b, hb, hab⟩ := h i a ha
  obtain ⟨c, hc, hbc⟩ := h' i b hb
  exact ⟨c, hc, hr hab hbc⟩

/-- Only the last item is replaced. -/
theorem last (hr : ∀ a, r a a) {a a' : α} (h : r a a') : Kept r (as ++ [a]) (as ++ [a']) := by
  intro i b hb
  obtain hi | hi := Nat.lt_or_ge i as.length
  · rw [List.getElem?_append_left hi] at hb
    exact ⟨b, by rw [List.getElem?_append_left hi, hb], hr b⟩
  · rw [List.getElem?_append_right hi, List.getElem?_singleton] at hb
    split at hb
    · next h0 =>
      obtain rfl := Option.some.inj hb
      exact ⟨a', by rw [List.getElem?_append_right hi, h0]; rfl, h⟩
    · cases hb

end Kept

/-- What was written of the method is still there, and there may be more behind its lists. -/
structure Method.Extends (m m' : Method) : Prop where
  name : m'.name = m.name
  comment : m'.comment = m.comment
  returnType : m'.returnType = m.returnType
  parameters : m.parameters <+: m'.parameters
  exceptions : m.exceptions <+: m'.exceptions

namespace Method.Extends

theorem refl (m : Method) : m.Extends m :=
  ⟨rfl, rfl, rfl, List.prefix_refl _, List.prefix_refl _⟩

theorem trans {m m' m'' : Method} (h : m.Extends m') (h' : m'.Extends m'') : m.Extends m'' where
  name := h'.name.trans h.name
  comment := h'.comment.trans h.comment
  returnType := h'.returnType.trans h.returnType
  parameters := h.parameters.trans h'.parameters
  exceptions := h.exceptions.trans h'.exceptions

end Method.Extends

/-- What was written of the declaration is still there, and there may be more behind its lists and
those of its methods. -/
structure Declaration.Extends (d d' : Declaration) : Prop where
  name : d'.name = d.name
  comment : d'.comment = d.comment
  kind : d'.kind = d.kind
  values : d.body.values <+: d'.body.values
  attributes : d.body.attributes <+: d'.body.attributes
  methods : Kept Method.Extends d.body.methods d'.body.methods

namespace Declaration.Extends

theorem refl (d : Declaration) : d.Extends d :=
  ⟨rfl, rfl, rfl, List.prefix_refl _, List.prefix_refl _,
    Kept.of_prefix Method.Extends.refl (List.prefix_refl _)⟩

theorem trans {d d' d'' : Declaration} (h : d.Extends d') (h' : d'.Extends d'') :
    d.Extends d'' where
  name := h'.name.trans h.name
  comment := h'.comment.trans h.comment
  kind := h'.kind.trans h.kind
  values := h.values.trans h'.values
  attributes := h.attributes.trans h'.attributes
  methods := h.methods.trans Method.Extends.trans h'.methods

end Declaration.Extends

/-! ## Adding one thing -/

/-- The second declaration is the first one with one more item at the end of one of its lists, or at
the end of one of the lists of its last method. -/
inductive Declaration.Appends : Declaration → Declaration → Prop where
  | value {name : String} {comment : Option String} {vs : List String} (v : String) :
    Appends ⟨name, comment, .enum vs⟩ ⟨name, comment, .enum (vs ++ [v])⟩
  | structAttribute {name : String} {comment : Option String} {as : List Attribute}
    (a : Attribute) : Appends ⟨name, comment, .struct as⟩ ⟨name, comment, .struct (as ++ [a])⟩
  | exceptionAttribute {name : String} {comment : Option String} {as : List Attribute}
    (a : Attribute) :
    Appends ⟨name, comment, .exception as⟩ ⟨name, comment, .exception (as ++ [a])⟩
  | method {name : String} {comment : Option String} {ms : List Method} (m : Method) :
    Appends ⟨name, comment, .service ms⟩ ⟨name, comment, .service (ms ++ [m])⟩
  | parameter {name : String} {comment : Option String} {ms : List Method} {m : Method}
    (a : Attribute) :
    Appends ⟨name, comment, .service (ms ++ [m])⟩
      ⟨name, comment, .service (ms ++ [{ m with parameters := m.parameters ++ [a] }])⟩
  | thrown {name : String} {comment : Option String} {ms : List Method} {m : Method}
    (t : TypeRef) :
    Appends ⟨name, comment, .service (ms ++ [m])⟩
      ⟨name, comment, .service (ms ++ [{ m with exceptions := m.exceptions ++ [t] }])⟩

theorem Declaration.Appends.extends {d d' : Declaration} (h : d.Appends d') : d.Extends d' := by
  have hnone : Kept Method.Extends [] [] := fun i a ha => by simp at ha
  cases h with
  | value v =>
    exact ⟨rfl, rfl, rfl, List.prefix_append _ _, List.prefix_refl _, hnone⟩
  | structAttribute a =>
    exact ⟨rfl, rfl, rfl, List.prefix_refl _, List.prefix_append _ _, hnone⟩
  | exceptionAttribute a =>
    exact ⟨rfl, rfl, rfl, List.prefix_refl _, List.prefix_append _ _, hnone⟩
  | method m =>
    exact ⟨rfl, rfl, rfl, List.prefix_refl _, List.prefix_refl _,
      Kept.of_prefix Method.Extends.refl (List.prefix_append _ _)⟩
  | parameter a =>
    exact ⟨rfl, rfl, rfl, List.prefix_refl _, List.prefix_refl _,
      Kept.last Method.Extends.refl
        ⟨rfl, rfl, rfl, List.prefix_append _ _, List.prefix_refl _⟩⟩
  | thrown t =>
    exact ⟨rfl, rfl, rfl, List.prefix_refl _, List.prefix_refl _,
      Kept.last Method.Extends.refl
        ⟨rfl, rfl, rfl, List.prefix_refl _, List.prefix_append _ _⟩⟩

namespace Builder

/-- The second list is the first one, or has one more declaration with nothing in it, or has one
more item in its last declaration. -/
inductive Appends : List Declaration → List Declaration → Prop where
  | nothing {ds : List Declaration} : Appends ds ds
  | declaration {ds : List Declaration} (kind : DeclarationKind) (name : String)
    (comment : Option String) : Appends ds (ds ++ [⟨name, comment, .empty kind⟩])
  | item {ds : List Declaration} {d d' : Declaration} (h : d.Appends d') :
    Appends (ds ++ [d]) (ds ++ [d'])

theorem Appends.kept {ds ds' : List Declaration} (h : Appends ds ds') :
    Kept Declaration.Extends ds ds' := by
  cases h with
  | nothing => exact Kept.of_prefix Declaration.Extends.refl (List.prefix_refl _)
  | declaration kind name comment =>
    exact Kept.of_prefix Declaration.Extends.refl (List.prefix_append _ _)
  | item h => exact Kept.last Declaration.Extends.refl h.extends

end Builder

/-! ## Steps of sketches -/

namespace Focus

/-- The methods of the open declaration that are closed. -/
def closedMethods : Focus → List Method
  | .nothing => []
  | .body d => d.body.methods
  | .method _ _ earlier _ _ => earlier

theorem appends_addField (ds : List Declaration) (f : Focus) (a : Attribute) :
    Builder.Appends (ds ++ f.declaration?.toList) (ds ++ (f.addField a).declaration?.toList) := by
  cases f using by_kind with
  | struct name comment as => exact .item (.structAttribute a)
  | exception name comment as => exact .item (.exceptionAttribute a)
  | parameters name comment earlier m => exact .item (.parameter a)
  | throws name comment earlier m => exact .item (.thrown a.type)
  | _ => exact .nothing

theorem closedMethods_addField (f : Focus) (a : Attribute) :
    (f.addField a).closedMethods = f.closedMethods := by
  cases f using by_kind <;> rfl

end Focus

namespace Sketch

open Builder (Appends)

variable {settings : LoadSettings} {s s' : Sketch} {n : Node}

/-- All that has been written. -/
def declarations (s : Sketch) : List Declaration :=
  s.closed ++ s.focus.declaration?.toList

theorem Entered.appends (h : Entered settings s n s') : Appends s.declarations s'.declarations := by
  rw [declarations, declarations]
  cases h with
  | declaration hn hf =>
    rw [hf, Focus.declaration?, Option.toList, List.append_nil]
    exact .declaration _ _ _
  | enumValue hn hf =>
    rw [hf]
    exact .item (.value _)
  | field hn => exact s.focus.appends_addField s.closed _
  | function hn hf =>
    rw [hf]
    exact .item (.method _)
  | throwsList hn hf =>
    rw [hf]
    exact .nothing
  | _ => exact .nothing

/-- The end of a node adds nothing. -/
theorem Exited.declarations_eq (h : Exited s n s') : s'.declarations = s.declarations := by
  rw [declarations, declarations]
  cases h with
  | declaration hn hf => simp [hf, Focus.declaration?]
  | function hn hf => simp [hf, Focus.declaration?]
  | other hn => rfl

theorem refuse_eq (s : Sketch) (event : Event) :
    (s.refuse event).closed = s.closed ∧ (s.refuse event).focus = s.focus := by
  cases event with
  | enter n => rw [refuse]; cases n.kind <;> exact ⟨rfl, rfl⟩
  | exit n => rw [refuse]; cases n.kind <;> exact ⟨rfl, rfl⟩

/-- What a step may make of a sketch: it goes in, or out, or leaves all that is written alone. -/
theorem step_cases (settings : LoadSettings) (s : Sketch) (event : Event) :
    (∃ n, Entered settings s n (s.step settings event).2) ∨
    (∃ n, Exited s n (s.step settings event).2) ∨
    (s.step settings event).2.closed = s.closed ∧ (s.step settings event).2.focus = s.focus := by
  rw [step]
  cases h : s.advance settings event with
  | error e => exact .inr (.inr (s.refuse_eq event))
  | ok s' =>
    cases event with
    | enter n => exact .inl ⟨n, entered_of_eq_ok h⟩
    | exit n => exact .inr (.inl ⟨n, exited_of_eq_ok h⟩)

theorem appends_step (settings : LoadSettings) (s : Sketch) (event : Event) :
    Appends s.declarations (s.step settings event).2.declarations := by
  obtain ⟨n, h⟩ | ⟨n, h⟩ | ⟨hclosed, hfocus⟩ := s.step_cases settings event
  · exact h.appends
  · rw [h.declarations_eq]
    exact .nothing
  · rw [declarations, declarations, hclosed, hfocus]
    exact .nothing

/-- What is closed in the second sketch is what is closed in the first one, with perhaps one more
method of the open declaration, or else with the declaration that was open. -/
def Closes (s s' : Sketch) : Prop :=
  s'.closed = s.closed ∧ s.focus.closedMethods <+: s'.focus.closedMethods ∨
    ∃ d, s.focus = .body d ∧ s'.closed = s.closed ++ [d]

theorem Entered.closes (h : Entered settings s n s') : s.Closes s' := by
  left
  cases h with
  | declaration hn hf => exact ⟨rfl, by rw [hf]; exact List.nil_prefix⟩
  | enumValue hn hf => exact ⟨rfl, by rw [hf]; exact List.prefix_refl _⟩
  | field hn => exact ⟨rfl, (s.focus.closedMethods_addField _).symm ▸ List.prefix_refl _⟩
  | function hn hf => exact ⟨rfl, by rw [hf]; exact List.prefix_refl _⟩
  | throwsList hn hf => exact ⟨rfl, by rw [hf]; exact List.prefix_refl _⟩
  | _ => exact ⟨rfl, List.prefix_refl _⟩

theorem Exited.closes (h : Exited s n s') : s.Closes s' := by
  cases h with
  | declaration hn hf => exact .inr ⟨_, hf, rfl⟩
  | function hn hf => exact .inl ⟨rfl, by rw [hf]; exact List.prefix_append _ _⟩
  | other hn => exact .inl ⟨rfl, List.prefix_refl _⟩

theorem closed_step (settings : LoadSettings) (s : Sketch) (event : Event) :
    s.Closes (s.step settings event).2 := by
  obtain ⟨n, h⟩ | ⟨n, h⟩ | ⟨hclosed, hfocus⟩ := s.step_cases settings event
  · exact h.closes
  · exact h.closes
  · exact .inl ⟨hclosed, hfocus.symm ▸ List.prefix_refl _⟩

/-- The method with these indices is closed. -/
def ClosedMethod (s : Sketch) (service method : Nat) (m : Method) : Prop :=
  (∃ d, s.closed[service]? = some d ∧ d.body.methods[method]? = some m) ∨
    service = s.closed.length ∧ s.focus.closedMethods[method]? = some m

theorem ClosedMethod.step {service method : Nat} {m : Method} (h : s.ClosedMethod service method m)
    (settings : LoadSettings) (event : Event) :
    (s.step settings event).2.ClosedMethod service method m := by
  obtain ⟨hclosed, hmethods⟩ | ⟨d, hd, hclosed⟩ := s.closed_step settings event
  · rw [ClosedMethod, hclosed]
    obtain h | ⟨hs, hm⟩ := h
    · exact .inl h
    · obtain ⟨more, hmore⟩ := hmethods
      obtain ⟨hlt, -⟩ := List.getElem?_eq_some_iff.1 hm
      exact .inr ⟨hs, by rw [← hmore, List.getElem?_append_left hlt, hm]⟩
  · rw [ClosedMethod, hclosed]
    left
    obtain ⟨d', hd', hm⟩ | ⟨rfl, hm⟩ := h
    · obtain ⟨hlt, -⟩ := List.getElem?_eq_some_iff.1 hd'
      exact ⟨d', by rw [List.getElem?_append_left hlt, hd'], hm⟩
    · rw [hd] at hm
      exact ⟨d, by simp, hm⟩

theorem closed_prefix_step (settings : LoadSettings) (s : Sketch) (event : Event) :
    s.closed <+: (s.step settings event).2.closed := by
  obtain ⟨hclosed, -⟩ | ⟨d, -, hclosed⟩ := s.closed_step settings event
  · exact hclosed.symm ▸ List.prefix_refl _
  · exact hclosed.symm ▸ List.prefix_append _ _

/-! ## Runs of sketches -/

/-- The sketch after a number of events; a refused event is passed over. -/
def feed (settings : LoadSettings) (s : Sketch) (events : List Event) : Sketch :=
  events.foldl (fun s event => (s.step settings event).2) s

theorem feed_toBuilder (settings : LoadSettings) (s : Sketch) (events : List Event) :
    s.toBuilder.feed settings events = (s.feed settings events).toBuilder := by
  induction events generalizing s with
  | nil => rfl
  | cons event events ih =>
    show (s.toBuilder.step settings event).2.feed settings events = _
    rw [step_toBuilder]
    exact ih (s.step settings event).2

theorem kept_feed (settings : LoadSettings) (s : Sketch) (events : List Event) :
    Kept Declaration.Extends s.declarations (s.feed settings events).declarations := by
  induction events generalizing s with
  | nil => exact Kept.of_prefix Declaration.Extends.refl (List.prefix_refl _)
  | cons event events ih =>
    exact (s.appends_step settings event).kept.trans Declaration.Extends.trans
      (ih (s.step settings event).2)

theorem closed_prefix_feed (settings : LoadSettings) (s : Sketch) (events : List Event) :
    s.closed <+: (s.feed settings events).closed := by
  induction events generalizing s with
  | nil => exact List.prefix_refl _
  | cons event events ih =>
    exact (s.closed_prefix_step settings event).trans (ih (s.step settings event).2)

theorem ClosedMethod.feed {service method : Nat} {m : Method}
    (h : s.ClosedMethod service method m) (settings : LoadSettings) (events : List Event) :
    (s.feed settings events).ClosedMethod service method m := by
  induction events generalizing s with
  | nil => exact h
  | cons event events ih => exact ih (h.step settings event)

theorem getElem?_declarations_of_closed {index : Nat} {d : Declaration}
    (h : s.closed[index]? = some d) : s.declarations[index]? = some d := by
  obtain ⟨hlt, -⟩ := List.getElem?_eq_some_iff.1 h
  rw [declarations, List.getElem?_append_left hlt, h]

/-! ## Ends that close something -/

theorem advance_of_step_ok {event : Event} (h : (s.step settings event).1 = .ok ()) :
    s.advance settings event = .ok (s.step settings event).2 := by
  rw [step] at h ⊢
  cases ha : s.advance settings event with
  | ok s' => rfl
  | error e => rw [ha] at h; cases h

/-- The end of a declaration closes the one that is open, which is of its kind. -/
theorem exit_declaration_of_ok {kind : DeclarationKind} (hn : n.kind = .declaration kind)
    (h : (s.step settings (.exit n)).1 = .ok ()) :
    ∃ d, s.focus = .body d ∧ d.kind = kind ∧
      (s.step settings (.exit n)).2.closed = s.closed ++ [d] := by
  have hexit : s.exit n = .ok (s.step settings (.exit n)).2 := advance_of_step_ok h
  obtain ⟨d, hd, hs⟩ := exit_declaration_eq_ok hn hexit
  refine ⟨d, hd, Decidable.byContradiction fun hkind => ?_, congrArg closed hs⟩
  rw [exit, hn, hd] at hexit
  simp only [if_neg hkind, reduceCtorEq] at hexit

/-- The end of a function closes the method that is open. -/
theorem exit_function_of_ok (hn : n.kind = .function)
    (h : (s.step settings (.exit n)).1 = .ok ()) :
    ∃ service comment earlier m thrown, s.focus = .method service comment earlier m thrown ∧
      (s.step settings (.exit n)).2.ClosedMethod s.closed.length earlier.length m := by
  obtain ⟨service, comment, earlier, m, thrown, hf, hs⟩ :=
    exit_function_eq_ok hn (advance_of_step_ok h)
  refine ⟨service, comment, earlier, m, thrown, hf, ?_⟩
  rw [hs]
  exact .inr ⟨rfl, by simp [Focus.closedMethods, Body.methods]⟩

end Sketch

/-! ## Builders -/

/-- The innermost method, by the indices of its service and of itself. -/
def Context.method? (c : Context) : Option (Nat × Nat) :=
  match c.frames with
  | .method service method :: _ => some (service, method)
  | .throws service method :: _ => some (service, method)
  | _ => none

/-- The method with these indices. -/
def Builder.method? (b : Builder) (service method : Nat) : Option Method :=
  b.declarations[service]?.bind (·.body.methods[method]?)

namespace Sketch

theorem ClosedMethod.method? {s : Sketch} {service method : Nat} {m : Method}
    (h : s.ClosedMethod service method m) : s.toBuilder.method? service method = some m := by
  show s.declarations[service]?.bind (·.body.methods[method]?) = some m
  obtain ⟨d, hd, hm⟩ | ⟨rfl, hm⟩ := h
  · rw [getElem?_declarations_of_closed hd]
    exact hm
  · obtain ⟨closed, focus, pending, documents⟩ := s
    cases focus with
    | nothing => cases hm
    | body d =>
      replace hm : d.body.methods[method]? = some m := hm
      simp [declarations, Focus.declaration?, hm]
    | method name comment earlier m' thrown =>
      replace hm : earlier[method]? = some m := hm
      obtain ⟨hlt, -⟩ := List.getElem?_eq_some_iff.1 hm
      simp [declarations, Focus.declaration?, Body.methods, List.getElem?_append_left hlt, hm]

/-- What the context of a builder says of an open declaration. -/
theorem toBuilder_of_body {s : Sketch} {d : Declaration} (hf : s.focus = .body d) :
    s.toBuilder.context.declaration? = some (s.closed.length, d.kind) ∧
      s.toBuilder.declarations[s.closed.length]? = some d := by
  obtain ⟨closed, focus, pending, documents⟩ := s
  obtain rfl : focus = .body d := hf
  exact ⟨rfl, by simp [toBuilder, Focus.declaration?]⟩

/-- What the context of a builder says of an open method. -/
theorem toBuilder_of_method {s : Sketch} {service : String} {comment : Option String}
    {earlier : List Method} {m : Method} {thrown : Bool}
    (hf : s.focus = .method service comment earlier m thrown) :
    s.toBuilder.context.method? = some (s.closed.length, earlier.length) ∧
      s.toBuilder.method? s.closed.length earlier.length = some m := by
  obtain ⟨closed, focus, pending, documents⟩ := s
  obtain rfl : focus = .method service comment earlier m thrown := hf
  refine ⟨by cases thrown <;> rfl, ?_⟩
  simp [Builder.method?, toBuilder, Focus.declaration?, Body.methods]

end Sketch

namespace Builder

theorem declarations_of_finish {b : Builder} {name : String} {d : Document}
    (h : b.finish name = .ok d) : d.declarations = b.declarations := by
  rw [finish] at h
  split at h
  · cases h
  · split at h
    · cases h
    · exact (congrArg Document.declarations (Except.ok.inj h)).symm

/-- Whatever events a builder has been shown, in whatever order and with whatever was refused among
them: a further event, refused or not, adds at most one thing, at the end; what has been written
stays what it was in every later state; and what an end that is not refused has closed, be it a
declaration or a method, is the same from then on. The document is what has been written when the
builder finishes. -/
theorem feed_appends (settings : LoadSettings) (events : List Event) :
    let b := feed settings {} events
    (∀ event, Appends b.declarations (b.step settings event).2.declarations) ∧
    (∀ later, Kept Declaration.Extends b.declarations (b.feed settings later).declarations) ∧
    (∀ n kind, n.kind = .declaration kind → (b.step settings (.exit n)).1 = .ok () →
      ∃ index d, b.context.declaration? = some (index, kind) ∧ b.declarations[index]? = some d ∧
        ∀ later, ((b.step settings (.exit n)).2.feed settings later).declarations[index]? =
          some d) ∧
    (∀ n, n.kind = .function → (b.step settings (.exit n)).1 = .ok () →
      ∃ service method m, b.context.method? = some (service, method) ∧
        b.method? service method = some m ∧
        ∀ later, ((b.step settings (.exit n)).2.feed settings later).method? service method =
          some m) ∧
    ∀ name d, b.finish name = .ok d → d.declarations = b.declarations := by
  intro b
  have hlinked : b.Linked := Linked.feed (.nothing rfl) settings events
  obtain ⟨s, hs⟩ := linked_iff_exists_sketch.1 hlinked
  rw [← hs]
  refine ⟨fun event => ?_, fun later => ?_, fun n kind hn h => ?_, fun n hn h => ?_,
    fun name d => declarations_of_finish⟩
  · rw [Sketch.step_toBuilder]
    exact s.appends_step settings event
  · rw [Sketch.feed_toBuilder]
    exact s.kept_feed settings later
  · rw [Sketch.step_toBuilder] at h
    obtain ⟨d, hf, rfl, hclosed⟩ := Sketch.exit_declaration_of_ok hn h
    obtain ⟨hcontext, hd⟩ := Sketch.toBuilder_of_body hf
    refine ⟨_, d, hcontext, hd, fun later => ?_⟩
    rw [Sketch.step_toBuilder, Sketch.feed_toBuilder]
    obtain ⟨more, hmore⟩ := (s.step settings (.exit n)).2.closed_prefix_feed settings later
    refine Sketch.getElem?_declarations_of_closed ?_
    rw [← hmore, hclosed]
    simp
  · rw [Sketch.step_toBuilder] at h
    obtain ⟨service, comment, earlier, m, thrown, hf, hm⟩ := Sketch.exit_function_of_ok hn h
    obtain ⟨hcontext, hbefore⟩ := Sketch.toBuilder_of_method hf
    refine ⟨_, _, m, hcontext, hbefore, fun later => ?_⟩
    rw [Sketch.step_toBuilder, Sketch.feed_toBuilder]
    exact (hm.feed settings later).method?

/-- A method with a parameter, closed by the end of its function: no later event reaches it. -/
theorem feed_appends_shop :
    let buy : Node := .function "buy" "void" []
    let b := feed {} {} [.enter (.declaration .service "Shop" []), .enter buy,
      .enter (.field "item" "i32")]
    (b.step {} (.exit buy)).1 = .ok () ∧
      ∀ later, ((b.step {} (.exit buy)).2.feed {} later).method? 0 0 =
        some { name := "buy", returnType := ⟨"void"⟩, parameters := [⟨"item", ⟨"i32"⟩, none⟩] } := by
  intro buy b
  have hexit : (b.step {} (.exit buy)).1 = .ok () := by decide +kernel
  have hopen : b.context.method? = some (0, 0) := by decide +kernel
  have hbuy : b.method? 0 0 =
      some { name := "buy", returnType := ⟨"void"⟩, parameters := [⟨"item", ⟨"i32"⟩, none⟩] } := by
    decide +kernel
  obtain ⟨service, method, m, hcontext, hm, hlater⟩ :=
    (feed_appends {} _).2.2.2.1 buy rfl hexit
  obtain ⟨rfl, rfl⟩ := Prod.mk.inj (Option.some.inj (hopen.symm.trans hcontext))
  obtain rfl := Option.some.inj (hbuy.symm.trans hm)
  exact ⟨hexit, hlater⟩

end Builder

end IdlModel
