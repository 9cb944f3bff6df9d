import IdlModel.Proofs.Load.Site
import IdlModel.Proofs.Load.Step

/-!
# What is open is what was written last

A builder keeps what has been written in one list and what is open in a stack of frames, and only
indices tie the two together. `Builder.Linked` says that they fit: nothing is open, or the last
declaration is, or the last method of a service that is the last declaration.

A builder is linked exactly if it is that of a sketch (`Builder.linked_iff_exists_sketch`), and
sketches have no indices that could go wrong. So every step keeps a builder linked, refused steps
too, and none is refused because an index leads nowhere (`Builder.Linked.step`). Events may come in
any order: that beginnings and ends belong together is not asked for.
-/

namespace IdlModel

/-! ## Why a step is refused -/

/-- May the beginning of a node be refused for this cause, if there were some document nodes before
it? -/
def LoadError.RefusesEntry (documents : Nat) : LoadError → Prop
  | .unbalancedExit _ | .staleContext => False
  | .documentCount found => documents ≠ 0 ∧ found = documents + 1
  | _ => True

/-- A missing part is such a cause, so only what follows the look at the part matters. -/
theorem Builder.refusesEntry_of_bind {α : Type} {n : Node} {p : Part}
    {f : String → Except LoadError α} {e : LoadError} {documents : Nat}
    (h : requiredPart n p >>= f = .error e)
    (hf : f (n.trimmedPart p) = .error e → e.RefusesEntry documents) :
    e.RefusesEntry documents := by
  rw [requiredPart_eq] at h
  by_cases hp : n.trimmedPart p = ""
  · rw [if_pos hp] at h
    exact Except.error.inj h ▸ trivial
  · rw [if_neg hp] at h
    exact hf h

open Builder (refusesEntry_of_bind)

theorem Site.refusesEntry_of_verdict {strict : Bool} {site : Site} {documents : Nat} {n : Node}
    {e : LoadError} (h : site.verdict strict documents n = .error e) :
    e.RefusesEntry documents := by
  rw [verdict] at h
  cases hn : n.kind with
  | document =>
    simp only [hn] at h
    split at h
    · cases h
    · next hd => exact Except.error.inj h ▸ ⟨hd, rfl⟩
  | declaration k =>
    simp only [hn] at h
    refine refusesEntry_of_bind h fun h => ?_
    split at h
    · exact Except.error.inj h ▸ trivial
    · cases h
  | enumValue =>
    simp only [hn] at h
    refine refusesEntry_of_bind h fun h => ?_
    split at h
    · cases h
    · exact Except.error.inj h ▸ trivial
  | field =>
    simp only [hn] at h
    split at h
    · refine refusesEntry_of_bind h fun h => refusesEntry_of_bind h fun h => ?_
      cases h
    · split at h
      · refine refusesEntry_of_bind h fun h => ?_
        exact Except.error.inj h ▸ trivial
      · cases h
  | function =>
    simp only [hn] at h
    refine refusesEntry_of_bind h fun h => ?_
    split at h
    · refine refusesEntry_of_bind h fun h => ?_
      cases h
    · exact Except.error.inj h ▸ trivial
  | throwsList =>
    simp only [hn] at h
    split at h
    · cases h
    · exact Except.error.inj h ▸ trivial
  | _ =>
    simp only [hn] at h
    cases h

namespace Sketch

variable {settings : LoadSettings} {s : Sketch} {n : Node} {e : LoadError}

theorem enter_eq_error (h : s.enter settings n = .error e) : e.RefusesEntry s.documents := by
  have hf := enter_follows settings s n
  cases hv : s.focus.site.verdict settings.strictFields s.documents n with
  | error e' =>
    rw [hv, h] at hf
    exact Except.error.inj hf ▸ Site.refusesEntry_of_verdict hv
  | ok u =>
    rw [hv, h] at hf
    obtain ⟨s', hs', -⟩ := hf
    cases hs'

theorem exit_eq_error (h : s.exit n = .error e) : ∃ closing, e = .unbalancedExit closing := by
  rw [exit] at h
  cases hn : n.kind with
  | declaration k =>
    simp only [hn] at h
    split at h
    · split at h
      · cases h
      · exact ⟨_, (Except.error.inj h).symm⟩
    · exact ⟨_, (Except.error.inj h).symm⟩
  | function =>
    simp only [hn] at h
    split at h
    · cases h
    · exact ⟨_, (Except.error.inj h).symm⟩
  | _ =>
    simp only [hn] at h
    cases h

theorem advance_ne_staleContext (s : Sketch) (event : Event) :
    s.advance settings event ≠ .error .staleContext := by
  intro h
  cases event with
  | enter n => exact enter_eq_error h
  | exit n =>
    obtain ⟨closing, hc⟩ := exit_eq_error h
    cases hc

end Sketch

/-! ## Frames and entities -/

namespace Builder

/-- The last declaration has this index and is of this kind. -/
def EndsIn (b : Builder) (index : Nat) (kind : DeclarationKind) : Prop :=
  index + 1 = b.declarations.length ∧ b.declarations[index]?.map Declaration.kind = some kind

/-- The last declaration is a service of this index, and its last method has that one. -/
def EndsInMethod (b : Builder) (service method : Nat) : Prop :=
  b.EndsIn service .service ∧ method + 1 = b.methodCount service

/-- What is open is the last declaration, or the last method of the last declaration, or nothing. -/
inductive Linked (b : Builder) : Prop where
  | nothing (frames : b.context.frames = [])
  | body {index : Nat} {kind : DeclarationKind}
    (frames : b.context.frames = [.declaration index kind]) (last : b.EndsIn index kind)
  | parameters {service method : Nat}
    (frames : b.context.frames = [.method service method, .declaration service .service])
    (last : b.EndsInMethod service method)
  | throws {service method : Nat}
    (frames : b.context.frames = [.throws service method, .declaration service .service])
    (last : b.EndsInMethod service method)

variable {b : Builder}

theorem EndsIn.exists_last {index : Nat} {kind : DeclarationKind} (h : b.EndsIn index kind) :
    ∃ ds d, b.declarations = ds ++ [d] ∧ index = ds.length ∧ d.kind = kind := by
  obtain ⟨hlen, hkind⟩ := h
  rcases List.eq_nil_or_concat b.declarations with hds | ⟨ds, d, hds⟩
  · rw [hds, List.length_nil] at hlen
    omega
  · rw [List.concat_eq_append] at hds
    rw [hds, List.length_append, List.length_singleton] at hlen
    obtain rfl : index = ds.length := by omega
    refine ⟨ds, d, hds, rfl, ?_⟩
    rw [hds] at hkind
    simpa using hkind

theorem EndsInMethod.exists_last {service method : Nat} (h : b.EndsInMethod service method) :
    ∃ ds name comment earlier m,
      b.declarations = ds ++ [⟨name, comment, .service (earlier ++ [m])⟩] ∧
        service = ds.length ∧ method = earlier.length := by
  obtain ⟨hlast, hcount⟩ := h
  obtain ⟨ds, ⟨name, comment, body⟩, hds, rfl, hkind⟩ := hlast.exists_last
  rw [methodCount_last ds _ hds] at hcount
  cases body with
  | service ms =>
    rcases List.eq_nil_or_concat ms with rfl | ⟨earlier, m, rfl⟩
    · cases hcount
    · rw [List.concat_eq_append] at hds
      refine ⟨ds, name, comment, earlier, m, hds, rfl, ?_⟩
      simpa [Body.methods] using hcount
  | _ => cases hkind

theorem linked_toBuilder (s : Sketch) : s.toBuilder.Linked := by
  obtain ⟨closed, focus, pending, documents⟩ := s
  have hlast (d : Declaration) (b : Builder) (hb : b.declarations = closed ++ [d]) :
      b.EndsIn closed.length d.kind := by
    simp [EndsIn, hb]
  have hmethod (name : String) (comment : Option String) (earlier : List Method) (m : Method)
      (b : Builder) (hb : b.declarations = closed ++ [⟨name, comment, .service (earlier ++ [m])⟩]) :
      b.EndsInMethod closed.length earlier.length :=
    ⟨hlast ⟨name, comment, .service _⟩ b hb, by rw [methodCount_last closed _ hb]; simp [Body.methods]⟩
  cases focus with
  | nothing => exact .nothing rfl
  | body d => exact .body rfl (hlast d _ rfl)
  | method service comment earlier m thrown =>
    cases thrown with
    | false => exact .parameters rfl (hmethod service comment earlier m _ rfl)
    | true => exact .throws rfl (hmethod service comment earlier m _ rfl)

theorem Linked.exists_sketch (h : b.Linked) : ∃ s : Sketch, s.toBuilder = b := by
  obtain ⟨declarations, ⟨frames⟩, ⟨pending⟩, documents⟩ := b
  cases h with
  | nothing hopen =>
    obtain rfl : frames = [] := hopen
    exact ⟨⟨declarations, .nothing, pending, documents⟩, by
      simp [Sketch.toBuilder, Focus.declaration?, Focus.frames]⟩
  | body hopen hlast =>
    obtain ⟨ds, d, hds, rfl, rfl⟩ := hlast.exists_last
    obtain rfl : declarations = ds ++ [d] := hds
    obtain rfl : frames = _ := hopen
    exact ⟨⟨ds, .body d, pending, documents⟩, rfl⟩
  | parameters hopen hlast =>
    obtain ⟨ds, name, comment, earlier, m, hds, rfl, rfl⟩ := hlast.exists_last
    obtain rfl : declarations = ds ++ _ := hds
    obtain rfl : frames = _ := hopen
    exact ⟨⟨ds, .method name comment earlier m false, pending, documents⟩, rfl⟩
  | throws hopen hlast =>
    obtain ⟨ds, name, comment, earlier, m, hds, rfl, rfl⟩ := hlast.exists_last
    obtain rfl : declarations = ds ++ _ := hds
    obtain rfl : frames = _ := hopen
    exact ⟨⟨ds, .method name comment earlier m true, pending, documents⟩, rfl⟩

/-- The linked builders are those that sketches stand for. -/
theorem linked_iff_exists_sketch : b.Linked ↔ ∃ s : Sketch, s.toBuilder = b :=
  ⟨Linked.exists_sketch, fun ⟨s, hs⟩ => hs ▸ linked_toBuilder s⟩

/-! ## Steps and runs -/

/-- A step leaves a builder linked, and finds what it refers to. -/
theorem Linked.step (h : b.Linked) (settings : LoadSettings) (event : Event) :
    (b.step settings event).2.Linked ∧ (b.step settings event).1 ≠ .error .staleContext := by
  obtain ⟨s, rfl⟩ := linked_iff_exists_sketch.1 h
  rw [Sketch.step_toBuilder]
  refine ⟨linked_toBuilder _, ?_⟩
  rw [Sketch.step]
  cases hs : s.advance settings event with
  | ok s' =>
    intro he
    cases he
  | error e =>
    intro he
    obtain rfl := Except.error.inj he
    exact Sketch.advance_ne_staleContext s event hs

theorem Linked.feed (h : b.Linked) (settings : LoadSettings) (events : List Event) :
    (b.feed settings events).Linked := by
  induction events generalizing b with
  | nil => exact h
  | cons event events ih => exact ih (h.step settings event).1

/-- Whatever events a builder is shown, in whatever order and with whatever is refused among them,
what is open is what was written last, and no step refers to something that is not there. -/
theorem linked_feed (settings : LoadSettings) (events : List Event) :
    (feed settings {} events).Linked ∧
      ∀ event, (step settings (feed settings {} events) event).1 ≠ .error .staleContext := by
  have h : (feed settings {} events).Linked := Linked.feed (.nothing rfl) settings events
  exact ⟨h, fun event => (h.step settings event).2⟩

end Builder

end IdlModel
