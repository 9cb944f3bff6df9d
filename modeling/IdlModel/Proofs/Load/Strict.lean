import IdlModel.Proofs.Load.Balance

/-!
# Strict and lenient loading

The settings matter in one place only, where a field is entered that nothing takes: a stray field.
Up to the first of them a strict run and a lenient one are the same (`Sketch.run_strict`), and there
the strict one ends (`Sketch.enter_strict_of_stray`). A tree without stray fields is loaded alike;
of any other only the first stray field counts for the strict result (`Document.ofTree_strict`).

Which fields are strays is a matter of the walk, and so is which node is refused: a place tells with
`Place.strays` and `Place.refusal?` what becomes of its node when the walk gets there.
-/

namespace IdlModel

/-- Stray fields are passed over. -/
def LoadSettings.lenient (normalize : String → String) : LoadSettings where
  strictFields := false
  normalize

/-- Stray fields are refused. -/
def LoadSettings.strict (normalize : String → String) : LoadSettings where
  strictFields := true
  normalize

/-- Why a stray field is refused: for its name, or for the want of one. -/
def Node.strayCause (n : Node) : LoadError :=
  if n.trimmedPart .identifier = "" then .missingField .field .identifier
  else .orphanField (n.trimmedPart .identifier)

namespace Place

/-- Does the walk get to the place, and is the node a field that nothing takes there? -/
def strays (settings : LoadSettings) (p : Place) : Bool :=
  p.kind == .field && (Builder.after? settings {} p.before).any (·.context.slot?.isNone)

/-- The cause for which the walk stops at the beginning of the node; none if it goes on there, or
does not get there. -/
def refusal? (settings : LoadSettings) (p : Place) : Option LoadError :=
  (Builder.after? settings {} p.before).bind fun b =>
    match (b.step settings (.enter p.node)).1 with
    | .ok _ => none
    | .error e => some e

end Place

/-- The stray fields of a tree, in preorder. -/
def Node.strays (settings : LoadSettings) (root : Node) : List Place :=
  root.places.filter (·.strays settings)

/-! ## Steps in both modes -/

namespace Sketch

open LoadSettings (lenient strict)

variable {settings : LoadSettings} {normalize : String → String} {s s₁ : Sketch} {n : Node}

/-- Is the event the beginning of a field that nothing takes? -/
def Strays (s : Sketch) : Event → Prop
  | .enter n => n.kind = .field ∧ s.focus.takesFields = false
  | .exit _ => False

/-- The modes differ at stray fields only. -/
theorem advance_strict {event : Event} (h : ¬ s.Strays event) :
    s.advance (strict normalize) event = s.advance (lenient normalize) event := by
  cases event with
  | exit n => rfl
  | enter n =>
    rw [advance, advance, enter, enter]
    cases hn : n.kind with
    | field =>
      have hf : s.focus.takesFields := by
        cases hf : s.focus.takesFields with
        | true => rfl
        | false => exact absurd ⟨hn, hf⟩ h
      simp only [enterField, if_pos hf]
    | _ => rfl

theorem enter_strict_of_stray (hn : n.kind = .field) (hf : s.focus.takesFields = false) :
    s.enter (strict normalize) n = .error n.strayCause := by
  simp only [enter, hn, enterField, hf, strict, Builder.requiredPart_eq, Node.strayCause]
  by_cases hp : n.trimmedPart .identifier = ""
  · rw [if_pos hp, if_pos hp]
    rfl
  · rw [if_neg hp, if_neg hp]
    rfl

/-- The runs are the same as long as no stray field is met. -/
theorem run_strict {es : List Event}
    (h : ∀ before event after s₁, es = before ++ event :: after →
      run (lenient normalize) s before = .ok s₁ → ¬ s₁.Strays event) :
    run (strict normalize) s es = run (lenient normalize) s es := by
  induction es generalizing s with
  | nil => rfl
  | cons event es ih =>
    rw [run_cons, run_cons, advance_strict (h [] event es s rfl rfl)]
    cases hs : s.advance (lenient normalize) event with
    | error e => rfl
    | ok s' =>
      refine ih fun before event' after s₁ hes h₁ => ?_
      refine h (event :: before) event' after s₁ (by rw [hes, List.cons_append]) ?_
      rw [run_cons, hs]
      exact h₁

theorem slot?_isNone (s : Sketch) : s.toBuilder.context.slot?.isNone = !s.focus.takesFields := by
  cases h : s.focus.takesFields with
  | true =>
    obtain ⟨slot, hslot, -⟩ := exists_slot h s.closed
    exact congrArg Option.isNone hslot
  | false => exact congrArg Option.isNone (slot?_eq_none h s.closed.length)

end Sketch

/-! ## Stray fields of a tree -/

namespace Place

variable {settings : LoadSettings} {p q : Place} {s : Sketch} {e : LoadError}

theorem strays_iff : p.strays settings ↔
    p.kind = .field ∧ ∃ s, Sketch.run settings {} p.before = .ok s ∧ s.focus.takesFields = false := by
  rw [strays, Bool.and_eq_true, beq_iff_eq, show ({} : Builder) = (Sketch.toBuilder {}) from rfl,
    Builder.after?_toBuilder]
  refine and_congr_right fun _ => ?_
  cases Sketch.run settings {} p.before with
  | error e => simp [Except.toOption]
  | ok s => simp [Except.toOption, Sketch.slot?_isNone]

theorem refusal?_eq_some : p.refusal? settings = some e ↔
    ∃ s, Sketch.run settings {} p.before = .ok s ∧ s.enter settings p.node = .error e := by
  rw [refusal?, show ({} : Builder) = (Sketch.toBuilder {}) from rfl, Builder.after?_toBuilder]
  cases Sketch.run settings {} p.before with
  | error e => simp [Except.toOption]
  | ok s =>
    simp only [Except.toOption, Option.map_some, Option.bind_some, Sketch.step_toBuilder,
      Sketch.step, Sketch.advance, Except.ok.injEq, exists_eq_left']
    cases s.enter settings p.node <;> simp

/-- Where a node is refused, the walk ends. -/
theorem run_of_refused (hs : Sketch.run settings {} p.before = .ok s)
    (he : s.enter settings p.node = .error e) {es : List Event}
    (hes : p.before ++ [.enter p.node] <+: es) : Sketch.run settings {} es = .error e := by
  obtain ⟨after, rfl⟩ := hes
  rw [List.append_assoc, Sketch.run_append, hs]
  show Sketch.run settings s (.enter p.node :: after) = _
  rw [Sketch.run_cons, show s.advance settings (.enter p.node) = s.enter settings p.node from rfl,
    he]
  rfl

end Place

namespace Node

open LoadSettings (lenient strict)

variable {normalize : String → String} {root : Node} {p q : Place} {rest : List Place}

/-- Up to the first stray field of a tree the runs are the same. -/
theorem run_strict_of_prefix {es : List Event} (hes : es <+: root.events)
    (h : ∀ p ∈ root.strays (lenient normalize), es.length ≤ p.moment) :
    Sketch.run (strict normalize) {} es = Sketch.run (lenient normalize) {} es := by
  obtain ⟨later, hlater⟩ := hes
  refine Sketch.run_strict fun before event after s₁ hsplit h₁ hstray => ?_
  cases event with
  | exit x => exact hstray
  | enter x =>
    rw [hsplit, List.append_assoc, List.cons_append] at hlater
    obtain ⟨p, hp, rfl, rfl⟩ := exists_place_of_enter_events hlater.symm
    have hmem : p ∈ root.strays (lenient normalize) :=
      List.mem_filter.2 ⟨hp, Place.strays_iff.2 ⟨hstray.1, s₁, h₁, hstray.2⟩⟩
    have := h p hmem
    rw [hsplit, List.length_append, List.length_cons, Place.moment] at this
    omega

/-- The same for a place that is not behind the first stray field. -/
theorem run_strict_of_place (hp : p ∈ root.places)
    (h : ∀ q ∈ root.strays (lenient normalize), p.moment ≤ q.moment) :
    Sketch.run (strict normalize) {} p.before = Sketch.run (lenient normalize) {} p.before :=
  run_strict_of_prefix ((List.prefix_append _ _).trans (enter_before_events root p hp)) h

theorem strays_strict_of_place (hp : p ∈ root.places)
    (h : ∀ q ∈ root.strays (lenient normalize), p.moment ≤ q.moment) :
    p.strays (strict normalize) = p.strays (lenient normalize) := by
  rw [Bool.eq_iff_iff, Place.strays_iff, Place.strays_iff, run_strict_of_place hp h]

/-- The first stray field comes before the others. -/
theorem moment_le_of_strays {settings : LoadSettings} (h : root.strays settings = p :: rest) :
    ∀ q ∈ root.strays settings, p.moment ≤ q.moment := by
  have hpw : (root.strays settings).Pairwise (·.moment < ·.moment) :=
    (pairwise_moment_places root).filter _
  rw [h, List.pairwise_cons] at hpw
  rw [h]
  intro q hq
  rcases List.mem_cons.1 hq with rfl | hq
  · exact Nat.le_refl _
  · exact Nat.le_of_lt (hpw.1 q hq)

/-- A strict walk gets to the first stray field, and stops there. -/
theorem refused_of_strays (h : root.strays (lenient normalize) = p :: rest) :
    ∃ s, Sketch.run (strict normalize) {} p.before = .ok s ∧
      s.enter (strict normalize) p.node = .error p.node.strayCause := by
  obtain ⟨hp, hstray⟩ : p ∈ root.places ∧ p.strays (lenient normalize) :=
    List.mem_filter.1 (h ▸ List.mem_cons_self : p ∈ root.strays (lenient normalize))
  obtain ⟨hk, s, hs, hf⟩ := Place.strays_iff.1 hstray
  rw [← run_strict_of_place hp (moment_le_of_strays h)] at hs
  exact ⟨s, hs, Sketch.enter_strict_of_stray hk hf⟩

/-- A strict walk meets the first stray field only. -/
theorem strays_strict (normalize : String → String) (root : Node) :
    root.strays (strict normalize) = (root.strays (lenient normalize)).take 1 := by
  cases h : root.strays (lenient normalize) with
  | nil =>
    refine List.filter_eq_nil_iff.2 fun q hq => ?_
    rw [strays_strict_of_place hq (by rw [h]; nofun)]
    exact List.filter_eq_nil_iff.1 h q hq
  | cons p rest =>
    have hfirst := moment_le_of_strays h
    obtain ⟨s, hs, he⟩ := refused_of_strays h
    obtain ⟨earlier, later, hplaces, hearlier, hp, -⟩ := List.filter_eq_cons_iff.1 h
    have hmem : ∀ q, q ∈ earlier ∨ q = p ∨ q ∈ later → q ∈ root.places := by
      intro q hq
      rw [hplaces]
      simpa using hq
    have hpw := pairwise_moment_places root
    rw [hplaces, List.pairwise_append, List.pairwise_cons] at hpw
    obtain ⟨-, ⟨hlater, -⟩, hbefore⟩ := hpw
    rw [strays, hplaces, List.filter_append, List.filter_cons, List.take_succ_cons, List.take_zero]
    have hpmem := hmem p (Or.inr (Or.inl rfl))
    rw [strays_strict_of_place hpmem hfirst, if_pos hp,
      List.filter_eq_nil_iff.2 fun q hq => ?_, List.filter_eq_nil_iff.2 fun q hq => ?_]
    · rfl
    · -- the strict walk does not get behind the first stray field
      intro hstray
      obtain ⟨-, s', hs', -⟩ := Place.strays_iff.1 hstray
      have hpq := enter_before_of_moment_lt hpmem (hmem q (Or.inr (Or.inr hq))) (hlater q hq)
      rw [Place.run_of_refused hs he hpq] at hs'
      cases hs'
    · rw [strays_strict_of_place (hmem q (Or.inl hq)) fun x hx => ?_]
      · exact hearlier q hq
      · exact Nat.le_of_lt (Nat.lt_of_lt_of_le (hbefore q hq p List.mem_cons_self) (hfirst x hx))

end Node

/-! ## Results -/

namespace Document

open LoadSettings (lenient strict)

variable {settings : LoadSettings} {normalize : String → String} {name : String} {root : Node}
  {p : Place} {e : LoadError}

/-- A tree is refused with the node at which the walk stops. -/
theorem ofTree_of_refused {s : Sketch} (hp : p ∈ root.places)
    (hs : Sketch.run settings {} p.before = .ok s) (he : s.enter settings p.node = .error e) :
    Document.ofTree settings name root = .error e := by
  rw [ofTree_eq_run, Place.run_of_refused hs he (Node.enter_before_events root p hp)]
  rfl

theorem ofTree_strict_of_strays {rest : List Place}
    (h : root.strays (lenient normalize) = p :: rest) :
    p.refusal? (strict normalize) = some p.node.strayCause ∧
      Document.ofTree (strict normalize) name root = .error p.node.strayCause := by
  obtain ⟨s, hs, he⟩ := Node.refused_of_strays h
  have hp : p ∈ root.strays (lenient normalize) := h ▸ List.mem_cons_self
  exact ⟨Place.refusal?_eq_some.2 ⟨s, hs, he⟩, ofTree_of_refused (List.mem_filter.1 hp).1 hs he⟩

theorem ofTree_strict_of_no_strays (h : root.strays (lenient normalize) = []) :
    Document.ofTree (strict normalize) name root = Document.ofTree (lenient normalize) name root := by
  rw [ofTree_eq_run, ofTree_eq_run,
    Node.run_strict_of_prefix List.prefix_rfl (by rw [h]; nofun)]

/-- The strict result is the lenient one, or the tree is refused for its first stray field, which
is the only one a strict walk gets to. So strict loading only refuses more, and where the lenient
walk stops before any stray field the strict one stops too. -/
theorem ofTree_strict (normalize : String → String) (name : String) (root : Node) :
    let S := Document.ofTree (strict normalize) name root
    let L := Document.ofTree (lenient normalize) name root
    root.strays (strict normalize) = (root.strays (lenient normalize)).take 1 ∧
    (∀ p, (root.strays (lenient normalize)).head? = some p →
      p.refusal? (strict normalize) = some p.node.strayCause ∧ S = .error p.node.strayCause) ∧
    (root.strays (lenient normalize) = [] → S = L) ∧
    (∀ d, S = .ok d → L = .ok d) ∧
    (∀ e, L = .error e → ∃ e', S = .error e') ∧
    ∀ q ∈ root.places, ∀ e, q.refusal? (lenient normalize) = some e → L = .error e ∧
      ((∀ p ∈ root.strays (lenient normalize), q.moment < p.moment) → S = .error e) := by
  intro S L
  have hfirst : ∀ p, (root.strays (lenient normalize)).head? = some p →
      p.refusal? (strict normalize) = some p.node.strayCause ∧ S = .error p.node.strayCause := by
    intro p hp
    obtain ⟨rest, h⟩ := List.head?_eq_some_iff.1 hp
    exact ofTree_strict_of_strays h
  have hnone : root.strays (lenient normalize) = [] → S = L := ofTree_strict_of_no_strays
  -- there is a stray field, which the strict walk refuses, or the results are the same
  have hcases : (∃ e, S = .error e) ∨ S = L := by
    cases h : root.strays (lenient normalize) with
    | nil => exact Or.inr (hnone h)
    | cons p rest => exact Or.inl ⟨_, (hfirst p (by rw [h]; rfl)).2⟩
  refine ⟨Node.strays_strict normalize root, hfirst, hnone, fun d hd => ?_, fun e he => ?_,
    fun q hq e he => ?_⟩
  · rcases hcases with ⟨e, he⟩ | h
    · rw [hd] at he
      cases he
    · rw [← h, hd]
  · rcases hcases with h | h
    · exact h
    · exact ⟨e, h.trans he⟩
  · obtain ⟨s, hs, hx⟩ := Place.refusal?_eq_some.1 he
    refine ⟨ofTree_of_refused hq hs hx, fun hlater => ?_⟩
    -- up to the place the runs are the same, and its node is no stray field there
    have hs' := hs
    rw [← Node.run_strict_of_place hq fun p hp => Nat.le_of_lt (hlater p hp)] at hs'
    refine ofTree_of_refused hq hs' ?_
    show s.advance _ (.enter q.node) = _
    rw [Sketch.advance_strict fun hstray => ?_]
    · exact hx
    · have hmem : q ∈ root.strays (lenient normalize) :=
        List.mem_filter.2 ⟨hq, Place.strays_iff.2 ⟨hstray.1, s, hs, hstray.2⟩⟩
      exact Nat.lt_irrefl _ (hlater q hmem)

end Document

/-- An enum with two stray fields, of which the first has no name. -/
def Node.stray : Node :=
  document [declaration .enum "Color" [ofKind .field, field "stray" "i32"]]

theorem Document.ofTree_strict_stray :
    let strays := Node.stray.strays (.lenient Comment.normalize)
    strays.length = 2 ∧ (Node.stray.strays (.strict Comment.normalize)).length = 1 ∧
      Document.ofTree (.lenient Comment.normalize) "color" Node.stray =
        .ok { name := "color", declarations := [{ name := "Color", body := .enum [] }] } ∧
      Document.ofTree (.strict Comment.normalize) "color" Node.stray =
        .error (.missingField .field .identifier) := by
  intro strays
  obtain ⟨hstrict, hfirst, -⟩ := ofTree_strict Comment.normalize "color" Node.stray
  have hcount : strays.length = 2 := by decide +kernel
  have hcause : strays.head?.map (·.node.strayCause) = some (.missingField .field .identifier) := by
    decide +kernel
  obtain ⟨p, hp, hcause⟩ := Option.map_eq_some_iff.1 hcause
  refine ⟨hcount, ?_, by decide +kernel, ?_⟩
  · rw [hstrict, List.length_take, hcount]
    rfl
  · rw [← hcause]
    exact (hfirst p hp).2

end IdlModel
