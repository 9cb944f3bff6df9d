import IdlModel.Proofs.Load.Acceptance
import IdlModel.Proofs.Node.Row
import Mathlib.Data.List.Induction

/-!
# The first node that offends

Why a tree is refused, told without a walk. `Place.offence?` finds what is wrong with a node where
it stands, from its ancestors and from the document nodes and throws lists before it. A tree is
refused for the first of its nodes in preorder that offends, and whatever is behind that node does
not matter (`Document.ofTree_first_offence`).

A walk judges a node by what is open, and in a tree that is far off the rules that can be anything.
Up to the first node that offends it is the innermost declaration, and within it perhaps a function:
there, and only there, both views agree (`Place.verdict_eq_refused`).
-/

namespace IdlModel

open Builder (requiredPart requiredPart_eq)

/-- The kind of the innermost of a number of ancestors that is a declaration. -/
def enclosingOf? (above : List Spot) : Option DeclarationKind :=
  above.findSome? (·.node.kind.declarationKind?)

/-- The cause to refuse a node without a part, or with a blank one. -/
def Node.lack? (n : Node) (part : Part) : Option LoadError :=
  if n.trimmedPart part = "" then some (.missingField n.kind part) else none

namespace Place

/-- The trimmed name of the node. -/
def name (p : Place) : String :=
  p.node.trimmedPart .identifier

/-- Is one of the places a throws list with the same scope? -/
def repeatsThrows (earlier : List Place) (p : Place) : Bool :=
  earlier.any fun q => q.kind == .throwsList && q.scope?.map Spot.moment == p.scope?.map Spot.moment

/-- What is wrong with a node where it stands, after the places before it; the first thing, if there
are several. -/
def offence? (strict : Bool) (earlier : List Place) (p : Place) : Option LoadError :=
  match p.kind with
  | .document => if earlier.any (·.kind == .document) then some (.documentCount 2) else none
  | .declaration k =>
    (p.node.lack? .identifier).or ((enclosingOf? p.above).map (.nestedDeclaration k p.name))
  | .enumValue =>
    (p.node.lack? .identifier).or <|
      if p.scopeKind? = some (.declaration .enum) then none else some (.enumValueOutsideEnum p.name)
  | .function =>
    (p.node.lack? .identifier).or <|
      if p.scopeKind? = some (.declaration .service) then p.node.lack? .functionType
      else some (.functionOutsideService p.name)
  | .throwsList =>
    if p.scopeKind? = some .function ∧ p.repeatsThrows earlier = false then none
    else some .throwsOutsideFunction
  | .field =>
    if p.amongFields then (p.node.lack? .identifier).or (p.node.lack? .fieldType)
    else if strict then (p.node.lack? .identifier).or (some (.orphanField p.name))
    else none
  | .commentMultiline | .commentSingleline | .other => none

end Place

/-- None of the places offends, after those before it. -/
def Unoffending (strict : Bool) (ps : List Place) : Prop :=
  ∀ earlier p later, ps = earlier ++ p :: later → p.offence? strict earlier = none

/-- The place is the first of the tree that offends, after these places and in this way. -/
structure FirstOffence (strict : Bool) (root : Node) (earlier : List Place) (p : Place)
    (e : LoadError) : Prop where
  places : ∃ later, root.places = earlier ++ p :: later
  unoffending : Unoffending strict earlier
  offence : p.offence? strict earlier = some e

theorem unoffending_nil (strict : Bool) : Unoffending strict [] := by
  intro earlier p later h
  exact absurd h.symm (by simp)

theorem unoffending_snoc {strict : Bool} {ps : List Place} {p : Place} :
    Unoffending strict (ps ++ [p]) ↔ Unoffending strict ps ∧ p.offence? strict ps = none := by
  constructor
  · intro h
    refine ⟨fun earlier q later hps => h earlier q (later ++ [p]) ?_, h ps p [] rfl⟩
    rw [hps, List.append_assoc, List.cons_append]
  · rintro ⟨hps, hp⟩ earlier q later h
    rcases Node.append_eq_append_cons h with ⟨rest, hq⟩ | ⟨rest, rfl, hrest⟩
    · exact hps earlier q rest hq
    · cases rest with
      | nil =>
        obtain ⟨rfl, -⟩ := List.cons_eq_cons.1 hrest
        rw [List.append_nil]
        exact hp
      | cons x rest => simp at hrest

/-! ## What is around a node that the walk gets to -/

section Enclosing

variable {above : List Spot} {q : Spot}

theorem declarationKind?_of_not_opensScope {k : NodeKind} (h : k.opensScope = false) :
    k.declarationKind? = none := by
  cases k with
  | declaration k => cases h
  | _ => rfl

/-- Inside of the scope there are no declarations. -/
theorem enclosingOf?_of_scopeOf? (h : scopeOf? above = some q) :
    ∃ inner outer, above = inner ++ q :: outer ∧
      enclosingOf? above = q.node.kind.declarationKind?.or (enclosingOf? outer) := by
  rw [scopeOf?, List.find?_eq_some_iff_append] at h
  obtain ⟨-, inner, outer, rfl, hinner⟩ := h
  refine ⟨inner, outer, rfl, ?_⟩
  have hnone : inner.findSome? (·.node.kind.declarationKind?) = none :=
    List.findSome?_eq_none_iff.2 fun a ha =>
      declarationKind?_of_not_opensScope (by simpa using hinner a ha)
  rw [enclosingOf?, List.findSome?_append, hnone, List.findSome?_cons]
  cases q.node.kind.declarationKind? <;> rfl

theorem enclosingOf?_of_none (h : scopeOf? above = none) : enclosingOf? above = none :=
  List.findSome?_eq_none_iff.2 fun a ha =>
    declarationKind?_of_not_opensScope (by simpa using List.find?_eq_none.1 h a ha)

end Enclosing

section Judged

variable {strict : Bool} {root : Node} {earlier later : List Place} {p : Place}

/-- The ancestors of a place that the walk gets to are places before it. -/
theorem exists_earlier_of_above (hplaces : root.places = earlier ++ p :: later)
    (hok : verdicts strict [] earlier = .ok ()) {inner outer : List Spot} {a : Spot}
    (ha : p.above = inner ++ a :: outer) : ∃ q ∈ earlier, q.spot = a ∧ q.above = outer := by
  have hlt : a.moment < p.moment := by
    rw [Node.places_eq] at hplaces
    have hrun := Sketch.run_follows_place { strictFields := strict } .start hplaces rfl
    rw [hok] at hrun
    obtain ⟨s, -, htracks⟩ := hrun
    exact htracks.around a (ha ▸ List.mem_append_cons_self)
  have hp : p ∈ root.places := hplaces ▸ List.mem_append_cons_self
  have hpw := Node.pairwise_moment_places root
  rw [Node.places_eq] at hp
  rcases Node.exists_place_of_above p hp inner a outer ha with hs | ⟨q, hq, rfl, hqo⟩
  · exact absurd (List.eq_nil_of_suffix_nil hs) (List.cons_ne_nil _ _)
  · refine ⟨q, ?_, rfl, hqo⟩
    rw [← Node.places_eq, hplaces] at hq
    rw [hplaces, List.pairwise_append, List.pairwise_cons] at hpw
    rcases List.mem_append.1 hq with hq | hq
    · exact hq
    · -- what comes behind the place is not entered before it
      rcases List.mem_cons.1 hq with rfl | hq
      · exact absurd hlt (Nat.lt_irrefl _)
      · exact absurd (hpw.2.1.1 q hq) (Nat.lt_asymm hlt)

/-- Where the walk gets to, the open declaration is the innermost one around the node. -/
theorem declarationKind?_siteAt (hplaces : root.places = earlier ++ p :: later)
    (hok : verdicts strict [] earlier = .ok ()) :
    (siteAt earlier p.above).declarationKind? = enclosingOf? p.above := by
  rcases scopeOf?_cases p.above with hs | ⟨q, k, hs, hk⟩ | ⟨q, hs, hk⟩
  · rw [siteAt_of_none hs, enclosingOf?_of_none hs]
    rfl
  · obtain ⟨inner, outer, -, hout⟩ := enclosingOf?_of_scopeOf? hs
    rw [siteAt_of_declaration hs hk, hout, hk]
    rfl
  · -- the function around the node stands in a service, or it would have been refused
    obtain ⟨inner, outer, habove, hout⟩ := enclosingOf?_of_scopeOf? hs
    obtain ⟨x, hx, rfl, hxo⟩ := exists_earlier_of_above hplaces hok habove
    have hsound := (verdicts_eq_ok_iff.1 hok).1 x hx
    rw [Place.Sound, show x.kind = .function from hk] at hsound
    obtain ⟨r, hr, hrk⟩ := Place.scopeKind?_eq_some.1 hsound.2.1
    obtain ⟨-, outer', -, hout'⟩ := enclosingOf?_of_scopeOf? hr
    rw [hout, hk, ← hxo, hout', hrk, siteAt_of_function hs hk]
    split <;> rfl

end Judged

namespace Place

/-- The verdict on a node with which this is wrong, or nothing. -/
def refused : Option LoadError → Except LoadError Unit
  | some e => .error e
  | none => .ok ()

variable {strict : Bool} {root : Node} {earlier later : List Place} {p : Place}

theorem requiredPart_bind_eq_refused {n : Node} {part : Part} {f : String → Except LoadError Unit}
    {offence? : Option LoadError} (h : f (n.trimmedPart part) = refused offence?) :
    requiredPart n part >>= f = refused ((n.lack? part).or offence?) := by
  rw [requiredPart_eq, Node.lack?]
  by_cases hn : n.trimmedPart part = ""
  · rw [if_pos hn, if_pos hn]
    rfl
  · rw [if_neg hn, if_neg hn]
    exact h

theorem requiredPart_bind_ok_eq_refused (n : Node) (part : Part) :
    (requiredPart n part >>= fun _ => .ok ()) = refused (n.lack? part) := by
  rw [← Option.or_none (o := n.lack? part)]
  exact requiredPart_bind_eq_refused rfl

theorem repeatsThrows_eq_any {q : Spot} (hq : p.scope? = some q) :
    p.repeatsThrows earlier = earlier.any (·.throwsIn q.moment) := by
  rw [repeatsThrows, hq]
  refine congrArg _ (funext fun x => ?_)
  rw [Bool.eq_iff_iff, throwsIn_eq_true, Bool.and_eq_true, beq_iff_eq, beq_iff_eq]
  rfl

theorem siteAt_eq_parameters_iff : siteAt earlier p.above = .parameters ↔
      p.scopeKind? = some .function ∧ p.repeatsThrows earlier = false := by
  rw [siteAt_eq_parameters, scopeKind?_eq_some]
  constructor
  · rintro ⟨q, hq, hqk, hany⟩
    exact ⟨⟨q, hq, hqk⟩, (repeatsThrows_eq_any hq).trans hany⟩
  · rintro ⟨⟨q, hq, hqk⟩, hany⟩
    exact ⟨q, hq, hqk, (repeatsThrows_eq_any hq).symm.trans hany⟩

theorem any_document_eq_false :
    earlier.any (·.kind == .document) = false ↔ documentsIn earlier = 0 := by
  rw [List.any_eq_false, documentsIn, List.countP_eq_zero]

/-- Where the walk gets to, a node is judged by what is wrong with it. -/
theorem verdict_eq_refused (hplaces : root.places = earlier ++ p :: later)
    (hok : verdicts strict [] earlier = .ok ()) :
    p.verdict strict earlier = refused (p.offence? strict earlier) := by
  rw [verdict, offence?, Site.verdict, show p.node.kind = p.kind from rfl]
  cases p.kind with
  | document =>
    have hdocs := (verdicts_eq_ok_iff.1 hok).2.1
    by_cases h : documentsIn earlier = 0
    · simp only [h, any_document_eq_false.2 h]
      rfl
    · have hone : documentsIn earlier = 1 := by
        rw [show documentsIn [] = 0 from rfl] at hdocs
        omega
      have hany : earlier.any (·.kind == .document) = true := by
        rw [← Bool.not_eq_false, any_document_eq_false]
        exact h
      simp only [hone, hany]
      rfl
  | declaration k =>
    refine requiredPart_bind_eq_refused ?_
    rw [declarationKind?_siteAt hplaces hok]
    cases enclosingOf? p.above <;> rfl
  | enumValue =>
    refine requiredPart_bind_eq_refused ?_
    simp only [siteAt_eq_body, ← scopeKind?_eq_some]
    split <;> rfl
  | field =>
    simp only [takesFields_siteAt]
    cases p.amongFields with
    | true => exact requiredPart_bind_eq_refused (requiredPart_bind_ok_eq_refused p.node .fieldType)
    | false =>
      cases strict with
      | true => exact requiredPart_bind_eq_refused rfl
      | false => rfl
  | function =>
    refine requiredPart_bind_eq_refused ?_
    simp only [siteAt_eq_body, ← scopeKind?_eq_some]
    split
    · exact requiredPart_bind_ok_eq_refused p.node .functionType
    · rfl
  | throwsList =>
    simp only [siteAt_eq_parameters_iff]
    split <;> rfl
  | _ => rfl

theorem refused_eq_ok_iff {offence? : Option LoadError} :
    refused offence? = .ok () ↔ offence? = none := by
  cases offence? <;> simp [refused]

theorem refused_eq_error_iff {offence? : Option LoadError} {e : LoadError} :
    refused offence? = .error e ↔ offence? = some e := by
  cases offence? <;> simp [refused]

end Place

/-! ## Up to the first node that offends -/

section Offences

variable {strict : Bool} {root : Node} {earlier later : List Place} {p : Place} {e : LoadError}

/-- A walk gets through the places exactly if none of them offends. -/
theorem verdicts_eq_ok_iff_unoffending (hplaces : root.places = earlier ++ later) :
    verdicts strict [] earlier = .ok () ↔ Unoffending strict earlier := by
  induction earlier using List.reverseRecOn generalizing later with
  | nil => exact iff_of_true rfl (unoffending_nil strict)
  | append_singleton earlier p ih =>
    rw [List.append_assoc] at hplaces
    rw [unoffending_snoc, ← ih hplaces, verdicts_append, bind_const_eq_ok_iff]
    refine and_congr_right fun hok => ?_
    rw [← Place.refused_eq_ok_iff, ← Place.verdict_eq_refused hplaces hok, List.nil_append,
      verdicts, verdicts, bind_const_eq_ok_iff]
    exact and_iff_left rfl

/-- A walk is refused at the first place that offends. -/
theorem verdicts_eq_error_iff_firstOffence :
    verdicts strict [] root.places = .error e ↔
      ∃ earlier p, FirstOffence strict root earlier p e := by
  rw [verdicts_eq_error_iff]
  constructor
  · rintro ⟨earlier, p, later, hplaces, hok, hp⟩
    refine ⟨earlier, p, ⟨later, hplaces⟩, (verdicts_eq_ok_iff_unoffending hplaces).1 hok, ?_⟩
    exact Place.refused_eq_error_iff.1 ((Place.verdict_eq_refused hplaces hok).symm.trans hp)
  · rintro ⟨earlier, p, ⟨later, hplaces⟩, hearlier, hp⟩
    have hok := (verdicts_eq_ok_iff_unoffending hplaces).2 hearlier
    refine ⟨earlier, p, later, hplaces, hok, ?_⟩
    exact (Place.verdict_eq_refused hplaces hok).trans (Place.refused_eq_error_iff.2 hp)

end Offences

/-! ## What comes behind it -/

namespace Sketch

variable {settings : LoadSettings}

/-- A step looks at the node alone. -/
theorem advance_bare (s : Sketch) (event : Event) :
    s.advance settings event.bare = s.advance settings event := by
  cases event <;> rfl

theorem run_bare (s : Sketch) (es : List Event) :
    run settings s (es.map Event.bare) = run settings s es := by
  induction es generalizing s with
  | nil => rfl
  | cons event es ih =>
    rw [List.map_cons, run_cons, run_cons, advance_bare]
    cases s.advance settings event with
    | error e => rfl
    | ok s' => exact ih s'

end Sketch

section Behind

variable {settings : LoadSettings} {root : Node} {earlier : List Place} {p : Place} {e : LoadError}

/-- A run gets to the first place that offends, and is refused there. -/
theorem FirstOffence.run_eq_error (h : FirstOffence settings.strictFields root earlier p e) :
    Sketch.run settings {} (p.before ++ [.enter p.node]) = .error e := by
  obtain ⟨later, hplaces⟩ := h.places
  have hok := (verdicts_eq_ok_iff_unoffending hplaces).2 h.unoffending
  have hp := (Place.verdict_eq_refused hplaces hok).trans
    (Place.refused_eq_error_iff.2 h.offence)
  rw [Node.places_eq] at hplaces
  have hrun := Sketch.run_follows_place settings .start hplaces rfl
  rw [hok, List.nil_append] at hrun
  obtain ⟨s, hs, htracks⟩ := hrun
  have henter := htracks.enter settings p.node
  rw [show Place.mk p.node p.before p.above = p from rfl, hp] at henter
  rw [Sketch.run_append, hs]
  exact (Sketch.run_singleton s _).trans henter

/-- Some of the first rows of a tree are the rows of its first places. -/
theorem exists_split_of_row_prefix {ps : List Place}
    (h : (earlier ++ [p]).map Place.row <+: ps.map Place.row) :
    ∃ earlier' p' later', ps = earlier' ++ p' :: later' ∧
      (earlier' ++ [p']).map Place.row = (earlier ++ [p]).map Place.row := by
  obtain ⟨rest, hrest⟩ := h
  obtain ⟨first, later', rfl, hfirst, -⟩ := List.map_eq_append_iff.1 hrest.symm
  have hsnoc := hfirst
  rw [List.map_append, List.map_singleton] at hsnoc
  obtain ⟨earlier', last, rfl, -, hlast⟩ := List.map_eq_append_iff.1 hsnoc
  obtain ⟨p', rfl, -⟩ := List.map_eq_singleton_iff.1 hlast
  exact ⟨earlier', p', later', List.append_assoc .., hfirst⟩

/-- A tree with the same rows as another one up to the first place there that offends is refused
like it. -/
theorem FirstOffence.ofTree_eq_error (h : FirstOffence settings.strictFields root earlier p e)
    (name : String) {root' : Node}
    (hrows : (earlier ++ [p]).map Place.row <+: root'.places.map Place.row) :
    Document.ofTree settings name root' = .error e := by
  obtain ⟨later, hplaces⟩ := h.places
  obtain ⟨earlier', p', later', hplaces', hrow⟩ := exists_split_of_row_prefix hrows
  have hrun : Sketch.run settings {} (p'.before ++ [.enter p'.node]) = .error e := by
    rw [← Sketch.run_bare, Node.bare_before_congr hplaces hplaces' hrow, Sketch.run_bare]
    exact h.run_eq_error
  obtain ⟨after, hafter⟩ := Node.enter_before_events root' p'
    (hplaces' ▸ List.mem_append_cons_self)
  rw [Document.ofTree_eq_run, ← hafter, Sketch.run_append, hrun]
  rfl

end Behind

namespace Document

theorem ofTree_eq_error_iff_verdicts {settings : LoadSettings} {name : String} {root : Node}
    {e : LoadError} : Document.ofTree settings name root = .error e ↔
      verdicts settings.strictFields [] root.places = .error e ∨
      verdicts settings.strictFields [] root.places = .ok () ∧ documentsIn root.places = 0 ∧
        e = .documentCount 0 := by
  have h := ofTree_follows settings name root
  cases hv : verdicts settings.strictFields [] root.places with
  | error e' =>
    rw [hv] at h
    rw [show Document.ofTree settings name root = .error e' from h]
    simp
  | ok u =>
    have hdocs := (verdicts_eq_ok_iff.1 hv).2.1
    rw [show documentsIn [] = 0 from rfl, Nat.zero_add] at hdocs
    rw [hv] at h
    rcases hdocs with hzero | hone
    · rw [hzero] at h
      rw [show Document.ofTree settings name root = .error (.documentCount 0) from h]
      simp [hzero, eq_comm]
    · rw [hone] at h
      obtain ⟨d, hd, -⟩ := h
      rw [hd]
      simp [hone]

/-- A tree is refused for what is wrong with the first of its nodes, in preorder, that offends, or,
if none does, for having no document node. Every tree with the same nodes up to that one is refused
for the same cause, whatever it has behind. -/
theorem ofTree_first_offence (settings : LoadSettings) (name : String) (root : Node)
    (e : LoadError) :
    (Document.ofTree settings name root = .error e ↔
      (∃ earlier p, FirstOffence settings.strictFields root earlier p e) ∨
      Unoffending settings.strictFields root.places ∧ documentsIn root.places = 0 ∧
        e = .documentCount 0) ∧
    ∀ earlier p, FirstOffence settings.strictFields root earlier p e →
      ∀ name' root', (earlier ++ [p]).map Place.row <+: root'.places.map Place.row →
        Document.ofTree settings name' root' = .error e := by
  refine ⟨?_, fun earlier p h name' root' hrows => h.ofTree_eq_error name' hrows⟩
  rw [ofTree_eq_error_iff_verdicts, verdicts_eq_error_iff_firstOffence,
    verdicts_eq_ok_iff_unoffending (List.append_nil root.places).symm]

/-- A function in an enum is refused for where it stands before anyone asks for its type, and the
tree with it, though a second document node follows in the one and a throws list in the other. -/
theorem ofTree_first_offence_function :
    let function := (Node.ofKind .function).withPart .identifier " paint "
    let root := Node.document [.declaration .enum "Color" [function, .document []]]
    let root' := Node.document [.declaration .enum "Color" [function.push (.throwsList [])],
      .field "x" "i32"]
    let cause := LoadError.functionOutsideService "paint"
    FirstOffence false root (root.places.take 2) (root.places.get ⟨2, by decide +kernel⟩) cause ∧
      Document.ofTree {} "color" root = .error cause ∧
      Document.ofTree {} "colour" root' = .error cause := by
  intro function root root' cause
  have hplaces : root.places =
      root.places.take 2 ++ root.places.get ⟨2, by decide +kernel⟩ :: root.places.drop 3 := by
    rw [List.get_eq_getElem, ← List.drop_eq_getElem_cons, List.take_append_drop]
  have hok : verdicts false [] (root.places.take 2) = .ok () := by decide +kernel
  have hfirst : FirstOffence false root (root.places.take 2) _ cause :=
    ⟨⟨_, hplaces⟩, (verdicts_eq_ok_iff_unoffending hplaces).1 hok, by decide +kernel⟩
  have hlaw := ofTree_first_offence {} "color" root cause
  exact ⟨hfirst, hlaw.1.2 (Or.inl ⟨_, _, hfirst⟩), hlaw.2 _ _ hfirst "colour" root' ⟨_, rfl⟩⟩

end Document

end IdlModel
