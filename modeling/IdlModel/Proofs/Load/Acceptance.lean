import IdlModel.Proofs.Load.Verdict

/-!
# Which trees load

A tree loads exactly if its nodes stand where they may and have the parts they need. `WellPlaced`
states this by ancestors and counts alone, without a word about walks.

The verdict on a place asks for two things: the node stands well on its own (`Place.Sound`), and
it stands well beside the places before it, which matters for throws lists and document nodes
(`Place.verdict_eq_ok_iff`). Over a whole tree the second becomes a law about pairs of places and
a count (`verdicts_eq_ok_iff`).
-/

namespace IdlModel

namespace NodeKind

/-- The scopes whose fields become part of the document. -/
def takesFields : NodeKind → Bool
  | .declaration .struct | .declaration .exception | .function => true
  | _ => false

end NodeKind

namespace Place

/-- Does the node stand in a scope whose fields become part of the document? -/
def amongFields (p : Place) : Bool :=
  p.scopeKind?.any NodeKind.takesFields

/-- The parts without which the node is refused. -/
def needs (p : Place) : List Part :=
  match p.kind with
  | .declaration _ | .enumValue => [.identifier]
  | .function => [.identifier, .functionType]
  | .field => if p.amongFields then [.identifier, .fieldType] else []
  | _ => []

/-- The two are not throws lists of one function. -/
def ThrowsApart (p q : Place) : Prop :=
  p.kind = .throwsList → q.kind = .throwsList →
    p.scope?.map Spot.moment ≠ q.scope?.map Spot.moment

end Place

/-- Every node of the tree stands where it may and has the parts it needs. -/
structure WellPlaced (root : Node) : Prop where
  /-- There is one document node, wherever it stands. -/
  one_document : root.places.countP (·.kind == .document) = 1
  /-- Declarations do not stand in one another. -/
  declarations_apart : ∀ p ∈ root.places, p.kind.isDeclaration →
    ∀ a ∈ p.above, ¬ a.node.kind.isDeclaration
  value_in_enum : ∀ p ∈ root.places, p.kind = .enumValue →
    p.scopeKind? = some (.declaration .enum)
  function_in_service : ∀ p ∈ root.places, p.kind = .function →
    p.scopeKind? = some (.declaration .service)
  throws_in_function : ∀ p ∈ root.places, p.kind = .throwsList → p.scopeKind? = some .function
  /-- No function has two throws lists. -/
  throws_apart : root.places.Pairwise Place.ThrowsApart
  parts : ∀ p ∈ root.places, ∀ part ∈ p.needs, p.node.HasPart part

/-- Every field of the tree stands where fields become part of the document. -/
def FieldsTaken (root : Node) : Prop :=
  ∀ p ∈ root.places, p.kind = .field → p.amongFields

namespace Place

/-- The node stands well, whatever is before it. -/
def Sound (strict : Bool) (p : Place) : Prop :=
  match p.kind with
  | .declaration _ => p.node.HasPart .identifier ∧ p.scope? = none
  | .enumValue => p.node.HasPart .identifier ∧ p.scopeKind? = some (.declaration .enum)
  | .field => (p.amongFields → p.node.HasPart .identifier ∧ p.node.HasPart .fieldType) ∧
    (strict → p.amongFields)
  | .function => p.node.HasPart .identifier ∧ p.scopeKind? = some (.declaration .service) ∧
    p.node.HasPart .functionType
  | .throwsList => p.scopeKind? = some .function
  | _ => True

theorem scopeKind?_eq_some {p : Place} {k : NodeKind} :
    p.scopeKind? = some k ↔ ∃ q, scopeOf? p.above = some q ∧ q.node.kind = k := by
  rw [scopeKind?, scope?, Option.map_eq_some_iff]

theorem takesFields_siteAt (earlier : List Place) (p : Place) :
    (siteAt earlier p.above).takesFields = p.amongFields := by
  rw [amongFields, scopeKind?, scope?]
  rcases scopeOf?_cases p.above with hs | ⟨q, k, hs, hk⟩ | ⟨q, hs, hk⟩
  · rw [siteAt_of_none hs, hs]
    rfl
  · rw [siteAt_of_declaration hs hk, hs, Option.map_some, hk]
    cases k <;> rfl
  · rw [siteAt_of_function hs hk, hs, Option.map_some, hk]
    split <;> rfl

theorem throwsIn_eq_true {p : Place} {m : Nat} :
    p.throwsIn m = true ↔ p.kind = .throwsList ∧ p.scope?.map Spot.moment = some m := by
  rw [throwsIn, Bool.and_eq_true, beq_iff_eq, Option.any_eq_true, Option.map_eq_some_iff]
  simp

theorem any_throwsIn {earlier : List Place} {p : Place} {q : Spot} (hp : p.kind = .throwsList)
    (hq : p.scope? = some q) :
    earlier.any (·.throwsIn q.moment) = false ↔ ∀ x ∈ earlier, x.ThrowsApart p := by
  rw [List.any_eq_false]
  refine forall₂_congr fun x _ => ?_
  rw [throwsIn_eq_true, ThrowsApart, hq]
  simp [hp]

/-- A node is not refused if it stands well, and well beside what is before it. -/
theorem verdict_eq_ok_iff {strict : Bool} {earlier : List Place} {p : Place} :
    p.verdict strict earlier = .ok () ↔ p.Sound strict ∧
      (p.kind = .document → documentsIn earlier = 0) ∧ ∀ x ∈ earlier, x.ThrowsApart p := by
  rw [verdict, Sound]
  have hapart (h : p.kind ≠ .throwsList) : ∀ x ∈ earlier, x.ThrowsApart p :=
    fun _ _ _ h' => absurd h' h
  -- only documents and throws lists look at what is before them
  have hother (h : p.kind ≠ .document) (h' : p.kind ≠ .throwsList) :
      (p.kind = .document → documentsIn earlier = 0) ∧ ∀ x ∈ earlier, x.ThrowsApart p :=
    ⟨fun hd => absurd hd h, hapart h'⟩
  cases hk : p.kind with
  | document =>
    rw [Site.verdict_document hk]
    exact ⟨fun h => ⟨trivial, fun _ => h, hapart (by simp [hk])⟩, fun h => h.2.1 rfl⟩
  | declaration k =>
    rw [Site.verdict_declaration hk, siteAt_eq_outside]
    exact (and_iff_left (hk ▸ hother (by simp [hk]) (by simp [hk]))).symm
  | enumValue =>
    rw [Site.verdict_enumValue hk, siteAt_eq_body, ← scopeKind?_eq_some]
    exact (and_iff_left (hk ▸ hother (by simp [hk]) (by simp [hk]))).symm
  | field =>
    rw [Site.verdict_field hk, takesFields_siteAt]
    exact (and_iff_left (hk ▸ hother (by simp [hk]) (by simp [hk]))).symm
  | function =>
    rw [Site.verdict_function hk, siteAt_eq_body, ← scopeKind?_eq_some]
    exact (and_iff_left (hk ▸ hother (by simp [hk]) (by simp [hk]))).symm
  | throwsList =>
    simp only [Site.verdict_throwsList hk, siteAt_eq_parameters, scopeKind?_eq_some]
    constructor
    · rintro ⟨q, hq, hqk, hany⟩
      exact ⟨⟨q, hq, hqk⟩, by simp, (any_throwsIn hk hq).1 hany⟩
    · rintro ⟨⟨q, hq, hqk⟩, -, hx⟩
      exact ⟨q, hq, hqk, (any_throwsIn hk hq).2 hx⟩
  | _ =>
    rw [Site.verdict, show p.node.kind = _ from hk]
    exact ⟨fun _ => ⟨trivial, by simp, hapart (by simp [hk])⟩, fun _ => rfl⟩

end Place

/-- No place is refused if all stand well, at most one is a document node, and no function has two
throws lists. -/
theorem verdicts_eq_ok_iff {strict : Bool} {earlier ps : List Place} :
    verdicts strict earlier ps = .ok () ↔
      (∀ p ∈ ps, p.Sound strict) ∧
      (documentsIn ps = 0 ∨ documentsIn earlier + documentsIn ps = 1) ∧
      (∀ x ∈ earlier, ∀ p ∈ ps, x.ThrowsApart p) ∧ ps.Pairwise Place.ThrowsApart := by
  induction ps generalizing earlier with
  | nil => simp [verdicts, documentsIn]
  | cons p ps ih =>
    have hdocs : (p.kind = .document → documentsIn earlier = 0) ∧
        (documentsIn ps = 0 ∨ documentsIn (earlier ++ [p]) + documentsIn ps = 1) ↔
        documentsIn (p :: ps) = 0 ∨ documentsIn earlier + documentsIn (p :: ps) = 1 := by
      have hcons : documentsIn (p :: ps) = documentsIn [p] + documentsIn ps :=
        documentsIn_append [p] ps
      rw [hcons, documentsIn_append, documentsIn_singleton]
      by_cases hp : p.kind = .document
      · simp only [hp, if_true, true_implies]
        omega
      · simp only [hp, if_false, false_implies, true_and]
        omega
    rw [verdicts, bind_const_eq_ok_iff, Place.verdict_eq_ok_iff, ih, ← hdocs,
      List.pairwise_cons]
    have happ : (∀ x ∈ earlier ++ [p], ∀ q ∈ ps, x.ThrowsApart q) ↔
        (∀ x ∈ earlier, ∀ q ∈ ps, x.ThrowsApart q) ∧ ∀ q ∈ ps, p.ThrowsApart q := by
      rw [List.forall_mem_append, List.forall_mem_singleton]
    have hcons : (∀ x ∈ earlier, ∀ q ∈ p :: ps, x.ThrowsApart q) ↔
        (∀ x ∈ earlier, x.ThrowsApart p) ∧ ∀ x ∈ earlier, ∀ q ∈ ps, x.ThrowsApart q := by
      simp only [List.forall_mem_cons, forall_and]
    rw [happ, hcons, List.forall_mem_cons]
    constructor
    · rintro ⟨⟨hs, hd, ha⟩, hss, hds, ⟨haa, hp⟩, hpw⟩
      exact ⟨⟨hs, hss⟩, ⟨hd, hds⟩, ⟨ha, haa⟩, hp, hpw⟩
    · rintro ⟨⟨hs, hss⟩, ⟨hd, hds⟩, ⟨ha, haa⟩, hp, hpw⟩
      exact ⟨⟨hs, hd, ha⟩, hss, hds, ⟨haa, hp⟩, hpw⟩

/-! ## Trees -/

variable {root : Node}

/-- Where functions stand in services, a declaration has a declaration around it if it has any
scope around it. -/
theorem scope?_eq_none_iff
    (hf : ∀ p ∈ root.places, p.kind = .function → p.scopeKind? = some (.declaration .service))
    {p : Place} (hp : p ∈ root.places) :
    p.scope? = none ↔ ∀ a ∈ p.above, ¬ a.node.kind.isDeclaration := by
  rw [Place.scope?]
  constructor
  · intro h a ha hd
    exact List.find?_eq_none.1 h a ha (NodeKind.opensScope_of_isDeclaration hd)
  · intro h
    rcases scopeOf?_cases p.above with hs | ⟨q, k, hs, hk⟩ | ⟨q, hs, hk⟩
    · exact hs
    · refine absurd ?_ (h q (List.mem_of_find?_eq_some hs))
      rw [hk]
      rfl
    · obtain ⟨x, hx, rfl, hxa⟩ :=
        Node.exists_place_of_mem_above hp (List.mem_of_find?_eq_some hs)
      obtain ⟨r, hr, hrk⟩ := Place.scopeKind?_eq_some.1 (hf x hx hk)
      refine absurd ?_ (h r (hxa r (List.mem_of_find?_eq_some hr)))
      rw [hrk]
      rfl

theorem WellPlaced.sound (h : WellPlaced root) {strict : Bool} (hf : strict → FieldsTaken root) :
    ∀ p ∈ root.places, p.Sound strict := by
  intro p hp
  have hparts := h.parts p hp
  rw [Place.Sound]
  rw [Place.needs] at hparts
  cases hk : p.kind with
  | declaration k =>
    rw [hk] at hparts
    exact ⟨hparts _ (by simp), (scope?_eq_none_iff h.function_in_service hp).2
      (h.declarations_apart p hp (by rw [hk]; rfl))⟩
  | enumValue =>
    rw [hk] at hparts
    exact ⟨hparts _ (by simp), h.value_in_enum p hp hk⟩
  | field =>
    rw [hk] at hparts
    refine ⟨fun hs => ?_, fun hst => hf hst p hp hk⟩
    simp only [hs, if_true] at hparts
    exact ⟨hparts _ (by simp), hparts _ (by simp)⟩
  | function =>
    rw [hk] at hparts
    exact ⟨hparts _ (by simp), h.function_in_service p hp hk, hparts _ (by simp)⟩
  | throwsList => exact h.throws_in_function p hp hk
  | _ => trivial

theorem Place.Sound.parts {strict : Bool} {p : Place} (h : p.Sound strict) :
    ∀ part ∈ p.needs, p.node.HasPart part := by
  rw [Place.Sound] at h
  rw [Place.needs]
  cases hk : p.kind with
  | declaration k =>
    rw [hk] at h
    simpa using h.1
  | enumValue =>
    rw [hk] at h
    simpa using h.1
  | field =>
    rw [hk] at h
    cases hs : p.amongFields with
    | true => simpa using h.1 hs
    | false => simp
  | function =>
    rw [hk] at h
    simpa using ⟨h.1, h.2.2⟩
  | _ => simp

/-- A tree whose places are all sound is well placed, its document nodes and throws lists aside. -/
theorem wellPlaced_of_sound {strict : Bool} (h : ∀ p ∈ root.places, p.Sound strict)
    (hdocs : documentsIn root.places = 1) (hapart : root.places.Pairwise Place.ThrowsApart) :
    WellPlaced root := by
  have hfun : ∀ p ∈ root.places, p.kind = .function →
      p.scopeKind? = some (.declaration .service) := fun p hp hk => by
    have := h p hp
    rw [Place.Sound, hk] at this
    exact this.2.1
  refine ⟨hdocs, fun p hp hd => ?_, fun p hp hk => ?_, hfun, fun p hp hk => ?_, hapart,
    fun p hp => (h p hp).parts⟩
  · refine (scope?_eq_none_iff hfun hp).1 ?_
    have := h p hp
    rw [Place.Sound] at this
    cases hk : p.kind with
    | declaration k =>
      rw [hk] at this
      exact this.2
    | _ => rw [hk] at hd; cases hd
  · have := h p hp
    rw [Place.Sound, hk] at this
    exact this.2
  · have := h p hp
    rw [Place.Sound, hk] at this
    exact this

/-- The tree is well placed, and if need be its fields are taken, exactly if there is one document
node and no place is refused. -/
theorem wellPlaced_iff (strict : Bool) (root : Node) :
    WellPlaced root ∧ (strict → FieldsTaken root) ↔
      documentsIn root.places = 1 ∧ verdicts strict [] root.places = .ok () := by
  rw [verdicts_eq_ok_iff]
  constructor
  · rintro ⟨h, hf⟩
    have hdocs : documentsIn root.places = 1 := h.one_document
    exact ⟨hdocs, h.sound hf, Or.inr (by rw [hdocs]; rfl), List.forall_mem_nil _, h.throws_apart⟩
  · rintro ⟨hdocs, hs, -, -, hapart⟩
    refine ⟨wellPlaced_of_sound hs hdocs hapart, fun hst p hp hk => ?_⟩
    have := hs p hp
    rw [Place.Sound, hk] at this
    exact this.2 hst

/-- A tree loads exactly if every node stands where it may and has the parts it needs and, where
stray fields are refused, every field becomes part of the document. -/
theorem exists_ofTree_iff_wellPlaced (settings : LoadSettings) (name : String) (root : Node) :
    (∃ d, Document.ofTree settings name root = .ok d) ↔
      WellPlaced root ∧ (settings.strictFields → FieldsTaken root) := by
  rw [wellPlaced_iff]
  have h := Document.ofTree_follows settings name root
  constructor
  · rintro ⟨d, hd⟩
    rw [hd] at h
    cases hv : verdicts settings.strictFields [] root.places with
    | error e =>
      rw [hv] at h
      cases h
    | ok u =>
      rw [hv] at h
      by_cases hdocs : documentsIn root.places = 1
      · exact ⟨hdocs, rfl⟩
      · simp only [bind, Except.bind, if_neg hdocs] at h
        cases h
  · rintro ⟨hdocs, hv⟩
    rw [hv, if_pos hdocs] at h
    obtain ⟨d, hd, -⟩ := h
    exact ⟨d, hd⟩

end IdlModel
