import IdlModel.Proofs.Load.Site
import IdlModel.Proofs.Load.Step

/-!
# Verdicts on the places of a tree

What is open where a node is entered can be read off the tree: `siteAt` finds it from the ancestors
of the node and from the places before it. So can the verdict on the node (`Place.verdict`), and a
run is refused where the first of the places is, in preorder, and for the same cause
(`Sketch.run_follows`, `Document.ofTree_follows`).

What ties a run to the places is the invariant `Tracks`, carried by induction on the tree. It also
keeps that whatever was entered so far was entered before now: only so has a function that is just
being entered no throws list yet.
-/

namespace IdlModel

namespace Place

/-- Is the node a throws list, and was its scope entered at this moment? -/
def throwsIn (p : Place) (moment : Nat) : Bool :=
  p.kind == .throwsList && p.scope?.any (·.moment == moment)

end Place

/-- What is open where a node has these ancestors and is entered after these places: the body of
the innermost scope, and for a function its parameter list until it has a throws list. -/
def siteAt (earlier : List Place) (above : List Spot) : Site :=
  match scopeOf? above with
  | none => .outside
  | some scope => match scope.node.kind with
    | .declaration k => .body k
    | _ => if earlier.any (·.throwsIn scope.moment) then .throws else .parameters

/-- The number of document nodes. -/
def documentsIn (ps : List Place) : Nat :=
  ps.countP (·.kind == .document)

/-- Is the node refused where it stands, after the places before it? -/
def Place.verdict (strict : Bool) (earlier : List Place) (p : Place) : Except LoadError Unit :=
  (siteAt earlier p.above).verdict strict (documentsIn earlier) p.node

/-- The verdicts on a number of places, one after the other, up to the first that is refused. -/
def verdicts (strict : Bool) : List Place → List Place → Except LoadError Unit
  | _, [] => .ok ()
  | earlier, p :: ps => p.verdict strict earlier >>= fun _ => verdicts strict (earlier ++ [p]) ps

theorem verdicts_append (strict : Bool) (earlier ps qs : List Place) :
    verdicts strict earlier (ps ++ qs) =
      verdicts strict earlier ps >>= fun _ => verdicts strict (earlier ++ ps) qs := by
  induction ps generalizing earlier with
  | nil => simp [verdicts, bind, Except.bind]
  | cons p ps ih =>
    rw [List.cons_append, verdicts, verdicts]
    cases p.verdict strict earlier with
    | error e => rfl
    | ok u =>
      show verdicts strict (earlier ++ [p]) (ps ++ qs) =
        verdicts strict (earlier ++ [p]) ps >>= fun _ => _
      rw [ih, List.append_assoc, List.singleton_append]

/-- Places are refused for the first of them that is refused after those before it. -/
theorem verdicts_eq_error_iff {strict : Bool} {earlier ps : List Place} {e : LoadError} :
    verdicts strict earlier ps = .error e ↔ ∃ before p later, ps = before ++ p :: later ∧
      verdicts strict earlier before = .ok () ∧
      p.verdict strict (earlier ++ before) = .error e := by
  constructor
  · intro h
    induction ps generalizing earlier with
    | nil => cases h
    | cons p ps ih =>
      rw [verdicts] at h
      cases hp : p.verdict strict earlier with
      | error e' =>
        rw [hp] at h
        refine ⟨[], p, ps, rfl, rfl, ?_⟩
        rw [List.append_nil, hp]
        exact h
      | ok u =>
        rw [hp] at h
        obtain ⟨before, q, later, rfl, hbefore, hq⟩ := ih h
        refine ⟨p :: before, q, later, rfl, ?_, ?_⟩
        · rw [verdicts, hp]
          exact hbefore
        · rwa [List.append_assoc] at hq
  · rintro ⟨before, p, later, rfl, hbefore, hp⟩
    rw [verdicts_append, hbefore]
    show verdicts strict (earlier ++ before) (p :: later) = _
    rw [verdicts, hp]
    rfl

/-! ## The site of a place -/

section SiteAt

variable {earlier : List Place} {above : List Spot} {a : Spot} {p : Place}

theorem scopeOf?_cons_of_opensScope (h : a.node.kind.opensScope) :
    scopeOf? (a :: above) = some a := by
  rw [scopeOf?, List.find?_cons, h]

theorem siteAt_cons_of_not_opensScope (h : a.node.kind.opensScope = false) :
    siteAt earlier (a :: above) = siteAt earlier above := by
  rw [siteAt, scopeOf?, List.find?_cons, h]
  rfl

theorem siteAt_snoc (h : p.kind ≠ .throwsList) :
    siteAt (earlier ++ [p]) above = siteAt earlier above := by
  have hp (m : Nat) : p.throwsIn m = false := by simp [Place.throwsIn, h]
  simp [siteAt, List.any_append, hp]

theorem siteAt_of_none (h : scopeOf? above = none) : siteAt earlier above = .outside := by
  rw [siteAt, h]

theorem siteAt_of_declaration {q : Spot} {k : DeclarationKind} (h : scopeOf? above = some q)
    (hk : q.node.kind = .declaration k) : siteAt earlier above = .body k := by
  rw [siteAt, h]
  simp only [hk]

theorem siteAt_of_function {q : Spot} (h : scopeOf? above = some q) (hk : q.node.kind = .function) :
    siteAt earlier above =
      if earlier.any (·.throwsIn q.moment) then .throws else .parameters := by
  rw [siteAt, h]
  simp only [hk]

/-- There is no scope, or it is a declaration, or it is a function. -/
theorem scopeOf?_cases (above : List Spot) :
    scopeOf? above = none ∨
    (∃ q k, scopeOf? above = some q ∧ q.node.kind = .declaration k) ∨
    ∃ q, scopeOf? above = some q ∧ q.node.kind = .function := by
  cases h : scopeOf? above with
  | none => exact Or.inl rfl
  | some q =>
    have hq : q.node.kind.opensScope := by
      rw [scopeOf?] at h
      simpa using List.find?_some h
    cases hk : q.node.kind with
    | declaration k => exact Or.inr (Or.inl ⟨q, k, rfl, hk⟩)
    | function => exact Or.inr (Or.inr ⟨q, rfl, hk⟩)
    | _ => rw [hk] at hq; cases hq

theorem siteAt_eq_outside : siteAt earlier above = .outside ↔ scopeOf? above = none := by
  refine ⟨fun h => ?_, siteAt_of_none⟩
  rcases scopeOf?_cases above with hs | ⟨q, k, hs, hk⟩ | ⟨q, hs, hk⟩
  · exact hs
  · rw [siteAt_of_declaration hs hk] at h
    cases h
  · rw [siteAt_of_function hs hk] at h
    split at h <;> cases h

theorem siteAt_eq_body {k : DeclarationKind} : siteAt earlier above = .body k ↔
    ∃ q, scopeOf? above = some q ∧ q.node.kind = .declaration k := by
  refine ⟨fun h => ?_, fun ⟨q, hs, hk⟩ => siteAt_of_declaration hs hk⟩
  rcases scopeOf?_cases above with hs | ⟨q, k', hs, hk⟩ | ⟨q, hs, hk⟩
  · rw [siteAt_of_none hs] at h
    cases h
  · rw [siteAt_of_declaration hs hk] at h
    exact ⟨q, hs, hk.trans (congrArg _ (Site.body.inj h))⟩
  · rw [siteAt_of_function hs hk] at h
    split at h <;> cases h

theorem siteAt_eq_parameters : siteAt earlier above = .parameters ↔
    ∃ q, scopeOf? above = some q ∧ q.node.kind = .function ∧
      earlier.any (·.throwsIn q.moment) = false := by
  constructor
  · intro h
    rcases scopeOf?_cases above with hs | ⟨q, k', hs, hk⟩ | ⟨q, hs, hk⟩
    · rw [siteAt_of_none hs] at h
      cases h
    · rw [siteAt_of_declaration hs hk] at h
      cases h
    · refine ⟨q, hs, hk, Bool.eq_false_iff.2 fun hany => ?_⟩
      rw [siteAt_of_function hs hk, if_pos hany] at h
      cases h
  · rintro ⟨q, hs, hk, hany⟩
    rw [siteAt_of_function hs hk, hany]
    rfl

end SiteAt

/-- What ties a sketch to a point of a walk: the places before the point, the events, and the nodes
around it. -/
structure Tracks (earlier : List Place) (before : List Event) (above : List Spot) (s : Sketch) :
    Prop where
  site : s.focus.site = siteAt earlier above
  documents : s.documents = documentsIn earlier
  past : ∀ x ∈ earlier, ∀ a ∈ x.above, a.moment < before.length
  around : ∀ a ∈ above, a.moment < before.length

theorem Tracks.start : Tracks [] [] [] {} :=
  ⟨rfl, rfl, nofun, nofun⟩

theorem not_throwsIn {x : Place} {m : Nat} (h : ∀ a ∈ x.above, a.moment < m) :
    ¬ x.throwsIn m := by
  intro ht
  simp only [Place.throwsIn, Bool.and_eq_true, Option.any_eq_true] at ht
  obtain ⟨-, q, hq, hm⟩ := ht
  have := h q (List.mem_of_find?_eq_some hq)
  rw [eq_of_beq hm] at this
  exact Nat.lt_irrefl _ this

variable {settings : LoadSettings}

/-- The site in a node that is not refused. -/
theorem siteAt_enter {strict : Bool} {earlier : List Place} {p : Place}
    (hv : p.verdict strict earlier = .ok ())
    (hpast : ∀ x ∈ earlier, ∀ a ∈ x.above, a.moment < p.moment) :
    siteAt (earlier ++ [p]) (p.spot :: p.above) = (siteAt earlier p.above).enter p.kind := by
  have hp : p.spot.node.kind = p.kind := rfl
  cases hk : p.kind with
  | declaration k =>
    exact siteAt_of_declaration (scopeOf?_cons_of_opensScope (by rw [hp, hk]; rfl)) (hp.trans hk)
  | function =>
    refine siteAt_eq_parameters.2 ⟨p.spot, ?_, hp.trans hk, List.any_eq_false.2 fun x hx => ?_⟩
    · exact scopeOf?_cons_of_opensScope (by rw [hp, hk]; rfl)
    · rcases List.mem_append.1 hx with hx | hx
      · -- the scope of an earlier place was entered before this function
        exact not_throwsIn (hpast x hx)
      · rw [List.mem_singleton.1 hx, Place.throwsIn, hk]
        nofun
  | throwsList =>
    rw [siteAt_cons_of_not_opensScope (by rw [hp, hk]; rfl)]
    obtain ⟨q, hq, hqk, -⟩ := siteAt_eq_parameters.1 ((Site.verdict_throwsList hk).1 hv)
    rw [siteAt_of_function hq hqk, if_pos (List.any_eq_true.2 ⟨p, by simp, ?_⟩)]
    · rfl
    · rw [Place.throwsIn, hk, Place.scope?, hq]
      simp
  | _ =>
    rw [siteAt_cons_of_not_opensScope (by rw [hp, hk]; rfl), siteAt_snoc (by rw [hk]; nofun)]
    rfl

theorem documentsIn_append (ps qs : List Place) :
    documentsIn (ps ++ qs) = documentsIn ps + documentsIn qs :=
  List.countP_append

theorem documentsIn_singleton (p : Place) :
    documentsIn [p] = if p.kind = .document then 1 else 0 := by
  simp [documentsIn]

theorem Tracks.enter (settings : LoadSettings) {s : Sketch} {before : List Event}
    {above : List Spot} {earlier : List Place} (h : Tracks earlier before above s) (n : Node) :
    Follows (s.enter settings n) (Place.verdict settings.strictFields earlier ⟨n, before, above⟩)
      (Tracks (earlier ++ [⟨n, before, above⟩]) (before ++ [.enter n])
        (⟨before.length, n⟩ :: above)) := by
  have hf := Sketch.enter_follows settings s n
  rw [h.site, h.documents] at hf
  refine hf.imp fun hv s' ⟨h1, h2⟩ => ⟨?_, ?_, ?_, ?_⟩
  · rw [h1]
    exact (siteAt_enter (p := ⟨n, before, above⟩) hv h.past).symm
  · rw [h2, documentsIn_append, documentsIn_singleton]
    rfl
  · intro x hx a ha
    rw [List.length_append, List.length_singleton]
    rcases List.mem_append.1 hx with hx | hx
    · exact Nat.lt_succ_of_lt (h.past x hx a ha)
    · rw [List.mem_singleton.1 hx] at ha
      exact Nat.lt_succ_of_lt (h.around a ha)
  · intro a ha
    rw [List.length_append, List.length_singleton]
    rcases List.mem_cons.1 ha with rfl | ha
    · exact Nat.lt_succ_self _
    · exact Nat.lt_succ_of_lt (h.around a ha)

/-- The exit of a node that was not refused is not refused either. -/
theorem Tracks.exit {s : Sketch} {p : Place} {m : Nat} {es : List Event}
    {entered earlier : List Place} {strict : Bool} (hv : p.verdict strict entered = .ok ())
    (h : Tracks earlier es (⟨m, p.node⟩ :: p.above) s) :
    ∃ s', s.exit p.node = .ok s' ∧ Tracks earlier (es ++ [.exit p.node]) p.above s' := by
  suffices hs : ∃ s', s.exit p.node = .ok s' ∧ s'.focus.site = siteAt earlier p.above ∧
      s'.documents = s.documents by
    obtain ⟨s', he, hsite, hd⟩ := hs
    refine ⟨s', he, hsite, hd.trans h.documents, fun x hx a ha => ?_, fun a ha => ?_⟩
    · rw [List.length_append]
      exact Nat.lt_add_right _ (h.past x hx a ha)
    · rw [List.length_append]
      exact Nat.lt_add_right _ (h.around a (List.mem_cons_of_mem _ ha))
  have hsite := h.site
  cases hk : p.node.kind with
  | declaration k =>
    have hin : scopeOf? (⟨m, p.node⟩ :: p.above) = some ⟨m, p.node⟩ :=
      scopeOf?_cons_of_opensScope (by rw [hk]; rfl)
    have hout := siteAt_eq_outside.1 ((Site.verdict_declaration hk).1 hv).2
    rw [siteAt_of_declaration hin hk] at hsite
    rw [siteAt_of_none hout]
    exact Sketch.exit_declaration hk hsite
  | function =>
    have hin : scopeOf? (⟨m, p.node⟩ :: p.above) = some ⟨m, p.node⟩ :=
      scopeOf?_cons_of_opensScope (by rw [hk]; rfl)
    obtain ⟨q, hq, hqk⟩ := siteAt_eq_body.1 ((Site.verdict_function hk).1 hv).2.1
    rw [siteAt_of_function hin hk] at hsite
    rw [siteAt_of_declaration hq hqk]
    refine Sketch.exit_function hk ?_
    rw [hsite]
    split <;> simp
  | _ =>
    have hn : p.node.kind.opensScope = false := by rw [hk]; rfl
    refine ⟨s, Sketch.exit_other hn, ?_, rfl⟩
    rw [hsite, siteAt_cons_of_not_opensScope hn]

/-- A run through trees is refused where the first of their places is, and for the same cause. -/
theorem Sketch.run_follows (settings : LoadSettings) {before : List Event} {above : List Spot}
    {earlier : List Place} {s : Sketch} (h : Tracks earlier before above s) (ns : List Node) :
    Follows (run settings s (Node.eventsOfAll ns))
      (verdicts settings.strictFields earlier (Node.placesOfAll ns before above))
      (Tracks (earlier ++ Node.placesOfAll ns before above) (before ++ Node.eventsOfAll ns)
        above) := by
  induction ns using Node.forest_induction generalizing before above earlier s with
  | nil => simpa [Node.eventsOfAll, Node.placesOfAll, verdicts] using Follows.ok h
  | cons n ns ihn ih =>
    rw [Node.eventsOfAll_cons, Node.placesOfAll_cons, run_append, verdicts_append]
    refine (ihn h).bind fun s' h' => ?_
    have := ih h'
    rwa [List.append_assoc, List.append_assoc] at this
  | node n ih =>
    rw [Node.eventsOfAll_node, Node.placesOfAll_node, List.append_assoc, List.singleton_append,
      run_cons, verdicts]
    refine (h.enter settings n).with_verdict.bind fun s₁ hs₁ => ?_
    obtain ⟨h₁, hv⟩ := hs₁
    rw [run_append]
    refine (ih h₁).complete fun s₂ h₂ => ?_
    obtain ⟨s', he, h'⟩ := h₂.exit hv
    refine ⟨s', by rw [run_singleton]; exact he, ?_⟩
    simpa [List.append_assoc] using h'

/-- The same for a run that ends where some place begins: only the places before that one count. -/
theorem Sketch.run_follows_place (settings : LoadSettings) {before : List Event}
    {above : List Spot} {earlier : List Place} {s : Sketch} (h : Tracks earlier before above s)
    {ns : List Node} {ps later : List Place} {p : Place} {es : List Event}
    (hps : Node.placesOfAll ns before above = ps ++ p :: later) (hes : p.before = before ++ es) :
    Follows (run settings s es) (verdicts settings.strictFields earlier ps)
      (Tracks (earlier ++ ps) p.before p.above) := by
  induction ns using Node.forest_induction generalizing before above earlier s ps later es with
  | nil =>
    rw [Node.placesOfAll] at hps
    exact absurd hps.symm (by simp)
  | cons n ns ihn ih =>
    rw [Node.placesOfAll_cons] at hps
    rcases Node.append_eq_append_cons hps with ⟨rest, hn⟩ | ⟨rest, rfl, hrest⟩
    · exact ihn h hn hes
    · obtain ⟨es', rfl, hes'⟩ :=
        Node.exists_append_of_place (hrest ▸ List.mem_append_cons_self) hes
      rw [run_append, verdicts_append, ← List.append_assoc]
      exact (run_follows settings h [n]).bind fun s' h' => ih h' hrest hes'
  | node n ih =>
    rw [Node.placesOfAll_node] at hps
    cases ps with
    | nil =>
      obtain ⟨rfl, -⟩ := List.cons_eq_cons.1 hps
      obtain rfl : es = [] := List.append_cancel_left (hes.symm.trans (List.append_nil _).symm)
      rw [List.append_nil]
      exact .ok h
    | cons q ps =>
      obtain ⟨rfl, htail⟩ := List.cons_eq_cons.1 hps
      have htail : Node.placesOfAll n.children _ _ = ps ++ p :: later := htail
      obtain ⟨es', rfl, hes'⟩ :=
        Node.exists_append_of_place (htail ▸ List.mem_append_cons_self) hes
      rw [List.singleton_append, run_cons, verdicts, List.append_cons earlier _ ps]
      exact (h.enter settings n).bind fun s₁ h₁ => ih h₁ htail hes'

/-- What every step keeps holds after a run if it holds before it. The rule tells each step what
ties the sketch to the place of its node. -/
theorem Sketch.run_tracks {J : List Place → List Event → Sketch → Prop}
    (enter : ∀ {p : Place} {earlier : List Place} {s s' : Sketch},
      Tracks earlier p.before p.above s → J earlier p.before s → s.enter settings p.node = .ok s' →
        J (earlier ++ [p]) (p.before ++ [.enter p.node]) s')
    (exit : ∀ {n : Node} {before : List Event} {earlier : List Place} {s s' : Sketch},
      J earlier before s → s.exit n = .ok s' → J earlier (before ++ [.exit n]) s')
    {ns : List Node} {before : List Event} {above : List Spot} {earlier : List Place}
    {s s' : Sketch} (h : Runs settings s ns s') (ht : Tracks earlier before above s)
    (hj : J earlier before s) :
    Tracks (earlier ++ Node.placesOfAll ns before above) (before ++ Node.eventsOfAll ns) above s' ∧
      J (earlier ++ Node.placesOfAll ns before above) (before ++ Node.eventsOfAll ns) s' := by
  induction h generalizing before above earlier with
  | nil => simpa [Node.eventsOfAll, Node.placesOfAll] using ⟨ht, hj⟩
  | @cons s s₁ s' n ns _ _ ihn ih =>
    obtain ⟨ht₁, hj₁⟩ := ihn ht hj
    have := ih ht₁ hj₁
    rwa [List.append_assoc, List.append_assoc, ← Node.placesOfAll_cons,
      ← Node.eventsOfAll_cons] at this
  | @node s s₁ s₂ s' n he _ hx ih =>
    have hf := ht.enter settings n
    rw [he] at hf
    obtain ⟨hv, ht₁⟩ := hf.of_ok
    have hj₁ : J (earlier ++ [⟨n, before, above⟩]) (before ++ [.enter n]) s₁ := enter ht hj he
    obtain ⟨ht₂, hj₂⟩ := ih ht₁ hj₁
    obtain ⟨s₃, hx', ht₃⟩ := ht₂.exit hv
    obtain rfl := Except.ok.inj (hx.symm.trans hx')
    have hj₃ := exit hj₂ hx
    rw [Node.eventsOfAll_node, Node.placesOfAll_node, ← List.append_assoc, ← List.append_assoc,
      ← List.singleton_append, ← List.append_assoc]
    exact ⟨ht₃, hj₃⟩

/-- Loading a tree is refused where the first of its places is, in preorder, or else for the number
of its document nodes. -/
theorem Document.ofTree_follows (settings : LoadSettings) (name : String) (root : Node) :
    Follows (Document.ofTree settings name root)
      (verdicts settings.strictFields [] root.places >>= fun _ =>
        if documentsIn root.places = 1 then .ok ()
        else .error (.documentCount (documentsIn root.places)))
      fun d => d.name = name := by
  rw [Document.ofTree_eq_run, Node.places_eq, ← Node.eventsOfAll_singleton]
  refine (Sketch.run_follows settings .start _).bind fun s h => ?_
  rw [← Node.places_eq] at h ⊢
  have hdocs : s.documents = documentsIn root.places := h.documents
  have hsite : s.focus.site = .outside := h.site.trans (siteAt_of_none rfl)
  rw [Sketch.finish, hdocs]
  by_cases hd : documentsIn root.places = 1
  · rw [if_pos hd, if_neg (fun hne => hne hd)]
    cases hf : s.focus with
    | nothing => exact .ok rfl
    | body d => rw [hf] at hsite; cases hsite
    | method service comment earlier m thrown => rw [hf] at hsite; cases thrown <;> cases hsite
  · rw [if_neg hd, if_pos hd]
    rfl

end IdlModel
