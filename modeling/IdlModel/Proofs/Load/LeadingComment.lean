import IdlModel.Proofs.Load.Verdict

/-!
# Which comment goes where

A comment waits from its own node on, until a declaration, a function or a field begins or a
declaration or a function ends. `Waits` says this of the events so far, and `waiting?` finds the
comment that waits (`waiting?_eq_some_iff`). `Builder.pending_step` is the other half: no other event
has anything to do with comments.

The entities of a document stem from places of its tree, in the same order, and each has the comment
that waits where its node is entered (`Document.entities_eq`). Two entities never share one: the
node of the first of them stands between the two comments (`Node.comments_in_order`).
-/

namespace IdlModel

/-! ## Waiting -/

namespace Event

/-- Is it the beginning of a comment that may document something? -/
def entersComment : Event → Bool
  | .enter n => n.kind == .commentMultiline
  | .exit _ => false

/-- Is it the beginning of a declaration, a function or a field? A field counts wherever it
stands. -/
def consumes : Event → Bool
  | .enter n => n.kind.opensScope || n.kind == .field
  | .exit _ => false

/-- Is it the end of a declaration or a function? -/
def closes : Event → Bool
  | .enter _ => false
  | .exit n => n.kind.opensScope

/-- Is it any other event? -/
def keepsComment (e : Event) : Bool :=
  !e.entersComment && !e.consumes && !e.closes

end Event

/-- After these events the comment waits: it is a comment, and since it was entered there was no
other comment, and no event that consumes or closes. -/
def Waits (c : Spot) (es : List Event) : Prop :=
  c.node.kind = .commentMultiline ∧
    ∃ later, es.drop c.moment = .enter c.node :: later ∧ ∀ e ∈ later, e.keepsComment

/-- The comment that waits, the newest event first. -/
def lastWaiting? : List Event → Option Spot
  | [] => none
  | e :: earlier =>
    if e.entersComment then some ⟨earlier.length, e.node⟩
    else if e.keepsComment then lastWaiting? earlier
    else none

/-- The comment that waits after these events. -/
def waiting? (es : List Event) : Option Spot :=
  lastWaiting? es.reverse

section Waiting

variable {c : Spot} {es : List Event} {e : Event}

theorem waiting?_append_singleton (es : List Event) (e : Event) :
    waiting? (es ++ [e]) =
      if e.entersComment then some ⟨es.length, e.node⟩
      else if e.keepsComment then waiting? es
      else none := by
  rw [waiting?, List.reverse_append, List.reverse_singleton, List.singleton_append, lastWaiting?,
    List.length_reverse, waiting?]

theorem entersComment_iff : e.entersComment ↔ ∃ n, e = .enter n ∧ n.kind = .commentMultiline := by
  cases e with
  | enter n => simp [Event.entersComment]
  | exit n => simp [Event.entersComment]

/-- The comment that waits is the one that begins now, or waited before and is kept. -/
theorem waits_append_singleton : Waits c (es ++ [e]) ↔
    (e.entersComment ∧ c = ⟨es.length, e.node⟩) ∨ (Waits c es ∧ e.keepsComment) := by
  obtain ⟨m, n⟩ := c
  rw [Waits, Waits]
  constructor
  · rintro ⟨hk, later, hd, hl⟩
    rcases Nat.lt_or_ge m es.length with hm | hm
    · rw [List.drop_append_of_le_length (Nat.le_of_lt hm), List.drop_eq_getElem_cons hm,
        List.cons_append] at hd
      obtain ⟨he, rfl⟩ := List.cons_eq_cons.1 hd
      have hl := List.forall_mem_append.1 hl
      refine Or.inr ⟨⟨hk, _, ?_, hl.1⟩, hl.2 e List.mem_cons_self⟩
      rw [List.drop_eq_getElem_cons hm, he]
    · rw [List.drop_append, List.drop_eq_nil_of_le hm, List.nil_append] at hd
      have hlen := congrArg List.length hd
      simp only [List.length_drop, List.length_cons, List.length_nil] at hlen
      obtain rfl : m = es.length := by omega
      rw [Nat.sub_self, List.drop_zero] at hd
      obtain ⟨rfl, -⟩ := List.cons_eq_cons.1 hd
      exact Or.inl ⟨entersComment_iff.2 ⟨n, rfl, hk⟩, rfl⟩
  · rintro (⟨he, hc⟩ | ⟨⟨hk, later, hd, hl⟩, he⟩)
    · obtain ⟨x, rfl, hx⟩ := entersComment_iff.1 he
      obtain ⟨rfl, rfl⟩ := Spot.mk.inj hc
      exact ⟨hx, [], by simp, nofun⟩
    · refine ⟨hk, later ++ [e], ?_, List.forall_mem_append.2 ⟨hl, by simpa using he⟩⟩
      have hm : m ≤ es.length := by
        have := congrArg List.length hd
        simp only [List.length_drop, List.length_cons] at this
        omega
      rw [List.drop_append_of_le_length hm, hd, List.cons_append]

theorem waiting?_eq_some_iff : waiting? es = some c ↔ Waits c es := by
  rw [waiting?, ← List.reverse_reverse es, List.reverse_reverse]
  generalize es.reverse = newest
  induction newest with
  | nil => simp [lastWaiting?, Waits]
  | cons e earlier ih =>
    rw [List.reverse_cons, waits_append_singleton, ← ih, lastWaiting?, List.length_reverse]
    by_cases he : e.entersComment
    · have hk : ¬ e.keepsComment := by simp [Event.keepsComment, he]
      simp [he, hk, eq_comm]
    · by_cases hk : e.keepsComment <;> simp [he, hk]

theorem Waits.moment_lt (h : Waits c es) : c.moment < es.length := by
  obtain ⟨-, later, hd, -⟩ := h
  have := congrArg List.length hd
  simp only [List.length_drop, List.length_cons] at this
  omega

/-- A comment that still waits was entered after whatever consumes. -/
theorem Waits.moment_gt {xs : List Event} (h : Waits c es) (hes : xs ++ [e] <+: es)
    (he : e.consumes) : xs.length < c.moment := by
  obtain ⟨ys, rfl⟩ := hes
  obtain ⟨hk, later, hd, hl⟩ := h
  rw [List.append_assoc, List.singleton_append] at hd
  rcases Nat.lt_trichotomy xs.length c.moment with hlt | heq | hgt
  · exact hlt
  · rw [← heq, List.drop_left] at hd
    obtain ⟨rfl, -⟩ := List.cons_eq_cons.1 hd
    rw [Event.consumes, hk] at he
    cases he
  · rw [List.drop_append_of_le_length (Nat.le_of_lt hgt), List.drop_eq_getElem_cons hgt] at hd
    obtain ⟨-, rfl⟩ := List.cons_eq_cons.1 hd
    have := hl e (by simp)
    simp [Event.keepsComment, he] at this

end Waiting

/-! ## Entities -/

/-- Something that may have a comment: a declaration, a method or an attribute. -/
structure Entity where
  kind : NodeKind
  name : String
  comment : Option String
  deriving DecidableEq

def Attribute.entity (a : Attribute) : Entity :=
  ⟨.field, a.name, a.comment⟩

/-- A method and its parameters. -/
def Method.entities (m : Method) : List Entity :=
  ⟨.function, m.name, m.comment⟩ :: m.parameters.map Attribute.entity

def Body.entities : Body → List Entity
  | .enum _ => []
  | .struct as | .exception as => as.map Attribute.entity
  | .service ms => ms.flatMap Method.entities

/-- A declaration and what is in it. -/
def Declaration.entities (d : Declaration) : List Entity :=
  ⟨.declaration d.kind, d.name, d.comment⟩ :: d.body.entities

/-- The declarations, methods and attributes of a document, in the order of the source. -/
def Document.entities (d : Document) : List Entity :=
  d.declarations.flatMap Declaration.entities

/-- Does a node of a kind become an entity at the site? A field of a throws list does not. -/
def Site.makesEntity (site : Site) : NodeKind → Bool
  | .declaration _ | .function => true
  | .field => match site with
    | .body .struct | .body .exception | .parameters => true
    | _ => false
  | _ => false

/-- Does the node become an entity, if these places are those of its tree? -/
def Place.makesEntity (ps : List Place) (p : Place) : Bool :=
  (siteAt (ps.filter (·.moment < p.moment)) p.above).makesEntity p.kind

/-- The entity that the node becomes, with the comment that waits where it is entered. -/
def Place.entity (settings : LoadSettings) (p : Place) : Entity :=
  ⟨p.kind, p.node.trimmedPart .identifier,
    (waiting? p.before).map fun c => settings.normalize c.node.text⟩

/-- Those of a number of places whose nodes become entities. -/
def entityPlaces (ps : List Place) : List Place :=
  ps.filter (·.makesEntity ps)

/-- A place behind all others does not change which of them make entities. -/
theorem entityPlaces_append_singleton {ps : List Place} {p : Place}
    (h : ∀ x ∈ ps, x.moment < p.moment) :
    entityPlaces (ps ++ [p]) =
      entityPlaces ps ++ if (siteAt ps p.above).makesEntity p.kind then [p] else [] := by
  have hps : ∀ x ∈ ps, x.makesEntity (ps ++ [p]) = x.makesEntity ps := by
    intro x hx
    have := h x hx
    rw [Place.makesEntity, List.filter_append, List.filter_cons_of_neg (by simp; omega),
      List.filter_nil, List.append_nil, Place.makesEntity]
  have hp : p.makesEntity (ps ++ [p]) = (siteAt ps p.above).makesEntity p.kind := by
    rw [Place.makesEntity, List.filter_append, List.filter_cons_of_neg (by simp),
      List.filter_nil, List.append_nil, List.filter_eq_self.2 (by simpa using h)]
  rw [entityPlaces, List.filter_append, List.filter_congr hps, List.filter_cons, hp,
    List.filter_nil, entityPlaces]

/-! ## Steps -/

namespace Focus

/-- The entities of what is open. -/
def entities (f : Focus) : List Entity :=
  f.declaration?.toList.flatMap Declaration.entities

theorem entities_addField (f : Focus) (a : Attribute) :
    (f.addField a).entities =
      f.entities ++ if f.site.makesEntity .field then [a.entity] else [] := by
  cases f using by_kind <;>
    simp [addField, entities, declaration?, Declaration.entities, Body.entities, Method.entities,
      Method.addParameter, Method.addThrown, site, Site.makesEntity, Declaration.kind, Body.kind]

end Focus

namespace Sketch

variable {settings : LoadSettings} {s s' : Sketch} {n : Node}

/-- The entities that a sketch has so far. -/
def entities (s : Sketch) : List Entity :=
  s.closed.flatMap Declaration.entities ++ s.focus.entities

/-- A node makes an entity with the comment that waits, or none. -/
theorem entities_enter (h : s.enter settings n = .ok s') :
    s'.entities = s.entities ++
      if s.focus.site.makesEntity n.kind then [⟨n.kind, n.trimmedPart .identifier, s.pending⟩]
      else [] := by
  rw [entities, entities]
  cases entered_of_eq_ok h with
  | @declaration k hk hf =>
    rw [hk, hf]
    cases k <;> simp [Focus.entities, Focus.declaration?, Declaration.entities, Declaration.opened,
      Body.entities, Body.empty, Site.makesEntity, Declaration.kind, Body.kind]
  | function hk hf =>
    rw [hk, hf]
    simp [Focus.entities, Focus.declaration?, Declaration.entities, Body.entities,
      Method.entities, Site.makesEntity, Declaration.kind, Body.kind]
  | field hk =>
    rw [hk, Focus.entities_addField, ← List.append_assoc]
    rfl
  | document hk => rw [hk]; exact (List.append_nil _).symm
  | enumValue hk hf => rw [hk, hf]; exact (List.append_nil _).symm
  | throwsList hk hf => rw [hk, hf]; exact (List.append_nil _).symm
  | comment hk => rw [hk]; exact (List.append_nil _).symm
  | passed hk => rcases hk with hk | hk <;> rw [hk] <;> exact (List.append_nil _).symm

theorem entities_exit (h : s.exit n = .ok s') : s'.entities = s.entities := by
  rw [entities, entities]
  cases exited_of_eq_ok h with
  | declaration hk hf =>
    rw [hf]
    simp [Focus.entities, Focus.declaration?]
  | function hk hf =>
    rw [hf]
    rfl
  | other => rfl

/-- A comment begins to wait, and an event that consumes or closes leaves none waiting. -/
theorem pending_advance {e : Event} (h : s.advance settings e = .ok s') :
    s'.pending =
      if e.entersComment then some (settings.normalize e.node.text)
      else if e.keepsComment then s.pending
      else none := by
  cases e with
  | exit n =>
    have hkeep : (Event.exit n).keepsComment = !n.kind.opensScope := rfl
    rw [hkeep]
    cases exited_of_eq_ok h with
    | declaration hk => rw [hk]; rfl
    | function hk => rw [hk]; rfl
    | other hk => rw [hk]; rfl
  | enter n =>
    have hc : (Event.enter n).entersComment = (n.kind == .commentMultiline) := rfl
    have hkeep : (Event.enter n).keepsComment = (!(n.kind == .commentMultiline) &&
        !(n.kind.opensScope || n.kind == .field) && !false) := rfl
    rw [hc, hkeep]
    cases entered_of_eq_ok h with
    | passed hk => rcases hk with hk | hk <;> rw [hk] <;> rfl
    | document hk | declaration hk | enumValue hk | field hk | function hk | throwsList hk
    | comment hk => rw [hk]; rfl

/-- The waiting comment is the one that waits after the events so far. -/
theorem pending_waiting {es : List Event} {e : Event}
    (hs : s.pending = (waiting? es).map fun c => settings.normalize c.node.text)
    (h : s.advance settings e = .ok s') :
    s'.pending = (waiting? (es ++ [e])).map fun c => settings.normalize c.node.text := by
  rw [pending_advance h, waiting?_append_singleton]
  by_cases he : e.entersComment
  · rw [if_pos he, if_pos he]
    rfl
  · rw [if_neg he, if_neg he]
    by_cases hk : e.keepsComment
    · rw [if_pos hk, if_pos hk, hs]
    · rw [if_neg hk, if_neg hk]
      rfl

end Sketch

/-- What a run keeps: the entities so far are those of the places so far. -/
structure Commented (settings : LoadSettings) (earlier : List Place) (before : List Event)
    (s : Sketch) : Prop where
  past : ∀ x ∈ earlier, x.moment < before.length
  entities : s.entities = (entityPlaces earlier).map (Place.entity settings)
  pending : s.pending = (waiting? before).map fun c => settings.normalize c.node.text

theorem Commented.enter {settings : LoadSettings} {p : Place} {earlier : List Place}
    {s s' : Sketch} (ht : Tracks earlier p.before p.above s)
    (h : Commented settings earlier p.before s) (he : s.enter settings p.node = .ok s') :
    Commented settings (earlier ++ [p]) (p.before ++ [.enter p.node]) s' := by
  refine ⟨fun x hx => ?_, ?_, Sketch.pending_waiting h.pending he⟩
  · rw [List.length_append, List.length_singleton]
    rcases List.mem_append.1 hx with hx | hx
    · exact Nat.lt_succ_of_lt (h.past x hx)
    · rw [List.mem_singleton.1 hx]
      exact Nat.lt_succ_self _
  · rw [Sketch.entities_enter he, entityPlaces_append_singleton h.past, List.map_append,
      h.entities, ht.site, h.pending]
    refine congrArg _ ?_
    show (if (siteAt earlier p.above).makesEntity p.kind then [p.entity settings] else []) = _
    split <;> rfl

theorem Commented.exit {settings : LoadSettings} {n : Node} {before : List Event}
    {earlier : List Place} {s s' : Sketch} (h : Commented settings earlier before s)
    (he : s.exit n = .ok s') : Commented settings earlier (before ++ [.exit n]) s' := by
  refine ⟨fun x hx => ?_, ?_, Sketch.pending_waiting h.pending he⟩
  · rw [List.length_append]
    exact Nat.lt_add_right _ (h.past x hx)
  · rw [Sketch.entities_exit he, h.entities]

/-- The entities of a document are made at the places of its tree, in the same order, each with the
comment that waits there. -/
theorem Document.entities_eq {settings : LoadSettings} {name : String} {root : Node}
    {d : Document} (h : Document.ofTree settings name root = .ok d) :
    d.entities = (entityPlaces root.places).map (Place.entity settings) := by
  obtain ⟨s, hs, hf, rfl⟩ := Document.runs_of_ofTree h
  have hc := Sketch.run_tracks (J := Commented settings) Commented.enter Commented.exit hs .start
    ⟨nofun, rfl, rfl⟩
  have := hc.2.entities
  rw [Sketch.entities, hf, List.nil_append, ← Node.places_eq] at this
  rw [← this]
  exact (List.append_nil _).symm

/-! ## Comments come in the order of their entities -/

theorem Place.consumes_of_makesEntity {ps : List Place} {p : Place} (h : p.makesEntity ps) :
    (Event.enter p.node).consumes := by
  rw [Event.consumes]
  rw [makesEntity] at h
  cases hk : p.node.kind with
  | declaration k => rfl
  | function => rfl
  | field => rfl
  | _ =>
    rw [show p.kind = _ from hk] at h
    cases h

/-- The comment of an earlier entity is an earlier one, so no two entities have the same one. -/
theorem Node.comments_in_order (root : Node) :
    (entityPlaces root.places).Pairwise fun p q =>
      ∀ c c', Waits c p.before → Waits c' q.before → c.moment < c'.moment := by
  refine ((pairwise_moment_places root).filter _).imp_of_mem fun {p q} hp hq hlt c c' hc hc' => ?_
  obtain ⟨hp, hpe⟩ := List.mem_filter.1 hp
  have hpq := enter_before_of_moment_lt hp (List.mem_filter.1 hq).1 hlt
  exact Nat.lt_trans hc.moment_lt (hc'.moment_gt hpq (Place.consumes_of_makesEntity hpe))

/-! ## Events that leave the waiting comment alone -/

namespace Builder

/-- The step leaves the waiting comment as it is, refused or not. -/
def KeepsPending {α : Type} (x : Build α) : Prop :=
  ∀ b, match x.run b with
    | .ok _ b' | .error _ b' => b'.pending = b.pending

namespace KeepsPending

variable {α β : Type}

theorem bind {x : Build α} {f : α → Build β} (hx : KeepsPending x) (hf : ∀ a, KeepsPending (f a)) :
    KeepsPending (x >>= f) := by
  intro b
  have hb := hx b
  rw [EStateM.run_bind]
  cases hr : x.run b with
  | error e b' =>
    rw [hr] at hb
    exact hb
  | ok a b' =>
    rw [hr] at hb
    have ha := hf a b'
    show match (f a).run b' with
      | .ok _ b'' | .error _ b'' => b''.pending = b.pending
    cases hr' : (f a).run b' with
    | ok _ b'' | error _ b'' =>
      rw [hr'] at ha
      exact ha.trans hb

theorem pure (a : α) : KeepsPending (pure a : Build α) := fun _ => rfl

theorem throw (e : LoadError) : KeepsPending (throw e : Build α) := fun _ => rfl

theorem get : KeepsPending (get : Build Builder) := fun _ => rfl

theorem liftExcept (x : Except LoadError α) : KeepsPending (liftExcept x : Build α) := by
  intro b
  rw [run_liftExcept]
  cases x <;> rfl

theorem changeContext (change : Context → Except LoadError Context) :
    KeepsPending (changeContext change) := by
  intro b
  rw [run_changeContext]
  cases change b.context <;> rfl

theorem addTo (index : Nat) (a : Addition) : KeepsPending (addTo index a) := by
  intro b
  rw [Builder.addTo, EStateM.run_bind, EStateM.run_get]
  dsimp only
  cases b.declarations[index]?.bind (·.add? a) <;> rfl

theorem enterDocument : KeepsPending enterDocument := by
  refine bind (x := modify _) (fun _ => rfl) fun _ => bind get fun b => ?_
  show KeepsPending (if b.documents > 1 then _ else _)
  split
  · exact throw _
  · exact pure _

theorem enterEnumValue (n : Node) : KeepsPending (enterEnumValue n) := by
  refine bind (liftExcept _) fun value => bind get fun b => ?_
  cases b.context.enum? with
  | some index => exact addTo index _
  | none => exact throw _

end KeepsPending

/-- Only a comment, and what consumes or closes, changes which comment waits. -/
theorem pending_step (settings : LoadSettings) (b : Builder) {e : Event} (he : e.keepsComment) :
    (b.step settings e).2.pending = b.pending := by
  have h : KeepsPending (handle settings e) := by
    cases e with
    | exit n =>
      rw [handle, exit]
      cases hk : n.kind with
      | declaration k => simp [Event.keepsComment, Event.closes, NodeKind.opensScope, hk] at he
      | function => simp [Event.keepsComment, Event.closes, NodeKind.opensScope, hk] at he
      | _ => exact .pure _
    | enter n =>
      rw [handle, enter]
      cases hk : n.kind with
      | document => exact .enterDocument
      | enumValue => exact .enterEnumValue n
      | throwsList => exact .changeContext _
      | commentSingleline => exact .pure _
      | other => exact .pure _
      | _ =>
        simp [Event.keepsComment, Event.entersComment, Event.consumes, NodeKind.opensScope, hk]
          at he
  have hb := h b
  rw [step]
  cases hr : (handle settings e).run b with
  | ok _ b' | error _ b' =>
    rw [hr] at hb
    exact hb

end Builder

/-! ## The comments of a document -/

/-- The comment of an entity is the last one entered before the node of the entity, if nothing
between the two consumes or closes; no other event counts. So comments come in the order of their
entities, and none belongs to two of them. -/
theorem Document.leading_comments {settings : LoadSettings} {name : String} {root : Node}
    {d : Document} (h : Document.ofTree settings name root = .ok d) :
    d.entities = (entityPlaces root.places).map (Place.entity settings) ∧
    (∀ p ∈ root.places, p.before ++ [.enter p.node] <+: root.events ∧
      ∀ c, waiting? p.before = some c ↔ Waits c p.before) ∧
    (∀ (b : Builder) (e : Event), e.keepsComment → (b.step settings e).2.pending = b.pending) ∧
    (entityPlaces root.places).Pairwise fun p q =>
      ∀ c c', Waits c p.before → Waits c' q.before → c.moment < c'.moment :=
  ⟨entities_eq h, fun p hp => ⟨root.enter_before_events p hp, fun _ => waiting?_eq_some_iff⟩,
    fun b _ he => b.pending_step settings he, root.comments_in_order⟩

/-- Comments that are replaced, taken, and dropped at the end of a struct; the second field takes
none, since the first has taken it. -/
def Node.annotated : Node :=
  document [
    commentMultiline "/** Replaced. */",
    commentMultiline "/** A pair. */",
    declaration .struct "Pair" [
      commentMultiline "/** Left. */",
      (ofKind .other).push (field "a" "i32"),
      field "b" "i32",
      commentMultiline "/** Dropped. */"],
    declaration .service "Pairs" [
      commentMultiline "/** Both. */",
      commentSingleline "// Skipped.",
      function "swap" "Pair" [field "pair" "Pair"]]]

theorem Document.leading_comments_annotated :
    let d : Document := {
      name := "pair"
      declarations := [
        { name := "Pair", comment := some "A pair.", body := .struct [
          { name := "a", type := ⟨"i32"⟩, comment := some "Left." },
          { name := "b", type := ⟨"i32"⟩ }] },
        { name := "Pairs", body := .service [
          { name := "swap", comment := some "Both.", returnType := ⟨"Pair"⟩,
            parameters := [{ name := "pair", type := ⟨"Pair"⟩ }] }] }] }
    Document.ofTree {} "pair" Node.annotated = .ok d ∧
      d.entities = (entityPlaces Node.annotated.places).map (Place.entity {}) := by
  intro d
  have h : Document.ofTree {} "pair" Node.annotated = .ok d := by decide +kernel
  exact ⟨h, (leading_comments h).1⟩

end IdlModel
