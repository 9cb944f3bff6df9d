import IdlModel.Load.File
import IdlModel.Node.Encode
import IdlModel.Json.Printer
import IdlModel.Proofs.Json.Reading
import IdlModel.Proofs.Load.Step
import IdlModel.Proofs.Node.Place

/-!
# Trees from their own JSON

A tree is read back from the JSON form of it exactly if the form does not nest too deep, and is
refused as malformed otherwise (`Node.ofFile_toJson`).

How deep the form nests is told by the places of the tree (`Node.nesting`). The induction is on the
levels that are left for a tree: a node takes one for its own brackets and one for those around its
children (`Node.nesting_le_add_two`), so two less are left for each child. The law of one node,
`Node.reads_readWith`, takes what is read of the children as it is given, errors included.
-/

namespace IdlModel

open Json (Reader ReadError)
open Json.Reader

/-! ## How deep the form of a tree nests -/

/-- How deep the node stands in its tree; the root stands at depth one. -/
def Place.depth (p : Place) : Nat :=
  p.above.length + 1

/-- How deep the form of the tree nests at the node: every node above it is an object in the list
of an object, and its named fields are one more object. -/
def Place.nesting (p : Place) : Nat :=
  2 * p.depth - 1 + if p.node.fields.isEmpty then 0 else 1

namespace Node

/-- How deep the form of a tree nests: the greatest depth at any of its nodes. -/
def nesting (t : Node) : Nat :=
  (t.places.map Place.nesting).foldr max 0

theorem nesting_le {t : Node} {n : Nat} : t.nesting ≤ n ↔ ∀ p ∈ t.places, p.nesting ≤ n := by
  rw [nesting]
  induction t.places with
  | nil => simp
  | cons p ps ih => rw [List.map_cons, List.foldr_cons, Nat.max_le, ih, List.forall_mem_cons]

/-- Under more ancestors everything nests two levels deeper for each of them. -/
theorem map_nesting_placesOfAll {ns : List Node} {before before' : List Event}
    {above above' : List Spot} {n : Nat} (h : above'.length = above.length + n) :
    (placesOfAll ns before' above').map Place.nesting =
      (placesOfAll ns before above).map (Place.nesting · + 2 * n) := by
  induction ns using forest_induction generalizing before before' above above' with
  | nil => rfl
  | cons t ns iht ih =>
    rw [placesOfAll_cons, placesOfAll_cons t ns before, List.map_append, List.map_append, iht h,
      ih h]
  | node t ih =>
    rw [placesOfAll_node, placesOfAll_node, List.map_cons, List.map_cons]
    congr 1
    · simp only [Place.nesting, Place.depth, h]
      omega
    · exact ih (by simp only [List.length_cons]; omega)

/-- A bound for trees by themselves is one for where they stand: two more for each ancestor. -/
theorem forall_nesting_le {ns : List Node} {before : List Event} {above : List Spot} {n : Nat} :
    (∀ p ∈ placesOfAll ns before above, p.nesting ≤ n + 2 * above.length) ↔
      ∀ t ∈ ns, t.nesting ≤ n := by
  induction ns generalizing before with
  | nil => simp [placesOfAll]
  | cons t ns ih =>
    have hmap : (placesOfAll [t] before above).map Place.nesting =
        (placesOfAll [t] [] []).map (Place.nesting · + 2 * above.length) :=
      map_nesting_placesOfAll (Nat.zero_add _).symm
    have ht : (∀ p ∈ placesOfAll [t] before above, p.nesting ≤ n + 2 * above.length) ↔
        t.nesting ≤ n := by
      rw [← List.forall_mem_map (P := (· ≤ n + 2 * above.length)), hmap, List.forall_mem_map,
        nesting_le, places_eq]
      simp only [Nat.add_le_add_iff_right]
    rw [placesOfAll_cons, List.forall_mem_append, List.forall_mem_cons, ih, ht]

theorem nesting_le_iff {t : Node} {n : Nat} :
    t.nesting ≤ n ↔ (1 + if t.fields.isEmpty then 0 else 1) ≤ n ∧
      ∀ p ∈ placesOfAll t.children [.enter t] [⟨0, t⟩], p.nesting ≤ n := by
  rw [nesting_le, places_eq, placesOfAll_node, List.forall_mem_cons]
  rfl

theorem not_nesting_le_zero (t : Node) : ¬ t.nesting ≤ 0 := by
  rw [nesting_le_iff]
  omega

theorem nesting_le_add_two {t : Node} {n : Nat} :
    t.nesting ≤ n + 2 ↔ ∀ c ∈ t.children, c.nesting ≤ n := by
  have hroot : (1 + if t.fields.isEmpty then 0 else 1) ≤ n + 2 := by
    split <;> omega
  rw [nesting_le_iff]
  exact (and_iff_right hroot).trans forall_nesting_le

theorem nesting_le_one {t : Node} :
    t.nesting ≤ 1 ↔ t.fields.isEmpty = true ∧ t.children = [] := by
  constructor
  · intro h
    have hchildren := nesting_le_add_two.1 (Nat.le_succ_of_le h : t.nesting ≤ 0 + 2)
    have hfields := (nesting_le_iff.1 h).1
    refine ⟨?_, List.eq_nil_iff_forall_not_mem.2 fun c hc =>
      not_nesting_le_zero c (hchildren c hc)⟩
    exact Decidable.byContradiction fun hf => by
      rw [if_neg hf] at hfields
      omega
  · rintro ⟨hfields, hchildren⟩
    rw [nesting_le_iff, hfields, hchildren]
    exact ⟨Nat.le_refl 1, nofun⟩

/-! ## Reading -/

theorem toJson_eq (t : Node) : t.toJson = .ofMembers [
    Json.member "kind" (.string t.rule),
    if t.text.isEmpty then none else Json.member "text" (.string t.text),
    if t.fields.isEmpty then none else Json.member "fields" t.fields.toJson,
    if t.children.isEmpty then none
    else Json.member "children" (.array (t.children.map toJson))] := by
  cases t
  rw [toJson, toJsonAll_eq_map, membersWith, List.isEmpty_map]

/-- The text of a tree has no numbers. -/
theorem numberFree_toJson (t : Node) : t.toJson.NumberFree := by
  suffices h : ∀ ns : List Node, ∀ t ∈ ns, t.toJson.NumberFree from h [t] t List.mem_cons_self
  intro ns
  induction ns using forest_induction with
  | nil => exact nofun
  | cons t ns iht ih =>
    rw [List.forall_mem_cons]
    exact ⟨iht t List.mem_cons_self, ih⟩
  | node t ih =>
    rw [List.forall_mem_singleton, toJson_eq]
    refine .ofMembers ?_
    simp only [List.forall_mem_cons]
    exact ⟨.member (.string _) _, .memberUnless (.string _) _ _,
      .memberUnless (.object (List.forall_mem_map.2 fun e _ => .string e.2)) _ _,
      .memberUnless (.array (List.forall_mem_map.2 ih)) _ _, nofun⟩

theorem reads_readFields_ofList (es : List (String × String)) (levels : Nat) :
    Reads (readFields levels) (Json.object (es.map fun e => (e.1, .string e.2))).toTokens
      (spending levels (.ok (Fields.ofList es))) := by
  have hgather : Gathers (fun name (fields : Fields) => do
      colon
      let text ← string
      pure (fields.insert name text)) true .empty
      (es.map fun e => (e.1, .string e.2)) (.ok (Fields.ofList es)) :=
    Gathers.foldl fun e _ fields =>
      reads_colon.bind_ok ((reads_string e.2).map fun text => fields.insert e.1 text)
  exact (reads_opening .curly).bind_ok
    (reads_spending levels (reads_members_ok hgather (reads_closed _)))

theorem reads_readFields (fs : Fields) (levels : Nat) :
    Reads (readFields levels) fs.toJson.toTokens (spending levels (.ok fs)) := by
  have hread := reads_readFields_ofList fs.entries levels
  rwa [Fields.ofList_entries] at hread

variable {levels : Nat} {child : Reader Node} {x : Node → Except ReadError Node}

/-- What has been read of a node in front of its closing bracket, given what is read of the
children. -/
def draftWithin (levels : Nat) (x : Node → Except ReadError Node) (t : Node) :
    Except ReadError Draft := do
  let text ← unlessEmpty t.text.isEmpty (.ok t.text)
  let fields ← unlessEmpty t.fields.isEmpty (spending levels (.ok t.fields))
  let children ← unlessEmpty t.children.isEmpty (spending levels (t.children.mapM x))
  return { rule := some t.rule, text, fields, children }

/-- The members of a node, given what is read of each child. -/
theorem gathers_members (levels : Nat) (t : Node)
    (hchild : ∀ c ∈ t.children, Reads child c.toJson.toTokens (x c)) :
    Gathers (readMember levels child) true {}
      ([Json.member "kind" (.string t.rule),
        if t.text.isEmpty then none else Json.member "text" (.string t.text),
        if t.fields.isEmpty then none else Json.member "fields" t.fields.toJson,
        if t.children.isEmpty then none
        else Json.member "children" (.array (t.children.map toJson))].filterMap id)
      (draftWithin levels x t) := by
  -- a member finds its own place in the draft empty, whichever of those before it were there
  have hkind : Reads (readMember levels child "kind" {}) (.colon :: [.string (.ok t.rule)])
      (.ok { rule := some t.rule }) :=
    (reads_once (reads_string t.rule)).map fun rule => ({ rule } : Draft)
  have htext : Reads (readMember levels child "text" { rule := some t.rule })
      (.colon :: (Json.string t.text).toTokens)
      ((fun text => { rule := some t.rule, text }) <$> some <$> .ok t.text) :=
    (reads_once (reads_string t.text)).map _
  have hfields (text : Option String) :
      Reads (readMember levels child "fields" { rule := some t.rule, text })
        (.colon :: t.fields.toJson.toTokens)
        ((fun fields => { rule := some t.rule, text, fields }) <$> some <$>
          spending levels (.ok t.fields)) :=
    (reads_once (reads_readFields t.fields levels)).map _
  have hchildren (text : Option String) (fields : Option Fields) :
      Reads (readMember levels child "children" { rule := some t.rule, text, fields })
        (.colon :: (Json.array (t.children.map toJson)).toTokens)
        ((fun children => { rule := some t.rule, text, fields, children }) <$> some <$>
          spending levels (t.children.mapM x)) :=
    (reads_once (reads_list levels (fun c _ => c.numberFree_toJson) hchild)).map _
  refine Gathers.cons_ok hkind ?_
  refine Gathers.optional (p := fun text => ({ rule := some t.rule, text } : Draft))
    htext fun text => ?_
  refine Gathers.optional (p := fun fields => ({ rule := some t.rule, text, fields } : Draft))
    (hfields text) fun fields => ?_
  exact Gathers.optional
    (p := fun children => ({ rule := some t.rule, text, fields, children } : Draft))
    (hchildren text fields) fun _ => Gathers.nil

/-- The tree, if its form nests no deeper than there are levels. -/
def within (levels : Nat) (t : Node) : Except ReadError Node :=
  if t.nesting ≤ levels then .ok t else .error (.fault .malformed)

/-- What is read of a node that does not nest too deep. -/
def draft (t : Node) : Draft where
  rule := some t.rule
  text := if t.text.isEmpty then none else some t.text
  fields := if t.fields.isEmpty then none else some t.fields
  children := if t.children.isEmpty then none else some t.children

theorem node_draft (t : Node) : t.draft.node = .ok t := by
  obtain ⟨rule, text, ⟨entries, ascending⟩, children⟩ := t
  have htext : (if text.isEmpty then none else some text).getD "" = text := by
    by_cases h : text = "" <;> simp [h]
  show Except.ok (_ : Node) = _
  simp only [draft, htext]
  cases entries <;> cases children <;> rfl

theorem unlessEmpty_ok {α : Type} (empty : Bool) (a : α) :
    unlessEmpty empty (.ok a) = .ok (if empty then none else some a) := by
  cases empty <;> rfl

/-- If a child nests too deep then so does the node, and nothing of it is kept. -/
theorem draftWithin_eq (levels : Nat) (t : Node) : draftWithin levels (within (levels - 1)) t =
    if t.nesting ≤ levels + 1 then .ok t.draft else .error (.fault .malformed) := by
  rw [draftWithin, unlessEmpty_ok, draft]
  cases levels with
  | zero =>
    simp only [Nat.zero_add, nesting_le_one]
    cases hf : t.fields.isEmpty with
    | false => rfl
    | true =>
      cases hc : t.children with
      | nil => rfl
      | cons c cs => rfl
  | succ levels =>
    have hchildren : t.children.mapM (within levels) = if ∀ c ∈ t.children, c.nesting ≤ levels then
      .ok t.children else .error (.fault .malformed) := Json.mapM_ite t.children
    show (Except.ok _ >>= fun text => unlessEmpty t.fields.isEmpty (.ok t.fields) >>= fun fields =>
      unlessEmpty t.children.isEmpty (t.children.mapM (within levels)) >>= _) = _
    rw [hchildren, unlessEmpty_ok]
    by_cases hnesting : ∀ c ∈ t.children, c.nesting ≤ levels
    · rw [if_pos hnesting, if_pos (nesting_le_add_two.2 hnesting), unlessEmpty_ok]
      rfl
    · rw [if_neg hnesting, if_neg fun h => hnesting (nesting_le_add_two.1 h)]
      cases hc : t.children with
      | nil => exact absurd (hc ▸ nofun) hnesting
      | cons c cs => rfl

/-- One node: two levels less are left for its children than for itself, if there are any. -/
theorem reads_readWith {t : Node}
    (hchild : ∀ c ∈ t.children, Reads child c.toJson.toTokens (within (levels - 1) c)) :
    Reads (readWith (levels + 1) child) t.toJson.toTokens (within (levels + 1) t) := by
  have hgather := t.gathers_members levels hchild
  rw [draftWithin_eq] at hgather
  rw [toJson_eq, within]
  by_cases hnesting : t.nesting ≤ levels + 1
  · rw [if_pos hnesting] at hgather ⊢
    have hnode : Reads (do let n ← ofExcept t.draft.node; close .curly; pure n)
        [.closing .curly] (.ok t) :=
      (reads_ofExcept t.node_draft).bind_ok (reads_closed t)
    exact (reads_opening .curly).bind_ok
      (reads_spending (levels + 1) (reads_members_ok hgather hnode))
  · rw [if_neg hnesting] at hgather ⊢
    exact (reads_opening .curly).bind_ok (reads_spending (levels + 1)
      (reads_members (y := fun _ => .error (.fault .malformed)) hgather fun _ hs => nomatch hs))

/-- A tree is read from its own form if there are enough levels for it, and is malformed if not. -/
theorem reads_toJson (levels : Nat) (t : Node) :
    Reads (reader levels) t.toJson.toTokens (within levels t) := by
  induction levels using reader.induct generalizing t with
  | case1 levels ih => exact reads_readWith fun c _ => ih c
  | case2 levels h =>
    match levels with
    | 0 =>
      rw [within, if_neg t.not_nesting_le_zero, toJson_eq]
      exact (reads_opening .curly).bind_ok fun _ => rfl
    | 1 =>
      refine reads_readWith fun c _ => ?_
      rw [within, if_neg c.not_nesting_le_zero]
      exact Reads.fault .malformed _
    | n + 2 => exact absurd rfl (h n)

/-- The text of a tree, on one line or over several, is read as the tree if it nests no deeper than
127 levels, and is malformed otherwise. So a file that holds it leads to the document that the tree
itself leads to. -/
theorem ofFile_toJson (t : Node) : ∀ text ∈ [t.toJson.compact, t.toJson.pretty],
    (ofFile (.file text) =
      if t.nesting ≤ 127 then .ok t else .error (.notTree (.fault .malformed))) ∧
    (t.nesting ≤ 127 → ∀ settings lookup path, lookup path = .file text →
      Document.ofPath settings lookup path =
        (Document.ofTree settings path t).mapError .load) := by
  intro text htext
  have hread : ofJsonText text = within 127 t := by
    have h := t.reads_toJson maxDepth
    rcases List.mem_cons.1 htext with rfl | htext
    · exact read_print t.numberFree_toJson h .compact
    · obtain rfl := List.mem_singleton.1 htext
      exact read_print t.numberFree_toJson h (.indented 0)
  have hfile : ofFile (.file text) =
      if t.nesting ≤ 127 then .ok t else .error (.notTree (.fault .malformed)) := by
    rw [ofFile, hread, within]
    by_cases hnesting : t.nesting ≤ 127
    · rw [if_pos hnesting, if_pos hnesting]
    · rw [if_neg hnesting, if_neg hnesting]
  refine ⟨hfile, fun hnesting settings lookup path hlookup => ?_⟩
  rw [Document.ofPath, hlookup, hfile, if_pos hnesting]
  cases h : Document.ofTree settings path t with
  | error e => simp only [h]; rfl
  | ok d => simp only [h]; rfl

/-- A document with a struct and, in it, a comment, under a number of wrapping nodes. -/
def wrapped : Nat → Node
  | 0 => document [declaration .struct "Point" [commentSingleline "// Empty."]]
  | n + 1 => { rule := "block", children := [wrapped n] }

theorem ofFile_toJson_wrapped :
    (wrapped 61).toJson.compact ∈ [(wrapped 61).toJson.compact, (wrapped 61).toJson.pretty] ∧
      (wrapped 61).nesting ≤ 127 ∧ ofFile (.file (wrapped 61).toJson.compact) = .ok (wrapped 61) ∧
      Document.ofPath {} (fun _ => .file (wrapped 61).toJson.compact) "point.json" = .ok {
        name := "point.json"
        declarations := [{ name := "Point", body := .struct [] }] } ∧
      ¬ (wrapped 62).nesting ≤ 127 ∧
      ofFile (.file (wrapped 62).toJson.pretty) = .error (.notTree (.fault .malformed)) := by
  have hcompact : (wrapped 61).toJson.compact ∈
      [(wrapped 61).toJson.compact, (wrapped 61).toJson.pretty] := List.mem_cons_self
  have hpretty : (wrapped 62).toJson.pretty ∈
      [(wrapped 62).toJson.compact, (wrapped 62).toJson.pretty] :=
    List.mem_cons_of_mem _ List.mem_cons_self
  have hfits : (wrapped 61).nesting ≤ 127 := by decide +kernel
  have hdeep : ¬ (wrapped 62).nesting ≤ 127 := by decide +kernel
  obtain ⟨hread, hload⟩ := ofFile_toJson (wrapped 61) _ hcompact
  have hrefused := (ofFile_toJson (wrapped 62) _ hpretty).1
  rw [if_pos hfits] at hread
  rw [if_neg hdeep] at hrefused
  refine ⟨hcompact, hfits, hread, ?_, hdeep, hrefused⟩
  have hdocument : Document.ofTree {} "point.json" (wrapped 61) = .ok {
      name := "point.json"
      declarations := [{ name := "Point", body := .struct [] }] } := by
    decide +kernel
  rw [hload hfits {} (fun _ => .file (wrapped 61).toJson.compact) "point.json" rfl, hdocument]
  rfl

end Node

end IdlModel
