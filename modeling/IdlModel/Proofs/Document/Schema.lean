import IdlModel.Document.Schema
import IdlModel.Proofs.Document.Form
import IdlModel.Proofs.Schema.Properties

/-!
# What the schema of documents describes

The definitions in the schema of documents describe the forms of the parts of documents, and the
schema the forms of documents (`Document.describes_schema`): each form is valid, and a valid value
without repeated keys and without numbers is a form. The properties of a record are its slots with
their contents left open, so this comes down to the properties one by one. The definition of
declarations asks for exactly one of the kinds, of which no object has two.

The number that goes with a definition is how deep schemas apply inside one another in it.
-/

namespace IdlModel

open Json (MemberSlot RecordForm)

namespace Schema

/-! ## Records -/

/-- The slots of some records are for some properties: whatever is asked of slots, there is a record
with such slots if each property has such a slot for some content. -/
def AreFor {α : Type} (slotsOf : α → List MemberSlot) (ps : List Property) : Prop :=
  ∀ asked : MemberSlot → Prop,
    (∃ a, ∀ slot ∈ slotsOf a, asked slot) ↔ ∀ p ∈ ps, ∃ c, asked (p.slot c)

/-- The forms of records with such slots are the plain values that have the properties. -/
theorem describes_records {α : Type} {slotsOf : α → List MemberSlot} {ps : List Property}
    {root : Json} {n : Nat} {ms : List (String × Json)}
    (hms : ms.filter (·.1 ∉ annotations) = [("type", .string "object"),
      ("properties", .object (ps.map Property.entry)), ("required", requiredKeys ps)])
    (hkeys : (ps.map Property.key).Nodup) (hps : ∀ p ∈ ps, p.Described root n)
    (hnodup : ∀ a, ((slotsOf a).map MemberSlot.key).Nodup) (hslots : AreFor slotsOf ps) :
    Describes root (n + 1) (.object ms) fun v => ∃ a, RecordForm (slotsOf a) v := by
  refine (describes_has hms hkeys hps).imp ?_ ?_
  · rintro v ⟨a, h⟩
    obtain ⟨ms, rfl, hfits⟩ := h.exists_fits (hnodup a)
    exact ⟨ms, rfl, (hslots (·.FitsIn ms)).1 ⟨a, hfits.fitsIn⟩⟩
  · rintro _ hplain ⟨ms, rfl, hhas⟩
    obtain ⟨a, hfits⟩ := (hslots (·.FitsIn ms)).2 hhas
    exact ⟨a, (hplain.fits hfits).recordForm (hnodup a)⟩

/-- The name. -/
def Property.name : Property :=
  .string "name" text

theorem described_name {root : Json} {n : Nat} : Property.name.Described root (n + 1) :=
  described_string (describes_string rfl)

/-! ## Types -/

theorem describes_typeRef : Describes Document.schema 2 (reference "TypeRef")
    fun v => ∃ s, v = .string s :=
  describes_reference rfl (describes_string rfl)

/-! ## Attributes and methods -/

/-- The properties of attributes. -/
def attributeProperties : List Property :=
  [.comment, .name, .string "type_ref" (reference "TypeRef")]

theorem areFor_attributeProperties : AreFor Attribute.slots attributeProperties := by
  intro asked
  simp only [Attribute.slots, attributeProperties, List.forall_mem_singleton, List.forall_mem_cons]
  constructor
  · rintro ⟨a, hname, htype, hcomment⟩
    exact ⟨⟨_, hcomment⟩, ⟨_, hname⟩, ⟨_, htype⟩⟩
  · rintro ⟨⟨comment, hcomment⟩, ⟨name, hname⟩, ⟨text, htext⟩⟩
    exact ⟨⟨name, ⟨text⟩, comment⟩, hname, htext, hcomment⟩

theorem describes_attribute : Describes Document.schema 4 (reference "Attribute")
    fun v => ∃ a : Attribute, a.IsForm v := by
  have hps : ∀ p ∈ attributeProperties, p.Described Document.schema 2 := by
    simp only [attributeProperties, List.forall_mem_singleton, List.forall_mem_cons]
    exact ⟨described_comment, described_name, described_string describes_typeRef⟩
  exact describes_reference rfl
    (describes_records rfl (by decide) hps Attribute.nodup_slots areFor_attributeProperties)

/-- The properties of methods. -/
def methodProperties : List Property :=
  [.comment, .list "exceptions" (reference "TypeRef") TypeRef.IsForm, .name,
    .list "parameters" (reference "Attribute") Attribute.IsForm,
    .string "return_type" (reference "TypeRef")]

theorem areFor_methodProperties : AreFor Method.slots methodProperties := by
  intro asked
  simp only [Method.slots, methodProperties, List.forall_mem_singleton, List.forall_mem_cons]
  constructor
  · rintro ⟨n, hname, hcomment, hreturn, hparameters, hexceptions⟩
    exact ⟨⟨_, hcomment⟩, ⟨_, hexceptions⟩, ⟨_, hname⟩, ⟨_, hparameters⟩, ⟨_, hreturn⟩⟩
  · rintro ⟨⟨comment, hcomment⟩, ⟨exceptions, hexceptions⟩, ⟨name, hname⟩,
      ⟨parameters, hparameters⟩, ⟨text, hreturn⟩⟩
    exact ⟨⟨name, comment, ⟨text⟩, parameters, exceptions⟩, hname, hcomment, hreturn, hparameters,
      hexceptions⟩

theorem describes_method : Describes Document.schema 7 (reference "Method")
    fun v => ∃ n : Method, n.IsForm v := by
  have hthrown : Describes Document.schema 2 (reference "TypeRef")
      fun v => ∃ t, TypeRef.IsForm t v :=
    describes_typeRef.imp (fun _ ⟨t, ht⟩ => ⟨t.text, ht⟩) fun _ _ ⟨s, hs⟩ => ⟨⟨s⟩, hs⟩
  have hps : ∀ p ∈ methodProperties, p.Described Document.schema 5 := by
    simp only [methodProperties, List.forall_mem_singleton, List.forall_mem_cons]
    exact ⟨described_comment, (described_list hthrown).mono (by decide), described_name,
      described_list describes_attribute,
      (described_string describes_typeRef).mono (by decide)⟩
  exact describes_reference rfl
    (describes_records rfl (by decide) hps Method.nodup_slots areFor_methodProperties)

/-! ## Declarations -/

/-- The list that a declaration of a kind holds. -/
def bodyProperty : DeclarationKind → Property
  | .enum => .list "values" text fun s v => v = .string s
  | .struct | .exception => .list "attributes" (reference "Attribute") Attribute.IsForm
  | .service => .list "methods" (reference "Method") Method.IsForm

theorem described_bodyProperty (k : DeclarationKind) :
    (bodyProperty k).Described Document.schema 8 := by
  cases k with
  | enum => exact described_list (describes_string rfl)
  | struct | exception => exact (described_list describes_attribute).mono (by decide)
  | service => exact described_list describes_method

theorem exists_body_iff (k : DeclarationKind) (asked : MemberSlot → Prop) :
    (∃ b : Body, b.kind = k ∧ asked (.list (Decode.listKey k) b.itemForms)) ↔
      ∃ c, asked ((bodyProperty k).slot c) := by
  constructor
  · rintro ⟨b, rfl, h⟩
    cases b <;> exact ⟨_, h⟩
  · rintro ⟨c, h⟩
    cases k with
    | enum => exact ⟨.enum c, rfl, h⟩
    | struct => exact ⟨.struct c, rfl, h⟩
    | exception => exact ⟨.exception c, rfl, h⟩
    | service => exact ⟨.service c, rfl, h⟩

/-- The properties of declarations of a kind, but for the kind. -/
def declarationProperties : DeclarationKind → List Property
  | .enum => [.comment, .name, bodyProperty .enum]
  | .struct => [bodyProperty .struct, .comment, .name]
  | .exception => [bodyProperty .exception, .comment, .name]
  | .service => [.comment, bodyProperty .service, .name]

theorem forall_mem_declarationProperties {k : DeclarationKind} {Q : Property → Prop} :
    (∀ p ∈ declarationProperties k, Q p) ↔ Q .comment ∧ Q .name ∧ Q (bodyProperty k) := by
  cases k <;> simp [declarationProperties] <;> tauto

theorem exists_declaration_iff (k : DeclarationKind) (asked : MemberSlot → Prop) :
    (∃ d : Declaration, d.kind = k ∧ ∀ slot ∈ d.slots, asked slot) ↔
      (∀ p ∈ [Property.kind k.keyword], ∃ c, asked (p.slot c)) ∧
        ∀ p ∈ declarationProperties k, ∃ c, asked (p.slot c) := by
  simp only [Declaration.slots, Declaration.otherSlots, List.forall_mem_singleton,
    List.forall_mem_cons, forall_mem_declarationProperties, ← exists_body_iff]
  constructor
  · rintro ⟨d, rfl, hkind, hname, hcomment, hbody⟩
    exact ⟨⟨(), hkind⟩, ⟨_, hcomment⟩, ⟨_, hname⟩, d.body, rfl, hbody⟩
  · rintro ⟨⟨_, hkind⟩, ⟨comment, hcomment⟩, ⟨name, hname⟩, b, rfl, hbody⟩
    exact ⟨⟨name, comment, b⟩, rfl, hkind, hname, hcomment, hbody⟩

theorem describes_definition (k : DeclarationKind) :
    ∃ schema, resolve? Document.schema ("#/$defs/" ++ Decode.recordName k) = some schema ∧
      Describes Document.schema 9 schema (Has (declarationProperties k)) := by
  have hps : ∀ p ∈ declarationProperties k, p.Described Document.schema 8 :=
    forall_mem_declarationProperties.2
      ⟨described_comment, described_name, described_bodyProperty k⟩
  -- each definition has its own order of properties
  cases k <;> exact ⟨_, rfl, describes_has rfl (by decide) hps⟩

/-- The schema of the declarations of one kind. -/
def ofKind (k : DeclarationKind) : Json :=
  tagged k.keyword (Decode.recordName k)

theorem describes_ofKind (k : DeclarationKind) : Describes Document.schema 10 (ofKind k)
    fun v => ∃ d : Declaration, d.kind = k ∧ d.IsForm v := by
  obtain ⟨schema, hname, hschema⟩ := describes_definition k
  refine (describes_tagged hname hschema).imp ?_ ?_
  · rintro v ⟨d, hd, h⟩
    obtain ⟨ms, rfl, hfits⟩ := h.exists_fits d.nodup_slots
    obtain ⟨hkind, hothers⟩ := (exists_declaration_iff k (·.FitsIn ms)).1 ⟨d, hd, hfits.fitsIn⟩
    exact ⟨⟨ms, rfl, hkind⟩, ms, rfl, hothers⟩
  · rintro _ hplain ⟨⟨ms, rfl, hkind⟩, _, ⟨⟩, hothers⟩
    obtain ⟨d, hd, hfits⟩ := (exists_declaration_iff k (·.FitsIn ms)).2 ⟨hkind, hothers⟩
    exact ⟨d, hd, (hplain.fits hfits).recordForm d.nodup_slots⟩

/-- No value is valid for two kinds, not even one with repeated keys. -/
theorem kind_eq_of_valid {k k' : DeclarationKind} {v : Json}
    (h : assess Document.schema 10 (ofKind k) v = some true)
    (h' : assess Document.schema 10 (ofKind k') v = some true) : k = k' := by
  have hkind {k : DeclarationKind} (h : assess Document.schema 10 (ofKind k) v = some true) :
      Satisfies Document.schema 9 [.kind k.keyword] v := by
    obtain ⟨schema, hname, hschema⟩ := describes_definition k
    exact ((decides_tagged hname hschema v).eq_true_iff.1 h).1
  have hsame := congrArg DeclarationKind.ofKeyword? (keyword_eq (hkind h) (hkind h'))
  rwa [DeclarationKind.ofKeyword?_keyword, DeclarationKind.ofKeyword?_keyword,
    Option.some.injEq] at hsame

theorem describes_declaration : Describes Document.schema 12 (reference "Declaration")
    fun v => ∃ d : Declaration, d.IsForm v := by
  have hnodup : DeclarationKind.all.Nodup := by decide
  have hall : ∀ k, k ∈ DeclarationKind.all := by
    intro k
    cases k <;> decide
  refine describes_reference rfl (Describes.imp
    (describes_oneOf DeclarationKind.all rfl (fun k _ => describes_ofKind k) fun v => ?_) ?_ ?_)
  · exact hnodup.imp fun hne hvalid => hne (kind_eq_of_valid hvalid.1 hvalid.2)
  · rintro v ⟨d, h⟩
    exact ⟨d.kind, hall d.kind, d, rfl, h⟩
  · rintro v - ⟨-, -, d, -, h⟩
    exact ⟨d, h⟩

end Schema

/-! ## Documents -/

namespace Document

/-- The properties of documents. -/
def properties : List Schema.Property :=
  [.list "declarations" (Schema.reference "Declaration") Declaration.IsForm, .name]

theorem areFor_properties : Schema.AreFor slots properties := by
  intro asked
  simp only [slots, properties, List.forall_mem_singleton, List.forall_mem_cons]
  constructor
  · rintro ⟨d, hname, hdeclarations⟩
    exact ⟨⟨_, hdeclarations⟩, ⟨_, hname⟩⟩
  · rintro ⟨⟨declarations, hdeclarations⟩, ⟨name, hname⟩⟩
    exact ⟨⟨name, declarations⟩, hname, hdeclarations⟩

/-- The schema of documents describes their forms. -/
theorem describes_schema :
    Schema.Describes schema 14 schema fun v => ∃ d : Document, d.IsForm v := by
  have hps : ∀ p ∈ properties, p.Described schema 13 := by
    simp only [properties, List.forall_mem_singleton, List.forall_mem_cons]
    exact ⟨Schema.described_list Schema.describes_declaration, Schema.described_name⟩
  exact Schema.describes_records rfl (by decide) hps nodup_slots areFor_properties

theorem validAgainst_of_isForm {d : Document} {v : Json} (h : d.IsForm v) :
    v.ValidAgainst schema :=
  ⟨14, describes_schema.valid v ⟨d, h⟩⟩

/-- Of the values without repeated keys and without numbers, those that are valid are the forms of
documents. -/
theorem exists_isForm_iff {v : Json} (hplain : v.Plain) :
    (∃ d : Document, d.IsForm v) ↔ v.ValidAgainst schema := by
  refine ⟨fun ⟨d, h⟩ => validAgainst_of_isForm h, fun h => ?_⟩
  obtain ⟨b, hb⟩ := describes_schema.settled v
  rw [Json.validAgainst_iff hb] at h
  exact describes_schema.only v hplain (h ▸ hb)

/-- There is no fifth kind. -/
example : ¬ (Json.object [("name", .string "a.idl"), ("declarations", .array
    [.object [("kind", .string "union"), ("name", .string "U")]])]).ValidAgainst schema := by
  rw [Json.validAgainst_iff (n := 14) (b := false) (by decide +kernel)]
  decide

end Document

end IdlModel
