import IdlModel.Document.Decode
import IdlModel.Document.Encode
import IdlModel.Proofs.Json.Form

/-!
# Forms of documents

What may be written for a document and for each of its parts, slot by slot. The form that
`Document.toJson` writes out is one of many: a comment may be null where there is none, a list may
be left out where it is empty, members may come in any order, and there may be others, at every
level. Types and the values of an enum have one form only.
-/

namespace IdlModel

open Json (MemberSlot Filled RecordForm)

/-! ## What may be written -/

/-- The slots of an attribute. -/
def Attribute.slots (a : Attribute) : List MemberSlot :=
  [.string "name" a.name, .string "type_ref" a.type.text, .comment a.comment]

/-- A value is a form of the attribute. -/
def Attribute.IsForm (a : Attribute) : Json → Prop :=
  RecordForm a.slots

/-- A value is a form of the type, of which there is only one. -/
def TypeRef.IsForm (t : TypeRef) (v : Json) : Prop :=
  v = t.toJson

/-- The slots of a method. -/
def Method.slots (m : Method) : List MemberSlot :=
  [.string "name" m.name, .comment m.comment, .string "return_type" m.returnType.text,
    .list "parameters" (m.parameters.map Attribute.IsForm),
    .list "exceptions" (m.exceptions.map TypeRef.IsForm)]

/-- A value is a form of the method. -/
def Method.IsForm (m : Method) : Json → Prop :=
  RecordForm m.slots

/-- The forms of the items in the list of a body. -/
def Body.itemForms : Body → List (Json → Prop)
  | .enum values => values.map fun s v => v = .string s
  | .struct attributes | .exception attributes => attributes.map Attribute.IsForm
  | .service methods => methods.map Method.IsForm

/-- The slots of a declaration other than its kind. -/
def Declaration.otherSlots (d : Declaration) : List MemberSlot :=
  [.string "name" d.name, .comment d.comment, .list (Decode.listKey d.kind) d.body.itemForms]

/-- The slots of a declaration. -/
def Declaration.slots (d : Declaration) : List MemberSlot :=
  .string "kind" d.kind.keyword :: d.otherSlots

/-- A value is a form of the declaration. -/
def Declaration.IsForm (d : Declaration) : Json → Prop :=
  RecordForm d.slots

/-- The slots of a document. -/
def Document.slots (d : Document) : List MemberSlot :=
  [.string "name" d.name, .list "declarations" (d.declarations.map Declaration.IsForm)]

/-- A value is a form of the document. -/
def Document.IsForm (d : Document) : Json → Prop :=
  RecordForm d.slots

/-! ## What is written out -/

theorem Attribute.isForm_toJson (a : Attribute) : a.IsForm a.toJson := by
  obtain ⟨name, type, comment⟩ := a
  refine Filled.recordForm (.written rfl (.written rfl ?_))
  cases comment with
  | none => exact .leftOut (.inl rfl) .nil
  | some c => exact .written (.inl rfl) .nil

theorem TypeRef.isForm_toJson (t : TypeRef) : t.IsForm t.toJson :=
  rfl

theorem Method.isForm_toJson (n : Method) : n.IsForm n.toJson := by
  obtain ⟨name, comment, returnType, parameters, exceptions⟩ := n
  have hlists : Filled
      [.list "parameters" (parameters.map Attribute.IsForm),
        .list "exceptions" (exceptions.map TypeRef.IsForm)]
      [("parameters", .array (parameters.map Attribute.toJson)),
        ("exceptions", .array (exceptions.map TypeRef.toJson))] :=
    .written (MemberSlot.holds_list (fun a _ => a.isForm_toJson) _)
      (.written (MemberSlot.holds_list (fun t _ => t.isForm_toJson) _) .nil)
  refine Filled.recordForm (.written rfl ?_)
  cases comment with
  | none => exact .leftOut (.inl rfl) (.written rfl hlists)
  | some c => exact .written (.inl rfl) (.written rfl hlists)

theorem Body.exists_toMember (b : Body) : ∃ v,
    b.toMember = some (Decode.listKey b.kind, v) ∧
      (MemberSlot.list (Decode.listKey b.kind) b.itemForms).holds (some v) := by
  cases b with
  | enum values =>
    refine ⟨_, rfl, MemberSlot.holds_list ?_ _⟩
    exact fun _ _ => rfl
  | struct attributes | exception attributes =>
    exact ⟨_, rfl, MemberSlot.holds_list (fun a _ => a.isForm_toJson) _⟩
  | service methods => exact ⟨_, rfl, MemberSlot.holds_list (fun n _ => n.isForm_toJson) _⟩

theorem Declaration.isForm_toJson (d : Declaration) : d.IsForm d.toJson := by
  obtain ⟨v, hmember, hv⟩ := d.body.exists_toMember
  obtain ⟨name, comment, b⟩ := d
  have hlist : Filled [.list (Decode.listKey b.kind) b.itemForms] [(Decode.listKey b.kind, v)] :=
    .written hv .nil
  rw [toJson, hmember]
  refine Filled.recordForm (.written rfl (.written rfl ?_))
  cases comment with
  | none => exact .leftOut (.inl rfl) hlist
  | some c => exact .written (.inl rfl) hlist

/-- The form that is written out is one of the forms of a document. -/
theorem Document.isForm_toJson (d : Document) : d.IsForm d.toJson :=
  Filled.recordForm (.written rfl
    (.written (MemberSlot.holds_list (fun e _ => e.isForm_toJson) _) .nil))

/-! ## Keys and numbers -/

theorem Attribute.nodup_slots (a : Attribute) : (a.slots.map MemberSlot.key).Nodup :=
  (by decide : ["name", "type_ref", "comment"].Nodup)

theorem Method.nodup_slots (n : Method) : (n.slots.map MemberSlot.key).Nodup :=
  (by decide : ["name", "comment", "return_type", "parameters", "exceptions"].Nodup)

theorem Declaration.nodup_slots (d : Declaration) : (d.slots.map MemberSlot.key).Nodup := by
  have hkeys : ∀ k, ["kind", "name", "comment", Decode.listKey k].Nodup := by
    intro k
    cases k <;> decide
  exact hkeys d.kind

theorem Document.nodup_slots (d : Document) : (d.slots.map MemberSlot.key).Nodup :=
  (by decide : ["name", "declarations"].Nodup)

theorem Attribute.numberFree_of_isForm {a : Attribute} {v : Json} (h : a.IsForm v) :
    v.NumberFree := by
  refine h.numberFree a.nodup_slots ?_
  simp only [slots, List.forall_mem_cons]
  exact ⟨.string _ _, .string _ _, .comment _, nofun⟩

theorem TypeRef.numberFree_of_isForm {t : TypeRef} {v : Json} (h : t.IsForm v) :
    v.NumberFree := by
  rw [h]
  exact .string _

theorem Method.numberFree_of_isForm {n : Method} {v : Json} (h : n.IsForm v) : v.NumberFree := by
  refine h.numberFree n.nodup_slots ?_
  simp only [slots, List.forall_mem_cons]
  exact ⟨.string _ _, .comment _, .string _ _,
    .list (List.forall_mem_map.2 fun _ _ _ => Attribute.numberFree_of_isForm),
    .list (List.forall_mem_map.2 fun _ _ _ => TypeRef.numberFree_of_isForm), nofun⟩

theorem Body.numberFree_of_itemForms (b : Body) : ∀ p ∈ b.itemForms, ∀ v, p v → v.NumberFree := by
  cases b with
  | enum values =>
    refine List.forall_mem_map.2 fun s _ v hv => ?_
    rw [hv]
    exact .string s
  | struct attributes | exception attributes =>
    exact List.forall_mem_map.2 fun _ _ _ => Attribute.numberFree_of_isForm
  | service methods => exact List.forall_mem_map.2 fun _ _ _ => Method.numberFree_of_isForm

theorem Declaration.numberFree_of_slots (d : Declaration) : ∀ slot ∈ d.slots, slot.NumberFree := by
  simp only [slots, otherSlots, List.forall_mem_cons]
  exact ⟨.string _ _, .string _ _, .comment _, .list d.body.numberFree_of_itemForms, nofun⟩

theorem Declaration.numberFree_of_isForm {d : Declaration} {v : Json} (h : d.IsForm v) :
    v.NumberFree :=
  h.numberFree d.nodup_slots d.numberFree_of_slots

theorem Document.numberFree_of_slots (d : Document) : ∀ slot ∈ d.slots, slot.NumberFree := by
  simp only [slots, List.forall_mem_cons]
  exact ⟨.string _ _,
    .list (List.forall_mem_map.2 fun _ _ _ => Declaration.numberFree_of_isForm), nofun⟩

end IdlModel
