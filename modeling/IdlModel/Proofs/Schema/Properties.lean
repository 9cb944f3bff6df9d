import IdlModel.Proofs.Schema.Described

/-!
# Schemas of objects

A property of objects goes with the slots that it may be written for, one for each content it may
have (`Property`). If the schemas of some properties describe what may be written for their slots,
then the schema of the objects describes those that have something for a slot of each property
(`describes_has`), whatever the order of their members and whatever other members there are.
-/

namespace IdlModel

open Json (MemberSlot)

namespace Schema

/-- A property of objects: the schema of its values, whether it is required, and the slot for each
content it may have. It is required unless there is one that may be left out. -/
structure Property where
  key : String
  schema : Json
  required : Bool
  Content : Type
  slot : Content → MemberSlot
  key_slot : ∀ c, (slot c).key = key
  leftOut : (∃ c, (slot c).holds none) ↔ required = false

namespace Property

/-- A property that is always a string. -/
def string (key : String) (schema : Json) : Property where
  key
  schema
  required := true
  Content := String
  slot := .string key
  key_slot _ := rfl
  leftOut := ⟨nofun, nofun⟩

/-- The comment. -/
def comment : Property where
  key := "comment"
  schema := nullableText
  required := false
  Content := Option String
  slot := .comment
  key_slot _ := rfl
  leftOut := ⟨fun _ => rfl, fun _ => ⟨none, .inl rfl⟩⟩

/-- A list of items in some form. -/
def list {α : Type} (key : String) (items : Json) (form : α → Json → Prop) : Property where
  key
  schema := listOf items
  required := false
  Content := List α
  slot as := .list key (as.map form)
  key_slot _ := rfl
  leftOut := ⟨fun _ => rfl, fun _ => ⟨[], .inr ⟨rfl, rfl⟩⟩⟩

/-- The kind, which is the same for all of the objects. -/
def kind (keyword : String) : Property where
  key := "kind"
  schema := .object [("type", .string "string"), ("const", .string keyword)]
  required := true
  Content := Unit
  slot _ := .string "kind" keyword
  key_slot _ := rfl
  leftOut := ⟨nofun, nofun⟩

/-- The member for the property in the schema of the objects. -/
def entry (p : Property) : String × Json :=
  (p.key, p.schema)

/-- The schema of the property describes what is written for its slots. -/
def Described (root : Json) (n : Nat) (p : Property) : Prop :=
  Describes root n p.schema fun v => ∃ c, (p.slot c).holds (some v)

end Property

/-- The value is an object, and what it has for each of the properties fits a slot of it. -/
def Has (ps : List Property) (v : Json) : Prop :=
  ∃ ms, v = .object ms ∧ ∀ p ∈ ps, ∃ c, (p.slot c).FitsIn ms

variable {root v : Json} {n : Nat} {ps : List Property} {p : Property}

/-! ## Properties that are described -/

theorem described_string {key : String} {schema : Json}
    (h : Describes root n schema fun v => ∃ s, v = .string s) :
    (Property.string key schema).Described root n :=
  h.imp (fun _ hv => hv.imp fun _ => Option.some.inj) fun _ _ hv => hv.imp fun _ => congrArg some

theorem described_comment : Property.comment.Described root (n + 1) :=
  describes_nullableText

theorem described_list {α : Type} {key : String} {items : Json} {form : α → Json → Prop}
    (h : Describes root n items fun v => ∃ a, form a v) :
    (Property.list key items form).Described root (n + 1) :=
  describes_listOf h

theorem decides_constant (s : String) (v : Json) :
    Decides (constant (.string s) v) (v = .string s) := by
  cases v with
  | string t => exact decides_some (by rw [beq_iff_eq, Json.string.injEq])
  | _ => exact decides_some ⟨nofun, nofun⟩

theorem decides_kind (keyword : String) (v : Json) :
    Decides (assess root (n + 1) (Property.kind keyword).schema v) (v = .string keyword) := by
  refine .of_iff (decides_assess rfl (decides_every_cons (decides_typed "string")
    (decides_every_cons (decides_constant keyword v) decides_every_nil))) ⟨fun h => h.2.1, ?_⟩
  rintro rfl
  exact ⟨mem_typeNames_string.2 ⟨keyword, rfl⟩, rfl, trivial⟩

theorem described_kind (keyword : String) :
    ∀ p ∈ [Property.kind keyword], p.Described root (n + 1) :=
  List.forall_mem_singleton.2 <|
    describes_of_decides (decides_kind keyword) (fun _ ⟨_, hv⟩ => Option.some.inj hv)
      fun _ _ hv => ⟨(), congrArg some hv⟩

/-! ## Objects that have properties -/

/-- The members that an object has for some of the properties are valid. -/
def MembersValid (root : Json) (n : Nat) (ps : List Property) (v : Json) : Prop :=
  ∀ ms, v = .object ms → ∀ m ∈ ms, ∀ p ∈ ps, m.1 = p.key → assess root n p.schema m.2 = some true

/-- An object has members for the properties that are required. -/
def NoneMissing (ps : List Property) (v : Json) : Prop :=
  ∀ ms, v = .object ms → ∀ p ∈ ps, p.required = true → p.key ∈ ms.map Prod.fst

/-- The value is valid against the schema of the objects with the properties. -/
def Satisfies (root : Json) (n : Nat) (ps : List Property) (v : Json) : Prop :=
  "object" ∈ typeNames v ∧ MembersValid root n ps v ∧ NoneMissing ps v

theorem satisfies_of_has (hps : ∀ p ∈ ps, p.Described root n) (h : Has ps v) :
    Satisfies root n ps v := by
  obtain ⟨ms, rfl, h⟩ := h
  refine ⟨mem_typeNames_object.2 ⟨ms, rfl⟩, ?_, ?_⟩
  · rintro _ ⟨⟩ m hm p hp hkey
    obtain ⟨c, hc⟩ := h p hp
    exact (hps p hp).valid m.2 ⟨c, hc.written m hm (hkey.trans (p.key_slot c).symm)⟩
  · rintro _ ⟨⟩ p hp hrequired
    by_contra habsent
    obtain ⟨c, hc⟩ := h p hp
    have hoptional := p.leftOut.1 ⟨c, hc.leftOut (p.key_slot c ▸ habsent)⟩
    exact Bool.noConfusion (hrequired.symm.trans hoptional)

theorem has_of_satisfies (hps : ∀ p ∈ ps, p.Described root n) (hplain : v.Plain)
    (h : Satisfies root n ps v) : Has ps v := by
  obtain ⟨hobject, hmembers, hrequired⟩ := h
  obtain ⟨ms, rfl⟩ := mem_typeNames_object.1 hobject
  refine ⟨ms, rfl, fun p hp => ?_⟩
  by_cases hmem : p.key ∈ ms.map Prod.fst
  · -- no other member has the key, so the slot is chosen by this one
    obtain ⟨m, hm, hkey⟩ := List.mem_map.1 hmem
    obtain ⟨c, hc⟩ := (hps p hp).only m.2 (hplain.members m hm) (hmembers ms rfl m hm p hp hkey)
    exact ⟨c, MemberSlot.fitsIn_of_mem hplain.nodup hm (hkey.trans (p.key_slot c).symm) hc⟩
  · obtain ⟨c, hc⟩ := p.leftOut.2 (Bool.eq_false_iff.2 fun h => hmem (hrequired ms rfl p hp h))
    exact ⟨c, MemberSlot.fitsIn_of_not_mem (p.key_slot c ▸ hmem) hc⟩

/-! ## The schemas of such objects -/

theorem lookup_entry (hkeys : (ps.map Property.key).Nodup) (hp : p ∈ ps) :
    (ps.map Property.entry).lookup p.key = some p.schema := by
  induction ps with
  | nil => cases hp
  | cons q ps ih =>
    obtain ⟨hnew, hkeys⟩ := List.nodup_cons.1 hkeys
    rw [List.map_cons, Property.entry, List.lookup_cons]
    obtain rfl | hp := List.mem_cons.1 hp
    · rw [beq_self_eq_true]
    · have hne : p.key ≠ q.key := fun heq => hnew (heq ▸ List.mem_map_of_mem hp)
      rw [beq_eq_false_iff_ne.2 hne]
      exact ih hkeys hp

theorem decides_properties (hkeys : (ps.map Property.key).Nodup)
    (hps : ∀ p ∈ ps, p.Described root n) (v : Json) :
    Decides (properties (assess root n) (.object (ps.map Property.entry)) v)
      (MembersValid root n ps v) := by
  cases v with
  | object ms =>
    refine (decides_every (P := fun m => ∀ p ∈ ps, m.1 = p.key →
      assess root n p.schema m.2 = some true) fun m _ => ?_).of_iff ⟨?_, fun h => h ms rfl⟩
    · by_cases hm : ∃ p ∈ ps, m.1 = p.key
      · obtain ⟨p, hp, hm⟩ := hm
        rw [hm, lookup_entry hkeys hp]
        refine ((hps p hp).decides m.2).of_iff ⟨?_, fun h => h p hp rfl⟩
        intro h q hq hkey
        rwa [List.inj_on_of_nodup_map hkeys hq hp hkey.symm]
      · have hnone : (ps.map Property.entry).lookup m.1 = none := by
          refine List.lookup_eq_none_iff.2 (List.forall_mem_map.2 fun p hp => bne_iff_ne.2 ?_)
          exact fun hkey => hm ⟨p, hp, hkey⟩
        rw [hnone]
        exact decides_some ⟨fun _ p hp hkey => absurd ⟨p, hp, hkey⟩ hm, fun _ => rfl⟩
    · rintro h _ ⟨⟩
      exact h
  | _ => exact decides_some ⟨fun _ => nofun, fun _ => rfl⟩

/-- The keys of the properties that are required. -/
def requiredKeys (ps : List Property) : Json :=
  .ofStrings ((ps.filter Property.required).map Property.key)

theorem decides_required (ps : List Property) (v : Json) :
    Decides (required (requiredKeys ps) v) (NoneMissing ps v) := by
  cases v with
  | object ms =>
    have hkey (key : String) : hasKey ms (.string key) = true ↔ key ∈ ms.map Prod.fst := by
      rw [hasKey, List.contains_iff_mem]
    refine decides_some ?_
    rw [List.map_map, List.all_map, List.all_eq_true, List.forall_mem_filter]
    constructor
    · rintro h _ ⟨⟩ p hp hrequired
      exact (hkey p.key).1 (h p hp hrequired)
    · exact fun h p hp hrequired => (hkey p.key).2 (h ms rfl p hp hrequired)
  | _ => exact decides_some ⟨fun _ => nofun, fun _ => rfl⟩

variable {ms : List (String × Json)}

theorem describes_has (hms : ms.filter (·.1 ∉ annotations) = [("type", .string "object"),
      ("properties", .object (ps.map Property.entry)), ("required", requiredKeys ps)])
    (hkeys : (ps.map Property.key).Nodup) (hps : ∀ p ∈ ps, p.Described root n) :
    Describes root (n + 1) (.object ms) (Has ps) := by
  refine describes_of_decides (Q := Satisfies root n ps) (fun v => ?_)
    (fun v => satisfies_of_has hps) fun v => has_of_satisfies hps
  refine .of_iff (decides_assess hms (decides_every_cons (decides_typed "object")
    (decides_every_cons (decides_properties hkeys hps v)
      (decides_every_cons (decides_required ps v) decides_every_nil)))) ?_
  rw [Satisfies, and_true]

/-! ## Objects of some kinds -/

variable {keyword definition : String} {schema : Json} {P : Json → Prop}

/-- The kind that an object has. -/
theorem exists_kind (h : Satisfies root (n + 1) [.kind keyword] v) :
    ∃ ms, v = .object ms ∧ "kind" ∈ ms.map Prod.fst ∧
      ∀ m ∈ ms, m.1 = "kind" → m.2 = .string keyword := by
  obtain ⟨hobject, hmembers, hrequired⟩ := h
  obtain ⟨ms, rfl⟩ := mem_typeNames_object.1 hobject
  refine ⟨ms, rfl, hrequired ms rfl _ (.head _) rfl, fun m hm hkey => ?_⟩
  exact (decides_kind keyword m.2).eq_true_iff.1 (hmembers ms rfl m hm _ (.head _) hkey)

/-- An object is not of two kinds. -/
theorem keyword_eq {keyword' : String} (h : Satisfies root (n + 1) [.kind keyword] v)
    (h' : Satisfies root (n + 1) [.kind keyword'] v) : keyword = keyword' := by
  obtain ⟨ms, rfl, hmem, hkind⟩ := exists_kind h
  obtain ⟨_, ⟨⟩, -, hkind'⟩ := exists_kind h'
  obtain ⟨m, hm, hkey⟩ := List.mem_map.1 hmem
  exact Json.string.inj ((hkind m hm hkey).symm.trans (hkind' m hm hkey))

theorem decides_tagged (hname : resolve? root ("#/$defs/" ++ definition) = some schema)
    (h : Describes root (n + 1) schema P) (v : Json) :
    Decides (assess root (n + 2) (tagged keyword definition) v)
      (Satisfies root (n + 1) [.kind keyword] v ∧ assess root (n + 1) schema v = some true) := by
  have hkeys : ([Property.kind keyword].map Property.key).Nodup := List.nodup_singleton _
  refine .of_iff (decides_assess rfl (decides_every_cons (decides_typed "object")
    (decides_every_cons (decides_properties hkeys (described_kind keyword) v)
      (decides_every_cons (h.decides_referred hname v)
        (decides_every_cons (decides_required [.kind keyword] v) decides_every_nil))))) ?_
  constructor
  · rintro ⟨hobject, hmembers, hreferred, hrequired, -⟩
    exact ⟨⟨hobject, hmembers, hrequired⟩, hreferred⟩
  · rintro ⟨⟨hobject, hmembers, hrequired⟩, hreferred⟩
    exact ⟨hobject, hmembers, hreferred, hrequired, trivial⟩

/-- The schema of the objects of one kind describes those that have it, among those that the
definition describes. -/
theorem describes_tagged (hname : resolve? root ("#/$defs/" ++ definition) = some schema)
    (h : Describes root (n + 1) schema P) :
    Describes root (n + 2) (tagged keyword definition) fun v => Has [.kind keyword] v ∧ P v :=
  describes_of_decides (decides_tagged hname h)
    (fun v hv => ⟨satisfies_of_has (described_kind keyword) hv.1, h.valid v hv.2⟩)
    fun v hplain hv =>
      ⟨has_of_satisfies (described_kind keyword) hplain hv.1, h.only v hplain hv.2⟩

end Schema

end IdlModel
