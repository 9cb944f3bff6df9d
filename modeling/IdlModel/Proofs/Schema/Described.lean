import IdlModel.Document.Schema
import IdlModel.Proofs.Json.Distinct
import IdlModel.Proofs.Schema.Validation

/-!
# What schemas describe

A schema describes some values if these are valid against it and, of the values without repeated
keys and without numbers, no others are (`Describes`). What the keywords of a schema say is put
together from what each of them says (`decides_assess`), and what a schema describes from what the
schemas inside it describe: `describes_listOf` for lists, `describes_reference` for references and
`describes_oneOf` for a choice.

All of it includes that there is a verdict (`Decides`). Without one, `oneOf` could not tell how many
of the schemas a value is valid against.
-/

namespace IdlModel

open Json (MemberSlot)

namespace Schema

/-! ## Verdicts -/

/-- There is a verdict, and it is whether `P` holds. -/
def Decides (verdict : Option Bool) (P : Prop) : Prop :=
  ∃ b, verdict = some b ∧ (b = true ↔ P)

section Decides

variable {α : Type} {as : List α} {f : α → Option Bool} {P : α → Prop} {x : Option Bool}
  {Q R : Prop}

theorem decides_some {b : Bool} (h : b = true ↔ Q) : Decides (some b) Q :=
  ⟨b, rfl, h⟩

theorem Decides.of_iff (h : Decides x Q) (hQR : Q ↔ R) : Decides x R := by
  obtain ⟨b, hb, hQ⟩ := h
  exact ⟨b, hb, hQ.trans hQR⟩

theorem exists_mapM (h : ∀ a ∈ as, Decides (f a) (P a)) :
    ∃ bs, as.mapM f = some bs ∧ List.Forall₂ (fun a b => b = true ↔ P a) as bs := by
  induction as with
  | nil => exact ⟨[], rfl, .nil⟩
  | cons a as ih =>
    obtain ⟨⟨b, hb, hP⟩, has⟩ := List.forall_mem_cons.1 h
    obtain ⟨bs, hbs, hPs⟩ := ih has
    exact ⟨b :: bs, by rw [List.mapM_cons, hb, hbs]; rfl, .cons hP hPs⟩

theorem decides_every (h : ∀ a ∈ as, Decides (f a) (P a)) :
    Decides (every as f) (∀ a ∈ as, P a) := by
  obtain ⟨bs, hbs, hPs⟩ := exists_mapM h
  refine ⟨bs.all id, by rw [every, together, hbs]; rfl, ?_⟩
  clear h hbs
  induction hPs with
  | nil => simp
  | cons hP _ ih => rw [List.all_cons, Bool.and_eq_true, ih, List.forall_mem_cons, id, hP]

theorem decides_every_nil : Decides (every [] f) True :=
  decides_some (by simp)

theorem every_cons (a : α) (as : List α) (f : α → Option Bool) :
    every (a :: as) f = (f a).bind fun b => (every as f).map (b && ·) := by
  rw [every, together, List.mapM_cons, together]
  cases f a <;> cases as.mapM f <;> rfl

theorem decides_every_cons {a : α} (ha : Decides (f a) Q) (has : Decides (every as f) R) :
    Decides (every (a :: as) f) (Q ∧ R) := by
  obtain ⟨b, hb, hQ⟩ := ha
  obtain ⟨b', hb', hR⟩ := has
  exact ⟨b && b', by rw [every_cons, hb, hb']; rfl, by rw [Bool.and_eq_true, hQ, hR]⟩

theorem count_true_eq_zero {bs : List Bool} (h : List.Forall₂ (fun a b => b = true ↔ P a) as bs)
    (hnone : ∀ a ∈ as, ¬ P a) : bs.count true = 0 := by
  induction h with
  | nil => rfl
  | cons hP _ ih =>
    obtain ⟨ha, has⟩ := List.forall_mem_cons.1 hnone
    rw [List.count_cons, ih has, Bool.eq_false_iff.2 fun hb => ha (hP.1 hb)]
    rfl

theorem count_true_eq_one_iff {bs : List Bool}
    (h : List.Forall₂ (fun a b => b = true ↔ P a) as bs)
    (hunique : as.Pairwise fun a b => ¬ (P a ∧ P b)) : bs.count true = 1 ↔ ∃ a ∈ as, P a := by
  induction h with
  | nil => simp
  | @cons a b as bs hP hPs ih =>
    obtain ⟨ha, has⟩ := List.pairwise_cons.1 hunique
    rw [List.count_cons, List.exists_mem_cons_iff]
    cases b with
    | false =>
      have hnot : ¬ P a := fun h => Bool.noConfusion (hP.2 h)
      simp [hnot, ih has]
    | true =>
      have hPa : P a := hP.1 rfl
      rw [count_true_eq_zero hPs fun a' ha' hPa' => ha a' ha' ⟨hPa, hPa'⟩]
      simp [hPa]

/-- Of things that exclude one another exactly one is valid if one is. -/
theorem decides_exactlyOne (h : ∀ a ∈ as, Decides (f a) (P a))
    (hunique : as.Pairwise fun a b => ¬ (P a ∧ P b)) :
    Decides (exactlyOne as f) (∃ a ∈ as, P a) := by
  obtain ⟨bs, hbs, hPs⟩ := exists_mapM h
  refine ⟨bs.count true == 1, by rw [exactlyOne, together, hbs]; rfl, ?_⟩
  rw [beq_iff_eq, count_true_eq_one_iff hPs hunique]

end Decides

/-! ## Types -/

theorem mem_typeNames_null {v : Json} : "null" ∈ typeNames v ↔ v = .null := by
  cases v <;> simp [typeNames]

theorem mem_typeNames_string {v : Json} : "string" ∈ typeNames v ↔ ∃ s, v = .string s := by
  cases v <;> simp [typeNames]

theorem mem_typeNames_array {v : Json} : "array" ∈ typeNames v ↔ ∃ vs, v = .array vs := by
  cases v <;> simp [typeNames]

theorem mem_typeNames_object {v : Json} : "object" ∈ typeNames v ↔ ∃ ms, v = .object ms := by
  cases v <;> simp [typeNames]

theorem decides_typed {v : Json} (name : String) :
    Decides (typed (.string name) v) (name ∈ typeNames v) :=
  decides_some List.contains_iff_mem

/-! ## Keywords that assert something -/

/-- The keywords of the schema of documents that say nothing about a value. -/
def annotations : List String :=
  ["$schema", "title", "description", "default", "$defs"]

variable {root v : Json} {n : Nat}

theorem keyword_annotation {name : String} (h : name ∈ annotations)
    (apply : Json → Json → Option Bool) (argument : Json) :
    keyword root apply name argument v = some true := by
  simp only [annotations, List.mem_cons, List.not_mem_nil, or_false] at h
  obtain rfl | rfl | rfl | rfl | rfl := h <;> rfl

theorem every_filter_annotations (ms : List (String × Json))
    (apply : Json → Json → Option Bool) :
    every (ms.filter (·.1 ∉ annotations)) (fun m => keyword root apply m.1 m.2 v) =
      every ms fun m => keyword root apply m.1 m.2 v := by
  induction ms with
  | nil => rfl
  | cons m ms ih =>
    by_cases hm : m.1 ∈ annotations
    · rw [List.filter_cons_of_neg (by simpa using hm), ih, every_cons,
        keyword_annotation hm]
      simp
    · rw [List.filter_cons_of_pos (by simpa using hm), every_cons, ih, every_cons]

/-- A schema says what its keywords other than annotations say. -/
theorem decides_assess {ms ks : List (String × Json)} {Q : Prop}
    (hks : ms.filter (·.1 ∉ annotations) = ks)
    (h : Decides (every ks fun m => keyword root (assess root n) m.1 m.2 v) Q) :
    Decides (assess root (n + 1) (.object ms) v) Q := by
  rw [← hks, every_filter_annotations] at h
  exact h

/-- A schema with one keyword, annotations apart. -/
theorem decides_assess_one {ms : List (String × Json)} {name : String} {argument : Json} {Q : Prop}
    (hms : ms.filter (·.1 ∉ annotations) = [(name, argument)])
    (h : Decides (keyword root (assess root n) name argument v) Q) :
    Decides (assess root (n + 1) (.object ms) v) Q :=
  decides_assess hms ((decides_every_cons h decides_every_nil).of_iff (and_iff_left trivial))

/-! ## Descriptions -/

/-- The schema describes the values of which `P` holds: there is a verdict on every value, these are
valid, and of the plain values no others are. -/
structure Describes (root : Json) (n : Nat) (schema : Json) (P : Json → Prop) : Prop where
  settled : ∀ v, ∃ b, assess root n schema v = some b
  valid : ∀ v, P v → assess root n schema v = some true
  only : ∀ v, v.Plain → assess root n schema v = some true → P v

section Describes

variable {schema : Json} {P Q : Json → Prop}

theorem Decides.eq_true_iff {x : Option Bool} {Q : Prop} (h : Decides x Q) : x = some true ↔ Q := by
  obtain ⟨b, rfl, hQ⟩ := h
  rw [Option.some.injEq, hQ]

theorem describes_of_decides (h : ∀ v, Decides (assess root n schema v) (Q v))
    (hvalid : ∀ v, P v → Q v) (honly : ∀ v, v.Plain → Q v → P v) :
    Describes root n schema P where
  settled v := (h v).imp fun _ hb => hb.1
  valid v hv := (h v).eq_true_iff.2 (hvalid v hv)
  only v hplain hv := honly v hplain ((h v).eq_true_iff.1 hv)

theorem Describes.decides (h : Describes root n schema P) (v : Json) :
    Decides (assess root n schema v) (assess root n schema v = some true) := by
  obtain ⟨b, hb⟩ := h.settled v
  exact ⟨b, hb, by rw [hb, Option.some.injEq]⟩

theorem Describes.mono (h : Describes root n schema P) {m : Nat} (hnm : n ≤ m) :
    Describes root m schema P where
  settled v := (h.settled v).imp fun _ hb => assess_mono hb hnm
  valid v hv := assess_mono (h.valid v hv) hnm
  only v hplain hv := by
    obtain ⟨b, hb⟩ := h.settled v
    obtain rfl := Option.some.inj ((assess_mono hb hnm).symm.trans hv)
    exact h.only v hplain hb

theorem Describes.imp (h : Describes root n schema P) (hvalid : ∀ v, Q v → P v)
    (honly : ∀ v, v.Plain → P v → Q v) : Describes root n schema Q where
  settled := h.settled
  valid v hv := h.valid v (hvalid v hv)
  only v hplain hv := honly v hplain (h.only v hplain hv)

/-! ### Texts, lists and references -/

theorem describes_string {ms : List (String × Json)}
    (hms : ms.filter (·.1 ∉ annotations) = [("type", .string "string")]) :
    Describes root (n + 1) (.object ms) fun v => ∃ s, v = .string s :=
  describes_of_decides (fun _ => decides_assess_one hms (decides_typed "string"))
    (fun _ => mem_typeNames_string.2) fun _ _ => mem_typeNames_string.1

theorem describes_nullableText :
    Describes root (n + 1) nullableText fun v => ∃ c, (MemberSlot.comment c).holds (some v) := by
  have htyped (v : Json) : Decides (typed (.ofStrings ["string", "null"]) v)
      ((∃ s, v = .string s) ∨ v = .null) := by
    rw [← mem_typeNames_string, ← mem_typeNames_null]
    exact decides_some (by simp [hasType])
  refine describes_of_decides (fun v => decides_assess_one rfl (htyped v)) ?_ ?_
  · rintro v ⟨c, h | ⟨-, h⟩⟩
    · cases c with
      | none => cases h
      | some s => exact .inl ⟨s, Option.some.inj h⟩
    · exact .inr (Option.some.inj h)
  · rintro v - (⟨s, rfl⟩ | rfl)
    · exact ⟨some s, .inl rfl⟩
    · exact ⟨none, .inr ⟨rfl, rfl⟩⟩

theorem exists_forall₂_iff {α β : Type} {R : α → β → Prop} {bs : List β} :
    (∃ as, List.Forall₂ R as bs) ↔ ∀ b ∈ bs, ∃ a, R a b := by
  induction bs with
  | nil => exact ⟨fun _ => nofun, fun _ => ⟨[], .nil⟩⟩
  | cons b bs ih =>
    rw [List.forall_mem_cons, ← ih]
    constructor
    · rintro ⟨_, _ | ⟨hb, hbs⟩⟩
      exact ⟨⟨_, hb⟩, _, hbs⟩
    · rintro ⟨⟨a, ha⟩, as, has⟩
      exact ⟨a :: as, .cons ha has⟩

theorem exists_holds_list {α : Type} {form : α → Json → Prop} {key : String} {v : Json} :
    (∃ as : List α, (MemberSlot.list key (as.map form)).holds (some v)) ↔
      ∃ vs, v = .array vs ∧ ∀ w ∈ vs, ∃ a, form a w := by
  simp only [← exists_forall₂_iff]
  constructor
  · rintro ⟨as, ⟨vs, hvs, hforms⟩ | ⟨-, hnone⟩⟩
    · rw [List.forall₂_map_left_iff] at hforms
      exact ⟨vs, Option.some.inj hvs, as, hforms⟩
    · cases hnone
  · rintro ⟨vs, rfl, as, hforms⟩
    refine ⟨as, .inl ⟨vs, rfl, ?_⟩⟩
    rwa [List.forall₂_map_left_iff]

theorem Describes.decides_items (h : Describes root n schema P) (v : Json) :
    Decides (items (assess root n) schema v)
      (∀ vs, v = .array vs → ∀ w ∈ vs, assess root n schema w = some true) := by
  cases v with
  | array vs =>
    refine (decides_every fun w _ => h.decides w).of_iff ⟨?_, fun hvs => hvs vs rfl⟩
    rintro hvs _ ⟨⟩
    exact hvs
  | _ => exact decides_some ⟨fun _ => nofun, fun _ => rfl⟩

theorem describes_listOf {α : Type} {form : α → Json → Prop} {key : String}
    (h : Describes root n schema fun v => ∃ a, form a v) :
    Describes root (n + 1) (listOf schema) fun v =>
      ∃ as : List α, (MemberSlot.list key (as.map form)).holds (some v) := by
  refine describes_of_decides (fun v => decides_assess rfl (decides_every_cons
    (decides_typed "array") (decides_every_cons (h.decides_items v) decides_every_nil))) ?_ ?_
  · intro v hv
    obtain ⟨vs, rfl, hforms⟩ := exists_holds_list.1 hv
    refine ⟨mem_typeNames_array.2 ⟨vs, rfl⟩, ?_, trivial⟩
    rintro _ ⟨⟩ w hw
    exact h.valid w (hforms w hw)
  · rintro v hplain ⟨harray, hitems, -⟩
    obtain ⟨vs, rfl⟩ := mem_typeNames_array.1 harray
    exact exists_holds_list.2
      ⟨vs, rfl, fun w hw => h.only w (hplain.items w hw) (hitems vs rfl w hw)⟩

theorem Describes.decides_referred {name : String}
    (hname : resolve? root ("#/$defs/" ++ name) = some schema) (h : Describes root n schema P)
    (v : Json) : Decides (referred root (assess root n) (.string ("#/$defs/" ++ name)) v)
      (assess root n schema v = some true) := by
  rw [referred, hname]
  exact h.decides v

theorem describes_reference {name : String}
    (hname : resolve? root ("#/$defs/" ++ name) = some schema) (h : Describes root n schema P) :
    Describes root (n + 1) (reference name) P :=
  describes_of_decides (fun v => decides_assess_one rfl (h.decides_referred hname v)) h.valid h.only

/-! ### One of several schemas -/

theorem describes_oneOf {α : Type} (as : List α) {schemaOf : α → Json} {P : α → Json → Prop}
    {ms : List (String × Json)}
    (hms : ms.filter (·.1 ∉ annotations) = [("oneOf", .array (as.map schemaOf))])
    (h : ∀ a ∈ as, Describes root n (schemaOf a) (P a))
    (hunique : ∀ v, as.Pairwise fun a b =>
      ¬ (assess root n (schemaOf a) v = some true ∧ assess root n (schemaOf b) v = some true)) :
    Describes root (n + 1) (.object ms) fun v => ∃ a ∈ as, P a v := by
  have hdecides (v : Json) : Decides (oneOf (assess root n) (.array (as.map schemaOf)) v)
      (∃ a ∈ as, assess root n (schemaOf a) v = some true) := by
    rw [oneOf, exactlyOne, together, List.mapM_map]
    exact decides_exactlyOne (fun a ha => (h a ha).decides v) (hunique v)
  refine describes_of_decides (fun v => decides_assess_one hms (hdecides v)) ?_ ?_
  · rintro v ⟨a, ha, hv⟩
    exact ⟨a, ha, (h a ha).valid v hv⟩
  · rintro v hplain ⟨a, ha, hv⟩
    exact ⟨a, ha, (h a ha).only v hplain hv⟩

end Describes

end Schema

end IdlModel
