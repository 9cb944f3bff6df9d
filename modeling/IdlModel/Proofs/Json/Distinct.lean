import IdlModel.Proofs.Json.Form

/-!
# Values without repeated keys

Whether the members of an object are those of a form is told slot by slot (`MemberSlot.FitsIn`) if
no key is repeated, and members that fit are a form of the record (`Fits.recordForm`).
-/

namespace IdlModel.Json

/-- No object in the value has two members of one key. -/
inductive DistinctKeys : Json → Prop where
  | null : DistinctKeys .null
  | bool (b : Bool) : DistinctKeys (.bool b)
  | number (n : Number) : DistinctKeys (.number n)
  | string (s : String) : DistinctKeys (.string s)
  | array {vs : List Json} (items : ∀ v ∈ vs, DistinctKeys v) : DistinctKeys (.array vs)
  | object {ms : List (String × Json)} (nodup : (ms.map Prod.fst).Nodup)
    (members : ∀ m ∈ ms, DistinctKeys m.2) : DistinctKeys (.object ms)

/-- Neither repeated keys nor numbers occur in the value. -/
structure Plain (v : Json) : Prop where
  distinctKeys : v.DistinctKeys
  numberFree : v.NumberFree

variable {slots : List MemberSlot} {slot : MemberSlot} {ms : List (String × Json)}

namespace Plain

theorem items {vs : List Json} (h : (Json.array vs).Plain) : ∀ v ∈ vs, v.Plain := by
  obtain ⟨hkeys, hfree⟩ := h
  cases hkeys with
  | array hkeys =>
    cases hfree with
    | array hfree => exact fun v hv => ⟨hkeys v hv, hfree v hv⟩

theorem nodup (h : (Json.object ms).Plain) : (ms.map Prod.fst).Nodup := by
  obtain ⟨hkeys, -⟩ := h
  cases hkeys with
  | object hnodup _ => exact hnodup

theorem members (h : (Json.object ms).Plain) : ∀ m ∈ ms, m.2.Plain := by
  obtain ⟨hkeys, hfree⟩ := h
  cases hkeys with
  | object _ hkeys =>
    cases hfree with
    | object hfree => exact fun m hm => ⟨hkeys m hm, hfree m hm⟩

end Plain

/-! ## Slot by slot -/

/-- What is among the members for the slot may be written for it. -/
structure MemberSlot.FitsIn (slot : MemberSlot) (ms : List (String × Json)) : Prop where
  written : ∀ m ∈ ms, m.1 = slot.key → slot.holds (some m.2)
  leftOut : slot.key ∉ ms.map Prod.fst → slot.holds none

/-- There is one member for a slot at most. -/
theorem MemberSlot.fitsIn_of_mem (h : (ms.map Prod.fst).Nodup) {m : String × Json} (hm : m ∈ ms)
    (hkey : m.1 = slot.key) (hv : slot.holds (some m.2)) : slot.FitsIn ms where
  written m' hm' hkey' := by
    rw [List.inj_on_of_nodup_map h hm' hm (hkey'.trans hkey.symm)]
    exact hv
  leftOut habsent := absurd (hkey ▸ List.mem_map_of_mem hm) habsent

theorem MemberSlot.fitsIn_of_not_mem (h : slot.key ∉ ms.map Prod.fst) (hv : slot.holds none) :
    slot.FitsIn ms where
  written _ hm hkey := absurd (hkey ▸ List.mem_map_of_mem hm) h
  leftOut _ := hv

theorem Fits.fitsIn (h : Fits slots ms) : ∀ slot ∈ slots, slot.FitsIn ms :=
  fun slot hslot => ⟨h.written slot hslot, h.leftOut slot hslot⟩

theorem Plain.fits (h : (Json.object ms).Plain) (hslots : ∀ slot ∈ slots, slot.FitsIn ms) :
    Fits slots ms where
  written slot hslot := (hslots slot hslot).written
  leftOut slot hslot := (hslots slot hslot).leftOut
  once slot _ := List.nodup_iff_count_le_one.1 h.nodup slot.key
  others m hm _ := (h.members m hm).numberFree

/-! ## Forms from members that fit -/

/-- The members of a slot: there is one at most. -/
theorem Fits.filter_cases (h : Fits (slot :: slots) ms) :
    (ms.filter (·.1 = slot.key) = [] ∧ slot.holds none) ∨
      ∃ v, ms.filter (·.1 = slot.key) = [(slot.key, v)] ∧ slot.holds (some v) := by
  have honce := h.once slot (.head _)
  rw [List.count_eq_countP, List.countP_map, List.countP_eq_length_filter] at honce
  change (ms.filter (·.1 = slot.key)).length ≤ 1 at honce
  have hmem {m : String × Json} : m ∈ ms.filter (·.1 = slot.key) ↔ m ∈ ms ∧ m.1 = slot.key := by
    simp
  generalize ms.filter (·.1 = slot.key) = found at honce hmem ⊢
  cases found with
  | nil =>
    refine .inl ⟨rfl, h.leftOut slot (.head _) fun hkey => ?_⟩
    obtain ⟨m, hm, hkey⟩ := List.mem_map.1 hkey
    exact nomatch hmem.2 ⟨hm, hkey⟩
  | cons m rest =>
    obtain ⟨hm, hkey⟩ := hmem.1 (.head _)
    rw [List.length_eq_zero_iff.1 (Nat.le_zero.1 (Nat.le_of_succ_le_succ honce))]
    exact .inr ⟨m.2, by rw [← hkey], h.written slot (.head _) m hm hkey⟩

/-- Members that fit are a form: those of the slots come first in it, and then the others. -/
theorem Fits.recordForm (h : Fits slots ms) (hkeys : (slots.map MemberSlot.key).Nodup) :
    RecordForm slots (.object ms) := by
  induction slots generalizing ms with
  | nil =>
    exact ⟨[], ms, ms, rfl, .refl ms, .nil,
      fun m hm => ⟨List.not_mem_nil, h.others m hm List.not_mem_nil⟩⟩
  | cons slot slots ih =>
    obtain ⟨hnew, hkeys⟩ := List.nodup_cons.1 hkeys
    obtain ⟨known, others, _, hms, hperm, hfilled, hothers⟩ := ih (h.filter hnew) hkeys
    obtain rfl := Json.object.inj hms
    have hsplit : ms.Perm (ms.filter (·.1 = slot.key) ++ (known ++ others)) := by
      refine (List.filter_append_perm (·.1 = slot.key) ms).symm.trans (.append_left _ ?_)
      simpa using hperm
    have hothers' : ∀ m ∈ others, m.1 ∉ (slot :: slots).map MemberSlot.key ∧ m.2.NumberFree := by
      intro m hm
      have hm' : m ∈ ms.filter (·.1 ≠ slot.key) := hperm.mem_iff.2 (List.mem_append_right _ hm)
      have hne : m.1 ≠ slot.key := by simpa using (List.mem_filter.1 hm').2
      refine ⟨fun hmem => ?_, (hothers m hm).2⟩
      obtain heq | hmem := List.mem_cons.1 hmem
      · exact hne heq
      · exact (hothers m hm).1 hmem
    obtain ⟨hnone, hv⟩ | ⟨v, hone, hv⟩ := h.filter_cases
    · exact ⟨known, others, ms, rfl, by simpa [hnone] using hsplit, .leftOut hv hfilled, hothers'⟩
    · exact ⟨(slot.key, v) :: known, others, ms, rfl, by simpa [hone] using hsplit,
        .written hv hfilled, hothers'⟩

end IdlModel.Json
