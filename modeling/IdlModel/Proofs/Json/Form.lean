import Mathlib.Data.List.Nodup
import IdlModel.Proofs.Json.Reading

/-!
# Forms of records

A record has more than one form as a JSON object: its members may come in any order, some may be
left out or be written in more than one way, and members of other keys may stand among them. A
`MemberSlot` says what may be written for one member, and `RecordForm` which values are forms of a
record with some slots.

What a reader of members has to know of a form is less than that, and does not speak of an order
(`Fits`): a member of a known key has one of its values, a known key that is missing may be missing,
and none occurs twice. So what has been found of a record behind some of its members is told by
which keys have been read (`ifRead`), and a law for one member at any place among the others is one
for all of them: `Reader.Gathers.of_fits` for a reader of tokens, and `foldlM_of_splits` for a value
that has been read before.
-/

namespace IdlModel.Json

/-! ## Slots and forms -/

/-- What may be written for one member of a record. No value is the member left out. -/
structure MemberSlot where
  key : String
  holds : Option Json → Prop

namespace MemberSlot

/-- A string that has to be there. -/
def string (key s : String) : MemberSlot where
  key
  holds o := o = some (.string s)

/-- A comment. An absent one may be written as null. -/
def comment (c : Option String) : MemberSlot where
  key := "comment"
  holds o := o = c.map .string ∨ c = none ∧ o = some .null

/-- A list of which each item may be written in some forms. An empty one may be left out. -/
def list (key : String) (items : List (Json → Prop)) : MemberSlot where
  key
  holds o := (∃ vs, o = some (.array vs) ∧ List.Forall₂ (fun p v => p v) items vs) ∨
    items = [] ∧ o = none

end MemberSlot

/-- The members that are written for some slots, in the order of the slots. -/
inductive Filled : List MemberSlot → List (String × Json) → Prop
  | nil : Filled [] []
  | written {slot : MemberSlot} {slots : List MemberSlot} {v : Json} {ms : List (String × Json)}
    (h : slot.holds (some v)) (hms : Filled slots ms) :
    Filled (slot :: slots) ((slot.key, v) :: ms)
  | leftOut {slot : MemberSlot} {slots : List MemberSlot} {ms : List (String × Json)}
    (h : slot.holds none) (hms : Filled slots ms) : Filled (slot :: slots) ms

/-- An object with members for some slots and any others, of other keys and without numbers, in any
order. -/
def RecordForm (slots : List MemberSlot) (v : Json) : Prop :=
  ∃ known others ms, v = .object ms ∧ ms.Perm (known ++ others) ∧ Filled slots known ∧
    ∀ m ∈ others, m.1 ∉ slots.map MemberSlot.key ∧ m.2.NumberFree

theorem Filled.recordForm {slots : List MemberSlot} {ms : List (String × Json)} (h : Filled slots ms) :
    RecordForm slots (.object ms) :=
  ⟨ms, [], ms, rfl, by rw [List.append_nil], h, nofun⟩

/-- A member that is left out if it is empty. -/
theorem Filled.unlessEmpty (slot : MemberSlot) {slots : List MemberSlot} {empty : Bool} {v : Json}
    {os : List (Option (String × Json))} (hwritten : slot.holds (some v))
    (hleft : empty = true → slot.holds none) (hos : Filled slots (os.filterMap id)) :
    Filled (slot :: slots)
      (((if empty then none else Json.member slot.key v) :: os).filterMap id) := by
  cases empty with
  | true => exact .leftOut (hleft rfl) hos
  | false => exact .written hwritten hos

theorem MemberSlot.holds_list {α : Type} {form : α → Json → Prop} {f : α → Json} {as : List α}
    (h : ∀ a ∈ as, form a (f a)) (key : String) :
    (MemberSlot.list key (as.map form)).holds (some (.array (as.map f))) := by
  refine .inl ⟨_, rfl, ?_⟩
  rw [List.forall₂_map_left_iff, List.forall₂_map_right_iff]
  exact List.forall₂_same.2 h

/-! ## Members in any order -/

variable {slots : List MemberSlot} {slot : MemberSlot} {ms before after : List (String × Json)}
  {m : String × Json}

/-- The members are those of a form, whatever their order. -/
structure Fits (slots : List MemberSlot) (ms : List (String × Json)) : Prop where
  written : ∀ slot ∈ slots, ∀ m ∈ ms, m.1 = slot.key → slot.holds (some m.2)
  leftOut : ∀ slot ∈ slots, slot.key ∉ ms.map Prod.fst → slot.holds none
  once : ∀ slot ∈ slots, (ms.map Prod.fst).count slot.key ≤ 1
  others : ∀ m ∈ ms, m.1 ∉ slots.map MemberSlot.key → m.2.NumberFree

theorem Filled.sublist (h : Filled slots ms) :
    (ms.map Prod.fst).Sublist (slots.map MemberSlot.key) := by
  induction h with
  | nil => exact .slnil
  | written _ _ ih => exact ih.cons_cons _
  | leftOut _ _ ih => exact ih.cons _

theorem Filled.holds (h : Filled slots ms) (hkeys : (slots.map MemberSlot.key).Nodup)
    (hslot : slot ∈ slots) :
    (∀ m ∈ ms, m.1 = slot.key → slot.holds (some m.2)) ∧
      (slot.key ∉ ms.map Prod.fst → slot.holds none) := by
  induction h with
  | nil => cases hslot
  | @written slot' slots v ms h hms ih =>
    obtain ⟨hnew, hkeys⟩ := List.nodup_cons.1 hkeys
    obtain rfl | hslot := List.mem_cons.1 hslot
    · refine ⟨List.forall_mem_cons.2 ⟨fun _ => h, fun m hm hkey => ?_⟩, fun habsent => ?_⟩
      · exact absurd (hms.sublist.subset (hkey ▸ List.mem_map_of_mem hm)) hnew
      · exact absurd List.mem_cons_self habsent
    · obtain ⟨hwritten, hleft⟩ := ih hkeys hslot
      refine ⟨List.forall_mem_cons.2 ⟨fun hkey => ?_, hwritten⟩, fun habsent => ?_⟩
      · have hkey : slot'.key = slot.key := hkey
        exact absurd (hkey ▸ List.mem_map_of_mem hslot) hnew
      · exact hleft fun hmem => habsent (List.mem_cons_of_mem _ hmem)
  | @leftOut slot' slots ms h hms ih =>
    obtain ⟨hnew, hkeys⟩ := List.nodup_cons.1 hkeys
    obtain rfl | hslot := List.mem_cons.1 hslot
    · refine ⟨fun m hm hkey => ?_, fun _ => h⟩
      exact absurd (hms.sublist.subset (hkey ▸ List.mem_map_of_mem hm)) hnew
    · exact ih hkeys hslot

/-- The members of a form fit its slots. -/
theorem RecordForm.exists_fits {v : Json} (h : RecordForm slots v)
    (hkeys : (slots.map MemberSlot.key).Nodup) : ∃ ms, v = .object ms ∧ Fits slots ms := by
  obtain ⟨known, others, ms, rfl, hperm, hfilled, hothers⟩ := h
  have hkey {slot : MemberSlot} (hslot : slot ∈ slots) : slot.key ∈ slots.map MemberSlot.key :=
    List.mem_map_of_mem hslot
  have hmem {m : String × Json} (hm : m ∈ ms) : m ∈ known ∨ m ∈ others :=
    List.mem_append.1 (hperm.mem_iff.1 hm)
  refine ⟨ms, rfl, ?_, ?_, ?_, ?_⟩
  · intro slot hslot m hm hm'
    obtain hm | hm := hmem hm
    · exact (hfilled.holds hkeys hslot).1 m hm hm'
    · exact absurd (hm' ▸ hkey hslot) (hothers m hm).1
  · intro slot hslot habsent
    refine (hfilled.holds hkeys hslot).2 fun hmem => habsent ?_
    rw [(hperm.map Prod.fst).mem_iff, List.map_append]
    exact List.mem_append_left _ hmem
  · intro slot hslot
    have hnone : (others.map Prod.fst).count slot.key = 0 := by
      rw [List.count_eq_zero]
      intro h
      obtain ⟨m, hm, hm'⟩ := List.mem_map.1 h
      exact (hothers m hm).1 (hm' ▸ hkey hslot)
    rw [(hperm.map Prod.fst).count_eq, List.map_append, List.count_append, hnone, Nat.add_zero]
    exact Nat.le_trans (hfilled.sublist.count_le _) (List.nodup_iff_count_le_one.1 hkeys _)
  · intro m hm hm'
    obtain hm | hm := hmem hm
    · exact absurd (hfilled.sublist.subset (List.mem_map_of_mem hm)) hm'
    · exact (hothers m hm).2

namespace Fits

/-- The member of a slot, at its place among the others. -/
theorem of_split (h : Fits slots (before ++ m :: after)) (hslot : slot ∈ slots)
    (hkey : m.1 = slot.key) : slot.key ∉ before.map Prod.fst ∧ slot.holds (some m.2) := by
  refine ⟨fun hmem => ?_, h.written slot hslot m (by simp) hkey⟩
  have honce := h.once slot hslot
  have hbefore := List.count_pos_iff.2 hmem
  rw [List.map_append, List.map_cons, hkey, List.count_append, List.count_cons_self] at honce
  omega

/-- The members without those of one key fit the slots without the one of this key. -/
theorem filter (h : Fits (slot :: slots) ms) (hkey : slot.key ∉ slots.map MemberSlot.key) :
    Fits slots (ms.filter (·.1 ≠ slot.key)) := by
  have hmem {m : String × Json} (hm : m ∈ ms.filter (·.1 ≠ slot.key)) :
      m ∈ ms ∧ m.1 ≠ slot.key := by
    simpa using hm
  refine ⟨?_, ?_, ?_, ?_⟩
  · exact fun s hs m hm => h.written s (List.mem_cons_of_mem _ hs) m (hmem hm).1
  · intro s hs habsent
    refine h.leftOut s (List.mem_cons_of_mem _ hs) fun hpresent => habsent ?_
    obtain ⟨m, hm, hm'⟩ := List.mem_map.1 hpresent
    have hne : m.1 ≠ slot.key := fun heq => hkey (heq ▸ hm' ▸ List.mem_map_of_mem hs)
    exact List.mem_map.2 ⟨m, by simpa using ⟨hm, hne⟩, hm'⟩
  · intro s hs
    exact Nat.le_trans ((List.filter_sublist.map _).count_le _)
      (h.once s (List.mem_cons_of_mem _ hs))
  · intro m hm hm'
    exact h.others m (hmem hm).1 (by simpa using ⟨(hmem hm).2, by simpa using hm'⟩)

theorem string_mem {key s : String} (h : Fits slots ms) (hslot : .string key s ∈ slots) :
    key ∈ ms.map Prod.fst :=
  Decidable.byContradiction fun habsent => nomatch h.leftOut _ hslot habsent

theorem comment_eq_none {c : Option String} (h : Fits slots ms) (hslot : .comment c ∈ slots)
    (habsent : "comment" ∉ ms.map Prod.fst) : c = none := by
  obtain hnone | ⟨-, hnull⟩ := h.leftOut _ hslot habsent
  · exact Option.map_eq_none_iff.1 hnone.symm
  · cases hnull

theorem list_eq_nil {key : String} {items : List (Json → Prop)} (h : Fits slots ms)
    (hslot : .list key items ∈ slots) (habsent : key ∉ ms.map Prod.fst) : items = [] := by
  obtain ⟨vs, hvs, -⟩ | ⟨hnil, -⟩ := h.leftOut _ hslot habsent
  · cases hvs
  · exact hnil

end Fits

/-! ## Numbers in forms -/

/-- No number occurs in what is written for the slot. -/
def MemberSlot.NumberFree (slot : MemberSlot) : Prop :=
  ∀ v, slot.holds (some v) → v.NumberFree

namespace MemberSlot.NumberFree

theorem string (key s : String) : (MemberSlot.string key s).NumberFree := by
  rintro v ⟨⟩
  exact .string s

theorem comment (c : Option String) : (MemberSlot.comment c).NumberFree := by
  rintro v (h | ⟨-, ⟨⟩⟩)
  · cases c with
    | none => cases h
    | some c =>
      obtain rfl := Option.some.inj h
      exact .string c
  · exact .null

theorem list {key : String} {items : List (Json → Prop)}
    (h : ∀ p ∈ items, ∀ v, p v → v.NumberFree) : (MemberSlot.list key items).NumberFree := by
  rintro v (⟨vs, ⟨⟩, hitems⟩ | ⟨-, ⟨⟩⟩)
  refine .array ?_
  induction hitems with
  | nil => exact nofun
  | cons hv _ ih =>
    obtain ⟨hp, hps⟩ := List.forall_mem_cons.1 h
    exact List.forall_mem_cons.2 ⟨hp _ hv, ih hps⟩

end MemberSlot.NumberFree

theorem Fits.numberFree (h : Fits slots ms) (hslots : ∀ slot ∈ slots, slot.NumberFree) :
    ∀ m ∈ ms, m.2.NumberFree := by
  intro m hm
  by_cases hkey : m.1 ∈ slots.map MemberSlot.key
  · obtain ⟨slot, hslot, hkey⟩ := List.mem_map.1 hkey
    exact hslots slot hslot m.2 (h.written slot hslot m hm hkey.symm)
  · exact h.others m hm hkey

theorem RecordForm.numberFree {v : Json} (h : RecordForm slots v)
    (hkeys : (slots.map MemberSlot.key).Nodup) (hslots : ∀ slot ∈ slots, slot.NumberFree) :
    v.NumberFree := by
  obtain ⟨ms, rfl, hfits⟩ := h.exists_fits hkeys
  exact .object (hfits.numberFree hslots)

/-! ## What has been found behind some of the members -/

variable {α ε σ : Type}

/-- What has been found for the member of a key, if the member is among those that have been
read. -/
def ifRead (key : String) (ms : List (String × Json)) (a : α) : Option α :=
  if key ∈ ms.map Prod.fst then some a else none

section ifRead

variable {key : String} {a : α}

theorem ifRead_of_mem (h : key ∈ ms.map Prod.fst) : ifRead key ms a = some a :=
  if_pos h

theorem ifRead_of_not_mem (h : key ∉ ms.map Prod.fst) : ifRead key ms a = none :=
  if_neg h

theorem ifRead_append_of_eq (h : m.1 = key) : ifRead key (ms ++ [m]) a = some a :=
  ifRead_of_mem (by simp [h])

theorem ifRead_append_of_ne (h : m.1 ≠ key) : ifRead key (ms ++ [m]) a = ifRead key ms a :=
  if_congr (by simp [h.symm]) rfl rfl

/-- A member that may be missing if what it holds is the default. -/
theorem getD_ifRead {b : α} (h : key ∉ ms.map Prod.fst → a = b) : (ifRead key ms a).getD b = a := by
  by_cases hkey : key ∈ ms.map Prod.fst
  · rw [ifRead_of_mem hkey]
    rfl
  · rw [ifRead_of_not_mem hkey, h hkey]
    rfl

end ifRead

/-- A fold over the members, given what it has made of those in front of each one. -/
theorem foldlM_of_splits {step : σ → String × Json → Except ε σ}
    (found : List (String × Json) → σ)
    (h : ∀ before m after, ms = before ++ m :: after →
      step (found before) m = .ok (found (before ++ [m]))) :
    ms.foldlM step (found []) = .ok (found ms) := by
  suffices hrest : ∀ after before, ms = before ++ after →
      after.foldlM step (found before) = .ok (found ms) from hrest ms [] rfl
  intro after
  induction after with
  | nil =>
    rintro before rfl
    rw [List.append_nil]
    rfl
  | cons m after ih =>
    intro before hms
    rw [List.foldlM_cons, h before m after hms]
    exact ih (before ++ [m]) (by rw [hms, List.append_assoc]; rfl)

namespace Reader

/-- The members of an object, given what has been made of those in front of each one. -/
theorem Gathers.of_splits {member : String → σ → Reader σ} (found : List (String × Json) → σ)
    (h : ∀ before m after, ms = before ++ m :: after →
      Reads (member m.1 (found before)) (.colon :: m.2.toTokens) (.ok (found (before ++ [m])))) :
    Gathers member true (found []) ms (.ok (found ms)) := by
  suffices hrest : ∀ after before first, ms = before ++ after →
      Gathers member first (found before) after (.ok (found ms)) from hrest ms [] true rfl
  intro after
  induction after with
  | nil =>
    rintro before first rfl
    rw [List.append_nil]
    exact .nil
  | cons m after ih =>
    intro before first hms
    exact .cons_ok (h before m after hms)
      (ih (before ++ [m]) false (by rw [hms, List.append_assoc]; rfl))

/-- The members of a form, each of which is read at its place among the others. -/
theorem Gathers.of_fits {levels : Nat} {member : String → σ → Reader σ}
    (found : List (String × Json) → σ) (hfits : Fits slots ms)
    (hslots : ∀ slot ∈ slots, slot.NumberFree) (hdepth : depthOfMembers ms ≤ levels)
    (h : ∀ before m after, Fits slots (before ++ m :: after) → m.2.Readable levels →
      Reads (member m.1 (found before)) (.colon :: m.2.toTokens) (.ok (found (before ++ [m])))) :
    Gathers member true (found []) ms (.ok (found ms)) := by
  refine Gathers.of_splits found fun before m after hms => ?_
  have hm : m ∈ ms := by rw [hms]; simp
  exact h before m after (hms ▸ hfits)
    ⟨hfits.numberFree hslots m hm, depthOfMembers_le.1 hdepth m hm⟩

/-- A member that has not been read before, whatever others have. -/
theorem reads_once_ifRead {key : String} {value : Reader α} {ts : List Token} {a : α}
    (hkey : key ∉ before.map Prod.fst) (hm : m.1 = key) (h : Reads value ts (.ok a)) :
    Reads (once key (ifRead key before a) value) (.colon :: ts)
      (.ok (ifRead key (before ++ [m]) a)) := by
  rw [ifRead_of_not_mem hkey, ifRead_append_of_eq hm]
  exact reads_once h

theorem reads_once_string {key s : String} (h : Fits slots (before ++ m :: after))
    (hslot : .string key s ∈ slots) (hm : m.1 = key) :
    Reads (once key (ifRead key before s) string) (.colon :: m.2.toTokens)
      (.ok (ifRead key (before ++ [m]) s)) := by
  obtain ⟨hkey, hv⟩ := h.of_split hslot hm
  have htokens : m.2.toTokens = [.string (.ok s)] := by rw [Option.some.inj hv, toTokens]
  rw [htokens]
  exact reads_once_ifRead hkey hm (reads_string s)

/-- An array of which each item is in one of its forms. -/
theorem reads_list_of_holds {levels : Nat} {item : Reader α} {form : α → Json → Prop}
    {key : String} {as : List α} {v : Json}
    (h : (MemberSlot.list key (as.map form)).holds (some v)) (hdepth : v.depth ≤ levels)
    (hfree : ∀ a v, form a v → v.NumberFree)
    (hitem : ∀ a ∈ as, ∀ v, form a v → v.depth ≤ levels - 1 → Reads item v.toTokens (.ok a)) :
    Reads (list levels item) v.toTokens (.ok as) := by
  obtain ⟨vs, hvs, hforms⟩ | ⟨-, hnone⟩ := h
  · obtain rfl := Option.some.inj hvs
    rw [List.forall₂_map_left_iff] at hforms
    rw [depth] at hdepth
    have hlevels : levels ≠ 0 := by omega
    have hitems : ∀ v ∈ vs, v.depth ≤ levels - 1 :=
      depthOfItems_le.1 (Nat.le_sub_one_of_lt hdepth)
    have hpair : ∀ b ∈ as.zip vs, b.1 ∈ as ∧ b.2 ∈ vs ∧ form b.1 b.2 := fun b hb =>
      ⟨(List.of_mem_zip hb).1, (List.of_mem_zip hb).2, List.forall₂_zip hforms hb⟩
    -- each item is read together with what it is to be read as
    have hread := reads_list (f := Prod.snd) (x := fun b => .ok b.1) levels
      (fun b hb => hfree b.1 b.2 (hpair b hb).2.2) fun b hb =>
        hitem b.1 (hpair b hb).1 b.2 (hpair b hb).2.2 (hitems b.2 (hpair b hb).2.1)
    have hlength : as.length = vs.length := hforms.length_eq
    have hfirst : (as.zip vs).mapM (Except.ok ∘ Prod.fst) =
        (.ok as : Except ReadError (List α)) := by
      rw [← List.mapM_map, List.map_fst_zip (Nat.le_of_eq hlength), mapM_ok]
    rw [List.map_snd_zip (Nat.le_of_eq hlength.symm), spending, if_neg hlevels] at hread
    exact hfirst ▸ hread
  · cases hnone

end Reader

end IdlModel.Json
