import IdlModel.Proofs.Json.Form
import IdlModel.Proofs.Node.RoundTrip

/-!
# Forms of trees

A tree has many forms: the members of every node and the named fields may come in any order, what is
empty may be written or left out, and a node may have other members, but not its named fields. As
with documents, all of them are read alike (`Node.reads_of_isForm`). The induction is on the levels
that are left, of which a node takes one and the list of its children another.
-/

namespace IdlModel

open Json (Reader MemberSlot Filled Fits RecordForm ifRead ifRead_append_of_ne ifRead_of_mem
  getD_ifRead)

/-! ## Named fields in any order -/

namespace Fields

theorem insertEntry_perm {name text : String} {es : List (String × String)}
    (h : name ∉ es.map Prod.fst) : (insertEntry name text es).Perm ((name, text) :: es) := by
  induction es with
  | nil => exact .refl _
  | cons e es ih =>
    obtain ⟨hne, hrest⟩ := not_or.1 (h ∘ List.mem_cons.2)
    rw [insertEntry]
    split
    · exact .refl _
    · exact ((ih hrest).cons e).trans (.swap _ _ _)

/-- Setting entries of different names one after the other gives all of them. -/
theorem foldl_insert_perm {es : List (String × String)} {fs : Fields}
    (h : ((fs.entries ++ es).map Prod.fst).Nodup) :
    (es.foldl (fun fs e => fs.insert e.1 e.2) fs).entries.Perm (fs.entries ++ es) := by
  induction es generalizing fs with
  | nil =>
    rw [List.append_nil]
    exact .refl _
  | cons e es ih =>
    have hmiddle : ((e :: (fs.entries ++ es)).map Prod.fst).Nodup :=
      ((List.perm_middle.map Prod.fst).nodup_iff).1 h
    have hnew : e.1 ∉ fs.entries.map Prod.fst := fun hmem =>
      (List.nodup_cons.1 hmiddle).1 (by rw [List.map_append]; exact List.mem_append_left _ hmem)
    have hinsert : (fs.insert e.1 e.2).entries.Perm (e :: fs.entries) := insertEntry_perm hnew
    have hmoved : ((fs.insert e.1 e.2).entries ++ es).Perm (fs.entries ++ e :: es) :=
      (hinsert.append_right es).trans List.perm_middle.symm
    exact (ih (((hmoved.map Prod.fst).nodup_iff).2 h)).trans hmoved

/-- The entries of a collection give it back in whatever order they are set. -/
theorem ofList_of_perm {fs : Fields} {es : List (String × String)} (h : es.Perm fs.entries) :
    ofList es = fs := by
  have hnames : (fs.entries.map Prod.fst).Nodup := by
    refine List.pairwise_map.2 (fs.ascending.imp ?_)
    intro d e hlt heq
    rw [heq] at hlt
    exact String.lt_irrefl _ hlt
  have hset : (ofList es).entries.Perm es :=
    foldl_insert_perm (((h.map Prod.fst).nodup_iff).2 hnames)
  have hasymm : ∀ d e, d ∈ (ofList es).entries → e ∈ fs.entries → d.1 < e.1 → e.1 < d.1 → d = e :=
    fun d e _ _ hde hed => absurd hed (String.lt_asymm hde)
  ext1
  exact (hset.trans h).eq_of_pairwise hasymm (ofList es).ascending fs.ascending

theorem eq_empty_of_isEmpty {fs : Fields} (h : fs.isEmpty) : fs = .empty := by
  ext1
  exact List.isEmpty_iff.1 h

end Fields

namespace Node

/-- The named fields of a node as a member, in any order. If there are none, the member may be left
out. -/
def fieldsSlot (fs : Fields) : MemberSlot where
  key := "fields"
  holds o := (∃ es : List (String × String), es.Perm fs.entries ∧
    o = some (.object (es.map fun e => (e.1, .string e.2)))) ∨ fs = .empty ∧ o = none

/-- The text of a node as a member, which may be left out if it is empty. -/
def textSlot (text : String) : MemberSlot where
  key := "text"
  holds o := o = some (.string text) ∨ text = "" ∧ o = none

/-- The slots of a node, given the forms of its children. -/
def slotsWith (rule text : String) (fields : Fields) (children : List (Json → Prop)) :
    List MemberSlot :=
  [.string "kind" rule, textSlot text, fieldsSlot fields, .list "children" children]

mutual

/-- A value is a form of the tree. -/
def IsForm : Node → Json → Prop
  | ⟨rule, text, fields, children⟩ => RecordForm (slotsWith rule text fields (childForms children))

/-- The forms of each of some trees. -/
def childForms : List Node → List (Json → Prop)
  | [] => []
  | n :: ns => n.IsForm :: childForms ns

end

theorem childForms_eq_map (ns : List Node) : childForms ns = ns.map IsForm := by
  induction ns with
  | nil => rw [childForms, List.map_nil]
  | cons n ns ih => rw [childForms, List.map_cons, ih]

/-- The slots of a node. -/
def slots (t : Node) : List MemberSlot :=
  slotsWith t.rule t.text t.fields (t.children.map IsForm)

theorem isForm_iff {t : Node} {v : Json} : t.IsForm v ↔ RecordForm t.slots v := by
  cases t
  rw [IsForm, childForms_eq_map, slots]

theorem nodup_slots (t : Node) : (t.slots.map MemberSlot.key).Nodup :=
  (by decide : ["kind", "text", "fields", "children"].Nodup)

theorem numberFree_textSlot (text : String) : (textSlot text).NumberFree := by
  rintro v (h | ⟨-, ⟨⟩⟩)
  obtain rfl := Option.some.inj h
  exact .string text

theorem numberFree_fieldsSlot (fs : Fields) : (fieldsSlot fs).NumberFree := by
  rintro v (⟨es, -, h⟩ | ⟨-, ⟨⟩⟩)
  obtain rfl := Option.some.inj h
  exact .object (List.forall_mem_map.2 fun e _ => .string e.2)

theorem numberFree_slots {t : Node} (h : ∀ c ∈ t.children, ∀ v, c.IsForm v → v.NumberFree) :
    ∀ slot ∈ t.slots, slot.NumberFree := by
  simp only [slots, slotsWith, List.forall_mem_cons]
  exact ⟨.string _ _, numberFree_textSlot _, numberFree_fieldsSlot _,
    .list (List.forall_mem_map.2 h), nofun⟩

theorem numberFree_of_isForm {t : Node} {v : Json} (h : t.IsForm v) : v.NumberFree := by
  suffices hall : ∀ ns : List Node, ∀ t ∈ ns, ∀ v, t.IsForm v → v.NumberFree from
    hall [t] t List.mem_cons_self v h
  intro ns
  induction ns using forest_induction with
  | nil => exact nofun
  | cons t ns iht ih =>
    rw [List.forall_mem_cons]
    exact ⟨iht t List.mem_cons_self, ih⟩
  | node t ih =>
    rw [List.forall_mem_singleton]
    intro v hv
    exact (isForm_iff.1 hv).numberFree t.nodup_slots (numberFree_slots ih)

/-- The form that is written out is one of the forms of a tree. -/
theorem isForm_toJson (t : Node) : t.IsForm t.toJson := by
  suffices hall : ∀ ns : List Node, ∀ t ∈ ns, t.IsForm t.toJson from
    hall [t] t List.mem_cons_self
  intro ns
  induction ns using forest_induction with
  | nil => exact nofun
  | cons t ns iht ih =>
    rw [List.forall_mem_cons]
    exact ⟨iht t List.mem_cons_self, ih⟩
  | node t ih =>
    rw [List.forall_mem_singleton, isForm_iff, toJson_eq]
    have hchildren : Filled [.list "children" (t.children.map IsForm)]
        ([if t.children.isEmpty then none
          else Json.member "children" (.array (t.children.map toJson))].filterMap id) :=
      .unlessEmpty _ (MemberSlot.holds_list ih _)
        (fun h => .inr ⟨by rw [List.isEmpty_iff.1 h]; rfl, rfl⟩) .nil
    have hfields := Filled.unlessEmpty (fieldsSlot t.fields)
      (.inl ⟨t.fields.entries, .refl _, rfl⟩)
      (fun h => .inr ⟨Fields.eq_empty_of_isEmpty h, rfl⟩) hchildren
    have htext := Filled.unlessEmpty (textSlot t.text)
      (.inl rfl) (fun h => .inr ⟨String.isEmpty_iff.1 h, rfl⟩) hfields
    exact (Filled.written rfl htext).recordForm

/-! ## Reading -/

open Json.Reader

variable {levels : Nat} {child : Reader Node} {before after ms : List (String × Json)}
  {m : String × Json}

theorem reads_readFields_of_holds {fs : Fields} {v : Json}
    (h : (fieldsSlot fs).holds (some v)) (hdepth : v.depth ≤ levels) :
    Reads (readFields levels) v.toTokens (.ok fs) := by
  obtain ⟨es, hperm, hv⟩ | ⟨-, hnone⟩ := h
  · obtain rfl := Option.some.inj hv
    have hlevels : levels ≠ 0 := by
      rw [Json.depth] at hdepth
      omega
    have hread := reads_readFields_ofList es levels
    rwa [Fields.ofList_of_perm hperm, spending, if_neg hlevels] at hread
  · cases hnone

/-- What has been read of a node behind some of its members. -/
def Draft.read (t : Node) (ms : List (String × Json)) : Draft where
  rule := ifRead "kind" ms t.rule
  text := ifRead "text" ms t.text
  fields := ifRead "fields" ms t.fields
  children := ifRead "children" ms t.children

theorem reads_readMember_of_fits {t : Node}
    (hchild : ∀ c ∈ t.children, ∀ v, c.IsForm v → v.depth ≤ levels - 1 →
      Reads child v.toTokens (.ok c))
    (h : Fits t.slots (before ++ m :: after)) (hm : m.2.Readable levels) :
    Reads (readMember levels child m.1 (.read t before)) (.colon :: m.2.toTokens)
      (.ok (.read t (before ++ [m]))) := by
  unfold readMember
  split
  · next hkey =>
    have hread := (reads_once_string h (.head _) hkey).map fun rule =>
      { Draft.read t before with rule }
    have hfound : Draft.read t (before ++ [m]) =
        { Draft.read t before with rule := ifRead "kind" (before ++ [m]) t.rule } := by
      simp [Draft.read, ifRead_append_of_ne, hkey]
    rw [hfound, hkey]
    exact hread
  · next hkey =>
    obtain ⟨hnew, hv⟩ := h.of_split (.tail _ (.head _)) hkey
    have htext : Reads string m.2.toTokens (.ok t.text) := by
      obtain hv | ⟨-, hnone⟩ := hv
      · rw [Option.some.inj hv]
        exact reads_string t.text
      · cases hnone
    have hread := (reads_once_ifRead hnew hkey htext).map fun text =>
      { Draft.read t before with text }
    have hfound : Draft.read t (before ++ [m]) =
        { Draft.read t before with text := ifRead "text" (before ++ [m]) t.text } := by
      simp [Draft.read, ifRead_append_of_ne, hkey]
    rw [hfound, hkey]
    exact hread
  · next hkey =>
    obtain ⟨hnew, hv⟩ := h.of_split (.tail _ (.tail _ (.head _))) hkey
    have hread := (reads_once_ifRead hnew hkey (reads_readFields_of_holds hv hm.depth_le)).map
      fun fields => { Draft.read t before with fields }
    have hfound : Draft.read t (before ++ [m]) =
        { Draft.read t before with fields := ifRead "fields" (before ++ [m]) t.fields } := by
      simp [Draft.read, ifRead_append_of_ne, hkey]
    rw [hfound, hkey]
    exact hread
  · next hkey =>
    obtain ⟨hnew, hv⟩ := h.of_split (.tail _ (.tail _ (.tail _ (.head _)))) hkey
    have hlist : Reads (list levels child) m.2.toTokens (.ok t.children) :=
      reads_list_of_holds hv hm.depth_le (fun _ _ => numberFree_of_isForm) hchild
    have hread := (reads_once_ifRead hnew hkey hlist).map fun children =>
      { Draft.read t before with children }
    have hfound : Draft.read t (before ++ [m]) =
        { Draft.read t before with children := ifRead "children" (before ++ [m]) t.children } := by
      simp [Draft.read, ifRead_append_of_ne, hkey]
    rw [hfound, hkey]
    exact hread
  · next hrule htext hfields hchildren =>
    have hfound : Draft.read t (before ++ [m]) = Draft.read t before := by
      simp only [Draft.read, ifRead_append_of_ne hrule, ifRead_append_of_ne htext,
        ifRead_append_of_ne hfields, ifRead_append_of_ne hchildren]
    rw [hfound]
    exact reads_colon.bind_ok ((reads_skipValue hm.numberFree).map fun _ => Draft.read t before)

theorem node_read {t : Node} (h : Fits t.slots ms) : (Draft.read t ms).node = .ok t := by
  have hrule : (Draft.read t ms).rule = some t.rule := ifRead_of_mem (h.string_mem (.head _))
  have htext : (ifRead "text" ms t.text).getD "" = t.text := getD_ifRead fun habsent => by
    obtain hnone | ⟨hempty, -⟩ := h.leftOut _ (.tail _ (.head _)) habsent
    · cases hnone
    · exact hempty
  have hfields : (ifRead "fields" ms t.fields).getD .empty = t.fields :=
    getD_ifRead fun habsent => by
      obtain ⟨_, _, hnone⟩ | ⟨hempty, -⟩ := h.leftOut _ (.tail _ (.tail _ (.head _))) habsent
      · cases hnone
      · exact hempty
  have hchildren : (ifRead "children" ms t.children).getD [] = t.children :=
    getD_ifRead fun habsent => List.map_eq_nil_iff.1
      (h.list_eq_nil (.tail _ (.tail _ (.tail _ (.head _)))) habsent)
  rw [Draft.node, hrule]
  show Except.ok (Node.mk t.rule ((ifRead "text" ms t.text).getD "")
    ((ifRead "fields" ms t.fields).getD .empty) ((ifRead "children" ms t.children).getD [])) = _
  rw [htext, hfields, hchildren]
  cases t
  rfl

theorem reads_readWith_of_isForm {t : Node} {v : Json}
    (hchild : ∀ c ∈ t.children, ∀ v, c.IsForm v → v.depth ≤ levels - 1 →
      Reads child v.toTokens (.ok c))
    (h : t.IsForm v) (hdepth : v.depth ≤ levels + 1) :
    Reads (readWith (levels + 1) child) v.toTokens (.ok t) := by
  obtain ⟨ms, rfl, hfits⟩ := (isForm_iff.1 h).exists_fits t.nodup_slots
  have hslots := numberFree_slots fun (c : Node) (_ : c ∈ t.children) _ => numberFree_of_isForm
  have hgather : Gathers (readMember levels child) true {} ms (.ok (.read t ms)) :=
    .of_fits (Draft.read t) hfits hslots (Nat.le_of_succ_le_succ hdepth)
      fun _ _ _ => reads_readMember_of_fits hchild
  have hclosed : Reads (do let n ← ofExcept (Draft.read t ms).node; close .curly; pure n)
      [.closing .curly] (.ok t) :=
    (reads_ofExcept (node_read hfits)).bind_ok (reads_closed t)
  rw [Json.toTokens]
  exact (reads_opening .curly).bind_ok
    (reads_spending (levels + 1) (reads_members_ok hgather hclosed))

theorem not_depth_le_zero {t : Node} {v : Json} (h : t.IsForm v) : ¬ v.depth ≤ 0 := by
  obtain ⟨ms, rfl, -⟩ := (isForm_iff.1 h).exists_fits t.nodup_slots
  rw [Json.depth]
  omega

/-- A tree is read from any of its forms, if there are enough levels for it. -/
theorem reads_of_isForm {t : Node} {v : Json} (h : t.IsForm v) (hdepth : v.depth ≤ levels) :
    Reads (reader levels) v.toTokens (.ok t) := by
  induction levels using reader.induct generalizing t v with
  | case1 levels ih => exact reads_readWith_of_isForm (fun c _ v => ih) h hdepth
  | case2 levels hsmall =>
    rcases levels with _ | _ | n
    · exact absurd hdepth (not_depth_le_zero h)
    · refine reads_readWith_of_isForm (fun c _ w hw hdepth => ?_) h hdepth
      exact absurd hdepth (not_depth_le_zero hw)
    · exact absurd rfl (hsmall n)

end Node

end IdlModel
