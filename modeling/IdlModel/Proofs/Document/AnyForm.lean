import IdlModel.Proofs.Document.Form
import IdlModel.Proofs.Document.RoundTrip

/-!
# Documents from any of their forms

Whatever form a document is in, what has been found of it behind some members is told by the keys of
these members, so the order of the members plays no part. Attributes, methods and bodies are taken
apart from values (`Decode.toMethod_of_isForm`). The members of a declaration are read as values
first, all but the kind, which may be any of them; with the kind left out they still fit
(`Json.Fits.filter`), and are taken apart like those of other records
(`Declaration.reads_of_isForm`).
-/

namespace IdlModel

open Json (MemberSlot Fits ifRead ifRead_append_of_ne ifRead_of_mem getD_ifRead)

/-! ## Values taken apart -/

namespace Decode

variable {α : Type} {slots : List MemberSlot} {before after ms : List (String × Json)}
  {m : String × Json} {key : String}

theorem once_ifRead {x : Result α} {a : α} (hkey : key ∉ before.map Prod.fst) (hm : m.1 = key)
    (h : x = .ok a) : once key (ifRead key before a) x = .ok (ifRead key (before ++ [m]) a) := by
  rw [Json.ifRead_of_not_mem hkey, Json.ifRead_append_of_eq hm, h]
  rfl

theorem once_string {s : String} (h : Fits slots (before ++ m :: after))
    (hslot : .string key s ∈ slots) (hm : m.1 = key) :
    once key (ifRead key before s) (string m.2) = .ok (ifRead key (before ++ [m]) s) := by
  obtain ⟨hkey, hv⟩ := h.of_split hslot hm
  exact once_ifRead hkey hm (by rw [Option.some.inj hv]; rfl)

theorem typeRef_of_isForm {t : TypeRef} {v : Json} (h : t.IsForm v) : typeRef v = .ok t := by
  rw [h]
  rfl

theorem once_typeRef {t : TypeRef} (h : Fits slots (before ++ m :: after))
    (hslot : .string key t.text ∈ slots) (hm : m.1 = key) :
    once key (ifRead key before t) (typeRef m.2) = .ok (ifRead key (before ++ [m]) t) := by
  obtain ⟨hkey, hv⟩ := h.of_split hslot hm
  exact once_ifRead hkey hm (by rw [Option.some.inj hv]; rfl)

theorem comment_of_holds {c : Option String} {v : Json} (h : (MemberSlot.comment c).holds (some v)) :
    comment v = .ok c := by
  obtain h | ⟨rfl, h⟩ := h
  · cases c with
    | none => cases h
    | some c =>
      obtain rfl := Option.some.inj h
      rfl
  · obtain rfl := Option.some.inj h
    rfl

theorem once_comment {c : Option String} (h : Fits slots (before ++ m :: after))
    (hslot : .comment c ∈ slots) (hm : m.1 = "comment") :
    once "comment" (ifRead "comment" before c) (comment m.2) =
      .ok (ifRead "comment" (before ++ [m]) c) := by
  obtain ⟨hkey, hv⟩ := h.of_split hslot hm
  exact once_ifRead hkey hm (comment_of_holds hv)

theorem list_of_holds {item : Json → Result α} {form : α → Json → Prop} {as : List α} {v : Json}
    (h : (MemberSlot.list key (as.map form)).holds (some v))
    (hitem : ∀ a v, form a v → item v = .ok a) : list item v = .ok as := by
  obtain ⟨vs, hvs, hforms⟩ | ⟨-, hnone⟩ := h
  · obtain rfl := Option.some.inj hvs
    rw [List.forall₂_map_left_iff] at hforms
    show vs.mapM item = .ok as
    clear hvs
    induction hforms with
    | nil => rfl
    | cons hv _ ih =>
      rw [List.mapM_cons, hitem _ _ hv, ih]
      rfl
  · cases hnone

theorem once_list {item : Json → Result α} {form : α → Json → Prop} {as : List α}
    (h : Fits slots (before ++ m :: after)) (hslot : .list key (as.map form) ∈ slots)
    (hm : m.1 = key) (hitem : ∀ a v, form a v → item v = .ok a) :
    once key (ifRead key before as) (list item m.2) = .ok (ifRead key (before ++ [m]) as) := by
  obtain ⟨hkey, hv⟩ := h.of_split hslot hm
  exact once_ifRead hkey hm (list_of_holds hv hitem)

theorem required_ifRead {a : α} (h : key ∈ ms.map Prod.fst) :
    required key (ifRead key ms a) = .ok a := by
  rw [ifRead_of_mem h]
  rfl

/-! ### Attributes -/

/-- What has been found of an attribute behind some of its members. -/
def AttributeDraft.read (a : Attribute) (ms : List (String × Json)) : AttributeDraft where
  name := ifRead "name" ms a.name
  type := ifRead "type_ref" ms a.type
  comment := ifRead "comment" ms a.comment

theorem attributeMember_read {a : Attribute} (h : Fits a.slots (before ++ m :: after)) :
    attributeMember m.1 m.2 (.read a before) = .ok (.read a (before ++ [m])) := by
  unfold attributeMember
  split
  · next hm =>
    have hname := once_string h (.head _) hm
    simp [AttributeDraft.read, ifRead_append_of_ne, hm, hname]
  · next hm =>
    have htype := once_typeRef h (.tail _ (.head _)) hm
    simp [AttributeDraft.read, ifRead_append_of_ne, hm, htype]
  · next hm =>
    have hcomment := once_comment h (.tail _ (.tail _ (.head _))) hm
    simp [AttributeDraft.read, ifRead_append_of_ne, hm, hcomment]
  · next hname htype hcomment =>
    simp only [AttributeDraft.read, ifRead_append_of_ne hname, ifRead_append_of_ne htype,
      ifRead_append_of_ne hcomment]
    rfl

theorem toAttribute_of_isForm {a : Attribute} {v : Json} (h : a.IsForm v) :
    toAttribute v = .ok a := by
  obtain ⟨ms, rfl, hfits⟩ := h.exists_fits a.nodup_slots
  have hparts : attributeRecord.parts {} (.object ms) = .ok (.read a ms) :=
    Json.foldlM_of_splits (AttributeDraft.read a) fun before m after hms =>
      attributeMember_read (hms ▸ hfits)
  have hname := required_ifRead (a := a.name) (hfits.string_mem (.head _))
  have htype := required_ifRead (a := a.type) (hfits.string_mem (.tail _ (.head _)))
  have hcomment := getD_ifRead (hfits.comment_eq_none (.tail _ (.tail _ (.head _))))
  rw [toAttribute, hparts]
  show (required "name" (ifRead "name" ms a.name) >>= fun name =>
    required "type_ref" (ifRead "type_ref" ms a.type) >>= fun type =>
      (.ok { name, type, comment := (ifRead "comment" ms a.comment).getD none } :
        Result Attribute)) = _
  rw [hname, htype, hcomment]
  rfl

/-! ### Methods -/

/-- What has been found of a method behind some of its members. -/
def MethodDraft.read (n : Method) (ms : List (String × Json)) : MethodDraft where
  name := ifRead "name" ms n.name
  comment := ifRead "comment" ms n.comment
  returnType := ifRead "return_type" ms n.returnType
  parameters := ifRead "parameters" ms n.parameters
  exceptions := ifRead "exceptions" ms n.exceptions

theorem methodMember_read {n : Method} (h : Fits n.slots (before ++ m :: after)) :
    methodMember m.1 m.2 (.read n before) = .ok (.read n (before ++ [m])) := by
  unfold methodMember
  split
  · next hm =>
    have hname := once_string h (.head _) hm
    simp [MethodDraft.read, ifRead_append_of_ne, hm, hname]
  · next hm =>
    have hcomment := once_comment h (.tail _ (.head _)) hm
    simp [MethodDraft.read, ifRead_append_of_ne, hm, hcomment]
  · next hm =>
    have hreturn := once_typeRef h (.tail _ (.tail _ (.head _))) hm
    simp [MethodDraft.read, ifRead_append_of_ne, hm, hreturn]
  · next hm =>
    have hparameters := once_list h (.tail _ (.tail _ (.tail _ (.head _)))) hm
      fun _ _ => toAttribute_of_isForm
    simp [MethodDraft.read, ifRead_append_of_ne, hm, hparameters]
  · next hm =>
    have hexceptions := once_list h (.tail _ (.tail _ (.tail _ (.tail _ (.head _))))) hm
      fun _ _ => typeRef_of_isForm
    simp [MethodDraft.read, ifRead_append_of_ne, hm, hexceptions]
  · next hname hcomment hreturn hparameters hexceptions =>
    simp only [MethodDraft.read, ifRead_append_of_ne hname, ifRead_append_of_ne hcomment,
      ifRead_append_of_ne hreturn, ifRead_append_of_ne hparameters,
      ifRead_append_of_ne hexceptions]
    rfl

theorem toMethod_of_isForm {n : Method} {v : Json} (h : n.IsForm v) : toMethod v = .ok n := by
  obtain ⟨ms, rfl, hfits⟩ := h.exists_fits n.nodup_slots
  have hparts : methodRecord.parts {} (.object ms) = .ok (.read n ms) :=
    Json.foldlM_of_splits (MethodDraft.read n) fun before m after hms =>
      methodMember_read (hms ▸ hfits)
  have hname := required_ifRead (a := n.name) (hfits.string_mem (.head _))
  have hcomment := getD_ifRead (hfits.comment_eq_none (.tail _ (.head _)))
  have hreturn := required_ifRead (a := n.returnType) (hfits.string_mem (.tail _ (.tail _ (.head _))))
  have hparameters : (ifRead "parameters" ms n.parameters).getD [] = n.parameters :=
    getD_ifRead fun habsent =>
      List.map_eq_nil_iff.1 (hfits.list_eq_nil (.tail _ (.tail _ (.tail _ (.head _)))) habsent)
  have hexceptions : (ifRead "exceptions" ms n.exceptions).getD [] = n.exceptions :=
    getD_ifRead fun habsent => List.map_eq_nil_iff.1
      (hfits.list_eq_nil (.tail _ (.tail _ (.tail _ (.tail _ (.head _))))) habsent)
  rw [toMethod, hparts]
  show (required "name" (ifRead "name" ms n.name) >>= fun name =>
    required "return_type" (ifRead "return_type" ms n.returnType) >>= fun returnType =>
      (.ok {
        name
        comment := (ifRead "comment" ms n.comment).getD none
        returnType
        parameters := (ifRead "parameters" ms n.parameters).getD []
        exceptions := (ifRead "exceptions" ms n.exceptions).getD [] } : Result Method)) = _
  rw [hname, hreturn, hcomment, hparameters, hexceptions]
  rfl

/-! ### Declarations -/

theorem body_of_holds {b : Body} {v : Json} (h : (MemberSlot.list key b.itemForms).holds (some v)) :
    body b.kind v = .ok b := by
  cases b with
  | enum values =>
    have hitem : ∀ (s : String) (v : Json), v = .string s → string v = .ok s := by
      rintro s v rfl
      rfl
    rw [Body.kind, body, list_of_holds h hitem]
    rfl
  | struct attributes | exception attributes =>
    rw [Body.kind, body, list_of_holds h fun _ _ => toAttribute_of_isForm]
    rfl
  | service methods =>
    rw [Body.kind, body, list_of_holds h fun _ _ => toMethod_of_isForm]
    rfl

theorem eq_empty_of_itemForms {b : Body} (h : b.itemForms = []) : b = .empty b.kind := by
  cases b <;>
  · rw [List.map_eq_nil_iff.1 h]
    rfl

/-- What has been found of a declaration behind some of its members. -/
def DeclarationDraft.read (d : Declaration) (ms : List (String × Json)) : DeclarationDraft where
  name := ifRead "name" ms d.name
  comment := ifRead "comment" ms d.comment
  body := ifRead (listKey d.kind) ms d.body

theorem declarationMember_read {d : Declaration} (h : Fits d.otherSlots (before ++ m :: after)) :
    declarationMember d.kind m.1 m.2 (.read d before) = .ok (.read d (before ++ [m])) := by
  obtain ⟨hlist, hlist'⟩ := listKey_ne d.kind
  unfold declarationMember
  by_cases hname : m.1 = "name"
  · have honce := once_string h (.head _) hname
    simp [DeclarationDraft.read, ifRead_append_of_ne, hname, honce, hlist.symm]
  by_cases hcomment : m.1 = "comment"
  · have honce := once_comment h (.tail _ (.head _)) hcomment
    simp [DeclarationDraft.read, ifRead_append_of_ne, hcomment, honce, hlist'.symm]
  by_cases hbody : m.1 = listKey d.kind
  · obtain ⟨hkey, hv⟩ := h.of_split (.tail _ (.tail _ (.head _))) hbody
    have honce : once (listKey d.kind) (ifRead (listKey d.kind) before d.body)
        (body d.kind m.2) = .ok (ifRead (listKey d.kind) (before ++ [m]) d.body) :=
      once_ifRead hkey hbody (body_of_holds hv)
    simp [DeclarationDraft.read, ifRead_append_of_ne, hbody, honce, hlist, hlist']
  · rw [if_neg hname, if_neg hcomment, if_neg hbody]
    simp only [DeclarationDraft.read, ifRead_append_of_ne hname, ifRead_append_of_ne hcomment,
      ifRead_append_of_ne hbody]
    rfl

theorem toDeclaration_of_fits {d : Declaration} (h : Fits d.otherSlots ms) :
    toDeclaration d.kind (.object ms) = .ok d := by
  have hparts : (declarationRecord d.kind).parts {} (.object ms) = .ok (.read d ms) :=
    Json.foldlM_of_splits (DeclarationDraft.read d) fun before m after hms =>
      declarationMember_read (hms ▸ h)
  have hname := required_ifRead (a := d.name) (h.string_mem (.head _))
  have hcomment := getD_ifRead (h.comment_eq_none (.tail _ (.head _)))
  have hbody : (ifRead (listKey d.kind) ms d.body).getD (.empty d.kind) = d.body :=
    getD_ifRead fun habsent =>
      eq_empty_of_itemForms (h.list_eq_nil (.tail _ (.tail _ (.head _))) habsent)
  rw [toDeclaration, hparts]
  show (required "name" (ifRead "name" ms d.name) >>= fun name =>
    (.ok {
      name
      comment := (ifRead "comment" ms d.comment).getD none
      body := (ifRead (listKey d.kind) ms d.body).getD (.empty d.kind) } :
        Result Declaration)) = _
  rw [hname, hcomment, hbody]
  rfl

end Decode

/-! ## Reading -/

open Json.Reader

variable {levels : Nat} {before after ms : List (String × Json)} {m : String × Json}

namespace Declaration

/-- What has been read of a declaration behind some of its members. -/
def Draft.read (d : Declaration) (ms : List (String × Json)) : Draft where
  kind := ifRead "kind" ms d.kind
  others := (ms.filter (·.1 ≠ "kind")).reverse

theorem reads_readMember_of_fits {d : Declaration} (h : Fits d.slots (before ++ m :: after))
    (hm : m.2.Readable levels) : Reads (readMember levels m.1 (.read d before))
      (.colon :: m.2.toTokens) (.ok (.read d (before ++ [m]))) := by
  by_cases hkey : m.1 = "kind"
  · obtain ⟨hnew, hv⟩ := h.of_split (.head _) hkey
    have htokens : m.2.toTokens = [.string (.ok d.kind.keyword)] := by
      rw [Option.some.inj hv, Json.toTokens]
    have hread := (reads_once_ifRead hnew hkey (reads_readKind d.kind)).map fun kind =>
      { Draft.read d before with kind }
    have hfound : Draft.read d (before ++ [m]) =
        { Draft.read d before with kind := ifRead "kind" (before ++ [m]) d.kind } := by
      simp [Draft.read, hkey]
    rw [htokens, hkey, readMember, if_pos rfl, hfound]
    exact hread
  · have hfound : Draft.read d (before ++ [m]) =
        { Draft.read d before with others := m :: (Draft.read d before).others } := by
      simp [Draft.read, ifRead_append_of_ne hkey, hkey]
    rw [hfound]
    exact reads_readMember hkey hm (.read d before)

/-- A declaration is read from any of its forms. The kind is taken out, wherever it stands, and the
other members are taken apart once it is known. -/
theorem reads_of_isForm {d : Declaration} {v : Json} (h : d.IsForm v) (hdepth : v.depth ≤ levels) :
    Reads (reader levels) v.toTokens (.ok d) := by
  obtain ⟨ms, rfl, hfits⟩ := h.exists_fits d.nodup_slots
  obtain ⟨levels, rfl⟩ : ∃ n, levels = n + 1 := ⟨levels - 1, by rw [Json.depth] at hdepth; omega⟩
  have hgather : Gathers (readMember levels) true {} ms (.ok (.read d ms)) :=
    .of_fits (Draft.read d) hfits d.numberFree_of_slots (Nat.le_of_succ_le_succ hdepth)
      fun _ _ _ => reads_readMember_of_fits
  have hkind := Decode.required_ifRead (a := d.kind) (hfits.string_mem (.head _))
  have hclosed : Reads (do
      let kind ← ofExcept (Decode.required "kind" (Draft.read d ms).kind)
      close .curly
      pure (kind, Json.object (Draft.read d ms).others.reverse)) [.closing .curly]
      (.ok (d.kind, .object (ms.filter (·.1 ≠ "kind")))) := by
    have hothers : (Draft.read d ms).others.reverse = ms.filter (·.1 ≠ "kind") :=
      List.reverse_reverse _
    rw [hothers]
    exact (reads_ofExcept hkind).bind_ok (reads_closed _)
  have htagged : Reads (readTagged (levels + 1)) (Json.object ms).toTokens
      (.ok (d.kind, .object (ms.filter (·.1 ≠ "kind")))) := by
    rw [Json.toTokens]
    exact (reads_opening .curly).bind_ok
      (reads_spending (levels + 1) (reads_members_ok hgather hclosed))
  have hothers : Fits d.otherSlots (ms.filter (·.1 ≠ "kind")) :=
    hfits.filter (List.nodup_cons.1 d.nodup_slots).1
  have hread : Reads (reader (levels + 1)) ((Json.object ms).toTokens ++ []) (.ok d) :=
    htagged.bind_ok (reads_ofExcept (Decode.toDeclaration_of_fits hothers))
  rwa [List.append_nil] at hread

end Declaration

namespace Document

/-- What has been read of a document behind some of its members. -/
def Draft.read (d : Document) (ms : List (String × Json)) : Draft where
  name := ifRead "name" ms d.name
  declarations := ifRead "declarations" ms d.declarations

theorem reads_readMember_of_fits {d : Document} (h : Fits d.slots (before ++ m :: after))
    (hm : m.2.Readable levels) : Reads (readMember levels m.1 (.read d before))
      (.colon :: m.2.toTokens) (.ok (.read d (before ++ [m]))) := by
  unfold readMember
  split
  · next hkey =>
    have hread := (reads_once_string h (.head _) hkey).map fun name =>
      { Draft.read d before with name }
    have hfound : Draft.read d (before ++ [m]) =
        { Draft.read d before with name := ifRead "name" (before ++ [m]) d.name } := by
      simp [Draft.read, ifRead_append_of_ne, hkey]
    rw [hfound, hkey]
    exact hread
  · next hkey =>
    obtain ⟨hnew, hv⟩ := h.of_split (.tail _ (.head _)) hkey
    have hdeclarations : Reads (readDeclarations levels) m.2.toTokens (.ok d.declarations) :=
      reads_list_of_holds hv hm.depth_le (fun _ _ => Declaration.numberFree_of_isForm)
        fun _ _ _ => Declaration.reads_of_isForm
    have hread := (reads_once_ifRead hnew hkey hdeclarations).map fun declarations =>
      { Draft.read d before with declarations }
    have hfound : Draft.read d (before ++ [m]) = { Draft.read d before with
        declarations := ifRead "declarations" (before ++ [m]) d.declarations } := by
      simp [Draft.read, ifRead_append_of_ne, hkey]
    rw [hfound, hkey]
    exact hread
  · next hname hdeclarations =>
    have hfound : Draft.read d (before ++ [m]) = Draft.read d before := by
      simp only [Draft.read, ifRead_append_of_ne hname, ifRead_append_of_ne hdeclarations]
    rw [hfound]
    exact reads_colon.bind_ok ((reads_skipValue hm.numberFree).map fun _ => Draft.read d before)

/-- A document is read from any of its forms. -/
theorem reads_of_isForm {d : Document} {v : Json} (h : d.IsForm v) (hdepth : v.depth ≤ levels) :
    Reads (reader levels) v.toTokens (.ok d) := by
  obtain ⟨ms, rfl, hfits⟩ := h.exists_fits d.nodup_slots
  obtain ⟨levels, rfl⟩ : ∃ n, levels = n + 1 := ⟨levels - 1, by rw [Json.depth] at hdepth; omega⟩
  have hgather : Gathers (readMember levels) true {} ms (.ok (.read d ms)) :=
    .of_fits (Draft.read d) hfits d.numberFree_of_slots (Nat.le_of_succ_le_succ hdepth)
      fun _ _ _ => reads_readMember_of_fits
  have hname := Decode.required_ifRead (a := d.name) (hfits.string_mem (.head _))
  have hdeclarations : (ifRead "declarations" ms d.declarations).getD [] = d.declarations :=
    getD_ifRead fun habsent =>
      List.map_eq_nil_iff.1 (hfits.list_eq_nil (.tail _ (.head _)) habsent)
  have hdocument : (Draft.read d ms).document = .ok d := by
    show (Decode.required "name" (ifRead "name" ms d.name) >>= fun name =>
      (.ok { name, declarations := (ifRead "declarations" ms d.declarations).getD [] } :
        Except Json.Mismatch Document)) = _
    rw [hname, hdeclarations]
    rfl
  have hclosed : Reads (do
      let document ← ofExcept (Draft.read d ms).document
      close .curly
      pure document) [.closing .curly] (.ok d) :=
    (reads_ofExcept hdocument).bind_ok (reads_closed d)
  rw [Json.toTokens]
  exact (reads_opening .curly).bind_ok
    (reads_spending (levels + 1) (reads_members_ok hgather hclosed))

end Document

end IdlModel
