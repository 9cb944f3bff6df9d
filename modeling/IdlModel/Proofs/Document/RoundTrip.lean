import IdlModel.Document.Format
import IdlModel.Document.Decode
import IdlModel.Proofs.Json.Reading

/-!
# Documents from their own JSON

A document is read back from the JSON form in which it is written out, in either layout
(`Document.ofJsonText_render`). The proof goes through the parts from the inside out: attributes,
methods and bodies as values (`Decode.toAttribute_toJson` and its companions), then declarations
and documents as tokens (`Declaration.reads_toJson`, `Document.reads_toJson`). No part of a
document nests deep enough to reach the limit of levels.
-/

namespace IdlModel

open Json (Reader)

/-! ## Values taken apart -/

namespace Decode

/-- A list of values of which each is taken apart again. -/
theorem list_map {α : Type} {item : Json → Result α} {f : α → Json}
    (h : ∀ a, item (f a) = .ok a) (as : List α) : list item (.array (as.map f)) = .ok as := by
  have hitem : item ∘ f = .ok := funext h
  rw [list, List.mapM_map, hitem]
  exact Json.mapM_ok as

theorem toAttribute_toJson (a : Attribute) : toAttribute a.toJson = .ok a := by
  obtain ⟨name, type, comment⟩ := a
  cases comment <;> rfl

theorem toMethod_toJson (m : Method) : toMethod m.toJson = .ok m := by
  have hparameters := list_map toAttribute_toJson m.parameters
  have hexceptions := list_map (fun t : TypeRef => (rfl : typeRef t.toJson = .ok t)) m.exceptions
  have hparts : methodRecord.parts {} m.toJson = .ok {
      name := some m.name
      comment := m.comment.map some
      returnType := some m.returnType
      parameters := some m.parameters
      exceptions := some m.exceptions } := by
    obtain ⟨name, comment, returnType, parameters, exceptions⟩ := m
    cases comment <;>
      simp [Record.parts, Method.toJson, Json.ofMembers, Json.member, commentMember, Json.member?,
        methodRecord, methodMember, once, hparameters, hexceptions] <;> rfl
  rw [toMethod, hparts]
  obtain ⟨name, comment, returnType, parameters, exceptions⟩ := m
  cases comment <;> rfl

/-- The member that a body is written as holds its list. -/
theorem exists_toMember (b : Body) : ∃ v, b.toMember = some (listKey b.kind, v) ∧
    body b.kind v = .ok b := by
  cases b with
  | enum values =>
    have h := list_map (fun s => (rfl : string (.string s) = .ok s)) values
    exact ⟨_, rfl, by rw [Body.kind, body, Json.ofStrings, h]; rfl⟩
  | struct attributes =>
    exact ⟨_, rfl, by rw [Body.kind, body, list_map toAttribute_toJson]; rfl⟩
  | exception attributes =>
    exact ⟨_, rfl, by rw [Body.kind, body, list_map toAttribute_toJson]; rfl⟩
  | service methods =>
    exact ⟨_, rfl, by rw [Body.kind, body, list_map toMethod_toJson]; rfl⟩

/-- The list of a declaration has a key of its own. -/
theorem listKey_ne (kind : DeclarationKind) :
    listKey kind ≠ "name" ∧ listKey kind ≠ "comment" := by
  cases kind <;> decide

/-- The list of a declaration, whatever has been found of it but the list. -/
theorem declarationMember_listKey {kind : DeclarationKind} {v : Json} {b : Body}
    (h : body kind v = .ok b) (d : DeclarationDraft) (hd : d.body = none) :
    declarationMember kind (listKey kind) v d = .ok { d with body := some b } := by
  obtain ⟨hname, hcomment⟩ := listKey_ne kind
  rw [declarationMember, if_neg hname, if_neg hcomment, if_pos rfl, h, hd]
  rfl

end Decode

/-- The members of a declaration other than its kind. -/
def Declaration.otherMembers (d : Declaration) : List (String × Json) :=
  [Json.member "name" (.string d.name), commentMember d.comment, d.body.toMember].filterMap id

theorem Declaration.toJson_eq (d : Declaration) :
    d.toJson = .object (("kind", .string d.kind.keyword) :: d.otherMembers) :=
  rfl

/-- A declaration is made of its kind and its other members. -/
theorem Decode.toDeclaration_otherMembers (d : Declaration) :
    toDeclaration d.kind (.object d.otherMembers) = .ok d := by
  obtain ⟨v, hmember, hbody⟩ := exists_toMember d.body
  have hparts : (declarationRecord d.kind).parts {} (.object d.otherMembers) = .ok {
      name := some d.name
      comment := d.comment.map some
      body := some d.body } := by
    rw [Declaration.otherMembers, hmember]
    have h := declarationMember_listKey hbody
    obtain ⟨name, comment, b⟩ := d
    cases comment with
    | none =>
      show (declarationMember b.kind (listKey b.kind) v { name := some name } >>= pure) = _
      rw [h { name := some name } rfl]
      rfl
    | some c =>
      show (declarationMember b.kind (listKey b.kind) v
        { name := some name, comment := some (some c) } >>= pure) = _
      rw [h { name := some name, comment := some (some c) } rfl]
      rfl
  rw [toDeclaration, hparts]
  obtain ⟨name, comment, b⟩ := d
  cases comment <;> rfl

/-! ## No numbers, and few levels -/

theorem readable_commentMember (levels : Nat) (c : Option String) :
    ∀ m ∈ commentMember c, m.2.Readable levels := by
  intro m hm
  cases c with
  | none => cases hm
  | some c =>
    cases hm
    exact .string c

theorem Attribute.readable_toJson (a : Attribute) : a.toJson.Readable 1 := by
  refine .ofMembers ?_
  simp only [List.forall_mem_cons]
  exact ⟨.member (.string _) _, .member (.string _) _, readable_commentMember 0 _, nofun⟩

theorem Method.readable_toJson (m : Method) : m.toJson.Readable 3 := by
  refine .ofMembers ?_
  simp only [List.forall_mem_cons]
  exact ⟨.member (.string _) _, readable_commentMember 2 _, .member (.string _) _,
    .member (.list fun a _ => a.readable_toJson) _, .member (.list fun t _ => .string _) _, nofun⟩

theorem Body.readable_toMember (b : Body) : ∀ m ∈ b.toMember, m.2.Readable 4 := by
  cases b with
  | enum values => exact .member (.list fun s _ => .string s) _
  | struct attributes => exact .member (.list fun a _ => a.readable_toJson.mono (by decide)) _
  | exception attributes => exact .member (.list fun a _ => a.readable_toJson.mono (by decide)) _
  | service methods => exact .member (.list fun m _ => m.readable_toJson) _

theorem Declaration.readable_otherMembers (d : Declaration) :
    ∀ m ∈ d.otherMembers, m.2.Readable 4 := by
  rw [otherMembers, Json.forall_mem_filterMap_id]
  simp only [List.forall_mem_cons]
  exact ⟨.member (.string _) _, readable_commentMember 4 _, d.body.readable_toMember, nofun⟩

theorem Declaration.kind_not_mem_otherMembers (d : Declaration) :
    ∀ m ∈ d.otherMembers, m.1 ≠ "kind" := by
  obtain ⟨name, comment, b⟩ := d
  cases comment <;> cases b <;>
    simp [otherMembers, Json.member, Json.member?, commentMember, Body.toMember]

theorem Declaration.readable_toJson (d : Declaration) : d.toJson.Readable 5 := by
  rw [toJson_eq]
  exact .object (List.forall_mem_cons.2 ⟨.string _, d.readable_otherMembers⟩)

theorem Document.readable_toJson (d : Document) : d.toJson.Readable 7 := by
  refine .ofMembers ?_
  simp only [List.forall_mem_cons]
  exact ⟨.member (.string _) _, .member (.list fun d _ => d.readable_toJson) _, nofun⟩

/-! ## Reading -/

open Json.Reader

namespace Declaration

theorem reads_readKind (k : DeclarationKind) :
    Reads readKind [.string (.ok k.keyword)] (.ok k) := by
  have hhead : Reads head [.string (.ok k.keyword)] (.ok (.scalar (.string k.keyword))) :=
    reads_head rfl
  have hkind : Decode.kind k.keyword = .ok k := by
    rw [Decode.kind, DeclarationKind.ofKeyword?_keyword]
  exact hhead.bind_ok (reads_ofExcept hkind)

theorem reads_readMember {levels : Nat} {m : String × Json} (hkey : m.1 ≠ "kind")
    (h : m.2.Readable levels) (d : Draft) : Reads (readMember levels m.1 d)
      (.colon :: m.2.toTokens) (.ok { d with others := m :: d.others }) := by
  rw [readMember, if_neg hkey]
  exact reads_colon.bind_ok ((reads_value h).map fun v => { d with others := (m.1, v) :: d.others })

theorem foldl_others (ms : List (String × Json)) (d : Draft) :
    ms.foldl (fun d m => { d with others := m :: d.others }) d =
      { d with others := ms.reverse ++ d.others } := by
  induction ms generalizing d with
  | nil => rfl
  | cons m ms ih =>
    rw [List.foldl_cons, ih, List.reverse_cons, List.append_assoc]
    rfl

/-- The members of a declaration are kept for later, all but the kind. -/
theorem gathers_members (d : Declaration) {levels : Nat} (hlevels : 4 ≤ levels) :
    Gathers (readMember levels) true {} (("kind", .string d.kind.keyword) :: d.otherMembers)
      (.ok { kind := some d.kind, others := d.otherMembers.reverse }) := by
  have hkind : Reads (readMember levels "kind" {}) (.colon :: [.string (.ok d.kind.keyword)])
      (.ok { kind := some d.kind }) := by
    rw [readMember, if_pos rfl]
    exact (reads_once (reads_readKind d.kind)).map fun kind => ({ kind } : Draft)
  have hothers : Gathers (readMember levels) false { kind := some d.kind } (d.otherMembers.map id)
      (.ok (d.otherMembers.foldl (fun e m => { e with others := m :: e.others })
        { kind := some d.kind })) :=
    Gathers.foldl fun m hm e => reads_readMember (d.kind_not_mem_otherMembers m hm)
      ((d.readable_otherMembers m hm).mono hlevels) e
  rw [List.map_id, foldl_others, List.append_nil] at hothers
  exact Gathers.cons_ok hkind hothers

/-- A declaration is read from its own form, which takes five levels at most. -/
theorem reads_toJson (d : Declaration) {levels : Nat} (hlevels : 5 ≤ levels) :
    Reads (reader levels) d.toJson.toTokens (.ok d) := by
  obtain ⟨levels, rfl⟩ : ∃ n, levels = n + 1 := ⟨levels - 1, by omega⟩
  have hgather := d.gathers_members (Nat.le_of_succ_le_succ hlevels)
  have hclosed : Reads (do
      let kind ← ofExcept (Decode.required "kind" (some d.kind))
      close .curly
      pure (kind, Json.object d.otherMembers.reverse.reverse)) [.closing .curly]
      (.ok (d.kind, .object d.otherMembers)) := by
    rw [List.reverse_reverse]
    exact reads_closed _
  have htagged : Reads (readTagged (levels + 1)) d.toJson.toTokens
      (.ok (d.kind, .object d.otherMembers)) := by
    rw [toJson_eq, Json.toTokens]
    exact (reads_opening .curly).bind_ok
      (reads_spending (levels + 1) (reads_members_ok hgather hclosed))
  have hread : Reads (reader (levels + 1)) (d.toJson.toTokens ++ []) (.ok d) :=
    htagged.bind_ok (reads_ofExcept (Decode.toDeclaration_otherMembers d))
  rwa [List.append_nil] at hread

end Declaration

namespace Document

theorem reads_readDeclarations (ds : List Declaration) {levels : Nat} (hlevels : 6 ≤ levels) :
    Reads (readDeclarations levels) (Json.array (ds.map Declaration.toJson)).toTokens (.ok ds) := by
  obtain ⟨levels, rfl⟩ : ∃ n, levels = n + 1 := ⟨levels - 1, by omega⟩
  have hread := reads_list (levels + 1) (fun d _ => d.readable_toJson.numberFree)
    fun (d : Declaration) (_ : d ∈ ds) => d.reads_toJson (Nat.le_of_succ_le_succ hlevels)
  rw [Json.mapM_ok] at hread
  exact hread

theorem gathers_members (d : Document) {levels : Nat} (hlevels : 6 ≤ levels) :
    Gathers (readMember levels) true {}
      [("name", .string d.name), ("declarations", .array (d.declarations.map Declaration.toJson))]
      (.ok { name := some d.name, declarations := some d.declarations }) := by
  have hname : Reads (readMember levels "name" {}) (.colon :: [.string (.ok d.name)])
      (.ok { name := some d.name }) :=
    (reads_once (reads_string d.name)).map fun name => ({ name } : Draft)
  have hdeclarations : Reads (readMember levels "declarations" { name := some d.name })
      (.colon :: (Json.array (d.declarations.map Declaration.toJson)).toTokens)
      (.ok { name := some d.name, declarations := some d.declarations }) :=
    (reads_once (reads_readDeclarations d.declarations hlevels)).map fun declarations =>
      ({ name := some d.name, declarations } : Draft)
  exact .cons_ok hname (.cons_ok hdeclarations .nil)

/-- A document is read from its own form, which takes seven levels at most. -/
theorem reads_toJson (d : Document) {levels : Nat} (hlevels : 7 ≤ levels) :
    Reads (reader levels) d.toJson.toTokens (.ok d) := by
  obtain ⟨levels, rfl⟩ : ∃ n, levels = n + 1 := ⟨levels - 1, by omega⟩
  have hgather := d.gathers_members (Nat.le_of_succ_le_succ hlevels)
  exact (reads_opening .curly).bind_ok
    (reads_spending (levels + 1) (reads_members_ok hgather (reads_closed d)))

/-- A document is read back from the text it is written out as, over several lines or on one. An
absent comment, an empty one and an empty list all come back as they were. -/
theorem ofJsonText_render (d : Document) :
    ofJsonText (d.render .json) = .ok d ∧ ofJsonText (d.render .raw) = .ok d := by
  have hread : Reads (reader maxDepth) d.toJson.toTokens (.ok d) := d.reads_toJson (by decide)
  have hfree := d.readable_toJson.numberFree
  exact ⟨read_print hfree hread (.indented 0), read_print hfree hread .compact⟩

end Document

end IdlModel
