import IdlModel.Proofs.Comment.Layout
import IdlModel.Proofs.Document.Uncommented
import IdlModel.Proofs.Text.Section

/-!
# Names and types that can be read

A document is `Legible` if its names are words, its types free of white space and commas, and its
comments as normalizing leaves them. Then a line of the outline tells what it was made from: an
attribute by its name and type (`Outline.typed_inj`), and a method by its signature
(`Outline.signature_inj`), but for comments.

A type may hold brackets, colons and arrows. So the types of parameters are cut at the spaces behind
them, and the comma or the bracket that is joined to a type tells whether it is the last one.
-/

namespace IdlModel

/-! ## Documents that can be read -/

namespace Text

/-- The text is made of letters, digits and underscores. -/
def IsWord (s : String) : Prop :=
  ∀ c ∈ s.toList, c.isAlphanum = true ∨ c = '_'

/-- The text holds neither white space nor a comma. -/
def IsSolid (s : String) : Prop :=
  ∀ c ∈ s.toList, isBlank c = false ∧ c ≠ ','

instance (s : String) : Decidable (IsWord s) :=
  List.decidableBAll _ s.toList

instance (s : String) : Decidable (IsSolid s) :=
  List.decidableBAll _ s.toList

end Text

/-- The name of an attribute is a word, and its type has neither white space nor a comma. -/
def Attribute.Legible (a : Attribute) : Prop :=
  Text.IsWord a.name ∧ Text.IsSolid a.type.text

/-- A comment as normalizing leaves it, if something is left of it. -/
def Comment.Legible (comment : Option String) : Prop :=
  ∀ text ∈ comment, text ≠ "" ∧ Comment.Neat text.toList

/-- What a method must be like; the comments of its parameters do not matter. -/
structure Method.Legible (m : Method) : Prop where
  name : Text.IsWord m.name
  comment : Comment.Legible m.comment
  returnType : Text.IsSolid m.returnType.text
  parameters : ∀ a ∈ m.parameters, a.Legible
  exceptions : ∀ t ∈ m.exceptions, Text.IsSolid t.text

/-- What the values, attributes or methods of a declaration must be like. -/
def Body.Legible : Body → Prop
  | .enum vs => ∀ v ∈ vs, Text.IsWord v
  | .struct as | .exception as => ∀ a ∈ as, a.Legible ∧ Comment.Legible a.comment
  | .service ms => ∀ m ∈ ms, m.Legible

structure Declaration.Legible (d : Declaration) : Prop where
  name : Text.IsWord d.name
  comment : Comment.Legible d.comment
  body : d.body.Legible

/-- The name of the document stays on its line, its other names are words, its types are free of
white space and commas, and the comments that an outline shows are as normalizing leaves them. -/
structure Document.Legible (d : Document) : Prop where
  name : '\n' ∉ d.name.toList
  declarations : ∀ e ∈ d.declarations, e.Legible

instance (a : Attribute) : Decidable a.Legible :=
  inferInstanceAs (Decidable (_ ∧ _))

instance (comment : Option String) : Decidable (Comment.Legible comment) :=
  inferInstanceAs (Decidable (∀ text ∈ comment, _))

instance (m : Method) : Decidable m.Legible :=
  decidable_of_iff (Text.IsWord m.name ∧ Comment.Legible m.comment ∧
      Text.IsSolid m.returnType.text ∧ (∀ a ∈ m.parameters, a.Legible) ∧
      ∀ t ∈ m.exceptions, Text.IsSolid t.text)
    ⟨fun ⟨h₁, h₂, h₃, h₄, h₅⟩ => ⟨h₁, h₂, h₃, h₄, h₅⟩,
      fun ⟨h₁, h₂, h₃, h₄, h₅⟩ => ⟨h₁, h₂, h₃, h₄, h₅⟩⟩

instance : (b : Body) → Decidable b.Legible
  | .enum vs => inferInstanceAs (Decidable (∀ v ∈ vs, Text.IsWord v))
  | .struct as | .exception as =>
    inferInstanceAs (Decidable (∀ a ∈ as, a.Legible ∧ Comment.Legible a.comment))
  | .service ms => inferInstanceAs (Decidable (∀ m ∈ ms, m.Legible))

instance (d : Declaration) : Decidable d.Legible :=
  decidable_of_iff (Text.IsWord d.name ∧ Comment.Legible d.comment ∧ d.body.Legible)
    ⟨fun ⟨h₁, h₂, h₃⟩ => ⟨h₁, h₂, h₃⟩, fun ⟨h₁, h₂, h₃⟩ => ⟨h₁, h₂, h₃⟩⟩

instance (d : Document) : Decidable d.Legible :=
  decidable_of_iff ('\n' ∉ d.name.toList ∧ ∀ e ∈ d.declarations, e.Legible)
    ⟨fun ⟨h₁, h₂⟩ => ⟨h₁, h₂⟩, fun ⟨h₁, h₂⟩ => ⟨h₁, h₂⟩⟩

/-! ## Documents without the comments of parameters -/

def Method.withoutParameterComments (m : Method) : Method :=
  { m with parameters := m.parameters.map Attribute.uncommented }

def Body.withoutParameterComments : Body → Body
  | .service ms => .service (ms.map Method.withoutParameterComments)
  | b => b

def Declaration.withoutParameterComments (d : Declaration) : Declaration :=
  { d with body := d.body.withoutParameterComments }

/-- The document without the comments of parameters, which an outline does not show. -/
def Document.withoutParameterComments (d : Document) : Document :=
  { d with declarations := d.declarations.map Declaration.withoutParameterComments }

/-! ## Words and types -/

namespace Text

theorem IsWord.not_mem {s : String} (h : IsWord s) {c : Char}
    (hc : (c.isAlphanum || c == '_') = false) : c ∉ s.toList := by
  intro hmem
  rcases h c hmem with halpha | rfl
  · rw [halpha] at hc
    cases hc
  · cases hc

/-- No character of a word is one that ends it. -/
theorem IsWord.ne_of_mem {s : String} (h : IsWord s) {c : Char}
    (hc : (c.isAlphanum || c == '_') = false) : ∀ d ∈ s.toList, d ≠ c :=
  fun _ hd heq => h.not_mem hc (heq ▸ hd)

theorem IsSolid.not_mem {s : String} (h : IsSolid s) {c : Char} (hc : isBlank c = true) :
    c ∉ s.toList := by
  intro hmem
  rw [(h c hmem).1] at hc
  cases hc

theorem IsSolid.comma_not_mem {s : String} (h : IsSolid s) : ',' ∉ s.toList :=
  fun hmem => (h ',' hmem).2 rfl

/-- A word does not begin as a comment does. -/
theorem IsWord.isNote_eq_false {s : String} (h : IsWord s) :
    Outline.isNote s.toList = false := by
  refine Bool.eq_false_iff.2 fun hnote => ?_
  have hslashes : ['/', '/'] <+: s.toList.dropWhile (· == ' ') := List.isPrefixOf_iff_prefix.1 hnote
  have hslash : '/' ∈ s.toList :=
    (List.dropWhile_suffix _).subset (hslashes.subset List.mem_cons_self)
  exact h.not_mem (by decide) hslash

end Text

namespace Outline

open Text

/-! ## Within a line -/

theorem toList_typed (a : Attribute) :
    (typed a).toList = a.name.toList ++ ':' :: ' ' :: a.type.text.toList := by
  simp [typed]

/-- A name and a type tell the attribute, its comment apart. -/
theorem typed_inj {a b : Attribute} (ha : a.Legible) (hb : b.Legible) (h : typed a = typed b) :
    a.uncommented = b.uncommented := by
  rw [← String.toList_inj, toList_typed, toList_typed] at h
  obtain ⟨hname, hrest⟩ := append_inj_of_head? (ha.1.ne_of_mem (c := ':') (by decide))
    (hb.1.ne_of_mem (by decide)) (by simp) (by simp) h
  have htype : a.type.text = b.type.text := by
    simpa [String.toList_inj] using hrest
  obtain ⟨name, ⟨type⟩, comment⟩ := a
  obtain ⟨name', ⟨type'⟩, comment'⟩ := b
  cases String.toList_inj.1 hname
  cases htype
  rfl

/-- The parameters of a method behind the opening bracket, up to the space behind the closing one. -/
def parametersText (ps : List Attribute) : List Char :=
  ", ".toList.intercalate (ps.map fun a => (typed a).toList) ++ [')']

/-- The first of some parameters, up to the space behind its type, to which the comma or the bracket
is joined. -/
theorem parametersText_cons (a : Attribute) (ps : List Attribute) (rest : List Char) :
    parametersText (a :: ps) ++ ' ' :: rest =
      a.name.toList ++ ':' :: ' ' :: ((a.type.text.toList ++ [if ps = [] then ')' else ',']) ++
        ' ' :: if ps = [] then rest else parametersText ps ++ ' ' :: rest) := by
  cases ps with
  | nil => simp [parametersText, toList_typed]
  | cons b bs => simp [parametersText, toList_typed, List.intercalate_cons_cons]

/-- Parameters are told apart by their names and types, and end at their bracket. A type may hold a
bracket of its own, so it is cut at the space behind it. -/
theorem parametersText_inj {ps qs : List Attribute} (hps : ∀ a ∈ ps, a.Legible)
    (hqs : ∀ a ∈ qs, a.Legible) {us vs : List Char}
    (h : parametersText ps ++ ' ' :: us = parametersText qs ++ ' ' :: vs) :
    ps.map Attribute.uncommented = qs.map Attribute.uncommented ∧ us = vs := by
  have hcolon {w : String} (hw : IsWord w) : ∀ c ∈ w.toList, c ≠ ':' ∧ c ≠ ')' := fun c hc =>
    ⟨hw.ne_of_mem (by decide) c hc, hw.ne_of_mem (by decide) c hc⟩
  have hspace {t : String} {x : Char} (ht : IsSolid t) (hx : x ≠ ' ') :
      ∀ c ∈ t.toList ++ [x], c ≠ ' ' := by
    intro c hc heq
    rcases List.mem_append.1 hc with hc | hc
    · exact ht.not_mem (by decide) (heq ▸ hc)
    · exact hx ((List.mem_singleton.1 hc).symm.trans heq)
  have hnone : parametersText [] = [')'] := rfl
  induction ps generalizing qs with
  | nil =>
    cases qs with
    | nil => exact ⟨rfl, (List.cons.inj (List.append_cancel_left h)).2⟩
    | cons b qs =>
      rw [List.forall_mem_cons] at hqs
      rw [parametersText_cons, hnone] at h
      obtain ⟨-, hrest⟩ := @append_inj_of_head? _ _ [] _ _ _ nofun (hcolon hqs.1.1) (by simp)
        (by simp) h
      simp at hrest
  | cons a ps ih =>
    rw [List.forall_mem_cons] at hps
    cases qs with
    | nil =>
      rw [parametersText_cons, hnone] at h
      obtain ⟨-, hrest⟩ := @append_inj_of_head? _ _ _ [] _ _ (hcolon hps.1.1) nofun (by simp)
        (by simp) h
      simp at hrest
    | cons b qs =>
      rw [List.forall_mem_cons] at hqs
      rw [parametersText_cons, parametersText_cons] at h
      obtain ⟨hname, hrest⟩ := append_inj_of_head? (hcolon hps.1.1) (hcolon hqs.1.1) (by simp)
        (by simp) h
      obtain ⟨htype, hrest⟩ := append_inj_of_head? (hspace hps.1.2 (by split <;> decide))
        (hspace hqs.1.2 (by split <;> decide)) (by simp) (by simp)
        (List.cons.inj (List.cons.inj hrest).2).2
      obtain ⟨htype, hmark⟩ := List.append_inj' htype rfl
      have hfirst : a.uncommented = b.uncommented := by
        refine typed_inj hps.1 hqs.1 ?_
        rw [← String.toList_inj, toList_typed, toList_typed, hname, htype]
      -- the comma or the bracket tells whether there are more parameters
      by_cases hnil : ps = []
      · rw [if_pos hnil, List.cons.injEq] at hmark
        have hnil' : qs = [] := by
          by_contra hne
          rw [if_neg hne] at hmark
          exact absurd hmark.1 (by decide)
        rw [if_pos hnil, if_pos hnil'] at hrest
        rw [hnil, hnil', List.map_singleton, List.map_singleton, hfirst]
        exact ⟨rfl, (List.cons.inj hrest).2⟩
      · have hnil' : qs ≠ [] := by
          intro heq
          rw [if_neg hnil, if_pos heq] at hmark
          exact absurd (List.cons.inj hmark).1 (by decide)
        rw [if_neg hnil, if_neg hnil'] at hrest
        obtain ⟨hothers, hbehind⟩ := ih hps.2 hqs.2 (List.cons.inj hrest).2
        rw [List.map_cons, List.map_cons, hfirst, hothers]
        exact ⟨rfl, hbehind⟩

/-- What a method throws, behind the type that it returns. -/
def thrownText (ts : List TypeRef) : List Char :=
  if ts = [] then [] else " throws ".toList ++ ", ".toList.intercalate (ts.map (·.text.toList))

theorem thrownText_inj {ts us : List TypeRef} (hts : ∀ t ∈ ts, IsSolid t.text)
    (hus : ∀ u ∈ us, IsSolid u.text) (h : thrownText ts = thrownText us) : ts = us := by
  have hcomma {xs : List TypeRef} (hxs : ∀ x ∈ xs, IsSolid x.text) :
      ∀ cs ∈ xs.map (·.text.toList), ',' ∉ cs :=
    List.forall_mem_map.2 fun x hx => (hxs x hx).comma_not_mem
  have htext : Function.Injective fun t : TypeRef => t.text.toList := by
    rintro ⟨t⟩ ⟨u⟩ htu
    exact congrArg TypeRef.mk (String.toList_inj.1 htu)
  rw [thrownText, thrownText] at h
  by_cases hnil : ts = []
  · by_contra hne
    rw [if_pos hnil, if_neg fun hnil' => hne (hnil.trans hnil'.symm)] at h
    simp at h
  · by_cases hnil' : us = []
    · rw [if_neg hnil, if_pos hnil'] at h
      simp at h
    · rw [if_neg hnil, if_neg hnil'] at h
      have hmap := intercalate_inj (c := ',') (d := ' ') (by decide) (hcomma hts) (hcomma hus)
        (by simpa using hnil) (by simpa using hnil') (List.append_cancel_left h)
      exact htext.list_map hmap

theorem toList_signature (m : Method) :
    (signature m).toList = m.name.toList ++ '(' :: (parametersText m.parameters ++
      ' ' :: ('-' :: '>' :: ' ' :: (m.returnType.text.toList ++ thrownText m.exceptions))) := by
  have hparameters : (m.parameters.map typed).map String.toList =
      m.parameters.map fun a => (typed a).toList := List.map_map
  have hthrown : (m.exceptions.map TypeRef.text).map String.toList =
      m.exceptions.map (·.text.toList) := List.map_map
  simp only [signature, parametersText, thrownText, String.toList_append,
    String.toList_intercalate, hparameters]
  by_cases hnil : m.exceptions = []
  · simp [hnil]
  · rw [if_neg hnil, if_neg (by simpa using hnil), String.toList_append,
      String.toList_intercalate, hthrown]
    simp

/-- A signature tells everything about a method but comments. -/
theorem signature_inj {m n : Method} (hm : m.Legible) (hn : n.Legible)
    (h : signature m = signature n) : m.uncommented = n.uncommented := by
  have hspace {t : String} (ht : IsSolid t) : ∀ c ∈ t.toList, c ≠ ' ' := fun c hc heq =>
    ht.not_mem (by decide) (heq ▸ hc)
  have hthrown (ts : List TypeRef) : ∀ c ∈ (thrownText ts).head?, ¬ c ≠ ' ' := by
    rw [thrownText]
    split <;> simp
  rw [← String.toList_inj, toList_signature, toList_signature] at h
  obtain ⟨hname, hrest⟩ := append_inj_of_head? (hm.name.ne_of_mem (c := '(') (by decide))
    (hn.name.ne_of_mem (by decide)) (by simp) (by simp) h
  obtain ⟨hparameters, hrest⟩ := parametersText_inj hm.parameters hn.parameters
    (List.cons.inj hrest).2
  simp only [List.cons.injEq, true_and] at hrest
  obtain ⟨hreturn, hrest⟩ := append_inj_of_head? (hspace hm.returnType) (hspace hn.returnType)
    (hthrown _) (hthrown _) hrest
  have hexceptions := thrownText_inj hm.exceptions hn.exceptions hrest
  obtain ⟨name, comment, ⟨returnType⟩, parameters, exceptions⟩ := m
  obtain ⟨name', comment', ⟨returnType'⟩, parameters', exceptions'⟩ := n
  cases String.toList_inj.1 hname
  cases String.toList_inj.1 hreturn
  cases hexceptions
  rw [Method.uncommented, Method.uncommented, hparameters]

end Outline

end IdlModel
