import IdlModel.Proofs.Load.Canonical
import IdlModel.Proofs.Load.Growth
import IdlModel.Proofs.Text.Trim

/-!
# Loaded documents are clean

Whatever a step adds to the texts of a document under construction is a part of the node that is
entered, trimmed, and something is left of it (`Sketch.mem_texts_of_enter`). So all names and types in
a loaded document are clean (`Document.clean_of_ofTree`). The name of the document itself comes from
the caller and may be any text.
-/

namespace IdlModel

theorem Node.clean_trimmedPart {n : Node} {p : Part} (h : n.HasPart p) :
    Text.Clean (n.trimmedPart p) := by
  refine ⟨(n.hasPart_iff p).1 h, ?_⟩
  obtain ⟨text, htext, -⟩ := h
  rw [trimmedPart, htext]
  exact Text.trimmed_trimmed text

/-! ## What a field adds -/

theorem Method.mem_texts_addParameter {m : Method} {a : Attribute} {t : String}
    (h : t ∈ (m.addParameter a).texts) : t ∈ m.texts ∨ t ∈ a.texts := by
  simp only [texts, addParameter, List.flatMap_append, List.flatMap_singleton, List.mem_cons,
    List.mem_append] at h ⊢
  tauto

theorem Method.mem_texts_addThrown {m : Method} {a : Attribute} {t : String}
    (h : t ∈ (m.addThrown a).texts) : t ∈ m.texts ∨ t ∈ a.texts := by
  simp only [texts, Attribute.texts, addThrown, List.map_append, List.map_cons, List.map_nil,
    List.mem_cons, List.mem_append] at h ⊢
  tauto

namespace Focus

/-- All names and types of what is open. -/
def texts (f : Focus) : List String :=
  f.declaration?.toList.flatMap Declaration.texts

theorem mem_texts_body {name : String} {comment : Option String} {b : Body} {t : String} :
    t ∈ (body ⟨name, comment, b⟩).texts ↔ t = name ∨ t ∈ b.texts := by
  simp [texts, declaration?, Declaration.texts]

theorem mem_texts_method {service : String} {comment : Option String} {earlier : List Method}
    {m : Method} {thrown : Bool} {t : String} :
    t ∈ (method service comment earlier m thrown).texts ↔
      t = service ∨ t ∈ earlier.flatMap Method.texts ∨ t ∈ m.texts := by
  simp [texts, declaration?, Declaration.texts, Body.texts]

theorem mem_texts_body_or {name : String} {comment : Option String} {b b' : Body} {t : String}
    {q : Prop} (hb : t ∈ b'.texts → t ∈ b.texts ∨ q) (h : t ∈ (body ⟨name, comment, b'⟩).texts) :
    t ∈ (body ⟨name, comment, b⟩).texts ∨ q := by
  rw [mem_texts_body] at h ⊢
  obtain h | h := h
  · exact .inl (.inl h)
  · exact (hb h).imp_left .inr

theorem mem_texts_method_or {service : String} {comment : Option String} {earlier : List Method}
    {m m' : Method} {thrown : Bool} {t : String} {q : Prop}
    (hm : t ∈ m'.texts → t ∈ m.texts ∨ q)
    (h : t ∈ (method service comment earlier m' thrown).texts) :
    t ∈ (method service comment earlier m thrown).texts ∨ q := by
  rw [mem_texts_method] at h ⊢
  obtain h | h | h := h
  · exact .inl (.inl h)
  · exact .inl (.inr (.inl h))
  · exact (hm h).imp_left fun hm => .inr (.inr hm)

/-- Only what takes fields gets more texts, namely those of the field. -/
theorem mem_texts_addField {f : Focus} {a : Attribute} {t : String}
    (h : t ∈ (f.addField a).texts) : t ∈ f.texts ∨ f.takesFields = true ∧ t ∈ a.texts := by
  cases f using by_kind with
  | struct name comment as | exception name comment as =>
    refine mem_texts_body_or (fun hb => ?_) h
    rw [Body.texts, List.flatMap_append, List.flatMap_singleton, List.mem_append] at hb
    exact hb.imp_right fun ha => ⟨rfl, ha⟩
  | parameters name comment earlier m =>
    exact mem_texts_method_or
      (fun hm => (Method.mem_texts_addParameter hm).imp_right fun ha => ⟨rfl, ha⟩) h
  | throws name comment earlier m =>
    exact mem_texts_method_or
      (fun hm => (Method.mem_texts_addThrown hm).imp_right fun ha => ⟨rfl, ha⟩) h
  | _ => exact .inl h

end Focus

/-! ## Steps and runs -/

namespace Sketch

variable {settings : LoadSettings} {s s' : Sketch} {n : Node}

/-- All names and types that have been written. -/
def texts (s : Sketch) : List String :=
  s.declarations.flatMap Declaration.texts

theorem mem_texts {t : String} :
    t ∈ s.texts ↔ t ∈ s.closed.flatMap Declaration.texts ∨ t ∈ s.focus.texts := by
  rw [texts, declarations, List.flatMap_append, List.mem_append, Focus.texts]

theorem verdict_of_enter (h : s.enter settings n = .ok s') :
    s.focus.site.verdict settings.strictFields s.documents n = .ok () := by
  have hf := enter_follows settings s n
  rw [h] at hf
  exact hf.of_ok.1

/-- A text that has been written is one that had been written before, or a part of the node. -/
theorem mem_texts_of_enter (h : s.enter settings n = .ok s') {t : String} (ht : t ∈ s'.texts) :
    t ∈ s.texts ∨ ∃ p, n.HasPart p ∧ t = n.trimmedPart p := by
  have hv := verdict_of_enter h
  rw [mem_texts] at ht
  rw [mem_texts]
  obtain ht | ht := ht
  · left
    left
    cases entered_of_eq_ok h <;> exact ht
  cases entered_of_eq_ok h with
  | @declaration k hn hf =>
    rw [Site.verdict_declaration hn] at hv
    obtain rfl | ht := Focus.mem_texts_body.1 ht
    · exact .inr ⟨.identifier, hv.1, rfl⟩
    · cases k <;> cases ht
  | enumValue hn hf =>
    rw [Site.verdict_enumValue hn] at hv
    rw [Focus.mem_texts_body, Body.texts, List.mem_append, List.mem_singleton] at ht
    rw [hf, Focus.mem_texts_body]
    obtain ht | ht | rfl := ht
    · exact .inl (.inr (.inl ht))
    · exact .inl (.inr (.inr ht))
    · exact .inr ⟨.identifier, hv.1, rfl⟩
  | field hn =>
    rw [Site.verdict_field hn, Sketch.takesFields_site] at hv
    obtain ht | ⟨htakes, ht⟩ := Focus.mem_texts_addField ht
    · exact .inl (.inr ht)
    · obtain ⟨hname, htype⟩ := hv.1 htakes
      simp only [Attribute.texts, attributeOf, List.mem_cons, List.not_mem_nil, or_false] at ht
      obtain rfl | rfl := ht
      · exact .inr ⟨.identifier, hname, rfl⟩
      · exact .inr ⟨.fieldType, htype, rfl⟩
  | function hn hf =>
    rw [Site.verdict_function hn] at hv
    rw [Focus.mem_texts_method] at ht
    rw [hf, Focus.mem_texts_body, Body.texts]
    obtain ht | ht | ht := ht
    · exact .inl (.inr (.inl ht))
    · exact .inl (.inr (.inr ht))
    · simp only [Method.texts, List.flatMap_nil, List.map_nil, List.append_nil, List.mem_cons,
        List.not_mem_nil, or_false] at ht
      obtain rfl | rfl := ht
      · exact .inr ⟨.identifier, hv.1, rfl⟩
      · exact .inr ⟨.functionType, hv.2.2, rfl⟩
  | throwsList hn hf =>
    rw [Focus.mem_texts_method] at ht
    rw [hf, Focus.mem_texts_method]
    exact .inl (.inr ht)
  | _ => exact .inl (.inr ht)

theorem texts_of_exit (h : s.exit n = .ok s') : s'.texts = s.texts := by
  rw [texts, (exited_of_eq_ok h).declarations_eq, texts]

theorem Runs.clean {ns : List Node} (h : Runs settings s ns s')
    (hs : ∀ t ∈ s.texts, Text.Clean t) : ∀ t ∈ s'.texts, Text.Clean t := by
  induction h with
  | nil => exact hs
  | cons _ _ first rest => exact rest (first hs)
  | node enter _ exit children =>
    rw [texts_of_exit exit]
    refine children fun t ht => ?_
    obtain ht | ⟨p, hp, rfl⟩ := mem_texts_of_enter enter ht
    · exact hs t ht
    · exact Node.clean_trimmedPart hp

end Sketch

/-- Names and types in a loaded document are there, without white space around them. -/
theorem Document.clean_of_ofTree {settings : LoadSettings} {name : String} {root : Node}
    {d : Document} (h : Document.ofTree settings name root = .ok d) :
    ∀ t ∈ d.texts, Text.Clean t := by
  obtain ⟨s, hruns, hfocus, rfl⟩ := Document.runs_of_ofTree h
  intro t ht
  refine hruns.clean (fun t ht => nomatch ht) t ?_
  rw [Sketch.mem_texts]
  exact .inl ht

end IdlModel
