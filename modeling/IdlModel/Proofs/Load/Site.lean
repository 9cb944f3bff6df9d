import IdlModel.Proofs.Load.Sketch
import IdlModel.Proofs.Node.Place

/-!
# What is open, from where a node stands

Whether a node is refused depends on little of a sketch: on the kind of what is open, its `Site`,
and on the number of document nodes so far. `Site.verdict` says whether it is, and why, and
`Sketch.enter_follows` that a step keeps to it and which site it moves on to. The exit of a node
that was not refused is not refused either.
-/

namespace IdlModel

open Builder (requiredPart requiredPart_eq requiredPart_bind_eq_ok)

/-- What is open, by its kind. -/
inductive Site where
  | outside
  | body (kind : DeclarationKind)
  | parameters
  | throws
  deriving DecidableEq

namespace Site

/-- The kind of the open declaration. -/
def declarationKind? : Site → Option DeclarationKind
  | .outside => none
  | .body k => some k
  | .parameters | .throws => some .service

/-- Are fields taken? -/
def takesFields : Site → Bool
  | .body .struct | .body .exception | .parameters | .throws => true
  | _ => false

/-- The site in a node of a kind. -/
def enter (site : Site) : NodeKind → Site
  | .declaration k => .body k
  | .function => .parameters
  | .throwsList => .throws
  | _ => site

/-- Is a node refused at the site, if there were some document nodes before it? -/
def verdict (strict : Bool) (site : Site) (documents : Nat) (n : Node) : Except LoadError Unit :=
  match n.kind with
  | .document => if documents = 0 then .ok () else .error (.documentCount (documents + 1))
  | .declaration k => do
    let name ← requiredPart n .identifier
    match site.declarationKind? with
    | some enclosing => .error (.nestedDeclaration k name enclosing)
    | none => .ok ()
  | .enumValue => do
    let value ← requiredPart n .identifier
    if site = .body .enum then .ok () else .error (.enumValueOutsideEnum value)
  | .field =>
    if site.takesFields then do
      let _ ← requiredPart n .identifier
      let _ ← requiredPart n .fieldType
      .ok ()
    else if strict then do
      let name ← requiredPart n .identifier
      .error (.orphanField name)
    else .ok ()
  | .function => do
    let name ← requiredPart n .identifier
    if site = .body .service then do
      let _ ← requiredPart n .functionType
      .ok ()
    else .error (.functionOutsideService name)
  | .throwsList => if site = .parameters then .ok () else .error .throwsOutsideFunction
  | .commentMultiline | .commentSingleline | .other => .ok ()

/-! ## When a node is not refused -/

section Verdicts

variable {strict : Bool} {site : Site} {documents : Nat} {n : Node}

theorem ite_ok {c : Prop} [Decidable c] {e : LoadError} :
    (if c then (.ok () : Except LoadError Unit) else .error e) = .ok () ↔ c := by
  by_cases h : c <;> simp [h]

theorem verdict_document (hn : n.kind = .document) :
    site.verdict strict documents n = .ok () ↔ documents = 0 := by
  simp only [verdict, hn, ite_ok]

theorem declarationKind?_eq_none : site.declarationKind? = none ↔ site = .outside := by
  cases site <;> simp [declarationKind?]

theorem verdict_declaration {k : DeclarationKind} (hn : n.kind = .declaration k) :
    site.verdict strict documents n = .ok () ↔ n.HasPart .identifier ∧ site = .outside := by
  simp only [verdict, hn]
  rw [requiredPart_bind_eq_ok, ← declarationKind?_eq_none]
  cases site.declarationKind? <;> simp

theorem verdict_enumValue (hn : n.kind = .enumValue) :
    site.verdict strict documents n = .ok () ↔ n.HasPart .identifier ∧ site = .body .enum := by
  simp only [verdict, hn]
  rw [requiredPart_bind_eq_ok, ite_ok]

theorem verdict_field (hn : n.kind = .field) :
    site.verdict strict documents n = .ok () ↔
      (site.takesFields → n.HasPart .identifier ∧ n.HasPart .fieldType) ∧
      (strict → site.takesFields) := by
  simp only [verdict, hn]
  cases site.takesFields with
  | true => simp only [if_true, requiredPart_bind_eq_ok]; simp
  | false =>
    cases strict with
    | true => simp [requiredPart_bind_eq_ok]
    | false => simp

theorem verdict_function (hn : n.kind = .function) :
    site.verdict strict documents n = .ok () ↔
      n.HasPart .identifier ∧ site = .body .service ∧ n.HasPart .functionType := by
  simp only [verdict, hn]
  rw [requiredPart_bind_eq_ok]
  by_cases h : site = .body .service
  · simp only [if_pos h, requiredPart_bind_eq_ok]; simp [h]
  · simp [h]

theorem verdict_throwsList (hn : n.kind = .throwsList) :
    site.verdict strict documents n = .ok () ↔ site = .parameters := by
  simp only [verdict, hn, ite_ok]

end Verdicts

end Site

/-! ## Steps between sites -/

/-- What is open, by its kind. -/
def Focus.site : Focus → Site
  | .nothing => .outside
  | .body d => .body d.kind
  | .method _ _ _ _ false => .parameters
  | .method _ _ _ _ true => .throws

/-- How a run ends that is held against a verdict: refused for the same cause, or in a state of
which something holds. -/
def Follows {α : Type} (x : Except LoadError α) (v : Except LoadError Unit) (Q : α → Prop) : Prop :=
  match v with
  | .ok () => ∃ a, x = .ok a ∧ Q a
  | .error e => x = .error e

namespace Follows

variable {α β : Type} {x : Except LoadError α} {v w : Except LoadError Unit} {Q : α → Prop}
  {R : β → Prop}

theorem ok {a : α} (h : Q a) : Follows (.ok a) (.ok ()) Q := ⟨a, rfl, h⟩

theorem bind {f : α → Except LoadError β} (h : Follows x v Q)
    (hf : ∀ a, Q a → Follows (f a) w R) : Follows (x >>= f) (v >>= fun _ => w) R := by
  cases v with
  | error e => rw [show x = .error e from h]; rfl
  | ok u =>
    obtain ⟨a, rfl, ha⟩ := h
    exact hf a ha

theorem imp {Q' : α → Prop} (h : Follows x v Q) (hQ : v = .ok () → ∀ a, Q a → Q' a) :
    Follows x v Q' := by
  cases v with
  | error e => exact h
  | ok u =>
    obtain ⟨a, hx, ha⟩ := h
    exact ⟨a, hx, hQ rfl a ha⟩

/-- Both a step and its verdict ask for a part first. -/
theorem bind_part (n : Node) (p : Part) {f : String → Except LoadError α}
    {v : String → Except LoadError Unit}
    (h : Follows (f (n.trimmedPart p)) (v (n.trimmedPart p)) Q) :
    Follows (requiredPart n p >>= f) (requiredPart n p >>= v) Q := by
  rw [requiredPart_eq]
  by_cases hp : n.trimmedPart p = ""
  · rw [if_pos hp]; rfl
  · rw [if_neg hp]; exact h

theorem of_ok {a : α} (h : Follows (.ok a) v Q) : v = .ok () ∧ Q a := by
  cases v with
  | error e => cases h
  | ok u =>
    obtain ⟨b, hb, hq⟩ := h
    exact ⟨rfl, Except.ok.inj hb ▸ hq⟩

theorem with_verdict (h : Follows x v Q) : Follows x v fun a => Q a ∧ v = .ok () :=
  h.imp fun hv _ ha => ⟨ha, hv⟩

/-- A step that is never refused needs no verdict. -/
theorem complete {f : α → Except LoadError β} (h : Follows x v Q)
    (hf : ∀ a, Q a → ∃ b, f a = .ok b ∧ R b) : Follows (x >>= f) v R := by
  cases v with
  | error e => rw [show x = .error e from h]; rfl
  | ok u =>
    obtain ⟨a, rfl, ha⟩ := h
    exact hf a ha

end Follows

namespace Sketch

variable {settings : LoadSettings}

theorem takesFields_site (f : Focus) : f.site.takesFields = f.takesFields := by
  cases f using Focus.by_kind <;> rfl

theorem site_addField (f : Focus) (a : Attribute) : (f.addField a).site = f.site := by
  cases f using Focus.by_kind <;> rfl

theorem declarationKind?_site (f : Focus) : f.site.declarationKind? = f.kind? := by
  cases f using Focus.by_kind <;> rfl

theorem enterDeclaration_follows (s : Sketch) (k : DeclarationKind) (n : Node)
    (hn : n.kind = .declaration k) :
    Follows (s.enterDeclaration k n) (s.focus.site.verdict settings.strictFields s.documents n)
      fun s' => s'.focus.site = .body k ∧ s'.documents = s.documents := by
  rw [enterDeclaration, Site.verdict, hn]
  refine Follows.bind_part n _ ?_
  rw [declarationKind?_site]
  cases s.focus.kind? with
  | some enclosing => rfl
  | none => exact Follows.ok ⟨congrArg Site.body (Declaration.kind_opened ..), rfl⟩

theorem enterEnumValue_follows (s : Sketch) (n : Node) (hn : n.kind = .enumValue) :
    Follows (s.enterEnumValue n) (s.focus.site.verdict settings.strictFields s.documents n)
      fun s' => s'.focus.site = s.focus.site ∧ s'.documents = s.documents := by
  rw [enterEnumValue, Site.verdict, hn]
  refine Follows.bind_part n _ ?_
  obtain ⟨closed, focus, pending, documents⟩ := s
  cases focus using Focus.by_kind with
  | «enum» name comment vs => exact Follows.ok ⟨rfl, rfl⟩
  | _ => rfl

theorem enterField_follows (s : Sketch) (n : Node) (hn : n.kind = .field) :
    Follows (s.enterField settings n) (s.focus.site.verdict settings.strictFields s.documents n)
      fun s' => s'.focus.site = s.focus.site ∧ s'.documents = s.documents := by
  rw [enterField, Site.verdict, hn]
  simp only [takesFields_site]
  cases s.focus.takesFields with
  | true => exact .bind_part n _ (.bind_part n _ (.ok ⟨site_addField .., rfl⟩))
  | false =>
    cases settings.strictFields with
    | true => exact .bind_part n _ rfl
    | false => exact .ok ⟨rfl, rfl⟩

theorem enterFunction_follows (s : Sketch) (n : Node) (hn : n.kind = .function) :
    Follows (s.enterFunction n) (s.focus.site.verdict settings.strictFields s.documents n)
      fun s' => s'.focus.site = .parameters ∧ s'.documents = s.documents := by
  rw [enterFunction, Site.verdict, hn]
  refine Follows.bind_part n _ ?_
  obtain ⟨closed, focus, pending, documents⟩ := s
  cases focus using Focus.by_kind with
  | service name comment ms => exact .bind_part n _ (.ok ⟨rfl, rfl⟩)
  | _ => rfl

theorem enterThrows_follows (s : Sketch) (n : Node) (hn : n.kind = .throwsList) :
    Follows s.enterThrows (s.focus.site.verdict settings.strictFields s.documents n)
      fun s' => s'.focus.site = .throws ∧ s'.documents = s.documents := by
  rw [enterThrows, Site.verdict, hn]
  obtain ⟨closed, focus, pending, documents⟩ := s
  cases focus using Focus.by_kind with
  | parameters name comment earlier m => exact .ok ⟨rfl, rfl⟩
  | _ => rfl

/-- Entering a node is refused as the site says, and moves on to the site in the node. -/
theorem enter_follows (settings : LoadSettings) (s : Sketch) (n : Node) :
    Follows (s.enter settings n) (s.focus.site.verdict settings.strictFields s.documents n)
      fun s' => s'.focus.site = s.focus.site.enter n.kind ∧
        s'.documents = s.documents + if n.kind = .document then 1 else 0 := by
  rw [enter]
  cases h : n.kind with
  | document =>
    rw [Site.verdict, h]
    by_cases hd : s.documents = 0
    · simp only [if_pos hd]
      exact .ok ⟨rfl, by rw [hd]; rfl⟩
    · simp only [if_neg hd]
      rfl
  | declaration k => exact enterDeclaration_follows s k n h
  | enumValue => exact enterEnumValue_follows s n h
  | field => exact enterField_follows s n h
  | function => exact enterFunction_follows s n h
  | throwsList => exact enterThrows_follows s n h
  | _ =>
    rw [Site.verdict, h]
    exact .ok ⟨rfl, rfl⟩

/-- Exiting a declaration closes it. -/
theorem exit_declaration {s : Sketch} {n : Node} {k : DeclarationKind}
    (hn : n.kind = .declaration k) (hs : s.focus.site = .body k) :
    ∃ s', s.exit n = .ok s' ∧ s'.focus.site = .outside ∧ s'.documents = s.documents := by
  obtain ⟨closed, focus, pending, documents⟩ := s
  cases focus with
  | nothing => cases hs
  | body d =>
    have hd : d.kind = k := Site.body.inj hs
    refine ⟨⟨closed ++ [d], .nothing, none, documents⟩, ?_, rfl, rfl⟩
    simp only [exit, hn, if_pos hd]
  | method service comment earlier m thrown => cases thrown <;> cases hs

/-- Exiting a function leads back to the body of the service. -/
theorem exit_function {s : Sketch} {n : Node} (hn : n.kind = .function)
    (hs : s.focus.site = .parameters ∨ s.focus.site = .throws) :
    ∃ s', s.exit n = .ok s' ∧ s'.focus.site = .body .service ∧ s'.documents = s.documents := by
  obtain ⟨closed, focus, pending, documents⟩ := s
  cases focus with
  | method service comment earlier m thrown =>
    refine ⟨⟨closed, .body ⟨service, comment, .service (earlier ++ [m])⟩, none, documents⟩,
      ?_, rfl, rfl⟩
    simp only [exit, hn]
  | _ => rcases hs with hs | hs <;> cases hs

end Sketch

end IdlModel
