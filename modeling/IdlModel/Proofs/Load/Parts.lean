import IdlModel.Load.Builder

/-!
# Running the parts of a step

What the parts of a step do to a builder, as equations on `EStateM.run`. A handler's law follows by
rewriting with them and with core's equations of the monad's own operations.

Additions always go to the last declaration and, within it, to the last method: see
`Builder.run_addTo_last` and `modifyMethod?_last`.
-/

namespace IdlModel

namespace Node

/-- The text of a part without the white space around it; nothing if there is no such part. -/
def trimmedPart (n : Node) (p : Part) : String :=
  ((n.part? p).map Text.trimmed).getD ""

/-- The part is there, and not blank. -/
def HasPart (n : Node) (p : Part) : Prop :=
  ∃ text, n.part? p = some text ∧ Text.trimmed text ≠ ""

theorem hasPart_iff (n : Node) (p : Part) : n.HasPart p ↔ n.trimmedPart p ≠ "" := by
  rw [HasPart, trimmedPart]
  cases n.part? p <;> simp

end Node

namespace Builder

variable {α : Type}

theorem requiredPart_eq (n : Node) (p : Part) :
    requiredPart n p =
      if n.trimmedPart p = "" then .error (.missingField n.kind p) else .ok (n.trimmedPart p) := by
  rw [requiredPart, Node.trimmedPart]
  cases n.part? p <;> rfl

/-- A step that asks for a part first goes on only if the part is there. -/
theorem requiredPart_bind_eq_ok {n : Node} {p : Part} {f : String → Except LoadError α} {a : α} :
    requiredPart n p >>= f = .ok a ↔ n.HasPart p ∧ f (n.trimmedPart p) = .ok a := by
  rw [requiredPart_eq, Node.hasPart_iff]
  by_cases h : n.trimmedPart p = ""
  · rw [if_pos h]
    exact ⟨nofun, fun h' => absurd h h'.1⟩
  · rw [if_neg h]
    exact ⟨fun h' => ⟨h, h'⟩, fun h' => h'.2⟩

theorem run_liftExcept (x : Except LoadError α) (b : Builder) :
    EStateM.run (liftExcept x : Build α) b = match x with
      | .ok a => .ok a b
      | .error e => .error e b := by
  cases x <;> rfl

theorem run_takeComment (b : Builder) :
    takeComment.run b = .ok b.pending.text { b with pending := {} } := rfl

theorem run_dropComment (b : Builder) :
    dropComment.run b = .ok () { b with pending := {} } := rfl

theorem run_changeContext (change : Context → Except LoadError Context) (b : Builder) :
    (changeContext change).run b = match change b.context with
      | .ok context => .ok () { b with context }
      | .error e => .error e b := by
  rw [changeContext, EStateM.run_bind, EStateM.run_get]
  simp only [EStateM.run_bind, run_liftExcept]
  cases change b.context <;> rfl

/-- Adding to the last declaration. -/
theorem run_addTo_last {b : Builder} (ds : List Declaration) (d : Declaration)
    (hb : b.declarations = ds ++ [d]) (a : Addition) :
    (addTo ds.length a).run b = match d.add? a with
      | some d' => .ok () { b with declarations := ds ++ [d'] }
      | none => .error .staleContext b := by
  have hd : b.declarations[ds.length]? = some d := by rw [hb]; simp
  rw [addTo, EStateM.run_bind, EStateM.run_get]
  simp only [hd, Option.bind_some]
  cases d.add? a with
  | none => rfl
  | some d' =>
    simp only [EStateM.run_set, hb]
    rw [List.set_append_right _ _ (Nat.le_refl _), Nat.sub_self, List.set_cons_zero]

theorem methodCount_last {b : Builder} (ds : List Declaration) (d : Declaration)
    (hb : b.declarations = ds ++ [d]) : b.methodCount ds.length = d.body.methods.length := by
  rw [methodCount, hb]
  simp

end Builder

/-- Changing the last of a number of methods. -/
theorem modifyMethod?_last (ms : List Method) (m : Method) (f : Method → Method) :
    modifyMethod? (ms ++ [m]) ms.length f = some (ms ++ [f m]) := by
  rw [modifyMethod?, if_pos (by simp)]
  refine congrArg some ?_
  induction ms with
  | nil => rfl
  | cons n ms ih => exact congrArg (n :: ·) ih

end IdlModel
