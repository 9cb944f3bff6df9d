import IdlModel.Text.Quoted

/-!
# The pending comment

A comment waits, in its final form, for the next declaration, field or function to take it. At
most one waits: a later comment replaces an earlier one.
-/

namespace IdlModel.Comment

/-- The comment that waits to be taken, if any. -/
structure Pending where
  text : Option String := none
  deriving DecidableEq, Repr, Inhabited

namespace Pending

/-- Let `text` wait, in place of what waited before. -/
def set (_ : Pending) (text : String) : Pending :=
  ⟨some text⟩

/-- The waiting comment, and the state in which none waits. -/
def take (p : Pending) : Option String × Pending :=
  (p.text, ⟨none⟩)

/-- Drop the waiting comment. -/
def clear (_ : Pending) : Pending :=
  ⟨none⟩

/-- Does a comment wait? -/
def isPending (p : Pending) : Bool :=
  p.text.isSome

/-- A line for diagnostics that shows the waiting comment. -/
def describe (p : Pending) : String :=
  let shown := match p.text with
    | some text => "Some(" ++ Text.quote text ++ ")"
    | none => "None"
  "CommentCarrier \x7b pending: " ++ shown ++ ", .. \x7d"

@[simp] theorem text_set (p : Pending) (t : String) : (p.set t).text = some t := rfl

@[simp] theorem take_fst (p : Pending) : p.take.1 = p.text := rfl

@[simp] theorem text_take_snd (p : Pending) : p.take.2.text = none := rfl

@[simp] theorem text_clear (p : Pending) : p.clear.text = none := rfl

end Pending

end IdlModel.Comment
