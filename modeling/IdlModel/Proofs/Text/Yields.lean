import IdlModel.Text.Parser

/-!
# What parsers yield

A parser `Yields` a property if whatever it makes of a text has that property. The law goes through
the combinators, so that it is shown of a parser step by step as the parser is written. It is stated
for every monad in which it is known what a computation comes to (`Outcomes`), since there are
parsers that only fail and parsers that may also raise an error.
-/

namespace IdlModel.Text

/-- What a computation comes to, if it comes to anything. -/
class Outcomes (m : Type → Type) [Monad m] where
  Gives {α : Type} : m α → α → Prop
  eq_of_pure {α : Type} {a b : α} : Gives (pure a : m α) b → a = b
  exists_of_bind {α β : Type} {x : m α} {f : α → m β} {b : β} :
    Gives (x >>= f) b → ∃ a, Gives x a ∧ Gives (f a) b

instance : Outcomes Option where
  Gives x a := x = some a
  eq_of_pure := Option.some.inj
  exists_of_bind := Option.bind_eq_some_iff.1

open Outcomes (Gives)

variable {m : Type → Type} [Monad m] [Outcomes m]
variable {α β : Type} {P : α → Prop} {Q : β → Prop}

/-- Whatever the parser makes of a text has the property. -/
def Yields (p : StateT (List Char) m α) (P : α → Prop) : Prop :=
  ∀ cs a rest, Gives (p cs) (a, rest) → P a

namespace Yields

variable {p q : StateT (List Char) m α} {f : α → StateT (List Char) m β}

theorem pure {a : α} (h : P a) : Yields (m := m) (pure a) P := by
  intro cs b rest hb
  cases Outcomes.eq_of_pure (m := m) hb
  exact h

theorem bind (hp : Yields p P) (hf : ∀ a, P a → Yields (f a) Q) : Yields (p >>= f) Q := by
  intro cs b rest hb
  obtain ⟨⟨a, cs'⟩, ha, hb⟩ := Outcomes.exists_of_bind hb
  exact hf a (hp cs a cs' ha) cs' b rest hb

theorem trivial (p : StateT (List Char) m α) : Yields p fun _ => True :=
  fun _ _ _ _ => True.intro

/-- What a step yields may not matter for the ones behind it. -/
theorem after (hf : ∀ a, Yields (f a) Q) : Yields (p >>= f) Q :=
  bind (trivial p) fun a _ => hf a

theorem map [LawfulMonad m] {g : α → β} (h : ∀ a, P a → Q (g a)) (hp : Yields p P) :
    Yields (g <$> p) Q := by
  rw [← bind_pure_comp]
  exact bind hp fun a ha => pure (h a ha)

theorem ite {c : Prop} [Decidable c] (hp : Yields p P) (hq : Yields q P) :
    Yields (if c then p else q) P := by
  split
  · exact hp
  · exact hq

theorem failure : Yields (failure : Parser α) P :=
  fun _ _ _ h => nomatch h

theorem orElse {p q : Parser α} (hp : Yields p P) (hq : Yields q P) :
    Yields (Parser.orElse p q) P := by
  intro cs a rest ha
  change Parser.orElse p q cs = some (a, rest) at ha
  rw [Parser.orElse] at ha
  split at ha
  · next r hr => exact hp cs a rest (hr.trans ha)
  · exact hq cs a rest ha

end Yields

end IdlModel.Text
