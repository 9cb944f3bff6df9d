/-!
# Parsers of characters

A `Parser` takes characters from the front of a text and gives what it has made of them, or fails
without saying why.
-/

namespace IdlModel.Text

/-- A parser of characters. -/
abbrev Parser := StateT (List Char) Option

namespace Parser

/-- The character that comes next. -/
def peek : Parser (Option Char) := do
  return (← get).head?

/-- Does the text go on with these characters? -/
def startsWith (word : List Char) : Parser Bool := do
  return word.isPrefixOf (← get)

/-- Take exactly these characters. -/
def exactly (word : List Char) : Parser Unit := do
  let cs ← get
  if word.isPrefixOf cs then set (cs.drop word.length) else failure

/-- Take the longest run of such characters. -/
def run (p : Char → Bool) : Parser (List Char) :=
  modifyGet fun cs => (cs.takeWhile p, cs.dropWhile p)

/-- Take a run of such characters that is not empty. -/
def run1 (p : Char → Bool) : Parser (List Char) := do
  match ← run p with
  | [] => failure
  | cs => pure cs

/-- Take a number of characters, each of which passes. -/
def count (n : Nat) (p : Char → Bool) : Parser (List Char) := do
  let cs ← get
  let taken := cs.take n
  if taken.length = n ∧ taken.all p then do
    set (cs.drop n)
    pure taken
  else failure

/-- What a parser takes, or nothing if it fails. -/
def attempt {α : Type} (p : Parser α) : Parser (Option α) := fun cs =>
  match p cs with
  | some (a, rest) => some (some a, rest)
  | none => some (none, cs)

/-- What the first parser takes, or else the second. -/
def orElse {α : Type} (p q : Parser α) : Parser α := fun cs =>
  match p cs with
  | some r => some r
  | none => q cs

end Parser

end IdlModel.Text
