import IdlModel.Json.Literal

/-!
# Tokens of JSON texts

A text is cut into tokens once, before anything is read from it. Where it stops being made of
tokens there is a last one, `broken`, so that a reader notices the fault only when it gets there.
A reader of values and a reader that passes over values judge a fault differently, so the token
keeps both judgements.
-/

namespace IdlModel.Json

/-- The two kinds of brackets. -/
inductive Bracket where
  /-- Around the items of an array. -/
  | square
  /-- Around the members of an object. -/
  | curly
  deriving DecidableEq, Repr

/-- A token. -/
inductive Token where
  | opening (bracket : Bracket)
  | closing (bracket : Bracket)
  | comma
  | colon
  | null
  | bool (value : Bool)
  | number (numeral : Numeral)
  /-- A string; its characters, unless its surrogates are not in pairs. -/
  | string (text : Except Fault String)
  /-- The place where the text is no more made of tokens. `inString` is whether a string began
  there, `read` the fault for a reader of values, and `skip` that for one that passes over
  them. -/
  | broken (inString : Bool) (read skip : Fault)

namespace Token

/-- White space between tokens. -/
def isSpace (c : Char) : Bool :=
  c = ' ' || c = '\t' || c = '\n' || c = '\r'

/-- The token that a single character is. -/
def ofChar? : Char → Option Token
  | '[' => some (.opening .square)
  | ']' => some (.closing .square)
  | '\x7b' => some (.opening .curly)
  | '\x7d' => some (.closing .curly)
  | ',' => some .comma
  | ':' => some .colon
  | _ => none

/-- The word that begins with a character, and the token that it is. -/
def word? : Char → Option (List Char × Token)
  | 'n' => some (['u', 'l', 'l'], .null)
  | 't' => some (['r', 'u', 'e'], .bool true)
  | 'f' => some (['a', 'l', 's', 'e'], .bool false)
  | _ => none

/-- The token at the beginning of a text that does not begin with white space, and the text behind
it. Nothing is behind a broken token. -/
def first (c : Char) (cs : List Char) : Token × List Char :=
  match ofChar? c with
  | some t => (t, cs)
  | none =>
    if c = '"' then
      let literal := StringLiteral.scan cs
      match literal.after, literal.value with
      | .ok rest, value => (.string (value.map String.ofList), rest)
      | .error f, .error read => (.broken true read f, [])
      | .error f, .ok _ => (.broken true f f, [])
    else if c = '-' ∨ c.isDigit then
      match Numeral.scan (c :: cs) with
      | .ok (x, rest) => (.number x, rest)
      | .error f => (.broken false f .malformed, [])
    else
      match word? c with
      | some (word, t) =>
        match scanWord word cs with
        | .ok rest => (t, rest)
        | .error f => (.broken false f f, [])
      | none => (.broken false .malformed .malformed, [])

theorem length_first_le (c : Char) (cs : List Char) : (first c cs).2.length ≤ cs.length := by
  unfold first
  split
  · exact Nat.le_refl _
  · split
    · simp only
      split
      · next h => exact Nat.le_of_lt (StringLiteral.length_after_lt h)
      · simp
      · simp
    · split
      · split
        · next h => exact Nat.le_of_lt_succ (Numeral.length_scan_lt h)
        · simp
      · split
        · split
          · next h => exact length_scanWord_le h
          · simp
        · simp

end Token

/-- The tokens of a text. -/
def tokens : List Char → List Token
  | [] => []
  | c :: cs =>
    if Token.isSpace c then tokens cs
    else (Token.first c cs).1 :: tokens (Token.first c cs).2
termination_by cs => cs.length
decreasing_by
  · simp
  · exact Nat.lt_succ_of_le (Token.length_first_le c cs)

end IdlModel.Json
