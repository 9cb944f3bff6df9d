import IdlModel.Config.Setting
import IdlModel.Toml.Text

/-!
# TOML: numbers, dates and words

Numbers may have underscores between their digits and no needless zeros in front. A whole number
has to fit 64 bits with sign, and a number with a fraction or an exponent must not be beyond the
range of floating-point numbers. Dates and times have to exist.
-/

namespace IdlModel.Toml

open Text (Parser)
open Text.Parser

/-- Take digits, with single underscores between them, at most as many groups as there is fuel. -/
def digitGroups (p : Char → Bool) : Nat → Parser (List Char)
  | 0 => failure
  | fuel + 1 => do
    let ds ← run1 p
    if (← peek) = some '_' then
      exactly ['_']
      let more ← digitGroups p fuel
      pure (ds ++ more)
    else pure ds

/-- Take digits, with single underscores between them. -/
def digits (p : Char → Bool) : Parser (List Char) := do
  digitGroups p ((← get).length + 1)

/-- Take a sign, if there is one. -/
def sign : Parser (List Char) := do
  match ← peek with
  | some '+' => do
    exactly ['+']
    pure []
  | some '-' => do
    exactly ['-']
    pure ['-']
  | _ => pure []

/-- The value of digits to a base. -/
def digitsValue (base : Nat) (ds : List Char) : Nat :=
  ds.foldl (fun n d => base * n + (Text.hexValue? d).getD 0) 0

/-- Take digits that do not begin with a zero, unless it is the only one. -/
def wholeDigits : Parser (List Char) := do
  if (← peek) = some '0' then
    exactly ['0']
    pure ['0']
  else digits Char.isDigit

/-- A whole number that fits 64 bits with sign. -/
def bounded (n : Int) : Parser Setting :=
  if -(Nat.pow 2 63 : Int) ≤ n ∧ n < (Nat.pow 2 63 : Int) then pure (.integer n) else failure

/-- Take a whole number to the base that the letter behind a leading zero names. -/
def basedInteger (letter : Char) (base : Nat) (p : Char → Bool) : Parser Setting := do
  exactly ['0', letter]
  let ds ← digits p
  bounded (digitsValue base ds)

/-- Take a whole number. -/
def integer : Parser Setting :=
  orElse (basedInteger 'x' 16 fun c => (Text.hexValue? c).isSome) <|
  orElse (basedInteger 'o' 8 fun c => '0' ≤ c && c ≤ '7') <|
  orElse (basedInteger 'b' 2 fun c => c = '0' || c = '1') do
    let s ← sign
    let ds ← wholeDigits
    let n := digitsValue 10 ds
    bounded (if s.isEmpty then n else -(n : Int))

/-- Take the digits behind a point. -/
def fraction : Parser (List Char) := do
  exactly ['.']
  digits Char.isDigit

/-- Take an exponent with its sign. -/
def exponent : Parser (List Char × List Char) := do
  orElse (exactly ['e']) (exactly ['E'])
  let s ← sign
  let ds ← digits Char.isDigit
  pure (s, ds)

/-- Is `ds · 10 ^ e` beyond the range of floating-point numbers? -/
def overflows (ds : List Char) (e : Int) : Bool :=
  let n := digitsValue 10 ds
  if n = 0 then false
  else
    let magnitude := (toString n).length + e
    if magnitude < 300 then false
    else if 320 < magnitude then true
    else if 0 ≤ e then (Float.ofScientific n false e.toNat).isInf
    else (Float.ofScientific n true e.natAbs).isInf

/-- Take a number with a fraction or an exponent. -/
def float : Parser Setting := do
  let s ← sign
  let ds ← wholeDigits
  let f ← attempt fraction
  let e ← attempt exponent
  if f.isNone ∧ e.isNone then failure
  else
    let fs := f.getD []
    let (es, ed) := e.getD ([], [])
    let power : Int := if es.isEmpty then digitsValue 10 ed else -(digitsValue 10 ed : Int)
    if s.isEmpty ∧ overflows (ds ++ fs) (power - fs.length) then failure
    else
      let tail := if e.isSome then 'e' :: (es ++ ed) else []
      pure (.float (String.ofList (s ++ ds ++ (if f.isSome then '.' :: fs else []) ++ tail)))

/-- Take a number that is infinite or none. -/
def specialFloat : Parser Setting := do
  let s ← sign
  if ← startsWith ['i', 'n', 'f'] then
    exactly ['i', 'n', 'f']
    pure (.float (String.ofList (s ++ ['i', 'n', 'f'])))
  else
    exactly ['n', 'a', 'n']
    pure (.float (String.ofList (s ++ ['n', 'a', 'n'])))

/-! ## Dates and times -/

/-- Take a number of so many digits within bounds. -/
def twoDigits (least greatest : Nat) : Parser (List Char) := do
  let ds ← count 2 Char.isDigit
  let n := digitsValue 10 ds
  if least ≤ n ∧ n ≤ greatest then pure ds else failure

/-- The number of days of a month. -/
def daysOf (year month : Nat) : Nat :=
  if month = 2 then
    if year % 4 = 0 ∧ (year % 100 ≠ 0 ∨ year % 400 = 0) then 29 else 28
  else if month = 4 ∨ month = 6 ∨ month = 9 ∨ month = 11 then 30
  else 31

/-- Take a date. -/
def date : Parser (List Char) := do
  let y ← count 4 Char.isDigit
  exactly ['-']
  let m ← twoDigits 1 12
  exactly ['-']
  let d ← twoDigits 1 (daysOf (digitsValue 10 y) (digitsValue 10 m))
  pure (y ++ '-' :: m ++ '-' :: d)

/-- Take a time of day. -/
def time : Parser (List Char) := do
  let h ← twoDigits 0 23
  exactly [':']
  let m ← twoDigits 0 59
  exactly [':']
  let s ← twoDigits 0 60
  if (← peek) = some '.' then
    exactly ['.']
    let f ← run1 Char.isDigit
    pure (h ++ ':' :: m ++ ':' :: s ++ '.' :: f)
  else pure (h ++ ':' :: m ++ ':' :: s)

/-- Take the offset of a time zone. -/
def offset : Parser (List Char) := do
  match ← peek with
  | some 'Z' | some 'z' => count 1 fun _ => true
  | some '+' | some '-' => do
    let s ← count 1 fun _ => true
    let h ← twoDigits 0 23
    exactly [':']
    let m ← twoDigits 0 59
    pure (s ++ h ++ ':' :: m)
  | _ => failure

/-- Take what follows a date in a date with a time. -/
def timeOfDate : Parser (List Char) := do
  let separator ← count 1 fun c => c = 'T' || c = 't' || c = ' '
  let t ← time
  let o ← attempt offset
  pure (separator ++ t ++ o.getD [])

/-- The key under which a date or a time is a table of its own. -/
def dateKey : String := "$__toml_private_datetime"

/-- Take a date, a time, or both. -/
def dateTime : Parser Setting := do
  let cs ← orElse
    (do
      let d ← date
      let t ← attempt timeOfDate
      pure (d ++ t.getD []))
    time
  pure (.table [(dateKey, .text (String.ofList cs))])

/-- Take a word for a value. -/
def word (w : List Char) (v : Setting) : Parser Setting := do
  exactly w
  pure v

/-- Take a value that is neither a string nor in brackets. -/
def scalar : Parser Setting :=
  orElse (word ['t', 'r', 'u', 'e'] (.bool true)) <|
  orElse (word ['f', 'a', 'l', 's', 'e'] (.bool false)) <|
  orElse dateTime <|
  orElse float <|
  orElse specialFloat integer

end IdlModel.Toml
