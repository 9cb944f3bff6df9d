/-!
# White space and trimming

The characters with the Unicode property `White_Space`, and the removal of a run of them from
either end of a text. Names, types and comments are trimmed by this rule. Zero-width characters
(U+200B, U+FEFF) and the information separators U+001C to U+001F are not white space.

The text functions work on lists of characters; `String.trim` and its relatives at the end of the
module are the same functions on strings.
-/

namespace IdlModel.Text

/-- White space: the twenty-five characters with the Unicode property `White_Space`. -/
def isBlank (c : Char) : Bool :=
  let n := c.toNat
  (0x09 ≤ n && n ≤ 0x0D) || n == 0x20 || n == 0x85 || n == 0xA0 || n == 0x1680 ||
    (0x2000 ≤ n && n ≤ 0x200A) || n == 0x2028 || n == 0x2029 || n == 0x202F || n == 0x205F ||
    n == 0x3000

/-- The text without the white space it begins with. -/
def trimStart (cs : List Char) : List Char :=
  cs.dropWhile isBlank

/-- The text without the white space it ends with. -/
def trimEnd (cs : List Char) : List Char :=
  (cs.reverse.dropWhile isBlank).reverse

/-- The text without the white space at either end. -/
def trim (cs : List Char) : List Char :=
  trimEnd (trimStart cs)

/-- The string without the white space at either end. -/
def trimmed (s : String) : String :=
  String.ofList (trim s.toList)

/-- The string without the white space it ends with. -/
def trimmedEnd (s : String) : String :=
  String.ofList (trimEnd s.toList)

theorem toList_trimmed (s : String) : (trimmed s).toList = trim s.toList := by
  simp [trimmed]

end IdlModel.Text
