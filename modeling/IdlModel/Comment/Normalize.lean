import IdlModel.Text.Blank
import IdlModel.Text.Lines

/-!
# Normalizing comments

The text of a comment without its delimiters and without the gutter of stars in front of its
lines:

```text
/**
 * Adds two numbers.
 */            ->  Adds two numbers.
```

The steps are definitions of their own: `body` takes the delimiters off, `ungutter` cleans one
line, and `trimBlankLines` drops empty lines at either end.
-/

namespace IdlModel.Comment

open IdlModel.Text

/-- What follows the opening delimiter, `/**` or else `/*`; the whole text if neither opens it. -/
def dropOpening : List Char → List Char
  | '/' :: '*' :: '*' :: rest => rest
  | '/' :: '*' :: rest => rest
  | cs => cs

/-- What stands before the closing delimiter `*/`; the whole text if it does not end with it. -/
def dropClosing (cs : List Char) : List Char :=
  if ['*', '/'].isSuffixOf cs then cs.take (cs.length - 2) else cs

/-- The text between the delimiters. The closing one is taken off first, so `/*/` is left with a
lone slash. -/
def body (raw : List Char) : List Char :=
  dropOpening (dropClosing (trim raw))

/-- A line without the white space around it, its first star, and the white space behind that. -/
def ungutter (line : List Char) : List Char :=
  match trim line with
  | '*' :: rest => trimStart rest
  | cs => cs

/-- The lines without the empty ones at the beginning and at the end. -/
def trimBlankLines (ls : List (List Char)) : List (List Char) :=
  ((ls.dropWhile List.isEmpty).reverse.dropWhile List.isEmpty).reverse

/-- The lines that a comment comes to. -/
def normalLines (raw : List Char) : List (List Char) :=
  trimBlankLines ((lines (body raw)).map ungutter)

/-- The text of a comment, by characters. -/
def normalizeChars (raw : List Char) : List Char :=
  joinLines (normalLines raw)

/-- The text of a comment: no delimiters, no gutter, no empty lines at either end. -/
def normalize (raw : String) : String :=
  String.ofList (normalizeChars raw.toList)

theorem toList_normalize (raw : String) : (normalize raw).toList = normalizeChars raw.toList := by
  simp [normalize]

end IdlModel.Comment
