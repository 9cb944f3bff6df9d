import IdlModel.Json.Mismatch
import IdlModel.Json.Token

/-!
# Reading from tokens

A `Reader` takes tokens from the front of a list and reports the first thing that is wrong, be it
a fault of the text or a value that does not fit. The parts below read what stands at the place of
a value (`head`), go through the items of an array and the members of an object (`items`,
`members`), pass over a value that nobody asked for (`skipValue`), and read a value as it is
(`value`).

Arrays and objects that are read may nest only so deep: a reader is given the number of levels
that are left and spends one of them on each bracket it opens. Values that are passed over nest
as deep as they like.
-/

namespace IdlModel.Json

/-- A reader of tokens. -/
abbrev Reader := StateT (List Token) (Except ReadError)

namespace Reader

/-- The number of levels that arrays and objects may nest in a text. -/
def maxDepth : Nat := 127

/-- Fail because the text is not JSON. -/
def fault {α : Type} (f : Fault) : Reader α :=
  throw (.fault f)

/-- Fail because a value does not fit. -/
def mismatch {α : Type} (m : Mismatch) : Reader α :=
  throw (.mismatch m)

/-- What has been found to fit or not. -/
def ofExcept {α : Type} : Except Mismatch α → Reader α
  | .ok a => pure a
  | .error m => mismatch m

/-! ## Single tokens -/

/-- The beginning of a value: an opening bracket, or the whole of a value without brackets. -/
inductive Head where
  | opening (bracket : Bracket)
  | scalar (value : Json)

/-- What the value is that begins so, when something else was expected. -/
def Head.found : Head → Found
  | .opening .square => .sequence
  | .opening .curly => .map
  | .scalar v => v.found

/-- What a token is at the place of a value. -/
def Head.ofToken : Token → Except Fault Head
  | .opening b => .ok (.opening b)
  | .null => .ok (.scalar .null)
  | .bool b => .ok (.scalar (.bool b))
  | .number x => match x.value? with
    | some n => .ok (.scalar (.number n))
    | none => .error .malformed
  | .string (.ok s) => .ok (.scalar (.string s))
  | .string (.error f) => .error f
  | .broken _ read _ => .error read
  | .closing _ | .comma | .colon => .error .malformed

/-- Take the beginning of a value. -/
def head : Reader Head := do
  match ← get with
  | [] => fault .endOfText
  | t :: ts =>
    match Head.ofToken t with
    | .ok h => do
      set ts
      pure h
    | .error f => fault f

/-- Take the key of a member. -/
def key : Reader String := do
  match ← get with
  | [] => fault .endOfText
  | .string (.ok s) :: ts => do
    set ts
    pure s
  | .string (.error f) :: _ => fault f
  | .broken true read _ :: _ => fault read
  | _ :: _ => fault .malformed

/-- Take the colon behind a key. -/
def colon : Reader Unit := do
  match ← get with
  | [] => fault .endOfText
  | .colon :: ts => set ts
  | _ :: _ => fault .malformed

/-- Take a closing bracket. -/
def close (b : Bracket) : Reader Unit := do
  match ← get with
  | [] => fault .endOfText
  | .closing c :: ts => if c = b then set ts else fault .malformed
  | _ :: _ => fault .malformed

/-- Is there one more item or member in front of the closing bracket? Takes the comma before any
but the first. -/
def more (b : Bracket) (first : Bool) : Reader Bool := do
  match ← get with
  | [] => fault .endOfText
  | t :: ts =>
    match t with
    | .closing c => if c = b then pure false else if first then pure true else fault .malformed
    | .comma =>
      if first then pure true
      else
        match ts with
        | [] => fault .endOfText
        | .closing c :: _ => if c = b then fault .malformed else do
          set ts
          pure true
        | _ :: _ => do
          set ts
          pure true
    | _ => if first then pure true else fault .malformed

/-! ## Arrays and objects -/

/-- Spend a level on an opening bracket. -/
def spend (levels : Nat) : Reader Unit :=
  if levels = 0 then fault .malformed else pure ()

/-- The items up to a closing bracket, fewer than there are tokens in `bound`. -/
def itemsWithin {α : Type} (item : Reader α) : (bound : List Token) → Bool → Reader (List α)
  | [], _ => fault .endOfText
  | _ :: bound, first => do
    if ← more .square first then
      let a ← item
      let as ← itemsWithin item bound false
      pure (a :: as)
    else pure []

/-- The items of an array behind its opening bracket. Every item takes a token at least, so there
are fewer items than tokens; if they run out, so do the tokens. -/
def items {α : Type} (item : Reader α) : Reader (List α) := do
  let as ← itemsWithin item (← get) true
  close .square
  pure as

/-- What the members up to a closing bracket make of `s`, fewer than there are tokens in
`bound`. -/
def membersWithin {σ : Type} (member : String → σ → Reader σ) :
    (bound : List Token) → Bool → σ → Reader σ
  | [], _, _ => fault .endOfText
  | _ :: bound, first, s => do
    if ← more .curly first then
      let k ← key
      let s ← member k s
      membersWithin member bound false s
    else pure s

/-- What the members of an object make of `s`, from behind its opening bracket up to the closing
one. A member is shown its key, and takes the colon and the value itself. -/
def members {σ : Type} (member : String → σ → Reader σ) (s : σ) : Reader σ := do
  membersWithin member (← get) true s

/-- Read a member that must not have been read before. -/
def once {α : Type} (name : String) (before : Option α) (value : Reader α) :
    Reader (Option α) := do
  if before.isSome then mismatch (.duplicateField name)
  else
    colon
    let a ← value
    pure (some a)

/-- Read the item of an array at a position, if it is there. -/
def itemAt? {α : Type} (position : Nat) (item : Reader α) : Reader (Option α) := do
  if ← more .square (position = 0) then
    let a ← item
    pure (some a)
  else pure none

/-! ## Passing over values -/

/-- What may come next while a value is passed over. -/
inductive Awaited where
  /-- A value. -/
  | value
  /-- The first item or key, or the closing bracket. -/
  | first
  /-- A key. -/
  | key
  /-- The colon behind a key. -/
  | colon
  /-- A comma, or the closing bracket. -/
  | next
  deriving DecidableEq, Repr

/-- How far a value has been passed over. -/
inductive Progress where
  /-- To its end. -/
  | done
  /-- To a point with some brackets open, the innermost first. -/
  | await (awaited : Awaited) (outer : List Bracket)
  deriving DecidableEq, Repr

namespace Progress

/-- Behind a value inside some brackets. -/
def behind : List Bracket → Progress
  | [] => .done
  | b :: outer => .await .next (b :: outer)

/-- A token in the place of a value. -/
def atValue (outer : List Bracket) : Token → Except Fault Progress
  | .opening b => .ok (.await .first (b :: outer))
  | .null | .bool _ | .number _ | .string _ => .ok (behind outer)
  | .broken _ _ skip => .error skip
  | .closing _ | .comma | .colon => .error .malformed

/-- A token in the place of a key. -/
def atKey (outer : List Bracket) : Token → Except Fault Progress
  | .string _ => .ok (.await .colon outer)
  | .broken true _ skip => .error skip
  | _ => .error .malformed

/-- A closing bracket. -/
def atClosing (b : Bracket) : List Bracket → Except Fault Progress
  | c :: outer => if b = c then .ok (behind outer) else .error .malformed
  | [] => .error .malformed

/-- A token in the place of an item, or of the key of a member. -/
def atEntry (outer : List Bracket) (t : Token) : Except Fault Progress :=
  if outer.head? = some .curly then atKey outer t else atValue outer t

/-- What a token leads to. -/
def step (outer : List Bracket) : Awaited → Token → Except Fault Progress
  | .value, t => atValue outer t
  | .key, t => atKey outer t
  | .first, .closing b => atClosing b outer
  | .first, t => atEntry outer t
  | .colon, .colon => .ok (.await .value outer)
  | .colon, _ => .error .malformed
  | .next, .closing b => atClosing b outer
  | .next, .comma => .ok (.await (if outer.head? = some .curly then .key else .value) outer)
  | .next, _ => .error .malformed

end Progress

/-- The tokens behind a value that has been passed over so far. -/
def skipFrom (awaited : Awaited) (outer : List Bracket) : List Token → Except Fault (List Token)
  | [] => .error .endOfText
  | t :: ts =>
    match Progress.step outer awaited t with
    | .error f => .error f
    | .ok .done => .ok ts
    | .ok (.await awaited outer) => skipFrom awaited outer ts

/-- Pass over a value. -/
def skipValue : Reader Unit := do
  match skipFrom .value [] (← get) with
  | .ok ts => set ts
  | .error f => fault f

/-! ## Values -/

/-- A string. -/
def string : Reader String := do
  match ← head with
  | .scalar (.string s) => pure s
  | h => mismatch (.invalidType h.found .string)

/-- A list of what `item` reads, for which there are some levels left. -/
def list {α : Type} (levels : Nat) (item : Reader α) : Reader (List α) := do
  match ← head with
  | .opening .square => do
    spend levels
    items item
  | h => mismatch (.invalidType h.found .sequence)

/-- A value, given the reader of what stands inside its brackets if there is a level left. -/
def valueWith (levels : Nat) (inner : Reader Json) : Reader Json := do
  match ← head with
  | .scalar v => pure v
  | .opening .square => do
    spend levels
    let vs ← items inner
    pure (.array vs)
  | .opening .curly => do
    spend levels
    let ms ← members (fun k ms => do
      colon
      let v ← inner
      pure ((k, v) :: ms)) []
    close .curly
    pure (.object ms.reverse)

/-- A value as it is, for which there are some levels left. -/
def value : Nat → Reader Json
  | 0 => valueWith 0 (fault .malformed)
  | levels + 1 => valueWith (levels + 1) (value levels)

/-- What a reader reads from a text, in which nothing else may stand. -/
def read {α : Type} (r : Reader α) (text : String) : Except ReadError α :=
  match r.run (tokens text.toList) with
  | .ok (a, []) => .ok a
  | .ok (_, _ :: _) => .error (.fault .malformed)
  | .error e => .error e

end Reader

end IdlModel.Json
