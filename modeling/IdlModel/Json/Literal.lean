import IdlModel.Except
import IdlModel.Json.Number
import IdlModel.Text.Hex

/-!
# Literals of JSON texts

Strings, numbers and words as they are written. Each scanner takes the text from where the literal
begins and gives what it found together with the text behind it, or the fault that stops it.

A string is scanned in two stages: `StringLiteral.scan` finds its end and tells the escapes apart,
which is all that is needed to pass over it, and `StringLiteral.value` puts together the
characters, for which escaped surrogates have to come in pairs.
-/

namespace IdlModel.Json

/-- What is wrong with a text that is not JSON. -/
inductive Fault where
  /-- It ends too early. -/
  | endOfText
  /-- It goes on with something that cannot stand there. -/
  | malformed
  deriving DecidableEq, Repr, Inhabited

/-! ## Strings -/

/-- A part of a string literal. -/
inductive Piece where
  /-- A character, written as it is or escaped by a letter. -/
  | char (c : Char)
  /-- A code unit of sixteen bits, escaped by its number. -/
  | unit (n : Nat)
  deriving DecidableEq, Repr

/-- A string literal behind its opening quote: its parts, and the text behind the closing quote or
the fault that there is instead of one. -/
structure StringLiteral where
  pieces : List Piece
  after : Except Fault (List Char)

/-- The character that a letter behind a backslash stands for. -/
def escaped? : Char → Option Char
  | '"' => some '"'
  | '\\' => some '\\'
  | '/' => some '/'
  | 'b' => some '\x08'
  | 'f' => some '\x0c'
  | 'n' => some '\n'
  | 'r' => some '\r'
  | 't' => some '\t'
  | _ => none

/-- The number of bytes of a text in UTF-8. -/
def byteLength (cs : List Char) : Nat :=
  (String.ofList cs).utf8ByteSize

namespace StringLiteral

/-- The literal with one more part in front. -/
def cons (p : Piece) (l : StringLiteral) : StringLiteral :=
  { l with pieces := p :: l.pieces }

/-- The literal that goes no further because of a fault. -/
def stop (f : Fault) : StringLiteral :=
  ⟨[], .error f⟩

/-- A string literal from behind its opening quote. The four digits of a code unit are counted in
bytes: the text has ended too early only if fewer than four bytes are left. -/
def scan : List Char → StringLiteral
  | [] => stop .endOfText
  | c :: cs =>
    if c = '"' then ⟨[], .ok cs⟩
    else if c = '\\' then
      match cs with
      | [] => stop .endOfText
      | 'u' :: a :: b :: c :: d :: rest =>
        match Text.hexNumber? [a, b, c, d] with
        | some n => (scan rest).cons (.unit n)
        | none => stop .malformed
      | 'u' :: rest => stop (if byteLength rest < 4 then .endOfText else .malformed)
      | e :: rest =>
        match escaped? e with
        | some c => (scan rest).cons (.char c)
        | none => stop .malformed
    else if c.toNat < 0x20 then stop .malformed
    else (scan cs).cons (.char c)

/-- Is the code unit the first half of a pair? -/
def isHighSurrogate (n : Nat) : Bool :=
  0xD800 ≤ n && n ≤ 0xDBFF

/-- Is the code unit the second half of a pair? -/
def isLowSurrogate (n : Nat) : Bool :=
  0xDC00 ≤ n && n ≤ 0xDFFF

/-- The character that two halves stand for. -/
def surrogatePair (high low : Nat) : Char :=
  Char.ofNat (0x10000 + (high - 0xD800) * 0x400 + (low - 0xDC00))

/-- The characters that parts stand for. What happens behind the last part is `ending`: nothing,
if the literal is closed there, or the fault that stops it. -/
def decode (ending : Option Fault) : List Piece → Except Fault (List Char)
  | [] => match ending with
    | some f => .error f
    | none => .ok []
  | .char c :: ps => (c :: ·) <$> decode ending ps
  | .unit n :: ps =>
    if isLowSurrogate n then .error .malformed
    else if isHighSurrogate n then
      match ps with
      | [] => .error (ending.getD .malformed)
      | .char _ :: _ => .error .malformed
      | .unit m :: ps =>
        if isLowSurrogate m then (surrogatePair n m :: ·) <$> decode ending ps
        else .error .malformed
    else (Char.ofNat n :: ·) <$> decode ending ps

/-- The characters of a literal. -/
def value (l : StringLiteral) : Except Fault (List Char) :=
  match l.after with
  | .ok _ => decode none l.pieces
  | .error f => decode (some f) l.pieces

/-- The text behind a literal is shorter than the literal and that text together. -/
theorem length_after_lt {cs rest : List Char} (h : (scan cs).after = .ok rest) :
    rest.length < cs.length := by
  fun_induction scan cs generalizing rest with
  | case1 => simp [stop] at h
  | case2 => simp_all
  | case3 => simp [stop] at h
  | case4 _ _ _ _ _ _ _ _ ih => have := ih h; simp; omega
  | case5 => simp [stop] at h
  | case6 => simp [stop] at h
  | case7 _ _ _ _ _ _ _ ih => have := ih h; simp; omega
  | case8 => simp [stop] at h
  | case9 => simp [stop] at h
  | case10 _ _ _ _ _ ih => have := ih h; simp; omega

end StringLiteral

/-! ## Numbers -/

/-- A run of digits, of which there has to be one at least, and the text behind it. -/
def scanDigits (cs : List Char) : Except Fault (List Char × List Char) :=
  match cs with
  | [] => .error .endOfText
  | c :: _ =>
    if c.isDigit then .ok (cs.takeWhile Char.isDigit, cs.dropWhile Char.isDigit)
    else .error .malformed

/-- The digits in front of the point: a leading zero stands alone. -/
def scanWhole (cs : List Char) : Except Fault (List Char × List Char) := do
  let (ds, rest) ← scanDigits cs
  if ds.head? = some '0' ∧ 1 < ds.length then .error .malformed else .ok (ds, rest)

/-- The digits behind a point, if there is one. -/
def scanFraction : List Char → Except Fault (Option (List Char) × List Char)
  | '.' :: cs => do
    let (ds, rest) ← scanDigits cs
    .ok (some ds, rest)
  | cs => .ok (none, cs)

/-- Whether a minus sign comes first, and the text behind the sign. Only an exponent may have a
plus sign. -/
def scanSign (plus : Bool) : List Char → Bool × List Char
  | [] => (false, [])
  | c :: cs =>
    if c = '-' then (true, cs) else if plus ∧ c = '+' then (false, cs) else (false, c :: cs)

/-- The sign and the digits of an exponent, if there is one. -/
def scanExponent (cs : List Char) : Except Fault (Option (Bool × List Char) × List Char) :=
  match cs with
  | [] => .ok (none, [])
  | c :: rest =>
    if c = 'e' ∨ c = 'E' then do
      let (ds, behind) ← scanDigits (scanSign true rest).2
      .ok (some ((scanSign true rest).1, ds), behind)
    else .ok (none, cs)

/-- A number, and the text behind it. -/
def Numeral.scan (cs : List Char) : Except Fault (Numeral × List Char) := do
  let (whole, rest) ← scanWhole (scanSign false cs).2
  let (fraction, rest) ← scanFraction rest
  let (exponent, rest) ← scanExponent rest
  .ok ({ negative := (scanSign false cs).1, whole, fraction, exponent }, rest)

theorem length_scanDigits_lt {cs ds rest : List Char} (h : scanDigits cs = .ok (ds, rest)) :
    rest.length < cs.length := by
  cases cs with
  | nil => simp [scanDigits] at h
  | cons c cs =>
    rw [scanDigits] at h
    split at h
    · next hc =>
      obtain ⟨-, rfl⟩ := Prod.mk.inj (Except.ok.inj h)
      have := (List.dropWhile_sublist Char.isDigit (l := cs)).length_le
      simp only [List.dropWhile_cons, hc, if_true, List.length_cons]
      omega
    · simp at h

theorem length_scanSign_le (plus : Bool) (cs : List Char) :
    (scanSign plus cs).2.length ≤ cs.length := by
  cases cs with
  | nil => exact Nat.le_refl _
  | cons c cs =>
    rw [scanSign]
    split
    · simp
    · split <;> simp

theorem length_scanWhole_lt {cs ds rest : List Char} (h : scanWhole cs = .ok (ds, rest)) :
    rest.length < cs.length := by
  obtain ⟨⟨ds', rest'⟩, hd, h⟩ := bind_eq_ok_iff.1 h
  simp only at h
  split at h
  · simp at h
  · cases h
    exact length_scanDigits_lt hd

theorem length_scanFraction_le {cs rest : List Char} {ds : Option (List Char)}
    (h : scanFraction cs = .ok (ds, rest)) : rest.length ≤ cs.length := by
  unfold scanFraction at h
  split at h
  · obtain ⟨⟨ds', rest'⟩, hd, h⟩ := bind_eq_ok_iff.1 h
    cases h
    exact Nat.le_succ_of_le (Nat.le_of_lt (length_scanDigits_lt hd))
  · cases h
    exact Nat.le_refl _

theorem length_scanExponent_le {cs rest : List Char} {e : Option (Bool × List Char)}
    (h : scanExponent cs = .ok (e, rest)) : rest.length ≤ cs.length := by
  unfold scanExponent at h
  split at h
  · cases h
    exact Nat.le_refl _
  · next c tail =>
    split at h
    · obtain ⟨⟨ds', rest'⟩, hd, h⟩ := bind_eq_ok_iff.1 h
      cases h
      have := length_scanDigits_lt hd
      have := length_scanSign_le true tail
      simp only [List.length_cons]
      omega
    · cases h
      exact Nat.le_refl _

/-- The text behind a number is shorter than the number and that text together. -/
theorem Numeral.length_scan_lt {cs rest : List Char} {x : Numeral}
    (h : Numeral.scan cs = .ok (x, rest)) : rest.length < cs.length := by
  obtain ⟨⟨_, _⟩, hw, h⟩ := bind_eq_ok_iff.1 h
  obtain ⟨⟨_, _⟩, hf, h⟩ := bind_eq_ok_iff.1 h
  obtain ⟨⟨_, _⟩, he, h⟩ := bind_eq_ok_iff.1 h
  cases h
  have := length_scanSign_le false cs
  have := length_scanWhole_lt hw
  have := length_scanFraction_le hf
  have := length_scanExponent_le he
  omega

/-! ## Words -/

/-- The text behind a word that has to come next. -/
def scanWord : List Char → List Char → Except Fault (List Char)
  | [], cs => .ok cs
  | _ :: _, [] => .error .endOfText
  | w :: ws, c :: cs => if c = w then scanWord ws cs else .error .malformed

theorem length_scanWord_le {word cs rest : List Char} (h : scanWord word cs = .ok rest) :
    rest.length ≤ cs.length := by
  fun_induction scanWord word cs with
  | case1 => simp_all
  | case2 => simp at h
  | case3 _ _ _ ih => have := ih h; simp; omega
  | case4 => simp at h

end IdlModel.Json
