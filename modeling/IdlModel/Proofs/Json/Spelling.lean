import IdlModel.Json.Printer
import IdlModel.Proofs.Json.Written

/-!
# The tokens of a printed value

`Json.toTokens` spells a value out in tokens. The text of a printed value is made of these tokens,
whatever the layout (`Json.written_print`), so a reader of tokens need not know about layouts,
escapes and white space.

The law is for values in which no number occurs, as in the forms of documents and of trees. A number
would have to be kept apart from digits behind it.
-/

namespace IdlModel.Json

/-- No number occurs in the value. -/
inductive NumberFree : Json → Prop where
  | null : NumberFree .null
  | bool (b : Bool) : NumberFree (.bool b)
  | string (s : String) : NumberFree (.string s)
  | array {vs : List Json} (items : ∀ v ∈ vs, NumberFree v) : NumberFree (.array vs)
  | object {ms : List (String × Json)} (members : ∀ m ∈ ms, NumberFree m.2) :
    NumberFree (.object ms)

/-- What stands in front of an item or a member: a comma, unless it is the first. -/
def separator (first : Bool) : List Token :=
  if first then [] else [.comma]

mutual

/-- The tokens of a value. -/
def toTokens : Json → List Token
  | .null => [.null]
  | .bool b => [.bool b]
  | .number n => tokens n.text.toList
  | .string s => [.string (.ok s)]
  | .array vs => .opening .square :: (itemTokens true vs ++ [.closing .square])
  | .object ms => .opening .curly :: (memberTokens true ms ++ [.closing .curly])

/-- The tokens of the items of an array, up to the closing bracket. -/
def itemTokens (first : Bool) : List Json → List Token
  | [] => []
  | v :: vs => separator first ++ (v.toTokens ++ itemTokens false vs)

/-- The tokens of the members of an object, up to the closing bracket. -/
def memberTokens (first : Bool) : List (String × Json) → List Token
  | [] => []
  | (k, v) :: ms =>
    separator first ++
      (.string (.ok k) :: .colon :: (v.toTokens ++ memberTokens false ms))

end

/-! ## White space, strings and words -/

theorem Layout.isSpace_lineBreak (layout : Layout) : ∀ c ∈ layout.lineBreak, Token.isSpace c := by
  intro c hc
  cases layout with
  | compact => cases hc
  | indented depth =>
    rcases List.mem_cons.1 hc with rfl | hc
    · rfl
    · obtain rfl := List.eq_of_mem_replicate hc
      rfl

theorem written_lineBreak (layout : Layout) : Written [] layout.lineBreak :=
  .blank layout.isSpace_lineBreak

theorem written_colon (layout : Layout) : Written [.colon] layout.colon := by
  cases layout with
  | compact => exact .ofChar rfl
  | indented depth => exact (Written.ofChar (c := ':') rfl).append (.space rfl .nil)

namespace StringLiteral

/-- A number below 32 by its four digits. -/
theorem hexNumber?_hexDigits {n : Nat} (h : n < 0x20) :
    Text.hexNumber? ['0', '0', Text.hexDigit (n / 16), Text.hexDigit (n % 16)] = some n := by
  revert n
  decide

theorem decode_unit {n : Nat} (h : n < 0x20) (ending : Option Fault) (ps : List Piece) :
    decode ending (.unit n :: ps) = (Char.ofNat n :: ·) <$> decode ending ps := by
  have hlow : isLowSurrogate n = false := by simp [isLowSurrogate]; omega
  have hhigh : isHighSurrogate n = false := by simp [isHighSurrogate]; omega
  rw [decode.eq_def]
  simp [hlow, hhigh]

/-- Each character is written as one part of a literal, which stands for it. -/
theorem exists_piece (c : Char) : ∃ p : Piece, p.Spelled (escapeChar c) ∧
    ∀ ending ps, decode ending (p :: ps) = (c :: ·) <$> decode ending ps := by
  unfold escapeChar
  split
  · exact ⟨.char '"', .letter rfl, fun _ _ => rfl⟩
  · exact ⟨.char '\\', .letter rfl, fun _ _ => rfl⟩
  · exact ⟨.char '\x08', .letter rfl, fun _ _ => rfl⟩
  · exact ⟨.char '\t', .letter rfl, fun _ _ => rfl⟩
  · exact ⟨.char '\n', .letter rfl, fun _ _ => rfl⟩
  · exact ⟨.char '\x0c', .letter rfl, fun _ _ => rfl⟩
  · exact ⟨.char '\r', .letter rfl, fun _ _ => rfl⟩
  · next hquote hslash _ _ _ _ _ =>
    split
    · next hc =>
      refine ⟨.unit c.toNat, .unit (hexNumber?_hexDigits hc), fun ending ps => ?_⟩
      rw [decode_unit hc, Char.ofNat_toNat]
    · next hc => exact ⟨.char c, .plain hquote hslash hc, fun _ _ => rfl⟩

/-- What is written for characters are parts of a literal that stand for them. -/
theorem exists_quoted (cs : List Char) :
    ∃ ps, Quoted ps (cs.flatMap escapeChar ++ ['"']) ∧ decode none ps = .ok cs := by
  induction cs with
  | nil => exact ⟨[], .close, rfl⟩
  | cons c cs ih =>
    obtain ⟨p, hp, hdecode⟩ := exists_piece c
    obtain ⟨ps, hps, hcs⟩ := ih
    refine ⟨p :: ps, ?_, ?_⟩
    · rw [List.flatMap_cons, List.append_assoc]
      exact .piece hp hps
    · rw [hdecode, hcs]
      rfl

end StringLiteral

theorem written_printString (s : String) : Written [.string (.ok s)] (printString s) := by
  obtain ⟨ps, hps, hs⟩ := StringLiteral.exists_quoted s.toList
  exact (Token.Spelled.string hps hs).written

theorem written_null : Written [.null] "null".toList :=
  (Token.Spelled.word (c := 'n') rfl).written

theorem written_bool (b : Bool) : Written [.bool b] (if b then "true" else "false").toList := by
  cases b with
  | true => exact (Token.Spelled.word (c := 't') rfl).written
  | false => exact (Token.Spelled.word (c := 'f') rfl).written

/-! ## Values -/

theorem written_printItems {vs : List Json} (layout : Layout)
    (h : ∀ v ∈ vs, Written v.toTokens (print layout v)) :
    Written (itemTokens false vs) (printItems layout vs) := by
  induction vs with
  | nil => exact .nil
  | cons v vs ih =>
    have hv := (written_lineBreak layout).append (h v List.mem_cons_self)
    have hvs := ih fun w hw => h w (List.mem_cons_of_mem v hw)
    exact (Written.ofChar (c := ',') rfl).append (hv.append hvs)

theorem written_member {v : Json} (layout : Layout) (k : String)
    (h : Written v.toTokens (print layout v)) :
    Written (.string (.ok k) :: .colon :: v.toTokens)
      (layout.lineBreak ++ printString k ++ layout.colon ++ print layout v) :=
  (((written_lineBreak layout).append (written_printString k)).append
    (written_colon layout)).append h

theorem written_printMembers {ms : List (String × Json)} (layout : Layout)
    (h : ∀ m ∈ ms, Written m.2.toTokens (print layout m.2)) :
    Written (memberTokens false ms) (printMembers layout ms) := by
  induction ms with
  | nil => exact .nil
  | cons m ms ih =>
    have hm := written_member layout m.1 (h m List.mem_cons_self)
    have hms := ih fun w hw => h w (List.mem_cons_of_mem m hw)
    exact (Written.ofChar (c := ',') rfl).append (hm.append hms)

/-- The text of a value is made of the tokens of the value, whatever the layout. -/
theorem written_print {v : Json} (h : v.NumberFree) (layout : Layout) :
    Written v.toTokens (print layout v) := by
  induction h generalizing layout with
  | null => exact written_null
  | bool b => exact written_bool b
  | string s => exact written_printString s
  | @array vs _ ih =>
    have hclose : Written [.closing .square] (layout.lineBreak ++ [']']) :=
      (written_lineBreak layout).append (.ofChar rfl)
    cases vs with
    | nil => exact (Written.ofChar (c := '[') rfl).append (.ofChar rfl)
    | cons v vs =>
      have hv := (written_lineBreak layout.deeper).append (ih v List.mem_cons_self layout.deeper)
      have hvs := written_printItems layout.deeper fun w hw =>
        ih w (List.mem_cons_of_mem v hw) layout.deeper
      have := (Written.ofChar (c := '[') rfl).append (hv.append (hvs.append hclose))
      simpa [toTokens, itemTokens, separator, print] using this
  | @object ms _ ih =>
    have hclose : Written [.closing .curly] (layout.lineBreak ++ ['\x7d']) :=
      (written_lineBreak layout).append (.ofChar rfl)
    cases ms with
    | nil => exact (Written.ofChar (c := '\x7b') rfl).append (.ofChar rfl)
    | cons m ms =>
      have hm := written_member layout.deeper m.1 (ih m List.mem_cons_self layout.deeper)
      have hms := written_printMembers layout.deeper fun w hw =>
        ih w (List.mem_cons_of_mem m hw) layout.deeper
      have := (Written.ofChar (c := '\x7b') rfl).append (hm.append (hms.append hclose))
      simpa [toTokens, memberTokens, separator, print] using this

end IdlModel.Json
