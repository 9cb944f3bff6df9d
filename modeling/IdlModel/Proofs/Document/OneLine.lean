import IdlModel.Proofs.Document.RoundTrip
import IdlModel.Proofs.Text.Pieces

/-!
# The two layouts of a document

`Region` tells for each character of a JSON text whether it stands inside a string or outside, by
reading from the left: an unescaped quote goes in or out. Outside strings, the spaces and newlines
are all that the layout over several lines has more than the layout on one line, and no character
below U+0020 stands in either but these newlines (`Document.withoutLayout_render`).

Text that begins and ends outside strings can be put together (`Lays.append`), so the law goes
from tokens to values.
-/

namespace IdlModel

namespace Json

/-- Where in a JSON text a character stands: outside the strings, in a string, or in a string
directly behind a backslash. -/
inductive Region where
  | outside
  | inside
  | escaped
  deriving DecidableEq, Repr

namespace Region

/-- Where the next character stands. -/
def next : Region → Char → Region
  | outside, c => if c = '"' then inside else outside
  | inside, c => if c = '"' then outside else if c = '\\' then escaped else inside
  | escaped, _ => inside

/-- Where the character behind a text stands. -/
def after (r : Region) (cs : List Char) : Region :=
  cs.foldl next r

/-- The characters of a text, each with where it stands. -/
def spots (r : Region) : List Char → List (Char × Region)
  | [] => []
  | c :: cs => (c, r) :: spots (r.next c) cs

theorem after_append (r : Region) (cs ds : List Char) :
    r.after (cs ++ ds) = (r.after cs).after ds :=
  List.foldl_append

theorem spots_append (r : Region) (cs ds : List Char) :
    r.spots (cs ++ ds) = r.spots cs ++ (r.after cs).spots ds := by
  induction cs generalizing r with
  | nil => rfl
  | cons c cs ih =>
    rw [List.cons_append, spots, spots, ih, List.cons_append]
    rfl

end Region

theorem Region.map_fst_spots (r : Region) (cs : List Char) : (r.spots cs).map Prod.fst = cs := by
  induction cs generalizing r with
  | nil => rfl
  | cons c cs ih => rw [spots, List.map_cons, ih]

/-- Is this white space between tokens, a space or a newline outside strings? -/
def isLayout (m : Char × Region) : Bool :=
  m.2 == .outside && (m.1 == ' ' || m.1 == '\n')

/-- A JSON text without the spaces and newlines outside its strings. -/
def withoutLayout (cs : List Char) : List Char :=
  ((Region.outside.spots cs).filter (!isLayout ·)).map Prod.fst

theorem withoutLayout_eq_self {cs : List Char}
    (h : ∀ m ∈ Region.outside.spots cs, isLayout m = false) : withoutLayout cs = cs := by
  have hkept : ∀ m ∈ Region.outside.spots cs, (!isLayout m) = true := fun m hm => by rw [h m hm]; rfl
  rw [withoutLayout, List.filter_eq_self.2 hkept, Region.map_fst_spots]

/-- A text that begins and ends outside strings, with the same text on one line. Of the characters
below U+0020 only newlines occur in it, and these outside strings. -/
structure Lays (cs line : List Char) : Prop where
  after : Region.outside.after cs = .outside
  withoutLayout : withoutLayout cs = line
  control : ∀ m ∈ Region.outside.spots cs, m.1.toNat < 0x20 → m = ('\n', .outside)

namespace Lays

theorem nil : Lays [] [] :=
  ⟨rfl, rfl, fun _ hm => absurd hm List.not_mem_nil⟩

theorem append {cs ds line line' : List Char} (h : Lays cs line) (h' : Lays ds line') :
    Lays (cs ++ ds) (line ++ line') := by
  have hspots : Region.outside.spots (cs ++ ds) =
      Region.outside.spots cs ++ Region.outside.spots ds := by
    rw [Region.spots_append, h.after]
  refine ⟨?_, ?_, ?_⟩
  · rw [Region.after_append, h.after, h'.after]
  · rw [Json.withoutLayout, hspots, List.filter_append, List.map_append]
    rw [← h.withoutLayout, ← h'.withoutLayout]
    rfl
  · rw [hspots]
    exact List.forall_mem_append.2 ⟨h.control, h'.control⟩

/-- What is left on one line has no character below U+0020. -/
theorem le_toNat {cs line : List Char} (h : Lays cs line) : ∀ c ∈ line, 0x20 ≤ c.toNat := by
  intro c hc
  rw [← h.withoutLayout] at hc
  obtain ⟨m, hm, rfl⟩ := List.mem_map.1 hc
  obtain ⟨hspot, hkept⟩ := List.mem_filter.1 hm
  refine Nat.le_of_not_lt fun hlow => ?_
  rw [h.control m hspot hlow] at hkept
  cases hkept

end Lays

/-! ## Tokens -/

theorem lays_char {c : Char} (hquote : c ≠ '"') (hc : 0x20 < c.toNat) : Lays [c] [c] := by
  have hspace : c ≠ ' ' ∧ c ≠ '\n' := by
    constructor <;> rintro rfl <;> exact absurd hc (by decide)
  refine ⟨?_, ?_, ?_⟩
  · show Region.next .outside c = .outside
    rw [Region.next, if_neg hquote]
  · simp [withoutLayout, Region.spots, isLayout, hspace.1, hspace.2]
  · intro m hm hlow
    rw [List.mem_singleton.1 hm] at hlow
    exact absurd hlow (Nat.not_lt_of_lt hc)

/-- A word or a bracket is neither layout nor a string. -/
theorem lays_word {cs : List Char} (h : cs.all fun c => c ≠ '"' ∧ 0x20 < c.toNat) :
    Lays cs cs := by
  induction cs with
  | nil => exact .nil
  | cons c cs ih =>
    rw [List.all_cons, Bool.and_eq_true, decide_eq_true_eq] at h
    exact (lays_char h.1.1 h.1.2).append (ih h.2)

theorem lays_lineBreak (layout : Layout) : Lays layout.lineBreak [] := by
  have hspace : Lays [' '] [] := ⟨rfl, rfl, by decide⟩
  have hspaces : ∀ n, Lays (List.replicate n ' ') [] := by
    intro n
    induction n with
    | zero => exact .nil
    | succ n ih => exact hspace.append ih
  have hnewline : Lays ['\n'] [] := ⟨rfl, rfl, by decide⟩
  cases layout with
  | compact => exact .nil
  | indented depth => exact hnewline.append (hspaces _)

theorem lays_colon (layout : Layout) : Lays layout.colon [':'] := by
  cases layout with
  | compact => exact lays_word (by decide)
  | indented depth =>
    have hspace : Lays [':', ' '] [':'] := ⟨rfl, rfl, by decide⟩
    exact hspace

/-! ## Strings -/

/-- A part of a string: nothing in it stands outside, and nothing in it is below U+0020. -/
structure Stays (cs : List Char) : Prop where
  after : Region.inside.after cs = .inside
  spots : ∀ m ∈ Region.inside.spots cs, m.2 ≠ .outside ∧ 0x20 ≤ m.1.toNat

theorem Stays.append {cs ds : List Char} (h : Stays cs) (h' : Stays ds) : Stays (cs ++ ds) := by
  refine ⟨?_, ?_⟩
  · rw [Region.after_append, h.after, h'.after]
  · rw [Region.spots_append, h.after]
    exact List.forall_mem_append.2 ⟨h.spots, h'.spots⟩

theorem stays_unit {n : Nat} (h : n < 0x20) :
    Stays ['\\', 'u', '0', '0', Text.hexDigit (n / 16), Text.hexDigit (n % 16)] := by
  constructor
  · revert n
    decide
  · revert n
    decide

theorem stays_escapeChar (c : Char) : Stays (escapeChar c) := by
  unfold escapeChar
  split
  · exact ⟨rfl, by decide⟩
  · exact ⟨rfl, by decide⟩
  · exact ⟨rfl, by decide⟩
  · exact ⟨rfl, by decide⟩
  · exact ⟨rfl, by decide⟩
  · exact ⟨rfl, by decide⟩
  · exact ⟨rfl, by decide⟩
  · next hquote hslash _ _ _ _ _ =>
    split
    · next hc => exact stays_unit hc
    · next hc =>
      refine ⟨?_, ?_⟩
      · show Region.next .inside c = .inside
        rw [Region.next, if_neg hquote, if_neg hslash]
      · intro m hm
        rw [List.mem_singleton.1 hm]
        exact ⟨nofun, Nat.le_of_not_lt hc⟩

theorem stays_flatMap_escapeChar (cs : List Char) : Stays (cs.flatMap escapeChar) := by
  induction cs with
  | nil => exact ⟨rfl, fun _ hm => absurd hm List.not_mem_nil⟩
  | cons c cs ih =>
    rw [List.flatMap_cons]
    exact (stays_escapeChar c).append ih

/-- In a string nothing is layout. -/
theorem Stays.lays_quoted {cs : List Char} (h : Stays cs) :
    Lays ('"' :: cs ++ ['"']) ('"' :: cs ++ ['"']) := by
  have hspots : Region.outside.spots ('"' :: cs ++ ['"']) =
      ('"', .outside) :: (Region.inside.spots cs ++ [('"', .inside)]) := by
    rw [List.cons_append, Region.spots]
    show ('"', Region.outside) :: Region.inside.spots (cs ++ ['"']) = _
    rw [Region.spots_append, h.after]
    rfl
  have hcases : ∀ m ∈ Region.outside.spots ('"' :: cs ++ ['"']),
      m.1 = '"' ∨ m.2 ≠ .outside ∧ 0x20 ≤ m.1.toNat := by
    rw [hspots, List.forall_mem_cons, List.forall_mem_append, List.forall_mem_singleton]
    exact ⟨.inl rfl, fun m hm => .inr (h.spots m hm), .inl rfl⟩
  refine ⟨?_, withoutLayout_eq_self fun m hm => ?_, fun m hm hlow => ?_⟩
  · show Region.inside.after (cs ++ ['"']) = .outside
    rw [Region.after_append, h.after]
    rfl
  · rcases hcases m hm with hquote | ⟨hinside, -⟩
    · simp [isLayout, hquote]
    · simp [isLayout, hinside]
  · rcases hcases m hm with hquote | ⟨-, hhigh⟩
    · rw [hquote] at hlow
      exact absurd hlow (by decide)
    · exact absurd hlow (Nat.not_lt_of_le hhigh)

theorem lays_printString (s : String) : Lays (printString s) (printString s) :=
  (stays_flatMap_escapeChar s.toList).lays_quoted

/-! ## Values -/

/-- Printing a value in any layout and on one line differs in layout only. -/
def LaysOut (v : Json) : Prop :=
  ∀ layout, Lays (print layout v) (print .compact v)

theorem lays_printItems {vs : List Json} (h : ∀ v ∈ vs, v.LaysOut) (layout : Layout) :
    Lays (printItems layout vs) (printItems .compact vs) := by
  induction vs with
  | nil => exact .nil
  | cons v vs ih =>
    rw [List.forall_mem_cons] at h
    have hcomma : Lays [','] [','] := lays_word (by decide)
    rw [printItems, printItems]
    exact hcomma.append (((lays_lineBreak layout).append (h.1 layout)).append (ih h.2))

theorem lays_printMembers {ms : List (String × Json)} (h : ∀ m ∈ ms, m.2.LaysOut)
    (layout : Layout) : Lays (printMembers layout ms) (printMembers .compact ms) := by
  induction ms with
  | nil => exact .nil
  | cons m ms ih =>
    obtain ⟨k, v⟩ := m
    rw [List.forall_mem_cons] at h
    have hcomma : Lays [','] [','] := lays_word (by decide)
    have hkey := ((lays_lineBreak layout).append (lays_printString k)).append (lays_colon layout)
    rw [printMembers, printMembers]
    exact hcomma.append ((hkey.append (h.1 layout)).append (ih h.2))

/-- The two layouts of a value without numbers differ in layout only. -/
theorem NumberFree.laysOut {v : Json} (h : v.NumberFree) : v.LaysOut := by
  induction h with
  | null =>
    have hword : Lays "null".toList "null".toList := lays_word (by decide)
    exact fun _ => hword
  | bool b =>
    have hword : (if b then "true" else "false").toList.all
        fun c => c ≠ '"' ∧ 0x20 < c.toNat := by
      cases b <;> decide
    exact fun _ => lays_word hword
  | string s => exact fun _ => lays_printString s
  | @array vs _ ih =>
    intro layout
    cases vs with
    | nil =>
      have hword : Lays ['[', ']'] ['[', ']'] := lays_word (by decide)
      exact hword
    | cons v vs =>
      rw [List.forall_mem_cons] at ih
      have hopen : Lays ['['] ['['] := lays_word (by decide)
      have hclose : Lays [']'] [']'] := lays_word (by decide)
      have hfirst := (lays_lineBreak layout.deeper).append (ih.1 layout.deeper)
      have hrest := lays_printItems ih.2 layout.deeper
      rw [print, print]
      exact hopen.append (hfirst.append (hrest.append ((lays_lineBreak layout).append hclose)))
  | @object ms _ ih =>
    intro layout
    cases ms with
    | nil =>
      have hword : Lays ['\x7b', '\x7d'] ['\x7b', '\x7d'] := lays_word (by decide)
      exact hword
    | cons m ms =>
      obtain ⟨k, v⟩ := m
      rw [List.forall_mem_cons] at ih
      have hopen : Lays ['\x7b'] ['\x7b'] := lays_word (by decide)
      have hclose : Lays ['\x7d'] ['\x7d'] := lays_word (by decide)
      have hkey := ((lays_lineBreak layout.deeper).append (lays_printString k)).append
        (lays_colon layout.deeper)
      have hrest := lays_printMembers ih.2 layout.deeper
      rw [print, print]
      exact hopen.append ((hkey.append (ih.1 layout.deeper)).append
        (hrest.append ((lays_lineBreak layout).append hclose)))

end Json

open Json (Region withoutLayout)

/-- Without the spaces and newlines outside its strings, a document over several lines is the
document on one line. There no character below U+0020 occurs, no newline either, and over several
lines none but the newlines outside strings. -/
theorem Document.withoutLayout_render (d : Document) :
    withoutLayout (d.render .json).toList = (d.render .raw).toList ∧
      (∀ c ∈ (d.render .raw).toList, 0x20 ≤ c.toNat) ∧
      Text.pieces (d.render .raw).toList = [(d.render .raw).toList] ∧
      ∀ m ∈ Region.outside.spots (d.render .json).toList,
        m.1.toNat < 0x20 → m = ('\n', Region.outside) := by
  have hlays := d.readable_toJson.numberFree.laysOut (.indented 0)
  rw [render, render, Json.pretty, Json.compact, String.toList_ofList, String.toList_ofList]
  refine ⟨hlays.withoutLayout, hlays.le_toNat, Text.pieces_of_newline_not_mem fun hmem => ?_,
    hlays.control⟩
  exact absurd (hlays.le_toNat _ hmem) (by decide)

end IdlModel
