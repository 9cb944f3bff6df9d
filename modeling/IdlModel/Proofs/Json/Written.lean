import IdlModel.Except
import IdlModel.Json.Token

/-!
# Texts that are made of tokens

`Written ts cs` is the grammar of texts: the tokens `ts` one after the other, each spelled in one of
its ways, and white space wherever it does not come into a token. Characters of a string may be
escaped or not. Numbers have no spelling here; they would have to be kept apart from digits behind
them.

There are two laws. Cutting a text into tokens gives the tokens it is made of, however they are
spelled (`Written.tokens_eq`). If the text breaks off, the same tokens come up to the break, and
there may be one last token which says that the text has ended in the middle of it (`Written.cut`).
-/

namespace IdlModel.Json

/-! ## The grammar -/

/-- The ways to write a part of a string. -/
inductive Piece.Spelled : Piece → List Char → Prop
  /-- A character as it is. -/
  | plain {c : Char} (hquote : c ≠ '"') (hslash : c ≠ '\\') (hc : ¬ c.toNat < 0x20) :
    Spelled (.char c) [c]
  /-- A character escaped by a letter. -/
  | letter {e c : Char} (h : escaped? e = some c) : Spelled (.char c) ['\\', e]
  /-- A code unit by its four digits. -/
  | unit {a b c d : Char} {n : Nat} (h : Text.hexNumber? [a, b, c, d] = some n) :
    Spelled (.unit n) ['\\', 'u', a, b, c, d]

/-- The ways to write the parts of a string and its closing quote. -/
inductive Quoted : List Piece → List Char → Prop
  | close : Quoted [] ['"']
  | piece {p : Piece} {ps : List Piece} {w cs : List Char} (hp : p.Spelled w) (hps : Quoted ps cs) :
    Quoted (p :: ps) (w ++ cs)

/-- The ways to write a token. -/
inductive Token.Spelled : Token → List Char → Prop
  | char {c : Char} {t : Token} (h : ofChar? c = some t) : Spelled t [c]
  | word {c : Char} {word : List Char} {t : Token} (h : word? c = some (word, t)) :
    Spelled t (c :: word)
  | string {s : String} {ps : List Piece} {cs : List Char} (hps : Quoted ps cs)
    (hs : StringLiteral.decode none ps = .ok s.toList) : Spelled (.string (.ok s)) ('"' :: cs)

/-- The texts that are made of some tokens. -/
inductive Written : List Token → List Char → Prop
  | nil : Written [] []
  | space {ts : List Token} {c : Char} {cs : List Char} (hc : Token.isSpace c)
    (hts : Written ts cs) : Written ts (c :: cs)
  | token {t : Token} {ts : List Token} {l cs : List Char} (ht : t.Spelled l)
    (hts : Written ts cs) : Written (t :: ts) (l ++ cs)

theorem Written.append {ts us : List Token} {cs ds : List Char} (h : Written ts cs)
    (hus : Written us ds) : Written (ts ++ us) (cs ++ ds) := by
  induction h with
  | nil => exact hus
  | space hc _ ih => exact .space hc ih
  | token ht _ ih =>
    rw [List.append_assoc]
    exact .token ht ih

theorem Written.blank {cs : List Char} (h : ∀ c ∈ cs, Token.isSpace c) : Written [] cs := by
  induction cs with
  | nil => exact .nil
  | cons c cs ih =>
    exact .space (h c List.mem_cons_self) (ih fun d hd => h d (List.mem_cons_of_mem c hd))

theorem Token.Spelled.written {t : Token} {l : List Char} (h : t.Spelled l) : Written [t] l := by
  have := Written.token h .nil
  rwa [List.append_nil] at this

theorem Written.ofChar {c : Char} {t : Token} (h : Token.ofChar? c = some t) : Written [t] [c] :=
  (Token.Spelled.char h).written

/-! ## Strings -/

namespace StringLiteral

theorem scan_escaped {e c : Char} (h : escaped? e = some c) (cs : List Char) :
    scan ('\\' :: e :: cs) = (scan cs).cons (.char c) := by
  have hu : e ≠ 'u' := by
    rintro rfl
    cases h
  rw [scan.eq_def]
  simp [hu, h]

theorem scan_unit {a b c d : Char} {n : Nat} (h : Text.hexNumber? [a, b, c, d] = some n)
    (cs : List Char) :
    scan ('\\' :: 'u' :: a :: b :: c :: d :: cs) = (scan cs).cons (.unit n) := by
  rw [scan.eq_def]
  simp [h]

theorem scan_plain {c : Char} (hquote : c ≠ '"') (hslash : c ≠ '\\') (hc : ¬ c.toNat < 0x20)
    (cs : List Char) : scan (c :: cs) = (scan cs).cons (.char c) := by
  rw [scan.eq_def]
  simp only
  rw [if_neg hquote, if_neg hslash, if_neg hc]

theorem scan_spelled {p : Piece} {w : List Char} (h : p.Spelled w) (cs : List Char) :
    scan (w ++ cs) = (scan cs).cons p := by
  cases h with
  | plain hquote hslash hc => exact scan_plain hquote hslash hc cs
  | letter h => exact scan_escaped h cs
  | unit h => exact scan_unit h cs

theorem scan_quoted {ps : List Piece} {l : List Char} (h : Quoted ps l) (rest : List Char) :
    scan (l ++ rest) = ⟨ps, .ok rest⟩ := by
  induction h with
  | close =>
    show scan ('"' :: rest) = _
    rw [scan.eq_def]
    rfl
  | piece hp _ ih => rw [List.append_assoc, scan_spelled hp, ih, cons]

end StringLiteral

/-! ## The tokens of a text -/

theorem Token.isSpace_eq_false {c : Char} {t : Token} (h : ofChar? c = some t) :
    isSpace c = false := by
  unfold ofChar? at h
  split at h
  · rfl
  · rfl
  · rfl
  · rfl
  · rfl
  · rfl
  · cases h

theorem Token.eq_of_word? {c : Char} {word : List Char} {t : Token}
    (h : word? c = some (word, t)) :
    c = 'n' ∧ word = ['u', 'l', 'l'] ∧ t = .null ∨
      c = 't' ∧ word = ['r', 'u', 'e'] ∧ t = .bool true ∨
        c = 'f' ∧ word = ['a', 'l', 's', 'e'] ∧ t = .bool false := by
  unfold word? at h
  split at h
  · obtain ⟨rfl, rfl⟩ := Prod.mk.inj (Option.some.inj h)
    exact Or.inl ⟨rfl, rfl, rfl⟩
  · obtain ⟨rfl, rfl⟩ := Prod.mk.inj (Option.some.inj h)
    exact Or.inr (Or.inl ⟨rfl, rfl, rfl⟩)
  · obtain ⟨rfl, rfl⟩ := Prod.mk.inj (Option.some.inj h)
    exact Or.inr (Or.inr ⟨rfl, rfl, rfl⟩)
  · cases h

theorem scanWord_append (word rest : List Char) : scanWord word (word ++ rest) = .ok rest := by
  induction word with
  | nil => rfl
  | cons c word ih => rw [List.cons_append, scanWord, if_pos rfl, ih]

/-- A word that the text does not hold to its end. -/
theorem Token.first_of_scanWord {c : Char} {word cs : List Char} {t : Token} {f : Fault}
    (h : word? c = some (word, t)) (hscan : scanWord word cs = .error f) :
    first c cs = (.broken false f f, []) := by
  obtain ⟨rfl, rfl, rfl⟩ | ⟨rfl, rfl, rfl⟩ | ⟨rfl, rfl, rfl⟩ := eq_of_word? h <;>
  · simp only [first, ofChar?, word?, hscan]
    rfl

theorem tokens_of_isSpace {c : Char} (h : Token.isSpace c) (cs : List Char) :
    tokens (c :: cs) = tokens cs := by
  rw [tokens, if_pos h]

theorem tokens_cons {c : Char} (h : Token.isSpace c = false) (cs : List Char) :
    tokens (c :: cs) = (Token.first c cs).1 :: tokens (Token.first c cs).2 := by
  rw [tokens, h, if_neg Bool.false_ne_true]

theorem tokens_spelled {t : Token} {l : List Char} (h : t.Spelled l) (rest : List Char) :
    tokens (l ++ rest) = t :: tokens rest := by
  cases h with
  | @char c _ h =>
    have hfirst : Token.first c rest = (t, rest) := by rw [Token.first, h]
    show tokens (c :: rest) = _
    rw [tokens_cons (Token.isSpace_eq_false h), hfirst]
  | @word c word _ h =>
    have hspace : Token.isSpace c = false := by
      obtain ⟨rfl, -⟩ | ⟨rfl, -⟩ | ⟨rfl, -⟩ := Token.eq_of_word? h <;> rfl
    have hfirst : Token.first c (word ++ rest) = (t, rest) := by
      obtain ⟨rfl, rfl, rfl⟩ | ⟨rfl, rfl, rfl⟩ | ⟨rfl, rfl, rfl⟩ := Token.eq_of_word? h <;>
      · simp only [Token.first, Token.ofChar?, Token.word?, scanWord_append]
        rfl
    rw [List.cons_append, tokens_cons hspace, hfirst]
  | @string s ps cs hps hs =>
    have hscan := StringLiteral.scan_quoted hps rest
    have hfirst : Token.first '"' (cs ++ rest) = (.string (.ok s), rest) := by
      simp [Token.first, Token.ofChar?, StringLiteral.value, hscan, hs, Except.map]
    rw [List.cons_append, tokens_cons rfl, hfirst]

/-- A text is cut into the tokens that it is made of. -/
theorem Written.tokens_eq {ts : List Token} {cs : List Char} (h : Written ts cs) :
    tokens cs = ts := by
  induction h with
  | nil => rw [tokens]
  | space hc _ ih => rw [tokens_of_isSpace hc, ih]
  | token ht _ ih => rw [tokens_spelled ht, ih]

/-! ## Texts that break off -/

/-- Some tokens up to a break: those before it, and perhaps one more that has ended in the middle. -/
inductive Cut : List Token → List Token → Prop
  /-- Between two tokens. -/
  | nil (t : Token) (ts : List Token) : Cut [] (t :: ts)
  /-- In a string. -/
  | string (x : Except Fault String) (ts : List Token) :
    Cut [.broken true .endOfText .endOfText] (.string x :: ts)
  /-- In a word. -/
  | word {t : Token} (ht : t = .null ∨ ∃ b, t = .bool b) (ts : List Token) :
    Cut [.broken false .endOfText .endOfText] (t :: ts)
  /-- Behind a token. -/
  | cons (t : Token) {us ts : List Token} (h : Cut us ts) : Cut (t :: us) (t :: ts)

theorem Cut.length_le {us ts : List Token} (h : Cut us ts) : us.length ≤ ts.length := by
  induction h with
  | nil => exact Nat.zero_le _
  | string | word => simp
  | cons t h ih => exact Nat.succ_le_succ ih

namespace StringLiteral

/-- A hexadecimal digit takes one byte. -/
theorem utf8Size_of_hexValue? {c : Char} {n : Nat} (h : Text.hexValue? c = some n) :
    c.utf8Size = 1 := by
  have hle : c ≤ 'f' := by
    unfold Text.hexValue? at h
    split at h
    · next hc =>
      simp only [Char.isDigit, Bool.and_eq_true, decide_eq_true_eq] at hc
      exact UInt32.le_trans hc.2 (by decide)
    · split at h
      · next hc => exact hc.2
      · split at h
        · next hc => exact Char.le_trans hc.2 (by decide)
        · cases h
  exact Char.utf8Size_eq_one_iff.2 (UInt32.le_trans hle (by decide))

theorem byteLength_eq_length {ds : List Char} (h : ∀ d ∈ ds, d.utf8Size = 1) :
    byteLength ds = ds.length := by
  induction ds with
  | nil => rfl
  | cons d ds ih =>
    have hds : byteLength ds = ds.length := ih fun e he => h e (List.mem_cons_of_mem d he)
    have hd := h d List.mem_cons_self
    simp only [byteLength] at hds ⊢
    simp [hds, hd, Nat.add_comm]

/-- The digits of a code unit take one byte each. -/
theorem utf8Size_of_hexNumber? {ds : List Char} {m n : Nat}
    (h : ds.foldlM (fun n c => (Text.hexValue? c).map (16 * n + ·)) m = some n) :
    ∀ d ∈ ds, d.utf8Size = 1 := by
  induction ds generalizing m with
  | nil => exact nofun
  | cons d ds ih =>
    rw [List.foldlM_cons] at h
    obtain ⟨k, hd, hds⟩ := Option.bind_eq_some_iff.1 h
    obtain ⟨v, hv, -⟩ := Option.map_eq_some_iff.1 hd
    exact List.forall_mem_cons.2 ⟨utf8Size_of_hexValue? hv, ih hds⟩

theorem scan_of_length_lt {ds : List Char} (h : ds.length < 4) :
    scan ('\\' :: 'u' :: ds) =
      stop (if byteLength ds < 4 then .endOfText else .malformed) := by
  rw [scan.eq_def]
  rcases ds with _ | ⟨_, _ | ⟨_, _ | ⟨_, _ | ⟨_, ds⟩⟩⟩⟩
  · rfl
  · rfl
  · rfl
  · rfl
  · exact absurd h (Nat.not_lt.2 (Nat.le_add_left 4 ds.length))

/-- A part of a string that breaks off is nothing but the end of the text. -/
theorem scan_spelled_cut {p : Piece} {w q missing : List Char} (h : p.Spelled w)
    (hw : w = q ++ missing) (hmissing : missing ≠ []) : scan q = stop .endOfText := by
  have hnil : scan [] = stop .endOfText := by rw [scan.eq_def]
  have hslash : scan ['\\'] = stop .endOfText := by
    rw [scan.eq_def]
    rfl
  have hlength : q.length < w.length := by
    have := List.length_pos_iff.2 hmissing
    rw [hw, List.length_append]
    omega
  cases h with
  | plain =>
    rw [List.length_eq_zero_iff.1 (Nat.lt_one_iff.1 hlength)]
    exact hnil
  | letter =>
    rcases q with _ | ⟨_, _ | ⟨_, q⟩⟩
    · exact hnil
    · obtain ⟨rfl, -⟩ := List.cons.inj hw
      exact hslash
    · exact absurd hlength (Nat.not_lt.2 (Nat.le_add_left 2 q.length))
  | @unit a b c d n h =>
    rcases q with _ | ⟨_, _ | ⟨_, ds⟩⟩
    · exact hnil
    · obtain ⟨rfl, -⟩ := List.cons.inj hw
      exact hslash
    · obtain ⟨rfl, htail⟩ := List.cons.inj hw
      obtain ⟨rfl, hds⟩ := List.cons.inj htail
      have hfew : ds.length < 4 := Nat.lt_of_add_lt_add_right (n := 2) hlength
      have hdigits : ∀ e ∈ ds, e.utf8Size = 1 := fun e he =>
        utf8Size_of_hexNumber? h e (hds ▸ List.mem_append_left missing he)
      rw [scan_of_length_lt hfew, byteLength_eq_length hdigits, if_pos hfew]

/-- A string that breaks off: some of its parts are left, and then the text ends. -/
theorem scan_quoted_cut {ps : List Piece} {l q missing : List Char} (h : Quoted ps l)
    (hl : l = q ++ missing) (hmissing : missing ≠ []) :
    ∃ qs rs, ps = qs ++ rs ∧ scan q = ⟨qs, .error .endOfText⟩ := by
  induction h generalizing q with
  | close =>
    have hq : q = [] := by
      cases q with
      | nil => rfl
      | cons c q =>
        obtain ⟨-, h⟩ := List.cons.inj hl
        exact absurd (List.append_eq_nil_iff.1 h.symm).2 hmissing
    rw [hq]
    exact ⟨[], [], rfl, by rw [scan.eq_def]; rfl⟩
  | @piece p ps w cs hp hps ih =>
    obtain ⟨q', rfl, hcs⟩ | ⟨w', hw, hw'⟩ := List.append_eq_append_iff.1 hl
    · obtain ⟨qs, rs, rfl, hscan⟩ := ih hcs
      exact ⟨p :: qs, rs, rfl, by rw [scan_spelled hp, hscan, cons]⟩
    · by_cases hend : w' = []
      · obtain ⟨qs, rs, rfl, hscan⟩ := ih (q := []) (by rw [hw', hend]; rfl)
        rw [hend, List.append_nil] at hw
        refine ⟨p :: qs, rs, rfl, ?_⟩
        rw [← hw, ← List.append_nil w, scan_spelled hp, hscan, cons]
      · exact ⟨[], p :: ps, rfl, scan_spelled_cut hp hw hend⟩

/-- Of the parts that are left of a string nothing but the end of the text is wrong. -/
theorem decode_cut (f : Fault) {ps qs : List Piece} {cs : List Char}
    (h : decode none (ps ++ qs) = .ok cs) : decode (some f) ps = .error f := by
  -- along the parts that are left; of two halves of a character the first may be the last of them
  fun_induction decode (some f) ps generalizing cs with
  | case1 _ hf => rw [Option.some.inj hf]
  | case2 hf => cases hf
  | case3 _ _ ih =>
    rw [List.cons_append, decode] at h
    obtain ⟨_, h, -⟩ := map_eq_ok_iff.1 h
    rw [ih h]
    rfl
  | case4 _ _ hlow => simp [decode.eq_def none (_ :: _), hlow] at h
  | case5 => rfl
  | case6 _ hlow hhigh => simp [decode.eq_def none (_ :: _), hlow, hhigh] at h
  | case7 _ hlow hhigh _ _ hlow' ih =>
    simp only [List.cons_append, decode.eq_def none (_ :: _), hlow, hhigh, hlow'] at h
    obtain ⟨_, h, -⟩ := map_eq_ok_iff.1 h
    rw [ih h]
    rfl
  | case8 _ hlow hhigh _ _ hlow' => simp [decode.eq_def none (_ :: _), hlow, hhigh, hlow'] at h
  | case9 _ _ hlow hhigh ih =>
    simp only [List.cons_append, decode.eq_def none (_ :: _), hlow, hhigh] at h
    obtain ⟨_, h, -⟩ := map_eq_ok_iff.1 h
    rw [ih h]
    rfl

end StringLiteral

/-! ### The tokens that are left -/

theorem scanWord_cut {word q missing : List Char} (h : word = q ++ missing)
    (hmissing : missing ≠ []) : scanWord word q = .error .endOfText := by
  induction q generalizing word with
  | nil =>
    obtain ⟨c, cs, rfl⟩ := List.exists_cons_of_ne_nil hmissing
    rw [h, List.nil_append, scanWord]
  | cons c q ih => rw [h, List.cons_append, scanWord, if_pos rfl, ih rfl]

/-- A token that breaks off behind its first character. -/
theorem cut_spelled {t : Token} {l q missing : List Char} (h : t.Spelled l)
    (hl : l = q ++ missing) (hq : q ≠ []) (hmissing : missing ≠ []) (ts : List Token) :
    Cut (tokens q) (t :: ts) := by
  obtain ⟨c, q, rfl⟩ := List.exists_cons_of_ne_nil hq
  have hnil : tokens [] = [] := by rw [tokens]
  cases h with
  | char h =>
    obtain ⟨-, hq⟩ := List.cons.inj hl
    exact absurd (List.append_eq_nil_iff.1 hq.symm).2 hmissing
  | @word _ word _ h =>
    obtain ⟨rfl, hword⟩ := List.cons.inj hl
    have hscan := scanWord_cut hword hmissing
    obtain ⟨rfl, rfl, rfl⟩ | ⟨rfl, rfl, rfl⟩ | ⟨rfl, rfl, rfl⟩ := Token.eq_of_word? h
    all_goals
      have hfirst := Token.first_of_scanWord h hscan
      rw [tokens_cons rfl, hfirst, hnil]
    · exact .word (.inl rfl) ts
    · exact .word (.inr ⟨true, rfl⟩) ts
    · exact .word (.inr ⟨false, rfl⟩) ts
  | @string s ps cs hps hs =>
    obtain ⟨rfl, hcs⟩ := List.cons.inj hl
    obtain ⟨qs, rs, rfl, hscan⟩ := StringLiteral.scan_quoted_cut hps hcs hmissing
    have hvalue := StringLiteral.decode_cut .endOfText hs
    have hfirst : Token.first '"' q = (.broken true .endOfText .endOfText, []) := by
      simp [Token.first, Token.ofChar?, StringLiteral.value, hscan, hvalue]
    rw [tokens_cons rfl, hfirst, hnil]
    exact .string _ ts

/-- If a text breaks off and more than white space is missing, then its tokens break off. -/
theorem Written.cut {ts : List Token} {cs q missing : List Char} (h : Written ts cs)
    (hcs : cs = q ++ missing) (hmissing : ∃ c ∈ missing, Token.isSpace c = false) :
    Cut (tokens q) ts := by
  induction h generalizing q missing with
  | nil =>
    obtain ⟨c, hc, -⟩ := hmissing
    rw [(List.append_eq_nil_iff.1 hcs.symm).2] at hc
    cases hc
  | @space ts c cs hc _ ih =>
    cases q with
    | nil =>
      obtain ⟨d, hd, hsolid⟩ := hmissing
      have hd' : d ∈ c :: cs := hcs ▸ hd
      have hne : d ≠ c := by
        rintro rfl
        simp [hsolid] at hc
      exact ih (q := []) rfl ⟨d, List.mem_of_ne_of_mem hne hd', hsolid⟩
    | cons d q =>
      obtain ⟨rfl, htail⟩ := List.cons.inj hcs
      rw [tokens_of_isSpace hc]
      exact ih htail hmissing
  | @token t ts l cs ht _ ih =>
    -- the break is behind the token, in front of it, at its end, or in the middle of it
    obtain ⟨q', rfl, hbehind⟩ | ⟨l', hl, hmissing'⟩ := List.append_eq_append_iff.1 hcs
    · rw [tokens_spelled ht]
      exact .cons t (ih hbehind hmissing)
    · by_cases hq : q = []
      · rw [hq, tokens]
        exact .nil t ts
      · by_cases hl' : l' = []
        · rw [hl', List.nil_append] at hmissing'
          rw [hl', List.append_nil] at hl
          rw [← hl, ← List.append_nil l, tokens_spelled ht]
          exact .cons t (ih (q := []) hmissing'.symm hmissing)
        · exact cut_spelled ht hl hq hl' ts

end IdlModel.Json
