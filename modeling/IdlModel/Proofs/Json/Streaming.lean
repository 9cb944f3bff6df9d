import IdlModel.Proofs.Json.Reading

/-!
# Reading tokens that break off

A reader takes its tokens from the front and never looks ahead, so on tokens that break off it does
what it does on all of them, until it gets to the break: there the text has ended. `Follows` says
this of two results and `Streams` of a reader. Before the break the reader may also have failed, and
then it has failed in the same way on all tokens.

Every reader is built from parts that stream. The last token in front of the break, if it has ended
in the middle, is refused in the place of a colon or a bracket as the whole token is, whose kind it
still has: that is why a break in a string is told from one in a word.

If a reader takes all the tokens of a text, it cannot come to a result when they break off. Nothing
is left but that the text has ended (`read_cut`).
-/

namespace IdlModel.Json.Reader

variable {α β σ : Type} {us ts : List Token}

/-- What a reader makes of tokens that break off, beside what it makes of all of them. -/
inductive Follows :
    Except ReadError (α × List Token) → Except ReadError (α × List Token) → Prop
  /-- The break has been reached. -/
  | ended (y : Except ReadError (α × List Token)) : Follows (.error (.fault .endOfText)) y
  /-- Both have failed, in the same way. -/
  | failed (e : ReadError) : Follows (.error e) (.error e)
  /-- Both have come to a result, and the break is still ahead. -/
  | went (a : α) {us ts : List Token} (h : Cut us ts) : Follows (.ok (a, us)) (.ok (a, ts))

/-- The reader does not look ahead of the tokens that it takes. -/
def Streams (r : Reader α) : Prop :=
  ∀ us ts, Cut us ts → Follows (r.run us) (r.run ts)

theorem Follows.bind {r s : Reader α} {f g : α → Reader β} (h : Follows (r.run us) (s.run ts))
    (hnext : ∀ a us ts, Cut us ts → Follows ((f a).run us) ((g a).run ts)) :
    Follows ((r >>= f).run us) ((s >>= g).run ts) := by
  rw [StateT.run_bind, StateT.run_bind]
  generalize r.run us = x at h
  generalize s.run ts = y at h
  cases h with
  | ended => exact .ended _
  | failed e => exact .failed e
  | went a hcut => exact hnext a _ _ hcut

namespace Streams

theorem pure (a : α) : Streams (Pure.pure a) :=
  fun _ _ hcut => .went a hcut

theorem fault (f : Fault) : Streams (Reader.fault (α := α) f) :=
  fun _ _ _ => .failed (.fault f)

theorem mismatch (m : Mismatch) : Streams (Reader.mismatch (α := α) m) :=
  fun _ _ _ => .failed (.mismatch m)

theorem ofExcept (x : Except Mismatch α) : Streams (Reader.ofExcept x) := by
  cases x with
  | error m => exact mismatch m
  | ok a => exact pure a

theorem bind {r : Reader α} {f : α → Reader β} (h : Streams r) (hf : ∀ a, Streams (f a)) :
    Streams (r >>= f) :=
  fun us ts hcut => (h us ts hcut).bind hf

theorem map {r : Reader α} (h : Streams r) (f : α → β) :
    Streams (r >>= fun a => Pure.pure (f a)) :=
  h.bind fun a => pure (f a)

end Streams

/-! ## Single tokens -/

theorem streams_head : Streams head := by
  intro us ts hcut
  cases hcut with
  | nil => exact .ended _
  | string => exact .ended _
  | word => exact .ended _
  | cons t hcut =>
    simp only [head, StateT.run_bind, StateT.run_get, pure_bind]
    cases Head.ofToken t with
    | error f => exact .failed _
    | ok h => exact .went h hcut

theorem streams_key : Streams key := by
  intro us ts hcut
  cases hcut with
  | nil => exact .ended _
  | string => exact .ended _
  | word ht => obtain rfl | ⟨b, rfl⟩ := ht <;> exact .failed _
  | cons t hcut =>
    cases t with
    | string x =>
      cases x with
      | error f => exact .failed _
      | ok s => exact .went s hcut
    | broken inString => cases inString <;> exact .failed _
    | _ => exact .failed _

theorem streams_colon : Streams colon := by
  intro us ts hcut
  cases hcut with
  | nil => exact .ended _
  | string => exact .failed _
  | word ht => obtain rfl | ⟨b, rfl⟩ := ht <;> exact .failed _
  | cons t hcut =>
    cases t with
    | colon => exact .went () hcut
    | _ => exact .failed _

theorem streams_close (b : Bracket) : Streams (close b) := by
  intro us ts hcut
  cases hcut with
  | nil => exact .ended _
  | string => exact .failed _
  | word ht => obtain rfl | ⟨b, rfl⟩ := ht <;> exact .failed _
  | cons t hcut =>
    cases t with
    | closing c =>
      show Follows ((if c = b then set _ else Reader.fault .malformed : Reader Unit).run _)
        ((if c = b then set _ else Reader.fault .malformed : Reader Unit).run _)
      split
      · exact .went () hcut
      · exact .failed _
    | _ => exact .failed _

/-- The token behind a comma is looked at, but there the break is a fault of its own. -/
theorem follows_more_comma (b : Bracket) (hcut : Cut us ts) :
    Follows ((more b false).run (.comma :: us)) ((more b false).run (.comma :: ts)) := by
  cases hcut with
  | nil => exact .ended _
  | string x ts => exact .went true (.string x ts)
  | word ht ts => obtain rfl | ⟨c, rfl⟩ := ht <;> exact .went true (.word (by simp) ts)
  | cons t hcut =>
    cases t with
    | closing c =>
      show Follows
        ((if c = b then Reader.fault .malformed else do set _; pure true : Reader Bool).run _)
        ((if c = b then Reader.fault .malformed else do set _; pure true : Reader Bool).run _)
      split
      · exact .failed _
      · exact .went true (.cons _ hcut)
    | _ => exact .went true (.cons _ hcut)

theorem streams_more (b : Bracket) (first : Bool) : Streams (more b first) := by
  intro us ts hcut
  cases hcut with
  | nil => exact .ended _
  | string x ts =>
    cases first with
    | true => exact .went true (.string x ts)
    | false => exact .failed _
  | word ht ts =>
    cases first with
    | true => obtain rfl | ⟨c, rfl⟩ := ht <;> exact .went true (.word (by simp) ts)
    | false => obtain rfl | ⟨c, rfl⟩ := ht <;> exact .failed _
  | cons t hcut =>
    cases t with
    | closing c =>
      show Follows
        ((if c = b then pure false else if first then pure true
          else Reader.fault .malformed : Reader Bool).run _)
        ((if c = b then pure false else if first then pure true
          else Reader.fault .malformed : Reader Bool).run _)
      split
      · exact .went false (.cons _ hcut)
      · cases first with
        | true => exact .went true (.cons _ hcut)
        | false => exact .failed _
    | comma =>
      cases first with
      | true => exact .went true (.cons _ hcut)
      | false => exact follows_more_comma b hcut
    | _ =>
      cases first with
      | true => exact .went true (.cons _ hcut)
      | false => exact .failed _

/-! ## Arrays and objects -/

theorem streams_spend (levels : Nat) : Streams (spend levels) := by
  rw [spend]
  split
  · exact .fault _
  · exact .pure ()

/-- The items of an array. Fewer tokens are a lower bound for how many items there are, but it is
not reached before the break. -/
theorem follows_itemsWithin {item : Reader α} (h : Streams item) {bound bound' : List Token}
    (hbound : bound'.length ≤ bound.length) (first : Bool) (hcut : Cut us ts) :
    Follows ((itemsWithin item bound' first).run us) ((itemsWithin item bound first).run ts) := by
  induction bound' generalizing bound first us ts with
  | nil => exact .ended _
  | cons t bound' ih =>
    obtain ⟨t', bound, rfl⟩ := List.exists_cons_of_length_pos (Nat.zero_lt_of_lt hbound)
    rw [itemsWithin, itemsWithin]
    refine (streams_more .square first us ts hcut).bind fun another us ts hcut => ?_
    cases another with
    | false => exact .went [] hcut
    | true =>
      refine (h us ts hcut).bind fun a us ts hcut => ?_
      refine (ih (Nat.le_of_succ_le_succ hbound) false hcut).bind fun as us ts hcut => ?_
      exact .went (a :: as) hcut

/-- Items up to a closing bracket, as many as there are tokens at most, and what comes behind. -/
theorem streams_itemsFrom {item : Reader α} (h : Streams item) (first : Bool)
    {next : List α → Reader β} (hnext : ∀ as, Streams (next as)) :
    Streams (do next (← itemsWithin item (← get) first)) := by
  intro us ts hcut
  show Follows ((itemsWithin item us first >>= next).run us)
    ((itemsWithin item ts first >>= next).run ts)
  exact (follows_itemsWithin h hcut.length_le first hcut).bind hnext

theorem streams_items {item : Reader α} (h : Streams item) : Streams (items item) :=
  streams_itemsFrom h true fun as => (streams_close .square).map fun _ => as

theorem follows_membersWithin {member : String → σ → Reader σ}
    (h : ∀ k s, Streams (member k s)) {bound bound' : List Token}
    (hbound : bound'.length ≤ bound.length) (first : Bool) (s : σ) (hcut : Cut us ts) :
    Follows ((membersWithin member bound' first s).run us)
      ((membersWithin member bound first s).run ts) := by
  induction bound' generalizing bound first s us ts with
  | nil => exact .ended _
  | cons t bound' ih =>
    obtain ⟨t', bound, rfl⟩ := List.exists_cons_of_length_pos (Nat.zero_lt_of_lt hbound)
    rw [membersWithin, membersWithin]
    refine (streams_more .curly first us ts hcut).bind fun another us ts hcut => ?_
    cases another with
    | false => exact .went s hcut
    | true =>
      refine (streams_key us ts hcut).bind fun k us ts hcut => ?_
      refine (h k s us ts hcut).bind fun s' us ts hcut => ?_
      exact ih (Nat.le_of_succ_le_succ hbound) false s' hcut

theorem streams_members {member : String → σ → Reader σ} (h : ∀ k s, Streams (member k s))
    (s : σ) : Streams (members member s) :=
  fun _ _ hcut => follows_membersWithin h hcut.length_le true s hcut

theorem streams_once {value : Reader α} (h : Streams value) (name : String)
    (before : Option α) : Streams (once name before value) := by
  rw [once]
  split
  · exact .mismatch _
  · exact streams_colon.bind fun _ => h.map some

theorem streams_itemAt? {item : Reader α} (h : Streams item) (position : Nat) :
    Streams (itemAt? position item) := by
  refine (streams_more .square (position = 0)).bind fun another => ?_
  cases another with
  | false => exact .pure none
  | true => exact h.map some

/-! ## Passing over values -/

/-- What a reader makes of the tokens behind a value, or of a fault in the value. -/
def passed (x : Except Fault (List Token)) : Except ReadError (Unit × List Token) :=
  match x with
  | .ok ts => .ok ((), ts)
  | .error f => .error (.fault f)

/-- A string that breaks off may stand where the string may, and nowhere else. -/
theorem step_broken_string (outer : List Bracket) (awaited : Awaited) (x : Except Fault String) :
    Progress.step outer awaited (.broken true .endOfText .endOfText) = .error .endOfText ∨
      Progress.step outer awaited (.broken true .endOfText .endOfText) = .error .malformed ∧
        Progress.step outer awaited (.string x) = .error .malformed := by
  cases awaited with
  | value => exact .inl rfl
  | first =>
    left
    show (if outer.head? = some .curly then _ else _) = _
    split <;> rfl
  | key => exact .inl rfl
  | colon => exact .inr ⟨rfl, rfl⟩
  | next => exact .inr ⟨rfl, rfl⟩

/-- So it is with a word, which cannot be a key. -/
theorem step_broken_word (outer : List Bracket) (awaited : Awaited) {t : Token}
    (ht : t = .null ∨ ∃ b, t = .bool b) :
    Progress.step outer awaited (.broken false .endOfText .endOfText) = .error .endOfText ∨
      Progress.step outer awaited (.broken false .endOfText .endOfText) = .error .malformed ∧
        Progress.step outer awaited t = .error .malformed := by
  cases awaited with
  | value => exact .inl rfl
  | first =>
    by_cases houter : outer.head? = some .curly
    · right
      obtain rfl | ⟨b, rfl⟩ := ht <;>
        simp [Progress.step, Progress.atEntry, Progress.atKey, houter]
    · left
      simp [Progress.step, Progress.atEntry, Progress.atValue, houter]
  | key => obtain rfl | ⟨b, rfl⟩ := ht <;> exact .inr ⟨rfl, rfl⟩
  | colon => obtain rfl | ⟨b, rfl⟩ := ht <;> exact .inr ⟨rfl, rfl⟩
  | next => obtain rfl | ⟨b, rfl⟩ := ht <;> exact .inr ⟨rfl, rfl⟩

theorem follows_skipFrom_broken {outer : List Bracket} {awaited : Awaited} {broken t : Token}
    (h : Progress.step outer awaited broken = .error .endOfText ∨
      Progress.step outer awaited broken = .error .malformed ∧
        Progress.step outer awaited t = .error .malformed) :
    Follows (passed (skipFrom awaited outer [broken])) (passed (skipFrom awaited outer (t :: ts))) := by
  rw [skipFrom, skipFrom]
  obtain h | ⟨hbroken, ht⟩ := h
  · rw [h]
    exact .ended _
  · rw [hbroken, ht]
    exact .failed _

theorem follows_skipFrom (awaited : Awaited) (outer : List Bracket) (hcut : Cut us ts) :
    Follows (passed (skipFrom awaited outer us)) (passed (skipFrom awaited outer ts)) := by
  induction hcut generalizing awaited outer with
  | nil => exact .ended _
  | string x ts => exact follows_skipFrom_broken (step_broken_string outer awaited x)
  | word ht ts => exact follows_skipFrom_broken (step_broken_word outer awaited ht)
  | cons t hcut ih =>
    rw [skipFrom, skipFrom]
    cases Progress.step outer awaited t with
    | error f => exact .failed _
    | ok progress =>
      cases progress with
      | done => exact .went () hcut
      | await awaited outer => exact ih awaited outer

theorem streams_skipValue : Streams skipValue := by
  intro us ts hcut
  have hrun (us : List Token) : skipValue.run us = passed (skipFrom .value [] us) := by
    rw [skipValue, StateT.run_bind, StateT.run_get, pure_bind]
    cases skipFrom .value [] us <;> rfl
  rw [hrun, hrun]
  exact follows_skipFrom .value [] hcut

/-! ## Values -/

theorem streams_string : Streams string := by
  refine streams_head.bind fun h => ?_
  split
  · exact .pure _
  · exact .mismatch _

theorem streams_list {item : Reader α} (h : Streams item) (levels : Nat) :
    Streams (list levels item) := by
  refine streams_head.bind fun head => ?_
  split
  · exact (streams_spend levels).bind fun _ => streams_items h
  · exact .mismatch _

theorem streams_valueWith {inner : Reader Json} (h : Streams inner) (levels : Nat) :
    Streams (valueWith levels inner) := by
  refine streams_head.bind fun head => ?_
  split
  · exact .pure _
  · exact (streams_spend levels).bind fun _ => (streams_items h).map Json.array
  · refine (streams_spend levels).bind fun _ => ?_
    refine (streams_members (fun k ms => ?_) []).bind fun ms => ?_
    · exact streams_colon.bind fun _ => h.map fun v => (k, v) :: ms
    · exact (streams_close .curly).map fun _ => Json.object ms.reverse

theorem streams_value (levels : Nat) : Streams (value levels) := by
  induction levels with
  | zero => exact streams_valueWith (.fault _) 0
  | succ levels ih => exact streams_valueWith ih (levels + 1)

/-! ## Texts -/

/-- A text that is read to its end with a result has ended too early wherever it breaks off, if more
than white space is missing. -/
theorem read_cut {r : Reader α} {a : α} {text cut : String} {missing : List Char}
    (h : Streams r) (hread : Reads r ts (.ok a)) (htext : Written ts text.toList)
    (hcut : text.toList = cut.toList ++ missing)
    (hmissing : ∃ c ∈ missing, Token.isSpace c = false) :
    read r cut = .error (.fault .endOfText) := by
  have hrun : r.run ts = .ok (a, []) := by
    have := hread []
    rwa [List.append_nil] at this
  have hfollows := h _ _ (htext.cut hcut hmissing)
  rw [hrun] at hfollows
  rw [read]
  generalize r.run (tokens cut.toList) = x at hfollows ⊢
  cases hfollows with
  | ended => rfl
  | went a hcut => cases hcut

end IdlModel.Json.Reader
