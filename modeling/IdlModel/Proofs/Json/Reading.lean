import IdlModel.Json.Reader
import IdlModel.Proofs.Json.Spelling

/-!
# Reading the tokens of a value

`Reader.Reads r ts x` says that `r` makes `x` of the tokens `ts`, whatever comes behind them. A
result that is an error is reached whatever comes behind the tokens, too, so a reader that stops in
the middle of a value has its law as well as one that goes on to the end.

The laws follow the readers: single tokens, the items of an array (`reads_list`), the members of an
object (`Gathers`, from one member to the next, and `reads_members` for all of them), values as they
are (`reads_value`) and values that are passed over (`reads_skipValue`). `read_written` turns a law
about tokens into one about texts.
-/

namespace IdlModel.Json

/-! ## Values that can be read -/

theorem depthOfItems_le {vs : List Json} {n : Nat} :
    depthOfItems vs ≤ n ↔ ∀ v ∈ vs, v.depth ≤ n := by
  induction vs with
  | nil => simp [depthOfItems]
  | cons v vs ih => rw [depthOfItems, Nat.max_le, ih, List.forall_mem_cons]

theorem depthOfMembers_le {ms : List (String × Json)} {n : Nat} :
    depthOfMembers ms ≤ n ↔ ∀ m ∈ ms, m.2.depth ≤ n := by
  induction ms with
  | nil => simp [depthOfMembers]
  | cons m ms ih => rw [depthOfMembers, Nat.max_le, ih, List.forall_mem_cons]

/-- No number occurs in the value, and it nests no deeper than there are levels. -/
structure Readable (levels : Nat) (v : Json) : Prop where
  numberFree : v.NumberFree
  depth_le : v.depth ≤ levels

theorem forall_mem_filterMap_id {p : String × Json → Prop} {os : List (Option (String × Json))} :
    (∀ m ∈ os.filterMap id, p m) ↔ ∀ o ∈ os, ∀ m ∈ o, p m := by
  simp only [List.mem_filterMap, id]
  exact ⟨fun h o ho m hm => h m ⟨o, ho, hm⟩, fun h m ⟨o, ho, hm⟩ => h o ho m hm⟩

theorem NumberFree.member {v : Json} (h : v.NumberFree) (key : String) :
    ∀ m ∈ Json.member key v, m.2.NumberFree := by
  rintro m ⟨⟩
  exact h

theorem NumberFree.memberUnless {v : Json} (h : v.NumberFree) (empty : Bool) (key : String) :
    ∀ m ∈ if empty then none else Json.member key v, m.2.NumberFree := by
  cases empty with
  | true => exact nofun
  | false => exact h.member key

theorem NumberFree.ofMembers {os : List (Option (String × Json))}
    (h : ∀ o ∈ os, ∀ m ∈ o, m.2.NumberFree) : NumberFree (ofMembers os) :=
  .object (forall_mem_filterMap_id.2 h)

variable {levels : Nat}

theorem Readable.string (s : String) : Readable levels (.string s) :=
  ⟨.string s, Nat.zero_le levels⟩

theorem Readable.array {vs : List Json} (h : ∀ v ∈ vs, Readable levels v) :
    Readable (levels + 1) (.array vs) :=
  ⟨.array fun v hv => (h v hv).numberFree,
    Nat.succ_le_succ (depthOfItems_le.2 fun v hv => (h v hv).depth_le)⟩

theorem Readable.object {ms : List (String × Json)} (h : ∀ m ∈ ms, Readable levels m.2) :
    Readable (levels + 1) (.object ms) :=
  ⟨.object fun m hm => (h m hm).numberFree,
    Nat.succ_le_succ (depthOfMembers_le.2 fun m hm => (h m hm).depth_le)⟩

theorem readable_array_iff {vs : List Json} :
    (Json.array vs).Readable (levels + 1) ↔ ∀ v ∈ vs, v.Readable levels := by
  refine ⟨fun ⟨hfree, hdepth⟩ v hv => ?_, .array⟩
  cases hfree with
  | array hfree => exact ⟨hfree v hv, depthOfItems_le.1 (Nat.le_of_succ_le_succ hdepth) v hv⟩

theorem readable_object_iff {ms : List (String × Json)} :
    (Json.object ms).Readable (levels + 1) ↔ ∀ m ∈ ms, m.2.Readable levels := by
  refine ⟨fun ⟨hfree, hdepth⟩ m hm => ?_, .object⟩
  cases hfree with
  | object hfree => exact ⟨hfree m hm, depthOfMembers_le.1 (Nat.le_of_succ_le_succ hdepth) m hm⟩

theorem Readable.list {α : Type} {f : α → Json} {as : List α}
    (h : ∀ a ∈ as, (f a).Readable levels) : Readable (levels + 1) (.array (as.map f)) :=
  .array (List.forall_mem_map.2 h)

theorem Readable.ofMembers {os : List (Option (String × Json))}
    (h : ∀ o ∈ os, ∀ m ∈ o, m.2.Readable levels) : Readable (levels + 1) (ofMembers os) :=
  .object (forall_mem_filterMap_id.2 h)

theorem Readable.member {v : Json} (h : v.Readable levels) (key : String) :
    ∀ m ∈ Json.member key v, m.2.Readable levels := by
  rintro m ⟨⟩
  exact h

theorem Readable.mono {n : Nat} {v : Json} (h : v.Readable levels) (hn : levels ≤ n) :
    v.Readable n :=
  ⟨h.numberFree, Nat.le_trans h.depth_le hn⟩

/-! ## Results of lists -/

theorem mapM_ok {α ε : Type} (as : List α) : as.mapM (.ok : α → Except ε α) = .ok as := by
  have h := List.mapM_pure (m := Except ε) (l := as) (f := id)
  rwa [List.map_id] at h

theorem mapM_ite {α ε : Type} {e : ε} {p : α → Prop} [DecidablePred p] (as : List α) :
    (as.mapM fun a => if p a then .ok a else .error e) =
      if ∀ a ∈ as, p a then (.ok as : Except ε (List α)) else .error e := by
  induction as with
  | nil => rfl
  | cons a as ih =>
    rw [List.mapM_cons, ih]
    by_cases ha : p a
    · rw [if_pos ha]
      by_cases has : ∀ b ∈ as, p b
      · rw [if_pos has, if_pos (List.forall_mem_cons.2 ⟨ha, has⟩)]
        rfl
      · rw [if_neg has, if_neg fun h => has (List.forall_mem_cons.1 h).2]
        rfl
    · rw [if_neg ha, if_neg fun h => ha (List.forall_mem_cons.1 h).1]
      rfl

namespace Reader

variable {α β σ : Type}

/-- Of these tokens `r` makes `x`, whatever comes behind them. -/
def Reads (r : Reader α) (ts : List Token) (x : Except ReadError α) : Prop :=
  ∀ rest, r.run (ts ++ rest) = (·, rest) <$> x

namespace Reads

theorem pure (a : α) : Reads (Pure.pure a) [] (.ok a) :=
  fun _ => rfl

theorem fault (f : Fault) (ts : List Token) :
    Reads (Reader.fault (α := α) f) ts (.error (.fault f)) :=
  fun _ => rfl

/-- One reader after the other; the second one only matters if the first has a result. -/
theorem bind {r : Reader α} {next : α → Reader β} {ts us : List Token} {x : Except ReadError α}
    {y : α → Except ReadError β} (h : Reads r ts x)
    (hnext : ∀ a, x = .ok a → Reads (next a) us (y a)) :
    Reads (r >>= next) (ts ++ us) (x >>= y) := by
  intro rest
  rw [StateT.run_bind, List.append_assoc, h (us ++ rest)]
  cases x with
  | error e => rfl
  | ok a => exact hnext a rfl rest

theorem bind_ok {r : Reader α} {next : α → Reader β} {ts us : List Token} {a : α}
    {y : Except ReadError β} (h : Reads r ts (.ok a)) (hnext : Reads (next a) us y) :
    Reads (r >>= next) (ts ++ us) y :=
  bind (y := fun _ => y) h fun _ ha => by
    obtain rfl := Except.ok.inj ha
    exact hnext

theorem map {r : Reader α} {ts : List Token} {x : Except ReadError α} (h : Reads r ts x)
    (f : α → β) : Reads (r >>= fun a => Pure.pure (f a)) ts (f <$> x) := by
  intro rest
  rw [StateT.run_bind, h rest]
  cases x <;> rfl

end Reads

/-! ## Single tokens -/

theorem reads_head {t : Token} {h : Head} (ht : Head.ofToken t = .ok h) :
    Reads head [t] (.ok h) := by
  intro rest
  simp only [head, StateT.run_bind, StateT.run_get, pure_bind, List.cons_append, ht]
  rfl

theorem reads_opening (b : Bracket) : Reads head [.opening b] (.ok (.opening b)) :=
  reads_head rfl

theorem reads_string (s : String) : Reads string [.string (.ok s)] (.ok s) := by
  have hhead : Reads head [.string (.ok s)] (.ok (.scalar (.string s))) := reads_head rfl
  exact hhead.bind_ok (Reads.pure s)

theorem reads_colon : Reads colon [.colon] (.ok ()) :=
  fun _ => rfl

theorem reads_close (b : Bracket) : Reads (close b) [.closing b] (.ok ()) := by
  intro rest
  show (if b = b then set rest else Reader.fault .malformed : Reader Unit).run _ = _
  rw [if_pos rfl]
  rfl

theorem reads_ofExcept {x : Except Mismatch α} {a : α} (h : x = .ok a) :
    Reads (ofExcept x) [] (.ok a) := by
  rw [h]
  exact Reads.pure a

/-- A member that has not been read before. -/
theorem reads_once {name : String} {value : Reader α} {ts : List Token} {x : Except ReadError α}
    (h : Reads value ts x) : Reads (once name none value) (.colon :: ts) (some <$> x) :=
  reads_colon.bind_ok (h.map some)

/-- In front of the closing bracket there is nothing more. -/
theorem run_more_closing (b : Bracket) (first : Bool) (rest : List Token) :
    (more b first).run (.closing b :: rest) = .ok (false, .closing b :: rest) := by
  show (if b = b then Pure.pure false else if first then Pure.pure true
    else Reader.fault .malformed : Reader Bool).run _ = _
  rw [if_pos rfl]
  rfl

/-- An item or member begins with anything but the closing bracket. -/
theorem run_more {b : Bracket} {t : Token} (ht : t ≠ .closing b) (first : Bool)
    (rest : List Token) :
    (more b first).run (separator first ++ t :: rest) = .ok (true, t :: rest) := by
  cases first with
  | true =>
    cases t with
    | closing c =>
      have hc : c ≠ b := fun h => ht (h ▸ rfl)
      show (if c = b then Pure.pure false else if true then Pure.pure true
        else Reader.fault .malformed : Reader Bool).run _ = _
      rw [if_neg hc]
      rfl
    | _ => rfl
  | false =>
    cases t with
    | closing c =>
      have hc : c ≠ b := fun h => ht (h ▸ rfl)
      show (if c = b then Reader.fault .malformed
        else do set (Token.closing c :: rest); Pure.pure true : Reader Bool).run _ = _
      rw [if_neg hc]
      rfl
    | _ => rfl

/-! ## Arrays -/

/-- A value begins with something else than a closing bracket. -/
theorem exists_first_token {v : Json} (h : v.NumberFree) :
    ∃ t ts, v.toTokens = t :: ts ∧ ∀ b, t ≠ .closing b := by
  cases h with
  | null => exact ⟨_, _, rfl, nofun⟩
  | bool b => exact ⟨_, _, rfl, nofun⟩
  | string s => exact ⟨_, _, rfl, nofun⟩
  | array _ => exact ⟨_, _, rfl, nofun⟩
  | object _ => exact ⟨_, _, rfl, nofun⟩

theorem run_more_value {v : Json} (h : v.NumberFree) (first : Bool) (us : List Token) :
    (more .square first).run (separator first ++ (v.toTokens ++ us)) =
      .ok (true, v.toTokens ++ us) := by
  obtain ⟨t, ts, hv, ht⟩ := exists_first_token h
  rw [hv]
  exact run_more (ht .square) first (ts ++ us)

theorem length_le_itemTokens {vs : List Json} (h : ∀ v ∈ vs, v.NumberFree) (first : Bool) :
    vs.length ≤ (itemTokens first vs).length := by
  induction vs generalizing first with
  | nil => exact Nat.zero_le _
  | cons v vs ih =>
    obtain ⟨t, ts, hv, -⟩ := exists_first_token (h v List.mem_cons_self)
    have := ih (fun w hw => h w (List.mem_cons_of_mem v hw)) false
    rw [itemTokens, hv]
    simp only [List.length_append, List.length_cons]
    omega

variable {item : Reader α} {f : β → Json} {x : β → Except ReadError α} {bs : List β}

/-- The items up to the closing bracket, in front of which the reader stops. -/
theorem run_itemsWithin (hfree : ∀ b ∈ bs, (f b).NumberFree)
    (hitem : ∀ b ∈ bs, Reads item (f b).toTokens (x b)) (first : Bool) {bound : List Token}
    (hbound : bs.length < bound.length) (rest : List Token) :
    (itemsWithin item bound first).run (itemTokens first (bs.map f) ++ .closing .square :: rest) =
      (·, .closing .square :: rest) <$> bs.mapM x := by
  induction bs generalizing first bound with
  | nil =>
    obtain ⟨t, bound, rfl⟩ := List.exists_cons_of_length_pos hbound
    rw [List.map_nil, itemTokens, List.nil_append, itemsWithin, StateT.run_bind,
      run_more_closing]
    rfl
  | cons b bs ih =>
    obtain ⟨t, bound, rfl⟩ := List.exists_cons_of_length_pos (Nat.zero_lt_of_lt hbound)
    have hrest := ih (fun c hc => hfree c (List.mem_cons_of_mem b hc))
      (fun c hc => hitem c (List.mem_cons_of_mem b hc)) false (Nat.lt_of_succ_lt_succ hbound)
    rw [List.map_cons, itemTokens, itemsWithin, StateT.run_bind, List.append_assoc,
      List.append_assoc, run_more_value (hfree b List.mem_cons_self)]
    show StateT.run (item >>= fun a => itemsWithin item bound false >>= fun as =>
      Pure.pure (a :: as)) _ = _
    rw [StateT.run_bind, hitem b List.mem_cons_self, List.mapM_cons]
    cases x b with
    | error e => rfl
    | ok a =>
      show StateT.run (itemsWithin item bound false >>= fun as => Pure.pure (a :: as)) _ = _
      rw [StateT.run_bind, hrest]
      cases bs.mapM x <;> rfl

theorem reads_items (hfree : ∀ b ∈ bs, (f b).NumberFree)
    (hitem : ∀ b ∈ bs, Reads item (f b).toTokens (x b)) :
    Reads (items item) (itemTokens true (bs.map f) ++ [.closing .square]) (bs.mapM x) := by
  intro rest
  have hbound : bs.length < (itemTokens true (bs.map f) ++ .closing .square :: rest).length := by
    have hfree' : ∀ v ∈ bs.map f, v.NumberFree := List.forall_mem_map.2 hfree
    have := length_le_itemTokens hfree' true
    rw [List.length_append, List.length_cons, ← List.length_map f]
    omega
  rw [List.append_assoc, List.singleton_append, items, StateT.run_bind]
  show (itemsWithin item _ true >>= fun as => close .square >>= fun _ => Pure.pure as).run _ = _
  rw [StateT.run_bind, run_itemsWithin hfree hitem true hbound]
  cases bs.mapM x with
  | error e => rfl
  | ok as =>
    show StateT.run (close .square >>= fun _ => Pure.pure as) ([.closing .square] ++ rest) = _
    rw [StateT.run_bind, reads_close]
    rfl

/-- What stands inside brackets, if there is a level left for them. -/
def spending (levels : Nat) (x : Except ReadError α) : Except ReadError α :=
  if levels = 0 then .error (.fault .malformed) else x

theorem reads_spending {r : Reader α} {ts : List Token} {x : Except ReadError α} (levels : Nat)
    (h : Reads r ts x) : Reads (spend levels >>= fun _ => r) ts (spending levels x) := by
  cases levels with
  | zero => exact fun rest => rfl
  | succ levels => exact fun rest => h rest

theorem reads_list (levels : Nat) (hfree : ∀ b ∈ bs, (f b).NumberFree)
    (hitem : ∀ b ∈ bs, Reads item (f b).toTokens (x b)) :
    Reads (list levels item) (array (bs.map f)).toTokens (spending levels (bs.mapM x)) := by
  rw [toTokens]
  exact (reads_opening .square).bind_ok (reads_spending levels (reads_items hfree hitem))

/-! ## Objects -/

/-- From a point behind some of its members, an object's further members `ms` make `x` of the
`s` that is there. The reader stops in front of the closing bracket. -/
def Gathers (member : String → σ → Reader σ) (first : Bool) (s : σ) (ms : List (String × Json))
    (x : Except ReadError σ) : Prop :=
  ∀ bound rest, ms.length < bound.length →
    (membersWithin member bound first s).run (memberTokens first ms ++ .closing .curly :: rest) =
      (·, .closing .curly :: rest) <$> x

/-- What is read for a member that is left out if it is empty. -/
def unlessEmpty (empty : Bool) (x : Except ReadError α) : Except ReadError (Option α) :=
  if empty then .ok none else some <$> x

namespace Gathers

variable {member : String → σ → Reader σ} {first : Bool} {s : σ} {ms : List (String × Json)}

theorem nil : Gathers member first s [] (.ok s) := by
  intro bound rest hbound
  obtain ⟨t, bound, rfl⟩ := List.exists_cons_of_length_pos hbound
  rw [memberTokens, List.nil_append, membersWithin, StateT.run_bind, run_more_closing]
  rfl

theorem cons {k : String} {v : Json} {x : Except ReadError σ} {y : σ → Except ReadError σ}
    (h : Reads (member k s) (.colon :: v.toTokens) x)
    (hms : ∀ s', x = .ok s' → Gathers member false s' ms (y s')) :
    Gathers member first s ((k, v) :: ms) (x >>= y) := by
  intro bound rest hbound
  obtain ⟨t, bound, rfl⟩ := List.exists_cons_of_length_pos (Nat.zero_lt_of_lt hbound)
  have hlt : ms.length < bound.length := Nat.lt_of_succ_lt_succ hbound
  have hkey : Token.string (.ok k) ≠ .closing .curly := nofun
  rw [memberTokens, membersWithin, StateT.run_bind, List.append_assoc, List.cons_append,
    run_more hkey]
  show StateT.run (member k s >>= fun s' => membersWithin member bound false s')
    ((.colon :: (v.toTokens ++ memberTokens false ms)) ++ .closing .curly :: rest) = _
  rw [← List.cons_append, List.append_assoc, StateT.run_bind, h]
  cases x with
  | error e => rfl
  | ok s' => exact hms s' rfl bound rest hlt

theorem cons_ok {k : String} {v : Json} {s' : σ} {x : Except ReadError σ}
    (h : Reads (member k s) (.colon :: v.toTokens) (.ok s'))
    (hms : Gathers member false s' ms x) : Gathers member first s ((k, v) :: ms) x :=
  cons (y := fun _ => x) h fun _ hs => by
    obtain rfl := Except.ok.inj hs
    exact hms

theorem cons_error {k : String} {v : Json} {e : ReadError}
    (h : Reads (member k s) (.colon :: v.toTokens) (.error e)) :
    Gathers member first s ((k, v) :: ms) (.error e) :=
  cons (y := fun _ => .error e) h fun _ hs => nomatch hs

/-- A member that is left out if it is empty; `p` keeps what is read for it otherwise. -/
theorem optional {empty : Bool} {k : String} {v : Json} {os : List (Option (String × Json))}
    {x : Except ReadError α} {p : Option α → σ} {y : Option α → Except ReadError σ}
    (h : Reads (member k (p none)) (.colon :: v.toTokens) (p <$> some <$> x))
    (hos : ∀ a, Gathers member false (p a) (os.filterMap id) (y a)) :
    Gathers member false (p none)
      (((if empty then none else Json.member k v) :: os).filterMap id)
      (unlessEmpty empty x >>= y) := by
  cases empty with
  | true => exact hos none
  | false =>
    cases x with
    | error e => exact cons_error h
    | ok a => exact cons_ok h (hos (some a))

/-- Members of which none fails. -/
theorem foldl {f : β → String × Json} {push : σ → β → σ} {bs : List β}
    (h : ∀ b ∈ bs, ∀ s, Reads (member (f b).1 s) (.colon :: (f b).2.toTokens) (.ok (push s b))) :
    Gathers member first s (bs.map f) (.ok (bs.foldl push s)) := by
  induction bs generalizing first s with
  | nil => exact nil
  | cons b bs ih =>
    exact cons_ok (h b List.mem_cons_self s) (ih fun c hc => h c (List.mem_cons_of_mem b hc))

end Gathers

theorem length_le_memberTokens (ms : List (String × Json)) (first : Bool) :
    ms.length ≤ (memberTokens first ms).length := by
  induction ms generalizing first with
  | nil => exact Nat.zero_le _
  | cons m ms ih =>
    have := ih false
    rw [memberTokens]
    simp only [List.length_append, List.length_cons]
    omega

/-- The members of an object, and what is made of them in front of the closing bracket. -/
theorem reads_members {member : String → σ → Reader σ} {s : σ} {ms : List (String × Json)}
    {x : Except ReadError σ} {next : σ → Reader α} {y : σ → Except ReadError α}
    (h : Gathers member true s ms x)
    (hnext : ∀ s', x = .ok s' → Reads (next s') [.closing .curly] (y s')) :
    Reads (members member s >>= next) (memberTokens true ms ++ [.closing .curly]) (x >>= y) := by
  intro rest
  have hbound : ms.length < (memberTokens true ms ++ .closing .curly :: rest).length := by
    have := length_le_memberTokens ms true
    rw [List.length_append, List.length_cons]
    omega
  rw [List.append_assoc, List.singleton_append, StateT.run_bind]
  show (StateT.run (membersWithin member (memberTokens true ms ++ .closing .curly :: rest) true s) _
    >>= _) = _
  rw [h _ rest hbound]
  cases x with
  | error e => rfl
  | ok s' => exact hnext s' rfl rest

theorem reads_members_ok {member : String → σ → Reader σ} {s s' : σ}
    {ms : List (String × Json)} {next : σ → Reader α} {y : Except ReadError α}
    (h : Gathers member true s ms (.ok s')) (hnext : Reads (next s') [.closing .curly] y) :
    Reads (members member s >>= next) (memberTokens true ms ++ [.closing .curly]) y :=
  reads_members (y := fun _ => y) h fun _ hs => by
    obtain rfl := Except.ok.inj hs
    exact hnext

/-- The closing bracket of an object, of which something has been made in front of it. -/
theorem reads_closed (a : α) :
    Reads (do close .curly; pure a) [.closing .curly] (.ok a) :=
  (reads_close .curly).map fun _ => a

/-! ## Values -/

theorem reads_scalar {v : Json} {t : Token} (ht : Head.ofToken t = .ok (.scalar v))
    (levels : Nat) : Reads (value levels) [t] (.ok v) := by
  cases levels <;> exact (reads_head ht).bind_ok (Reads.pure v)

/-- A value is read as it is if it does not nest too deep. -/
theorem reads_value {v : Json} (h : v.Readable levels) : Reads (value levels) v.toTokens (.ok v) := by
  obtain ⟨hfree, hdepth⟩ := h
  -- on the value; what stands inside brackets has one level less than the brackets
  induction hfree generalizing levels with
  | null => exact reads_scalar rfl levels
  | bool b => exact reads_scalar rfl levels
  | string s => exact reads_scalar rfl levels
  | @array vs hfree ih =>
    rw [depth] at hdepth
    obtain ⟨levels, rfl⟩ := Nat.exists_eq_add_of_le' (Nat.le_of_add_left_le hdepth)
    have hitems := depthOfItems_le.1 (Nat.le_of_succ_le_succ hdepth)
    have hread := reads_items (f := id) hfree fun v hv => ih v hv (hitems v hv)
    rw [List.map_id, mapM_ok] at hread
    exact (reads_opening .square).bind_ok (reads_spending (levels + 1) (hread.map Json.array))
  | @object ms hfree ih =>
    rw [depth] at hdepth
    obtain ⟨levels, rfl⟩ := Nat.exists_eq_add_of_le' (Nat.le_of_add_left_le hdepth)
    have hmembers := depthOfMembers_le.1 (Nat.le_of_succ_le_succ hdepth)
    have hread : Gathers (fun k ms => do colon; let v ← value levels; pure ((k, v) :: ms)) true []
        (ms.map id) (.ok (ms.foldl (fun ms m => m :: ms) [])) :=
      Gathers.foldl fun m hm s =>
        (reads_colon.bind_ok ((ih m hm (hmembers m hm)).map fun v => (m.1, v) :: s))
    rw [List.map_id, List.foldl_flip_cons_eq_append', List.append_nil] at hread
    have hclosed : Reads (do close .curly; pure (Json.object ms.reverse.reverse))
        [.closing .curly] (.ok (.object ms)) := by
      rw [List.reverse_reverse]
      exact reads_closed _
    rw [toTokens]
    exact (reads_opening .curly).bind_ok
      (reads_spending (levels + 1) (reads_members_ok hread hclosed))

/-! ## Passing over values -/

/-- What is left of the tokens behind a value inside some brackets. -/
def skipBehind : List Bracket → List Token → Except Fault (List Token)
  | [], rest => .ok rest
  | b :: outer, rest => skipFrom .next (b :: outer) rest

/-- The value is passed over, inside whatever brackets. -/
def Skips (v : Json) : Prop :=
  ∀ outer rest, skipFrom .value outer (v.toTokens ++ rest) = skipBehind outer rest

theorem skipFrom_of_step {awaited : Awaited} {outer outer' : List Bracket} {t : Token}
    (h : Progress.step outer awaited t = .ok (Progress.behind outer')) (rest : List Token) :
    skipFrom awaited outer (t :: rest) = skipBehind outer' rest := by
  rw [skipFrom, h]
  cases outer' <;> rfl

theorem skipFrom_closing (awaited : Awaited) (hawaited : awaited = .first ∨ awaited = .next)
    (b : Bracket) (outer : List Bracket) (rest : List Token) :
    skipFrom awaited (b :: outer) (.closing b :: rest) = skipBehind outer rest := by
  have hstep : Progress.step (b :: outer) awaited (.closing b) = .ok (Progress.behind outer) := by
    obtain rfl | rfl := hawaited <;> rw [Progress.step, Progress.atClosing, if_pos rfl]
  exact skipFrom_of_step hstep rest

/-- The first item of an array is passed over as any value is. -/
theorem skipFrom_first {v : Json} (h : v.NumberFree) (outer : List Bracket) (rest : List Token) :
    skipFrom .first (.square :: outer) (v.toTokens ++ rest) =
      skipFrom .value (.square :: outer) (v.toTokens ++ rest) := by
  obtain ⟨t, ts, hv, ht⟩ := exists_first_token h
  rw [hv, List.cons_append, skipFrom, skipFrom]
  cases t with
  | closing b => exact absurd rfl (ht b)
  | _ => rfl

theorem skipFrom_items {vs : List Json} (h : ∀ v ∈ vs, Skips v) (outer : List Bracket)
    (rest : List Token) :
    skipFrom .next (.square :: outer) (itemTokens false vs ++ .closing .square :: rest) =
      skipBehind outer rest := by
  induction vs with
  | nil => exact skipFrom_closing .next (.inr rfl) .square outer rest
  | cons v vs ih =>
    rw [itemTokens, List.append_assoc, List.append_assoc]
    show skipFrom .value (.square :: outer) (v.toTokens ++ (itemTokens false vs ++ _)) = _
    rw [h v List.mem_cons_self]
    exact ih fun w hw => h w (List.mem_cons_of_mem v hw)

theorem skipFrom_members {ms : List (String × Json)} (h : ∀ m ∈ ms, Skips m.2) (first : Bool)
    (outer : List Bracket) (rest : List Token) :
    skipFrom (if first then .first else .next) (.curly :: outer)
      (memberTokens first ms ++ .closing .curly :: rest) = skipBehind outer rest := by
  induction ms generalizing first with
  | nil => cases first <;> exact skipFrom_closing _ (by simp) .curly outer rest
  | cons m ms ih =>
    have hms := ih (fun w hw => h w (List.mem_cons_of_mem m hw)) false
    have hm : skipFrom .value (.curly :: outer)
        (m.2.toTokens ++ (memberTokens false ms ++ .closing .curly :: rest)) =
          skipBehind outer rest := by
      rw [h m List.mem_cons_self]
      exact hms
    rw [memberTokens, List.append_assoc, List.cons_append, List.cons_append, List.append_assoc]
    cases first with
    | true => exact hm
    | false => exact hm

theorem skips {v : Json} (h : v.NumberFree) : Skips v := by
  induction h with
  | null => exact fun outer rest => skipFrom_of_step rfl rest
  | bool b => exact fun outer rest => skipFrom_of_step rfl rest
  | string s => exact fun outer rest => skipFrom_of_step rfl rest
  | @array vs hfree ih =>
    intro outer rest
    rw [toTokens, List.cons_append, List.append_assoc]
    show skipFrom .first (.square :: outer) (itemTokens true vs ++ .closing .square :: rest) = _
    cases vs with
    | nil => exact skipFrom_closing .first (.inl rfl) .square outer rest
    | cons v vs =>
      have hvs := skipFrom_items (fun w hw => ih w (List.mem_cons_of_mem v hw)) outer rest
      rw [itemTokens, separator, if_pos rfl, List.nil_append, List.append_assoc,
        skipFrom_first (hfree v List.mem_cons_self), ih v List.mem_cons_self]
      exact hvs
  | @object ms _ ih =>
    intro outer rest
    rw [toTokens, List.cons_append, List.append_assoc]
    exact skipFrom_members ih true outer rest

/-- A value without numbers is passed over, however deep it nests. -/
theorem reads_skipValue {v : Json} (h : v.NumberFree) : Reads skipValue v.toTokens (.ok ()) := by
  intro rest
  have hskip : skipFrom .value [] (v.toTokens ++ rest) = .ok rest := skips h [] rest
  rw [skipValue, StateT.run_bind, StateT.run_get, pure_bind]
  simp only [hskip]
  rfl

/-! ## Texts -/

/-- What is read from a text depends on the tokens that it is made of, and not on how they are
written. -/
theorem read_written {r : Reader α} {ts : List Token} {x : Except ReadError α} {text : String}
    (h : Reads r ts x) (htext : Written ts text.toList) : read r text = x := by
  have hrun : r.run ts = (·, []) <$> x := by
    have := h []
    rwa [List.append_nil] at this
  rw [read, htext.tokens_eq, hrun]
  cases x <;> rfl

/-- What is read from the text of a value does not depend on how the text is laid out. -/
theorem read_print {r : Reader α} {v : Json} {x : Except ReadError α} (hfree : v.NumberFree)
    (h : Reads r v.toTokens x) (layout : Layout) :
    read r (String.ofList (print layout v)) = x :=
  read_written h (String.toList_ofList ▸ written_print hfree layout)

end Reader

end IdlModel.Json
