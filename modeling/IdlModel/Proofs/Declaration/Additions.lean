import Mathlib.Data.List.Induction
import IdlModel.Declaration.Addition

/-!
# Where additions go

A declaration takes additions one after the other, in any mixture of lists. Each list ends up as the
one that was there followed by the items that are for it, in the order in which they were given, and
an addition that there is no list for changes nothing (`Declaration.addAll_received`).

An index stands for a method only once there are enough methods, so of the items with the index of a
method that joins later those behind it count (`Addition.behindMethods`).
-/

namespace IdlModel

/-! ## The items for a list -/

namespace Addition

/-- The value that is added to an enum. -/
def value? : Addition → Option String
  | .value v => some v
  | _ => none

/-- The attribute that is added to a struct or an exception. -/
def field? : Addition → Option Attribute
  | .field a => some a
  | _ => none

/-- The method that is added to a service. -/
def method? : Addition → Option Method
  | .method m => some m
  | _ => none

/-- The attribute that is added to the parameters of the method with this index. -/
def parameterAt? (index : Nat) : Addition → Option Attribute
  | .parameter i a => if i = index then some a else none
  | _ => none

/-- The type that is added to the exceptions of the method with this index. -/
def thrownAt? (index : Nat) : Addition → Option TypeRef
  | .thrown i a => if i = index then some a.type else none
  | _ => none

/-- The additions behind the first `n` methods among them. -/
def behindMethods : Nat → List Addition → List Addition
  | 0, as => as
  | _ + 1, [] => []
  | n + 1, .method _ :: as => behindMethods n as
  | n + 1, _ :: as => behindMethods (n + 1) as

theorem behindMethods_nil (n : Nat) : behindMethods n [] = [] := by
  cases n <;> rfl

theorem behindMethods_append_singleton {n : Nat} {as : List Addition}
    (h : n ≤ (as.filterMap method?).length) (a : Addition) :
    behindMethods n (as ++ [a]) = behindMethods n as ++ [a] := by
  induction as generalizing n with
  | nil =>
    obtain rfl := Nat.le_zero.1 h
    rfl
  | cons b as ih =>
    cases n with
    | zero => rfl
    | succ n =>
      cases b with
      | method m => exact ih (Nat.le_of_succ_le_succ h)
      | _ => exact ih h

theorem behindMethods_append_method (as : List Addition) (m : Method) :
    behindMethods ((as.filterMap method?).length + 1) (as ++ [.method m]) = [] := by
  induction as with
  | nil => rfl
  | cons b as ih => cases b <;> exact ih

end Addition

open Addition (behindMethods)

namespace Method

/-- The method with the items for its index at the ends of its lists. -/
def receiving (index : Nat) (as : List Addition) (m : Method) : Method :=
  { m with
    parameters := m.parameters ++ as.filterMap (Addition.parameterAt? index)
    exceptions := m.exceptions ++ as.filterMap (Addition.thrownAt? index) }

theorem receiving_nil (index : Nat) (m : Method) : m.receiving index [] = m := by
  simp [receiving]

theorem receiving_receiving (index : Nat) (as bs : List Addition) (m : Method) :
    (m.receiving index as).receiving index bs = m.receiving index (as ++ bs) := by
  simp [receiving]

theorem receiving_parameter (i index : Nat) (a : Attribute) (m : Method) :
    m.receiving i [.parameter index a] = if index = i then m.addParameter a else m := by
  split <;> simp [receiving, addParameter, Addition.parameterAt?, Addition.thrownAt?,
    List.filterMap_cons, *]

theorem receiving_thrown (i index : Nat) (a : Attribute) (m : Method) :
    m.receiving i [.thrown index a] = if index = i then m.addThrown a else m := by
  split <;> simp [receiving, addThrown, Addition.parameterAt?, Addition.thrownAt?,
    List.filterMap_cons, *]

end Method

/-! ## The methods of a service -/

/-- The methods of a service after some additions: those that were there and those that have joined,
each with the items that are for it once it is there. -/
def methodsAfter (ms : List Method) (as : List Addition) : List Method :=
  (ms ++ as.filterMap Addition.method?).mapIdx fun index m =>
    m.receiving index (behindMethods (index + 1 - ms.length) as)

variable (ms : List Method)

theorem methodsAfter_nil : methodsAfter ms [] = ms := by
  refine List.ext_getElem? fun i => ?_
  rw [methodsAfter, List.filterMap_nil, List.append_nil, List.getElem?_mapIdx,
    Addition.behindMethods_nil, funext (Method.receiving_nil i), Option.map_id']

/-- One more addition goes to the methods that are there, or is a method that joins them. -/
theorem methodsAfter_append_singleton (as : List Addition) (a : Addition) :
    methodsAfter ms (as ++ [a]) =
      (methodsAfter ms as).mapIdx (fun index m => m.receiving index [a]) ++
        [a].filterMap Addition.method? := by
  have hthere : (ms ++ as.filterMap Addition.method?).mapIdx (fun index m =>
        m.receiving index (behindMethods (index + 1 - ms.length) (as ++ [a]))) =
      (methodsAfter ms as).mapIdx fun index m => m.receiving index [a] := by
    rw [methodsAfter, List.mapIdx_mapIdx]
    refine List.ext_getElem (by simp) fun i hi _ => ?_
    rw [List.length_mapIdx, List.length_append] at hi
    rw [List.getElem_mapIdx, List.getElem_mapIdx, Function.comp_apply, Method.receiving_receiving,
      Addition.behindMethods_append_singleton (by omega)]
  rw [← hthere, methodsAfter, List.filterMap_append, ← List.append_assoc, List.mapIdx_append]
  congr 1
  cases a with
  | method m =>
    have hindex : 0 + (ms ++ as.filterMap Addition.method?).length + 1 - ms.length =
        (as.filterMap Addition.method?).length + 1 := by
      rw [List.length_append]
      omega
    show [m.receiving _ (behindMethods (0 + _ + 1 - ms.length) (as ++ [.method m]))] = [m]
    rw [hindex, Addition.behindMethods_append_method, Method.receiving_nil]
  | _ => rfl

/-! ## One addition -/

theorem mapIdx_receiving_eq_modify {a : Addition} {index : Nat} {f : Method → Method}
    (h : ∀ i m, Method.receiving i [a] m = if index = i then f m else m) :
    (ms.mapIdx fun i m => m.receiving i [a]) = ms.modify index f := by
  refine List.ext_getElem? fun i => ?_
  rw [List.getElem?_mapIdx, List.getElem?_modify, funext (h i)]
  rfl

theorem mapIdx_receiving_eq_self {a : Addition} (h : ∀ i m, Method.receiving i [a] m = m) :
    (ms.mapIdx fun i m => m.receiving i [a]) = ms := by
  refine List.ext_getElem? fun i => ?_
  rw [List.getElem?_mapIdx, funext (h i), Option.map_id']

theorem getD_modifyMethod? (index : Nat) (f : Method → Method) :
    ((modifyMethod? ms index f).map Body.service).getD (.service ms) =
      .service (ms.modify index f) := by
  rw [modifyMethod?]
  split
  · rfl
  · next h =>
    rw [List.modify_eq_self (Nat.le_of_not_lt h)]
    rfl

namespace Body

/-- The body after one addition, which leaves it as it is if there is no list for it. -/
def added (b : Body) (a : Addition) : Body :=
  (b.add? a).getD b

theorem added_service (a : Addition) :
    (Body.service ms).added a = .service
      (ms.mapIdx (fun index m => m.receiving index [a]) ++ [a].filterMap Addition.method?) := by
  cases a with
  | field f =>
    have hself := mapIdx_receiving_eq_self (a := .field f) ms Method.receiving_nil
    exact congrArg _ ((List.append_nil _).trans hself).symm
  | value v =>
    have hself := mapIdx_receiving_eq_self (a := .value v) ms Method.receiving_nil
    exact congrArg _ ((List.append_nil _).trans hself).symm
  | method m =>
    have hself := mapIdx_receiving_eq_self (a := .method m) ms Method.receiving_nil
    exact congrArg (fun ns => Body.service (ns ++ [m])) hself.symm
  | parameter index a =>
    rw [mapIdx_receiving_eq_modify ms fun i => Method.receiving_parameter i index a]
    exact (getD_modifyMethod? ms index _).trans (congrArg _ (List.append_nil _).symm)
  | thrown index a =>
    rw [mapIdx_receiving_eq_modify ms fun i => Method.receiving_thrown i index a]
    exact (getD_modifyMethod? ms index _).trans (congrArg _ (List.append_nil _).symm)

theorem kind_added (b : Body) (a : Addition) : (b.added a).kind = b.kind := by
  rw [added]
  cases h : b.add? a with
  | none => rfl
  | some b' => exact kind_add? h

end Body

namespace Declaration

/-- The declaration after one addition, which leaves it as it is if there is no list for it. -/
def added (d : Declaration) (a : Addition) : Declaration :=
  { d with body := d.body.added a }

variable (d : Declaration) (a : Addition)

theorem added_eq : d.added a = (d.add? a).getD d := by
  rw [added, Body.added, add?]
  cases d.body.add? a <;> rfl

theorem addAll_append_singleton (as : List Addition) :
    d.addAll (as ++ [a]) = (d.addAll as).added a := by
  rw [addAll, List.foldl_append, added_eq]
  rfl

theorem kind_added : (d.added a).kind = d.kind :=
  d.body.kind_added a

theorem values_added : (d.added a).body.values =
    if d.kind = .enum then d.body.values ++ [a].filterMap Addition.value? else d.body.values := by
  obtain ⟨name, comment, b⟩ := d
  cases b with
  | enum vs =>
    cases a with
    | value v => rfl
    | _ => exact (List.append_nil vs).symm
  | service ms => rw [added, Body.added_service]; rfl
  | _ => cases a <;> rfl

theorem attributes_added : (d.added a).body.attributes =
    if d.acceptsAttributes then d.body.attributes ++ [a].filterMap Addition.field?
    else d.body.attributes := by
  obtain ⟨name, comment, b⟩ := d
  cases b with
  | struct as | exception as =>
    cases a with
    | field f => rfl
    | _ => exact (List.append_nil as).symm
  | service ms => rw [added, Body.added_service]; rfl
  | enum vs => cases a <;> rfl

theorem methods_added : (d.added a).body.methods =
    if d.kind = .service then
      d.body.methods.mapIdx (fun index m => m.receiving index [a]) ++
        [a].filterMap Addition.method?
    else d.body.methods := by
  obtain ⟨name, comment, b⟩ := d
  cases b with
  | service ms => rw [added, Body.added_service]; rfl
  | _ => cases a <;> rfl

theorem acceptsAttributes_eq :
    d.acceptsAttributes = decide (d.kind = .struct ∨ d.kind = .exception) := by
  obtain ⟨name, comment, b⟩ := d
  cases b <;> rfl

/-- The declaration has the list that the addition is for. -/
def Takes (d : Declaration) : Addition → Prop
  | .field _ => d.acceptsAttributes
  | .value _ => d.kind = .enum
  | .method _ => d.kind = .service
  | .parameter index _ | .thrown index _ => d.kind = .service ∧ index < d.body.methods.length

theorem add?_eq_none_iff : d.add? a = none ↔ ¬ d.Takes a := by
  obtain ⟨name, comment, b⟩ := d
  cases b <;> cases a <;>
    simp [add?, Body.add?, modifyMethod?, Takes, acceptsAttributes, kind, Body.kind, Body.methods]

/-! ## Any number of additions -/

/-- The second declaration is the first one after some additions: each of its lists has the items
that are for it at the end, and all else is as it was. -/
structure Received (d : Declaration) (as : List Addition) (d' : Declaration) : Prop where
  name : d'.name = d.name
  comment : d'.comment = d.comment
  kind : d'.kind = d.kind
  values : d'.body.values =
    if d.kind = .enum then d.body.values ++ as.filterMap Addition.value? else d.body.values
  attributes : d'.body.attributes =
    if d.acceptsAttributes then d.body.attributes ++ as.filterMap Addition.field?
    else d.body.attributes
  methods : d'.body.methods =
    if d.kind = .service then methodsAfter d.body.methods as else d.body.methods

variable {d}

theorem Received.refl : d.Received [] d where
  name := rfl
  comment := rfl
  kind := rfl
  values := by simp
  attributes := by simp
  methods := by simp [methodsAfter_nil]

theorem Received.added {as : List Addition} {d' : Declaration} (h : d.Received as d')
    (a : Addition) : d.Received (as ++ [a]) (d'.added a) where
  name := h.name
  comment := h.comment
  kind := (d'.kind_added a).trans h.kind
  values := by
    rw [values_added, h.kind, h.values, List.filterMap_append]
    split
    · rw [List.append_assoc]
    · rfl
  attributes := by
    have haccepts : d'.acceptsAttributes = d.acceptsAttributes := by
      rw [acceptsAttributes_eq, acceptsAttributes_eq, h.kind]
    rw [attributes_added, haccepts, h.attributes, List.filterMap_append]
    split
    · rw [List.append_assoc]
    · rfl
  methods := by
    rw [methods_added, h.kind, h.methods, methodsAfter_append_singleton]
    split <;> rfl

theorem received_addAll (d : Declaration) (as : List Addition) : d.Received as (d.addAll as) := by
  induction as using List.reverseRecOn with
  | nil => exact .refl
  | append_singleton as a ih =>
    rw [addAll_append_singleton]
    exact ih.added a

/-- Whatever is added to a declaration, and in whatever order: each of its lists, and each list of
its methods, becomes the one that it was followed by the items that are for it, in their order. Its
name, its comment, its kind and all else of its methods stay as they are. An addition is refused
exactly if there is no list for it when its turn comes, and then nothing changes. -/
theorem addAll_received (d : Declaration) (as : List Addition) :
    d.Received as (d.addAll as) ∧
      ∀ a, ((d.addAll as).add? a = none ↔ ¬ (d.addAll as).Takes a) ∧
        (¬ (d.addAll as).Takes a → d.addAll (as ++ [a]) = d.addAll as) := by
  refine ⟨d.received_addAll as, fun a => ⟨add?_eq_none_iff _ a, fun h => ?_⟩⟩
  have hnone := (add?_eq_none_iff _ a).2 h
  rw [addAll_append_singleton, added_eq, hnone]
  rfl

/-- A service with one method. -/
def ferry : Declaration :=
  { name := "Ferry"
    body := .service [{ name := "cross", returnType := ⟨"Shore"⟩
                        parameters := [⟨"from", ⟨"Shore"⟩, none⟩] }] }

/-- Additions for a service, one of which comes before the method it is for, and one of which is for
an enum. -/
def crossings : List Addition :=
  [.parameter 1 ⟨"early", ⟨"i32"⟩, none⟩, .thrown 0 ⟨"e", ⟨"Storm"⟩, none⟩,
    .method { name := "moor", returnType := ⟨"void"⟩ }, .parameter 1 ⟨"late", ⟨"i32"⟩, some "at"⟩,
    .value "OPEN", .parameter 0 ⟨"load", ⟨"Cargo"⟩, none⟩]

theorem addAll_received_ferry :
    (ferry.addAll crossings).body.methods =
      [{ name := "cross", returnType := ⟨"Shore"⟩
         parameters := [⟨"from", ⟨"Shore"⟩, none⟩, ⟨"load", ⟨"Cargo"⟩, none⟩]
         exceptions := [⟨"Storm"⟩] },
       { name := "moor", returnType := ⟨"void"⟩, parameters := [⟨"late", ⟨"i32"⟩, some "at"⟩] }] ∧
    ¬ (ferry.addAll crossings).Takes (.parameter 2 ⟨"lost", ⟨"i32"⟩, none⟩) ∧
    ferry.addAll (crossings ++ [.parameter 2 ⟨"lost", ⟨"i32"⟩, none⟩]) =
      ferry.addAll crossings := by
  obtain ⟨hreceived, hrefused⟩ := addAll_received ferry crossings
  have hmissing : ¬ (ferry.addAll crossings).Takes (.parameter 2 ⟨"lost", ⟨"i32"⟩, none⟩) := by
    rintro ⟨-, hindex⟩
    exact absurd hindex (by decide)
  exact ⟨hreceived.methods.trans (by decide), hmissing, (hrefused _).2 hmissing⟩

end Declaration

end IdlModel
