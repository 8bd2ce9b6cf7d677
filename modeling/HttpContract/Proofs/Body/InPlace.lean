import HttpContract.Proofs.Body.Reading

/-!
# Refusals in place

A scalar or a member of an enumeration is read alike wherever it stands in a body. What is made of
it does not depend on its path; and when it is refused, this is for the same reason at every path,
with the path as the place of the refusal.
-/

namespace HttpContract

section InPlace

variable {α β : Type}

/-- Whether a result is the same at every path below the root, but for the place that a refusal
names. -/
inductive InPlace (x : String → Except Failure α) : Prop
  | made (v : α) (h : ∀ path ≠ "", x path = .ok v)
  | refused (why : Refusal) (h : ∀ path ≠ "", x path = .error (.refused (some path) why))
  | fault (fault : Fault) (h : ∀ path ≠ "", x path = .error (.fault fault))

namespace InPlace

/-- A value is the same at every path. -/
theorem ok (v : α) : InPlace fun _ => (.ok v : Except Failure α) := .made v fun _ _ => rfl

/-- A fault is the same at every path. -/
theorem error (f : Fault) : InPlace fun _ => (.error (.fault f) : Except Failure α) :=
  .fault f fun _ _ => rfl

/-- Two results in a row are in place when both are. -/
theorem bind {x : String → Except Failure α} {f : String → α → Except Failure β} (hx : InPlace x)
    (hf : ∀ v, InPlace fun path => f path v) : InPlace fun path => x path >>= f path := by
  cases hx with
  | refused why h => exact .refused why fun path hpath => by rw [h path hpath]; rfl
  | fault f h => exact .fault f fun path hpath => by rw [h path hpath]; rfl
  | made v h =>
    have hstep : ∀ path ≠ "", (x path >>= f path) = f path v :=
      fun path hpath => bind_eq_of_ok (h path hpath)
    cases hf v with
    | made w hw => exact .made w fun path hpath => (hstep path hpath).trans (hw path hpath)
    | refused why hw =>
      exact .refused why fun path hpath => (hstep path hpath).trans (hw path hpath)
    | fault f hw => exact .fault f fun path hpath => (hstep path hpath).trans (hw path hpath)

/-- A choice is in place when both of its branches are. -/
theorem ite {p : Prop} [Decidable p] {x y : String → Except Failure α} (hx : InPlace x)
    (hy : InPlace y) : InPlace fun path => if p then x path else y path := by
  by_cases hp : p
  · simpa only [if_pos hp] using hx
  · simpa only [if_neg hp] using hy

/-- A binding error of a result in place is a refusal that has its path as its place, and is the
same at every other path. -/
theorem exists_refusal {x : String → Except Failure α} (hx : InPlace x) {path : String}
    (hpath : path ≠ "") {e : BindingError} (he : x path = .error (.binding e)) :
    ∃ why, e = .refused (some path) why ∧
      ∀ other ≠ "", x other = .error (.binding (.refused (some other) why)) := by
  cases hx with
  | made v h =>
    rw [h path hpath] at he
    cases he
  | fault f h =>
    rw [h path hpath] at he
    cases he
  | refused why h =>
    rw [h path hpath] at he
    obtain ⟨hwhy, rfl⟩ := Failure.refused_eq_binding_iff.mp (Except.error.inj he)
    refine ⟨why, rfl, fun other hother => ?_⟩
    rw [h other hother, Failure.refused_eq_binding_iff.mpr ⟨hwhy, rfl⟩]

end InPlace

end InPlace

namespace Constraint

/-- A refusal by a constraint, in words of its own or not, has the path as its place. -/
theorem inPlace_refuse {α : Type} (message : Option String) (why : Refusal) :
    InPlace fun path => (.error (refuse message path why) : Except Failure α) :=
  .refused (worded message why) fun _ _ => rfl

/-- Whether a value counts as a number does not depend on the path. -/
theorem inPlace_numberOf (sign : String) (bound : Number) (valueFirst : Bool) (v : Value) :
    InPlace fun _ => numberOf sign bound valueFirst v := by
  unfold numberOf
  split
  · exact .ok _
  · exact .ite (.error _) (.error _)

/-- Whether a value has a length does not depend on the path. -/
theorem inPlace_lengthOf (v : Value) : InPlace fun _ => lengthOf v := by
  unfold lengthOf
  split
  all_goals first | exact .ok _ | exact .error _

/-- Whether a value counts as a text does not depend on the path. -/
theorem inPlace_textOf (operation : String) (v : Value) : InPlace fun _ => textOf operation v := by
  unfold textOf
  split
  · exact .ok _
  · exact .error _

/-- A constraint does the same to a value at every path. -/
theorem inPlace_apply (c : Constraint) (v : Value) : InPlace fun path => c.apply path v := by
  cases c with
  | min bound message =>
    exact (inPlace_numberOf "<" bound true v).bind fun _ => .ite (inPlace_refuse _ _) (.ok v)
  | max bound message =>
    exact (inPlace_numberOf ">" bound true v).bind fun _ => .ite (inPlace_refuse _ _) (.ok v)
  | clamp low high => exact (inPlace_numberOf ">" low false v).bind fun _ => .ok _
  | minLength bound message | maxLength bound message =>
    exact (inPlace_lengthOf v).bind fun _ => .ite (inPlace_refuse _ _) (.ok v)
  | length low high message =>
    exact (inPlace_lengthOf v).bind fun _ => .ite (.ok v) (inPlace_refuse _ _)
  | pattern regex message =>
    simp only [apply]
    split
    · exact .error _
    · split
      · exact .error _
      · exact .ite (.ok v) (inPlace_refuse _ _)
  | trim => exact (inPlace_textOf "strip" v).bind fun _ => .ok _
  | lower => exact (inPlace_textOf "lower" v).bind fun _ => .ok _
  | upper => exact (inPlace_textOf "upper" v).bind fun _ => .ok _

end Constraint

/-- Constraints in a row do the same to a value at every path. -/
theorem inPlace_applyInOrder (ordered : List Constraint) (v : Value) :
    InPlace fun path => applyInOrder path ordered v := by
  induction ordered generalizing v with
  | nil => exact .ok v
  | cons c rest ih => exact (c.inPlace_apply v).bind ih

namespace Body

/-- The place of a failure at a path below the root is this path. -/
theorem place_of_ne {path : String} (hpath : path ≠ "") : place path = some path := by
  rw [place, if_neg fun h => hpath (String.isEmpty_iff.mp h)]

/-- A value of the wrong kind is refused in place. -/
theorem inPlace_mismatch {α : Type} (expected : Expected) (j : Json) :
    InPlace fun path => (mismatch path expected j : Except Failure α) :=
  .refused _ fun path hpath => by rw [mismatch, place_of_ne hpath]

/-- A text is converted alike at every path. -/
theorem inPlace_readText (expected : Expected) (convert : String → Option Value) (j : Json) :
    InPlace fun path => readText path expected convert j := by
  unfold readText
  split
  · split
    · exact .ok _
    · exact .refused _ fun path hpath => by rw [unreadableAs, place_of_ne hpath]
  · exact inPlace_mismatch expected _

/-- A scalar is read alike at every path. -/
theorem inPlace_readScalar (type : Scalar) (j : Json) :
    InPlace fun path => readScalar path type j := by
  cases type with
  | number =>
    simp only [readScalar, readNumber]
    split
    · split
      · exact .ok _
      · exact .error _
    · exact .ite (.ok _) (inPlace_mismatch _ _)
    · exact inPlace_mismatch _ _
  | text | integer | boolean =>
    simp only [readScalar]
    split
    · exact .ok _
    · exact inPlace_mismatch _ _
  | uuid | date | dateTime => exact inPlace_readText _ _ _

/-- A member of an enumeration is read alike at every path. -/
theorem inPlace_readMember (name : String) (e : Enumeration) (j : Json) :
    InPlace fun path => readMember name e path j := by
  unfold readMember
  split
  · exact .ok _
  · dsimp only
    split
    · exact .ok _
    · exact .refused _ fun path hpath => by rw [place_of_ne hpath]

/-- A form without parts is read alike at every path. -/
theorem inPlace_readLeaf (C : Classes) (form : Leaf) (constraints : List Constraint) (j : Json) :
    InPlace fun path => readLeaf C form constraints path j := by
  cases form with
  | scalar type =>
    exact (inPlace_readScalar type j).bind fun v => .ite (inPlace_applyInOrder _ v) (.ok v)
  | enumeration name =>
    simp only [readLeaf]
    split
    · exact inPlace_readMember name _ j
    · exact .error _
  | record name | polymorphic base => exact inPlace_mismatch .object j
  | any => exact .ok _

end Body

end HttpContract
