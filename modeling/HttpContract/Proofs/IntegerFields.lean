import HttpContract.Proofs.ArrayItems
import HttpContract.Proofs.ConstraintOrder
import Mathlib.Data.List.Induction

/-!
# What integer fields hold

A text or a JSON value is read as an integer where a type says so, and is then put under the
constraints in force there. A bound lets it pass as it is. A clamp gives one of its own bounds for
it when it lies outside of them, and a bound may be a float: so an integer field holds an integer
unless a clamp has put such a bound there, and nothing behind it has put another one.
-/

namespace HttpContract

section Clamps

variable {cs rest : List Constraint} {place : String} {v w : Value} {n : Int} {x : Double}

/-- What a clamp makes of a value is one of its bounds, or the value itself. -/
theorem Constraint.apply_clamp_cases {low high : Number}
    (h : (Constraint.clamp low high).apply place v = .ok w) :
    w = .number low ∨ w = .number high ∨ w = v := by
  obtain ⟨m, _, h⟩ := bind_eq_ok_iff.mp h
  have hw := Except.ok.inj h
  split at hw
  · split at hw
    · exact Or.inr (Or.inl hw.symm)
    · exact Or.inl hw.symm
  · split at hw
    · exact Or.inr (Or.inl hw.symm)
    · exact Or.inr (Or.inr hw.symm)

/-- What constraints in a row make of a value the second ones make of what the first ones make. -/
theorem applyInOrder_append_eq_ok_iff {first second : List Constraint} :
    applyInOrder place (first ++ second) v = .ok w ↔
      ∃ u, applyInOrder place first v = .ok u ∧ applyInOrder place second u = .ok w := by
  rw [applyInOrder_append]
  exact bind_eq_ok_iff

/-- One constraint in a row makes of a value what it makes of it alone. -/
theorem applyInOrder_singleton (place : String) (c : Constraint) (v : Value) :
    applyInOrder place [c] v = c.apply place v := by
  rw [applyInOrder]
  cases c.apply place v <;> rfl

/-- Whether constraints make a float of an integer: a clamp gives a float bound for what those in
front of it have made of the integer, and those behind it let this bound pass. -/
def ClampsTo (cs : List Constraint) (n : Int) (x : Double) : Prop :=
  ∃ front low high behind u, cs = front ++ .clamp low high :: behind ∧
    applyInOrder "" front (.int n) = .ok u ∧ (low = .float x ∨ high = .float x) ∧
    (Constraint.clamp low high).apply "" u = .ok (.float x) ∧
    applyInOrder "" behind (.float x) = .ok (.float x)

/-- One more constraint that lets the float pass leaves it what is made of the integer. -/
theorem ClampsTo.concat {c : Constraint} (h : ClampsTo cs n x)
    (hc : c.apply "" (.float x) = .ok (.float x)) : ClampsTo (cs ++ [c]) n x := by
  obtain ⟨front, low, high, behind, u, rfl, hfront, hbound, hmoved, hbehind⟩ := h
  have hsplit : front ++ .clamp low high :: behind ++ [c] =
      front ++ .clamp low high :: (behind ++ [c]) := by simp
  have hpass : applyInOrder "" (behind ++ [c]) (.float x) = .ok (.float x) :=
    applyInOrder_append_eq_ok_iff.mpr ⟨_, hbehind, (applyInOrder_singleton ..).trans hc⟩
  exact ⟨front, low, high, behind ++ [c], u, hsplit, hfront, hbound, hmoved, hpass⟩

/-- Constraints that make a float of an integer accept it as this float. -/
theorem ClampsTo.applyInOrder_eq_ok (h : ClampsTo cs n x) :
    applyInOrder "" cs (.int n) = .ok (.float x) := by
  obtain ⟨front, low, high, behind, u, rfl, hfront, _, hmoved, hbehind⟩ := h
  exact applyInOrder_append_eq_ok_iff.mpr ⟨u, hfront, bind_eq_ok_iff.mpr ⟨_, hmoved, hbehind⟩⟩

/-- Constraints on numbers make of an integer an integer, or a float that a clamp gives. -/
theorem integer_or_clampsTo (hnumbers : ∀ c ∈ cs, c.isNumeric = true)
    (h : applyInOrder "" cs (.int n) = .ok w) :
    (∃ m, w = .int m) ∨ ∃ x, w = .float x ∧ ClampsTo cs n x := by
  -- The last constraint is the one that can undo what the others have made.
  induction cs using List.reverseRecOn generalizing w with
  | nil => exact Or.inl ⟨n, (Except.ok.inj h).symm⟩
  | append_singleton rest c ih =>
    rw [List.forall_mem_append] at hnumbers
    obtain ⟨hrest, hc⟩ := hnumbers
    obtain ⟨u, hu, happly⟩ := applyInOrder_append_eq_ok_iff.mp h
    rw [applyInOrder_singleton] at happly
    have hkept (hsame : w = u) : (∃ m, w = .int m) ∨ ∃ x, w = .float x ∧
        ClampsTo (rest ++ [c]) n x := by
      subst hsame
      rcases ih hrest hu with hint | ⟨x, rfl, hclamps⟩
      · exact Or.inl hint
      · exact Or.inr ⟨x, rfl, hclamps.concat happly⟩
    have hput {bound : Number} {low high : Number} (hclamp : c = .clamp low high)
        (hbound : low = bound ∨ high = bound) (hw : w = .number bound) :
        (∃ m, w = .int m) ∨ ∃ x, w = .float x ∧ ClampsTo (rest ++ [c]) n x := by
      subst hclamp hw
      cases bound with
      | int m => exact Or.inl ⟨m, rfl⟩
      | float x => exact Or.inr ⟨x, rfl, rest, low, high, [], u, rfl, hu, hbound, happly, rfl⟩
    cases hclamp : c.isClamp with
    | false =>
      have hnumeric := hc c (List.mem_singleton_self c)
      have htransform := (Constraint.rewrites_of_isNumeric hnumeric).1
      exact hkept (Constraint.eq_of_apply htransform hclamp happly)
    | true =>
      cases c with
      | clamp low high =>
        rcases Constraint.apply_clamp_cases happly with hlow | hhigh | hsame
        · exact hput rfl (Or.inl rfl) hlow
        · exact hput rfl (Or.inr rfl) hhigh
        · exact hkept hsame
      | _ => cases hclamp

end Clamps

namespace TypeInfo

/-- The constraints in force where a type holds integers: those of an integer type, and for an array
of integers its own before those of its items. -/
def integerConstraints? : TypeInfo → Option (List Constraint)
  | .leaf (.scalar .integer) _ notes => some (constraintsIn notes)
  | .array _ (.leaf (.scalar .integer) _ itemNotes) _ notes =>
    some (constraintsIn notes ++ constraintsIn itemNotes)
  | _ => none

/-- A type that holds integers is an integer type or an array of such a type. -/
theorem cases_of_integerConstraints? {type : TypeInfo} {cs : List Constraint}
    (h : type.integerConstraints? = some cs) :
    (∃ nullable notes, type = .leaf (.scalar .integer) nullable notes ∧ cs = constraintsIn notes) ∨
      ∃ container itemNullable itemNotes nullable notes,
        type = .array container (.leaf (.scalar .integer) itemNullable itemNotes) nullable notes ∧
          cs = constraintsIn notes ++ constraintsIn itemNotes := by
  unfold integerConstraints? at h
  split at h
  · exact Or.inl ⟨_, _, rfl, (Option.some.inj h).symm⟩
  · exact Or.inr ⟨_, _, _, _, _, rfl, (Option.some.inj h).symm⟩
  · cases h

/-- The constraints in force where a checked type holds integers are about numbers. -/
theorem isNumeric_of_integerConstraints? {owner : String} {type : TypeInfo} {cs : List Constraint}
    (hcheck : checkConstraints owner type type.constraints = .ok ())
    (h : type.integerConstraints? = some cs) : ∀ c ∈ cs, c.isNumeric = true := by
  rcases cases_of_integerConstraints? h with
    ⟨nullable, notes, rfl, rfl⟩ | ⟨container, itemNullable, itemNotes, nullable, notes, rfl, rfl⟩
  · exact fun c hc => (fits_of_checkEach hcheck c hc).1
  · obtain ⟨_, houter, hinner⟩ := bind_eq_ok_iff.mp hcheck
    rw [List.forall_mem_append]
    exact ⟨fun c hc => (fits_of_checkEach houter c hc).1,
      fun c hc => (fits_of_checkEach hinner c hc).1⟩

end TypeInfo

/-- What a value of a type holds: the items of an array, or else the value itself. -/
def Value.parts (type : TypeInfo) (v : Value) : List Value :=
  match type with
  | .array .. => v.items
  | _ => [v]

/-- The values that a field may hold: those that its parser makes of the texts of a request, and
those that a JSON value is read as at its type. -/
inductive Field.MayHold (C : Classes) (f : Field) : Value → Prop
  | parsed {location : Location} {allowEmpty : Bool} {p : FlatParser} {name : String}
      {raw : RawValues} {v : Value} (hp : Binding.flatParser? f location allowEmpty = some p)
      (hv : p.build C name raw = .ok (some v)) : MayHold C f v
  | read {j : Json} {path : String} {v : Value} (hv : Body.readValue C f.type j path = .ok v) :
      MayHold C f v

section Reading

variable {C : Classes} {constraints : List Constraint} {path : String} {w : Value}

/-- What a parser of integers makes of a text the constraints make of an integer. -/
theorem ScalarParser.exists_integer {p : ScalarParser} (htype : p.type = .scalar .integer)
    {name text : String} (h : p.parseOne C name text = .ok (some w)) :
    ∃ n : Int, applyConstraints p.constraints (.int n) name = .ok w := by
  obtain ⟨v, hv, hw⟩ := p.converted_of_parseOne h
  rw [htype] at hv
  obtain ⟨n, _, rfl⟩ := Option.map_eq_some_iff.mp hv
  exact ⟨n, hw⟩

/-- What a parser of one value makes of texts it makes of the first one. -/
theorem FlatParser.exists_of_build_scalar {item : ScalarParser} {style : ParameterStyle}
    {explode : Bool} {name : String} {raw : RawValues}
    (h : (scalar item style explode).build C name raw = .ok (some w)) :
    ∃ text, item.parseOne C name text = .ok (some w) := by
  unfold build at h
  split at h
  · cases h
  · dsimp only at h
    split at h
    · cases h
    · exact ⟨_, h⟩

/-- What a JSON value is read as at an integer type is null, or what the constraints make of an
integer. -/
theorem Body.null_or_integer {nullable : Bool} {notes : List Note} {j : Json}
    (h : read C j (.leaf (.scalar .integer) nullable notes) path constraints = .ok w) :
    (w = .null ∧ nullable = true) ∨
      ∃ n : Int, applyConstraints (constraints ++ constraintsIn notes) (.int n) path = .ok w := by
  by_cases hj : j = .null
  · rw [hj, read_null] at h
    split at h
    · rename_i hnullable
      exact Or.inl ⟨(Except.ok.inj h).symm, hnullable⟩
    · cases h
  · rw [read_leaf hj rfl] at h
    obtain ⟨v, hv, h⟩ := bind_eq_ok_iff.mp h
    simp only [readScalar] at hv
    split at hv
    · rename_i n
      obtain rfl := Except.ok.inj hv
      exact Or.inr ⟨n, h⟩
    · cases hv

/-- What a field holds where its type holds integers is null, or what the constraints in force there
make of an integer. -/
theorem Field.MayHold.null_or_integer {f : Field} {cs : List Constraint} {v : Value}
    (hcs : f.type.integerConstraints? = some cs) (h : f.MayHold C v) (hw : w ∈ v.parts f.type) :
    (w = .null ∧ f.type.constrained.nullable = true) ∨
      ∃ (n : Int) (place : String), applyConstraints cs (.int n) place = .ok w := by
  rcases TypeInfo.cases_of_integerConstraints? hcs with
    ⟨nullable, notes, htype, rfl⟩
      | ⟨container, itemNullable, itemNotes, nullable, notes, htype, rfl⟩
  · rw [htype] at hw ⊢
    obtain rfl := List.mem_singleton.mp hw
    cases h with
    | parsed hp hv =>
      have hconstraints : f.constraints = constraintsIn notes := by
        rw [Field.constraints, htype]
        rfl
      unfold Binding.flatParser? at hp
      rw [htype] at hp
      obtain rfl := Option.some.inj hp
      obtain ⟨text, htext⟩ := FlatParser.exists_of_build_scalar hv
      obtain ⟨n, hn⟩ := ScalarParser.exists_integer rfl htext
      exact Or.inr ⟨n, _, hconstraints ▸ hn⟩
    | read hv =>
      rw [Body.readValue, htype] at hv
      rcases Body.null_or_integer hv with hnull | ⟨n, hn⟩
      · exact Or.inl hnull
      · exact Or.inr ⟨n, _, hn⟩
  · rw [htype] at hw ⊢
    cases h with
    | parsed hp hv =>
      unfold Binding.flatParser? at hp
      rw [htype] at hp
      obtain rfl := Option.some.inj hp
      obtain ⟨text, htext⟩ := FlatParser.exists_of_mem_build hv hw
      obtain ⟨n, hn⟩ := ScalarParser.exists_integer rfl htext
      exact Or.inr ⟨n, _, hn⟩
    | read hv =>
      rw [Body.readValue, htype] at hv
      obtain ⟨j, place, hread⟩ := Body.exists_of_mem_read hv hw
      rcases Body.null_or_integer hread with hnull | ⟨n, hn⟩
      · exact Or.inl hnull
      · exact Or.inr ⟨n, _, hn⟩

/-- An integer that the constraints accept is read as what they make of it. -/
theorem Body.read_integer {n : Int} {nullable : Bool} {notes : List Note}
    (h : applyConstraints (constraints ++ constraintsIn notes) (.int n) "" = .ok w) :
    read C (.int n) (.leaf (.scalar .integer) nullable notes) path constraints = .ok w := by
  rw [read_leaf (by rintro ⟨⟩) rfl]
  exact bind_eq_ok_iff.mpr ⟨.int n, rfl, applyConstraints_place h path⟩

/-- A container holds a single float that it is filled with. -/
theorem Body.contain_float (container : Container) (x : Double) :
    ∃ v, contain C container [.float x] = .ok v ∧ .float x ∈ v.items := by
  have hhash : [Value.float x].findSome? (unhashable? C) = none := by
    rw [List.findSome?_singleton]
    exact Binding.unhashable?_of_parsed (.number (.float x))
  have hfilled : contain C container [.float x] = .ok (container.fill [.float x]) := by
    cases container with
    | list | tuple => rfl
    | set | frozenset =>
      unfold contain
      dsimp only
      rw [hhash]
      rfl
  refine ⟨_, hfilled, ?_⟩
  cases container <;> exact List.mem_singleton_self _

/-- What constraints in force where a field holds integers make of an integer, if it is a float, a
body gives the field there. -/
theorem Field.exists_read_float {f : Field} {cs : List Constraint} {n : Int} {x : Double}
    (hcs : f.type.integerConstraints? = some cs)
    (h : applyConstraints cs (.int n) "" = .ok (.float x)) :
    ∃ j v, Body.readValue C f.type j f.name = .ok v ∧ .float x ∈ v.parts f.type := by
  rcases TypeInfo.cases_of_integerConstraints? hcs with
    ⟨nullable, notes, htype, rfl⟩
      | ⟨container, itemNullable, itemNotes, nullable, notes, htype, rfl⟩
  · rw [htype]
    exact ⟨.int n, _, Body.read_integer h, List.mem_singleton_self _⟩
  · rw [htype]
    obtain ⟨v, hv, hmem⟩ := Body.contain_float (C := C) container x
    refine ⟨.array [.int n], v, ?_, hmem⟩
    rw [Body.readValue, Body.read_array]
    refine bind_eq_ok_iff.mpr ⟨[.float x], ?_, hv⟩
    refine bind_eq_ok_iff.mpr ⟨.float x, Body.read_integer h, rfl⟩

end Reading

namespace Classes

/-- What integer fields hold: whatever the constraints of a declared field are, and whatever a
request or a body offers, a value that the field may hold where its type holds integers is an
integer, or null where the type allows it, or a float that a clamp in force there has put in the
place of an integer. Every such float a body does give the field. -/
theorem integer_or_clamped {C : Classes} {className : String} {shape : Shape} {f : Field}
    {cs : List Constraint} (hshape : C.shape className = .ok shape) (hf : f ∈ shape.fields)
    (hcs : f.type.integerConstraints? = some cs) :
    (∀ v, f.MayHold C v → ∀ w ∈ v.parts f.type,
      (w = .null ∧ f.type.constrained.nullable = true) ∨ (∃ m, w = .int m) ∨
        ∃ n x, w = .float x ∧ ClampsTo cs n x) ∧
    ∀ n x, ClampsTo cs n x →
      ∃ j v, Body.readValue C f.type j f.name = .ok v ∧ .float x ∈ v.parts f.type := by
  obtain ⟨owner, hcheck⟩ := checkConstraints_of_mem hshape hf
  have hnumbers : ∀ c ∈ cs, c.isNumeric = true :=
    TypeInfo.isNumeric_of_integerConstraints? hcheck hcs
  have hordered (place : String) (v : Value) :
      applyConstraints cs v place = applyInOrder place cs v :=
    congrArg (applyInOrder place · v) (inOrder_of_isNumeric hnumbers)
  constructor
  · intro v hheld w hw
    rcases hheld.null_or_integer hcs hw with hnull | ⟨n, place, h⟩
    · exact Or.inl hnull
    · have h := applyConstraints_place h ""
      rw [hordered] at h
      rcases integer_or_clampsTo hnumbers h with hint | ⟨x, hx, hclamps⟩
      · exact Or.inr (Or.inl hint)
      · exact Or.inr (Or.inr ⟨n, x, hx, hclamps⟩)
  · intro n x hclamps
    exact Field.exists_read_float hcs ((hordered "" _).trans hclamps.applyInOrder_eq_ok)

/-- The double 3.5. -/
def threeAndAHalf : Double := .finite false 7881299347898368 (-51)

/-- A record with an integer that is clamped between 0 and 3.5. -/
def gauges : Classes :=
  ({} : Classes).define
    { name := "Gauge", body := .record false,
      fields := [
        { name := "level", default := .required,
          hint := .annotated (.builtin .integer)
            [.parameter { location := .query },
              .constraint (.clamp (.int 0) (.float threeAndAHalf))] }] }

/-- The level 10 is moved to 3.5, both from a body and from a query, and the record holds the
float. -/
theorem integer_or_clamped_gauges :
    ∃ shape f, gauges.shape "Gauge" = .ok shape ∧ f ∈ shape.fields ∧
      f.type.integerConstraints? = some [.clamp (.int 0) (.float threeAndAHalf)] ∧
      Body.readValue gauges f.type (.int 10) "level" = .ok (.float threeAndAHalf) ∧
      (∃ p, Binding.flatParser? f .query false = some p ∧
        p.build gauges "level" [("level", ["10"])] = .ok (some (.float threeAndAHalf))) ∧
      Body.readValue gauges (.leaf (.record "Gauge") false []) (.object [("level", .int 10)]) "" =
        .ok (.record "Gauge" [("level", .float threeAndAHalf)]) ∧
      ∃ n x, Value.float threeAndAHalf = .float x ∧
        ClampsTo [.clamp (.int 0) (.float threeAndAHalf)] n x := by
  have hmade : ∃ shape f, gauges.shape "Gauge" = .ok shape ∧ shape.fields = [f] ∧
      f.type.integerConstraints? = some [.clamp (.int 0) (.float threeAndAHalf)] ∧
      (∃ nullable notes, f.type = .leaf (.scalar .integer) nullable notes) ∧
      Body.readValue gauges f.type (.int 10) "level" = .ok (.float threeAndAHalf) ∧
      (∃ p, Binding.flatParser? f .query false = some p ∧
        p.build gauges "level" [("level", ["10"])] = .ok (some (.float threeAndAHalf))) :=
    ⟨_, _, rfl, rfl, rfl, ⟨_, _, rfl⟩, rfl, _, rfl, rfl⟩
  obtain ⟨shape, f, hshape, hfields, hcs, ⟨nullable, notes, htype⟩, hread, hparsed⟩ := hmade
  have hf : f ∈ shape.fields := hfields ▸ List.mem_singleton_self f
  have hpart : Value.float threeAndAHalf ∈ (Value.float threeAndAHalf).parts f.type := by
    rw [htype]
    exact List.mem_singleton_self _
  have hheld := (integer_or_clamped hshape hf hcs).1 _ (.read hread) _ hpart
  refine ⟨shape, f, hshape, hf, hcs, hread, hparsed, rfl, ?_⟩
  rcases hheld with ⟨hnull, _⟩ | ⟨m, hint⟩ | hclamped
  · cases hnull
  · cases hint
  · exact hclamped

end Classes

end HttpContract
