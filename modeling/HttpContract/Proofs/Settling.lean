import HttpContract.Shape
import HttpContract.Proofs.Outcome

/-!
# Settling hierarchies

The hierarchy of a base is settled when it is first asked for. Types, shapes and the present
hierarchies of bases do not depend on what is settled, so that settling more of them shows nowhere.
-/

namespace HttpContract

namespace Classes

variable (C : Classes) (settled : List Hierarchy)

mutual

/-- A hint resolves to one type whatever is settled. -/
theorem resolveWithin_settled (outer nullable : Bool) (before after : List Note) (hint : Hint) :
    resolveWithin { C with settled } outer nullable before after hint =
      resolveWithin C outer nullable before after hint := by
  cases hint with
  | annotated base notes =>
    rw [resolveWithin, resolveWithin]
    exact resolveWithin_settled outer nullable before _ base
  | union bars members =>
    simp only [resolveWithin, resolveOnly_settled _ _ members]
    rfl
  | collection type item =>
    rw [resolveWithin, resolveWithin, resolveWithin_settled true false [] [] item]
  | mapping type key value =>
    simp only [resolveWithin, resolveWithin_settled true false [] [] value]
    rfl
  | bareCollection type =>
    cases type <;> rfl
  | any | builtin type | named name | bareMapping type | fixedTuple items | none | noneType
  | forward name =>
    rfl
termination_by structural hint

/-- The only member of a union resolves to one type whatever is settled. -/
theorem resolveOnly_settled (nullable : Bool) (before : List Note) (members : List Hint) :
    resolveOnly { C with settled } nullable before members =
      resolveOnly C nullable before members := by
  cases members with
  | nil => rfl
  | cons member rest =>
    cases member with
    | noneType =>
      rw [resolveOnly, resolveOnly]
      exact resolveOnly_settled nullable before rest
    | any | builtin type | none | named name | bareCollection type | bareMapping type
    | fixedTuple items | forward name | collection type item | mapping type key value
    | union bars members | annotated base notes =>
      simp only [resolveOnly]
      exact resolveWithin_settled false nullable before [] _
termination_by structural members

end

/-- A hint resolves to one type whatever is settled. -/
theorem resolve_settled (hint : Hint) (notes : List Note) :
    ({ C with settled } : Classes).resolve hint notes = C.resolve hint notes :=
  C.resolveWithin_settled settled true false notes [] _

/-- A class has one shape whatever is settled. -/
theorem shape_settled (className : String) :
    ({ C with settled } : Classes).shape className = C.shape className := by
  have hresolve : ({ C with settled } : Classes).resolve = C.resolve := by
    funext hint notes
    exact C.resolve_settled settled hint notes
  have hmodel : ({ C with settled } : Classes).modelField = C.modelField := by
    unfold modelField
    rw [hresolve]
    rfl
  have hrecord : ({ C with settled } : Classes).recordField = C.recordField := by
    unfold recordField
    rw [hresolve]
    rfl
  unfold shape shapeFields
  rw [hmodel, hrecord]
  rfl

/-- The present hierarchy of a base does not depend on what is settled. -/
theorem presentHierarchy_settled (base : String) :
    ({ C with settled } : Classes).presentHierarchy base = C.presentHierarchy base := by
  have hvariant : ({ C with settled } : Classes).addVariant = C.addVariant := by
    unfold addVariant
    rw [show ({ C with settled } : Classes).shape = C.shape from funext (C.shape_settled settled)]
    rfl
  unfold presentHierarchy
  rw [hvariant]
  rfl

variable {C : Classes}

/-- A present hierarchy is that of a marked base, with its subclasses added one after the other. -/
theorem presentHierarchy_eq_ok {base : String} {h : Hierarchy}
    (hpresent : C.presentHierarchy base = .ok h) :
    h.base = base ∧ C.discriminator? base = some h.discriminator ∧
      (C.subclasses base).foldlM (C.addVariant base h.discriminator) [] = .ok h.variants := by
  unfold presentHierarchy at hpresent
  split at hpresent
  · cases hpresent
  · rename_i discriminator hdiscriminator
    dsimp only at hpresent
    split at hpresent
    · cases hpresent
    · obtain ⟨variants, hvariants, hpresent⟩ := bind_eq_ok_iff.mp hpresent
      cases hpresent
      exact ⟨rfl, hdiscriminator, hvariants⟩

/-- The base of a present hierarchy is the one that it was looked up for. -/
theorem base_of_presentHierarchy {base : String} {h : Hierarchy}
    (hpresent : C.presentHierarchy base = .ok h) : h.base = base :=
  (presentHierarchy_eq_ok hpresent).1

/-- Settling one base more changes no hierarchy. -/
theorem hierarchy_settle_one {base : String} {h : Hierarchy}
    (hpresent : C.presentHierarchy base = .ok h) (other : String) :
    ({ C with settled := C.settled ++ [h] } : Classes).hierarchy other = C.hierarchy other := by
  unfold hierarchy
  rw [presentHierarchy_settled, List.find?_append]
  cases hfound : C.settled.find? (·.base = other) with
  | some first => simp
  | none =>
    by_cases hbase : h.base = other
    · have hother : base = other := (base_of_presentHierarchy hpresent).symm.trans hbase
      subst hother
      simp [hbase, hpresent]
    · simp [hbase]

/-- Settling bases changes no hierarchy. -/
theorem hierarchy_settle (C : Classes) (bases : List String) (base : String) :
    (C.settle bases).hierarchy base = C.hierarchy base := by
  unfold settle
  induction bases generalizing C with
  | nil => rfl
  | cons first rest ih =>
    rw [List.foldl_cons, ih]
    split
    · rfl
    · split
      · rename_i h hpresent
        exact hierarchy_settle_one hpresent base
      · rfl

/-- Settling bases describes no class. -/
theorem entries_settle (C : Classes) (bases : List String) :
    (C.settle bases).entries = C.entries := by
  unfold settle
  induction bases generalizing C with
  | nil => rfl
  | cons first rest ih =>
    rw [List.foldl_cons, ih]
    split
    · rfl
    · split <;> rfl

/-- What is settled was so before, or is the present hierarchy of its base. -/
theorem mem_settled_of_settle {bases : List String} {h : Hierarchy}
    (hh : h ∈ (C.settle bases).settled) :
    h ∈ C.settled ∨ C.presentHierarchy h.base = .ok h := by
  unfold Classes.settle at hh
  induction bases generalizing C with
  | nil => exact Or.inl hh
  | cons first rest ih =>
    rw [List.foldl_cons] at hh
    split at hh
    · exact ih hh
    · split at hh
      · rename_i present hpresent
        rcases ih hh with hbefore | hbefore
        · rcases List.mem_append.mp hbefore with hbefore | hbefore
          · exact Or.inl hbefore
          · obtain rfl := List.mem_singleton.mp hbefore
            exact Or.inr (base_of_presentHierarchy hpresent ▸ hpresent)
        · rw [presentHierarchy_settled] at hbefore
          exact Or.inr hbefore
      · exact ih hh

/-- The settled hierarchies are those that the table has at present. -/
def Current (C : Classes) : Prop := ∀ h ∈ C.settled, C.presentHierarchy h.base = .ok h

/-- Settling bases keeps what is settled up to date. -/
theorem Current.settle (hC : C.Current) (bases : List String) : (C.settle bases).Current := by
  unfold Classes.settle
  induction bases generalizing C with
  | nil => exact hC
  | cons first rest ih =>
    refine ih ?_
    dsimp only
    split
    · exact hC
    · split
      · rename_i h hpresent
        intro other hother
        rw [presentHierarchy_settled]
        rcases List.mem_append.mp hother with hother | hother
        · exact hC other hother
        · rw [List.mem_singleton] at hother
          subst hother
          rwa [base_of_presentHierarchy hpresent]
      · exact hC

/-- Where everything settled is up to date, the hierarchies are the present ones. -/
theorem Current.hierarchy_eq (hC : C.Current) (base : String) :
    C.hierarchy base = C.presentHierarchy base := by
  unfold hierarchy
  split
  · rename_i h hfound
    have hbase : h.base = base := by simpa using List.find?_some hfound
    rw [← hbase, hC h (List.mem_of_find?_eq_some hfound)]
  · rfl

end Classes

end HttpContract
