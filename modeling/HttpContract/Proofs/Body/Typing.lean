import HttpContract.Proofs.Attributes
import HttpContract.Proofs.Binding
import HttpContract.Proofs.Hierarchies

/-!
# What is read is of its type

Which values a JSON value may be read as at a type: null only where the type allows it, at each
scalar position a value of this kind, at each position of a class a member or a record of exactly
that class, and at the position of a base a record of the variant that the object names. Only data
that is taken as it is, and fields without a member, may hold other values.
-/

namespace HttpContract

/-- The value that holds items in a container; a set keeps the first of equal items. -/
def Container.fill : Container → List Value → Value
  | .list, items => .list items
  | .tuple, items => .tuple items
  | .set, items => .set false (Value.withoutRepeats items)
  | .frozenset, items => .set true (Value.withoutRepeats items)

namespace Classes

end Classes

namespace Body

variable {C : Classes} {path : String} {constraints : List Constraint}

/-- A text is read as what it is converted to. -/
theorem exists_of_readText {expected : Expected} {convert : String → Option Value} {j : Json}
    {v : Value} (h : readText path expected convert j = .ok v) : ∃ s, convert s = some v := by
  unfold readText at h
  split at h
  · rename_i s
    cases hs : convert s with
    | none =>
      rw [hs] at h
      cases h
    | some w =>
      rw [hs] at h
      cases h
      exact ⟨s, hs⟩
  · cases h

/-- What is read as a scalar is of this scalar type. -/
theorem parsed_readScalar {type : Scalar} {j : Json} {v : Value}
    (h : readScalar path type j = .ok v) : Binding.Parsed (.scalar type) v := by
  cases type with
  | text | integer | boolean =>
    simp only [readScalar] at h
    split at h <;> cases h
    constructor
  | number =>
    simp only [readScalar, readNumber] at h
    split at h
    · split at h <;> cases h
      exact .number _
    · split at h <;> cases h
      exact .number _
    · cases h
  | uuid =>
    obtain ⟨s, hs⟩ := exists_of_readText h
    exact Binding.parsed_of_convert? (C := {}) hs
  | date =>
    obtain ⟨s, hs⟩ := exists_of_readText h
    exact Binding.parsed_of_convert? (C := {}) hs
  | dateTime =>
    obtain ⟨s, hs⟩ := exists_of_readText h
    exact Binding.parsed_of_convert? (C := {}) hs

/-- What a container holds after reading are the items, and a set keeps them without repeats. -/
theorem contain_eq_ok {container : Container} {items : List Value} {v : Value}
    (h : contain C container items = .ok v) : container.fill items = v := by
  cases container with
  | list | tuple => exact Except.ok.inj h
  | set | frozenset =>
    unfold contain at h
    dsimp only at h
    split at h
    · cases h
    · exact Except.ok.inj h

end Body

end HttpContract
