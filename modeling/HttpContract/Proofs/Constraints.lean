import HttpContract.Proofs.Failures

/-!
# Which constraints can be applied

A constraint that a value of its kind passes is passed at every place, and texts and numbers stay
what they are. A constraint crashes on values of the other kind, and a pattern that cannot be read
crashes on every value; constraints that were checked against a scalar type do neither. What is left
is a constraint that refuses a value for a bound of too many digits: it cannot say so.
-/

namespace HttpContract

variable {J : Judgement}

/-- A text or a number. -/
inductive Value.IsBasic : Value → Prop
  | text (s : String) : IsBasic (.text s)
  | number (n : Number) : IsBasic (.number n)

/-- A test that is passed is passed whatever its failure says. -/
theorem eq_ok_of_test {ε α : Type} {p : Prop} [Decidable p] {e : ε} {v w : α} (other : ε)
    (h : (if p then throw e else pure v : Except ε α) = .ok w) :
    (if p then throw other else pure v : Except ε α) = .ok w := by
  by_cases hp : p
  · rw [if_pos hp] at h
    cases h
  · rwa [if_neg hp] at h ⊢

/-- A test that is passed gives the tested value. -/
theorem eq_of_test {ε α : Type} {p : Prop} [Decidable p] {e : ε} {v w : α}
    (h : (if p then throw e else pure v : Except ε α) = .ok w) : v = w := by
  by_cases hp : p
  · rw [if_pos hp] at h
    cases h
  · rw [if_neg hp] at h
    exact Except.ok.inj h

/-- A test that is not passed gives the failure it was made with. -/
theorem eq_error_of_test {ε α : Type} {p : Prop} [Decidable p] {e e' : ε} {v : α}
    (h : (if p then throw e else pure v : Except ε α) = .error e') : e' = e := by
  by_cases hp : p
  · rw [if_pos hp] at h
    exact (Except.error.inj h).symm
  · rw [if_neg hp] at h
    cases h

namespace Constraint

/-- A constraint that a value passes is passed by it at every place. -/
theorem apply_place {c : Constraint} {place : String} {v w : Value} (h : c.apply place v = .ok w)
    (other : String) : c.apply other v = .ok w := by
  cases c with
  | clamp low high | trim | lower | upper => exact h
  | min bound message | max bound message | minLength bound message | maxLength bound message =>
    obtain ⟨n, hn, h⟩ := bind_eq_ok_iff.mp h
    exact bind_eq_ok_iff.mpr ⟨n, hn, eq_ok_of_test _ h⟩
  | length low high message =>
    obtain ⟨n, hn, h⟩ := bind_eq_ok_iff.mp h
    refine bind_eq_ok_iff.mpr ⟨n, hn, ?_⟩
    rw [← ite_not] at h ⊢
    exact eq_ok_of_test _ h
  | pattern regex message =>
    simp only [apply] at h ⊢
    cases hfault : Pattern.fault? regex with
    | some why =>
      rw [hfault] at h
      cases h
    | none =>
      cases htext : v.asText? with
      | none =>
        rw [hfault, htext] at h
        cases h
      | some s =>
        rw [hfault, htext] at h
        dsimp only at h ⊢
        rw [← ite_not] at h ⊢
        exact eq_ok_of_test _ h

/-- Whether a constraint cannot be applied to a text or to a number. -/
def Misfits (c : Constraint) : Value → Prop
  | .text _ => c.isNumeric = true ∨
      ∃ regex message why, c = .pattern regex message ∧ Pattern.fault? regex = some why
  | .number _ => c.isNumeric = false
  | _ => False

/-- Whether a constraint breaks on a value: it cannot be applied to it, or it refuses the value and
cannot say why. -/
def Breaks (c : Constraint) (v : Value) : Prop :=
  c.Misfits v ∨ c.isSayable = false ∧ ∃ e, c.apply "" v = .error e

/-- Whether a constraint is a pattern that asks for a character by its name. Which characters have
names is not said here: such a pattern counts as one that cannot be read. -/
def namesCharacter : Constraint → Prop
  | .pattern regex _ =>
    ∃ name position, Pattern.parse regex.toList = .error ⟨.undefinedCharacter name, position⟩
  | _ => False

/-- A constraint that cannot be applied to a text or to a number ends in a fault. -/
theorem exists_fault_of_misfits {c : Constraint} {v : Value} (h : c.Misfits v) (place : String) :
    ∃ fault, c.apply place v = .error (.fault fault) := by
  cases v with
  | text s =>
    rcases h with hnumeric | ⟨regex, message, why, rfl, hwhy⟩
    · cases c with
      | min bound message | max bound message | clamp low high => exact ⟨_, rfl⟩
      | _ => cases hnumeric
    · simp only [apply, hwhy]
      exact ⟨_, rfl⟩
  | number n =>
    cases c with
    | min bound message | max bound message | clamp low high => cases h
    | minLength bound message | maxLength bound message | length low high message | trim | lower
    | upper => exact ⟨_, rfl⟩
    | pattern regex message =>
      simp only [apply, Value.asText?]
      split <;> exact ⟨_, rfl⟩
  | _ => cases h

/-- On a text a constraint fails because it cannot be applied to it, or with its refusal. -/
theorem apply_text_eq_error {c : Constraint} {place s : String} {e : Failure}
    (h : c.apply place (.text s) = .error e) :
    c.Misfits (.text s) ∨ ∃ why, e = .refused (some place) why ∧ why.isWritable = c.isSayable := by
  cases c with
  | min bound message | max bound message | clamp low high => exact Or.inl (Or.inl rfl)
  | minLength bound message | maxLength bound message =>
    exact Or.inr ⟨_, eq_error_of_test h, rfl⟩
  | length low high message =>
    obtain ⟨_, hlength, h⟩ := (bind_eq_error_iff.mp h).resolve_left nofun
    rw [← ite_not] at h
    exact Or.inr ⟨_, eq_error_of_test h, rfl⟩
  | pattern regex message =>
    simp only [apply, Value.asText?] at h
    split at h
    · rename_i why hwhy
      exact Or.inl (Or.inr ⟨regex, message, why, rfl, hwhy⟩)
    · rw [← ite_not] at h
      refine Or.inr ⟨_, eq_error_of_test h, ?_⟩
      cases message with
      | none => rfl
      | some text =>
        cases htext : text.isEmpty <;> simp [worded, htext, isSayable, Refusal.isWritable]
  | trim | lower | upper => cases h

/-- On a number a constraint fails because it cannot be applied to it, or with its refusal. -/
theorem apply_number_eq_error {c : Constraint} {place : String} {n : Number} {e : Failure}
    (h : c.apply place (.number n) = .error e) :
    c.Misfits (.number n) ∨
      ∃ why, e = .refused (some place) why ∧ why.isWritable = c.isSayable := by
  cases c with
  | min bound message | max bound message => exact Or.inr ⟨_, eq_error_of_test h, rfl⟩
  | clamp low high => cases h
  | _ => exact Or.inl rfl

/-- On a text or a number a constraint fails because it cannot be applied to it, or with its
refusal. -/
theorem apply_eq_error {c : Constraint} {place : String} {v : Value} {e : Failure} (hv : v.IsBasic)
    (h : c.apply place v = .error e) :
    c.Misfits v ∨ ∃ why, e = .refused (some place) why ∧ why.isWritable = c.isSayable := by
  cases hv with
  | text s => exact apply_text_eq_error h
  | number n => exact apply_number_eq_error h

/-- On a text or a number a constraint crashes exactly when it breaks. -/
theorem crashes_apply_iff (c : Constraint) (place : String) {v : Value} (hv : v.IsBasic) :
    J.Crashes (c.apply place v) ↔ c.Breaks v := by
  constructor
  · rintro ⟨e, he, hservers⟩
    rcases apply_eq_error hv he with hmisfits | ⟨why, rfl, hwhy⟩
    · exact Or.inl hmisfits
    · refine Or.inr ⟨by simpa [hwhy] using hservers, ?_⟩
      cases hroot : c.apply "" v with
      | ok w => rw [apply_place hroot place] at he; cases he
      | error e => exact ⟨e, rfl⟩
  · rintro (hmisfits | ⟨hsayable, e, he⟩)
    · obtain ⟨fault, hfault⟩ := exists_fault_of_misfits hmisfits place
      exact ⟨_, hfault, J.fault _⟩
    · cases hplace : c.apply place v with
      | ok w => rw [apply_place hplace ""] at he; cases he
      | error e' =>
        rw [crashes_error_iff]
        rcases apply_eq_error hv hplace with hmisfits | ⟨why, rfl, hwhy⟩
        · obtain ⟨fault, hfault⟩ := exists_fault_of_misfits hmisfits place
          rw [hplace] at hfault
          cases hfault
          exact J.fault _
        · rw [J.refused, hwhy, hsayable]
          rfl

/-- What passes a constraint as a text is a text. -/
theorem apply_text {c : Constraint} {place s : String} {w : Value}
    (h : c.apply place (.text s) = .ok w) : ∃ t, w = .text t := by
  cases c with
  | min bound message | max bound message | clamp low high => cases h
  | minLength bound message | maxLength bound message => exact ⟨s, (eq_of_test h).symm⟩
  | length low high message =>
    obtain ⟨_, _, h⟩ := bind_eq_ok_iff.mp h
    rw [← ite_not] at h
    exact ⟨s, (eq_of_test h).symm⟩
  | pattern regex message =>
    simp only [apply, Value.asText?] at h
    split at h
    · cases h
    · rw [← ite_not] at h
      exact ⟨s, (eq_of_test h).symm⟩
  | trim | lower | upper => exact ⟨_, (Except.ok.inj h).symm⟩

/-- What passes a constraint as a number is a number. -/
theorem apply_number {c : Constraint} {place : String} {n : Number} {w : Value}
    (h : c.apply place (.number n) = .ok w) : ∃ m, w = .number m := by
  cases c with
  | min bound message | max bound message => exact ⟨n, (eq_of_test h).symm⟩
  | clamp low high =>
    cases h
    split
    · split
      · exact ⟨high, rfl⟩
      · exact ⟨low, rfl⟩
    · split
      · exact ⟨high, rfl⟩
      · exact ⟨n, rfl⟩
  | minLength bound message | maxLength bound message | length low high message | trim | lower
  | upper => cases h
  | pattern regex message =>
    simp only [apply, Value.asText?] at h
    split at h <;> cases h

/-- What passes a constraint as a text or a number is one again. -/
theorem isBasic_apply {c : Constraint} {place : String} {v w : Value} (hv : v.IsBasic)
    (h : c.apply place v = .ok w) : w.IsBasic := by
  cases hv with
  | text s =>
    obtain ⟨t, rfl⟩ := apply_text h
    exact .text t
  | number n =>
    obtain ⟨m, rfl⟩ := apply_number h
    exact .number m

end Constraint

/-- Constraints that a value passes are passed by it at every place. -/
theorem applyConstraints_place {constraints : List Constraint} {place : String} {v w : Value}
    (h : applyConstraints constraints v place = .ok w) (other : String) :
    applyConstraints constraints v other = .ok w := by
  unfold applyConstraints at h ⊢
  revert h
  generalize constraints.filter Constraint.isTransform ++ _ = ordered
  induction ordered generalizing v with
  | nil => exact fun h => h
  | cons c rest ih =>
    intro h
    obtain ⟨between, hfirst, hrest⟩ := bind_eq_ok_iff.mp h
    exact bind_eq_ok_iff.mpr ⟨between, Constraint.apply_place hfirst other, ih hrest⟩

/-- The order in which constraints are applied: reshaping first. -/
def inOrder (constraints : List Constraint) : List Constraint :=
  constraints.filter Constraint.isTransform ++ constraints.filter fun c => !c.isTransform

/-- The ordered constraints are the same ones. -/
theorem mem_inOrder {constraints : List Constraint} {c : Constraint} :
    c ∈ inOrder constraints ↔ c ∈ constraints := by
  simp only [inOrder, List.mem_append, List.mem_filter]
  cases c.isTransform <;> simp

/-- Constraints in a row crash at the first one that breaks on what those in front of it make of the
value. -/
theorem crashes_applyInOrder_iff {place : String} {ordered : List Constraint} {v : Value}
    (hv : v.IsBasic) :
    J.Crashes (applyInOrder place ordered v) ↔ ∃ front c behind w,
      ordered = front ++ c :: behind ∧ applyInOrder place front v = .ok w ∧ c.Breaks w := by
  induction ordered generalizing v with
  | nil => simp [applyInOrder]
  | cons c rest ih =>
    rw [applyInOrder, crashes_bind_iff, c.crashes_apply_iff place hv]
    constructor
    · rintro (hc | ⟨w, hw, hrest⟩)
      · exact ⟨[], c, rest, v, rfl, rfl, hc⟩
      · obtain ⟨front, d, behind, u, rfl, hu, hd⟩ := (ih (Constraint.isBasic_apply hv hw)).mp hrest
        exact ⟨c :: front, d, behind, u, rfl, bind_eq_ok_iff.mpr ⟨w, hw, hu⟩, hd⟩
    · rintro ⟨front, d, behind, u, heq, hu, hd⟩
      cases front with
      | nil =>
        cases heq
        cases hu
        exact Or.inl hd
      | cons first front =>
        cases heq
        obtain ⟨w, hw, hu⟩ := bind_eq_ok_iff.mp hu
        exact Or.inr ⟨w, hw, (ih (Constraint.isBasic_apply hv hw)).mpr
          ⟨front, d, behind, u, rfl, hu, hd⟩⟩

/-- A constraint that can be applied to a text or to a number only refuses it. -/
theorem Constraint.onlyRefuses_apply {c : Constraint} (place : String) {v : Value} (hv : v.IsBasic)
    (hmisfits : ¬c.Misfits v) : OnlyRefuses [c] (c.apply place v) := by
  intro e he
  obtain ⟨why, rfl, hwhy⟩ := (apply_eq_error hv he).resolve_left hmisfits
  cases hsayable : c.isSayable with
  | true => exact Or.inl ⟨_, Failure.refused_eq_binding_iff.mpr ⟨hwhy.trans hsayable, rfl⟩⟩
  | false =>
    refine Or.inr ⟨?_, c, List.mem_cons_self, hsayable⟩
    unfold Failure.refused
    rw [hwhy, hsayable]

/-- Whether a constraint can be attached to a type, and its pattern can be read. -/
def Constraint.Fits (c : Constraint) (type : TypeInfo) : Prop :=
  c.admits type = true ∧ ∀ regex message, c = .pattern regex message → Pattern.fault? regex = none

/-- Constraints that were checked against a type fit it. -/
theorem fits_of_checkEach {owner label : String} {type : TypeInfo} {constraints : List Constraint}
    (h : checkEach owner label type constraints = .ok ()) : ∀ c ∈ constraints, c.Fits type := by
  induction constraints with
  | nil => simp
  | cons first rest ih =>
    obtain ⟨_, hfirst, hrest⟩ := bind_eq_ok_iff.mp h
    intro c hc
    rcases List.mem_cons.mp hc with rfl | hc
    · unfold Constraint.check at hfirst
      split at hfirst
      · rename_i hadmits
        refine ⟨hadmits, ?_⟩
        rintro regex message rfl
        dsimp only at hfirst
        cases hfault : Pattern.fault? regex with
        | none => rfl
        | some why =>
          rw [hfault] at hfirst
          cases hfirst
      · cases hfirst
    · exact ih hrest c hc

end HttpContract
