import HttpContract.Proofs.Admission
import Mathlib.Data.Prod.Lex
import Mathlib.Algebra.Order.Ring.Rat

/-!
# Accepted values meet what is shown

Constraints are applied one after the other, and each may replace what earlier ones show. An
accepted value meets all that is shown in the end: the constraint that shows it last lets pass only
what meets it, and no constraint behind moves a value past an attribute that it does not show
itself. Only not a number, which is neither below nor above a bound, passes bounds without being on
the right side.
-/

namespace HttpContract

namespace Number

variable {a b c : Number}

/-- The place of a number on the extended line; not a number has none. -/
def place? (n : Number) : Option (Int ×ₗ Rat) := n.position?.map toLex

/-- At most, as exact values. Not a number is at most nothing, and nothing is at most it. -/
def atMost (a b : Number) : Bool := a.less b || a.same b

/-- Only not a number has no place. -/
theorem place?_eq_none_iff : a.place? = none ↔ a = .float .nan := by
  cases a with
  | int n => simp [place?, position?]
  | float x => cases x <;> simp [place?, position?, Double.toRat?]

/-- A number is less than another one when its place is in front. -/
theorem less_iff : a.less b = true ↔ ∃ p q, a.place? = some p ∧ b.place? = some q ∧ p < q := by
  unfold less place?
  cases a.position? with
  | none => simp
  | some p =>
    cases b.position? with
    | none => simp
    | some q => simp [Prod.Lex.toLex_lt_toLex]

/-- A number is the same as another one when it has the same place. -/
theorem same_iff : a.same b = true ↔ ∃ p, a.place? = some p ∧ b.place? = some p := by
  unfold same place?
  cases a.position? with
  | none => simp
  | some p =>
    cases b.position? with
    | none => simp
    | some q =>
      simp only [beq_iff_eq, Option.map_some, Option.some_inj]
      constructor
      · rintro rfl
        exact ⟨_, rfl, rfl⟩
      · rintro ⟨_, rfl, h⟩
        exact (toLex.injective h).symm

/-- A number is at most another one when its place is not behind. -/
theorem atMost_iff : a.atMost b = true ↔ ∃ p q, a.place? = some p ∧ b.place? = some q ∧ p ≤ q := by
  rw [atMost, Bool.or_eq_true, less_iff, same_iff]
  constructor
  · rintro (⟨p, q, hp, hq, h⟩ | ⟨p, hp, hq⟩)
    · exact ⟨p, q, hp, hq, h.le⟩
    · exact ⟨p, p, hp, hq, le_rfl⟩
  · rintro ⟨p, q, hp, hq, h⟩
    obtain h | rfl := h.lt_or_eq
    · exact Or.inl ⟨p, q, hp, hq, h⟩
    · exact Or.inr ⟨p, hp, hq⟩

/-- Numbers are in order when neither is not a number and the second is not less. -/
theorem atMost_iff_not_less :
    a.atMost b = true ↔ b.less a = false ∧ a ≠ .float .nan ∧ b ≠ .float .nan := by
  rw [← Bool.not_eq_true, less_iff, atMost_iff, ne_eq, ne_eq, ← place?_eq_none_iff,
    ← place?_eq_none_iff]
  cases a.place? with
  | none => simp
  | some p =>
    cases b.place? with
    | none => simp
    | some q => simp

/-- Nothing is less than itself. -/
theorem less_self (a : Number) : a.less a = false := by
  rw [← Bool.not_eq_true, less_iff]
  rintro ⟨p, q, hp, hq, h⟩
  obtain rfl : p = q := Option.some.inj (hp.symm.trans hq)
  exact lt_irrefl p h

/-- What is less than something less is less. -/
theorem less_trans (hab : a.less b = true) (hbc : b.less c = true) : a.less c = true := by
  obtain ⟨p, q, hp, hq, hpq⟩ := less_iff.mp hab
  obtain ⟨q', r, hq', hr, hqr⟩ := less_iff.mp hbc
  obtain rfl : q = q' := Option.some.inj (hq.symm.trans hq')
  exact less_iff.mpr ⟨p, r, hp, hr, hpq.trans hqr⟩

/-- A number moved up to a bound that it is less than. -/
def raisedTo (low n : Number) : Number := if n.less low then low else n

/-- A number moved down to a bound that is less. -/
def loweredTo (high n : Number) : Number := if high.less n then high else n

section Moved

variable {low high n bound : Number}

/-- A number is moved up to a bound, or it is not less and stays. -/
theorem raisedTo_cases (low n : Number) :
    (n.less low = true ∧ raisedTo low n = low) ∨ (n.less low = false ∧ raisedTo low n = n) := by
  unfold raisedTo
  cases n.less low with
  | true => exact Or.inl ⟨rfl, rfl⟩
  | false => exact Or.inr ⟨rfl, rfl⟩

/-- A number is moved down to a bound, or the bound is not less and it stays. -/
theorem loweredTo_cases (high n : Number) :
    (high.less n = true ∧ loweredTo high n = high) ∨
      (high.less n = false ∧ loweredTo high n = n) := by
  unfold loweredTo
  cases high.less n with
  | true => exact Or.inl ⟨rfl, rfl⟩
  | false => exact Or.inr ⟨rfl, rfl⟩

/-- What is not below a bound is below it neither after it is moved up. -/
theorem raisedTo_not_below (hn : n.less bound = false) : (raisedTo low n).less bound = false := by
  rcases raisedTo_cases low n with ⟨hlow, hraised⟩ | ⟨_, hraised⟩
  · rw [hraised, ← Bool.not_eq_true]
    rw [← Bool.not_eq_true] at hn
    exact fun h => hn (less_trans hlow h)
  · rwa [hraised]

/-- What is not above a bound is above it neither after it is moved down. -/
theorem loweredTo_not_above (hn : bound.less n = false) :
    bound.less (loweredTo high n) = false := by
  rcases loweredTo_cases high n with ⟨hhigh, hlowered⟩ | ⟨_, hlowered⟩
  · rw [hlowered, ← Bool.not_eq_true]
    rw [← Bool.not_eq_true] at hn
    exact fun h => hn (less_trans h hhigh)
  · rwa [hlowered]

/-- A number moved up to a bound that is not above another one is above the other only if it was. -/
theorem raisedTo_not_above (hn : bound.less n = false) (hlow : bound.less low = false) :
    bound.less (raisedTo low n) = false := by
  rcases raisedTo_cases low n with ⟨_, hraised⟩ | ⟨_, hraised⟩
  · rwa [hraised]
  · rwa [hraised]

/-- A number moved down to a bound that is not below another one is below the other only if it
was. -/
theorem loweredTo_not_below (hn : n.less bound = false) (hhigh : high.less bound = false) :
    (loweredTo high n).less bound = false := by
  rcases loweredTo_cases high n with ⟨_, hlowered⟩ | ⟨_, hlowered⟩
  · rwa [hlowered]
  · rwa [hlowered]

/-- A number that is moved up to a bound is not below it. -/
theorem raisedTo_not_below_self (low n : Number) : (raisedTo low n).less low = false := by
  rcases raisedTo_cases low n with ⟨_, hraised⟩ | ⟨hlow, hraised⟩
  · rw [hraised, less_self]
  · rwa [hraised]

/-- A number that is moved down to a bound is not above it. -/
theorem loweredTo_not_above_self (high n : Number) : high.less (loweredTo high n) = false := by
  rcases loweredTo_cases high n with ⟨_, hlowered⟩ | ⟨hhigh, hlowered⟩
  · rw [hlowered, less_self]
  · rwa [hlowered]

/-- Moving makes not a number of nothing but of it. -/
theorem moved_ne_nan (hlow : low ≠ .float .nan) (hhigh : high ≠ .float .nan)
    (hn : n ≠ .float .nan) : loweredTo high (raisedTo low n) ≠ .float .nan := by
  have hraised : raisedTo low n ≠ .float .nan := by
    rcases raisedTo_cases low n with ⟨_, hraised⟩ | ⟨_, hraised⟩
    · rwa [hraised]
    · rwa [hraised]
  rcases loweredTo_cases high (raisedTo low n) with ⟨_, hlowered⟩ | ⟨_, hlowered⟩
  · rwa [hlowered]
  · rwa [hlowered]

end Moved

end Number

/-- Whether a value satisfies an attribute of a schema: it is on the right side of a bound, or meets
the attribute of a text. -/
def Value.Satisfies (v : Value) : ConstraintAttribute → Json → Prop
  | .minimum, .number bound => ∃ n, v.asNumber? = some n ∧ bound.atMost n = true
  | .maximum, .number bound => ∃ n, v.asNumber? = some n ∧ n.atMost bound = true
  | key, value => v.Meets key value

/-- Where not a number plays no part, a value satisfies an attribute that it meets. -/
theorem Value.satisfies_of_meets {v : Value} {key : ConstraintAttribute} {value : Json}
    (hv : v.asNumber? ≠ some (.float .nan)) (hvalue : value ≠ .number (.float .nan))
    (h : v.Meets key value) : v.Satisfies key value := by
  unfold Satisfies
  split
  · obtain ⟨n, hn, hless⟩ := h
    refine ⟨n, hn, Number.atMost_iff_not_less.mpr ⟨hless, fun hbound => hvalue ?_, ?_⟩⟩
    · rw [hbound]
    · rintro rfl
      exact hv hn
  · obtain ⟨n, hn, hless⟩ := h
    refine ⟨n, hn, Number.atMost_iff_not_less.mpr ⟨hless, ?_, fun hbound => hvalue ?_⟩⟩
    · rintro rfl
      exact hv hn
    · rw [hbound]
  · exact h

/-- What counts as a text counts as no number. -/
theorem Value.asNumber?_of_asText? {v : Value} {s : String} (h : v.asText? = some s) :
    v.asNumber? = none := by
  cases v with
  | text t => rfl
  | member enumeration name mixin value =>
    cases mixin with
    | text => rfl
    | plain | integer => cases h
  | _ => cases h

namespace Constraint

/-- Whether a clamp moves some values past an attribute that they meet. -/
def MovesPast : Constraint → ConstraintAttribute → Json → Prop
  | .clamp _ high, .minimum, .number bound => high.less bound = true
  | .clamp low _, .maximum, .number bound => bound.less low = true
  | _, _, _ => False

/-- Whether the bounds of a clamp are in order. -/
def BoundsInOrder : Constraint → Prop
  | .clamp low high => low.atMost high = true
  | _ => True

variable {c : Constraint} {place : String} {v w : Value} {type : Scalar} {nullable : Bool}
  {notes : List Note} {key : ConstraintAttribute} {value : Json}

/-- What a clamp makes of a value counts as the number moved up to the one bound and down to the
other. -/
theorem apply_clamp_eq_ok {low high : Number}
    (h : (Constraint.clamp low high).apply place v = .ok w) :
    ∃ n, v.asNumber? = some n ∧
      w.asNumber? = some (Number.loweredTo high (Number.raisedTo low n)) := by
  obtain ⟨n, hn, h⟩ := bind_eq_ok_iff.mp h
  have hnumber : v.asNumber? = some n := by
    unfold numberOf at hn
    cases hv : v.asNumber? with
    | some m =>
      rw [hv] at hn
      rw [Except.ok.inj hn]
    | none =>
      rw [hv] at hn
      cases hn
  have hraised : (if n.less low then Value.number low else v).asNumber? =
      some (Number.raisedTo low n) := by
    unfold Number.raisedTo
    split
    · rfl
    · exact hnumber
  refine ⟨n, hnumber, ?_⟩
  rw [← Except.ok.inj h]
  change (if high.less (Number.raisedTo low n) then Value.number high
    else if n.less low then Value.number low else v).asNumber? = _
  rw [Number.loweredTo]
  split
  · rfl
  · exact hraised

/-- A constraint moves no value past an attribute that it does not set. -/
theorem not_movesPast_of_notMem (hkey : key ∉ Table.keys c.attributes) :
    ¬c.MovesPast key value := by
  cases c with
  | clamp low high =>
    simp only [attributes, Table.keys, List.map_cons, List.map_nil, List.mem_cons,
      List.not_mem_nil, or_false, not_or] at hkey
    cases key with
    | minimum => exact absurd rfl hkey.1
    | maximum => exact absurd rfl hkey.2
    | minLength | maxLength | pattern => exact id
  | _ => exact id

/-- A value that meets an attribute meets it after a constraint that moves no value past it. -/
theorem meets_apply (htransform : c.isTransform = false) (hpast : ¬c.MovesPast key value)
    (h : c.apply place v = .ok w) (hv : v.Meets key value) : w.Meets key value := by
  cases hclamp : c.isClamp with
  | false => rwa [eq_of_apply htransform hclamp h]
  | true =>
    cases c with
    | clamp low high =>
      obtain ⟨n, hn, hw⟩ := apply_clamp_eq_ok h
      -- What a clamp lets pass counts as a number, so it meets no attribute of a text.
      have hnumber {s : String} (hs : v.asText? = some s) : False := by
        rw [Value.asNumber?_of_asText? hs] at hn
        cases hn
      unfold Value.Meets at hv ⊢
      split at hv
      · obtain ⟨m, hm, hless⟩ := hv
        obtain rfl : n = m := Option.some.inj (hn.symm.trans hm)
        have hhigh := Bool.eq_false_of_not_eq_true hpast
        exact ⟨_, hw, Number.loweredTo_not_below (Number.raisedTo_not_below hless) hhigh⟩
      · obtain ⟨m, hm, hless⟩ := hv
        obtain rfl : n = m := Option.some.inj (hn.symm.trans hm)
        have hlow := Bool.eq_false_of_not_eq_true hpast
        exact ⟨_, hw, Number.loweredTo_not_above (Number.raisedTo_not_above hless hlow)⟩
      · exact (hnumber hv.choose_spec.1).elim
      · exact (hnumber hv.choose_spec.1).elim
      · exact (hnumber hv.choose_spec.1).elim
      · exact hv
    | _ => cases hclamp

/-- What passes a constraint that fits its type is of this type still. -/
theorem takes_apply (hfits : c.Fits (.leaf (.scalar type) nullable notes)) (hv : type.Takes v)
    (h : c.apply place v = .ok w) : type.Takes w := by
  cases htransform : c.isTransform with
  | true =>
    cases type with
    | text =>
      cases c with
      | trim | lower | upper =>
        obtain ⟨s, _, h⟩ := bind_eq_ok_iff.mp h
        exact ⟨_, by rw [← Except.ok.inj h]; rfl⟩
      | _ => cases htransform
    | integer | number =>
      cases c with
      | trim | lower | upper => cases hfits.1
      | _ => cases htransform
    | _ => cases hv
  | false =>
    cases hclamp : c.isClamp with
    | false => rwa [eq_of_apply htransform hclamp h]
    | true =>
      cases c with
      | clamp low high =>
        obtain ⟨_, _, hw⟩ := apply_clamp_eq_ok h
        cases type with
        | integer | number => exact ⟨_, hw⟩
        | text => cases hfits.1
        | _ => cases hv
      | _ => cases hclamp

/-- What passes a constraint that fits its type, and does not reshape, meets all that the constraint
shows. -/
theorem meets_attributes_apply (hfits : c.Fits (.leaf (.scalar type) nullable notes))
    (htransform : c.isTransform = false) (hbounds : c.BoundsInOrder) (hv : type.Takes v)
    (h : c.apply place v = .ok w) : ∀ p ∈ c.attributes, w.Meets p.1 p.2 := by
  cases hclamp : c.isClamp with
  | false =>
    obtain rfl := eq_of_apply htransform hclamp h
    exact (apply_eq_ok_iff hfits hv htransform hclamp).mp h
  | true =>
    cases c with
    | clamp low high =>
      obtain ⟨n, _, hw⟩ := apply_clamp_eq_ok h
      have hordered : high.less low = false := (Number.atMost_iff_not_less.mp hbounds).1
      rw [attributes, List.forall_mem_cons, List.forall_mem_singleton]
      exact ⟨⟨_, hw, Number.loweredTo_not_below (Number.raisedTo_not_below_self low n) hordered⟩,
        ⟨_, hw, Number.loweredTo_not_above_self high _⟩⟩
    | _ => cases hclamp

/-- Only of not a number a constraint makes not a number. -/
theorem apply_ne_nan (hbounds : c.BoundsInOrder) (hv : v.asNumber? ≠ some (.float .nan))
    (h : c.apply place v = .ok w) : w.asNumber? ≠ some (.float .nan) := by
  cases c with
  | trim | lower | upper =>
    obtain ⟨s, _, h⟩ := bind_eq_ok_iff.mp h
    rw [← Except.ok.inj h]
    exact fun hnan => (nomatch hnan)
  | clamp low high =>
    obtain ⟨n, hn, hw⟩ := apply_clamp_eq_ok h
    obtain ⟨_, hlow, hhigh⟩ := Number.atMost_iff_not_less.mp hbounds
    have hnumber : n ≠ .float .nan := fun hnan => hv (hnan ▸ hn)
    rw [hw]
    exact fun hnan => Number.moved_ne_nan hlow hhigh hnumber (Option.some.inj hnan)
  | _ => rwa [eq_of_apply rfl rfl h]

end Constraint

section Runs

variable {constraints done : List Constraint} {place : String} {v w : Value} {type : Scalar}
  {nullable : Bool} {notes : List Note}

/-- What is shown of constraints in a row is what the later ones show, and else what the earlier
ones do. -/
theorem get?_schemaAttributes_append (key : ConstraintAttribute) (first second : List Constraint) :
    Table.get? key (schemaAttributes (first ++ second)) =
      (Table.get? key (schemaAttributes second)).or (Table.get? key (schemaAttributes first)) := by
  have hshown (cs : List Constraint) : Table.get? key (schemaAttributes cs) =
      Table.get? key (cs.flatMap Constraint.attributes).reverse := Table.get?_ofBindings key _
  rw [hshown, hshown, hshown, List.flatMap_append, List.reverse_append, Table.get?_append]

/-- Whether a value meets all that constraints show. -/
def Value.MeetsShown (v : Value) (constraints : List Constraint) : Prop :=
  ∀ key value, Table.get? key (schemaAttributes constraints) = some value → v.Meets key value

/-- One more constraint that a value passes keeps it within what is shown. -/
theorem meetsShown_apply {c : Constraint} (hfits : c.Fits (.leaf (.scalar type) nullable notes))
    (htransform : c.isTransform = false) (hbounds : c.BoundsInOrder) (hv : type.Takes v)
    (hdone : v.MeetsShown done) (h : c.apply place v = .ok w) : w.MeetsShown (done ++ [c]) := by
  intro key value hshown
  rw [get?_schemaAttributes_append, Option.or_eq_some_iff] at hshown
  have hown : schemaAttributes [c] = Table.ofBindings c.attributes := by
    rw [schemaAttributes, List.flatMap_singleton]
    rfl
  rw [hown] at hshown
  rcases hshown with hset | ⟨hunset, hearlier⟩
  · rw [Table.get?_ofBindings] at hset
    have hmem := List.mem_reverse.mp (Table.mem_of_get? hset)
    exact Constraint.meets_attributes_apply hfits htransform hbounds hv h _ hmem
  · have hkey : key ∉ Table.keys c.attributes := by
      rw [Table.get?_ofBindings, Table.get?_eq_none_iff, Table.keys, List.map_reverse,
        List.mem_reverse] at hunset
      exact hunset
    exact Constraint.meets_apply htransform (Constraint.not_movesPast_of_notMem hkey) h
      (hdone key value hearlier)

/-- Constraints that a value passes one after the other keep it within what is shown. -/
theorem meetsShown_applyInOrder
    (hfits : ∀ c ∈ constraints, c.Fits (.leaf (.scalar type) nullable notes))
    (htransform : ∀ c ∈ constraints, c.isTransform = false)
    (hbounds : ∀ c ∈ constraints, c.BoundsInOrder) (hv : type.Takes v) (hdone : v.MeetsShown done)
    (h : applyInOrder place constraints v = .ok w) : w.MeetsShown (done ++ constraints) := by
  induction constraints generalizing done v with
  | nil =>
    cases h
    rwa [List.append_nil]
  | cons c rest ih =>
    obtain ⟨hc, hrest⟩ := List.forall_mem_cons.mp hfits
    obtain ⟨hplain, hothers⟩ := List.forall_mem_cons.mp htransform
    obtain ⟨hordered, hlater⟩ := List.forall_mem_cons.mp hbounds
    obtain ⟨between, hfirst, h⟩ := bind_eq_ok_iff.mp h
    rw [List.append_cons]
    exact ih hrest hothers hlater (Constraint.takes_apply hc hv hfirst)
      (meetsShown_apply hc hplain hordered hv hdone hfirst) h

/-- What each of several constraints keeps they keep in a row. -/
theorem applyInOrder_keeps {P : Value → Prop}
    (hkeeps : ∀ c ∈ constraints, ∀ v w, P v → c.apply place v = .ok w → P w) (hv : P v)
    (h : applyInOrder place constraints v = .ok w) : P w := by
  induction constraints generalizing v with
  | nil =>
    cases h
    exact hv
  | cons c rest ih =>
    obtain ⟨hc, hrest⟩ := List.forall_mem_cons.mp hkeeps
    obtain ⟨between, hfirst, h⟩ := bind_eq_ok_iff.mp h
    exact ih hrest (hc v between hv hfirst) h

/-- What passes constraints that fit its type is of this type still. -/
theorem takes_applyInOrder (hfits : ∀ c ∈ constraints, c.Fits (.leaf (.scalar type) nullable notes))
    (hv : type.Takes v) (h : applyInOrder place constraints v = .ok w) : type.Takes w :=
  applyInOrder_keeps (fun c hc _ _ => Constraint.takes_apply (hfits c hc)) hv h

/-- A value that meets an attribute meets it still after constraints that move no value past it. -/
theorem meets_applyInOrder {key : ConstraintAttribute} {value : Json}
    (htransform : ∀ c ∈ constraints, c.isTransform = false)
    (hpast : ∀ c ∈ constraints, ¬c.MovesPast key value) (hv : v.Meets key value)
    (h : applyInOrder place constraints v = .ok w) : w.Meets key value :=
  applyInOrder_keeps
    (fun c hc _ _ hbefore hpassed =>
      Constraint.meets_apply (htransform c hc) (hpast c hc) hpassed hbefore) hv h

/-- Only of not a number constraints make not a number. -/
theorem applyConstraints_ne_nan (hbounds : ∀ c ∈ constraints, c.BoundsInOrder)
    (hv : v.asNumber? ≠ some (.float .nan)) (h : applyConstraints constraints v place = .ok w) :
    w.asNumber? ≠ some (.float .nan) := by
  have hordered : ∀ c ∈ inOrder constraints, c.BoundsInOrder :=
    fun c hc => hbounds c (mem_inOrder.mp hc)
  exact applyInOrder_keeps (P := fun u => u.asNumber? ≠ some (.float .nan))
    (fun c hc _ _ => Constraint.apply_ne_nan (hordered c hc)) hv h

/-- The constraints that reshape show nothing. -/
theorem schemaAttributes_filter (constraints : List Constraint) :
    schemaAttributes (constraints.filter fun c => !c.isTransform) =
      schemaAttributes constraints := by
  have hsettings : (constraints.filter fun c => !c.isTransform).flatMap Constraint.attributes =
      constraints.flatMap Constraint.attributes := by
    induction constraints with
    | nil => rfl
    | cons c rest ih =>
      rw [List.filter_cons, List.flatMap_cons, ← ih]
      cases htransform : c.isTransform with
      | true => simp [Constraint.attributes_of_isTransform htransform]
      | false => simp
  rw [schemaAttributes, schemaAttributes, hsettings]

/-- What the constraints that do not reshape accept meets what is shown of all of them. -/
theorem meetsShown_of_plain
    (hfits : ∀ c ∈ constraints, c.Fits (.leaf (.scalar type) nullable notes))
    (hbounds : ∀ c ∈ constraints, c.BoundsInOrder) (hv : type.Takes v)
    (h : applyInOrder place (constraints.filter fun c => !c.isTransform) v = .ok w) :
    w.MeetsShown constraints := by
  have hnothing : v.MeetsShown [] := fun key value hshown => (nomatch hshown)
  have hmeets := meetsShown_applyInOrder (fun c hc => hfits c (List.mem_of_mem_filter hc))
    (fun c hc => by simpa using (List.mem_filter.mp hc).2)
    (fun c hc => hbounds c (List.mem_of_mem_filter hc)) hv hnothing h
  rwa [List.nil_append, Value.MeetsShown, schemaAttributes_filter] at hmeets

/-- An accepted value meets what is shown of the constraints. -/
theorem meetsShown_applyConstraints
    (hfits : ∀ c ∈ constraints, c.Fits (.leaf (.scalar type) nullable notes))
    (hbounds : ∀ c ∈ constraints, c.BoundsInOrder) (hv : type.Takes v)
    (h : applyConstraints constraints v place = .ok w) : w.MeetsShown constraints := by
  rw [applyConstraints, applyInOrder_append] at h
  obtain ⟨reshaped, hreshaped, h⟩ := bind_eq_ok_iff.mp h
  have htakes : type.Takes reshaped :=
    takes_applyInOrder (fun c hc => hfits c (List.mem_of_mem_filter hc)) hv hreshaped
  exact meetsShown_of_plain hfits hbounds htakes h

/-- Accepted values satisfy what is shown: whatever constraints fit a type, in any order, the clamps
among them having their bounds in order, a value that they accept is on the wrong side of no
attribute that they show, and satisfies it unless the value that came in or the attribute is not a
number. -/
theorem satisfies_of_applyConstraints {owner : String}
    (hcheck : checkConstraints owner (.leaf (.scalar type) nullable notes) constraints = .ok ())
    (hclamps : ∀ low high, .clamp low high ∈ constraints → low.atMost high = true)
    (hv : type.Takes v) (h : applyConstraints constraints v place = .ok w)
    {key : ConstraintAttribute} {value : Json}
    (hshown : Table.get? key (schemaAttributes constraints) = some value) :
    w.Meets key value ∧
      (v.asNumber? ≠ some (.float .nan) → value ≠ .number (.float .nan) →
        w.Satisfies key value) := by
  have hbounds : ∀ c ∈ constraints, c.BoundsInOrder := by
    intro c hc
    cases c with
    | clamp low high => exact hclamps low high hc
    | _ => trivial
  have hfits := fits_of_checkEach hcheck
  have hmeets := meetsShown_applyConstraints hfits hbounds hv h key value hshown
  exact ⟨hmeets, fun hnumber hvalue =>
    Value.satisfies_of_meets (applyConstraints_ne_nan hbounds hnumber h) hvalue hmeets⟩

end Runs

/-- A clamp between two other bounds moves 25 to its upper bound, which replaced the first one. -/
theorem satisfies_of_applyConstraints_clamped :
    let constraints : List Constraint :=
      [.max (.int 30) none, .clamp (.int 0) (.int 20), .min (.int 3) none]
    checkConstraints "Tank.level" (.leaf (.scalar .integer) false []) constraints = .ok () ∧
      applyConstraints constraints (.int 25) "level" = .ok (.int 20) ∧
      schemaAttributes constraints = [(.maximum, .int 20), (.minimum, .int 3)] ∧
      (Value.int 20).Satisfies .maximum (.int 20) ∧ (Value.int 20).Satisfies .minimum (.int 3) := by
  intro constraints
  have hcheck : checkConstraints "Tank.level" (.leaf (.scalar .integer) false []) constraints =
      .ok () := rfl
  have hclamps : ∀ low high, .clamp low high ∈ constraints → low.atMost high = true := by
    intro low high hmem
    simp only [constraints, List.mem_cons, List.not_mem_nil, or_false, reduceCtorEq,
      Constraint.clamp.injEq, false_or] at hmem
    obtain ⟨rfl, rfl⟩ := hmem
    decide
  have hv : Scalar.integer.Takes (.int 25) := ⟨.int 25, rfl⟩
  have haccepted : applyConstraints constraints (.int 25) "level" = .ok (.int 20) := rfl
  have hnumber : (Value.int 25).asNumber? ≠ some (.float .nan) := nofun
  refine ⟨hcheck, haccepted, rfl, ?_, ?_⟩
  · exact (satisfies_of_applyConstraints hcheck hclamps hv haccepted rfl).2 hnumber nofun
  · exact (satisfies_of_applyConstraints hcheck hclamps hv haccepted rfl).2 hnumber nofun

/-- Not a number passes a bound that it is not above, and a bound that is not a number lets pass
what is not above it. -/
theorem exists_accepted_beside_bound :
    (checkConstraints "Tank.level" (.leaf (.scalar .number) false [])
        [.min (.int 5) none] = .ok () ∧
      Scalar.number.Takes (.float .nan) ∧
      applyConstraints [.min (.int 5) none] (.float .nan) "level" = .ok (.float .nan) ∧
      Table.get? .minimum (schemaAttributes [.min (.int 5) none]) = some (.int 5) ∧
      ¬(Value.float .nan).Satisfies .minimum (.int 5)) ∧
    (checkConstraints "Tank.level" (.leaf (.scalar .integer) false [])
        [.min (.float .nan) none] = .ok () ∧
      Scalar.integer.Takes (.int 4) ∧
      applyConstraints [.min (.float .nan) none] (.int 4) "level" = .ok (.int 4) ∧
      Table.get? .minimum (schemaAttributes [.min (.float .nan) none]) =
        some (.number (.float .nan)) ∧
      ¬(Value.int 4).Satisfies .minimum (.number (.float .nan))) := by
  refine ⟨⟨rfl, ⟨.float .nan, rfl⟩, rfl, rfl, ?_⟩, ⟨rfl, ⟨.int 4, rfl⟩, rfl, rfl, ?_⟩⟩
  · rintro ⟨n, hn, hbound⟩
    obtain rfl := Option.some.inj hn
    exact (Number.atMost_iff_not_less.mp hbound).2.2 rfl
  · rintro ⟨n, _, hbound⟩
    exact (Number.atMost_iff_not_less.mp hbound).2.1 rfl

end HttpContract
