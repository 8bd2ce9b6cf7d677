import HttpContract.Proofs.Resolving

/-!
# Allowing null

A hint in a union with the null value resolves to what it resolves to alone, with null allowed. The
exception is a hint that hides a union below notes: its union is then met inside of another one,
where no union is unwrapped any more, and it is refused.
-/

namespace HttpContract

namespace Hint

/-- A hint without the notes around it. -/
def bare : Hint → Hint
  | .annotated base _ => base.bare
  | h => h

/-- Whether a hint is a union. -/
def isUnion : Hint → Bool
  | .union .. => true
  | _ => false

/-- Whether a hint is a union with notes around it. -/
def hidesUnion (h : Hint) : Bool := !h.isUnion && h.bare.isUnion

/-- A hint other than the type of the null value is written in another way. -/
theorem bne_noneType_iff {h : Hint} : (h != .noneType) = true ↔ h ≠ .noneType := by
  cases h <;> simp [bne, BEq.beq, same]

/-- Only the type of the null value is written like it. -/
theorem noneType_beq_iff {h : Hint} : ((.noneType : Hint) == h) = true ↔ h = .noneType := by
  cases h <;> simp [BEq.beq, same]

/-- Whether the type of the null value is among hints. -/
theorem contains_noneType_iff {hints : List Hint} :
    hints.contains .noneType = true ↔ .noneType ∈ hints := by
  rw [List.contains_iff_exists_mem_beq]
  constructor
  · rintro ⟨h, hmem, hsame⟩
    exact noneType_beq_iff.mp hsame ▸ hmem
  · exact fun hmem => ⟨_, hmem, rfl⟩

/-- The type of the null value, however often, is kept once. -/
theorem foldl_noneTypes {hints kept : List Hint} (hnone : ∀ h ∈ hints, h = .noneType) :
    hints.foldl (fun kept h => if kept.contains h then kept else kept ++ [h]) kept =
      if hints.isEmpty || kept.contains .noneType then kept else kept ++ [.noneType] := by
  induction hints generalizing kept with
  | nil => rfl
  | cons h rest ih =>
    obtain rfl := hnone h List.mem_cons_self
    have hrest : ∀ n ∈ rest, n = .noneType := fun n hn => hnone n (List.mem_cons_of_mem _ hn)
    rw [List.foldl_cons, ih hrest]
    by_cases hkept : kept.contains .noneType = true
    · simp [hkept]
    · have hadded : (kept ++ [noneType]).contains .noneType = true :=
        contains_noneType_iff.mpr (by simp)
      rw [if_neg hkept, hadded]
      simp [hkept]

/-- Besides the type of the null value, one hint: of these both, each is kept once. -/
theorem distinct_of_only {hints : List Hint} {x : Hint}
    (honly : hints.filter (· != .noneType) = [x]) (hnone : .noneType ∈ hints) :
    x ≠ .noneType ∧ (distinct hints = [x, .noneType] ∨ distinct hints = [.noneType, x]) := by
  obtain ⟨front, behind, rfl, hfront, hx, hbehind⟩ := List.filter_eq_cons_iff.mp honly
  have hx : x ≠ .noneType := bne_noneType_iff.mp hx
  have hfront : ∀ h ∈ front, h = .noneType := by
    simpa [bne_noneType_iff] using hfront
  have hbehind : ∀ h ∈ behind, h = .noneType := by
    simpa [bne_noneType_iff] using hbehind
  refine ⟨hx, ?_⟩
  unfold distinct
  rw [List.foldl_append, List.foldl_cons, foldl_noneTypes hfront, foldl_noneTypes hbehind]
  cases front with
  | nil =>
    left
    have hne : behind ≠ [] := by
      rintro rfl
      simp [hx.symm] at hnone
    have hnot : ¬ [x].contains .noneType = true := by
      rw [contains_noneType_iff]
      simpa using hx.symm
    simp [hne, hnot]
  | cons n front =>
    right
    have hnot : ((x : Hint) == .noneType) = false := by
      simpa only [bne, Bool.not_eq_true'] using bne_noneType_iff.mpr hx
    have hkept : [.noneType, x].contains .noneType = true := contains_noneType_iff.mpr (by simp)
    simp [hnot, hkept]

/-- A hint together with the null value is a union of it, or of the only other member of the union
that it is, with the type of the null value. -/
theorem exists_union_of_only {known : String → Bool} {h x : Hint} (bars : Bool)
    (honly : (asReference known (h.normal known)).unionMembers.filter (· != noneType) = [x]) :
    ∃ shown members, (union bars [h, .none]).normal known = .union shown members ∧
      x ≠ .noneType ∧ (members = [x, .noneType] ∨ members = [.noneType, x]) := by
  have hmembers : ((normalAll known [h, .none]).map (asReference known)).flatMap unionMembers =
      (asReference known (h.normal known)).unionMembers ++ [noneType] := rfl
  have hfilter : ((asReference known (h.normal known)).unionMembers ++ [noneType]).filter
      (· != noneType) = [x] := by
    rw [List.filter_append, honly]
    rfl
  obtain ⟨hx, hdistinct⟩ := distinct_of_only hfilter (by simp)
  rw [normal, unionOf, hmembers]
  rcases hdistinct with hdistinct | hdistinct
  · rw [hdistinct]
    exact ⟨_, _, rfl, hx, Or.inl rfl⟩
  · rw [hdistinct]
    exact ⟨_, _, rfl, hx, Or.inr rfl⟩

end Hint

namespace Classes

variable {C : Classes}

/-- A hint that is no union below its notes resolves inside a union as it does outside, with null
allowed as the union says. -/
theorem resolveWithin_eq_map {outer outer' nullable nullable' : Bool} {before after : List Note}
    {hint : Hint} (h : hint.bare.isUnion = false) :
    C.resolveWithin outer nullable before after hint =
      (C.resolveWithin outer' nullable' before after hint).map (·.withNullable nullable) := by
  cases hint with
  | annotated base notes =>
    rw [resolveWithin, resolveWithin]
    exact resolveWithin_eq_map h
  | union bars members => cases h
  | collection type item =>
    rw [resolveWithin, resolveWithin]
    cases C.resolveWithin true false [] [] item <;> rfl
  | mapping type key value =>
    unfold resolveWithin
    split
    · cases C.resolveWithin true false [] [] value <;> rfl
    · rfl
  | builtin type =>
    rw [resolveWithin, resolveWithin]
    cases type.scalar? <;> rfl
  | named name =>
    rw [resolveWithin, resolveWithin]
    cases C.leaf? name <;> rfl
  | bareCollection type => cases type <;> rfl
  | any | bareMapping type | fixedTuple items | none | noneType | forward name => rfl
termination_by structural hint

/-- A union is not unwrapped inside of another one, whatever notes are in between. -/
theorem resolveWithin_hidden {nullable : Bool} {before after : List Note} {hint : Hint}
    (h : hint.bare.isUnion = true) : C.resolveWithin false nullable before after hint =
      .error (.unknownForm (C.hintText hint.bare)) := by
  cases hint with
  | annotated base notes =>
    rw [resolveWithin]
    exact resolveWithin_hidden h
  | union bars members =>
    rw [resolveWithin]
    rfl
  | _ => cases h
termination_by structural hint

/-- The only other member of a union is resolved inside of it. -/
theorem resolveOnly_of_only {nullable : Bool} {before : List Note} {members : List Hint} {x : Hint}
    (honly : members.filter (· != .noneType) = [x]) :
    C.resolveOnly nullable before members = C.resolveWithin false nullable before [] x := by
  induction members with
  | nil => cases honly
  | cons member rest ih =>
    cases member with
    | noneType => exact ih honly
    | _ =>
      obtain rfl : _ = x := (List.cons.inj honly).1
      simp only [resolveOnly]

/-- A hint together with the null value resolves as the hint does inside a union, or as its only
other member does when it is a union itself. -/
theorem resolve_union_none {h x : Hint} {notes : List Note} (bars : Bool)
    (honly : ((h.normal C.isKnown).asReference C.isKnown).unionMembers.filter (· != .noneType) =
      [x]) :
    C.resolve (.union bars [h, .none]) notes = C.resolveWithin false true notes [] x := by
  obtain ⟨shown, members, hnormal, hx, hmembers⟩ := Hint.exists_union_of_only bars honly
  have hother : (x != .noneType) = true := Hint.bne_noneType_iff.mpr hx
  have hself : ((.noneType : Hint) != .noneType) = false := rfl
  have hfilter : members.filter (· != .noneType) = [x] := by
    rcases hmembers with rfl | rfl <;> simp [hother, hself]
  have hlength : members.length = 2 := by
    rcases hmembers with rfl | rfl <;> rfl
  rw [resolve, hnormal, resolveWithin]
  simp only [hfilter, hlength]
  rw [List.append_nil]
  exact resolveOnly_of_only hfilter

/-- A hint that is no union and resolves is the one thing in it besides null. -/
theorem self_of_resolveWithin {outer nullable : Bool} {before after : List Note} {h : Hint}
    {t : TypeInfo} (hunion : h.isUnion = false)
    (hresolved : C.resolveWithin outer nullable before after h = .ok t) :
    (h.asReference C.isKnown).unionMembers.filter (· != .noneType) = [h] := by
  have hreference : h.asReference C.isKnown = h := by
    cases h with
    | named name =>
      rw [resolveWithin] at hresolved
      cases hform : C.leaf? name with
      | none => simp [hform] at hresolved
      | some form => simp [Hint.asReference, isKnown_of_leaf? hform]
    | _ => rfl
  rw [hreference]
  cases h with
  | union bars members => cases hunion
  | none | noneType => cases hresolved
  | _ => rfl

/-- A hint that resolves is a union with one other member than the type of the null value, or it
stands for itself in a union. What is resolved in either case is hidden below notes if the hint
hides a union, and is otherwise resolved inside a union with the same result but that null is
allowed. -/
theorem exists_only_of_resolve {h : Hint} {notes : List Note} {t : TypeInfo}
    (hresolved : C.resolve h notes = .ok t) :
    ∃ x, ((h.normal C.isKnown).asReference C.isKnown).unionMembers.filter (· != .noneType) = [x] ∧
      C.resolveWithin false true notes [] x =
        if (h.normal C.isKnown).hidesUnion then
          .error (.unknownForm (C.hintText (h.normal C.isKnown).bare))
        else .ok (t.withNullable true) := by
  rw [resolve] at hresolved
  revert hresolved
  generalize h.normal C.isKnown = normal
  intro hresolved
  by_cases hunion : normal.isUnion = true
  · cases normal with
    | union bars members =>
      rw [resolveWithin, List.append_nil] at hresolved
      have hlength : (members.filter (· != .noneType)).length = 1 := by
        by_contra hlength
        simp [hlength] at hresolved
      obtain ⟨x, honly⟩ := List.length_eq_one_iff.mp hlength
      simp only [hlength, if_pos] at hresolved
      rw [resolveOnly_of_only honly] at hresolved
      refine ⟨x, honly, ?_⟩
      cases hhidden : x.bare.isUnion with
      | true =>
        rw [resolveWithin_hidden hhidden] at hresolved
        cases hresolved
      | false =>
        rw [resolveWithin_eq_map hhidden, hresolved]
        rfl
    | _ => cases hunion
  · have hself := self_of_resolveWithin (Bool.eq_false_iff.mpr hunion) hresolved
    refine ⟨normal, hself, ?_⟩
    cases hhidden : normal.bare.isUnion with
    | true => simp [resolveWithin_hidden hhidden, Hint.hidesUnion, hhidden, hunion]
    | false =>
      rw [resolveWithin_eq_map hhidden, hresolved]
      simp [Hint.hidesUnion, hhidden, Except.map]

/-- A hint that resolves does so together with the null value too, to the same type with null
allowed: its form, what it holds and the notes on it, in their order, are the same. It fails to
exactly when the hint hides a union below notes, and is then refused for this union. -/
theorem resolve_optional {h : Hint} {notes : List Note} {t : TypeInfo}
    (hresolved : C.resolve h notes = .ok t) (bars : Bool) :
    C.resolve (.union bars [h, .none]) notes =
      if (h.normal C.isKnown).hidesUnion then
        .error (.unknownForm (C.hintText (h.normal C.isKnown).bare))
      else .ok (t.withNullable true) := by
  obtain ⟨x, honly, hinside⟩ := exists_only_of_resolve hresolved
  rw [resolve_union_none bars honly, hinside]

/-- Notes below a union are no obstacle, notes above one are. -/
theorem resolve_optional_limits :
    let least := Note.constraint (.min (.int 1) none)
    let most := Note.constraint (.max (.int 9) none)
    let limited := Hint.annotated (.builtin .integer) [most]
    let plain := Hint.union true [limited, .none]
    let hidden := Hint.annotated plain [least]
    let C : Classes := {}
    C.resolve plain [] = .ok (.leaf (.scalar .integer) true [most]) ∧
      C.resolve (.union false [plain, .none]) [] = .ok (.leaf (.scalar .integer) true [most]) ∧
      C.resolve hidden [] = .ok (.leaf (.scalar .integer) true [least, most]) ∧
      C.resolve (.union false [hidden, .none]) [] = .error (.unknownForm
        "typing.Optional[typing.Annotated[int, Max(value=9, message=None)]]") := by
  intro least most limited plain hidden C
  have hplain : C.resolve plain [] = .ok (.leaf (.scalar .integer) true [most]) := rfl
  have hhidden : C.resolve hidden [] = .ok (.leaf (.scalar .integer) true [least, most]) := rfl
  exact ⟨hplain, resolve_optional hplain false, hhidden, (resolve_optional hhidden false).trans rfl⟩

end Classes

end HttpContract
