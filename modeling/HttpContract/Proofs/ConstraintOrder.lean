import HttpContract.Proofs.Acceptance
import HttpContract.Proofs.Binding

/-!
# When the order of constraints matters

Constraints are applied one after the other. A constraint that rewrites changes the value for
everything behind it; any other one leaves an accepted value as it is, so that its own place matters
only through what has been rewritten in front of it. Reshaping of texts comes first anyway. A clamp
does not: it takes its turn among the bounds, and a bound in front of it refuses what it would have
moved into range.
-/

namespace HttpContract

namespace Constraint

/-- Whether a constraint changes values. The others accept a value as it is or refuse it. -/
def rewrites (c : Constraint) : Bool := c.isTransform || c.isClamp

/-- Whether a constraint refuses numbers beyond a bound. -/
def isBound : Constraint → Bool
  | .min .. | .max .. => true
  | _ => false

/-- A constraint that does not rewrite leaves a value that passes it as it is. -/
theorem eq_of_apply_of_not_rewrites {c : Constraint} {place : String} {v w : Value}
    (hc : c.rewrites = false) (h : c.apply place v = .ok w) : w = v := by
  obtain ⟨htransform, hclamp⟩ := Bool.or_eq_false_iff.mp hc
  exact eq_of_apply htransform hclamp h

/-- A constraint on numbers rewrites exactly when it is a clamp, and is a bound otherwise. -/
theorem rewrites_of_isNumeric {c : Constraint} (hc : c.isNumeric = true) :
    c.isTransform = false ∧ c.rewrites = c.isClamp ∧ (c.rewrites = false → c.isBound = true) := by
  cases c with
  | min bound message | max bound message => exact ⟨rfl, rfl, fun _ => rfl⟩
  | clamp low high => exact ⟨rfl, rfl, fun h => (nomatch h)⟩
  | _ => cases hc

/-- A constraint on texts rewrites exactly when it reshapes them. -/
theorem rewrites_of_not_isNumeric {c : Constraint} (hc : c.isNumeric = false) :
    c.rewrites = c.isTransform := by
  cases c with
  | min bound message | max bound message | clamp low high => cases hc
  | _ => rfl

end Constraint

/-- An element that stands in one list stands in every list with the same elements of a kind that it
is of, with the same ones of this kind in front of it. -/
theorem exists_split_of_filter {α : Type} {p : α → Bool} {first second front behind : List α}
    {a : α}
    (hsame : first.filter p = second.filter p) (ha : p a = true)
    (hsplit : second = front ++ a :: behind) :
    ∃ front' behind', first = front' ++ a :: behind' ∧ front'.filter p = front.filter p := by
  have hkept : first.filter p = front.filter p ++ a :: behind.filter p := by
    rw [hsame, hsplit, List.filter_append, List.filter_cons_of_pos ha]
  obtain ⟨before, rest, hfirst, hbefore, hrest⟩ := List.filter_eq_append_iff.mp hkept
  obtain ⟨between, after, rfl, hbetween, _, _⟩ := List.filter_eq_cons_iff.mp hrest
  refine ⟨before ++ between, after, by rw [hfirst, List.append_assoc], ?_⟩
  have hnone : between.filter p = [] := List.filter_eq_nil_iff.mpr hbetween
  rw [List.filter_append, hnone, List.append_nil, hbefore]

section Runs

variable {place : String} {first second ordered : List Constraint} {v w : Value}

/-- What constraints in a row make of a value the rewriting ones among them make of it, and each of
the others lets pass what the rewriting ones in front of it make. -/
theorem applyInOrder_eq_ok_iff : applyInOrder place ordered v = .ok w ↔
    applyInOrder place (ordered.filter Constraint.rewrites) v = .ok w ∧
      ∀ front c behind, ordered = front ++ c :: behind → c.rewrites = false →
        ∃ u, applyInOrder place (front.filter Constraint.rewrites) v = .ok u ∧
          c.apply place u = .ok u := by
  induction ordered generalizing v with
  | nil => simp [applyInOrder]
  | cons d rest ih =>
    cases hd : d.rewrites with
    | true =>
      -- Everything behind `d` sees what `d` makes of the value.
      rw [List.filter_cons_of_pos hd, applyInOrder, applyInOrder, bind_eq_ok_iff, bind_eq_ok_iff]
      constructor
      · rintro ⟨u, hu, hrest⟩
        obtain ⟨hrewritten, hpassed⟩ := ih.mp hrest
        refine ⟨⟨u, hu, hrewritten⟩, fun front c behind hsplit hc => ?_⟩
        rcases List.cons_eq_append_iff.mp hsplit with ⟨rfl, heq⟩ | ⟨front', rfl, heq⟩
        · obtain ⟨rfl, _⟩ := List.cons.inj heq
          rw [hd] at hc
          cases hc
        · obtain ⟨t, ht, happly⟩ := hpassed front' c behind heq hc
          refine ⟨t, ?_, happly⟩
          rw [List.filter_cons_of_pos hd, applyInOrder]
          exact bind_eq_ok_iff.mpr ⟨u, hu, ht⟩
      · rintro ⟨⟨u, hu, hrewritten⟩, hpassed⟩
        refine ⟨u, hu, ih.mpr ⟨hrewritten, fun front c behind hsplit hc => ?_⟩⟩
        obtain ⟨t, ht, happly⟩ := hpassed (d :: front) c behind (by rw [hsplit]; rfl) hc
        rw [List.filter_cons_of_pos hd, applyInOrder] at ht
        obtain ⟨u', hu', ht⟩ := bind_eq_ok_iff.mp ht
        obtain rfl : u = u' := Except.ok.inj (hu.symm.trans hu')
        exact ⟨t, ht, happly⟩
    | false =>
      have hskip : ¬d.rewrites = true := by simp [hd]
      rw [List.filter_cons_of_neg hskip, applyInOrder, bind_eq_ok_iff]
      constructor
      · rintro ⟨u, hu, hrest⟩
        obtain rfl := Constraint.eq_of_apply_of_not_rewrites hd hu
        obtain ⟨hrewritten, hpassed⟩ := ih.mp hrest
        refine ⟨hrewritten, fun front c behind hsplit hc => ?_⟩
        rcases List.cons_eq_append_iff.mp hsplit with ⟨rfl, heq⟩ | ⟨front', rfl, heq⟩
        · obtain ⟨rfl, _⟩ := List.cons.inj heq
          exact ⟨u, rfl, hu⟩
        · rw [List.filter_cons_of_neg hskip]
          exact hpassed front' c behind heq hc
      · rintro ⟨hrewritten, hpassed⟩
        obtain ⟨u, hu, happly⟩ := hpassed [] d rest rfl hd
        obtain rfl : v = u := Except.ok.inj hu
        refine ⟨v, happly, ih.mpr ⟨hrewritten, fun front c behind hsplit hc => ?_⟩⟩
        have hfront := hpassed (d :: front) c behind (by rw [hsplit]; rfl) hc
        rwa [List.filter_cons_of_neg hskip] at hfront

/-- What passes constraints in a row passes others in a row that rewrite alike, each check behind
the same rewriting. -/
theorem applyInOrder_of_filter_eq
    (hrewriting : first.filter Constraint.rewrites = second.filter Constraint.rewrites)
    (hchecks : ∀ c ∈ second, c.rewrites = false →
      first.filter (fun d => d = c || d.rewrites) = second.filter (fun d => d = c || d.rewrites))
    (h : applyInOrder place first v = .ok w) : applyInOrder place second v = .ok w := by
  obtain ⟨hrewritten, hpassed⟩ := applyInOrder_eq_ok_iff.mp h
  refine applyInOrder_eq_ok_iff.mpr ⟨hrewriting ▸ hrewritten, fun front c behind hsplit hc => ?_⟩
  have hmem : c ∈ second := by simp [hsplit]
  obtain ⟨front', behind', hfirst, hsame⟩ :=
    exists_split_of_filter (hchecks c hmem hc) (by simp) hsplit
  have hrewrites (cs : List Constraint) : cs.filter Constraint.rewrites =
      (cs.filter fun d => d = c || d.rewrites).filter Constraint.rewrites := by
    rw [List.filter_filter]
    refine List.filter_congr fun d _ => ?_
    cases d.rewrites <;> simp
  obtain ⟨u, hu, happly⟩ := hpassed front' c behind' hfirst hc
  rw [hrewrites, hsame, ← hrewrites] at hu
  exact ⟨u, hu, happly⟩

end Runs

/-- Whether constraints are others in another order that keeps the order of the rewriting ones, and
each bound on its side of each clamp. -/
structure Rearranged (first second : List Constraint) : Prop where
  perm : first.Perm second
  rewriting : first.filter Constraint.rewrites = second.filter Constraint.rewrites
  bounds : ∀ c, c.isBound = true →
    first.filter (fun d => d = c || d.isClamp) = second.filter (fun d => d = c || d.isClamp)

/-- Rearranging back is rearranging. -/
theorem Rearranged.symm {first second : List Constraint} (h : Rearranged first second) :
    Rearranged second first :=
  ⟨h.perm.symm, h.rewriting.symm, fun c hc => (h.bounds c hc).symm⟩

/-- The type that the constraints on a type are for: that of the items of an array, and any other
type itself. -/
def TypeInfo.constrained : TypeInfo → TypeInfo
  | .array _ item _ _ => item
  | type => type

/-- Constraints that were checked against a type fit the type that they are for. -/
theorem fits_constrained {owner : String} {type : TypeInfo} {constraints : List Constraint}
    (h : checkConstraints owner type constraints = .ok ()) :
    ∀ c ∈ constraints, c.Fits type.constrained := by
  cases type with
  | array container item nullable notes =>
    obtain ⟨_, hitem, _⟩ := bind_eq_ok_iff.mp h
    exact fits_of_checkEach hitem
  | leaf | map => exact fits_of_checkEach h

/-- Constraints that fit one type are alike about numbers or about texts. -/
theorem Constraint.isNumeric_eq_of_fits {c d : Constraint} {type : TypeInfo} (hc : c.Fits type)
    (hd : d.Fits type) : c.isNumeric = d.isNumeric := by
  have hc := hc.1
  have hd := hd.1
  unfold admits at hc hd
  split at hc
  · rw [Bool.not_eq_true'] at hc hd
    exact hc.trans hd.symm
  · exact hc.trans hd.symm
  · exact hc.trans hd.symm
  · cases hc

/-- Constraints that fit one type are all about numbers, or all about texts. -/
theorem isNumeric_of_fits {type : TypeInfo} {constraints : List Constraint}
    (h : ∀ c ∈ constraints, c.Fits type) :
    (∀ c ∈ constraints, c.isNumeric = true) ∨ ∀ c ∈ constraints, c.isNumeric = false := by
  cases constraints with
  | nil => exact Or.inl fun c hc => (nomatch hc)
  | cons first rest =>
    have hsame : ∀ c ∈ first :: rest, c.isNumeric = first.isNumeric :=
      fun c hc => Constraint.isNumeric_eq_of_fits (h c hc) (h first List.mem_cons_self)
    cases hfirst : first.isNumeric with
    | true => exact Or.inl fun c hc => (hsame c hc).trans hfirst
    | false => exact Or.inr fun c hc => (hsame c hc).trans hfirst

section Order

variable {first second : List Constraint} {place : String} {v w : Value}

/-- Constraints on numbers are applied in the order that they have. -/
theorem inOrder_of_isNumeric (h : ∀ c ∈ first, c.isNumeric = true) : inOrder first = first := by
  have hplain : ∀ c ∈ first, c.isTransform = false :=
    fun c hc => (Constraint.rewrites_of_isNumeric (h c hc)).1
  have hnone : first.filter Constraint.isTransform = [] :=
    List.filter_eq_nil_iff.mpr fun c hc => by simp [hplain c hc]
  have hall : (first.filter fun c => !c.isTransform) = first :=
    List.filter_eq_self.mpr fun c hc => by simp [hplain c hc]
  rw [inOrder, hnone, hall, List.nil_append]

/-- Of constraints on texts those that rewrite are applied first, in their order, and behind them
all that are picked from the others. -/
theorem filter_inOrder_of_not_isNumeric (h : ∀ c ∈ first, c.isNumeric = false)
    {picked : Constraint → Bool} (hpicked : ∀ c, picked c = true → c.rewrites = false) :
    (inOrder first).filter (fun d => picked d || d.rewrites) =
      first.filter Constraint.rewrites ++ first.filter picked := by
  have hrewrites : ∀ d ∈ first, d.rewrites = d.isTransform :=
    fun d hd => Constraint.rewrites_of_not_isNumeric (h d hd)
  rw [inOrder, List.filter_append, List.filter_filter, List.filter_filter]
  congr 1
  · refine List.filter_congr fun d hd => ?_
    rw [hrewrites d hd]
    cases d.isTransform <;> simp
  · refine List.filter_congr fun d hd => ?_
    rw [← hrewrites d hd]
    cases hd : picked d with
    | true => simp [hpicked d hd]
    | false => cases d.rewrites <;> simp

/-- Rearranged constraints on numbers accept what they accepted, and make the same of it. -/
theorem Rearranged.applyConstraints_of_isNumeric (h : Rearranged first second)
    (hnumbers : ∀ c ∈ first, c.isNumeric = true)
    (haccepted : applyConstraints first v place = .ok w) :
    applyConstraints second v place = .ok w := by
  have hsecond : ∀ c ∈ second, c.isNumeric = true :=
    fun c hc => hnumbers c (h.perm.mem_iff.mpr hc)
  change applyInOrder place (inOrder first) v = .ok w at haccepted
  change applyInOrder place (inOrder second) v = .ok w
  rw [inOrder_of_isNumeric hnumbers] at haccepted
  rw [inOrder_of_isNumeric hsecond]
  refine applyInOrder_of_filter_eq h.rewriting (fun c hc hplain => ?_) haccepted
  -- Among constraints on numbers just the clamps rewrite.
  have hclamps {cs : List Constraint} (hcs : ∀ d ∈ cs, d.isNumeric = true) :
      cs.filter (fun d => d = c || d.rewrites) = cs.filter (fun d => d = c || d.isClamp) :=
    List.filter_congr fun d hd => by rw [(Constraint.rewrites_of_isNumeric (hcs d hd)).2.1]
  have hbound : c.isBound = true :=
    (Constraint.rewrites_of_isNumeric (hsecond c hc)).2.2 hplain
  rw [hclamps hnumbers, hclamps hsecond, h.bounds c hbound]

/-- Rearranged constraints on texts accept what they accepted, and make the same of it: what is
checked is the reshaped text, wherever the check stands. -/
theorem Rearranged.applyConstraints_of_not_isNumeric (h : Rearranged first second)
    (htexts : ∀ c ∈ first, c.isNumeric = false)
    (haccepted : applyConstraints first v place = .ok w) :
    applyConstraints second v place = .ok w := by
  have hsecond : ∀ c ∈ second, c.isNumeric = false :=
    fun c hc => htexts c (h.perm.mem_iff.mpr hc)
  change applyInOrder place (inOrder first) v = .ok w at haccepted
  change applyInOrder place (inOrder second) v = .ok w
  have hrewriting : (inOrder first).filter Constraint.rewrites =
      (inOrder second).filter Constraint.rewrites := by
    have hnone (cs : List Constraint) (hcs : ∀ c ∈ cs, c.isNumeric = false) :
        (inOrder cs).filter Constraint.rewrites = cs.filter Constraint.rewrites := by
      have hnever : ∀ c : Constraint, (fun _ => false) c = true → c.rewrites = false :=
        fun c hc => (nomatch hc)
      simpa using filter_inOrder_of_not_isNumeric hcs hnever
    rw [hnone first htexts, hnone second hsecond, h.rewriting]
  refine applyInOrder_of_filter_eq hrewriting (fun c _ hplain => ?_) haccepted
  have hpicked : ∀ d : Constraint, decide (d = c) = true → d.rewrites = false := by
    intro d hd
    rwa [of_decide_eq_true hd]
  rw [filter_inOrder_of_not_isNumeric htexts hpicked,
    filter_inOrder_of_not_isNumeric hsecond hpicked, h.rewriting, List.filter_eq, List.filter_eq,
    h.perm.count_eq]

/-- Rearranged constraints that are all about numbers, or all about texts, accept what they
accepted, and make the same of it. -/
theorem Rearranged.applyConstraints_eq_ok (h : Rearranged first second)
    (hkind : (∀ c ∈ first, c.isNumeric = true) ∨ ∀ c ∈ first, c.isNumeric = false)
    (haccepted : applyConstraints first v place = .ok w) :
    applyConstraints second v place = .ok w := by
  rcases hkind with hnumbers | htexts
  · exact h.applyConstraints_of_isNumeric hnumbers haccepted
  · exact h.applyConstraints_of_not_isNumeric htexts haccepted

/-- A value of the type that constraints fit is accepted or refused by them. No constraint fits a
type that is not one of parameters. -/
theorem applyConstraints_cases {constraints : List Constraint} {type : TypeInfo}
    (hfits : ∀ c ∈ constraints, c.Fits type)
    (hv : ∀ parsed, Binding.parameterType? type = some parsed → Binding.Parsed parsed v)
    (place : String) :
    (∃ w, applyConstraints constraints v place = .ok w) ∨
      ∃ e, applyConstraints constraints v place = .error e ∧ e.IsRefusal constraints := by
  cases htype : Binding.parameterType? type with
  | none =>
    cases constraints with
    | nil => exact Or.inl ⟨v, rfl⟩
    | cons c rest =>
      have hadmits := (hfits c List.mem_cons_self).1
      unfold Constraint.admits at hadmits
      split at hadmits
      · cases htype
      · cases htype
      · cases htype
      · cases hadmits
  | some parsed =>
    have hordered : ∀ c ∈ inOrder constraints, c.Fits type :=
      fun c hc => hfits c (mem_inOrder.mp hc)
    have hrefuses : OnlyRefuses constraints (applyInOrder place (inOrder constraints) v) :=
      (Binding.onlyRefuses_applyInOrder htype hordered place (hv parsed htype)).1.mono
        fun c hc => mem_inOrder.mp hc
    cases hresult : applyConstraints constraints v place with
    | ok w => exact Or.inl ⟨w, rfl⟩
    | error e => exact Or.inr ⟨e, rfl, hrefuses e hresult⟩

/-- Rearranging decides nothing: whatever type constraints were checked against, and however they
are rearranged, the same is made of every value that either accepts, and a value of the type that
they are for is accepted by both or refused by both. What is refused is the client's failure, unless
a constraint among them cannot say why. -/
theorem applyConstraints_rearranged {owner : String} {type : TypeInfo}
    (hcheck : checkConstraints owner type first = .ok ()) (hmoved : Rearranged first second)
    (v : Value) (place : String) :
    (∀ w, applyConstraints first v place = .ok w ↔ applyConstraints second v place = .ok w) ∧
      ((∀ parsed, Binding.parameterType? type.constrained = some parsed → Binding.Parsed parsed v) →
        (∃ w, applyConstraints first v place = .ok w ∧ applyConstraints second v place = .ok w) ∨
          ∃ e e', applyConstraints first v place = .error e ∧ e.IsRefusal first ∧
            applyConstraints second v place = .error e' ∧ e'.IsRefusal first) := by
  have hfits : ∀ c ∈ first, c.Fits type.constrained := fits_constrained hcheck
  have hmoved_fits : ∀ c ∈ second, c.Fits type.constrained :=
    fun c hc => hfits c (hmoved.perm.mem_iff.mpr hc)
  have haccepted (w : Value) :
      applyConstraints first v place = .ok w ↔ applyConstraints second v place = .ok w :=
    ⟨hmoved.applyConstraints_eq_ok (isNumeric_of_fits hfits),
      hmoved.symm.applyConstraints_eq_ok (isNumeric_of_fits hmoved_fits)⟩
  refine ⟨haccepted, fun hv => ?_⟩
  rcases applyConstraints_cases hfits hv place with ⟨w, hw⟩ | ⟨e, he, hrefusal⟩
  · exact Or.inl ⟨w, hw, (haccepted w).mp hw⟩
  · rcases applyConstraints_cases hmoved_fits hv place with ⟨w, hw⟩ | ⟨e', he', hrefusal'⟩
    · rw [(haccepted w).mpr hw] at he
      cases he
    · exact Or.inr ⟨e, e', he, hrefusal, he',
        hrefusal'.mono fun c hc => hmoved.perm.mem_iff.mpr hc⟩

end Order

/-- Two bounds in front of a clamp change places: 25 is moved to 20 all the same, and 35 is refused
by both. -/
theorem applyConstraints_rearranged_bounds :
    let first : List Constraint :=
      [.max (.int 30) none, .min (.int 0) none, .clamp (.int 5) (.int 20), .min (.int 3) none]
    let second : List Constraint :=
      [.min (.int 0) none, .max (.int 30) none, .clamp (.int 5) (.int 20), .min (.int 3) none]
    checkConstraints "Tank.level" (.leaf (.scalar .integer) false []) first = .ok () ∧
      Rearranged first second ∧ applyConstraints first (.int 25) "level" = .ok (.int 20) ∧
      applyConstraints second (.int 25) "level" = .ok (.int 20) ∧
      ∃ e e', applyConstraints first (.int 35) "level" = .error (.binding e) ∧
        applyConstraints second (.int 35) "level" = .error (.binding e') := by
  intro first second
  have hcheck : checkConstraints "Tank.level" (.leaf (.scalar .integer) false []) first = .ok () :=
    rfl
  have hmoved : Rearranged first second := by
    refine ⟨List.Perm.swap _ _ _, rfl, fun c _ => ?_⟩
    by_cases hmax : Constraint.max (.int 30) none = c
    · subst hmax
      rfl
    · simp [first, second, List.filter_cons, hmax, Constraint.isClamp]
  have haccepted : applyConstraints first (.int 25) "level" = .ok (.int 20) := rfl
  refine ⟨hcheck, hmoved, haccepted,
    ((applyConstraints_rearranged hcheck hmoved (.int 25) "level").1 _).mp haccepted, ?_⟩
  have hv : ∀ parsed, Binding.parameterType? (.leaf (.scalar .integer) false []) = some parsed →
      Binding.Parsed parsed (.int 35) := by
    rintro parsed ⟨⟩
    exact .integer _
  rcases (applyConstraints_rearranged hcheck hmoved (.int 35) "level").2 hv with
    ⟨w, hw, _⟩ | ⟨e, e', he, hrefusal, he', hrefusal'⟩
  · cases hw
  · have hsayable : ∀ c ∈ first, c.isSayable = true := by decide +kernel
    obtain ⟨b, rfl⟩ := hrefusal.exists_binding hsayable
    obtain ⟨b', rfl⟩ := hrefusal'.exists_binding hsayable
    exact ⟨b, b', he, he'⟩

/-- A bound in front of a clamp refuses what the clamp would have moved into range, so that another
order of constraints that keeps the order of the rewriting ones decides what is accepted. -/
theorem exists_reordered_refused :
    let first : List Constraint := [.clamp (.int 0) (.int 5), .max (.int 10) none]
    let second : List Constraint := [.max (.int 10) none, .clamp (.int 0) (.int 5)]
    checkConstraints "Tank.level" (.leaf (.scalar .integer) false []) first = .ok () ∧
      first.Perm second ∧
      first.filter Constraint.rewrites = second.filter Constraint.rewrites ∧
      Binding.Parsed (.scalar .integer) (.int 20) ∧
      applyConstraints first (.int 20) "level" = .ok (.int 5) ∧
      applyConstraints second (.int 20) "level" =
        .error (Failure.refused (some "level") (.aboveMaximum (.int 10))) :=
  ⟨rfl, List.Perm.swap _ _ _, rfl, .integer _, rfl, rfl⟩

end HttpContract
