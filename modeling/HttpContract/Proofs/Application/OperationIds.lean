import HttpContract.Proofs.Decimal
import HttpContract.Proofs.Application.Accepting
import Mathlib.Data.List.Pairwise

/-!
# Operation ids

An operation keeps its id under the first of its paths, and has the number of the path behind its id
under all others. Of one registration the ids are distinct, and so are those that several
registrations make of distinct ids by numbers. But an id that was given can be what another
registration makes of its own: then two operations of the document share it, and this is the only
way that they can.
-/

namespace HttpContract

/-- The id of an operation under the alias of an index. -/
def aliasId (id : String) (index : Nat) : String := if index = 0 then id else s!"{id}_{index + 1}"

/-- The operation under an alias has its id under this alias. -/
theorem operationId_underAlias (made : Operation) (index : Nat) :
    (Assembler.underAlias made index).operationId = made.operationId.map (aliasId · index) := by
  unfold Assembler.underAlias aliasId
  by_cases hindex : index = 0
  · simp [hindex]
  · simp [hindex]

/-- What stands behind the last underscore, and what stands before it, can be read off a text. -/
theorem append_underscore_inj {front other digits others : List Char} (hdigits : '_' ∉ digits)
    (hothers : '_' ∉ others) (h : front ++ '_' :: digits = other ++ '_' :: others) :
    front = other ∧ digits = others := by
  -- If one text before the underscore were longer, its underscore would stand among the digits of
  -- the other.
  obtain ⟨between, hother, htail⟩ | ⟨between, hfront, htail⟩ := List.append_eq_append_iff.mp h
  · cases between with
    | nil =>
      rw [List.append_nil] at hother
      exact ⟨hother.symm, (List.cons.inj htail).2⟩
    | cons c rest =>
      rw [(List.cons.inj htail).2] at hdigits
      exact absurd (List.mem_append_right rest List.mem_cons_self) hdigits
  · cases between with
    | nil =>
      rw [List.append_nil] at hfront
      exact ⟨hfront, (List.cons.inj htail).2.symm⟩
    | cons c rest =>
      rw [(List.cons.inj htail).2] at hothers
      exact absurd (List.mem_append_right rest List.mem_cons_self) hothers

/-- The characters of an id with a number behind it. -/
theorem toList_aliasId_succ (id : String) (index : Nat) :
    (aliasId id (index + 1)).toList = id.toList ++ '_' :: (index + 2).repr.toList := by
  have hnumbered : aliasId id (index + 1) = id ++ "_" ++ (index + 2).repr := rfl
  rw [hnumbered, String.toList_append, String.toList_append, List.append_assoc]
  rfl

/-- An id with a number behind it is another one than the id. -/
theorem aliasId_succ_ne (id : String) (index : Nat) : aliasId id (index + 1) ≠ id := by
  intro h
  have hlength := congrArg (fun text => text.toList.length) h
  simp only [toList_aliasId_succ, List.length_append, List.length_cons] at hlength
  omega

/-- Ids with numbers behind them are one id only for the same id and the same number. -/
theorem aliasId_succ_inj {id other : String} {index otherIndex : Nat}
    (h : aliasId id (index + 1) = aliasId other (otherIndex + 1)) :
    id = other ∧ index = otherIndex := by
  have hlist := congrArg String.toList h
  rw [toList_aliasId_succ, toList_aliasId_succ] at hlist
  have hnone (n : Nat) : '_' ∉ n.repr.toList := DecimalText.notMem_repr (by decide) n
  obtain ⟨hid, hdigits⟩ := append_underscore_inj (hnone _) (hnone _) hlist
  rw [Nat.toList_repr, Nat.toList_repr] at hdigits
  have hnumber := congrArg (Nat.ofDigitChars 10 · 0) hdigits
  have hindex : index + 2 = otherIndex + 2 := by simpa using hnumber
  exact ⟨String.toList_injective hid, Nat.add_right_cancel hindex⟩

/-- Two ids under two aliases are one id only if both are the same id under the same alias, or if
one of them stands without a number and is what the other one is with its number. -/
theorem aliasId_eq_cases {id other : String} {index otherIndex : Nat}
    (h : aliasId id index = aliasId other otherIndex) :
    (id = other ∧ index = otherIndex) ∨
      (index = 0 ∧ otherIndex ≠ 0 ∧ id = aliasId other otherIndex) ∨
      (otherIndex = 0 ∧ index ≠ 0 ∧ other = aliasId id index) := by
  cases index with
  | zero =>
    cases otherIndex with
    | zero => exact Or.inl ⟨h, rfl⟩
    | succ otherIndex => exact Or.inr (Or.inl ⟨rfl, Nat.succ_ne_zero _, h⟩)
  | succ index =>
    cases otherIndex with
    | zero => exact Or.inr (Or.inr ⟨rfl, Nat.succ_ne_zero _, h.symm⟩)
    | succ otherIndex =>
      obtain ⟨hid, hindex⟩ := aliasId_succ_inj h
      exact Or.inl ⟨hid, congrArg (· + 1) hindex⟩

namespace Document

/-- The operations that a document shows, each with its method and path. -/
def operations (d : Document) : List ((String × String) × Operation) :=
  d.paths.flatMap fun (path, item) =>
    item.documented.map fun (method, shown) => ((method, path), shown)

/-- The operation ids that a document shows. -/
def operationIds (d : Document) : List String := d.operations.filterMap (·.2.operationId)

variable {d : Document}

/-- With distinct paths a document shows the operation that is found under a method and a path, if
there is room for the method. -/
theorem mem_operations (hdistinct : d.paths.Distinct) {pair : String × String} {shown : Operation} :
    (pair, shown) ∈ d.operations ↔ pair.1 ∈ documentedMethods ∧
      Assembler.operationAt? d.paths pair.1 pair.2 = some shown := by
  obtain ⟨method, path⟩ := pair
  unfold operations Assembler.operationAt?
  simp only [List.mem_flatMap, List.mem_map, Prod.mk.injEq, Option.bind_eq_some_iff]
  constructor
  · rintro ⟨⟨_, item⟩, hitem, ⟨_, _⟩, hshown, ⟨rfl, rfl⟩, rfl⟩
    obtain ⟨hmethod, hget⟩ := PathItem.mem_documented.mp hshown
    exact ⟨hmethod, item, Table.get?_of_mem hdistinct hitem, hget⟩
  · rintro ⟨hmethod, item, hitem, hget⟩
    exact ⟨(path, item), Table.mem_of_get? hitem, (method, shown),
      PathItem.mem_documented.mpr ⟨hmethod, hget⟩, ⟨rfl, rfl⟩, rfl⟩

/-- With distinct paths a document shows no operation twice. -/
theorem nodup_operations (hdistinct : d.paths.Distinct) : d.operations.Nodup := by
  unfold operations
  rw [List.nodup_flatMap]
  constructor
  · rintro ⟨path, item⟩ _
    refine List.Nodup.map (fun x y h => ?_) (List.Nodup.filterMap ?_ (by decide))
    · obtain ⟨hpair, hshown⟩ := Prod.mk.inj h
      exact Prod.ext (Prod.mk.inj hpair).1 hshown
    · rintro method other ⟨_, _⟩ hmethod hother
      obtain ⟨_, _, hfirst⟩ := Option.map_eq_some_iff.mp hmethod
      obtain ⟨_, _, hsecond⟩ := Option.map_eq_some_iff.mp hother
      exact (Prod.mk.inj hfirst).1.trans (Prod.mk.inj hsecond).1.symm
  · refine (List.pairwise_map.mp hdistinct).imp fun {x y} hne => ?_
    rintro entry hx hy
    obtain ⟨_, _, rfl⟩ := List.mem_map.mp hx
    obtain ⟨_, _, heq⟩ := List.mem_map.mp hy
    exact hne (Prod.mk.inj (Prod.mk.inj heq).1).2.symm

end Document

/-- Where all that is made is distinct, two different things have nothing made of them in common. -/
theorem ne_of_nodup_filterMap {α β : Type} {make : α → Option β} {xs : List α}
    (h : (xs.filterMap make).Nodup) {x y : α} (hx : x ∈ xs) (hy : y ∈ xs) (hne : x ≠ y) {made : β}
    (hmade : make x = some made) : make y ≠ some made := by
  have hpairwise := List.pairwise_filterMap.mp h
  have hsymm : Std.Symm fun x y =>
      ∀ made, make x = some made → ∀ other, make y = some other → made ≠ other :=
    ⟨fun x y h made hy other hx heq => h other hx made hy heq.symm⟩
  exact fun hother => hpairwise.forall hx hy hne made hmade made hother rfl

/-- What is made of distinct things is distinct if no two of them have the same made of them. -/
theorem nodup_filterMap {α β : Type} {make : α → Option β} {xs : List α} (h : xs.Nodup)
    (hne : ∀ x ∈ xs, ∀ y ∈ xs, x ≠ y → ∀ made, make x = some made → make y ≠ some made) :
    (xs.filterMap make).Nodup := by
  refine List.pairwise_filterMap.mpr (h.pairwise_of_forall_ne fun x hx y hy hxy => ?_)
  rintro made hmade other hother rfl
  exact hne x hx y hy hxy made hmade hother

namespace Registration

/-- The operation id that is given; an empty text is none. -/
def givenId (r : Registration) : Option String :=
  r.spec.operation.operationId.bind Parameter.spoken

/-- Whether its operation is shown for a method and a template as it stands under an index: the
document has room for the method, and no later path of the registration gives the template. -/
structure Shows (r : Registration) (index : Nat) (pair : String × String) : Prop where
  namesLast : r.NamesLast index pair
  documented : pair.1 ∈ documentedMethods

/-- What is shown of it is named by it. -/
theorem Shows.mem_named {r : Registration} {index : Nat} {pair : String × String}
    (h : r.Shows index pair) : pair ∈ r.named :=
  List.mem_of_getElem? h.namesLast.1

/-- Whether its operation is shown as it stands under an index. -/
def ShownAt (r : Registration) (index : Nat) : Prop := ∃ pair, r.Shows index pair

/-- Whether an id that was given is what another registration makes of its own for one of its later
paths, and the document shows both. -/
def Clashes (r other : Registration) : Prop :=
  ∃ id otherId index, r.givenId = some id ∧ other.givenId = some otherId ∧ index ≠ 0 ∧
    r.ShownAt 0 ∧ other.ShownAt index ∧ id = aliasId otherId index

variable {r : Registration} {binder : Option Binder} {made : Operation} {app : Application}

/-- The operation of a registration has the id that was given. -/
theorem Stands.operationId_eq (h : r.Stands binder made app) : made.operationId = r.givenId := by
  obtain ⟨before, after, hmade⟩ := h.described
  obtain ⟨_, _, _, _, _, _, rfl⟩ := Application.described_eq_ok hmade
  rfl

end Registration

namespace Application

variable {app : Application} {accepted : List Registration}

/-- The document shows an operation id exactly where a registration is shown that was given one: the
id under the index of the path. -/
theorem Holds.mem_operations_iff (h : app.Holds accepted) (htallies : app.Tallies)
    {pair : String × String} {id : String} :
    (∃ shown, (pair, shown) ∈ app.document.1.operations ∧ shown.operationId = some id) ↔
      ∃ r ∈ accepted, ∃ index given, r.Shows index pair ∧ r.givenId = some given ∧
        id = aliasId given index := by
  have hdistinct : app.document.1.paths.Distinct := htallies.document_eq.2 ▸ h.distinct
  simp only [Document.mem_operations hdistinct]
  constructor
  · rintro ⟨shown, ⟨hmethod, hshown⟩, hid⟩
    obtain ⟨r, hr, index, binder, made, hstands, hlast, rfl⟩ :=
      h.exists_of_operationAt? htallies hshown
    rw [operationId_underAlias, hstands.operationId_eq] at hid
    obtain ⟨given, hgiven, rfl⟩ := Option.map_eq_some_iff.mp hid
    exact ⟨r, hr, index, given, ⟨hlast, hmethod⟩, hgiven, rfl⟩
  · rintro ⟨r, hr, index, given, ⟨hlast, hmethod⟩, hgiven, rfl⟩
    obtain ⟨binder, made, hstands⟩ := h.stands r hr
    refine ⟨Assembler.underAlias made index, ⟨hmethod, ?_⟩, ?_⟩
    · rw [htallies.document_eq.2]
      exact hstands.recorded index pair.1 pair.2 hlast
    · rw [operationId_underAlias, hstands.operationId_eq, hgiven]
      rfl

/-- Different registrations have no method and template in common. -/
theorem Holds.disjoint (h : app.Holds accepted) {r s : Registration} (hr : r ∈ accepted)
    (hs : s ∈ accepted) (hne : r ≠ s) : r.named.Disjoint s.named := by
  have hsymm : Std.Symm fun r s : Registration => r.named.Disjoint s.named :=
    ⟨fun _ _ hdisjoint _ hs hr => hdisjoint hr hs⟩
  exact h.apart.forall hr hs hne

/-- Of registrations with distinct ids, operations in two places of the document share an id only
where two registrations clash. -/
theorem clashes_of_shared
    (hgiven : (accepted.filterMap Registration.givenId).Nodup) {r s : Registration}
    (hr : r ∈ accepted) (hs : s ∈ accepted) {index other : Nat} {pair otherPair : String × String}
    (hpair : r.Shows index pair) (hother : s.Shows other otherPair)
    (hne : pair ≠ otherPair) {given otherGiven : String} (hid : r.givenId = some given)
    (hid' : s.givenId = some otherGiven) (heq : aliasId given index = aliasId otherGiven other) :
    r.Clashes s ∨ s.Clashes r := by
  rcases aliasId_eq_cases heq with ⟨rfl, rfl⟩ | ⟨rfl, hpositive, rfl⟩ | ⟨rfl, hpositive, rfl⟩
  · have hsame : r = s := by
      by_contra hdifferent
      exact ne_of_nodup_filterMap hgiven hr hs hdifferent hid hid'
    subst hsame
    exact absurd (Option.some.inj (hpair.namesLast.1.symm.trans hother.namesLast.1)) hne
  · exact Or.inl ⟨_, _, other, hid, hid', hpositive, ⟨pair, hpair⟩, ⟨otherPair, hother⟩, rfl⟩
  · exact Or.inr ⟨_, _, index, hid', hid, hpositive, ⟨otherPair, hother⟩, ⟨pair, hpair⟩, rfl⟩

/-- Where the ids that were given are distinct, the ids of the document are distinct exactly when no
two registrations clash. -/
theorem Holds.nodup_operationIds_iff (h : app.Holds accepted) (htallies : app.Tallies)
    (hgiven : (accepted.filterMap Registration.givenId).Nodup) :
    app.document.1.operationIds.Nodup ↔ ∀ r ∈ accepted, ∀ s ∈ accepted, ¬r.Clashes s := by
  have hdistinct : app.document.1.paths.Distinct := htallies.document_eq.2 ▸ h.distinct
  constructor
  · rintro hnodup r hr s hs ⟨id, otherId, index, hid, hother, hpositive, ⟨pair, hpair⟩,
      ⟨otherPair, hotherPair⟩, rfl⟩
    obtain ⟨shown, hshown, hshownId⟩ := (h.mem_operations_iff htallies).mpr
      ⟨r, hr, 0, _, hpair, hid, rfl⟩
    obtain ⟨otherShown, hotherShown, hotherId⟩ := (h.mem_operations_iff htallies).mpr
      ⟨s, hs, index, otherId, hotherPair, hother, rfl⟩
    have hregistrations : r ≠ s := by
      rintro rfl
      obtain ⟨number, rfl⟩ := Nat.exists_eq_succ_of_ne_zero hpositive
      rw [hother] at hid
      exact aliasId_succ_ne otherId number (Option.some.inj hid).symm
    have hpairs : pair ≠ otherPair := by
      rintro rfl
      exact h.disjoint hr hs hregistrations hpair.mem_named hotherPair.mem_named
    refine ne_of_nodup_filterMap hnodup hshown hotherShown (fun heq => ?_) hshownId hotherId
    exact hpairs (Prod.mk.inj heq).1
  · intro hclear
    refine nodup_filterMap (Document.nodup_operations hdistinct) ?_
    rintro ⟨pair, shown⟩ hshown ⟨otherPair, otherShown⟩ hotherShown hne id hid hotherId
    have hpairs : pair ≠ otherPair := by
      rintro rfl
      have hsame := ((Document.mem_operations hdistinct).mp hshown).2.symm.trans
        ((Document.mem_operations hdistinct).mp hotherShown).2
      exact hne (congrArg _ (Option.some.inj hsame))
    obtain ⟨r, hr, index, given, hpair, hr', rfl⟩ :=
      (h.mem_operations_iff htallies).mp ⟨shown, hshown, hid⟩
    obtain ⟨s, hs, other, otherGiven, hother, hs', heq⟩ :=
      (h.mem_operations_iff htallies).mp ⟨otherShown, hotherShown, hotherId⟩
    obtain hclash | hclash :=
      clashes_of_shared hgiven hr hs hpair hother hpairs hr' hs' heq
    · exact hclear r hr s hs hclash
    · exact hclear s hs r hr hclash

/-- Whatever was registered before, accepted or refused, the operation ids of the document that is
given then are those that were given, each with the number of the path behind it from the second
path on. If the ids of all accepted registrations are distinct, so are the ids of the document,
unless an id that was given is what another registration makes of its own for one of its later
paths. -/
theorem operationIds_afterHistory (settings : Settings) (history : List (Classes × Action)) :
    let d := ((ofSettings settings).afterHistory history).document.1
    let accepted := (ofSettings settings).registeredIn history
    (∀ id, id ∈ d.operationIds ↔ ∃ r ∈ accepted, ∃ index given,
      r.ShownAt index ∧ r.givenId = some given ∧ id = aliasId given index) ∧
    ((accepted.filterMap Registration.givenId).Nodup →
      (d.operationIds.Nodup ↔ ∀ r ∈ accepted, ∀ s ∈ accepted, ¬r.Clashes s)) := by
  intro d accepted
  have htallies := (tallies_ofSettings settings).afterHistory history
  have hholds := holds_afterHistory settings history
  refine ⟨fun id => ?_, hholds.nodup_operationIds_iff htallies⟩
  rw [Document.operationIds, List.mem_filterMap]
  constructor
  · rintro ⟨⟨pair, shown⟩, hshown, hid⟩
    obtain ⟨r, hr, index, given, hpair, hgiven, heq⟩ :=
      (hholds.mem_operations_iff htallies).mp ⟨shown, hshown, hid⟩
    exact ⟨r, hr, index, given, ⟨pair, hpair⟩, hgiven, heq⟩
  · rintro ⟨r, hr, index, given, ⟨pair, hpair⟩, hgiven, heq⟩
    obtain ⟨shown, hshown, hid⟩ := (hholds.mem_operations_iff htallies).mpr
      ⟨r, hr, index, given, hpair, hgiven, heq⟩
    exact ⟨(pair, shown), hshown, hid⟩

/-- A route under two paths with an operation id. -/
def underBoth : RouteDescription where
  method := "get"
  path := .several ["/a", "/b"]
  operation := { operationId := some "x" }
  handler := fun _ _ => .ok .null

/-- A route with the id that the other one has under its second path. -/
def likeSecond : RouteDescription where
  method := "get"
  path := .one "/c"
  operation := { operationId := some "x_2" }
  handler := fun _ _ => .ok .null

/-- Both ids were given once, and one of them stands twice in the document. -/
theorem operationIds_afterHistory_clash :
    let history : List (Classes × Action) :=
      [({}, .register {} underBoth), ({}, .register {} likeSecond)]
    let accepted := (ofSettings {}).registeredIn history
    (accepted.filterMap Registration.givenId).Nodup ∧
      "x_2" ∈ ((ofSettings {}).afterHistory history).document.1.operationIds ∧
      ¬((ofSettings {}).afterHistory history).document.1.operationIds.Nodup := by
  intro history accepted
  have hgiven : (accepted.filterMap Registration.givenId).Nodup := by
    have hids : accepted.filterMap Registration.givenId = ["x", "x_2"] := rfl
    rw [hids]
    decide
  have hfirst : (Registration.mk {} {} likeSecond).ShownAt 0 :=
    ⟨("get", "/c"), ⟨rfl, by decide⟩, by decide⟩
  have hsecond : (Registration.mk {} {} underBoth).ShownAt 1 :=
    ⟨("get", "/b"), ⟨rfl, by decide⟩, by decide⟩
  have hunder : Registration.mk {} {} underBoth ∈ accepted := List.mem_cons_self
  have hlike : Registration.mk {} {} likeSecond ∈ accepted :=
    List.mem_cons_of_mem _ List.mem_cons_self
  obtain ⟨hmem, hnodup⟩ := operationIds_afterHistory {} history
  refine ⟨hgiven, (hmem "x_2").mpr ⟨_, hlike, 0, "x_2", hfirst, rfl, rfl⟩, fun hdistinct => ?_⟩
  refine (hnodup hgiven).mp hdistinct _ hlike _ hunder ⟨"x_2", "x", 1, rfl, rfl, by decide, ?_⟩
  exact ⟨hfirst, hsecond, rfl⟩

end Application

end HttpContract
