import HttpContract.Binding.Binder
import HttpContract.Proofs.Records

/-!
# Gathering values for constructors

Readers of bodies and binders of parameters both go through the fields of a shape and give the
constructor a value for each: the one that was sent, null, or nothing where there is a default.
What they gather covers the shape, so that the constructor can take it.
-/

namespace HttpContract

variable {J : Judgement}

/-- Whether values are given to a field alone, and one is given unless there is a default. -/
def Field.Given (f : Field) (own : List (String × Value)) : Prop :=
  (∀ p ∈ own, f.initName = p.1) ∧ (f.default.isSome = true ∨ f.initName ∈ Table.keys own)

/-- A field is given one value under its name. -/
theorem Field.given_single (f : Field) (v : Value) : f.Given [(f.initName, v)] := by
  simp [Given, Table.keys]

/-- What is given to a field that has no value: nothing, null, or the failure that it is missing. -/
def Field.absent (f : Field) (label : String) : Except Failure (List (String × Value)) :=
  if f.default.isSome then .ok []
  else if f.nullable then .ok [(f.initName, .null)]
  else .error (.binding (.missing label))

/-- A field without a value is missing when it has no default and may not be null. -/
theorem Field.absent_eq_error_iff {f : Field} {label : String} {e : Failure} :
    f.absent label = .error e ↔ f.required = true ∧ e = .binding (.missing label) := by
  unfold absent required
  cases f.default <;> cases f.nullable <;> simp [eq_comm]

/-- That a field is missing is the client's failure. -/
theorem Field.not_crashes_absent (f : Field) (label : String) : ¬J.Crashes (f.absent label) := by
  rintro ⟨e, h, he⟩
  obtain ⟨_, rfl⟩ := absent_eq_error_iff.mp h
  simp at he

/-- A field without a value has its default or is given null. -/
theorem Field.given_of_absent {f : Field} {label : String} {own : List (String × Value)}
    (h : f.absent label = .ok own) : f.Given own := by
  unfold absent at h
  split at h
  · rename_i hdefault
    cases h
    exact ⟨by simp, Or.inl hdefault⟩
  · split at h
    · cases h
      exact f.given_single .null
    · cases h

section Gather

variable {α : Type} {part : α → Except Failure (List (String × Value))} {xs : List α}
  {given : List (String × Value)}

/-- What several things give, one after the other. -/
def gather (part : α → Except Failure (List (String × Value))) :
    List α → Except Failure (List (String × Value))
  | [] => .ok []
  | x :: rest => part x >>= fun own => (gather part rest).map (own ++ ·)

/-- Gathering fails at the first thing that does, those in front having given their values. -/
theorem gather_eq_error_iff {e : Failure} :
    gather part xs = .error e ↔ ∃ front x behind given, xs = front ++ x :: behind ∧
      gather part front = .ok given ∧ part x = .error e := by
  induction xs with
  | nil => simp [gather]
  | cons x rest ih =>
    rw [gather, bind_eq_error_iff]
    constructor
    · rintro (hx | ⟨own, hown, hrest⟩)
      · exact ⟨[], x, rest, [], rfl, rfl, hx⟩
      · obtain ⟨front, y, behind, others, rfl, hfront, hy⟩ := ih.mp (map_eq_error_iff.mp hrest)
        refine ⟨x :: front, y, behind, own ++ others, rfl, ?_, hy⟩
        rw [gather, hown, hfront]
        rfl
    · rintro ⟨front, y, behind, given, heq, hfront, hy⟩
      cases front with
      | nil =>
        cases heq
        exact Or.inl hy
      | cons first front =>
        cases heq
        obtain ⟨own, hown, hfront⟩ := bind_eq_ok_iff.mp hfront
        obtain ⟨others, hothers, _⟩ := map_eq_ok_iff.mp hfront
        exact Or.inr ⟨own, hown, map_eq_error_iff.mpr
          (ih.mpr ⟨front, y, behind, others, rfl, hothers, hy⟩)⟩

/-- Gathering fails with refusals when every part of it does. -/
theorem OnlyRefuses.gather {constraints : List Constraint}
    (hpart : ∀ x ∈ xs, OnlyRefuses constraints (part x)) :
    OnlyRefuses constraints (HttpContract.gather part xs) := by
  intro e he
  obtain ⟨front, x, behind, _, rfl, _, hx⟩ := gather_eq_error_iff.mp he
  exact hpart x (List.mem_append_right _ List.mem_cons_self) e hx

/-- What is gathered is what one of the things gives. -/
theorem exists_part_of_mem_gather (h : gather part xs = .ok given) {p : String × Value}
    (hp : p ∈ given) : ∃ x ∈ xs, ∃ own, part x = .ok own ∧ p ∈ own := by
  induction xs generalizing given with
  | nil =>
    cases h
    cases hp
  | cons x rest ih =>
    obtain ⟨own, hown, h⟩ := bind_eq_ok_iff.mp h
    obtain ⟨others, hothers, rfl⟩ := map_eq_ok_iff.mp h
    rcases List.mem_append.mp hp with hp | hp
    · exact ⟨x, List.mem_cons_self, own, hown, hp⟩
    · obtain ⟨y, hy, hmade⟩ := ih hothers hp
      exact ⟨y, List.mem_cons_of_mem _ hy, hmade⟩

/-- What is gathered is given to one of the fields. -/
theorem exists_of_mem_gather {field : α → Field}
    (hpart : ∀ x own, part x = .ok own → (field x).Given own) (h : gather part xs = .ok given)
    {p : String × Value} (hp : p ∈ given) : ∃ x ∈ xs, (field x).initName = p.1 := by
  obtain ⟨x, hx, own, hown, hmem⟩ := exists_part_of_mem_gather h hp
  exact ⟨x, hx, (hpart x own hown).1 p hmem⟩

/-- What is gathered for the fields of a shape covers the shape. -/
theorem covers_gather {shape : Shape} {field : α → Field} (hfields : xs.map field = shape.fields)
    (hpart : ∀ x own, part x = .ok own → (field x).Given own) (h : gather part xs = .ok given) :
    shape.Covers given := by
  have hcomplete : ∀ x ∈ xs,
      (field x).default.isSome = true ∨ (field x).initName ∈ Table.keys given := by
    clear hfields
    induction xs generalizing given with
    | nil => simp
    | cons x rest ih =>
      obtain ⟨own, hown, h⟩ := bind_eq_ok_iff.mp h
      obtain ⟨others, hothers, rfl⟩ := map_eq_ok_iff.mp h
      intro y hy
      rw [Table.keys, List.map_append]
      rcases List.mem_cons.mp hy with rfl | hy
      · exact (hpart y own hown).2.imp_right (List.mem_append_left _)
      · exact (ih hothers y hy).imp_right (List.mem_append_right _)
  refine ⟨fun p hp => ?_, fun f hf => ?_⟩
  · obtain ⟨x, hx, hname⟩ := exists_of_mem_gather hpart h hp
    exact ⟨field x, hfields ▸ List.mem_map_of_mem hx, hname⟩
  · rw [← hfields] at hf
    obtain ⟨x, hx, rfl⟩ := List.mem_map.mp hf
    exact hcomplete x hx

/-- With distinct names for the constructor each field is given just what was gathered for it. -/
theorem get?_gather {field : α → Field} (hnames : (xs.map fun x => (field x).initName).Nodup)
    (hpart : ∀ x own, part x = .ok own → (field x).Given own) (h : gather part xs = .ok given)
    {x : α} (hx : x ∈ xs) : ∃ own, part x = .ok own ∧
      Table.get? (field x).initName given = Table.get? (field x).initName own := by
  induction xs generalizing given with
  | nil => cases hx
  | cons first rest ih =>
    rw [List.map_cons, List.nodup_cons] at hnames
    obtain ⟨own, hown, h⟩ := bind_eq_ok_iff.mp h
    obtain ⟨others, hothers, rfl⟩ := map_eq_ok_iff.mp h
    rw [Table.get?_append]
    rcases List.mem_cons.mp hx with rfl | hx
    · have hbehind : Table.get? (field x).initName others = none := by
        rw [Table.get?_eq_none_iff]
        intro hkey
        obtain ⟨p, hp, hname⟩ := List.mem_map.mp hkey
        obtain ⟨y, hy, hsame⟩ := exists_of_mem_gather hpart hothers hp
        exact hnames.1 (List.mem_map.mpr ⟨y, hy, hsame.trans hname⟩)
      exact ⟨own, hown, by rw [hbehind, Option.or_none]⟩
    · obtain ⟨mine, hmine, hget⟩ := ih hnames.2 hothers hx
      have hfront : Table.get? (field x).initName own = none := by
        rw [Table.get?_eq_none_iff]
        intro hkey
        obtain ⟨p, hp, hname⟩ := List.mem_map.mp hkey
        have hsame := (hpart first own hown).1 p hp
        exact hnames.1 (List.mem_map.mpr ⟨x, hx, (hsame.trans hname).symm⟩)
      exact ⟨mine, hmine, by rw [hfront, Option.none_or, hget]⟩

/-- With distinct names for the constructor no name is given two values. -/
theorem distinct_gather {field : α → Field} (hnames : (xs.map fun x => (field x).initName).Nodup)
    (hpart : ∀ x own, part x = .ok own → (field x).Given own ∧ Table.Distinct own)
    (h : gather part xs = .ok given) : Table.Distinct given := by
  induction xs generalizing given with
  | nil =>
    cases h
    exact List.nodup_nil
  | cons x rest ih =>
    rw [List.map_cons, List.nodup_cons] at hnames
    obtain ⟨own, hown, h⟩ := bind_eq_ok_iff.mp h
    obtain ⟨others, hothers, rfl⟩ := map_eq_ok_iff.mp h
    obtain ⟨hmine, hdistinct⟩ := hpart x own hown
    rw [Table.Distinct, Table.keys, List.map_append, List.nodup_append]
    refine ⟨hdistinct, ih hnames.2 hothers, ?_⟩
    rintro key hkey _ hother rfl
    obtain ⟨p, hp, rfl⟩ := List.mem_map.mp hkey
    obtain ⟨q, hq, hname⟩ := List.mem_map.mp hother
    obtain ⟨y, hy, hsame⟩ :=
      exists_of_mem_gather (fun x own h => (hpart x own h).1) hothers hq
    exact hnames.1 (List.mem_map.mpr ⟨y, hy, by rw [hsame, hname, hmine.1 p hp]⟩)

/-- Where everything gives something all of it is gathered. -/
theorem exists_gather (h : ∀ x ∈ xs, ∃ own, part x = .ok own) :
    ∃ given, gather part xs = .ok given := by
  induction xs with
  | nil => exact ⟨[], rfl⟩
  | cons x rest ih =>
    obtain ⟨own, hown⟩ := h x List.mem_cons_self
    obtain ⟨others, hothers⟩ := ih fun y hy => h y (List.mem_cons_of_mem _ hy)
    exact ⟨own ++ others, by rw [gather, hown, hothers]; rfl⟩

/-- Things that give the same are gathered alike. -/
theorem gather_congr {other : α → Except Failure (List (String × Value))}
    (h : ∀ x ∈ xs, other x = part x) : gather other xs = gather part xs := by
  induction xs with
  | nil => rfl
  | cons x rest ih =>
    rw [gather, gather, h x List.mem_cons_self, ih fun y hy => h y (List.mem_cons_of_mem _ hy)]

/-- Where one thing gave nothing, what it gives instead is put in between the others. -/
theorem exists_gather_instead {other : α → Except Failure (List (String × Value))}
    (hnodup : xs.Nodup) {x : α} (hx : x ∈ xs) (hnothing : part x = .ok [])
    (hothers : ∀ y ∈ xs, y ≠ x → other y = part y) (h : gather part xs = .ok given) :
    ∃ front behind, given = front ++ behind ∧
      gather other xs = (other x).map fun own => front ++ own ++ behind := by
  induction xs generalizing given with
  | nil => cases hx
  | cons first rest ih =>
    obtain ⟨hfirst, hrest⟩ := List.nodup_cons.mp hnodup
    obtain ⟨own, hown, h⟩ := bind_eq_ok_iff.mp h
    obtain ⟨others, hgathered, rfl⟩ := map_eq_ok_iff.mp h
    rcases List.mem_cons.mp hx with rfl | hx
    · obtain rfl : own = [] := Except.ok.inj (hown.symm.trans hnothing)
      have hsame : gather other rest = .ok others := by
        rw [← hgathered]
        exact gather_congr fun y hy =>
          hothers y (List.mem_cons_of_mem _ hy) fun heq => hfirst (heq ▸ hy)
      refine ⟨[], others, rfl, ?_⟩
      rw [gather, hsame]
      cases other x <;> rfl
    · have hne : first ≠ x := fun heq => hfirst (heq ▸ hx)
      obtain ⟨front, behind, rfl, hmade⟩ :=
        ih hrest hx (fun y hy => hothers y (List.mem_cons_of_mem _ hy)) hgathered
      refine ⟨own ++ front, behind, by rw [List.append_assoc], ?_⟩
      rw [gather, hothers first List.mem_cons_self hne, hown, hmade]
      cases other x <;> simp [bind, Except.bind, Except.map]

/-- Gathering fails as the only thing does that gives nothing. -/
theorem gather_eq_error {e : Failure} {x : α} (hx : x ∈ xs) (hfail : part x = .error e)
    (hothers : ∀ y ∈ xs, y ≠ x → ∃ own, part y = .ok own) : gather part xs = .error e := by
  obtain ⟨front, behind, rfl, hfirst⟩ := List.eq_append_cons_of_mem hx
  have hfront : ∀ y ∈ front, ∃ own, part y = .ok own := fun y hy =>
    hothers y (List.mem_append_left _ hy) fun heq => hfirst (heq ▸ hy)
  obtain ⟨given, hgiven⟩ := exists_gather hfront
  exact gather_eq_error_iff.mpr ⟨front, x, behind, given, rfl, hgiven, hfail⟩

end Gather

namespace Body

/-- What one field gives to the constructor: the value of its member, if there is one. -/
def readField (path : String) (readers : Table String ValueReader) (f : Field) :
    Except Failure (List (String × Value)) :=
  match Table.get? f.wireName readers with
  | some reader =>
    (reader f.type (memberPath path f.wireName) []).map fun v => [(f.initName, v)]
  | none => f.absent (memberPath path f.wireName)

/-- The fields of a record's body are gathered one by one. -/
theorem readFields_eq_gather (path : String) (readers : Table String ValueReader)
    (fields : List Field) :
    readFields path readers fields = gather (readField path readers) fields := by
  induction fields with
  | nil => rfl
  | cons f rest ih =>
    rw [readFields, gather, readField, ih]
    cases hmember : Table.get? f.wireName readers with
    | some reader =>
      cases hread : reader f.type (memberPath path f.wireName) [] with
      | error e => simp [hread, bind, Except.bind, Except.map]
      | ok v =>
        cases gather (readField path readers) rest <;>
          simp [hread, bind, Except.bind, Except.map, pure, Except.pure]
    | none =>
      by_cases hdefault : f.default.isSome = true
      · cases gather (readField path readers) rest <;>
          simp [Field.absent, hdefault, bind, Except.bind, Except.map]
      · by_cases hnullable : f.nullable = true
        · cases gather (readField path readers) rest <;>
            simp [Field.absent, hdefault, hnullable, bind, Except.bind, Except.map, pure,
              Except.pure]
        · simp [Field.absent, hdefault, hnullable, bind, Except.bind]

/-- A field of a body is given what its member is read as. -/
theorem given_readField {path : String} {readers : Table String ValueReader} (f : Field)
    (own : List (String × Value)) (h : readField path readers f = .ok own) : f.Given own := by
  unfold readField at h
  split at h
  · obtain ⟨v, _, rfl⟩ := map_eq_ok_iff.mp h
    exact f.given_single v
  · exact Field.given_of_absent h

end Body

namespace Binding

variable {P : Type}

/-- What one bound field gives to the constructor: the value that is built for it, if there is
one. -/
def collectField (build : BoundField P → Except Failure (Option Value)) (bound : BoundField P) :
    Except Failure (List (String × Value)) :=
  build bound >>= fun
    | some v => .ok [(bound.field.initName, v)]
    | none => bound.field.absent bound.field.wireName

/-- The fields of a parameter record are gathered one by one. -/
theorem collect_eq_gather (build : BoundField P → Except Failure (Option Value))
    (bounds : List (BoundField P)) : collect build bounds = gather (collectField build) bounds := by
  induction bounds with
  | nil => rfl
  | cons bound rest ih =>
    rw [collect, gather, collectField, ih]
    cases build bound with
    | error e => rfl
    | ok made =>
      cases made with
      | some v =>
        cases gather (collectField build) rest <;> rfl
      | none =>
        by_cases hdefault : bound.field.default.isSome = true
        · cases gather (collectField build) rest <;>
            simp [Field.absent, hdefault, bind, Except.bind, Except.map]
        · by_cases hnullable : bound.field.nullable = true
          · cases gather (collectField build) rest <;>
              simp [Field.absent, hdefault, hnullable, bind, Except.bind, Except.map, pure,
                Except.pure]
          · simp [Field.absent, hdefault, hnullable, bind, Except.bind, throw, throwThe,
              MonadExceptOf.throw]

/-- The same is gathered when the same is built for every field. -/
theorem collect_congr {build other : BoundField P → Except Failure (Option Value)}
    {bounds : List (BoundField P)} (h : ∀ bound ∈ bounds, build bound = other bound) :
    collect build bounds = collect other bounds := by
  rw [collect_eq_gather, collect_eq_gather]
  exact gather_congr fun bound hbound => by rw [collectField, collectField, h bound hbound]

/-- A bound field is given what is built for it. -/
theorem given_collectField {build : BoundField P → Except Failure (Option Value)}
    (bound : BoundField P) (own : List (String × Value))
    (h : collectField build bound = .ok own) : bound.field.Given own := by
  obtain ⟨made, _, h⟩ := bind_eq_ok_iff.mp h
  cases made with
  | some v =>
    cases h
    exact bound.field.given_single v
  | none => exact Field.given_of_absent h

end Binding

end HttpContract
