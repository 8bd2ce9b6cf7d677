import HttpContract.Proofs.Agreement
import HttpContract.Proofs.Influence

/-!
# Records in the query

A record that is a parameter of the query is sent under keys in brackets behind the parameter's
name. It has a parser of its own, which is made by other rules than the binder of a record that is
sent under flat keys. Where the fields are marked alike, both make the same of the same texts.
-/

namespace HttpContract

namespace ObjectParser

/-- The entries that send the texts of a record's fields under keys in brackets behind a name. -/
def nestedIn (name : String) (inner : RawValues) : RawValues :=
  inner.map fun entry => (keyIn name entry.1, entry.2)

variable {name : String} {inner others query : RawValues}

/-- What is sent under keys in brackets is read under the keys themselves. -/
theorem entries_nestedIn (name : String) (inner : RawValues) :
    entries name (nestedIn name inner) = inner := by
  rw [entries_eq, nestedIn, List.filterMap_map]
  refine (List.filterMap_congr fun entry _ => ?_).trans List.filterMap_some
  rw [Function.comp_apply, bracketed?_eq_some_iff.mpr rfl]
  rfl

/-- What is sent under other keys is not read. -/
theorem entries_eq_nil (hothers : ∀ entry ∈ others, bracketed? name entry.1 = none) :
    entries name others = [] := by
  rw [entries_eq, List.filterMap_eq_nil_iff]
  intro entry hentry
  rw [hothers entry hentry]
  rfl

/-- Of a query that sends a record's texts among others just these are read, in whatever order they
come. -/
theorem entries_perm (hothers : ∀ entry ∈ others, bracketed? name entry.1 = none)
    (hquery : query.Perm (nestedIn name inner ++ others)) : (entries name query).Perm inner := by
  have hread := hquery.filterMap fun entry => (bracketed? name entry.1).map (·, entry.2)
  rw [List.filterMap_append, ← entries_eq, ← entries_eq, ← entries_eq, entries_nestedIn,
    entries_eq_nil hothers, List.append_nil] at hread
  exact hread

/-- A parser makes a record of its entries when there are any. -/
theorem build_of_entries {C : Classes} {p : ObjectParser} (hsome : entries name query ≠ []) :
    p.build C name query = (p.bindValues C (entries name query)).map some := by
  unfold build
  split
  · rename_i hnone
    exact absurd hnone hsome
  · rfl

end ObjectParser

/-- A field of a nested record bound on its own: by the same parser, under the same key. -/
def BoundField.flat (bound : BoundField FlatParser) : BoundField ParameterParser :=
  ⟨bound.field, .flat bound.parser, bound.location, bound.key⟩

/-- Whether all fields of a shape are marked as parameters of the query, and empty texts are treated
alike in all of them. -/
def Shape.FromQuery (s : Shape) (allowEmpty : Bool) : Prop :=
  ∀ f ∈ s.fields, ∃ note, f.parameter = some note ∧ note.location = .query ∧
    note.allowEmpty = allowEmpty

namespace Classes

variable {C : Classes} {className : String} {allowEmpty : Bool}

/-- A field that is bound within a nested record is bound alike on its own, when it is marked like
the record. -/
theorem boundField_of_boundNested {f : Field} {bound : BoundField FlatParser} {note : ParameterNote}
    (hbound : boundNested .query allowEmpty f = .ok bound) (hnote : f.parameter = some note)
    (hlocation : note.location = .query) (hempty : note.allowEmpty = allowEmpty) :
    C.boundField className f = .ok bound.flat := by
  obtain ⟨hfield, hparser, hat, hkey⟩ := boundNested_eq_ok hbound
  have hparameter : C.parameterParser f .query allowEmpty = .ok (.flat bound.parser) := by
    unfold parameterParser
    rw [hparser]
  unfold boundField
  rw [hnote]
  dsimp only
  rw [hlocation, hempty, hparameter, BoundField.flat, hfield, hat, hkey]
  rfl

/-- The binder of a record whose fields are marked like the nested record has the fields of the
nested record's parser. -/
theorem binder_of_nestedBinder {p : ObjectParser}
    (hp : C.nestedBinder className .query allowEmpty = .ok p)
    (hmarked : p.shape.FromQuery allowEmpty) :
    C.binder className = .ok ⟨p.shape, p.fields.map BoundField.flat⟩ := by
  obtain ⟨hshape, hbounds, _⟩ := nestedBinder_eq_ok hp
  have hflat : p.shape.fields.mapM (C.boundField className) =
      .ok (p.fields.map BoundField.flat) := by
    refine mapM_eq_ok_map hbounds fun f hf bound hbound => ?_
    obtain ⟨note, hnote, hlocation, hempty⟩ := hmarked f hf
    exact boundField_of_boundNested hbound hnote hlocation hempty
  exact bind_eq_ok_iff.mpr ⟨p.shape, hshape, bind_eq_ok_iff.mpr ⟨_, hflat, rfl⟩⟩

end Classes

namespace Binding

variable {C : Classes}

/-- The same is collected for the fields of a nested record and for these fields on their own, when
the texts under their keys are the same. -/
theorem collect_flat {bounds : List (BoundField FlatParser)} {raw query : RawValues}
    (hquery : ∀ bound ∈ bounds, bound.location = .query)
    (hsame : ∀ key, Table.get? key raw = Table.get? key query) :
    collect (fun bound => bound.parser.build C bound.key raw) bounds =
      collect (fun bound => bound.parser.build C bound.key
        (({ query := query } : RawRequest).at? bound.location)) (bounds.map BoundField.flat) := by
  rw [collect_eq_gather, collect_eq_gather, gather_map]
  refine gather_congr fun bound hbound => ?_
  have hbuild : bound.flat.parser.build C bound.flat.key
      (({ query := query } : RawRequest).at? bound.flat.location) =
        bound.parser.build C bound.key raw := by
    rw [BoundField.flat, hquery bound hbound]
    exact bound.parser.build_congr (hsame bound.key).symm
  rw [collectField, collectField, hbuild]
  rfl

end Binding

/-- A record in the query is bound as on its own. Take any record that may be nested in a parameter
of the query, all of whose fields are marked as parameters of the query that treat empty texts as
this parameter does, and any texts under distinct keys, at least one. Then the record has a binder,
and whatever the name of the parameter is: from a query that sends these texts under keys in
brackets behind the name, in any order and among any other keys, the parameter is made just what the
binder makes of the texts under the keys themselves, be it a record or a failure. -/
theorem ObjectParser.build_eq_bind {C : Classes} {className : String} {allowEmpty : Bool}
    {p : ObjectParser} (hp : C.nestedBinder className .query allowEmpty = .ok p)
    (hmarked : p.shape.FromQuery allowEmpty) :
    ∃ b, C.binder className = .ok b ∧ ∀ (name : String) (inner others query : RawValues),
      inner ≠ [] → Table.Distinct inner →
      (∀ entry ∈ others, bracketed? name entry.1 = none) →
      query.Perm (nestedIn name inner ++ others) →
        p.build C name query = (b.bind C { query := inner }).map some := by
  refine ⟨_, Classes.binder_of_nestedBinder hp hmarked, ?_⟩
  intro name inner others query hsome hdistinct hothers hquery
  have hread : (entries name query).Perm inner := entries_perm hothers hquery
  have hentries : entries name query ≠ [] := by
    intro hnone
    rw [hnone] at hread
    exact hsome hread.symm.eq_nil
  have hsame (key : String) : Table.get? key (entries name query) = Table.get? key inner :=
    (Table.get?_of_perm hdistinct hread.symm key).symm
  have hlocation : ∀ bound ∈ p.fields, bound.location = .query := by
    intro bound hbound
    obtain ⟨_, hbounds, _⟩ := Classes.nestedBinder_eq_ok hp
    obtain ⟨f, _, hmade⟩ := exists_of_mem_mapM hbounds hbound
    exact (Classes.boundNested_eq_ok hmade).2.2.1
  rw [build_of_entries hentries, bindValues, Binding.collect_flat hlocation hsame]
  rfl

/-- A record of parameters whose names hold brackets themselves. -/
def Classes.brackets : Classes :=
  let query : Note := .parameter { location := .query }
  ({} : Classes).define
    { name := "Filter", body := .record false,
      fields := [
        { name := "status", default := .required, hint := .annotated (.builtin .text) [query] },
        { name := "ids", default := .required,
          hint := .annotated (.collection .list (.builtin .integer)) [query, .wireName "ids[]"] }] }

/-- The texts come in another order, and among keys that only begin or only end like theirs. -/
theorem ObjectParser.build_eq_bind_brackets :
    let inner : RawValues := [("ids[]", ["7", "8"]), ("status", ["open"])]
    let query : RawValues :=
      [("filter[status]", ["open"]), ("filter[status", ["closed"]), ("filter[ids[]]", ["7", "8"]),
        ("status]", ["none"])]
    let made : Value := .record "Filter" [("status", .text "open"), ("ids", .list [.int 7, .int 8])]
    ∃ p b, Classes.brackets.nestedBinder "Filter" .query false = .ok p ∧
      p.shape.FromQuery false ∧ Classes.brackets.binder "Filter" = .ok b ∧
      b.bind Classes.brackets { query := inner } = .ok made ∧
      p.build Classes.brackets "filter" query = .ok (some made) := by
  intro inner query made
  let note : ParameterNote := { location := .query }
  have hmade : ∃ p status ids, Classes.brackets.nestedBinder "Filter" .query false = .ok p ∧
      p.shape.fields = [status, ids] ∧ status.parameter = some note ∧ ids.parameter = some note ∧
      p.build Classes.brackets "filter" query = .ok (some made) :=
    ⟨_, _, _, rfl, rfl, rfl, rfl, rfl⟩
  obtain ⟨p, status, ids, hp, hfields, hstatus, hids, hbuilt⟩ := hmade
  have hmarked : p.shape.FromQuery false := by
    intro f hf
    rw [hfields, List.mem_cons, List.mem_singleton] at hf
    obtain rfl | rfl := hf
    · exact ⟨note, hstatus, rfl, rfl⟩
    · exact ⟨note, hids, rfl, rfl⟩
  obtain ⟨b, hb, hbind⟩ := build_eq_bind hp hmarked
  have hsame := hbind "filter" inner [("filter[status", ["closed"]), ("status]", ["none"])] query
    (by simp [inner]) (show ["ids[]", "status"].Nodup by decide) (by decide) (by decide)
  rw [hbuilt] at hsame
  obtain ⟨v, hv, hsome⟩ := map_eq_ok_iff.mp hsame.symm
  obtain rfl : v = made := Option.some.inj hsome
  exact ⟨p, b, hp, hmarked, hb, hv, hbuilt⟩

end HttpContract
