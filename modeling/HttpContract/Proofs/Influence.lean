import Mathlib.Logic.Relation
import HttpContract.Binding.Binder
import HttpContract.Proofs.Gathering

/-!
# What a binder reads

A binder reads a value of its own key for every field, and for a field that is a record itself the
values under all keys of the form `name[key]`. Headers are read after their names are put in lower
case and the values of equal names are put together. Requests that agree in what is read are bound
alike, to the same record or with the same failure.
-/

namespace HttpContract

namespace ObjectParser

/-- The key of a field of a record that is read under a name. -/
def keyIn (name key : String) : String := name ++ "[" ++ key ++ "]"

/-- The key in brackets behind a name, if a key has this form. -/
def bracketed? (name key : String) : Option String :=
  let opening := name.toList ++ ['[']
  let cs := key.toList
  if opening.isPrefixOf cs && cs.getLast? == some ']' then
    some (String.ofList (cs.drop opening.length).dropLast)
  else none

/-- The entries of a record are those under keys in brackets behind its name. -/
theorem entries_eq (name : String) (raw : RawValues) :
    entries name raw = raw.filterMap fun entry => (bracketed? name entry.1).map (·, entry.2) := by
  refine congrArg (List.filterMap · raw) (funext fun entry => ?_)
  unfold bracketed?
  dsimp only
  split <;> rfl

/-- A key has another one in brackets behind a name when it is put together of the two. -/
theorem bracketed?_eq_some_iff {name key inner : String} :
    bracketed? name key = some inner ↔ key = keyIn name inner := by
  have hchars : (keyIn name inner).toList = name.toList ++ ['['] ++ (inner.toList ++ [']']) := by
    simp [keyIn]
  unfold bracketed?
  dsimp only
  constructor
  · intro h
    split at h
    · rename_i hform
      rw [Bool.and_eq_true, beq_iff_eq, List.isPrefixOf_iff_prefix] at hform
      obtain ⟨⟨rest, hrest⟩, hlast⟩ := hform
      rw [← hrest, List.drop_left] at h
      -- The last character is no opening bracket, so it stands behind the opening one.
      have hbehind : rest.getLast? = some ']' := by
        rw [← hrest, List.getLast?_append] at hlast
        cases hend : rest.getLast? with
        | some c =>
          rw [hend, Option.some_or] at hlast
          exact hlast
        | none =>
          rw [hend] at hlast
          simp at hlast
      rw [← String.toList_inj, hchars, ← hrest, ← Option.some.inj h, String.toList_ofList,
        List.dropLast_append_getLast? _ hbehind]
    · cases h
  · rintro rfl
    rw [hchars, List.drop_left, List.dropLast_concat, String.ofList_toList, if_pos]
    rw [Bool.and_eq_true, beq_iff_eq, List.isPrefixOf_iff_prefix]
    exact ⟨List.prefix_append _ _, by rw [← List.append_assoc, List.getLast?_concat]⟩

/-- A record has under a key what the request has under this key in brackets behind its name. -/
theorem get?_entries (name inner : String) (raw : RawValues) :
    Table.get? inner (entries name raw) = Table.get? (keyIn name inner) raw := by
  rw [entries_eq]
  induction raw with
  | nil => rfl
  | cons entry rest ih =>
    obtain ⟨key, texts⟩ := entry
    rw [List.filterMap_cons, Table.get?]
    cases hkey : bracketed? name key with
    | none =>
      have hne : key ≠ keyIn name inner := fun heq => by
        rw [bracketed?_eq_some_iff.mpr heq] at hkey
        cases hkey
      rw [if_neg hne]
      exact ih
    | some own =>
      have hiff : own = inner ↔ key = keyIn name inner := by
        rw [← bracketed?_eq_some_iff, hkey, Option.some_inj]
      dsimp only [Option.map_some]
      rw [Table.get?, ih]
      exact if_congr hiff rfl rfl

end ObjectParser

section Building

variable {C : Classes} {name : String} {raw other : RawValues}

/-- A parser of texts makes the same of requests that agree about its name. -/
theorem FlatParser.build_congr (p : FlatParser) (h : Table.get? name raw = Table.get? name other) :
    p.build C name raw = p.build C name other := by
  rw [build, build, RawValues.get?, RawValues.get?, h]

/-- A parser of a record makes the same of requests that agree about all keys in brackets behind its
name. -/
theorem ObjectParser.build_congr (p : ObjectParser)
    (h : ∀ inner, Table.get? (keyIn name inner) raw = Table.get? (keyIn name inner) other) :
    p.build C name raw = p.build C name other := by
  have hentries (inner : String) :
      Table.get? inner (entries name raw) = Table.get? inner (entries name other) := by
    rw [get?_entries, get?_entries, h]
  have hvalues : p.bindValues C (entries name raw) = p.bindValues C (entries name other) := by
    rw [bindValues, bindValues,
      Binding.collect_congr fun bound _ => bound.parser.build_congr (hentries bound.key)]
  have hempty : entries name raw = [] ↔ entries name other = [] := by
    rw [Table.eq_nil_iff_get?, Table.eq_nil_iff_get?]
    exact forall_congr' fun inner => by rw [hentries]
  have hbuild (raw : RawValues) : p.build C name raw =
      if entries name raw = [] then .ok none
      else (p.bindValues C (entries name raw)).map some := by
    unfold build
    split
    · rename_i hnone
      rw [if_pos hnone]
    · rename_i hsome
      rw [if_neg hsome]
  rw [hbuild, hbuild, hvalues]
  exact if_congr hempty rfl rfl

end Building

namespace ParameterParser

/-- Whether a parser reads the texts under a key when it has a given name itself. -/
def Reads (p : ParameterParser) (name key : String) : Prop :=
  match p with
  | .flat _ => key = name
  | .object _ => ∃ inner, key = ObjectParser.keyIn name inner

/-- A parser makes the same of requests that agree about the keys that it reads. -/
theorem build_congr {C : Classes} (p : ParameterParser) {name : String} {raw other : RawValues}
    (h : ∀ key, p.Reads name key → Table.get? key raw = Table.get? key other) :
    p.build C name raw = p.build C name other := by
  cases p with
  | flat p => exact p.build_congr (h name rfl)
  | object p => exact p.build_congr fun inner => h _ ⟨inner, rfl⟩

end ParameterParser

namespace RawRequest

/-- The texts of the headers that have a name in lower case, header by header. -/
def textsUnder (key : String) (headers : RawValues) : List (List String) :=
  (headers.filter fun entry => lowerText entry.1 = key).map (·.2)

/-- What is read of several headers of one name: their texts in order, if there is one of them. -/
def merged : List (List String) → Option (List String)
  | [] => none
  | found => some found.flatten

/-- Headers are read after their names are put in lower case and the texts of equal names are put
together in order. -/
theorem get?_foldHeaders (key : String) (headers : RawValues) :
    Table.get? key (foldHeaders headers) = merged (textsUnder key headers) := by
  -- Behind what is merged already the texts of further headers follow.
  have hafter (done : RawValues) : Table.get? key
      (headers.foldl (fun done entry => addHeader (lowerText entry.1) entry.2 done) done) =
        merged ((Table.get? key done).toList ++ textsUnder key headers) := by
    induction headers generalizing done with
    | nil =>
      rw [textsUnder, List.filter_nil, List.map_nil, List.append_nil]
      cases h : Table.get? key done with
      | none => exact h
      | some texts => simpa [merged] using h
    | cons entry rest ih =>
      obtain ⟨name, texts⟩ := entry
      rw [List.foldl_cons, ih, addHeader, Table.get?_update]
      by_cases hname : key = lowerText name
      · subst hname
        cases Table.get? (lowerText name) done <;> simp [textsUnder, merged]
      · simp [textsUnder, hname, Ne.symm hname]
  exact hafter []

/-- What is read of headers depends on their names in lower case only. -/
theorem textsUnder_letterCase {name other : String} (h : lowerText name = lowerText other)
    (key : String) (front behind : RawValues) (texts : List String) :
    textsUnder key (front ++ (name, texts) :: behind) =
      textsUnder key (front ++ (other, texts) :: behind) := by
  simp only [textsUnder, List.filter_append, List.map_append, List.filter_cons, h]
  split <;> rfl

/-- What is read of headers under a name does not depend on headers of other names. -/
theorem textsUnder_insert_of_ne {name key : String} (h : key ≠ lowerText name)
    (front behind : RawValues) (texts : List String) :
    textsUnder key (front ++ (name, texts) :: behind) = textsUnder key (front ++ behind) := by
  simp [textsUnder, List.filter_append, Ne.symm h]

end RawRequest

namespace Binder

variable {C : Classes} {b : Binder} {request other : RawRequest}

/-- Whether a binder reads the texts under a key at a location. -/
def Reads (b : Binder) (location : Location) (key : String) : Prop :=
  ∃ bound ∈ b.fields, bound.location = location ∧ bound.parser.Reads bound.key key

/-- Whether two requests agree in all that a binder reads, headers being read after their names are
put in lower case and the texts of equal names are put together. -/
def Agrees (b : Binder) (request other : RawRequest) : Prop :=
  ∀ location key, b.Reads location key →
    Table.get? key (request.at? location) = Table.get? key (other.at? location)

/-- One change of a request that a binder does not see: texts under a key that it does not read, the
letters of a header's name in another case, or the query in another order. -/
inductive Overlooks (b : Binder) : RawRequest → RawRequest → Prop
  | query (request : RawRequest) (front behind : RawValues) {key : String} {texts : List String}
      (hkey : ¬b.Reads .query key) :
      Overlooks b { request with query := front ++ behind }
        { request with query := front ++ (key, texts) :: behind }
  | path (request : RawRequest) (front behind : RawValues) {key : String} {texts : List String}
      (hkey : ¬b.Reads .path key) :
      Overlooks b { request with path := front ++ behind }
        { request with path := front ++ (key, texts) :: behind }
  | header (request : RawRequest) (front behind : RawValues) {name : String} {texts : List String}
      (hname : ¬b.Reads .header (lowerText name)) :
      Overlooks b { request with headers := front ++ behind }
        { request with headers := front ++ (name, texts) :: behind }
  | letterCase (request : RawRequest) (front behind : RawValues) {name other : String}
      {texts : List String} (hname : lowerText name = lowerText other) :
      Overlooks b { request with headers := front ++ (name, texts) :: behind }
        { request with headers := front ++ (other, texts) :: behind }
  | order (request : RawRequest) {query others : RawValues} (hdistinct : Table.Distinct query)
      (horder : query.Perm others) :
      Overlooks b { request with query := query } { request with query := others }

/-- Requests agree after a change that the binder does not see. -/
theorem Overlooks.agrees (h : b.Overlooks request other) : b.Agrees request other := by
  intro location key hreads
  have hne {location' : Location} {key' : String} (hkey : ¬b.Reads location' key')
      (hlocation : location = location') : key ≠ key' := by
    rintro rfl
    exact hkey (hlocation ▸ hreads)
  cases h with
  | query request front behind hkey =>
    cases location with
    | query => exact (Table.get?_insert_of_ne (hne hkey rfl) front behind _).symm
    | header | path => rfl
  | path request front behind hkey =>
    cases location with
    | path => exact (Table.get?_insert_of_ne (hne hkey rfl) front behind _).symm
    | header | query => rfl
  | header request front behind hname =>
    cases location with
    | header =>
      change Table.get? key (RawRequest.foldHeaders _) = Table.get? key (RawRequest.foldHeaders _)
      rw [RawRequest.get?_foldHeaders, RawRequest.get?_foldHeaders,
        RawRequest.textsUnder_insert_of_ne (hne hname rfl)]
    | query | path => rfl
  | letterCase request front behind hname =>
    cases location with
    | header =>
      change Table.get? key (RawRequest.foldHeaders _) = Table.get? key (RawRequest.foldHeaders _)
      rw [RawRequest.get?_foldHeaders, RawRequest.get?_foldHeaders,
        RawRequest.textsUnder_letterCase hname]
    | query | path => rfl
  | order request hdistinct horder =>
    cases location with
    | query => exact Table.get?_of_perm hdistinct horder key
    | header | path => rfl

/-- Requests that agree in all that a binder reads are bound alike. -/
theorem bind_congr (h : b.Agrees request other) : b.bind C request = b.bind C other := by
  have hbuild : ∀ bound ∈ b.fields,
      bound.parser.build C bound.key (request.at? bound.location) =
        bound.parser.build C bound.key (other.at? bound.location) :=
    fun bound hbound =>
      bound.parser.build_congr fun key hkey => h _ key ⟨bound, hbound, rfl, hkey⟩
  rw [bind, bind, bindFrom, bindFrom, Binding.collect_congr hbuild]

/-- Binding depends on nothing but what is read. Requests that agree in it are bound to the same
record or fail with the same failure; and so are requests of which one becomes the other by changes
that the binder does not see, however many: keys that no field reads put in or left out, names of
headers in letters of another case, and the query in another order. -/
theorem bind_eq_of_agrees (C : Classes) (b : Binder) :
    (∀ request other, b.Agrees request other → b.bind C request = b.bind C other) ∧
      ∀ request other, Relation.EqvGen b.Overlooks request other →
        b.bind C request = b.bind C other := by
  refine ⟨fun _ _ h => bind_congr h, fun request other h => ?_⟩
  induction h with
  | rel _ _ hstep => exact bind_congr hstep.agrees
  | refl => rfl
  | symm _ _ _ ih => exact ih.symm
  | trans _ _ _ _ _ ihfirst ihsecond => exact ihfirst.trans ihsecond

end Binder

/-- A record of parameters: a record, a number and a header. -/
def Classes.catalog : Classes :=
  (({} : Classes).define
    { name := "Filter", body := .record false,
      fields := [{ name := "status", hint := .builtin .text, default := .required }] }).define
    { name := "Search", body := .record false,
      fields := [
        { name := "filter", default := .required,
          hint := .annotated (.named "Filter") [.parameter { location := .query }] },
        { name := "limit", default := .required,
          hint := .annotated (.builtin .integer) [.parameter { location := .query }] },
        { name := "trace", default := .required,
          hint := .annotated (.builtin .text) [.parameter { location := .header }] }] }

/-- A path that is not read, or a query in another order and with one more key and a header in
capitals: the same record is made. -/
theorem Binder.bind_eq_of_agrees_catalog :
    let request : RawRequest :=
      { query := [("filter[status]", ["open"]), ("limit", ["5"])], headers := [("Trace", ["a"])] }
    let elsewhere : RawRequest := { request with path := [("id", ["9"])] }
    let other : RawRequest :=
      { query := [("page", ["2"]), ("limit", ["5"]), ("filter[status]", ["open"])],
        headers := [("TRACE", ["a"])] }
    let made : Value := .record "Search"
      [("filter", .record "Filter" [("status", .text "open")]), ("limit", .int 5),
        ("trace", .text "a")]
    ∃ b, Classes.catalog.binder "Search" = .ok b ∧
      b.Agrees request elsewhere ∧ b.bind Classes.catalog elsewhere = .ok made ∧
      Relation.EqvGen b.Overlooks request other ∧ b.bind Classes.catalog other = .ok made := by
  intro request elsewhere other made
  have hmade : ∃ b filter limit trace record number text, Classes.catalog.binder "Search" = .ok b ∧
      b.fields = [⟨filter, .object record, .query, "filter"⟩,
        ⟨limit, .flat number, .query, "limit"⟩, ⟨trace, .flat text, .header, "trace"⟩] ∧
      b.bind Classes.catalog request = .ok made := ⟨_, _, _, _, _, _, _, rfl, rfl, rfl⟩
  obtain ⟨b, filter, limit, trace, record, number, text, hb, hfields, hbound⟩ := hmade
  have hreads {location : Location} {key : String} (h : b.Reads location key) :
      location = .query ∧ ((∃ inner, key = ObjectParser.keyIn "filter" inner) ∨ key = "limit") ∨
        location = .header ∧ key = "trace" := by
    obtain ⟨bound, hmem, rfl, hkey⟩ := h
    rw [hfields] at hmem
    simp only [List.mem_cons, List.not_mem_nil, or_false] at hmem
    obtain rfl | rfl | rfl := hmem
    · exact Or.inl ⟨rfl, Or.inl hkey⟩
    · exact Or.inl ⟨rfl, Or.inr hkey⟩
    · exact Or.inr ⟨rfl, hkey⟩
  have hpath : ¬b.Reads .path "id" := by
    intro h
    obtain ⟨⟨⟩, _⟩ | ⟨⟨⟩, _⟩ := hreads h
  have hpage : ¬b.Reads .query "page" := by
    intro h
    obtain ⟨_, ⟨inner, hinner⟩ | hlimit⟩ | ⟨⟨⟩, _⟩ := hreads h
    · have hform := ObjectParser.bracketed?_eq_some_iff.mpr hinner
      cases hform
    · exact absurd hlimit (by decide)
  have hagrees : b.Agrees request elsewhere := (Overlooks.path request [] [] hpath).agrees
  let turned : RawRequest :=
    { request with query := [("limit", ["5"]), ("filter[status]", ["open"])] }
  have hturned : b.Overlooks request turned := by
    have hdistinct : ["filter[status]", "limit"].Nodup := by decide
    exact .order request hdistinct (.swap _ _ _)
  have hadded : b.Overlooks turned { turned with query := other.query } :=
    .query turned [] turned.query hpage
  have hcapitals : b.Overlooks { turned with query := other.query } other :=
    .letterCase { turned with query := other.query } [] [] (by decide)
  have hsteps : Relation.EqvGen b.Overlooks request other :=
    .trans _ _ _ (.rel _ _ hturned) (.trans _ _ _ (.rel _ _ hadded) (.rel _ _ hcapitals))
  refine ⟨b, hb, hagrees, ?_, hsteps, ?_⟩
  · rw [← (bind_eq_of_agrees Classes.catalog b).1 _ _ hagrees, hbound]
  · rw [← (bind_eq_of_agrees Classes.catalog b).2 _ _ hsteps, hbound]

end HttpContract
