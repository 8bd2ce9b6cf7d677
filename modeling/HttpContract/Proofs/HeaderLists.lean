import HttpContract.Proofs.Binding
import HttpContract.Proofs.Influence
import HttpContract.Proofs.Splitting

/-!
# Lists in headers

The texts of all headers whose names are equal in lower case are read together, and a field that is
an array takes its items from between their commas. So it makes no difference whether the items are
sent under several names, in several texts under one name, or in one text with commas between them.
-/

namespace HttpContract

/-- Whether a type is read into a container of items. -/
def TypeInfo.IsArray (type : TypeInfo) : Prop :=
  ∃ container item nullable notes, type = .array container item nullable notes

namespace FlatParser

/-- A text with commas between other texts has the items of all of them. -/
theorem itemsOf_joinTexts {texts : List String} (h : texts ≠ []) :
    itemsOf false [joinTexts "," texts] = itemsOf false texts := by
  rw [itemsOf, itemsOf, if_neg Bool.false_ne_true, if_neg Bool.false_ne_true,
    List.flatMap_singleton, ← List.map_flatMap]
  exact congrArg (List.map trimBlanks) (splitText_joinTexts h)

end FlatParser

namespace RawRequest

variable {key other : String} {headers combined : RawValues}

/-- Where there are texts under a name, all of them are read. -/
theorem get?_foldHeaders_of_ne_nil (h : (textsUnder key headers).flatten ≠ []) :
    (foldHeaders headers).get? key = some (textsUnder key headers).flatten := by
  have hfold : Table.get? key (foldHeaders headers) = some (textsUnder key headers).flatten := by
    rw [get?_foldHeaders]
    cases htexts : textsUnder key headers with
    | nil => exact absurd (congrArg List.flatten htexts) h
    | cons texts others => rfl
  obtain ⟨text, others, htexts⟩ := List.exists_cons_of_ne_nil h
  rw [htexts] at hfold ⊢
  rw [RawValues.get?, hfold]

/-- Headers of which those that have a name in lower case are replaced by a single one, in letters
of any case and at any place: its one text joins all their texts by commas, in order. The other
headers stay as they are. -/
inductive Combines (key : String) (headers : RawValues) : RawValues → Prop
  | at (front behind : RawValues) {name : String} (hname : lowerText name = key)
      (hothers : front ++ behind = headers.filter fun entry => lowerText entry.1 ≠ key) :
      Combines key headers
        (front ++ (name, [joinTexts "," (textsUnder key headers).flatten]) :: behind)

/-- Under the name itself there is the joined text. -/
theorem Combines.textsUnder_self (h : Combines key headers combined) :
    textsUnder key combined = [[joinTexts "," (textsUnder key headers).flatten]] := by
  obtain ⟨front, behind, hname, hothers⟩ := h
  have hnone : (front ++ behind).filter (fun entry => lowerText entry.1 = key) = [] := by
    rw [hothers, List.filter_filter]
    simp
  rw [List.filter_append, List.append_eq_nil_iff] at hnone
  simp [textsUnder, List.filter_append, hname, hnone.1, hnone.2]

/-- Under other names there is what was there. -/
theorem Combines.textsUnder_of_ne (h : Combines key headers combined) (hne : other ≠ key) :
    textsUnder other combined = textsUnder other headers := by
  obtain ⟨front, behind, hname, hothers⟩ := h
  rw [textsUnder_insert_of_ne (hname ▸ hne), hothers, textsUnder, List.filter_filter, textsUnder]
  congr 2
  funext entry
  by_cases hentry : lowerText entry.1 = other
  · simp [hentry, hne]
  · simp [hentry]

end RawRequest

/-- What a binder reads of a request for a field: a value, that there is none, or a failure. -/
def BoundField.reading (C : Classes) (bound : BoundField ParameterParser) (request : RawRequest) :
    Except Failure (Option Value) :=
  bound.parser.build C bound.key (request.at? bound.location)

namespace Binder

variable {C : Classes} {className : String} {b : Binder} {bound : BoundField ParameterParser}

/-- A record is made of what is read for the fields. -/
theorem bind_eq_collect_reading (C : Classes) (b : Binder) (request : RawRequest) :
    b.bind C request =
      Binding.collect (·.reading C request) b.fields >>= C.construct b.shape := rfl

/-- A field that is read from a header has a parser of texts, and the lower case of its name as its
key. -/
theorem exists_parser_of_header (hb : C.binder className = .ok b) (hbound : bound ∈ b.fields)
    (hlocation : bound.location = .header) :
    ∃ p allowEmpty, bound.parser = .flat p ∧
      Binding.flatParser? bound.field .header allowEmpty = some p ∧
      bound.key = lowerText bound.field.wireName := by
  obtain ⟨_, hkey, allowEmpty, hparser⟩ := Classes.bound_of_binder hb hbound
  rw [hlocation] at hparser hkey
  unfold Classes.parameterParser at hparser
  split at hparser
  · rename_i p hp
    exact ⟨p, allowEmpty, (Except.ok.inj hparser).symm, hp, hkey⟩
  · -- Records are read from the query alone.
    split at hparser
    · rename_i hquery
      cases hquery
    · cases hparser

/-- An array that is read from a header is split at its commas. -/
theorem exists_listParser_of_header (hb : C.binder className = .ok b) (hbound : bound ∈ b.fields)
    (hlocation : bound.location = .header) (harray : bound.field.type.IsArray) :
    ∃ container item, bound.parser = .flat (.list container item .simple false) := by
  obtain ⟨p, allowEmpty, hparser, hflat, _⟩ := exists_parser_of_header hb hbound hlocation
  obtain ⟨container, item, nullable, notes, htype⟩ := harray
  unfold Binding.flatParser? at hflat
  rw [htype] at hflat
  obtain ⟨scalar, _, rfl⟩ := Option.map_eq_some_iff.mp hflat
  exact ⟨container, _, hparser⟩

variable {request : RawRequest} {headers : RawValues} {key : String}

/-- An array that has texts in headers is made of what stands between their commas, in order. -/
theorem exists_reading_of_header (hb : C.binder className = .ok b) (hbound : bound ∈ b.fields)
    (hlocation : bound.location = .header) (harray : bound.field.type.IsArray) :
    ∃ container item, bound.parser = .flat (.list container item .simple false) ∧
      ∀ request : RawRequest, (RawRequest.textsUnder bound.key request.headers).flatten ≠ [] →
        bound.reading C request =
          item.parseEach C bound.key (FlatParser.itemsOf false
            (RawRequest.textsUnder bound.key request.headers).flatten) >>=
              fun items => (Body.contain C container items).map some := by
  obtain ⟨container, item, hparser⟩ := exists_listParser_of_header hb hbound hlocation harray
  refine ⟨container, item, hparser, fun request hgiven => ?_⟩
  rw [BoundField.reading, hparser, hlocation]
  exact FlatParser.build_list container item .simple false
    (RawRequest.get?_foldHeaders_of_ne_nil hgiven)

/-- An array in headers is read alike of several headers and of the one that combines them. -/
theorem reading_of_combines (hb : C.binder className = .ok b) (hbound : bound ∈ b.fields)
    (hlocation : bound.location = .header) (harray : bound.field.type.IsArray)
    (hkey : lowerText bound.field.wireName = key)
    (hgiven : (RawRequest.textsUnder key request.headers).flatten ≠ [])
    (h : RawRequest.Combines key request.headers headers) :
    bound.reading C request = bound.reading C { request with headers := headers } := by
  obtain ⟨_, _, _, _, hown⟩ := exists_parser_of_header hb hbound hlocation
  obtain ⟨container, item, _, hreading⟩ := exists_reading_of_header hb hbound hlocation harray
  have hone : (RawRequest.textsUnder key headers).flatten =
      [joinTexts "," (RawRequest.textsUnder key request.headers).flatten] := by
    rw [h.textsUnder_self]
    rfl
  rw [hown, hkey] at hreading
  rw [hreading _ hgiven, hreading _ (hone ▸ List.cons_ne_nil _ _), hone,
    FlatParser.itemsOf_joinTexts hgiven]

/-- Fields that are read elsewhere or under another name do not see that headers are combined. -/
theorem reading_of_combines_of_ne (hb : C.binder className = .ok b) (hbound : bound ∈ b.fields)
    (hother : bound.location = .header → lowerText bound.field.wireName ≠ key)
    (h : RawRequest.Combines key request.headers headers) :
    bound.reading C request = bound.reading C { request with headers := headers } := by
  refine bound.parser.build_congr fun inner hreads => ?_
  cases hlocation : bound.location with
  | query | path => rfl
  | header =>
    obtain ⟨p, _, hparser, _, hown⟩ := exists_parser_of_header hb hbound hlocation
    rw [hparser] at hreads
    have hinner : inner = bound.key := hreads
    have hne : inner ≠ key := by
      rw [hinner, hown]
      exact hother hlocation
    change Table.get? inner (RawRequest.foldHeaders _) = Table.get? inner (RawRequest.foldHeaders _)
    rw [RawRequest.get?_foldHeaders, RawRequest.get?_foldHeaders, h.textsUnder_of_ne hne]

/-- Repeated headers are read as one. Whatever headers a request has under the name of an array, in
letters of any case and with their texts split over them in any way: with the single header that
joins the texts by commas the same is read for this field, be it a value, that there is none, or a
failure. It is made of what stands between the commas of the texts, in order and without blanks
around. When all that is read under this name are arrays, the whole record is the same as well. -/
theorem reading_combined (hb : C.binder className = .ok b) (hbound : bound ∈ b.fields)
    (hlocation : bound.location = .header) (harray : bound.field.type.IsArray)
    (hgiven : (RawRequest.textsUnder (lowerText bound.field.wireName) request.headers).flatten ≠ [])
    (hcombined : RawRequest.Combines (lowerText bound.field.wireName) request.headers headers) :
    bound.reading C request = bound.reading C { request with headers := headers } ∧
      (∃ container item, bound.parser = .flat (.list container item .simple false) ∧
        bound.reading C request =
          item.parseEach C (lowerText bound.field.wireName)
            ((RawRequest.textsUnder (lowerText bound.field.wireName)
              request.headers).flatten.flatMap fun text => (splitText ',' text).map trimBlanks) >>=
                fun items => (Body.contain C container items).map some) ∧
      ((∀ other ∈ b.fields, other.location = .header →
          lowerText other.field.wireName = lowerText bound.field.wireName →
          other.field.type.IsArray) →
        b.bind C request = b.bind C { request with headers := headers }) := by
  obtain ⟨_, _, _, _, hown⟩ := exists_parser_of_header hb hbound hlocation
  obtain ⟨container, item, hparser, hitems⟩ :=
    exists_reading_of_header hb hbound hlocation harray
  rw [hown] at hitems
  refine ⟨reading_of_combines hb hbound hlocation harray rfl hgiven hcombined,
    ⟨container, item, hparser, hitems request hgiven⟩, fun harrays => ?_⟩
  have hreading : ∀ other ∈ b.fields,
      other.reading C request = other.reading C { request with headers := headers } := by
    intro other hmem
    by_cases hkey : other.location = .header ∧
        lowerText other.field.wireName = lowerText bound.field.wireName
    · exact reading_of_combines hb hmem hkey.1 (harrays other hmem hkey.1 hkey.2) hkey.2 hgiven
        hcombined
    · exact reading_of_combines_of_ne hb hmem (fun hheader heq => hkey ⟨hheader, heq⟩) hcombined
  rw [bind_eq_collect_reading, bind_eq_collect_reading, Binding.collect_congr hreading]

end Binder

/-- A record with two arrays in headers, of texts and of numbers. -/
def Classes.negotiation : Classes :=
  ({} : Classes).define
    { name := "Negotiation", body := .record false,
      fields := [
        { name := "accept", default := .required,
          hint := .annotated (.collection .list (.builtin .text))
            [.parameter { location := .header }] },
        { name := "ranks", default := .required,
          hint := .annotated (.collection .tuple (.builtin .integer))
            [.parameter { location := .header }, .wireName "X-Ranks"] }] }

namespace Binder

/-- Ranks under two names and in three texts, one of which has a comma of its own, are read as those
of one header. -/
theorem reading_combined_ranks :
    let request : RawRequest :=
      { headers := [("X-RANKS", ["1,2", "3"]), ("Accept", ["a"]), ("x-ranks", [" 4"])] }
    let headers : RawValues := [("Accept", ["a"]), ("X-Ranks", ["1,2,3, 4"])]
    let read : Except Failure (Option Value) :=
      .ok (some (.tuple [.int 1, .int 2, .int 3, .int 4]))
    ∃ b bound, Classes.negotiation.binder "Negotiation" = .ok b ∧ bound ∈ b.fields ∧
      bound.location = .header ∧ bound.field.type.IsArray ∧
      bound.field.wireName = "X-Ranks" ∧
      RawRequest.Combines "x-ranks" request.headers headers ∧
      bound.reading Classes.negotiation request = read ∧
      bound.reading Classes.negotiation { request with headers := headers } = read := by
  intro request headers read
  have hmade : ∃ b first bound, Classes.negotiation.binder "Negotiation" = .ok b ∧
      b.fields = [first, bound] ∧ bound.location = .header ∧ bound.field.type.IsArray ∧
      bound.field.wireName = "X-Ranks" ∧ bound.reading Classes.negotiation request = read :=
    ⟨_, _, _, rfl, rfl, rfl, ⟨_, _, _, _, rfl⟩, rfl, rfl⟩
  obtain ⟨b, first, bound, hb, hfields, hlocation, harray, hname, hread⟩ := hmade
  have hbound : bound ∈ b.fields := by
    rw [hfields]
    exact List.mem_cons_of_mem _ List.mem_cons_self
  have hlower : lowerText bound.field.wireName = "x-ranks" := by
    rw [hname]
    decide
  have hcombined : RawRequest.Combines "x-ranks" request.headers headers :=
    .at [("Accept", ["a"])] [] (by decide) (by decide)
  have hgiven : (RawRequest.textsUnder "x-ranks" request.headers).flatten ≠ [] := by decide
  rw [← hlower] at hgiven hcombined
  have hsame := (reading_combined hb hbound hlocation harray hgiven hcombined).1
  rw [hlower] at hcombined
  exact ⟨b, bound, hb, hbound, hlocation, harray, hname, hcombined, hread, hsame ▸ hread⟩

end Binder

end HttpContract
