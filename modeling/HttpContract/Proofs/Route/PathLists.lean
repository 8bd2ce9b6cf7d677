import HttpContract.Proofs.Application.PathVariables
import HttpContract.Proofs.Application.Serving
import HttpContract.Proofs.Absence
import HttpContract.Proofs.Route.EncodedPaths
import HttpContract.Proofs.Splitting

/-!
# Lists of texts in a path

A path parameter that is a list of texts stands in a path as its items with commas between them. A
segment is decoded as a whole before it is split, and blanks are cut off the pieces. So items arrive
as they were sent exactly when none of them holds a comma, or a blank at either end.
-/

namespace HttpContract

namespace Template

variable {name : String} {text path ending : List Char} {parts : Template}
  {values : List (List Char)}

/-- Whether a variable has segments of a template for itself, and a text in its place in each of
them. -/
def PutsAlone (template path key text : String) : Prop :=
  ∀ pair ∈ (splitText '/' template).zip (splitText '/' path),
    key ∈ (parse pair.1).names → pair = ("\x7b" ++ key ++ "\x7d", text)

/-- The names of variables can stand in braces. -/
theorem isName_of_mem_names (h : name ∈ names (parseFrom 0 text)) : IsName name.toList := by
  induction text using text_induction with
  | nil => cases h
  | capture first text hname ih =>
    rw [parseFrom_variable hname, names_capture] at h
    rcases List.mem_cons.mp h with rfl | h
    · rwa [String.toList_ofList]
    · exact ih h
  | letter c text hletter ih =>
    rw [parseFrom_letter hletter] at h
    exact ih h

/-- Parts without a slash spell no slash. -/
theorem Spells.slash_notMem (h : Spells parts values path) (hletters : .letter '/' ∉ parts) :
    '/' ∉ path := by
  induction h with
  | nil => exact List.not_mem_nil
  | letter h ih =>
    intro hmem
    rcases List.mem_cons.mp hmem with rfl | hmem
    · exact hletters List.mem_cons_self
    · exact ih (fun hrest => hletters (List.mem_cons_of_mem _ hrest)) hmem
  | capture hvalue h ih =>
    intro hmem
    rcases List.mem_append.mp hmem with hmem | hmem
    · exact hvalue.2 hmem
    · exact ih (fun hrest => hletters (List.mem_cons_of_mem _ hrest)) hmem

/-- A value that is found stands in the segment of the path that its variable has in the template;
only what is left at the end of the path may come behind it. -/
theorem Spells.exists_segment {segments : List (List Char)}
    (h : Spells (parseFrom 0 (['/'].intercalate segments)) values path)
    (hsegments : ∀ segment ∈ segments, '/' ∉ segment) (hending : '/' ∉ ending) {value : List Char}
    (hpair : (name, value) ∈ (names (parseFrom 0 (['/'].intercalate segments))).zip values) :
    ∃ segment front rest own, (segment, front ++ rest) ∈
        segments.zip (splitAtEach '/' (path ++ ending)) ∧ (rest = [] ∨ rest = ending) ∧
      Spells (parseFrom 0 segment) own front ∧
      (name, value) ∈ (names (parseFrom 0 segment)).zip own := by
  induction segments generalizing values path with
  | nil => cases hpair
  | cons first others ih =>
    have hfirst : '/' ∉ first := hsegments first List.mem_cons_self
    have hletters : .letter '/' ∉ parseFrom 0 first := fun hmem => hfirst (mem_of_letter_mem hmem)
    cases others with
    | nil =>
      rw [List.intercalate_singleton] at h hpair
      have hwhole : '/' ∉ path ++ ending := by
        intro hmem
        rcases List.mem_append.mp hmem with hmem | hmem
        · exact h.slash_notMem hletters hmem
        · exact hending hmem
      rw [splitAtEach_of_notMem hwhole]
      exact ⟨first, path, ending, values, List.mem_singleton.mpr rfl, Or.inr rfl, h, hpair⟩
    | cons second others =>
      rw [List.intercalate_cons_cons, List.append_assoc, List.singleton_append,
        parseFrom_append_slash hfirst] at h hpair
      obtain ⟨own, more, front, _, rfl, rfl, hown, hmore⟩ := spells_append_iff.mp h
      cases hmore with
      | @letter _ _ _ back hmore =>
        have hfront : splitAtEach '/' front = [front] :=
          splitAtEach_of_notMem (hown.slash_notMem hletters)
        rw [List.append_assoc, List.cons_append, splitAtEach_append_cons, hfront,
          List.singleton_append, List.zip_cons_cons]
        rw [names_append, names_letter, List.zip_append hown.length_eq.symm] at hpair
        rcases List.mem_append.mp hpair with hpair | hpair
        · refine ⟨first, front, [], own, ?_, Or.inl rfl, hown, hpair⟩
          rw [List.append_nil]
          exact List.mem_cons_self
        · obtain ⟨segment, start, rest, found, hmem, hrest⟩ :=
            ih hmore (fun other hother => hsegments other (List.mem_cons_of_mem _ hother)) hpair
          exact ⟨segment, start, rest, found, List.mem_cons_of_mem _ hmem, hrest⟩

/-- A segment that is a variable stands for itself as a whole. -/
theorem Spells.of_variable {name : List Char} (hname : IsName name)
    (h : Spells (parseFrom 0 ('\x7b' :: (name ++ ['\x7d']))) values path) : values = [path] := by
  rw [parseFrom_variable hname] at h
  cases h with
  | capture hvalue h =>
    cases h
    rw [List.append_nil]

/-- A variable with segments for itself stands for what is in its place. -/
theorem value_of_putsAlone {template path key text value : String} {values : List String}
    (hmatch : (parse template).match? path = some values)
    (halone : PutsAlone template path key text)
    (htext : '\n' ∉ text.toList) (hpair : (key, value) ∈ (parse template).names.zip values) :
    value = text := by
  obtain ⟨found, hfound, rfl⟩ := Option.map_eq_some_iff.mp hmatch
  obtain ⟨front, ending, hpath, hending, hspells⟩ := spells_of_valuesIn hfound
  rw [List.zip_map_right] at hpair
  obtain ⟨⟨key, value⟩, hchars, heq⟩ := List.mem_map.mp hpair
  cases heq
  unfold parse at hspells hchars
  rw [← intercalate_splitAtEach '/' template.toList] at hspells hchars
  have hslash : '/' ∉ ending := by rcases hending with rfl | rfl <;> decide
  obtain ⟨segment, start, rest, own, hmem, hrest, hown, hvalue⟩ :=
    hspells.exists_segment (fun _ => not_mem_of_mem_splitAtEach) hslash hchars
  rw [← hpath] at hmem
  have hkey : key ∈ names (parseFrom 0 segment) := (List.of_mem_zip hvalue).1
  have hputs := halone (String.ofList segment, String.ofList (start ++ rest)) (by
    unfold splitText
    rw [List.zip_map]
    exact List.mem_map_of_mem hmem) (by rwa [parse, String.toList_ofList])
  obtain ⟨hsegment, htexts⟩ := Prod.mk.inj hputs
  have hbraces : segment = '\x7b' :: (key.toList ++ ['\x7d']) := by
    rw [← String.toList_ofList (l := segment), hsegment, String.toList_append, String.toList_append]
    rfl
  have hsingle : own = [start] := by
    rw [hbraces] at hown
    exact hown.of_variable (isName_of_mem_names hkey)
  have hvalue : value = start := by
    have hmem := (List.of_mem_zip hvalue).2
    rwa [hsingle, List.mem_singleton] at hmem
  have hnone : rest = [] := by
    rcases hrest with rfl | rfl
    · rfl
    · rcases hending with rfl | rfl
      · rfl
      · refine absurd ?_ htext
        rw [← htexts, String.toList_ofList]
        exact List.mem_append_right _ (List.mem_singleton.mpr rfl)
  rw [← htexts, hnone, List.append_nil, hvalue]

end Template

/-- A key has a value that all its entries have. -/
theorem Table.get?_eq_some_of_forall {κ ν : Type} [DecidableEq κ] {t : Table κ ν} {key : κ}
    {value : ν} (hkey : key ∈ Table.keys t) (h : ∀ p ∈ t, p.1 = key → p.2 = value) :
    Table.get? key t = some value := by
  cases hget : Table.get? key t with
  | none => exact absurd hkey ((Table.get?_eq_none_iff key t).mp hget)
  | some other => exact congrArg some (h _ (Table.mem_of_get? hget) rfl)

/-- A variable with segments for itself arrives as what the text in its place stands for. -/
theorem Route.get?_rawRequest_of_putsAlone {r : Route} {request : Request} {values : List String}
    {template key text : String} (hparts : r.parts = Template.parse template)
    (hmatch : r.parts.match? request.path = some values)
    (hkey : key ∈ (Template.parse template).names)
    (halone : Template.PutsAlone template request.path key text) (htext : '\n' ∉ text.toList) :
    (r.rawRequest request values).path.get? key = some [Percent.decode text] := by
  have hget : Table.get? key (r.rawRequest request values).path = some [Percent.decode text] := by
    unfold Route.rawRequest
    rw [hparts] at hmatch ⊢
    apply Table.get?_eq_some_of_forall
    · obtain ⟨found, hfound, rfl⟩ := Option.map_eq_some_iff.mp hmatch
      have hlength : (Template.parse template).names.length ≤ (found.map String.ofList).length := by
        rw [List.length_map, Template.length_of_valuesIn hfound]
      rw [Table.keys, List.map_reverse, List.map_map, List.mem_reverse]
      change key ∈ ((Template.parse template).names.zip (found.map String.ofList)).map (·.1)
      rwa [List.map_fst_zip hlength]
    · intro p hp hname
      obtain ⟨⟨name, value⟩, hpair, rfl⟩ := List.mem_map.mp (List.mem_reverse.mp hp)
      obtain rfl : name = key := hname
      rw [Template.value_of_putsAlone hmatch halone htext hpair]
  unfold RawValues.get?
  rw [hget]

namespace Binding

/-- What arrives of items that were encoded one by one and joined with commas. -/
def arrivedItems (items : List String) : List String :=
  items.flatMap fun item => (splitText ',' item).map trimBlanks

/-- Nothing is lost of the number of items. -/
theorem length_le_arrivedItems (items : List String) :
    items.length ≤ (arrivedItems items).length := by
  induction items with
  | nil => exact Nat.zero_le _
  | cons item rest ih =>
    have hpieces := length_splitText_pos ',' item
    rw [arrivedItems, List.flatMap_cons, List.length_append, List.length_map, List.length_cons]
    unfold arrivedItems at ih
    omega

/-- Items arrive as they were sent exactly when none of them holds a comma, or a blank at an end. -/
theorem arrivedItems_eq_self_iff (items : List String) :
    arrivedItems items = items ↔ ∀ item ∈ items, ',' ∉ item.toList ∧ trimBlanks item = item := by
  induction items with
  | nil => exact ⟨fun _ _ h => absurd h List.not_mem_nil, fun _ => rfl⟩
  | cons item rest ih =>
    have hcons : arrivedItems (item :: rest) =
        (splitText ',' item).map trimBlanks ++ arrivedItems rest := List.flatMap_cons
    rw [List.forall_mem_cons, ← ih, hcons]
    constructor
    · intro h
      have hlength := congrArg List.length h
      rw [List.length_append, List.length_map, List.length_cons] at hlength
      have hpieces := length_splitText_pos ',' item
      have hrest := length_le_arrivedItems rest
      have hcomma : ',' ∉ item.toList := notMem_of_length_splitText (by omega)
      rw [splitText_of_notMem hcomma] at h
      obtain ⟨htrimmed, hrest⟩ := List.cons_eq_cons.mp h
      exact ⟨⟨hcomma, htrimmed⟩, hrest⟩
    · rintro ⟨⟨hcomma, htrimmed⟩, hrest⟩
      rw [splitText_of_notMem hcomma, hrest, List.map_singleton, htrimmed]
      rfl

/-- What arrives of items is what stands between the commas of the joined text. -/
theorem arrivedItems_eq {items : List String} (h : items ≠ []) :
    (splitText ',' (Percent.decode (String.ofList (Percent.encodeItems ',' items)))).map
        trimBlanks =
      arrivedItems items := by
  rw [Percent.decode_encodeItems rfl (by decide), splitText_intercalate h, List.map_flatMap]
  rfl

end Binding

namespace FlatParser

variable {C : Classes} {item : ScalarParser}

/-- A parser of texts without constraints takes every text as it is. -/
theorem parseEach_text (htype : item.type = .scalar .text) (hfree : item.constraints = [])
    (name : String) (texts : List String) :
    item.parseEach C name texts = .ok (texts.map Value.text) := by
  induction texts with
  | nil => rfl
  | cons text rest ih =>
    have hone : item.parseOne C name text = .ok (some (.text text)) := by
      unfold ScalarParser.parseOne
      rw [htype, hfree]
      simp
      rfl
    rw [ScalarParser.parseEach, hone, ih]
    rfl

/-- A list of texts in one text is what stands between its commas, without blanks around. -/
theorem build_list_text (htype : item.type = .scalar .text) (hfree : item.constraints = [])
    {style : ParameterStyle} {name text : String} {raw : RawValues}
    (hget : raw.get? name = some [text]) :
    (FlatParser.list .list item style false).build C name raw =
      .ok (some (.list (((splitText ',' text).map trimBlanks).map .text))) := by
  rw [build_list .list item style false hget, parseEach_text htype hfree, itemsOf,
    if_neg Bool.false_ne_true, List.flatMap_singleton]
  rfl

end FlatParser

namespace Classes

variable {C : Classes} {className : String} {shape : Shape}

/-- Whether a type is a list of texts, notes aside. -/
def IsTextList (hint : Hint) : Prop := (splitNotes hint).1 = .collection .list (.builtin .text)

/-- A model takes texts for items that are texts. -/
theorem checkEachValue_text {build : String → List (Value × Value) → Except String Value}
    (texts : List String) :
    ModelCheck.checkEachValue (ModelCheck.value C build [] (.builtin .text)) (texts.map .text) =
      .ok (texts.map .text) := by
  induction texts with
  | nil => rfl
  | cons text rest ih =>
    have hone : ModelCheck.value C build [] (.builtin .text) (.text text) = .ok (.text text) := by
      rw [ModelCheck.value]
      rfl
    rw [List.map_cons, ModelCheck.checkEachValue, hone, ih]
    rfl

/-- A model that takes texts for a list of texts keeps them. -/
theorem value_textList {build : String → List (Value × Value) → Except String Value}
    {rules : List FieldRule} {hint : Hint} {texts : List String} {w : Value}
    (hlist : IsTextList hint)
    (h : ModelCheck.value C build rules hint (.list (texts.map .text)) = .ok w) :
    w = .list (texts.map .text) := by
  cases hint with
  | annotated base notes =>
    have hbase : IsTextList base := hlist
    rw [ModelCheck.value] at h
    exact value_textList hbase h
  | collection type item =>
    obtain ⟨rfl, rfl⟩ := Hint.collection.inj hlist
    rw [ModelCheck.value] at h
    have hitems : ModelCheck.itemsFor (ModelCheck.asksStrict rules) .list
        (.list (texts.map .text)) = .ok (texts.map .text) := rfl
    obtain ⟨given, hgiven, h⟩ := bind_eq_ok_iff.mp h
    obtain rfl := Except.ok.inj (hitems.symm.trans hgiven)
    obtain ⟨items, hchecked, h⟩ := bind_eq_ok_iff.mp h
    obtain rfl := Except.ok.inj ((checkEachValue_text texts).symm.trans hchecked)
    obtain ⟨_, _, h⟩ := bind_eq_ok_iff.mp h
    exact (Except.ok.inj h).symm
  | _ => simp [IsTextList, splitNotes] at hlist

/-- A record that is made has the list of texts that is given for a field: a plain record takes it
as it is, a model keeps it when it takes it. -/
theorem get?_construct_textList (hC : C.WellFormed) (hshape : C.shape className = .ok shape)
    {given : List (String × Value)} (hgiven : Table.Distinct given) {f : Field}
    (hf : f ∈ shape.fields)
    (hmodel : C.isModel className = true → ∀ spec ∈ C.fieldsOf className, spec.name = f.name →
      IsTextList (spec.hint.normal C.isKnown))
    {texts : List String} (hget : Table.get? f.initName given = some (.list (texts.map .text)))
    {v : Value} (h : C.construct shape given = .ok v) : ∃ attributes,
      v = .record className attributes ∧
        Table.get? f.name attributes = some (.list (texts.map .text)) := by
  cases hkind : C.isModel className with
  | false =>
    obtain ⟨attributes, hattributes, _, rfl⟩ := (construct_eq_ok_iff hkind hshape).mp h
    obtain ⟨w, hw, hfound⟩ := get?_recordAttributes hC hkind hshape hattributes hf
    rw [hget, Option.some_or] at hw
    exact ⟨attributes, rfl, hfound.trans hw.symm⟩
  | true =>
    obtain ⟨attributes, hattributes, _, rfl⟩ := (construct_model_eq_ok_iff hkind hshape).mp h
    rw [Table.ofBindings_of_distinct hgiven] at hattributes
    obtain ⟨spec, hspec, hfield⟩ := exists_modelField hkind hshape hf
    obtain ⟨⟨hname, hinit, _⟩, _⟩ := modelField_eq_ok hfield
    obtain ⟨w, hattribute, hfound⟩ := get?_modelAttributes hC hattributes hspec
    have hkey : Table.get? (modelInitName spec) given = some (.list (texts.map .text)) := by
      rw [← hget, hinit, modelInitName]
    unfold modelAttribute at hattribute
    dsimp only at hattribute
    rw [hkey] at hattribute
    obtain ⟨checked, hchecked, hattribute⟩ := bind_eq_ok_iff.mp hattribute
    obtain ⟨_, _, hattribute⟩ := bind_eq_ok_iff.mp hattribute
    cases hattribute
    have hkept := value_textList (hmodel hkind spec hspec hname.symm)
        (mapError_eq_ok_iff.mp hchecked)
    exact ⟨attributes, rfl, by rw [hname, hfound, hkept]⟩

end Classes

namespace Application

variable {C : Classes} {app : Application}

/-- A route of a reachable application has the parts of its template, whose variables are the path
parameters that its binder reads. -/
theorem Reachable.parts_eq (h : Reachable C app) : ∀ r ∈ app.routes,
    (∃ params, C.binderOf params = .ok r.binder) ∧ checkPath r.binder r.template = .ok () ∧
      r.parts = Template.parse r.template := by
  refine h.forall_routes fun closed group spec templates binder hprepare template hmem => ?_
  exact ⟨⟨spec.params, (prepare_eq_ok hprepare).2⟩,
    checkPath_of_mem (checkPaths_of_prepare hprepare) template hmem, rfl⟩

/-- A field that is a list of texts without constraints, read from the path, has a parser of texts
that splits them at commas. -/
theorem exists_parser_of_textList {className : String} {b : Binder}
    (hb : C.binder className = .ok b) {bound : BoundField ParameterParser}
    (hbound : bound ∈ b.fields)
    (hlocation : bound.location = .path) {itemNullable nullable : Bool}
    {itemNotes notes : List Note}
    (htype : bound.field.type =
      .array .list (.leaf (.scalar .text) itemNullable itemNotes) nullable notes)
    (hfree : constraintsIn notes ++ constraintsIn itemNotes = []) :
    ∃ allowEmpty, bound.parser =
      .flat (.list .list ⟨.scalar .text, [], allowEmpty⟩ .simple false) := by
  obtain ⟨_, _, allowEmpty, hparser⟩ := Classes.bound_of_binder hb hbound
  rw [hlocation] at hparser
  unfold Classes.parameterParser Binding.flatParser? at hparser
  rw [htype] at hparser
  refine ⟨allowEmpty, ?_⟩
  rw [← hfree]
  exact (Except.ok.inj hparser).symm

/-- A record that is bound has the list of texts that is built for a field. -/
theorem get?_bindFrom_textList (hC : C.WellFormed) {className : String} {b : Binder}
    (hb : C.binder className = .ok b)
    (hinit : C.isModel className = true → (b.shape.fields.map (·.initName)).Nodup)
    {bound : BoundField ParameterParser}
    (hmodel : C.isModel className = true → ∀ spec ∈ C.fieldsOf className,
      spec.name = bound.field.name → Classes.IsTextList (spec.hint.normal C.isKnown))
    (hbound : bound ∈ b.fields) {source : Location → RawValues} {texts : List String}
    (hbuild : bound.parser.build C bound.key (source bound.location) =
      .ok (some (.list (texts.map .text))))
    {params : Value} (h : b.bindFrom C source = .ok params) : ∃ attributes,
      params = .record className attributes ∧
        Table.get? bound.field.name attributes = some (.list (texts.map .text)) := by
  obtain ⟨hshape, _, hfields⟩ := Classes.binder_eq_ok hb
  obtain ⟨given, hgiven, hmade⟩ := bind_eq_ok_iff.mp h
  rw [Binding.collect_eq_gather] at hgiven
  have hnames : (b.fields.map fun bound => bound.field.initName).Nodup := by
    have hnodup := Classes.nodup_initNames hC hshape hinit
    rwa [← hfields, List.map_map] at hnodup
  obtain ⟨own, hown, hget⟩ := get?_gather hnames Binding.given_collectField hgiven hbound
  have hdistinct : Table.Distinct given :=
    distinct_gather hnames (fun _ _ h => Field.given_take h) hgiven
  have hlist : Table.get? bound.field.initName given = some (.list (texts.map .text)) := by
    rw [Binding.collectField, hbuild] at hown
    obtain rfl := Except.ok.inj hown
    rw [hget, Table.get?, if_pos rfl]
  exact Classes.get?_construct_textList hC hshape hdistinct (hfields ▸ List.mem_map_of_mem hbound)
    hmodel hlist hmade

/-- Encoded items with commas between them have no line feed. -/
theorem lineFeed_notMem_encodeItems (items : List String) :
    '\n' ∉ (String.ofList (Percent.encodeItems ',' items)).toList := by
  rw [String.toList_ofList]
  intro hmem
  rcases Percent.mem_encodeItems hmem with h | h | h
  · exact absurd h (by decide)
  · exact absurd h (by decide)
  · exact absurd h (by decide)

/-- A list of texts is bound to the pieces of its items. Of a request for a route, where a path
parameter that is a list of texts without constraints has segments for itself, with the encoded
items between commas in their places, the field is made of what stands between the commas of the
items, blanks at the ends cut off; this is what the handler gets when all parameters are bound. Just
the items arrive exactly when none of them holds a comma, or a blank at an end. -/
theorem Reachable.textList_arrives (h : Reachable C app) (hC : C.WellFormed) {request : Request}
    {r : Route} {values : List String} (htarget : app.target request = .ok (.route r values))
    {b : Binder} (hb : r.binder = some b) {bound : BoundField ParameterParser}
    (hbound : bound ∈ b.fields) (hlocation : bound.location = .path)
    {itemNullable nullable : Bool} {itemNotes notes : List Note}
    (htype : bound.field.type =
      .array .list (.leaf (.scalar .text) itemNullable itemNotes) nullable notes)
    (hfree : constraintsIn notes ++ constraintsIn itemNotes = [])
    (hmodel : C.isModel b.shape.className = true → (b.shape.fields.map (·.initName)).Nodup ∧
      ∀ spec ∈ C.fieldsOf b.shape.className, spec.name = bound.field.name →
        Classes.IsTextList (spec.hint.normal C.isKnown))
    {items : List String} (hitems : items ≠ [])
    (halone : Template.PutsAlone r.template request.path bound.key
      (String.ofList (Percent.encodeItems ',' items))) :
    let arrived : Value := .list ((Binding.arrivedItems items).map .text)
    bound.parser.build C bound.key ((r.rawRequest request values).at? .path) = .ok (some arrived) ∧
      (∀ params, r.boundParams C request values = .ok params → ∃ attributes,
        params = .record b.shape.className attributes ∧
          Table.get? bound.field.name attributes = some arrived) ∧
      (Binding.arrivedItems items = items ↔
        ∀ item ∈ items, ',' ∉ item.toList ∧ trimBlanks item = item) := by
  intro arrived
  obtain ⟨hr, hmatch⟩ := match?_of_target htarget
  obtain ⟨⟨params, hbinder⟩, hcheck, hparts⟩ := h.parts_eq r hr
  have hmade : C.binder b.shape.className = .ok b := Classes.binder_of_binderOf (hb ▸ hbinder)
  obtain ⟨hshape, _, hfields⟩ := Classes.binder_eq_ok hmade
  obtain ⟨hname, _, _⟩ := Classes.shape_eq_ok hshape
  have hkey : bound.key ∈ (Template.parse r.template).names := by
    rw [← mem_pathKeys_iff hcheck, hb, pathKeys]
    exact List.mem_map_of_mem (List.mem_filter.mpr ⟨hbound, decide_eq_true hlocation⟩)
  have hbuild : bound.parser.build C bound.key ((r.rawRequest request values).at? .path) =
      .ok (some arrived) := by
    obtain ⟨allowEmpty, hparser⟩ := exists_parser_of_textList hmade hbound hlocation htype hfree
    have hraw := Route.get?_rawRequest_of_putsAlone hparts hmatch hkey halone
      (lineFeed_notMem_encodeItems items)
    rw [hparser, ParameterParser.build]
    refine (FlatParser.build_list_text rfl rfl hraw).trans ?_
    rw [Binding.arrivedItems_eq hitems]
  refine ⟨hbuild, fun params hparams => ?_, Binding.arrivedItems_eq_self_iff items⟩
  unfold Route.boundParams at hparams
  rw [hb] at hparams
  rw [hname] at hmodel ⊢
  exact get?_bindFrom_textList hC hmade (fun hkind => (hmodel hkind).1)
    (fun hkind => (hmodel hkind).2) hbound (by rwa [hlocation]) hparams

/-- A shape with a list of texts in the path. -/
def tagShape : Classes :=
  ({} : Classes).define
    { name := "TagPath", body := .record false,
      fields := [
        { name := "tags", default := .required,
          hint := .annotated (.collection .list (.builtin .text))
            [.parameter { location := .path }] }] }

/-- A route that has the list in a segment of its own. -/
def tagged : RouteDescription where
  method := "GET"
  path := .one "/tagged/\x7btags\x7d"
  params := some (.named "TagPath")
  handler := fun _ _ => .ok .null

/-- A request with two tags, one of which holds a comma, and the other one a blank in front. -/
def taggedRequest : Request where
  method := "GET"
  path := "/tagged/a%2Cb,%20c"

/-- The field of the shape, and how it is bound. -/
def tagsBound : BoundField ParameterParser where
  field := {
    name := "tags", wireName := "tags", initName := "tags",
    type := .array .list (.leaf (.scalar .text) false []) false [.parameter { location := .path }],
    default := none, parameter := some { location := .path } }
  parser := .flat (.list .list ⟨.scalar .text, [], false⟩ .simple false)
  location := .path
  key := "tags"

/-- Two tags arrive as three. -/
theorem Reachable.textList_arrives_tags :
    let app := ((ofSettings {}).perform tagShape (.register {} tagged)).2
    ∃ r values b, Reachable tagShape app ∧ app.target taggedRequest = .ok (.route r values) ∧
      r.binder = some b ∧ tagsBound ∈ b.fields ∧
      Template.PutsAlone r.template taggedRequest.path "tags"
        (String.ofList (Percent.encodeItems ',' ["a,b", " c"])) ∧
      tagsBound.parser.build tagShape "tags" ((r.rawRequest taggedRequest values).at? .path) =
        .ok (some (.list [.text "a", .text "b", .text "c"])) := by
  intro app
  let b : Binder := ⟨⟨"TagPath", [tagsBound.field]⟩, [tagsBound]⟩
  let r : Route := routeAt tagShape tagged (some b) "/tagged/\x7btags\x7d"
  have hreach : Reachable tagShape app := (Reachable.start {}).step _
  have hdescribed : tagShape.Described := .define .empty rfl (by simp)
  have htarget : app.target taggedRequest = .ok (.route r ["a%2Cb,%20c"]) := rfl
  have halone : Template.PutsAlone r.template taggedRequest.path "tags"
      (String.ofList (Percent.encodeItems ',' ["a,b", " c"])) := by
    unfold Template.PutsAlone
    decide
  have hbound : tagsBound ∈ b.fields := List.mem_cons_self
  have hbuild := (hreach.textList_arrives hdescribed.wellFormed htarget rfl hbound rfl rfl rfl
    (fun hmodel => (nomatch hmodel)) (List.cons_ne_nil _ _) halone).1
  exact ⟨r, _, b, hreach, htarget, rfl, hbound, halone, hbuild⟩

end Application

end HttpContract
