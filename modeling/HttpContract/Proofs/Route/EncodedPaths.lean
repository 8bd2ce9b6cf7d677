import HttpContract.Proofs.Application.Targets
import HttpContract.Proofs.Route.Percent
import HttpContract.Proofs.Route.Templates
import HttpContract.Proofs.Tables

/-!
# Encoded values in a path

A path is made of a template by putting encoded texts in the places of its variables. When no
segment of the template has two variables, the path can be read in one way only, and a request for
it arrives with exactly these texts.
-/

namespace HttpContract

namespace Template

variable {c : Char} {text path : List Char} {parts behind : Template} {values : List (List Char)}

/-- Whether parts are at their end, or a slash comes next. -/
def EndsSegment (parts : Template) : Prop := parts = [] ∨ ∃ rest, parts = .letter '/' :: rest

/-- Whether no variable has another one behind it in its segment. -/
inductive Sparse : Template → Prop
  | nil : Sparse []
  | letter {c : Char} {parts : Template} (h : Sparse parts) : Sparse (.letter c :: parts)
  | capture {name letters : List Char} {behind : Template} (hletters : '/' ∉ letters)
      (hbehind : EndsSegment behind) (h : Sparse (letters.map .letter ++ behind)) :
      Sparse (.capture name :: (letters.map .letter ++ behind))

section Splitting

/-- A segment that comes again behind a text without slashes comes right away. -/
theorem eq_nil_of_segment {extra segment front back : List Char} (hextra : '/' ∉ extra)
    (hsegment : '/' ∉ segment) (hfront : front = [] ∨ ∃ rest, front = '/' :: rest)
    (h : segment ++ front = extra ++ (segment ++ back)) : extra = [] := by
  have hlength := congrArg List.length h
  simp only [List.length_append] at hlength
  rcases hfront with rfl | ⟨rest, rfl⟩
  · rw [List.length_nil] at hlength
    exact List.length_eq_zero_iff.mp (by omega)
  · rw [← List.append_assoc, List.append_eq_append_iff] at h
    rcases h with ⟨between, heq, hrest⟩ | ⟨between, heq, _⟩
    · cases between with
      | nil =>
        have hequal := congrArg List.length heq
        simp only [List.length_append, List.length_nil] at hequal
        exact List.length_eq_zero_iff.mp (by omega)
      | cons d between =>
        obtain ⟨rfl, _⟩ := List.cons_eq_cons.mp hrest
        have hmem : '/' ∈ extra ++ segment := by
          rw [heq]
          exact List.mem_append_right _ List.mem_cons_self
        rcases List.mem_append.mp hmem with hmem | hmem
        · exact absurd hmem hextra
        · exact absurd hmem hsegment
    · have hequal := congrArg List.length heq
      simp only [List.length_append] at hequal
      exact List.length_eq_zero_iff.mp (by omega)

/-- A path that is spelled by parts at the end of a segment is at an end, or a slash comes next. -/
theorem EndsSegment.of_spells (h : EndsSegment parts) (hspells : Spells parts values path) :
    path = [] ∨ ∃ rest, path = '/' :: rest := by
  rcases h with rfl | ⟨rest, rfl⟩
  · cases hspells
    exact Or.inl rfl
  · cases hspells
    exact Or.inr ⟨_, rfl⟩

/-- Of a path that is spelled by sparse parts the matcher finds the values. -/
theorem Sparse.valuesIn_eq (hsparse : Sparse parts) (h : Spells parts values path) :
    parts.valuesIn path = some values := by
  induction hsparse generalizing values path with
  | nil =>
    cases h
    rfl
  | letter hsparse ih =>
    cases h with
    | letter h =>
      rw [valuesIn, if_pos rfl]
      exact ih h
  | @capture name letters behind hletters hbehind hsparse ih =>
    cases h with
    | @capture _ value _ others rest hvalue h =>
      refine valuesIn_capture_eq_some.mpr
        ⟨value, rest, others, rfl, hvalue, rfl, ih h, fun longer back heq hlonger hlength => ?_⟩
      rw [Option.eq_none_iff_forall_ne_some]
      intro found hfound
      obtain ⟨extra, rfl⟩ : value <+: longer :=
        List.prefix_of_prefix_length_le ⟨rest, rfl⟩ ⟨back, heq.symm⟩ (by omega)
      rw [List.append_assoc] at heq
      have hrest := List.append_cancel_left heq
      obtain ⟨_, ending, rfl, _, hback⟩ := spells_of_valuesIn hfound
      obtain ⟨_, _, _, last, _, rfl, hfirst, _⟩ := spells_append_iff.mp hback
      obtain ⟨_, _, _, tail, _, rfl, hsegment, htail⟩ := spells_append_iff.mp h
      obtain ⟨_, rfl⟩ := spells_letters_iff.mp hfirst
      obtain ⟨_, rfl⟩ := spells_letters_iff.mp hsegment
      rw [List.append_assoc] at hrest
      have hextra : '/' ∉ extra := fun hmem => hlonger.2 (List.mem_append_right _ hmem)
      obtain rfl := eq_nil_of_segment hextra hletters (hbehind.of_spells htail) hrest
      rw [List.append_nil] at hlength
      exact absurd hlength (Nat.lt_irrefl _)

end Splitting

section Segments

/-- A text without slashes and what comes behind the next slash are read separately. -/
theorem parseFrom_append_slash {segment : List Char} (h : '/' ∉ segment) (rest : List Char) :
    parseFrom 0 (segment ++ '/' :: rest) =
      parseFrom 0 segment ++ .letter '/' :: parseFrom 0 rest := by
  induction segment using text_induction with
  | nil =>
    refine parseFrom_letter ?_
    rintro ⟨name, behind, _, heq⟩
    cases heq
  | capture name text hname ih =>
    have htext : '/' ∉ text := fun hmem =>
      h (List.mem_cons_of_mem _ (List.mem_append_right _ (List.mem_cons_of_mem _ hmem)))
    rw [parseFrom_variable hname, List.cons_append, List.append_assoc, List.cons_append,
      parseFrom_variable hname, ih htext, List.cons_append]
  | letter c text hletter ih =>
    have htext : '/' ∉ text := fun hmem => h (List.mem_cons_of_mem _ hmem)
    have hlonger : ¬Opens (c :: (text ++ '/' :: rest)) := by
      rintro ⟨name, behind, hname, htext⟩
      obtain ⟨rfl, htail⟩ := List.cons_eq_cons.mp htext
      rcases List.append_eq_append_iff.mp htail with ⟨between, rfl, heq⟩ | ⟨between, rfl, heq⟩
      · cases between with
        | nil => cases heq
        | cons d between =>
          obtain ⟨rfl, _⟩ := List.cons_eq_cons.mp heq
          exact hname.2.2.2 (List.mem_append_right _ List.mem_cons_self)
      · cases between with
        | nil => cases heq
        | cons d between =>
          obtain ⟨rfl, _⟩ := List.cons_eq_cons.mp heq
          exact hletter ⟨name, between, hname, rfl⟩
    rw [parseFrom_letter hletter, List.cons_append, parseFrom_letter hlonger, ih htext,
      List.cons_append]

/-- The letters of a text stand in it. -/
theorem mem_of_letter_mem (h : .letter c ∈ parseFrom 0 text) : c ∈ text := by
  induction text using text_induction with
  | nil => cases h
  | capture name text hname ih =>
    rw [parseFrom_variable hname] at h
    have hrest := ih ((List.mem_cons.mp h).resolve_left fun heq => (nomatch heq))
    exact List.mem_cons_of_mem _ (List.mem_append_right _ (List.mem_cons_of_mem _ hrest))
  | letter d text hletter ih =>
    rw [parseFrom_letter hletter] at h
    rcases List.mem_cons.mp h with heq | h
    · cases heq
      exact List.mem_cons_self
    · exact List.mem_cons_of_mem _ (ih h)

/-- Parts without variables are letters. -/
theorem exists_letters (h : names parts = []) : ∃ letters, parts = List.map .letter letters := by
  induction parts with
  | nil => exact ⟨[], rfl⟩
  | cons part parts ih =>
    cases part with
    | letter c =>
      obtain ⟨letters, rfl⟩ := ih h
      exact ⟨c :: letters, rfl⟩
    | capture name => cases h

/-- A segment with at most one variable keeps parts sparse. -/
theorem Sparse.of_segment (hletters : .letter '/' ∉ parts) (hnames : (names parts).length ≤ 1)
    (hbehind : EndsSegment behind) (h : Sparse behind) : Sparse (parts ++ behind) := by
  induction parts with
  | nil => exact h
  | cons part parts ih =>
    have hrest : .letter '/' ∉ parts := fun hmem => hletters (List.mem_cons_of_mem _ hmem)
    cases part with
    | letter c => exact .letter (ih hrest hnames)
    | capture name =>
      rw [names_capture, List.length_cons] at hnames
      have hnone : names parts = [] := List.length_eq_zero_iff.mp (by omega)
      have hsparse := ih hrest (by omega)
      obtain ⟨letters, rfl⟩ := exists_letters hnone
      refine .capture (fun hmem => hrest ?_) hbehind hsparse
      exact List.mem_map_of_mem hmem

/-- A text none of whose segments has two variables has sparse parts. -/
theorem sparse_of_segments {segments : List (List Char)}
    (h : ∀ segment ∈ segments, '/' ∉ segment ∧ (names (parseFrom 0 segment)).length ≤ 1) :
    Sparse (parseFrom 0 (['/'].intercalate segments)) := by
  induction segments with
  | nil => exact .nil
  | cons first others ih =>
    obtain ⟨hslash, hnames⟩ := h first List.mem_cons_self
    have hletters : .letter '/' ∉ parseFrom 0 first := fun hmem => hslash (mem_of_letter_mem hmem)
    cases others with
    | nil =>
      rw [List.intercalate_singleton, ← List.append_nil (parseFrom 0 first)]
      exact .of_segment hletters hnames (Or.inl rfl) .nil
    | cons second others =>
      rw [List.intercalate_cons_cons, List.append_assoc, List.singleton_append,
        parseFrom_append_slash hslash]
      refine .of_segment hletters hnames (Or.inr ⟨_, rfl⟩) (.letter (ih fun segment hsegment => ?_))
      exact h segment (List.mem_cons_of_mem _ hsegment)

end Segments

/-- The path that a template makes with a value for every name. -/
def fill (parts : Template) (value : String → String) : String :=
  String.ofList (parts.flatMap fun
    | .letter c => [c]
    | .capture name => (value (String.ofList name)).toList)

/-- A template is filled so that its parts spell the path. -/
theorem spells_fill {value : String → String}
    (h : ∀ name ∈ names parts, IsValue (value name).toList) :
    Spells parts ((names parts).map fun name => (value name).toList) (fill parts value).toList := by
  rw [fill, String.toList_ofList]
  induction parts with
  | nil => exact .nil
  | cons part parts ih =>
    cases part with
    | letter c => exact .letter (ih h)
    | capture name =>
      have hfirst := h (String.ofList name) List.mem_cons_self
      exact .capture hfirst (ih fun other hother => h other (List.mem_cons_of_mem _ hother))

end Template

/-- In a table that a function makes of some keys, only these keys have values. -/
theorem Table.get?_map_pair {κ ν : Type} [DecidableEq κ] (f : κ → ν) (keys : List κ) (key : κ) :
    Table.get? key (keys.map fun k => (k, f k)) = if key ∈ keys then some (f key) else none := by
  induction keys with
  | nil => rfl
  | cons first rest ih =>
    rw [List.map_cons, Table.get?]
    by_cases h : first = key
    · rw [if_pos h, if_pos (h ▸ List.mem_cons_self), h]
    · have hmem : key ∈ first :: rest ↔ key ∈ rest := by
        rw [List.mem_cons]
        exact or_iff_right fun heq => h heq.symm
      rw [if_neg h, ih]
      simp only [hmem]

namespace Template

/-- The values of variables reach the parameters of a request. Of a template without two variables
in a segment, filled with texts that are encoded, the path is matched by the expression that the
template stands for, whose groups take the encoded texts; and a route with the template gives its
parameters exactly the texts. -/
theorem fill_encode_arrives (template : String) (value : String → String)
    (hsegments : ∀ segment ∈ splitText '/' template, (parse segment).names.length ≤ 1)
    (hvalue : ∀ name ∈ (parse template).names, value name ≠ "") :
    let path := (parse template).fill fun name => Percent.encode (value name)
    Replaces template.toList
        ((parse template).names.map fun name => (name, Percent.encode (value name))) path.toList ∧
      Pattern.groupsAtFront? (parse template).regex path =
        some ((parse template).names.map fun name => Percent.encode (value name)) ∧
      ∀ (app : Application) (request : Request) (r : Route) (values : List String),
        app.target request = .ok (.route r values) → r.parts = parse template →
        request.path = path → ∀ name, Table.get? name (r.rawRequest request values).path =
          if name ∈ (parse template).names then some [value name] else none := by
  intro path
  have hvalues : ∀ name ∈ (parse template).names, IsValue (Percent.encode (value name)).toList := by
    intro name hname
    exact ⟨Percent.toList_encode_ne_nil (hvalue name hname), Percent.slash_notMem_encode _⟩
  have hspells : Spells (parse template)
      ((parse template).names.map fun name => (Percent.encode (value name)).toList) path.toList :=
    spells_fill hvalues
  have hsplit : ∀ segment ∈ splitAtEach '/' template.toList,
      '/' ∉ segment ∧ (names (parseFrom 0 segment)).length ≤ 1 := by
    intro segment hsegment
    have hnames := hsegments _ (List.mem_map_of_mem hsegment)
    rw [parse, String.toList_ofList] at hnames
    exact ⟨not_mem_of_mem_splitAtEach hsegment, hnames⟩
  have hsparse : Sparse (parse template) := by
    have hparts := sparse_of_segments hsplit
    rwa [intercalate_splitAtEach] at hparts
  have hmatch : (parse template).match? path =
      some ((parse template).names.map fun name => Percent.encode (value name)) := by
    rw [match?, hsparse.valuesIn_eq hspells, Option.map_some, List.map_map]
    exact congrArg some (List.map_congr_left fun name _ => String.ofList_toList)
  refine ⟨replaces_iff.mpr ⟨?_, ?_⟩, (Pattern.groupsAtFront?_regex _ _).trans hmatch, ?_⟩
  · rw [List.map_map]
    exact List.map_id _
  · rw [List.map_map]
    exact hspells
  · rintro app request r values htarget hparts hpath name
    have hfound := (Application.match?_of_target htarget).2
    rw [hparts, hpath, hmatch] at hfound
    obtain rfl := Option.some.inj hfound
    have hpairs : (r.rawRequest request
        ((parse template).names.map fun name => Percent.encode (value name))).path =
        ((parse template).names.reverse).map fun name => (name, [value name]) := by
      unfold Route.rawRequest
      dsimp only
      rw [hparts, ← List.map_prod_left_eq_zip, List.map_map, List.map_reverse]
      refine congrArg List.reverse (List.map_congr_left fun name _ => ?_)
      exact congrArg (fun text => (name, [text])) (Percent.decode_encode (value name))
    rw [hpairs, Table.get?_map_pair]
    simp only [List.mem_reverse]

/-- A template with two variables, in two segments. -/
def petTemplate : String := "/owners/\x7bowner\x7d/pets/\x7bpet\x7d.json"

/-- Names with a slash, blanks, a percent sign and a letter beyond ASCII. -/
def petNames (name : String) : String := if name = "owner" then "a/b" else "é 5%"

/-- Both names arrive as they were before they were encoded. -/
theorem fill_encode_arrives_pets :
    (parse petTemplate).match? "/owners/a%2Fb/pets/%C3%A9%205%25.json" =
        some ["a%2Fb", "%C3%A9%205%25"] ∧
      ∀ (app : Application) (request : Request) (r : Route) (values : List String),
        app.target request = .ok (.route r values) → r.parts = parse petTemplate →
        request.path = "/owners/a%2Fb/pets/%C3%A9%205%25.json" →
        Table.get? "owner" (r.rawRequest request values).path = some ["a/b"] ∧
          Table.get? "pet" (r.rawRequest request values).path = some ["é 5%"] := by
  obtain ⟨_, hmatch, harrives⟩ :=
    fill_encode_arrives petTemplate petNames (by decide) (by decide)
  rw [Pattern.groupsAtFront?_regex] at hmatch
  refine ⟨hmatch, fun app request r values htarget hparts hpath => ⟨?_, ?_⟩⟩
  · exact harrives app request r values htarget hparts hpath "owner"
  · exact harrives app request r values htarget hparts hpath "pet"

end Template

end HttpContract
