import HttpContract.Settings

/-!
# Tags

Tags group operations. The table of a document lists each name once, where it was first given; a
description that is missing is filled in by the first one given later.
-/

namespace HttpContract

/-- A tag of a document. A description may be absent, or be given as null. -/
structure Tag where
  name : String
  description : Option (Option String) := none
  deriving DecidableEq, Repr

/-- What may be given as a tag: a name, a tag, or the member of an enumeration with its value. -/
inductive TagSource where
  | name (name : String)
  | tag (tag : Tag)
  | member (name : String) (value : Value)
  deriving Repr

namespace Tag

/-- The text of a description. -/
def text? (t : Tag) : Option String := t.description.join

/-- How a tag is written. -/
def toJson (t : Tag) : Json :=
  .object <| ("name", .text t.name) ::
    match t.description with
    | none => []
    | some description => [("description", (description.map Json.text).getD .null)]

/-- The description that settings give a name. -/
def settled? (settings : Settings) (name : String) : Option String :=
  Table.get? name settings.tags

/-- The tag that a source stands for. A plain name is described by the settings, a member by its
value or else by the settings. -/
def ofSource (settings : Settings) : TagSource → Tag
  | .tag t => t
  | .name name => ⟨name, (settled? settings name).map some⟩
  | .member name value =>
    match value.asText? with
    | some text => ⟨name, some (if text.isEmpty then settled? settings name else some text)⟩
    | none => ⟨name, some (settled? settings name)⟩

/-- A tag with the description of an incoming one of its name, if it has none itself. -/
def filledBy (incoming t : Tag) : Tag :=
  if t.name = incoming.name ∧ t.text?.isNone ∧ incoming.text?.isSome then
    { t with description := incoming.description }
  else t

/-- Tags with an incoming one: a known name is only filled in, a new one stands at the end. -/
def addTo (tags : List Tag) (incoming : Tag) : List Tag :=
  if tags.any (·.name = incoming.name) then tags.map (filledBy incoming)
  else tags ++ [incoming]

/-- A description that is filled in leaves the name as it is. -/
theorem name_filledBy (incoming t : Tag) : (filledBy incoming t).name = t.name := by
  unfold filledBy
  split <;> rfl

/-- A tag is listed once, where its name was first given. -/
theorem names_addTo (tags : List Tag) (incoming : Tag) :
    (addTo tags incoming).map (·.name) =
      if incoming.name ∈ tags.map (·.name) then tags.map (·.name)
      else tags.map (·.name) ++ [incoming.name] := by
  by_cases h : incoming.name ∈ tags.map (·.name)
  · have ha : tags.any (·.name = incoming.name) = true := by
      simpa using h
    rw [addTo, if_pos ha, if_pos h, List.map_map]
    congr 1
    funext t
    exact name_filledBy incoming t
  · have ha : ¬ tags.any (·.name = incoming.name) = true := by
      simpa using h
    rw [addTo, if_neg ha, if_neg h]
    simp

end Tag

end HttpContract
