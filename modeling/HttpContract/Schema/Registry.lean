import HttpContract.Schema.Basic
import HttpContract.Failure

/-!
# Named schemas

The schemas of one document by name. A name is reserved for a class before its schema is made, so
that the schema may refer to itself, and from then on belongs to that class. Freezing ends all
reservations.
-/

namespace HttpContract

/-- A reserved name, the class that it belongs to, and its schema once that is made. -/
structure SchemaEntry where
  name : String
  owner : String
  schema : Option Schema := none
  deriving Repr

/-- The named schemas of a document, in the order of reservation. -/
structure SchemaRegistry where
  entries : List SchemaEntry := []
  frozen : Bool := false
  deriving Repr

namespace SchemaRegistry

/-- The entry of a name. -/
def find? (r : SchemaRegistry) (name : String) : Option SchemaEntry :=
  r.entries.find? (·.name = name)

/-- Whether a name is reserved. -/
def contains (r : SchemaRegistry) (name : String) : Bool := (r.find? name).isSome

/-- The schema of a name, none while it is not made. -/
def schema? (r : SchemaRegistry) (name : String) : Option Schema :=
  (r.find? name).bind (·.schema)

/-- The finished schemas by name. -/
def schemas (r : SchemaRegistry) : List (String × Schema) :=
  r.entries.filterMap fun entry => entry.schema.map (entry.name, ·)

/-- Claims a name for a class. The answer tells whether the name is new, so that its schema must be
made now; it is not when the class has the name already. -/
def reserve (r : SchemaRegistry) (name owner : String) :
    Except ConfigurationError (Bool × SchemaRegistry) :=
  if r.frozen then .error (.closed ("schema " ++ quoted name))
  else match r.find? name with
    | none => .ok (true, { r with entries := r.entries ++ [{ name, owner }] })
    | some entry =>
      if entry.owner = owner then .ok (false, r)
      else .error (.schemaConflict name (classPath entry.owner) (classPath owner))

/-- The registry with the schema of a reserved name. -/
def complete (r : SchemaRegistry) (name : String) (schema : Schema) : SchemaRegistry :=
  { r with
    entries := r.entries.map fun entry =>
      if entry.name = name then { entry with schema := some schema } else entry }

/-- The registry closed to reservations. -/
def freeze (r : SchemaRegistry) : SchemaRegistry := { r with frozen := true }

/-- The names that a registry holds are those of its entries. -/
theorem contains_iff (r : SchemaRegistry) (name : String) :
    r.contains name = true ↔ name ∈ r.entries.map (·.name) := by
  rw [contains, find?, List.find?_isSome, List.mem_map]
  simp

/-- Completing a schema reserves nothing. -/
theorem names_complete (r : SchemaRegistry) (name : String) (schema : Schema) :
    (r.complete name schema).entries.map (·.name) = r.entries.map (·.name) := by
  simp only [complete, List.map_map]
  congr 1
  funext entry
  simp only [Function.comp_apply]
  split <;> rfl

end SchemaRegistry

end HttpContract
