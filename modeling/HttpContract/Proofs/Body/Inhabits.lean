import HttpContract.Body.Writer
import HttpContract.Proofs.Hierarchies

/-!
# Values of a type

Which values a resolved type has: at each scalar position one of exactly that type which the
constraints in force leave as it is, at each position of a class a member or a record of exactly
that class, and at the position of a base one of its variants.
-/

namespace HttpContract

/-- The values of exactly a scalar type. A double is finite, and the text of an identifier, a date
or a time reads back. -/
inductive Scalar.Holds : Scalar → Value → Prop
  | text (s : String) : Holds .text (.text s)
  | integer (n : Int) : Holds .integer (.number (.int n))
  | number {x : Double} (hfinite : x.isFinite = true) : Holds .number (.number (.float x))
  | boolean (b : Bool) : Holds .boolean (.bool b)
  | uuid {u : Uuid} (hread : Uuid.parse? u.toText = some u) : Holds .uuid (.uuid u)
  | date {d : Date} (hread : Date.parse? d.toText = some d) : Holds .date (.date d)
  | dateTime {t : DateTime} (hread : DateTime.parse? t.toText = some t) :
      Holds .dateTime (.dateTime t)

/-- The values that the members of an enumeration may have to be written and read: texts, truth
values, integers and finite doubles. -/
inductive Value.IsListable : Value → Prop
  | text (s : String) : IsListable (.text s)
  | bool (b : Bool) : IsListable (.bool b)
  | int (n : Int) : IsListable (.number (.int n))
  | float {x : Double} (hfinite : x.isFinite = true) : IsListable (.number (.float x))

namespace Container

/-- The value that holds items in a container. -/
def hold : Container → List Value → Value
  | .list, items => .list items
  | .tuple, items => .tuple items
  | .set, items => .set false items
  | .frozenset, items => .set true items

/-- Whether a container can hold just these items: those of a set have a hash and are distinct. -/
def Fits (C : Classes) : Container → List Value → Prop
  | .list, _ | .tuple, _ => True
  | .set, items | .frozenset, items =>
    items.findSome? (Body.unhashable? C) = none ∧ Value.withoutRepeats items = items

end Container

namespace Classes

/-- The values of a type, under constraints that come from the arrays around it. -/
inductive Inhabits (C : Classes) : TypeInfo → List Constraint → Value → Prop
  | null {type : TypeInfo} {constraints : List Constraint} (hnullable : type.nullable = true) :
      Inhabits C type constraints .null
  | scalar {type : Scalar} {nullable : Bool} {notes : List Note} {constraints : List Constraint}
      {v : Value} (hv : type.Holds v)
      (hkept : Body.takesConstraints type = true →
        applyConstraints (constraints ++ constraintsIn notes) v "" = .ok v) :
      Inhabits C (.leaf (.scalar type) nullable notes) constraints v
  | member {name : String} {nullable : Bool} {notes : List Note} {constraints : List Constraint}
      {e : Enumeration} {m : String × Value} (he : C.enumeration? name = some e)
      (hvalues : ∀ m ∈ e.members, m.2.IsListable) (hm : m ∈ e.members) :
      Inhabits C (.leaf (.enumeration name) nullable notes) constraints (Body.memberValue name e m)
  | array {container : Container} {item : TypeInfo} {nullable : Bool} {notes : List Note}
      {constraints : List Constraint} {items : List Value} (hfits : container.Fits C items)
      (hitems : ∀ v ∈ items, Inhabits C item (constraints ++ constraintsIn notes) v) :
      Inhabits C (.array container item nullable notes) constraints (container.hold items)
  | map {item : TypeInfo} {nullable : Bool} {notes : List Note} {constraints : List Constraint}
      {entries : Table String Value} (hkeys : entries.Distinct)
      (hvalues : ∀ entry ∈ entries, Inhabits C item [] entry.2) :
      Inhabits C (.map item nullable notes) constraints
        (.dict (entries.map fun entry => (.text entry.1, entry.2)))
  | record {name : String} {nullable : Bool} {notes : List Note} {constraints : List Constraint}
      {shape : Shape} {given attributes : List (String × Value)} {value : Field → Value}
      (hplain : C.isModel name = false) (hshape : C.shape name = .ok shape)
      (hmade : C.construct shape given = .ok (.record name attributes))
      (hvalue : ∀ f ∈ shape.fields, Table.get? f.name attributes = some (value f))
      (hfields : ∀ f ∈ shape.fields, Inhabits C f.type [] (value f)) :
      Inhabits C (.leaf (.record name) nullable notes) constraints (.record name attributes)
  | variant {base : String} {nullable : Bool} {notes : List Note} {constraints : List Constraint}
      {h : Hierarchy} {tag name : String} {attributes : List (String × Value)}
      (hh : C.hierarchy base = .ok h) (hv : (tag, name) ∈ h.variants)
      (honly : ∀ a ∈ (C.ancestry name).tail, C.isPolymorphic a = true → a = base)
      (hrecord : Inhabits C (.leaf (.record name) false []) [] (.record name attributes)) :
      Inhabits C (.leaf (.polymorphic base) nullable notes) constraints (.record name attributes)

end Classes

end HttpContract
