import HttpContract.Proofs.Body.RoundTrip

/-!
# Values that cannot be written

Writing a value fails for one of three reasons: a class among its records has no declaration, or its
base has none; something in it is no JSON value at all, or a key without a text; or a record in it
lacks an attribute that its class declares. The first is a failure of describing classes, the other
two are faults.
-/

namespace HttpContract

/-- Where values stand: a value itself, and what stands in the items, the values of entries, the
value of a member and the attributes that it holds. -/
inductive Value.Within (w : Value) : Value → Prop
  | here : Within w w
  | list {items : List Value} {v : Value} (hv : v ∈ items) (h : Within w v) : Within w (.list items)
  | tuple {items : List Value} {v : Value} (hv : v ∈ items) (h : Within w v) :
      Within w (.tuple items)
  | set {frozen : Bool} {items : List Value} {v : Value} (hv : v ∈ items) (h : Within w v) :
      Within w (.set frozen items)
  | dict {entries : List (Value × Value)} {entry : Value × Value} (hentry : entry ∈ entries)
      (h : Within w entry.2) : Within w (.dict entries)
  | member {enumeration name : String} {mixin : EnumMixin} {v : Value} (h : Within w v) :
      Within w (.member enumeration name mixin v)
  | record {className : String} {attributes : List (String × Value)} {entry : String × Value}
      (hentry : entry ∈ attributes) (h : Within w entry.2) : Within w (.record className attributes)

/-- The fault of writing a value that is no JSON value, or a dictionary with a key that has no
text. -/
def Value.formless? : Value → Option Fault
  | .decimal _ => some (.notSerializable "Decimal")
  | .bytes _ => some (.notSerializable "bytes")
  | .opaqueObject => some (.notSerializable "object")
  | .dict entries => if entries.all (·.1.hasText) then none else some .tooManyDigits
  | _ => none

/-- The fault of what has no JSON form is that it is of no type of JSON values, or that a key has
too many digits. -/
theorem Value.exists_of_formless? {v : Value} {fault : Fault} (h : v.formless? = some fault) :
    (∃ type, fault = .notSerializable type) ∨ fault = .tooManyDigits := by
  cases v with
  | decimal _ | bytes _ | opaqueObject => exact Or.inl ⟨_, (Option.some.inj h).symm⟩
  | dict entries =>
    rw [formless?] at h
    split at h
    · cases h
    · exact Or.inr (Option.some.inj h).symm
  | _ => cases h

/-- Whether a value is a record without an attribute that its class declares, and the fault of
writing it. -/
inductive Value.Lacks (C : Classes) : Value → Fault → Prop
  | field {className : String} {shape : Shape} {f : Field} {attributes : List (String × Value)}
      (hshape : C.shape className = .ok shape) (hf : f ∈ shape.fields)
      (hnone : Table.get? f.name attributes = none) :
      Lacks C (.record className attributes) (.noOperation className f.name)

namespace Body

variable {C : Classes} {e : Failure}

/-- Whether a failure is one of writing a value: of declaring a class, or the fault of something
that stands in it. -/
def Blocks (C : Classes) (v : Value) (e : Failure) : Prop :=
  (∃ c, e = .ofConfiguration c) ∨
    ∃ (w : Value) (fault : Fault), e = .fault fault ∧ w.Within v ∧
      (w.formless? = some fault ∨ w.Lacks C fault)

/-- What blocks the writing of a part blocks that of the whole. -/
theorem Blocks.imp {v u : Value} (h : Blocks C v e)
    (hwithin : ∀ w : Value, w.Within v → w.Within u) : Blocks C u e := by
  rcases h with hconfiguration | ⟨w, fault, rfl, hw, hfault⟩
  · exact Or.inl hconfiguration
  · exact Or.inr ⟨w, fault, rfl, hwithin w hw, hfault⟩

/-- What must be configured fails as describing classes does. -/
theorem exists_of_configured {α : Type} {x : Except ConfigurationError α}
    (h : configured x = .error e) : ∃ c, e = .ofConfiguration c := by
  obtain ⟨c, _, rfl⟩ := mapError_eq_error_iff.mp h
  exact ⟨c, rfl⟩

/-- Steps through a list fail where one of them does. -/
theorem exists_of_foldlM_error {ε α β : Type} {f : β → α → Except ε β} {xs : List α} {init : β}
    {e : ε} (h : xs.foldlM f init = .error e) : ∃ x ∈ xs, ∃ acc, f acc x = .error e := by
  induction xs generalizing init with
  | nil => cases h
  | cons x rest ih =>
    rw [List.foldlM_cons] at h
    obtain hx | ⟨acc, _, hrest⟩ := bind_eq_error_iff.mp h
    · exact ⟨x, List.mem_cons_self, init, hx⟩
    · obtain ⟨y, hy, acc, hstep⟩ := ih hrest
      exact ⟨y, List.mem_cons_of_mem _ hy, acc, hstep⟩

/-- A record is not written for want of a declaration, or of an attribute that its class declares,
or because one of its attributes is not written. -/
theorem blocks_of_recordMembers {className : String} {attributes : List (String × Value)}
    (hattributes : ∀ name, Table.get? name (attributesToJson C attributes) = some (.error e) →
      ∃ entry ∈ attributes, Blocks C entry.2 e)
    (h : recordMembers C className (attributesToJson C attributes) = .error e) :
    Blocks C (.record className attributes) e := by
  obtain hparent | ⟨parent, _, h⟩ := bind_eq_error_iff.mp h
  · exact Or.inl (exists_of_configured hparent)
  · dsimp only at h
    obtain hshape | ⟨shape, hshape, h⟩ := bind_eq_error_iff.mp h
    · exact Or.inl (exists_of_configured hshape)
    · have hshape : C.shape className = .ok shape := mapError_eq_ok_iff.mp hshape
      obtain ⟨f, hf, members, hstep⟩ := exists_of_foldlM_error h
      split at hstep
      · rename_i written hwritten
        obtain herror | ⟨_, _, hstep⟩ := bind_eq_error_iff.mp hstep
        · rw [herror] at hwritten
          obtain ⟨entry, hentry, hblocks⟩ := hattributes f.name hwritten
          exact hblocks.imp fun w => .record hentry
        · cases hstep
      · rename_i hmissing
        obtain rfl := Except.error.inj hstep
        rw [get?_attributesToJson, Option.map_eq_none_iff] at hmissing
        exact Or.inr ⟨_, _, rfl, .here, Or.inr (.field hshape hf hmissing)⟩

mutual

/-- A value is not written because something blocks it. -/
theorem blocks_of_toJson {v : Value} (h : toJson C v = .error e) : Blocks C v e := by
  cases v with
  | null | bool b | number n | text s | uuid u | date d | dateTime t => cases h
  | list items =>
    rw [toJson] at h
    obtain hitems | ⟨_, _, h⟩ := bind_eq_error_iff.mp h
    · obtain ⟨v, hv, hblocks⟩ := blocks_of_itemsToJson hitems
      exact hblocks.imp fun w => .list hv
    · cases h
  | tuple items =>
    rw [toJson] at h
    obtain hitems | ⟨_, _, h⟩ := bind_eq_error_iff.mp h
    · obtain ⟨v, hv, hblocks⟩ := blocks_of_itemsToJson hitems
      exact hblocks.imp fun w => .tuple hv
    · cases h
  | set frozen items =>
    rw [toJson] at h
    obtain hitems | ⟨_, _, h⟩ := bind_eq_error_iff.mp h
    · obtain ⟨v, hv, hblocks⟩ := blocks_of_itemsToJson hitems
      exact hblocks.imp fun w => .set hv
    · cases h
  | dict entries =>
    rw [toJson] at h
    obtain hentries | ⟨_, _, h⟩ := bind_eq_error_iff.mp h
    · obtain ⟨entry, hentry, hblocks | ⟨hkey, rfl⟩⟩ := blocks_of_entriesToJson hentries
      · exact hblocks.imp fun w => .dict hentry
      · have hall : ¬entries.all (·.1.hasText) = true := by
          rw [List.all_eq_true]
          exact fun hall => Bool.false_ne_true (hkey.symm.trans (hall entry hentry))
        exact Or.inr ⟨_, _, rfl, .here, Or.inl (if_neg hall)⟩
    · cases h
  | member enumeration name mixin value =>
    rw [toJson] at h
    exact (blocks_of_toJson h).imp fun w => .member
  | record className attributes =>
    rw [toJson] at h
    obtain hmembers | ⟨_, _, h⟩ := bind_eq_error_iff.mp h
    · exact blocks_of_recordMembers (fun name => blocks_of_attributesToJson) hmembers
    · cases h
  | decimal text =>
    cases h
    exact Or.inr ⟨_, _, rfl, .here, Or.inl rfl⟩
  | bytes data =>
    cases h
    exact Or.inr ⟨_, _, rfl, .here, Or.inl rfl⟩
  | opaqueObject =>
    cases h
    exact Or.inr ⟨_, _, rfl, .here, Or.inl rfl⟩
termination_by structural v

/-- Items are not written because something blocks one of them. -/
theorem blocks_of_itemsToJson {items : List Value} (h : itemsToJson C items = .error e) :
    ∃ v ∈ items, Blocks C v e := by
  cases items with
  | nil => cases h
  | cons v rest =>
    rw [itemsToJson] at h
    obtain hv | ⟨_, _, h⟩ := bind_eq_error_iff.mp h
    · exact ⟨v, List.mem_cons_self, blocks_of_toJson hv⟩
    · obtain hrest | ⟨_, _, h⟩ := bind_eq_error_iff.mp h
      · obtain ⟨u, hu, hblocks⟩ := blocks_of_itemsToJson hrest
        exact ⟨u, List.mem_cons_of_mem _ hu, hblocks⟩
      · cases h
termination_by structural items

/-- Entries are not written because something blocks the value of one of them, or because its key
has no text. -/
theorem blocks_of_entriesToJson {entries : List (Value × Value)} {members : List (String × Json)}
    (h : entriesToJson C entries members = .error e) :
    ∃ entry ∈ entries,
      Blocks C entry.2 e ∨ entry.1.hasText = false ∧ e = .fault .tooManyDigits := by
  cases entries with
  | nil => cases h
  | cons entry rest =>
    obtain ⟨k, v⟩ := entry
    rw [entriesToJson] at h
    obtain hkey | ⟨_, _, h⟩ := bind_eq_error_iff.mp h
    · refine ⟨(k, v), List.mem_cons_self, Or.inr ?_⟩
      unfold keyText at hkey
      split at hkey
      · cases hkey
      · rename_i htext
        exact ⟨by simpa using htext, (Except.error.inj hkey).symm⟩
    · obtain hv | ⟨_, _, h⟩ := bind_eq_error_iff.mp h
      · exact ⟨(k, v), List.mem_cons_self, Or.inl (blocks_of_toJson hv)⟩
      · obtain ⟨entry, hentry, hblocks⟩ := blocks_of_entriesToJson h
        exact ⟨entry, List.mem_cons_of_mem _ hentry, hblocks⟩
termination_by structural entries

/-- An attribute is not written because something blocks its value. -/
theorem blocks_of_attributesToJson {attributes : List (String × Value)} {name : String}
    (h : Table.get? name (attributesToJson C attributes) = some (.error e)) :
    ∃ entry ∈ attributes, Blocks C entry.2 e := by
  cases attributes with
  | nil => cases h
  | cons entry rest =>
    obtain ⟨n, v⟩ := entry
    rw [attributesToJson, Table.get?] at h
    split at h
    · exact ⟨(n, v), List.mem_cons_self, blocks_of_toJson (Option.some.inj h)⟩
    · obtain ⟨entry, hentry, hblocks⟩ := blocks_of_attributesToJson h
      exact ⟨entry, List.mem_cons_of_mem _ hentry, hblocks⟩
termination_by structural attributes

end

end Body

end HttpContract
