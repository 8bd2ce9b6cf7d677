/-!
# Tables

Values by key, in the order in which the keys were first given. A table is only ever changed at one
key, so its keys stay distinct, and the value of every other key stays what it was.
-/

namespace HttpContract

/-- Values by key, the key first given in front. -/
abbrev Table (κ ν : Type) := List (κ × ν)

namespace Table

variable {κ ν : Type}

/-- The keys in order. -/
def keys (t : Table κ ν) : List κ := t.map (·.1)

/-- No key stands twice. -/
def Distinct (t : Table κ ν) : Prop := (keys t).Nodup

variable [DecidableEq κ]

/-- The value of a key: that of the first entry with it. -/
def get? (key : κ) : Table κ ν → Option ν
  | [] => none
  | (k, v) :: rest => if k = key then some v else get? key rest

/-- The table with the value of a key made from the one it had: in its place, or else at the end. -/
def update (key : κ) (f : Option ν → ν) : Table κ ν → Table κ ν
  | [] => [(key, f none)]
  | (k, v) :: rest => if k = key then (k, f (some v)) :: rest else (k, v) :: update key f rest

/-- The table with the value of a key replaced, or given at the end. -/
def set (key : κ) (value : ν) (t : Table κ ν) : Table κ ν := update key (fun _ => value) t

/-- The table of bindings made one after the other: of several for one key the last one counts. -/
def ofBindings (bindings : List (κ × ν)) : Table κ ν :=
  bindings.foldl (fun t entry => set entry.1 entry.2 t) []

/-- An update is seen at its own key only. -/
theorem get?_update (key other : κ) (f : Option ν → ν) (t : Table κ ν) :
    get? other (update key f t) = if other = key then some (f (get? key t)) else get? other t := by
  induction t with
  | nil =>
    by_cases h : other = key
    · simp [update, get?, h]
    · simp [update, get?, h, Ne.symm h]
  | cons entry rest ih =>
    obtain ⟨k, v⟩ := entry
    by_cases hk : k = key
    · subst hk
      by_cases h : other = k
      · simp [update, get?, h]
      · simp [update, get?, h, Ne.symm h]
    · by_cases h : k = other
      · subst h
        simp [update, get?, hk]
      · simp [update, get?, hk, h, ih]

/-- A key that is set has its new value, and no other key notices. -/
theorem get?_set (key other : κ) (value : ν) (t : Table κ ν) :
    get? other (set key value t) = if other = key then some value else get? other t :=
  get?_update key other _ t

/-- Only the keys of a table have values. -/
theorem get?_eq_none_iff (key : κ) (t : Table κ ν) : get? key t = none ↔ key ∉ keys t := by
  induction t with
  | nil => simp [get?, keys]
  | cons entry rest ih =>
    obtain ⟨k, v⟩ := entry
    by_cases h : k = key
    · simp [get?, keys, h]
    · simpa [get?, keys, h, Ne.symm h] using ih

/-- An update leaves the keys as they are, or adds its own at the end. -/
theorem keys_update (key : κ) (f : Option ν → ν) (t : Table κ ν) :
    keys (update key f t) = if key ∈ keys t then keys t else keys t ++ [key] := by
  induction t with
  | nil => simp [update, keys]
  | cons entry rest ih =>
    obtain ⟨k, v⟩ := entry
    by_cases h : k = key
    · simp [update, keys, h]
    · simp only [keys] at ih
      by_cases hm : key ∈ rest.map (·.1) <;> simp [update, keys, h, Ne.symm h, ih, hm]

/-- Keys stay distinct under an update. -/
theorem Distinct.update {t : Table κ ν} (h : Distinct t) (key : κ) (f : Option ν → ν) :
    Distinct (Table.update key f t) := by
  rw [Distinct, keys_update]
  by_cases hm : key ∈ keys t
  · rw [if_pos hm]
    exact h
  · rw [if_neg hm, List.nodup_append]
    refine ⟨h, by simp, ?_⟩
    intro a ha b hb
    rw [List.mem_singleton] at hb
    subst hb
    exact fun hab => hm (hab ▸ ha)

/-- Keys stay distinct when one is set. -/
theorem Distinct.set {t : Table κ ν} (h : Distinct t) (key : κ) (value : ν) :
    Distinct (Table.set key value t) :=
  h.update key _

end Table

end HttpContract
