import HttpContract.Table
import Mathlib.Data.List.Nodup

/-!
# Reading tables

With distinct keys every entry of a table is the one that its key leads to, and a new key is set
behind all others. A table with one more key answers for that key, and for all others as before.
-/

namespace HttpContract

/-- Among things with distinct names the one with a name is the first that is found by it. -/
theorem find?_of_nodup {α κ : Type} [DecidableEq κ] {name : α → κ} {xs : List α}
    (hnames : (xs.map name).Nodup) {x : α} (hx : x ∈ xs) :
    xs.find? (name · = name x) = some x := by
  cases hfound : xs.find? (name · = name x) with
  | none =>
    rw [List.find?_eq_none] at hfound
    exact absurd (decide_eq_true rfl) (hfound x hx)
  | some other =>
    have hname : name other = name x := by simpa using List.find?_some hfound
    rw [List.inj_on_of_nodup_map hnames (List.mem_of_find?_eq_some hfound) hx hname]

namespace Table

variable {κ ν μ : Type} [DecidableEq κ]

/-- What a key leads to is an entry of the table. -/
theorem mem_of_get? {key : κ} {value : ν} {t : Table κ ν} (h : get? key t = some value) :
    (key, value) ∈ t := by
  induction t with
  | nil => cases h
  | cons entry rest ih =>
    obtain ⟨k, v⟩ := entry
    by_cases hk : k = key
    · simp [get?, hk] at h
      simp [hk, h]
    · rw [get?, if_neg hk] at h
      exact List.mem_cons_of_mem _ (ih h)

/-- With distinct keys every entry is the one that its key leads to. -/
theorem get?_of_mem {key : κ} {value : ν} {t : Table κ ν} (hdistinct : t.Distinct)
    (hmem : (key, value) ∈ t) : get? key t = some value := by
  induction t with
  | nil => cases hmem
  | cons entry rest ih =>
    obtain ⟨k, v⟩ := entry
    rw [Distinct, keys, List.map_cons, List.nodup_cons] at hdistinct
    rcases List.mem_cons.mp hmem with heq | hmem
    · cases heq
      simp [get?]
    · have hne : k ≠ key := by
        rintro rfl
        exact hdistinct.1 (List.mem_map.mpr ⟨_, hmem, rfl⟩)
      rw [get?, if_neg hne]
      exact ih hdistinct.2 hmem

/-- A key that is not in a table is set behind all others. -/
theorem set_of_notMem {key : κ} {value : ν} {t : Table κ ν} (hkey : key ∉ keys t) :
    set key value t = t ++ [(key, value)] := by
  unfold set
  induction t with
  | nil => rfl
  | cons entry rest ih =>
    obtain ⟨k, v⟩ := entry
    simp only [keys, List.map_cons, List.mem_cons, not_or] at hkey
    rw [update, if_neg (Ne.symm hkey.1), ih hkey.2]
    rfl

/-- Bindings of distinct keys are a table already. -/
theorem ofBindings_of_distinct {bindings : Table κ ν} (hdistinct : bindings.Distinct) :
    ofBindings bindings = bindings := by
  have hadded (front : Table κ ν) (h : Distinct (front ++ bindings)) :
      bindings.foldl (fun t entry => set entry.1 entry.2 t) front = front ++ bindings := by
    clear hdistinct
    induction bindings generalizing front with
    | nil => simp
    | cons entry rest ih =>
      obtain ⟨key, value⟩ := entry
      have hkey : key ∉ keys front := by
        rw [Distinct, keys, List.map_append, List.map_cons, List.nodup_append] at h
        exact fun hmem => h.2.2 key hmem key List.mem_cons_self rfl
      rw [List.append_cons] at h
      rw [List.foldl_cons, set_of_notMem hkey, ih _ h, ← List.append_cons]
  exact hadded [] hdistinct

/-- A table in front of another one answers for its own keys. -/
theorem get?_append (key : κ) (front behind : Table κ ν) :
    get? key (front ++ behind) = (get? key front).or (get? key behind) := by
  induction front with
  | nil => rfl
  | cons entry rest ih =>
    obtain ⟨k, v⟩ := entry
    by_cases hk : k = key
    · simp [get?, hk]
    · simpa [get?, hk] using ih

/-- In the table of bindings a key leads to the value that was bound to it last. -/
theorem get?_ofBindings (key : κ) (bindings : List (κ × ν)) :
    get? key (ofBindings bindings) = get? key bindings.reverse := by
  have hafter (t : Table κ ν) :
      get? key (bindings.foldl (fun t entry => set entry.1 entry.2 t) t) =
        (get? key bindings.reverse).or (get? key t) := by
    induction bindings generalizing t with
    | nil => rfl
    | cons entry rest ih =>
      obtain ⟨k, v⟩ := entry
      rw [List.foldl_cons, ih, List.reverse_cons, get?_append, get?_set, Option.or_assoc]
      by_cases hk : k = key
      · simp [get?, hk]
      · simp [get?, hk, Ne.symm hk]
  exact (hafter []).trans Option.or_none

/-- Bindings make a table of distinct keys. -/
theorem distinct_ofBindings (bindings : List (κ × ν)) : (ofBindings bindings).Distinct := by
  have hafter {t : Table κ ν} (h : t.Distinct) :
      Distinct (bindings.foldl (fun t entry => set entry.1 entry.2 t) t) := by
    induction bindings generalizing t with
    | nil => exact h
    | cons entry rest ih => exact ih (h.set _ _)
  have hempty : Distinct ([] : Table κ ν) := List.nodup_nil
  exact hafter hempty

/-- Read from behind, a table of distinct keys answers the same. -/
theorem get?_reverse {t : Table κ ν} (hdistinct : t.Distinct) (key : κ) :
    get? key t.reverse = get? key t := by
  rw [← get?_ofBindings, ofBindings_of_distinct hdistinct]

/-- A table of distinct keys answers the same in whatever order its entries stand. -/
theorem get?_of_perm {t other : Table κ ν} (hdistinct : t.Distinct) (h : t.Perm other) (key : κ) :
    get? key t = get? key other := by
  have hother : other.Distinct := (h.map _).nodup_iff.mp hdistinct
  cases hget : get? key other with
  | none =>
    rw [get?_eq_none_iff] at hget ⊢
    exact fun hmem => hget ((h.map _).mem_iff.mp hmem)
  | some value => exact get?_of_mem hdistinct (h.mem_iff.mpr (mem_of_get? hget))

/-- The last of several entries for one key is found first from behind. -/
theorem get?_reverse_append_cons {key : κ} {front behind : Table κ ν} (hkey : key ∉ keys behind)
    (value : ν) : get? key (front ++ (key, value) :: behind).reverse = some value := by
  have hbehind : get? key behind.reverse = none := by
    rw [get?_eq_none_iff, keys, List.map_reverse, List.mem_reverse]
    exact hkey
  rw [List.reverse_append, List.reverse_cons, get?_append, get?_append, hbehind, Option.none_or,
    get?, if_pos rfl, Option.some_or]

/-- So it is when its index is known. -/
theorem get?_reverse_of_last {entries : Table κ ν} {index : Nat} {key : κ} {value : ν}
    (hentry : entries[index]? = some (key, value))
    (hlast : key ∉ keys (entries.drop (index + 1))) : get? key entries.reverse = some value := by
  have hsplit : entries = entries.take index ++ (key, value) :: entries.drop (index + 1) := by
    obtain ⟨hindex, hget⟩ := List.getElem?_eq_some_iff.mp hentry
    rw [← hget, List.getElem_cons_drop, List.take_append_drop]
  rw [hsplit]
  exact get?_reverse_append_cons hlast value

/-- Every binding is the one that counts for its key, or is followed by another one for it. -/
theorem get?_ofBindings_or {bindings : List (κ × ν)} {p : κ × ν} (h : p ∈ bindings) :
    get? p.1 (ofBindings bindings) = some p.2 ∨
      ∃ front behind, bindings = front ++ p :: behind ∧ p.1 ∈ keys behind := by
  obtain ⟨front, behind, rfl⟩ := List.append_of_mem h
  by_cases hlater : p.1 ∈ keys behind
  · exact Or.inr ⟨front, behind, rfl, hlater⟩
  · rw [get?_ofBindings]
    exact Or.inl (get?_reverse_append_cons hlater p.2)

/-- What stands in a table after an update stood there before, or is made by the update. -/
theorem mem_of_mem_update {key : κ} {f : Option ν → ν} {p : κ × ν} {t : Table κ ν}
    (h : p ∈ update key f t) :
    p ∈ t ∨ p = (key, f (get? key t)) := by
  induction t with
  | nil => exact Or.inr (List.mem_singleton.mp h)
  | cons entry rest ih =>
    obtain ⟨k, v⟩ := entry
    by_cases hk : k = key
    · rw [update, if_pos hk] at h
      obtain rfl | h := List.mem_cons.mp h
      · exact Or.inr (by simp [get?, hk])
      · exact Or.inl (List.mem_cons_of_mem _ h)
    · rw [update, if_neg hk] at h
      obtain rfl | h := List.mem_cons.mp h
      · exact Or.inl List.mem_cons_self
      · rw [get?, if_neg hk]
        exact (ih h).imp_left (List.mem_cons_of_mem _)

/-- What stands in a table where a value is set stood there before, or is this value. -/
theorem mem_of_mem_set {key : κ} {value : ν} {p : κ × ν} {t : Table κ ν}
    (h : p ∈ set key value t) : p ∈ t ∨ p = (key, value) :=
  mem_of_mem_update h

/-- What stands in a table where bindings are made stood there before, or is one of them. -/
theorem mem_of_mem_bindings {bindings : List (κ × ν)} {p : κ × ν} {t : Table κ ν}
    (h : p ∈ bindings.foldl (fun t entry => set entry.1 entry.2 t) t) : p ∈ t ∨ p ∈ bindings := by
  induction bindings generalizing t with
  | nil => exact Or.inl h
  | cons entry rest ih =>
    obtain h | h := ih h
    · obtain h | rfl := mem_of_mem_set h
      · exact Or.inl h
      · exact Or.inr List.mem_cons_self
    · exact Or.inr (List.mem_cons_of_mem _ h)

/-- Setting a key to the value that it has changes nothing. -/
theorem set_of_get? {key : κ} {value : ν} {t : Table κ ν} (h : get? key t = some value) :
    set key value t = t := by
  unfold set
  induction t with
  | nil => cases h
  | cons entry rest ih =>
    obtain ⟨k, v⟩ := entry
    by_cases hk : k = key
    · simp [get?, hk] at h
      simp [update, hk, h]
    · rw [get?, if_neg hk] at h
      rw [update, if_neg hk, ih h]

/-- Setting a key replaces the value of its first entry. -/
theorem set_append_cons {key : κ} {front behind : Table κ ν} (hkey : key ∉ keys front)
    (old value : ν) :
    set key value (front ++ (key, old) :: behind) = front ++ (key, value) :: behind := by
  unfold set
  induction front with
  | nil => simp [update]
  | cons entry rest ih =>
    obtain ⟨k, v⟩ := entry
    simp only [keys, List.map_cons, List.mem_cons, not_or] at hkey
    rw [List.cons_append, update, if_neg (Ne.symm hkey.1), ih hkey.2]
    rfl

/-- A table has no entries exactly when it has no value for any key. -/
theorem eq_nil_iff_get? {t : Table κ ν} : t = [] ↔ ∀ key, get? key t = none := by
  cases t with
  | nil => exact iff_of_true rfl fun _ => rfl
  | cons entry rest =>
    refine iff_of_false (List.cons_ne_nil _ _) fun h => ?_
    have hfirst := h entry.1
    rw [get?, if_pos rfl] at hfirst
    cases hfirst

/-- One more entry answers for its own key only. -/
theorem get?_insert_of_ne {key other : κ} (hother : other ≠ key) (front behind : Table κ ν)
    (value : ν) : get? other (front ++ (key, value) :: behind) = get? other (front ++ behind) := by
  rw [get?_append, get?_append, get?, if_neg (Ne.symm hother)]

/-- With another value in one entry a table answers the same, or with these two values. -/
theorem get?_instead (key other : κ) (front behind : Table κ ν) (v w : ν) :
    get? other (front ++ (key, v) :: behind) = get? other (front ++ (key, w) :: behind) ∨
      other = key ∧ get? other (front ++ (key, v) :: behind) = some v ∧
        get? other (front ++ (key, w) :: behind) = some w := by
  by_cases hother : other = key
  · rw [get?_append, get?_append]
    cases get? other front with
    | some u => exact Or.inl rfl
    | none => exact Or.inr ⟨hother, by simp [get?, hother], by simp [get?, hother]⟩
  · rw [get?_insert_of_ne hother, get?_insert_of_ne hother]
    exact Or.inl rfl

/-- Whether a table has what another one has, and besides a value for a key. -/
def Adds (key : κ) (value : ν) (t more : Table κ ν) : Prop :=
  ∀ other, get? other more = if other = key then some value else get? other t

/-- A new key is added wherever its entry is put. -/
theorem Adds.of_insert {key : κ} {front behind : Table κ ν} (hkey : key ∉ keys (front ++ behind))
    (value : ν) : Adds key value (front ++ behind) (front ++ (key, value) :: behind) := by
  intro other
  rw [keys, List.map_append, List.mem_append, not_or] at hkey
  by_cases hother : other = key
  · rw [hother, get?_append, (get?_eq_none_iff key front).mpr hkey.1]
    simp [get?]
  · rw [if_neg hother, get?_insert_of_ne hother]

/-- A new key is added wherever it is bound among other keys. -/
theorem Adds.of_bindings {key : κ} {front behind : List (κ × ν)}
    (hkey : key ∉ keys (front ++ behind)) (value : ν) :
    Adds key value (ofBindings (front ++ behind))
      (ofBindings (front ++ (key, value) :: behind)) := by
  have hreversed : key ∉ keys (behind.reverse ++ front.reverse) := by
    rw [← List.reverse_append, keys, List.map_reverse, List.mem_reverse]
    exact hkey
  intro other
  have hfound := Adds.of_insert hreversed value other
  rw [← List.reverse_append] at hfound
  rw [get?_ofBindings, get?_ofBindings, ← hfound]
  simp

/-- What holds of all keys and of the added one holds of all keys afterwards. -/
theorem Adds.forall_keys {key : κ} {value : ν} {t more : Table κ ν} (h : Adds key value t more)
    (P : κ → Prop) (ht : ∀ p ∈ t, P p.1) (hkey : P key) : ∀ p ∈ more, P p.1 := by
  intro p hp
  by_cases hadded : p.1 = key
  · rw [hadded]
    exact hkey
  · have hmore : get? p.1 more ≠ none := fun hnone =>
      (get?_eq_none_iff _ _).mp hnone (List.mem_map_of_mem hp)
    rw [h, if_neg hadded, ne_eq, get?_eq_none_iff, Classical.not_not] at hmore
    obtain ⟨q, hq, heq⟩ := List.mem_map.mp hmore
    exact heq ▸ ht q hq

/-- A table of changed values leads each key to its changed value. -/
theorem get?_map (key : κ) (f : ν → μ) (t : Table κ ν) :
    get? key (t.map fun entry => (entry.1, f entry.2)) = (get? key t).map f := by
  induction t with
  | nil => rfl
  | cons entry rest ih =>
    obtain ⟨k, v⟩ := entry
    by_cases hk : k = key
    · simp [get?, hk]
    · simpa [get?, hk] using ih

/-- A key that is set stands besides those that were there. -/
theorem mem_keys_set (key other : κ) (value : ν) (t : Table κ ν) :
    other ∈ keys (set key value t) ↔ other = key ∨ other ∈ keys t := by
  rw [set, keys_update]
  by_cases hkey : key ∈ keys t
  · rw [if_pos hkey]
    exact ⟨Or.inr, fun h => h.elim (fun heq => heq ▸ hkey) id⟩
  · rw [if_neg hkey, List.mem_append, List.mem_singleton, or_comm]

/-- Once a key is there, it makes no difference whether it is set before another one or after it. -/
theorem set_comm {key other : κ} (hother : other ≠ key) {t : Table κ ν} (hkey : key ∈ keys t)
    (value w : ν) : set other w (set key value t) = set key value (set other w t) := by
  unfold set
  induction t with
  | nil => cases hkey
  | cons entry rest ih =>
    obtain ⟨k, v⟩ := entry
    by_cases hk : k = key
    · subst hk
      simp [update, hother.symm]
    · by_cases ho : k = other
      · subst ho
        simp [update, hk]
      · have hrest : key ∈ keys rest := by
          obtain heq | hrest := List.mem_cons.mp hkey
          · exact absurd heq.symm hk
          · exact hrest
        simp only [update, if_neg hk, if_neg ho, ih hrest]

/-- Of two settings of one key the later one counts. -/
theorem set_set (key : κ) (old value : ν) (t : Table κ ν) :
    set key value (set key old t) = set key value t := by
  unfold set
  induction t with
  | nil => simp [update]
  | cons entry rest ih =>
    obtain ⟨k, v⟩ := entry
    by_cases hk : k = key
    · simp [update, hk]
    · simp only [update, if_neg hk, ih]

/-- A key that is there is set before bindings of other keys or after them. -/
theorem bindings_set_comm {key : κ} {bindings : Table κ ν} (hbindings : key ∉ keys bindings)
    {t : Table κ ν} (hkey : key ∈ keys t) (value : ν) :
    bindings.foldl (fun t entry => set entry.1 entry.2 t) (set key value t) =
      set key value (bindings.foldl (fun t entry => set entry.1 entry.2 t) t) := by
  induction bindings generalizing t with
  | nil => rfl
  | cons entry rest ih =>
    obtain ⟨k, v⟩ := entry
    rw [keys, List.map_cons, List.mem_cons, not_or] at hbindings
    have hmore : key ∈ keys (set k v t) := (mem_keys_set k key v t).mpr (Or.inr hkey)
    rw [List.foldl_cons, List.foldl_cons, set_comm (Ne.symm hbindings.1) hkey,
      ih hbindings.2 hmore]

/-- The bindings of a table where a key is set are those of the table, and then that of the key. -/
theorem bindings_set {bindings : Table κ ν} (hdistinct : bindings.Distinct) (key : κ) (value : ν)
    (t : Table κ ν) :
    (set key value bindings).foldl (fun t entry => set entry.1 entry.2 t) t =
      set key value (bindings.foldl (fun t entry => set entry.1 entry.2 t) t) := by
  induction bindings generalizing t with
  | nil => rfl
  | cons entry rest ih =>
    obtain ⟨k, v⟩ := entry
    rw [Distinct, keys, List.map_cons, List.nodup_cons] at hdistinct
    by_cases hk : k = key
    · subst hk
      have hthere : k ∈ keys (set k v t) := (mem_keys_set k k v t).mpr (Or.inl rfl)
      rw [set, update, if_pos rfl, List.foldl_cons, List.foldl_cons,
        ← bindings_set_comm hdistinct.1 hthere, set_set]
    · rw [set, update, if_neg hk, List.foldl_cons, List.foldl_cons]
      exact ih hdistinct.2 _

/-- It makes no difference whether bindings are made one by one or as a table of their own. -/
theorem bindings_ofBindings (bindings t : Table κ ν) :
    (ofBindings bindings).foldl (fun t entry => set entry.1 entry.2 t) t =
      bindings.foldl (fun t entry => set entry.1 entry.2 t) t := by
  have hafter {made : Table κ ν} (hmade : made.Distinct) :
      (bindings.foldl (fun t entry => set entry.1 entry.2 t) made).foldl
          (fun t entry => set entry.1 entry.2 t) t =
        bindings.foldl (fun t entry => set entry.1 entry.2 t)
          (made.foldl (fun t entry => set entry.1 entry.2 t) t) := by
    induction bindings generalizing made with
    | nil => rfl
    | cons entry rest ih =>
      rw [List.foldl_cons, ih (hmade.set _ _), bindings_set hmade, List.foldl_cons]
  have hempty : Distinct ([] : Table κ ν) := List.nodup_nil
  exact hafter hempty

/-- Nothing is in a table after bindings only if nothing was there and nothing was bound. -/
theorem bindings_eq_nil_iff {bindings t : Table κ ν} :
    bindings.foldl (fun t entry => set entry.1 entry.2 t) t = [] ↔ t = [] ∧ bindings = [] := by
  induction bindings generalizing t with
  | nil => simp
  | cons entry rest ih =>
    have hset : set entry.1 entry.2 t ≠ [] := fun hnil => by
      have hmem := (mem_keys_set entry.1 entry.1 entry.2 t).mpr (Or.inl rfl)
      rw [hnil] at hmem
      cases hmem
    rw [List.foldl_cons, ih]
    simp [hset]

end Table

end HttpContract
