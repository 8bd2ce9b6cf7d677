/-!
# Outcomes of steps in a row

A step that may fail, followed by another one, succeeds exactly when both do, and fails exactly when
the first fails or the second one does on its result. These laws take a run of steps apart, without
state and with one that is kept on failure.
-/

namespace HttpContract

section Results

variable {ε ε' α β : Type}

/-- Two results in a row are a success when both are. -/
theorem bind_eq_ok_iff {x : Except ε α} {f : α → Except ε β} {b : β} :
    (x >>= f) = .ok b ↔ ∃ a, x = .ok a ∧ f a = .ok b := by
  cases x with
  | error e => simp [bind, Except.bind]
  | ok a => simp [bind, Except.bind]

/-- A success is followed by what is made of its result. -/
theorem bind_eq_of_ok {x : Except ε α} {f : α → Except ε β} {a : α} (h : x = .ok a) :
    (x >>= f) = f a := by
  rw [h]
  rfl

/-- Two results in a row fail with the failure of the first, or else with that of the second. -/
theorem bind_eq_error_iff {x : Except ε α} {f : α → Except ε β} {e : ε} :
    (x >>= f) = .error e ↔ x = .error e ∨ ∃ a, x = .ok a ∧ f a = .error e := by
  cases x with
  | error e => simp [bind, Except.bind]
  | ok a => simp [bind, Except.bind]

/-- A success has nothing to reword. -/
@[simp] theorem mapError_ok (f : ε → ε') (a : α) :
    (Except.ok a : Except ε α).mapError f = .ok a := rfl

/-- A failure is reworded. -/
@[simp] theorem mapError_error (f : ε → ε') (e : ε) :
    (Except.error e : Except ε α).mapError f = .error (f e) := rfl

/-- Rewording failures adds no successes and takes none away. -/
theorem mapError_eq_ok_iff {x : Except ε α} {f : ε → ε'} {a : α} :
    x.mapError f = .ok a ↔ x = .ok a := by
  cases x <;> simp

/-- A reworded failure comes from a failure. -/
theorem mapError_eq_error_iff {x : Except ε α} {f : ε → ε'} {e : ε'} :
    x.mapError f = .error e ↔ ∃ cause, x = .error cause ∧ f cause = e := by
  cases x <;> simp

/-- A success with its result changed comes from a success. -/
theorem map_eq_ok_iff {x : Except ε α} {f : α → β} {b : β} :
    x.map f = .ok b ↔ ∃ a, x = .ok a ∧ f a = b := by
  cases x <;> simp [Except.map]

/-- A result that is changed when it is a success fails as it did before. -/
theorem map_eq_error_iff {x : Except ε α} {f : α → β} {e : ε} :
    x.map f = .error e ↔ x = .error e := by
  cases x <;> simp [Except.map]

/-- What is made of several things in a row is made of one of them each. -/
theorem exists_of_mem_mapM {f : α → Except ε β} {xs : List α} {ys : List β}
    (h : xs.mapM f = .ok ys) {y : β} (hy : y ∈ ys) : ∃ x ∈ xs, f x = .ok y := by
  induction xs generalizing ys with
  | nil =>
    cases h
    cases hy
  | cons x rest ih =>
    rw [List.mapM_cons] at h
    obtain ⟨first, hfirst, h⟩ := bind_eq_ok_iff.mp h
    obtain ⟨others, hothers, h⟩ := bind_eq_ok_iff.mp h
    cases h
    rcases List.mem_cons.mp hy with rfl | hy
    · exact ⟨x, List.mem_cons_self, hfirst⟩
    · obtain ⟨other, hother, hmade⟩ := ih hothers hy
      exact ⟨other, List.mem_cons_of_mem _ hother, hmade⟩

/-- Something is made of each of several things in a row. -/
theorem exists_mem_of_mapM {f : α → Except ε β} {xs : List α} {ys : List β}
    (h : xs.mapM f = .ok ys) {x : α} (hx : x ∈ xs) : ∃ y ∈ ys, f x = .ok y := by
  induction xs generalizing ys with
  | nil => cases hx
  | cons first rest ih =>
    rw [List.mapM_cons] at h
    obtain ⟨y, hy, h⟩ := bind_eq_ok_iff.mp h
    obtain ⟨others, hothers, h⟩ := bind_eq_ok_iff.mp h
    cases h
    rcases List.mem_cons.mp hx with rfl | hx
    · exact ⟨y, List.mem_cons_self, hy⟩
    · obtain ⟨other, hother, hmade⟩ := ih hothers hx
      exact ⟨other, List.mem_cons_of_mem _ hother, hmade⟩

/-- What stands in the place of a thing is made of it. -/
theorem of_mem_zip_mapM {f : α → Except ε β} {xs : List α} {ys : List β} (h : xs.mapM f = .ok ys)
    {x : α} {y : β} (hxy : (x, y) ∈ xs.zip ys) : f x = .ok y := by
  induction xs generalizing ys with
  | nil => cases hxy
  | cons first rest ih =>
    rw [List.mapM_cons] at h
    obtain ⟨made, hmade, h⟩ := bind_eq_ok_iff.mp h
    obtain ⟨others, hothers, h⟩ := bind_eq_ok_iff.mp h
    cases h
    rcases List.mem_cons.mp hxy with heq | hrest
    · cases heq
      exact hmade
    · exact ih hothers hrest

/-- What several things share with what is made of them they share in a row. -/
theorem map_eq_of_mapM {γ : Type} {f : α → Except ε β} {part : β → γ} {own : α → γ}
    (hpart : ∀ x y, f x = .ok y → part y = own x) {xs : List α} {ys : List β}
    (h : xs.mapM f = .ok ys) : ys.map part = xs.map own := by
  induction xs generalizing ys with
  | nil =>
    cases h
    rfl
  | cons x rest ih =>
    rw [List.mapM_cons] at h
    obtain ⟨first, hfirst, h⟩ := bind_eq_ok_iff.mp h
    obtain ⟨others, hothers, h⟩ := bind_eq_ok_iff.mp h
    cases h
    rw [List.map_cons, List.map_cons, hpart x first hfirst, ih hothers]

/-- Things that are kept in what is made of them are kept in a row. -/
theorem map_of_mapM {f : α → Except ε β} {part : β → α} (hpart : ∀ x y, f x = .ok y → part y = x)
    {xs : List α} {ys : List β} (h : xs.mapM f = .ok ys) : ys.map part = xs := by
  have hsame : ∀ x y, f x = .ok y → part y = id x := hpart
  rw [map_eq_of_mapM hsame h, List.map_id]

/-- Where each step in a row succeeds they all do. -/
theorem exists_mapM {f : α → Except ε β} {xs : List α} (h : ∀ x ∈ xs, ∃ y, f x = .ok y) :
    ∃ ys, xs.mapM f = .ok ys := by
  induction xs with
  | nil => exact ⟨[], rfl⟩
  | cons x rest ih =>
    obtain ⟨first, hfirst⟩ := h x List.mem_cons_self
    obtain ⟨others, hothers⟩ := ih fun y hy => h y (List.mem_cons_of_mem _ hy)
    exact ⟨first :: others, by rw [List.mapM_cons, hfirst, hothers]; rfl⟩

/-- Steps that agree on each of several things agree in a row. -/
theorem mapM_congr {f g : α → Except ε β} {xs : List α} (h : ∀ x ∈ xs, f x = g x) :
    xs.mapM f = xs.mapM g := by
  induction xs with
  | nil => rfl
  | cons x rest ih =>
    rw [List.mapM_cons, List.mapM_cons, h x List.mem_cons_self,
      ih fun y hy => h y (List.mem_cons_of_mem _ hy)]

/-- Steps that make changed things of what other steps make do so in a row. -/
theorem mapM_eq_ok_map {γ : Type} {f : α → Except ε β} {g : α → Except ε γ} {change : β → γ}
    {xs : List α} {ys : List β} (h : xs.mapM f = .ok ys)
    (hchange : ∀ x ∈ xs, ∀ y, f x = .ok y → g x = .ok (change y)) :
    xs.mapM g = .ok (ys.map change) := by
  induction xs generalizing ys with
  | nil =>
    cases h
    rfl
  | cons x rest ih =>
    rw [List.mapM_cons] at h
    obtain ⟨first, hfirst, h⟩ := bind_eq_ok_iff.mp h
    obtain ⟨others, hothers, h⟩ := bind_eq_ok_iff.mp h
    cases h
    rw [List.mapM_cons, hchange x List.mem_cons_self first hfirst,
      ih hothers fun y hy => hchange y (List.mem_cons_of_mem _ hy)]
    rfl

/-- Steps in a row succeed when those in front, a step in between and those behind do. -/
theorem mapM_append_cons_eq_ok_iff {f : α → Except ε β} {front behind : List α} {x : α}
    {ys : List β} :
    (front ++ x :: behind).mapM f = .ok ys ↔ ∃ first y last,
      front.mapM f = .ok first ∧ f x = .ok y ∧ behind.mapM f = .ok last ∧
        first ++ y :: last = ys := by
  rw [List.mapM_append, List.mapM_cons]
  constructor
  · intro h
    obtain ⟨first, hfirst, h⟩ := bind_eq_ok_iff.mp h
    obtain ⟨later, hlater, h⟩ := bind_eq_ok_iff.mp h
    obtain ⟨y, hy, hlater⟩ := bind_eq_ok_iff.mp hlater
    obtain ⟨last, hlast, hlater⟩ := bind_eq_ok_iff.mp hlater
    cases hlater
    exact ⟨first, y, last, hfirst, hy, hlast, Except.ok.inj h⟩
  · rintro ⟨first, y, last, hfirst, hy, hlast, rfl⟩
    rw [hfirst, hy, hlast]
    rfl

/-- Steps in a row fail with the first failure of a step. -/
theorem mapM_eq_error_iff {f : α → Except ε β} {xs : List α} {e : ε} :
    xs.mapM f = .error e ↔ ∃ front x behind, xs = front ++ x :: behind ∧
      (∀ y ∈ front, ∃ b, f y = .ok b) ∧ f x = .error e := by
  constructor
  · intro h
    induction xs with
    | nil => cases h
    | cons x rest ih =>
      rw [List.mapM_cons] at h
      rcases bind_eq_error_iff.mp h with hx | ⟨made, hmade, h⟩
      · exact ⟨[], x, rest, rfl, by simp, hx⟩
      · rcases bind_eq_error_iff.mp h with hrest | ⟨_, _, h⟩
        · obtain ⟨front, y, behind, rfl, hfront, hy⟩ := ih hrest
          exact ⟨x :: front, y, behind, rfl, List.forall_mem_cons.mpr ⟨⟨made, hmade⟩, hfront⟩, hy⟩
        · cases h
  · rintro ⟨front, x, behind, rfl, hfront, hx⟩
    obtain ⟨made, hmade⟩ := exists_mapM hfront
    rw [List.mapM_append, List.mapM_cons, hmade, hx]
    rfl

/-- Whether two results are a success of the same value, or both none, whatever their failures
say. -/
def Concur (x : Except ε α) (y : Except ε' α) : Prop := ∀ a, x = .ok a ↔ y = .ok a

/-- A result concurs with itself. -/
theorem Concur.refl (x : Except ε α) : Concur x x := fun _ => Iff.rfl

/-- Two failures concur. -/
theorem Concur.errors (e : ε) (e' : ε') : Concur (.error e : Except ε α) (.error e') := by
  intro a
  simp

/-- Steps that concur do so in a row. -/
theorem Concur.bind {x : Except ε α} {y : Except ε' α} {f : α → Except ε β} {g : α → Except ε' β}
    (h : Concur x y) (hnext : ∀ a, Concur (f a) (g a)) : Concur (x >>= f) (y >>= g) := by
  intro b
  rw [bind_eq_ok_iff, bind_eq_ok_iff]
  exact exists_congr fun a => and_congr (h a) (hnext a b)

/-- Results that concur do so when they are changed alike. -/
theorem Concur.map {x : Except ε α} {y : Except ε' α} (h : Concur x y) (f : α → β) :
    Concur (x.map f) (y.map f) := by
  intro b
  rw [map_eq_ok_iff, map_eq_ok_iff]
  exact exists_congr fun a => and_congr_left' (h a)

end Results

section Runs

variable {ε σ α β : Type}

/-- Two steps in a row are a success when both are, the second from where the first ends. -/
theorem run_bind_eq_ok_iff {m : EStateM ε σ α} {k : α → EStateM ε σ β} {s s' : σ} {b : β} :
    (m >>= k).run s = .ok b s' ↔ ∃ a t, m.run s = .ok a t ∧ (k a).run t = .ok b s' := by
  rw [EStateM.run_bind]
  cases m.run s with
  | error e t => simp
  | ok a t =>
    constructor
    · exact fun h => ⟨a, t, rfl, h⟩
    · rintro ⟨_, _, ⟨⟩, h⟩
      exact h

/-- Two steps in a row fail where the first fails, or else where the second does. -/
theorem run_bind_eq_error_iff {m : EStateM ε σ α} {k : α → EStateM ε σ β} {s s' : σ} {e : ε} :
    (m >>= k).run s = .error e s' ↔
      m.run s = .error e s' ∨ ∃ a t, m.run s = .ok a t ∧ (k a).run t = .error e s' := by
  rw [EStateM.run_bind]
  cases m.run s with
  | error e t => simp
  | ok a t =>
    constructor
    · exact fun h => Or.inr ⟨a, t, rfl, h⟩
    · rintro (h | ⟨_, _, ⟨⟩, h⟩)
      · cases h
      · exact h

/-- A finished step ends where it began. -/
theorem run_pure_eq_ok_iff {a b : α} {s s' : σ} :
    (pure a : EStateM ε σ α).run s = .ok b s' ↔ a = b ∧ s = s' := by
  rw [EStateM.run_pure]
  simp

end Runs

end HttpContract
