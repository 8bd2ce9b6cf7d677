import HttpContract.Proofs.Outcome

/-!
# What runs of a step have in common

A step may leave things as they are, however it ends, and give results of one kind. And two runs of
it, from states that differ in a part which does not matter, may come to the same; or at least they
do so unless the first run touches something that it should not.
-/

namespace HttpContract

section Runs

variable {ε σ α β : Type} {m : EStateM ε σ α} {k : α → EStateM ε σ β} {s t : σ}

/-- Where a step may end, with a result or with a failure. -/
def Ends (m : EStateM ε σ α) (s t : σ) : Prop :=
  (∃ a, m.run s = .ok a t) ∨ ∃ e, m.run s = .error e t

/-- Two steps in a row end where the first one fails, or else where the second one ends. -/
theorem Ends.bind (h : Ends (m >>= k) s t) : (∃ e, m.run s = .error e t) ∨
    ∃ a between, m.run s = .ok a between ∧ Ends (k a) between t := by
  rcases h with ⟨b, h⟩ | ⟨e, h⟩
  · obtain ⟨a, between, hfirst, hsecond⟩ := run_bind_eq_ok_iff.mp h
    exact Or.inr ⟨a, between, hfirst, Or.inl ⟨b, hsecond⟩⟩
  · rcases run_bind_eq_error_iff.mp h with hfirst | ⟨a, between, hfirst, hsecond⟩
    · exact Or.inl ⟨e, hfirst⟩
    · exact Or.inr ⟨a, between, hfirst, Or.inr ⟨e, hsecond⟩⟩

/-- Whether a property of the state stays true, however a step ends. -/
def Keeps (I : σ → Prop) (m : EStateM ε σ α) : Prop :=
  ∀ ⦃s t : σ⦄, Ends m s t → I s → I t

variable {I : σ → Prop}

/-- A result at once leaves everything as it is. -/
theorem Keeps.pure (a : α) : Keeps I (Pure.pure a : EStateM ε σ α) := by
  rintro s t (⟨_, ⟨⟩⟩ | ⟨_, ⟨⟩⟩) hs
  exact hs

/-- What two steps keep they keep in a row. -/
theorem Keeps.bind (hm : Keeps I m) (hk : ∀ a, Keeps I (k a)) : Keeps I (m >>= k) := by
  intro s t h hs
  rcases h.bind with ⟨e, hfirst⟩ | ⟨a, between, hfirst, h⟩
  · exact hm (Or.inr ⟨e, hfirst⟩) hs
  · exact hk a h (hm (Or.inl ⟨a, hfirst⟩) hs)

/-- Whether a property of the state stays true, however a step ends, and where it is true every
result has a property. -/
structure Gives (I : σ → Prop) (P : α → Prop) (m : EStateM ε σ α) : Prop where
  keeps : Keeps I m
  result : ∀ {s t : σ} {a : α}, I s → m.run s = .ok a t → P a

variable {P : α → Prop} {Q : β → Prop}

/-- What is kept is kept whatever the results are. -/
theorem Keeps.gives (h : Keeps I m) : Gives I (fun _ => True) m :=
  ⟨h, fun _ _ => trivial⟩

/-- A result at once is given as it is. -/
theorem Gives.pure {a : α} (ha : P a) : Gives I P (Pure.pure a : EStateM ε σ α) := by
  refine ⟨.pure a, fun _ hrun => ?_⟩
  cases hrun
  exact ha

/-- Of two steps in a row the second one starts from a result of the first. -/
theorem Gives.bind (hm : Gives I P m) (hk : ∀ a, P a → Gives I Q (k a)) : Gives I Q (m >>= k) := by
  constructor
  · intro s t h hs
    rcases h.bind with ⟨e, hfirst⟩ | ⟨a, between, hfirst, h⟩
    · exact hm.keeps (Or.inr ⟨e, hfirst⟩) hs
    · exact (hk a (hm.result hs hfirst)).keeps h (hm.keeps (Or.inl ⟨a, hfirst⟩) hs)
  · intro s t b hs hrun
    obtain ⟨a, between, hfirst, hsecond⟩ := run_bind_eq_ok_iff.mp hrun
    exact (hk a (hm.result hs hfirst)).result (hm.keeps (Or.inl ⟨a, hfirst⟩) hs) hsecond

/-- Whether two runs come to the same, in states that are related again. -/
inductive Agree (R : σ → σ → Prop) : EStateM.Result ε σ α → EStateM.Result ε σ α → Prop
  | ok {s t : σ} (a : α) (h : R s t) : Agree R (.ok a s) (.ok a t)
  | error {s t : σ} (e : ε) (h : R s t) : Agree R (.error e s) (.error e t)

variable {R : σ → σ → Prop} {y : EStateM.Result ε σ α}

/-- What agrees with a success is a success with the same result. -/
theorem agree_ok_iff {a : α} : Agree R (.ok a s) y ↔ ∃ t, y = .ok a t ∧ R s t := by
  constructor
  · rintro (⟨_, h⟩)
    exact ⟨_, rfl, h⟩
  · rintro ⟨t, rfl, h⟩
    exact .ok a h

/-- What agrees with a failure is the same failure. -/
theorem agree_error_iff {e : ε} : Agree R (.error e s) y ↔ ∃ t, y = .error e t ∧ R s t := by
  constructor
  · rintro (_ | ⟨_, h⟩)
    exact ⟨_, rfl, h⟩
  · rintro ⟨t, rfl, h⟩
    exact .error e h

/-- Whether a step comes to the same from related states, unless the first run touches something
that should not be touched. What is touched once stays so. -/
structure Follows (R : σ → σ → Prop) (touched : σ → Prop) (m : EStateM ε σ α) : Prop where
  stays : Keeps touched m
  same : ∀ {s t s' : σ}, R s t → Ends m s s' → ¬touched s' → Agree R (m.run s) (m.run t)

variable {touched : σ → Prop}

/-- A result at once is the same everywhere. -/
theorem Follows.pure (a : α) : Follows R touched (Pure.pure a : EStateM ε σ α) :=
  ⟨.pure a, fun h _ _ => .ok a h⟩

/-- Where the first of two runs succeeds the second does, with the same result. -/
theorem Follows.ok (hm : Follows R touched m) (hR : R s t) {a : α} {s' : σ}
    (hrun : m.run s = .ok a s') (hfree : ¬touched s') : ∃ t', m.run t = .ok a t' ∧ R s' t' := by
  have hagree := hm.same hR (Or.inl ⟨a, hrun⟩) hfree
  rw [hrun] at hagree
  exact agree_ok_iff.mp hagree

/-- Where the first of two runs fails the second does, with the same failure. -/
theorem Follows.error (hm : Follows R touched m) (hR : R s t) {e : ε} {s' : σ}
    (hrun : m.run s = .error e s') (hfree : ¬touched s') :
    ∃ t', m.run t = .error e t' ∧ R s' t' := by
  have hagree := hm.same hR (Or.inr ⟨e, hrun⟩) hfree
  rw [hrun] at hagree
  exact agree_error_iff.mp hagree

/-- Steps in a row that come to the same do so together. -/
theorem Follows.bind (hm : Follows R touched m) (hk : ∀ a, Follows R touched (k a)) :
    Follows R touched (m >>= k) := by
  refine ⟨hm.stays.bind fun a => (hk a).stays, fun hR h hfree => ?_⟩
  rw [EStateM.run_bind, EStateM.run_bind]
  rcases h.bind with ⟨e, hfirst⟩ | ⟨a, between, hfirst, h⟩
  · obtain ⟨t', hother, hR⟩ := hm.error hR hfirst hfree
    rw [hfirst, hother]
    exact .error e hR
  · have hbetween : ¬touched between := fun htouched => hfree ((hk a).stays h htouched)
    obtain ⟨t', hother, hR⟩ := hm.ok hR hfirst hbetween
    rw [hfirst, hother]
    exact (hk a).same hR h hfree

end Runs

end HttpContract
