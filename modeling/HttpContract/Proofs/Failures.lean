import HttpContract.Dispatch
import HttpContract.Proofs.Outcome

/-!
# Whose failure it is

A failure of binding is the client's; wrong configuration and faults are the server's. What else
there is may be judged either way. A result crashes when it is a failure of the server's. What
constraints refuse is the client's failure, save where one of them has a bound of so many digits
that it cannot say why it refuses.
-/

namespace HttpContract

/-- A judgement of whose a failure is. -/
structure Judgement where
  isServers : Failure → Bool
  binding : ∀ e, isServers (.binding e) = false
  configuration : ∀ e, isServers (.configuration e) = true
  fault : ∀ f, isServers (.fault f) = true

/-- Describing classes and registering routes does not fail for want of depth. -/
theorem Failure.tooDeep_ne_ofConfiguration (e : ConfigurationError) :
    Failure.fault .tooDeep ≠ .ofConfiguration e := by
  intro h
  unfold ofConfiguration at h
  split at h <;> cases h

namespace Judgement

attribute [simp] binding configuration fault

/-- The server's failures are all but those of binding. -/
def allButBinding : Judgement where
  isServers
    | .binding _ => false
    | .configuration _ | .routing _ | .reported _ | .fault _ => true
  binding _ := rfl
  configuration _ := rfl
  fault _ := rfl

variable {J : Judgement}

/-- A refused value is the client's failure, unless the refusal cannot be worded. -/
@[simp] theorem refused (field : Option String) (why : Refusal) :
    J.isServers (.refused field why) = !why.isWritable := by
  unfold Failure.refused
  cases why.isWritable with
  | true => exact J.binding _
  | false => exact J.fault _

/-- What goes wrong in describing classes or registering routes is the server's failure. -/
@[simp] theorem ofConfiguration (e : ConfigurationError) :
    J.isServers (.ofConfiguration e) = true := by
  unfold Failure.ofConfiguration
  split
  · exact J.fault _
  · exact J.configuration _

/-- A result that is a failure of the server's. -/
def Crashes {α : Type} (J : Judgement) (x : Except Failure α) : Prop :=
  ∃ e, x = .error e ∧ J.isServers e = true

end Judgement

section Crashes

variable {J : Judgement} {α β : Type}

/-- A success is no crash. -/
@[simp] theorem not_crashes_ok (a : α) : ¬J.Crashes (.ok a : Except Failure α) := by
  rintro ⟨e, h, _⟩
  cases h

/-- A failure is a crash when it is the server's. -/
@[simp] theorem crashes_error_iff (e : Failure) :
    J.Crashes (.error e : Except Failure α) ↔ J.isServers e = true := by
  constructor
  · rintro ⟨_, ⟨⟩, h⟩
    exact h
  · exact fun h => ⟨e, rfl, h⟩

/-- A refusal that can be worded is no crash. -/
theorem not_crashes_refused (field : Option String) {why : Refusal} (h : why.isWritable = true) :
    ¬J.Crashes (.error (.refused field why) : Except Failure α) := by
  rw [crashes_error_iff, J.refused, h]
  exact Bool.false_ne_true

/-- Two results in a row crash where the first does, or else where the second does. -/
theorem crashes_bind_iff {x : Except Failure α} {f : α → Except Failure β} :
    J.Crashes (x >>= f) ↔ J.Crashes x ∨ ∃ a, x = .ok a ∧ J.Crashes (f a) := by
  constructor
  · rintro ⟨e, h, he⟩
    rcases bind_eq_error_iff.mp h with h | ⟨a, ha, h⟩
    · exact Or.inl ⟨e, h, he⟩
    · exact Or.inr ⟨a, ha, e, h, he⟩
  · rintro (⟨e, h, he⟩ | ⟨a, ha, e, h, he⟩)
    · exact ⟨e, bind_eq_error_iff.mpr (Or.inl h), he⟩
    · exact ⟨e, bind_eq_error_iff.mpr (Or.inr ⟨a, ha, h⟩), he⟩

/-- Changing results changes no crashes. -/
theorem crashes_map_iff {x : Except Failure α} {f : α → β} : J.Crashes (x.map f) ↔ J.Crashes x := by
  cases x with
  | error e => simp [Except.map]
  | ok a => simp [Except.map]

/-- What must be configured is no failure of the client's. -/
theorem configured_ne_binding {x : Except ConfigurationError α} {e : BindingError} :
    Body.configured x ≠ .error (.binding e) := by
  intro h
  obtain ⟨c, _, hc⟩ := mapError_eq_error_iff.mp h
  have hservers := Judgement.allButBinding.ofConfiguration c
  rw [hc, Judgement.binding] at hservers
  cases hservers

/-- What must be configured crashes where it fails. -/
theorem crashes_configured_iff {x : Except ConfigurationError α} :
    J.Crashes (Body.configured x) ↔ ∃ e, x = .error e := by
  cases x with
  | error e => simp [Body.configured]
  | ok a => simp [Body.configured]

end Crashes

/-- Whether a failure is a refusal under constraints: the client's, or the fault of one of them that
cannot say why it refuses. -/
def Failure.IsRefusal (constraints : List Constraint) (e : Failure) : Prop :=
  (∃ b, e = .binding b) ∨ e = .fault .tooManyDigits ∧ ∃ c ∈ constraints, c.isSayable = false

/-- A refusal under constraints is one under more of them. -/
theorem Failure.IsRefusal.mono {constraints others : List Constraint} {e : Failure}
    (h : e.IsRefusal constraints) (hsub : constraints ⊆ others) : e.IsRefusal others := by
  rcases h with hbinding | ⟨hfault, c, hc, hsayable⟩
  · exact Or.inl hbinding
  · exact Or.inr ⟨hfault, c, hsub hc, hsayable⟩

/-- Under constraints that can all say why they refuse, a refusal is the client's failure. -/
theorem Failure.IsRefusal.exists_binding {constraints : List Constraint} {e : Failure}
    (h : e.IsRefusal constraints) (hsayable : ∀ c ∈ constraints, c.isSayable = true) :
    ∃ b, e = .binding b := by
  rcases h with hbinding | ⟨_, c, hc, hunsayable⟩
  · exact hbinding
  · rw [hsayable c hc] at hunsayable
    cases hunsayable

/-- Whether a result fails, if it does, with a refusal under constraints. -/
def OnlyRefuses {α : Type} (constraints : List Constraint) (x : Except Failure α) : Prop :=
  ∀ e, x = .error e → e.IsRefusal constraints

namespace OnlyRefuses

variable {constraints others : List Constraint} {α β : Type} {x : Except Failure α}

/-- A success does not fail. -/
theorem ok (a : α) : OnlyRefuses constraints (.ok a : Except Failure α) := by
  intro e h
  cases h

/-- A refusal that can be worded is the client's failure. -/
theorem refused (field : Option String) {why : Refusal} (h : why.isWritable = true) :
    OnlyRefuses constraints (.error (.refused field why) : Except Failure α) := by
  intro e he
  cases he
  exact Or.inl ⟨_, Failure.refused_eq_binding_iff.mpr ⟨h, rfl⟩⟩

/-- A result whose failures are all the client's fails with refusals under any constraints. -/
theorem of_not_crashes (h : ¬Judgement.allButBinding.Crashes x) : OnlyRefuses constraints x := by
  intro e he
  rw [he, crashes_error_iff] at h
  cases e with
  | binding b => exact Or.inl ⟨b, rfl⟩
  | configuration | routing | reported | fault => exact absurd rfl h

/-- What fails with refusals under constraints does so under more of them. -/
theorem mono (h : OnlyRefuses constraints x) (hsub : constraints ⊆ others) :
    OnlyRefuses others x :=
  fun e he => (h e he).mono hsub

/-- Two results in a row fail with refusals when both of them do. -/
theorem bind {f : α → Except Failure β} (hx : OnlyRefuses constraints x)
    (hf : ∀ a, x = .ok a → OnlyRefuses constraints (f a)) : OnlyRefuses constraints (x >>= f) := by
  intro e he
  rcases bind_eq_error_iff.mp he with he | ⟨a, ha, he⟩
  · exact hx e he
  · exact hf a ha e he

/-- Changing results changes no failures. -/
theorem map {f : α → β} (hx : OnlyRefuses constraints x) : OnlyRefuses constraints (x.map f) :=
  fun e he => hx e (map_eq_error_iff.mp he)

end OnlyRefuses

end HttpContract
