namespace Partbook

variable {ε ε' α β : Type}

theorem bind_eq_ok {result : Except ε α} {next : α → Except ε β} {value : β} :
    result >>= next = .ok value ↔ ∃ found, result = .ok found ∧ next found = .ok value := by
  cases result with
  | error cause =>
    simp only [reduceCtorEq, false_and, exists_false, iff_false]
    exact fun same => by cases same
  | ok found => simp [bind, Except.bind]

theorem bind_eq_error {result : Except ε α} {next : α → Except ε β} {cause : ε} :
    result >>= next = .error cause ↔
      result = .error cause ∨ ∃ found, result = .ok found ∧ next found = .error cause := by
  cases result with
  | error first =>
    simp only [reduceCtorEq, false_and, exists_false, or_false]
    exact ⟨fun same => by cases same; rfl, fun same => by cases same; rfl⟩
  | ok found => simp [bind, Except.bind]

theorem pure_eq_ok {found value : α} : (pure found : Except ε α) = .ok value ↔ found = value := by
  simp [pure, Except.pure]

theorem map_eq_ok {result : Except ε α} {change : α → β} {value : β} :
    result.map change = .ok value ↔ ∃ found, result = .ok found ∧ change found = value := by
  cases result with
  | error cause => simp [Except.map]
  | ok found => simp [Except.map]

theorem mapError_ok (value : α) (explain : ε → ε') :
    (.ok value : Except ε α).mapError explain = .ok value := rfl

theorem mapError_error (cause : ε) (explain : ε → ε') :
    (.error cause : Except ε α).mapError explain = .error (explain cause) := rfl

theorem mapError_eq_ok {result : Except ε α} {explain : ε → ε'} {value : α} :
    result.mapError explain = .ok value ↔ result = .ok value := by
  cases result with
  | error cause => constructor <;> rintro ⟨⟩
  | ok found =>
    constructor
    · rintro ⟨⟩
      rfl
    · rintro ⟨⟩
      rfl

/-- A step that fails leaves the state as it is by then, and no later step changes it. -/
theorem run_bind {σ : Type} (step : ExceptT ε (StateM σ) α) (next : α → ExceptT ε (StateM σ) β)
    (state : σ) : (step >>= next).run.run state =
      match step.run.run state with
      | (.ok value, after) => (next value).run.run after
      | (.error cause, after) => (.error cause, after) := by
  show (match step state with | (value, after) => ExceptT.bindCont next value after) = _
  rw [ExceptT.run, StateT.run]
  rcases step state with ⟨_ | _, _⟩ <;> rfl

theorem toOption_eq_some {result : Except ε α} {value : α} :
    result.toOption = some value ↔ result = .ok value := by
  cases result <;> simp [Except.toOption]

end Partbook
