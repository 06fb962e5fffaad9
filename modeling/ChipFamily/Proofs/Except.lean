namespace ChipFamily

variable {ε α β : Type} {e : ε}

theorem exists_of_bind_eq_ok {result : Except ε α} {next : α → Except ε β} {b : β}
    (h : result >>= next = .ok b) : ∃ a, result = .ok a ∧ next a = .ok b := by
  cases result with
  | error e => cases h
  | ok a => exact ⟨a, rfl, h⟩

theorem exists_of_map_eq_ok {result : Except ε α} {f : α → β} {b : β}
    (h : result.map f = .ok b) : ∃ a, result = .ok a ∧ f a = b := by
  cases result with
  | error e => cases h
  | ok a => exact ⟨a, rfl, Except.ok.inj h⟩

theorem error_or_of_bind_eq_error {result : Except ε α} {next : α → Except ε β}
    (h : result >>= next = .error e) :
    result = .error e ∨ ∃ a, result = .ok a ∧ next a = .error e := by
  cases result with
  | error e' => exact .inl (congrArg _ (Except.error.inj h))
  | ok a => exact .inr ⟨a, rfl, h⟩

theorem error_of_map_eq_error {result : Except ε α} {f : α → β} (h : result.map f = .error e) :
    result = .error e := by
  cases result with
  | error e' => exact congrArg _ (Except.error.inj h)
  | ok a => cases h

theorem exists_of_mapError_eq_error {δ : Type} {result : Except ε α} {f : ε → δ} {d : δ}
    (h : result.mapError f = .error d) : ∃ e, result = .error e ∧ f e = d := by
  cases result with
  | error e => exact ⟨e, rfl, Except.error.inj h⟩
  | ok a => cases h

/-- A step that cannot fail does not change when its result fails. -/
theorem exists_bind_pure_eq_error_iff {result : Except ε α} {f : α → β} :
    (∃ e, (result >>= fun a => pure (f a)) = .error e) ↔ ∃ e, result = .error e := by
  cases result with
  | error e => exact iff_of_true ⟨e, rfl⟩ ⟨e, rfl⟩
  | ok a => exact iff_of_false nofun nofun

theorem toOption_eq_some_iff {result : Except ε α} {a : α} :
    result.toOption = some a ↔ result = .ok a := by
  cases result with
  | error e => exact iff_of_false nofun nofun
  | ok b => rw [Except.toOption, Option.some.injEq, Except.ok.injEq]

end ChipFamily
