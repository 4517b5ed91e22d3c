/-
This file gives the checks of a computation that may be refused: each passes or
ends it with an error, and what goes on after a check has passed it.
-/

namespace Dagq.Lib

variable {Error First Second : Type}

/-- Go on where the condition holds. -/
def require (holds : Bool) (error : Error) : Except Error Unit :=
  if holds then .ok () else .error error

theorem require_ok {holds : Bool} {error : Error} {checked : Unit}
    (passed : require holds error = .ok checked) : holds = true := by
  unfold require at passed
  split at passed
  · assumption
  · cases passed

@[simp]
theorem require_true (error : Error) : require true error = .ok () := rfl

/-- A computation that goes on after a check passed it. -/
theorem bind_ok {first : Except Error First} {rest : First → Except Error Second}
    {result : Second} (passed : (first >>= rest) = .ok result) :
    ∃ value, first = .ok value ∧ rest value = .ok result := by
  cases first with
  | error error => cases passed
  | ok value => exact ⟨value, rfl, passed⟩

theorem map_ok {first : Except Error First} {rest : First → Second}
    {result : Second} (passed : first.map rest = .ok result) :
    ∃ value, first = .ok value ∧ rest value = result := by
  cases first with
  | error error => cases passed
  | ok value => exact ⟨value, rfl, Except.ok.inj passed⟩

end Dagq.Lib
