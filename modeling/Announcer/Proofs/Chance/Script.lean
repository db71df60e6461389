import Announcer.Chance.Choice

/-! # Choices from a list

Choices made beforehand can ask for any alternative, where a generator gives those of its seed.
-/
namespace Announcer.Chance

/-- The choices that are left. There are none any more once one was missing or out of range. -/
structure Script where
  rest? : Option (List Nat)
deriving DecidableEq

namespace Script

def of (choices : List Nat) : Script := ⟨some choices⟩

instance : ChoiceSource Script where
  choose n h script :=
    match script.rest? with
    | some (choice :: rest) => if hc : choice < n then (⟨choice, hc⟩, of rest) else (⟨0, h⟩, ⟨none⟩)
    | _ => (⟨0, h⟩, ⟨none⟩)

theorem choose_of {n choice : Nat} (h : 0 < n) (hc : choice < n) (rest : List Nat) :
    ChoiceSource.choose n h (of (choice :: rest)) = (⟨choice, hc⟩, of rest) := by
  change (if hc : choice < n then _ else _) = _
  rw [dif_pos hc]

end Script

end Announcer.Chance
