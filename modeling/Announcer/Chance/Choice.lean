/-! # Choosing one of several

A 64-bit draw `v` stands for the alternative `v * n / 2 ^ 64` of `n`. The draws whose low half
exceeds the zone are thrown away, which leaves every alternative equally many draws.
-/
namespace Announcer.Chance

universe u

/-- A source hands out one of `n` alternatives and the source that is left. -/
class ChoiceSource (σ : Type u) where
  choose : (n : Nat) → 0 < n → σ → Fin n × σ

/-- The largest low half that is kept: `n` with its leading zeros shifted out, less one. -/
def zone (n : Nat) : Nat := n * Nat.pow 2 (63 - n.log2) - 1

def accepts (n v : Nat) : Bool := decide (v * n % Nat.pow 2 64 ≤ zone n)

def index (n v : Nat) : Nat := v * n / Nat.pow 2 64

theorem index_lt {n v : Nat} (hn : 0 < n) (hv : v < Nat.pow 2 64) : index n v < n := by
  unfold index
  apply Nat.div_lt_of_lt_mul
  exact Nat.mul_lt_mul_of_pos_right hv hn

end Announcer.Chance
