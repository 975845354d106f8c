namespace Pipelines.Text

/-- Whether a code point lies in one of the given ranges. The search ends at the first range that
starts above it, since the ranges increase. -/
def covers : List (Nat × Nat) → Nat → Bool
  | [], _ => false
  | (low, high) :: rest, point => low ≤ point && (point ≤ high || covers rest point)

end Pipelines.Text
