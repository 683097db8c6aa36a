namespace TypeAtlas.Text

/-- A set of code points as a list of closed intervals in increasing order. -/
abbrev Ranges := List (Nat × Nat)

/-- Membership in one of the intervals. The search ends at the first interval above the point. -/
def Ranges.contains : Ranges → Nat → Bool
  | [], _ => false
  | (low, high) :: rest, c =>
    if c < low then false else c ≤ high || Ranges.contains rest c

end TypeAtlas.Text
