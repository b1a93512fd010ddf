namespace LambdaCalculus.Text

/-- A set of characters, as the first and the last code point of each of its ranges. -/
abbrev CodePoints := List (Nat × Nat)

def CodePoints.contains (s : CodePoints) (c : Char) : Bool :=
  s.any fun (first, last) => first ≤ c.toNat && c.toNat ≤ last

theorem CodePoints.contains_iff (s : CodePoints) (c : Char) :
    s.contains c = true ↔ ∃ r ∈ s, r.1 ≤ c.toNat ∧ c.toNat ≤ r.2 := by
  simp [CodePoints.contains]

end LambdaCalculus.Text
