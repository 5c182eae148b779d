import QueryDoc.Numeric.Shortest
import QueryDoc.Proofs.Numeric.Rounding

/-!
The shortest decimal reads back: rounded to the format again, it is the number that it was made for.
Only zero has no digits other than zero.
-/

namespace QueryDoc.FloatFormat

variable {f : FloatFormat} {rule : ShortestRule} {m : Nat}

theorem nearest_shortest (bits : 0 < f.exponentBits) (reads : .toEven ∈ rule.readings)
    (finite : m < f.infinity) : f.nearest .toEven (f.shortest rule m) = m := by
  rw [shortest]
  cases found : (List.range' 1 (f.exact m).length).findSome? fun n =>
      ((f.exact m).neighbours rule.tie n).find? (f.readsBack rule.readings m) with
  | none => exact nearest_exact bits .toEven finite
  | some d =>
      obtain ⟨n, -, taken⟩ := List.exists_of_findSome?_eq_some found
      have back := List.find?_some taken
      rw [readsBack, List.all_eq_true] at back
      exact of_decide_eq_true (back .toEven reads)

theorem digits_shortest_eq_zero_iff (bits : 0 < f.exponentBits) (reads : .toEven ∈ rule.readings)
    (finite : m < f.infinity) : (f.shortest rule m).digits = 0 ↔ m = 0 := by
  constructor
  · intro none
    rw [← nearest_shortest bits reads finite, f.nearest_of_digits .toEven none]
  · rintro rfl
    have all : (f.exact 0).digits = 0 := by
      have none : f.significand 0 = 0 := if_pos f.binade_pos
      rw [exact, none]
      split <;> exact Nat.zero_mul _
    have one : (f.exact 0).length = 1 := by
      rw [Decimal.length, all, Nat.toDigits_zero]
      rfl
    -- Of the two neighbours of zero, zero is the nearer one, and so the first to be tried.
    have nearer : (f.exact 0).neighbours rule.tie 1 =
        [⟨0, (f.exact 0).exponent⟩, ⟨1, (f.exact 0).exponent⟩] := by
      simp [Decimal.neighbours, one, all, Tie.takesBelow]
    have back : f.readsBack rule.readings 0 ⟨0, (f.exact 0).exponent⟩ := by
      simp [readsBack, nearest_of_digits]
    rw [shortest, one]
    simp [nearer, back]

end QueryDoc.FloatFormat
