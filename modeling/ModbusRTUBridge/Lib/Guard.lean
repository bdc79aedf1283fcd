/-!
# Early returns

A function that returns a result and a state often starts with guards that return early and
leave the state as it is. `Guard.skip` peels one such guard off: if some results mean that
nothing happened, it is enough to look at the rest.
-/

namespace Guard

variable {R S : Type} (P : R → Prop) {c : Prop} [Decidable c] {r : R} {s : S} {rest : R × S}

/-- The early return keeps the state; so does the whole if the rest does. -/
theorem skip (h : P (if c then (r, s) else rest).1) (hrest : ¬ c → P rest.1 → rest.2 = s) :
    (if c then (r, s) else rest).2 = s := by
  split
  · rfl
  · rename_i hc
    rw [if_neg hc] at h
    exact hrest hc h

end Guard
