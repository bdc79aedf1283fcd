import Mathlib.Tactic.TypeStar
/-!
# Overlays

A list of layers over a base: each layer has a value or is transparent, and of those that have
one the last decides.
-/

namespace Overlay

variable {X V : Type*} {f g : X → Option V} {xs ys : List X} {v w : V}

/-- What shows through the layers `xs` over the base `v`. -/
def overlay (f : X → Option V) (xs : List X) (v : V) : V := xs.foldl (fun v x => (f x).getD v) v

@[simp] theorem overlay_nil : overlay f [] v = v := rfl

@[simp] theorem overlay_cons (x : X) : overlay f (x :: xs) v = overlay f xs ((f x).getD v) := rfl

theorem overlay_append : overlay f (xs ++ ys) v = overlay f ys (overlay f xs v) := List.foldl_append

/-- Transparent layers do not matter. -/
theorem overlay_clear (h : ∀ x ∈ xs, f x = none) : overlay f xs v = v := by
  induction xs with
  | nil => rfl
  | cons x xs ih =>
    rw [overlay_cons, h x List.mem_cons_self]
    exact ih fun y hy => h y (List.mem_cons_of_mem _ hy)

/-- Under a layer that is not transparent the base does not matter. -/
theorem overlay_covered (h : ∃ x ∈ xs, f x ≠ none) (v w : V) : overlay f xs v = overlay f xs w := by
  induction xs generalizing v w with
  | nil =>
    obtain ⟨x, hx, _⟩ := h
    cases hx
  | cons x xs ih =>
    rw [overlay_cons, overlay_cons]
    by_cases hlater : ∃ y ∈ xs, f y ≠ none
    · exact ih hlater _ _
    · obtain ⟨y, hy, hne⟩ := h
      obtain rfl : y = x := (List.mem_cons.1 hy).resolve_right fun hy => hlater ⟨y, hy, hne⟩
      obtain ⟨u, hu⟩ := Option.ne_none_iff_exists'.1 hne
      rw [hu]
      rfl

/-- Layers that agree show what they agree on. -/
theorem overlay_agree (h : ∀ x ∈ xs, ∀ u, f x = some u → u = w) (hx : ∃ x ∈ xs, f x ≠ none) : overlay f xs v = w := by
  rw [overlay_covered hx v w]
  clear hx
  induction xs with
  | nil => rfl
  | cons x xs ih =>
    have hfirst : (f x).getD w = w := by
      cases hu : f x with
      | none => rfl
      | some u => exact h x List.mem_cons_self u hu
    rw [overlay_cons, hfirst]
    exact ih fun y hy => h y (List.mem_cons_of_mem _ hy)

theorem overlay_congr (h : ∀ x ∈ xs, f x = g x) : overlay f xs v = overlay g xs v := by
  induction xs generalizing v with
  | nil => rfl
  | cons x xs ih =>
    rw [overlay_cons, overlay_cons, h x List.mem_cons_self]
    exact ih fun y hy => h y (List.mem_cons_of_mem _ hy)

end Overlay
