import Mathlib.Data.Set.Card
import ModbusRTUBridge.Lib.Machine
/-!
# Parties over a shared store

Several parties each have a state of their own and a key in a shared store. A turn is one party's:
it reads the store, and changes the entry under its own key only. What a turn keeps between the
state and the entry of its party then holds of every party, in every interleaving of turns.
-/

namespace Parties

variable {ι K V S Q C : Type}

structure State (S Q ι : Type) where
  store : S
  parties : ι → Q

/-- One turn of one party. -/
def step [DecidableEq ι] (turn : ι → C → S → Q → S × Q) (s : State S Q ι) (input : ι × C) : Unit × State S Q ι :=
  let r := turn input.1 input.2 s.store (s.parties input.1)
  ((), ⟨r.1, Function.update s.parties input.1 r.2⟩)

/-- Every party and its entry suit each other, and nobody else has an entry. -/
structure Kept (view : S → K → Option V) (key : ι → K) (ok : S → Prop) (R : ι → Q → Option V → Prop) (s : State S Q ι) :
    Prop where
  valid : ok s.store
  own : ∀ i, R i (s.parties i) (view s.store (key i))
  foreign : ∀ k, (∀ i, key i ≠ k) → view s.store k = none

/-- What one turn does to the state and the entry of its party, and that it spares the others. -/
structure Turns (view : S → K → Option V) (key : ι → K) (ok : S → Prop) (R : ι → Q → Option V → Prop) (i : ι) (store : S)
    (r : S × Q) : Prop where
  valid : ok r.1
  own : R i r.2 (view r.1 (key i))
  others : ∀ k, k ≠ key i → view r.1 k = view store k

section
variable {view : S → K → Option V} {key : ι → K} {ok : S → Prop} {R : ι → Q → Option V → Prop} {s : State S Q ι}

/-- While a party has no entry there are fewer entries than parties. -/
theorem Kept.entries_lt [Fintype ι] (h : Kept view key ok R s) {i : ι} (hi : view s.store (key i) = none) :
    {k | (view s.store k).isSome = true}.ncard < Fintype.card ι := by
  classical
  have hsub : {k | (view s.store k).isSome = true} ⊆ key '' {j | j ≠ i} := by
    intro k hk
    by_contra hno
    have hnone : view s.store k = none := by
      by_cases hkey : ∃ j, key j = k
      · obtain ⟨j, rfl⟩ := hkey
        have hj : j = i := by
          by_contra hne
          exact hno ⟨j, hne, rfl⟩
        rw [hj, hi]
      · exact h.foreign k fun j hj => hkey ⟨j, hj⟩
    rw [Set.mem_ofPred_eq, hnone] at hk
    cases hk
  have hothers : {j | j ≠ i}.ncard < Fintype.card ι := by
    rw [← Nat.card_eq_fintype_card, ← Set.ncard_univ]
    exact Set.ncard_lt_ncard ⟨Set.subset_univ _, fun huniv => huniv (Set.mem_univ i) rfl⟩
  calc {k | (view s.store k).isSome = true}.ncard
      ≤ (key '' {j | j ≠ i}).ncard := Set.ncard_le_ncard hsub
    _ ≤ {j | j ≠ i}.ncard := Set.ncard_image_le
    _ < Fintype.card ι := hothers

variable [DecidableEq ι] {turn : ι → C → S → Q → S × Q}

/-- **One turn** keeps what all parties keep. -/
theorem Kept.step (hkey : Function.Injective key) (h : Kept view key ok R s) {i : ι} {c : C}
    (hturn : Turns view key ok R i s.store (turn i c s.store (s.parties i))) :
    Kept view key ok R (Parties.step turn s (i, c)).2 := by
  refine ⟨hturn.valid, fun j => ?_, fun k hk => ?_⟩
  · show R j (Function.update s.parties i _ j) (view (turn i c s.store (s.parties i)).1 (key j))
    by_cases hj : j = i
    · subst hj
      rw [Function.update_self]
      exact hturn.own
    · rw [Function.update_of_ne hj, hturn.others _ fun e => hj (hkey e)]
      exact h.own j
  · show view (turn i c s.store (s.parties i)).1 k = none
    rw [hturn.others k fun e => hk i e.symm]
    exact h.foreign k hk

/-- **Every interleaving** keeps it, and uses up what each turn of a party uses up. -/
theorem run_kept (hkey : Function.Injective key) (potential : ι → Q → Nat) (allowed : ι → C → Prop)
    (hturn : ∀ s i c, Kept view key ok R s → allowed i c →
      Turns view key ok R i s.store (turn i c s.store (s.parties i)) ∧
      potential i (turn i c s.store (s.parties i)).2 ≤ potential i (s.parties i) - 1)
    (h : Kept view key ok R s) {inputs : List (ι × C)} (hinputs : ∀ x ∈ inputs, allowed x.1 x.2) :
    Kept view key ok R (Machine.final (Parties.step turn) s inputs) ∧
    ∀ i, potential i ((Machine.final (Parties.step turn) s inputs).parties i) ≤
      potential i (s.parties i) - inputs.countP (fun x => x.1 = i) := by
  induction inputs generalizing s with
  | nil => exact ⟨h, fun i => Nat.le_refl _⟩
  | cons x inputs ih =>
    obtain ⟨j, c⟩ := x
    obtain ⟨hone, hlower⟩ := hturn s j c h (hinputs _ List.mem_cons_self)
    obtain ⟨hkept, hrest⟩ := ih (h.step hkey hone) fun x hx => hinputs x (List.mem_cons_of_mem _ hx)
    refine ⟨hkept, fun i => (hrest i).trans ?_⟩
    rw [List.countP_cons]
    show potential i (Function.update s.parties j _ i) - _ ≤ _
    by_cases hi : j = i
    · subst hi
      rw [Function.update_self]
      simp only [decide_true, if_true]
      omega
    · rw [Function.update_of_ne fun e => hi e.symm]
      simp [hi]

end

end Parties
