import Mathlib.Algebra.Group.Nat.Defs
import ModbusRTUBridge.IngressWork
import ModbusRTUBridge.Lib.Serial
/-!
# Tokens in issue order

`nextNonZeroSerial16` leaves zero out and `nonZeroSerial16Before` does not: across the wrap two tokens
are one further apart than the number of steps between them. Fewer than 2^15 steps keep the order of
issue, except that 2^15 - 1 steps across the wrap make two tokens half the serial space apart, and
those are unordered.
-/

namespace ModbusRTUBridge

/-- The last token before the counter wraps to one. -/
def lastToken : Nat := 65535

theorem toNat_nextNonZeroSerial16 (x : UInt16) :
    (nextNonZeroSerial16 x).toNat = Serial.next lastToken x.toNat := by
  unfold nextNonZeroSerial16 Serial.next lastToken
  by_cases hx : x = 0xFFFF
  · rw [hx]
    rfl
  · have hadd := toNat_succ hx
    have hne : x.toNat ≠ 65535 := fun e => hx (UInt16.toNat_inj.1 e)
    have hnext : x + 1 ≠ 0 := toNat_pos.1 (by omega)
    rw [if_neg hne]
    simp only [hnext, if_false]
    exact hadd

theorem toNat_iterate_serial (d : Nat) (x : UInt16) :
    (nextNonZeroSerial16^[d] x).toNat = (Serial.next lastToken)^[d] x.toNat := by
  induction d generalizing x with
  | zero => rfl
  | succ d ih => rw [Function.iterate_succ_apply, ih, toNat_nextNonZeroSerial16, Function.iterate_succ_apply]

/-- The comparison is the half-space rule of the 16-bit word. -/
theorem nonZeroSerial16Before_iff {x y : UInt16} (hx : x ≠ 0) (hy : y ≠ 0) :
    nonZeroSerial16Before x y = true ↔ Serial.Before lastToken x.toNat y.toNat := by
  have hdistance : (y - x).toNat = Serial.distance lastToken x.toNat y.toNat := by
    have := x.toNat_lt
    rw [UInt16.toNat_sub, Serial.distance]
    congr 1
    unfold lastToken
    omega
  unfold nonZeroSerial16Before Serial.Before
  by_cases hxy : x = y
  · simp [hxy]
  · have hne : x.toNat ≠ y.toNat := fun e => hxy (UInt16.toNat_inj.1 e)
    rw [if_neg (by simp [hxy, hx]), if_neg hy, decide_eq_true_eq, UInt16.lt_iff_toNat_lt, hdistance]
    have hhalf : (0x8000 : UInt16).toNat = 32768 := rfl
    rw [hhalf]
    unfold lastToken
    constructor
    · intro hlt
      exact ⟨hne, by omega⟩
    · rintro ⟨_, hlt⟩
      omega

/-! ## Identities of one session -/

/-- The identity issued `d` steps after the one with `token`. -/
def issuedIdentity (token generation : UInt16) (d : Nat) : WorkIdentity := ⟨nextNonZeroSerial16^[d] token, generation⟩

/-- The token `d` steps on is half the serial space away: the longest window, and zero was left out
of it. -/
def HalfApart (token : UInt16) (d : Nat) : Prop := d = 2 ^ 15 - 1 ∧ lastToken < token.toNat + d

section
variable {t g : UInt16} (ht : t ≠ 0) (hg : g ≠ 0)
include ht

theorem toNat_token : 0 < t.toNat ∧ t.toNat ≤ lastToken := by
  have hlt := t.toNat_lt
  refine ⟨toNat_pos.2 ht, ?_⟩
  unfold lastToken
  omega

theorem issued_token_ne (d : Nat) : (issuedIdentity t g d).sourceToken ≠ 0 := by
  obtain ⟨hpos, hle⟩ := toNat_token ht
  have hbounds := Serial.iterate_next_bounds hpos hle d
  rw [← toNat_iterate_serial] at hbounds
  exact toNat_pos.1 hbounds.1

include hg

theorem issued_before_iff (i j : Nat) : workIdentityBefore (issuedIdentity t g i) (issuedIdentity t g j) = true ↔
    Serial.Before lastToken ((Serial.next lastToken)^[i] t.toNat) ((Serial.next lastToken)^[j] t.toNat) := by
  have hi : nextNonZeroSerial16^[i] t ≠ 0 := issued_token_ne (g := g) ht i
  have hj : nextNonZeroSerial16^[j] t ≠ 0 := issued_token_ne (g := g) ht j
  rw [← toNat_iterate_serial, ← toNat_iterate_serial, ← nonZeroSerial16Before_iff hi hj]
  simp [workIdentityBefore, WorkIdentity.valid, issuedIdentity, hi, hj, hg]

/-- **Tokens keep the order of issue**: of two identities fewer than 2^15 steps apart the later one is
never before the earlier one, and is after it unless they are half the serial space apart; and a
window whose ends are not is ordered as it was issued. -/
theorem issue_order_kept {d : Nat} (hpos : 1 ≤ d) (hd : d < 2 ^ 15) :
    (workIdentityBefore (issuedIdentity t g 0) (issuedIdentity t g d) = true ↔ ¬ HalfApart t d) ∧
    workIdentityBefore (issuedIdentity t g d) (issuedIdentity t g 0) = false ∧
    (¬ HalfApart t d → ∀ i ≤ d, ∀ j ≤ d,
      workIdentityBefore (issuedIdentity t g i) (issuedIdentity t g j) = true ↔ i < j) := by
  obtain ⟨h0, hN⟩ := toNat_token ht
  have hspace : 2 * d + 2 ≤ lastToken + 1 := by
    unfold lastToken
    omega
  have hahead := Serial.before_iterate h0 hN hpos hspace
  have hhalf : (2 * d + 2 = lastToken + 1 ∧ lastToken < t.toNat + d) ↔ HalfApart t d := by
    unfold HalfApart lastToken
    omega
  rw [hhalf] at hahead
  refine ⟨(issued_before_iff ht hg 0 d).trans hahead, ?_, ?_⟩
  · rw [Bool.eq_false_iff, ne_eq, issued_before_iff ht hg]
    exact Serial.not_before_back h0 hN hpos hspace
  · intro hends i hi j hj
    rw [issued_before_iff ht hg]
    exact Serial.before_window h0 hN hspace (hahead.2 hends) hi hj

end

theorem issue_order_kept_test :
    (workIdentityBefore (issuedIdentity 0xFFFE 9 0) (issuedIdentity 0xFFFE 9 3) = true ↔ ¬ HalfApart 0xFFFE 3) ∧
    workIdentityBefore (issuedIdentity 0xFFFE 9 3) (issuedIdentity 0xFFFE 9 0) = false ∧
    (¬ HalfApart 0xFFFE 3 → ∀ i ≤ 3, ∀ j ≤ 3,
      workIdentityBefore (issuedIdentity 0xFFFE 9 i) (issuedIdentity 0xFFFE 9 j) = true ↔ i < j) :=
  issue_order_kept (by decide) (by decide) (by decide) (by decide)

/-- The token 2^15 - 1 steps after the last one is 32767: neither is before the other. -/
theorem half_apart_unordered : ¬ ∀ (t g : UInt16) (d : Nat), t ≠ 0 → g ≠ 0 → 1 ≤ d → d < 2 ^ 15 →
    workIdentityBefore (issuedIdentity t g 0) (issuedIdentity t g d) = true ∧
    workIdentityBefore (issuedIdentity t g d) (issuedIdentity t g 0) = false := by
  intro hall
  have hbefore := (hall 0xFFFF 9 32767 (by decide) (by decide) (by decide) (by decide)).1
  rw [issued_before_iff (by decide) (by decide)] at hbefore
  exact (Serial.before_iterate (by decide) (by decide) (by decide) (by decide)).1 hbefore ⟨by decide, by decide⟩

end ModbusRTUBridge
