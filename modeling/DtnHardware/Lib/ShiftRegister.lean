import Mathlib.Tactic
import Mathlib.Logic.Function.Iterate

/-!
# Checksum registers

The register of a cyclic redundancy check, least significant bit first: a `step` shifts right
and, if a one falls out, adds the generator `poly`; a byte is added to the low end and shifted
through in eight steps. The width `w` and the generator are arbitrary.

Everything follows from two facts. A step is linear (`step_xor`), so the difference of two
registers is the register of the difference; and if `poly` has its top bit a step is injective
(`step_injective`), so a difference never dies out.

* `register_xor` — the register of a difference;
* `register_eq` — up to `w` bits, feeding bytes is adding them all at once (`pack`) and then
  shifting;
* `burst_seen` — **a burst of at most `w` bits in the data is seen**;
* `iterate_ne` — two single bits are seen as long as the top bit does not return within their
  distance.
-/

set_option autoImplicit false

namespace ShiftRegister

variable {w : Nat}

/-! ## One step -/

/-- Shift right, and add the generator if a one falls out. -/
def step (poly x : BitVec w) : BitVec w :=
  if x.getLsbD 0 then (x >>> 1) ^^^ poly else x >>> 1

section
variable {poly : BitVec w}

@[simp] theorem step_zero : step poly 0#w = 0#w := by simp [step]

theorem step_xor (x y : BitVec w) : step poly (x ^^^ y) = step poly x ^^^ step poly y := by
  unfold step
  rw [BitVec.getLsbD_xor, BitVec.ushiftRight_xor_distrib]
  cases x.getLsbD 0 <;> cases y.getLsbD 0
  · simp
  · simp [BitVec.xor_assoc]
  · simp only [Bool.true_xor, Bool.not_false, if_true, Bool.false_eq_true, if_false]
    rw [BitVec.xor_assoc, BitVec.xor_comm (y >>> 1), BitVec.xor_assoc]
  · have hcancel : x >>> 1 ^^^ poly ^^^ (y >>> 1 ^^^ poly) = x >>> 1 ^^^ y >>> 1 := by
      rw [BitVec.xor_comm (y >>> 1), BitVec.xor_assoc, ← BitVec.xor_assoc poly,
        BitVec.xor_self, BitVec.zero_xor]
    simp [hcancel]

/-- Nothing but zero is shifted to zero. -/
theorem eq_zero_of_step (hp : poly.msb = true) {x : BitVec w} (h : step poly x = 0#w) :
    x = 0#w := by
  unfold step at h
  split at h
  · -- the generator has the top bit, and what is shifted has not
    rw [← BitVec.xor_eq_zero_iff.mp h, BitVec.msb_ushiftRight] at hp
    simp at hp
  · rename_i hlow
    apply BitVec.eq_of_getLsbD_eq
    intro i hi
    rw [BitVec.getLsbD_zero]
    cases i with
    | zero => simpa using hlow
    | succ i =>
      have hbit := congrArg (fun y => y.getLsbD i) h
      simpa [BitVec.getLsbD_ushiftRight, Nat.add_comm] using hbit

theorem step_injective (hp : poly.msb = true) : Function.Injective (step poly) := by
  intro x y h
  have hzero : step poly (x ^^^ y) = 0#w := by rw [step_xor, h, BitVec.xor_self]
  exact BitVec.xor_eq_zero_iff.mp (eq_zero_of_step hp hzero)

/-- Without its top bit, a number doubled and shifted back is itself. -/
theorem step_double {x : BitVec w} (h : x.msb = false) : step poly (x <<< 1) = x := by
  have hlow : (x <<< 1).getLsbD 0 = false := by simp
  unfold step
  rw [hlow, if_neg (by decide)]
  apply BitVec.eq_of_getLsbD_eq
  intro i hi
  rw [BitVec.getLsbD_ushiftRight, BitVec.getLsbD_shiftLeft]
  rcases Nat.lt_or_ge (1 + i) w with hlt | hge
  · simp [hlt]
  · have hi' : i = w - 1 := by omega
    subst hi'
    rw [BitVec.msb_eq_getLsbD_last] at h
    rw [h]
    simp [Nat.not_lt.mpr hge]

/-! ## Many steps -/

@[simp] theorem iterate_zero (n : Nat) : (step poly)^[n] 0#w = 0#w := by
  induction n with
  | zero => rfl
  | succ n ih => rw [Function.iterate_succ_apply, step_zero, ih]

theorem iterate_xor (n : Nat) (x y : BitVec w) :
    (step poly)^[n] (x ^^^ y) = (step poly)^[n] x ^^^ (step poly)^[n] y := by
  induction n generalizing x y with
  | zero => rfl
  | succ n ih => rw [Function.iterate_succ_apply, step_xor, ih]; rfl

theorem eq_zero_of_iterate (hp : poly.msb = true) {n : Nat} {x : BitVec w}
    (h : (step poly)^[n] x = 0#w) : x = 0#w :=
  (step_injective hp).iterate n (h.trans (iterate_zero n).symm)

/-- What was moved up `n` places, without falling out at the top, comes back in `n` steps. -/
theorem iterate_shiftLeft {n : Nat} {x : BitVec w} (h : x.toNat * 2 ^ n < 2 ^ w) :
    (step poly)^[n] (x <<< n) = x := by
  induction n with
  | zero => simp
  | succ n ih =>
    have hhalf : x.toNat * 2 ^ n < 2 ^ w := by
      rw [pow_succ, ← mul_assoc] at h
      omega
    have hval : (x <<< n).toNat = x.toNat * 2 ^ n := by
      rw [BitVec.toNat_shiftLeft, Nat.shiftLeft_eq, Nat.mod_eq_of_lt hhalf]
    have hmsb : (x <<< n).msb = false := by
      rw [BitVec.msb_eq_false_iff_two_mul_lt, hval]
      rw [pow_succ, ← mul_assoc] at h
      omega
    rw [Function.iterate_succ_apply, BitVec.shiftLeft_add, step_double hmsb, ih hhalf]

/-- The top bit, moved down. -/
theorem iterate_twoPow {k j : Nat} (h : j + k < w) :
    (step poly)^[k] (BitVec.twoPow w (j + k)) = BitVec.twoPow w j := by
  have hval : (BitVec.twoPow w j).toNat = 2 ^ j := by
    rw [BitVec.toNat_twoPow, Nat.mod_eq_of_lt (Nat.pow_lt_pow_right (by decide) (by omega))]
  have hmoved : BitVec.twoPow w (j + k) = BitVec.twoPow w j <<< k := by
    rw [BitVec.twoPow_eq, BitVec.twoPow_eq, BitVec.shiftLeft_add]
  rw [hmoved]
  apply iterate_shiftLeft
  rw [hval, ← pow_add]
  exact Nat.pow_lt_pow_right (by decide) h

/-- **Two single bits are told apart** while the bit they come from does not return. -/
theorem iterate_ne (hp : poly.msb = true) {x : BitVec w} {n a b : Nat}
    (hreturn : ∀ k, 0 < k → k ≤ n → (step poly)^[k] x ≠ x) (hab : a < b) (hb : b ≤ n + a) :
    (step poly)^[a] x ≠ (step poly)^[b] x := by
  intro heq
  have hsplit : b = a + (b - a) := by omega
  rw [hsplit, Function.iterate_add_apply] at heq
  exact hreturn (b - a) (by omega) (by omega) ((step_injective hp).iterate a heq).symm

/-- One step back. -/
def unstep (poly x : BitVec w) : BitVec w :=
  if x.msb then ((x ^^^ poly) <<< 1) ||| 1#w else x <<< 1

theorem step_unstep (hp : poly.msb = true) (x : BitVec w) : step poly (unstep poly x) = x := by
  unfold unstep
  split
  · rename_i hx
    -- the top bits of `x` and the generator cancel, and the one that falls out adds it back
    have hmsb : (x ^^^ poly).msb = false := by rw [BitVec.msb_xor, hx, hp]; rfl
    have hshift : step poly ((x ^^^ poly) <<< 1) = x ^^^ poly := step_double hmsb
    have hpos : 0 < w := by
      rcases Nat.eq_zero_or_pos w with rfl | hpos
      · simp [BitVec.of_length_zero] at hp
      · exact hpos
    have heven : ((x ^^^ poly) <<< 1).getLsbD 0 = false := by simp
    have hsum : ((x ^^^ poly) <<< 1) ||| 1#w = ((x ^^^ poly) <<< 1) ^^^ 1#w := by
      apply BitVec.eq_of_getLsbD_eq
      intro i hi
      rw [BitVec.getLsbD_or, BitVec.getLsbD_xor, BitVec.getLsbD_one]
      rcases Nat.eq_zero_or_pos i with rfl | hi'
      · simp
      · have hne : i ≠ 0 := by omega
        simp [hne]
    have hone : step poly 1#w = poly := by
      have hlow : (1#w).getLsbD 0 = true := by simp [hpos]
      have hgone : (1#w) >>> 1 = 0#w := by
        apply BitVec.eq_of_getLsbD_eq
        intro i hi
        rw [BitVec.getLsbD_ushiftRight, BitVec.getLsbD_one]
        simp
      rw [step, hlow, if_pos rfl, hgone, BitVec.zero_xor]
    rw [hsum, step_xor, hshift, hone, BitVec.xor_assoc, BitVec.xor_self, BitVec.xor_zero]
  · rename_i hx
    exact step_double (by simpa using hx)

theorem iterate_unstep_zero (n : Nat) : (unstep poly)^[n] 0#w = 0#w :=
  Function.iterate_fixed (by simp [unstep]) n

theorem iterate_unstep (hp : poly.msb = true) (n : Nat) (x : BitVec w) :
    (step poly)^[n] ((unstep poly)^[n] x) = x :=
  Function.LeftInverse.iterate (step_unstep hp) n x

/-- Does `x₀` occur among `x` and the `n - 1` that follow it? -/
def occursWithin (poly x₀ : BitVec w) : Nat → BitVec w → Bool
  | 0, _ => false
  | n + 1, x => decide (x = x₀) || occursWithin poly x₀ n (step poly x)

/-- The check that a bit does not return. -/
theorem iterate_ne_self {x₀ : BitVec w} {n : Nat}
    (h : occursWithin poly x₀ n (step poly x₀) = false) :
    ∀ k, 0 < k → k ≤ n → (step poly)^[k] x₀ ≠ x₀ := by
  have hrun : ∀ (n : Nat) (x : BitVec w), occursWithin poly x₀ n x = false →
      ∀ k, k < n → (step poly)^[k] x ≠ x₀ := by
    intro n
    induction n with
    | zero => exact fun _ _ k hk => absurd hk (Nat.not_lt_zero k)
    | succ n ih =>
      intro x hx k hk
      rw [occursWithin, Bool.or_eq_false_iff] at hx
      cases k with
      | zero => exact of_decide_eq_false hx.1
      | succ k => exact ih _ hx.2 k (by omega)
  intro k hpos hle
  have hpred : k = (k - 1) + 1 := by omega
  rw [hpred, Function.iterate_succ_apply]
  exact hrun n _ h (k - 1) (by omega)

end

/-! ## Bytes -/

/-- Add a byte to the low end and shift it through. -/
def feed (poly s : BitVec w) (x : UInt8) : BitVec w :=
  (step poly)^[8] (s ^^^ x.toBitVec.setWidth w)

/-- The register after the bytes `l`, from `s`. -/
def register (poly s : BitVec w) (l : List UInt8) : BitVec w := l.foldl (feed poly) s

/-- The bytes side by side, the first one lowest. -/
def pack (w : Nat) : List UInt8 → BitVec w
  | [] => 0#w
  | x :: xs => x.toBitVec.setWidth w ^^^ (pack w xs <<< 8)

section
variable {poly : BitVec w}

theorem register_append (s : BitVec w) (l l' : List UInt8) :
    register poly s (l ++ l') = register poly (register poly s l) l' := List.foldl_append

theorem feed_xor (s s' : BitVec w) (x y : UInt8) :
    feed poly (s ^^^ s') (x ^^^ y) = feed poly s x ^^^ feed poly s' y := by
  unfold feed
  rw [← iterate_xor, UInt8.toBitVec_xor, BitVec.setWidth_xor]
  congr 1
  ac_rfl

/-- A loop over bytes whose body is linear is linear. -/
theorem foldl_xor {f : BitVec w → UInt8 → BitVec w}
    (hf : ∀ s s' x y, f (s ^^^ s') (x ^^^ y) = f s x ^^^ f s' y) :
    ∀ (l l' : List UInt8) (s s' : BitVec w), l.length = l'.length →
      (List.zipWith (· ^^^ ·) l l').foldl f (s ^^^ s') = l.foldl f s ^^^ l'.foldl f s' := by
  intro l
  induction l with
  | nil =>
    intro l' s s' h
    rw [List.length_eq_zero_iff.mp h.symm]
    rfl
  | cons x l ih =>
    intro l' s s' h
    cases l' with
    | nil => cases h
    | cons y l' =>
      rw [List.zipWith_cons_cons, List.foldl_cons, hf, ih l' _ _ (Nat.succ.inj h)]
      rfl

/-- **The register of a difference is the difference of the registers.** -/
theorem register_xor (l l' : List UInt8) (s s' : BitVec w) (h : l.length = l'.length) :
    register poly (s ^^^ s') (List.zipWith (· ^^^ ·) l l')
      = register poly s l ^^^ register poly s' l' := foldl_xor feed_xor l l' s s' h

/-- Zeros only shift. -/
theorem register_zeros (s : BitVec w) (n : Nat) :
    register poly s (List.replicate n 0) = (step poly)^[8 * n] s := by
  induction n generalizing s with
  | zero => rfl
  | succ n ih =>
    have hfeed : feed poly s 0 = (step poly)^[8] s := by simp [feed]
    rw [List.replicate_succ, register, List.foldl_cons, hfeed, mul_add, mul_one,
      Function.iterate_add_apply]
    exact ih _

theorem toNat_pack_lt (l : List UInt8) (h : 8 * l.length ≤ w) :
    (pack w l).toNat < 2 ^ (8 * l.length) := by
  induction l with
  | nil => simp [pack]
  | cons x l ih =>
    rw [List.length_cons] at h ⊢
    have hrest := ih (by omega)
    have hx : (x.toBitVec.setWidth w).toNat < 2 ^ (8 * (l.length + 1)) := by
      rw [BitVec.toNat_setWidth]
      have hle : x.toBitVec.toNat % 2 ^ w ≤ x.toBitVec.toNat := Nat.mod_le _ _
      have hlt : x.toBitVec.toNat < 2 ^ 8 := x.toBitVec.isLt
      have hpow : 2 ^ 8 ≤ 2 ^ (8 * (l.length + 1)) :=
        Nat.pow_le_pow_right (by decide) (by omega)
      omega
    have hshift : (pack w l <<< 8).toNat < 2 ^ (8 * (l.length + 1)) := by
      rw [BitVec.toNat_shiftLeft, Nat.shiftLeft_eq]
      have hle := Nat.mod_le ((pack w l).toNat * 2 ^ 8) (2 ^ w)
      rw [mul_add, mul_one, pow_add]
      omega
    rw [pack, BitVec.toNat_xor]
    exact Nat.xor_lt_two_pow hx hshift

/-- Feeding at most `w` bits is adding them all at once and then shifting. -/
theorem register_eq (l : List UInt8) (h : 8 * l.length ≤ w) (s : BitVec w) :
    register poly s l = (step poly)^[8 * l.length] (s ^^^ pack w l) := by
  induction l generalizing s with
  | nil => simp [register, pack]
  | cons x l ih =>
    rw [List.length_cons] at h
    have hrest : (pack w l).toNat * 2 ^ 8 < 2 ^ w := by
      have hlen : 8 * l.length ≤ w := by omega
      have hlt := toNat_pack_lt l hlen
      calc (pack w l).toNat * 2 ^ 8 < 2 ^ (8 * l.length) * 2 ^ 8 := by omega
        _ = 2 ^ (8 * l.length + 8) := (pow_add 2 _ _).symm
        _ ≤ 2 ^ w := Nat.pow_le_pow_right (by decide) (by omega)
    have hback : pack w l = (step poly)^[8] (pack w l <<< 8) := (iterate_shiftLeft hrest).symm
    have hcons : register poly s (x :: l) = register poly (feed poly s x) l := rfl
    rw [hcons, ih (by omega), List.length_cons, mul_add, mul_one, Function.iterate_add_apply]
    congr 1
    conv_lhs => rw [hback]
    rw [feed, ← iterate_xor, pack, BitVec.xor_assoc]

theorem eq_zero_of_pack (l : List UInt8) (h : 8 * l.length ≤ w) (hz : pack w l = 0#w) :
    ∀ x ∈ l, x = 0 := by
  induction l with
  | nil => exact nofun
  | cons x l ih =>
    rw [List.length_cons] at h
    have heq : x.toBitVec.setWidth w = pack w l <<< 8 := BitVec.xor_eq_zero_iff.mp hz
    have hval := congrArg BitVec.toNat heq
    have hlen : 8 * l.length ≤ w := by omega
    have hlt := toNat_pack_lt l hlen
    have hx : x.toBitVec.toNat < 2 ^ 8 := x.toBitVec.isLt
    have hbig : 2 ^ (8 * l.length) * 2 ^ 8 ≤ 2 ^ w := by
      rw [← pow_add]
      exact Nat.pow_le_pow_right (by decide) (by omega)
    have hone : 1 ≤ 2 ^ (8 * l.length) := Nat.one_le_two_pow
    rw [BitVec.toNat_setWidth, BitVec.toNat_shiftLeft, Nat.shiftLeft_eq,
      Nat.mod_eq_of_lt (by omega), Nat.mod_eq_of_lt (by omega)] at hval
    have hpack : pack w l = 0#w := BitVec.eq_of_toNat_eq (by simp; omega)
    intro y hy
    rcases List.mem_cons.mp hy with rfl | hy
    · apply UInt8.toNat_inj.mp
      change y.toBitVec.toNat = 0
      omega
    · exact ih (by omega) hpack y hy

/-- **A burst of at most `w` bits in the data is seen**, wherever it stands. -/
theorem burst_seen (hp : poly.msb = true) {m n : Nat} {l : List UInt8} (h : 8 * l.length ≤ w)
    (hz : register poly 0#w (List.replicate m 0 ++ l ++ List.replicate n 0) = 0#w) :
    ∀ x ∈ l, x = 0 := by
  rw [register_append, register_append, register_zeros, register_zeros, iterate_zero,
    register_eq l h, BitVec.zero_xor] at hz
  exact eq_zero_of_pack l h (eq_zero_of_iterate hp (eq_zero_of_iterate hp hz))

end

end ShiftRegister
