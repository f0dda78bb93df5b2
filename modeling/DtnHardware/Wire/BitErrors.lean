import DtnHardware.Wire.Crc

/-!
# One or two wrong bits

Every bit of a frame has a place in the register: bit `j` of a data byte enters as the top bit
shifted down by as many steps as are still to come, and bit `j` of a checksum byte *is* a bit
of the register, so the top bit shifted down by fewer than thirty-two. `bitExponent` counts
these steps, and

> **no two bits of a frame have the same exponent** (`bitExponent_injective`).

One wrong bit is then a register that is not zero, because a step is injective. Two wrong bits
cancel only if the top bit returns within the difference of their exponents, and within the
1640 steps that a frame of 205 bytes allows it does not (`topBit_away`).
-/

set_option autoImplicit false

namespace DtnHardware

open ShiftRegister ByteLayout

/-! ## The syndrome -/

/-- One more byte of a big-endian number. -/
def fieldStep (v : BitVec 32) (x : UInt8) : BitVec 32 := (v <<< 8) ^^^ x.toBitVec.setWidth 32

/-- The checksum field as a number: the first byte is the top one. -/
def crcField (l : List UInt8) : BitVec 32 := l.foldl fieldStep 0#32

/-- The checksum of the data against the field. -/
def syndrome (e : List UInt8) : BitVec 32 :=
  register crcPoly 0#32 (e.take (e.length - 4)) ^^^ crcField (e.drop (e.length - 4))

theorem crcField_putU32 (v : UInt32) : crcField (putU32 v) = v.toBitVec := by
  apply BitVec.eq_of_getLsbD_eq
  intro i hi
  unfold crcField putU32
  simp only [List.foldl_cons, List.foldl_nil, fieldStep, BitVec.getLsbD_xor, BitVec.getLsbD_shiftLeft,
    BitVec.getLsbD_setWidth, UInt32.toBitVec_toUInt8, UInt32.toBitVec_shiftRight, hi]
  -- one byte after the other, from the last
  by_cases h₀ : i < 8
  · simp [h₀, hi]
  · have hi₁ : i - 8 < 32 := by omega
    by_cases h₁ : i - 8 < 8
    · simp [hi, hi₁, h₀, h₁, show 8 + (i - 8) = i by omega]
    · have hi₂ : i - 8 - 8 < 32 := by omega
      by_cases h₂ : i - 8 - 8 < 8
      · simp [hi, hi₁, hi₂, h₀, h₁, h₂, show 16 + (i - 8 - 8) = i by omega]
      · have hi₃ : i - 8 - 8 - 8 < 8 := by omega
        have hi₃' : i - 8 - 8 - 8 < 32 := by omega
        simp [hi, hi₁, hi₂, hi₃, hi₃', h₀, h₁, h₂, show 24 + (i - 8 - 8 - 8) = i by omega]

theorem crcField_xor {l l' : List UInt8} (h : l.length = l'.length) :
    crcField (xorBytes l l') = crcField l ^^^ crcField l' := by
  have hstep (u v : BitVec 32) (x y : UInt8) :
      fieldStep (u ^^^ v) (x ^^^ y) = fieldStep u x ^^^ fieldStep v y := by
    unfold fieldStep
    rw [UInt8.toBitVec_xor, BitVec.setWidth_xor, BitVec.shiftLeft_xor_distrib]
    ac_rfl
  have hall := foldl_xor hstep l l' 0#32 0#32 h
  rwa [BitVec.xor_self] at hall

/-- The syndrome of a sum of errors is the sum of the syndromes. -/
theorem syndrome_xor {e e' : List UInt8} (h : e.length = e'.length) :
    syndrome (xorBytes e e') = syndrome e ^^^ syndrome e' := by
  have htake : (e.take (e.length - 4)).length = (e'.take (e'.length - 4)).length := by
    rw [List.length_take, List.length_take, h]
  have hdrop : (e.drop (e.length - 4)).length = (e'.drop (e'.length - 4)).length := by
    rw [List.length_drop, List.length_drop, h]
  have hregister : register crcPoly (0#32 ^^^ 0#32) (List.zipWith (· ^^^ ·)
      (e.take (e.length - 4)) (e'.take (e'.length - 4))) = _ := register_xor _ _ 0#32 0#32 htake
  have hfield := crcField_xor hdrop
  unfold syndrome
  rw [length_xorBytes h]
  unfold xorBytes at hfield ⊢
  rw [List.take_zipWith, List.drop_zipWith]
  rw [BitVec.xor_self, ← h] at hregister
  rw [← h] at hfield
  rw [hregister, hfield, h]
  ac_rfl

/-- **A codeword has syndrome zero.** -/
theorem IsCodeword.syndrome {e : List UInt8} (h : IsCodeword e) : syndrome e = 0#32 := by
  obtain ⟨body, _, rfl⟩ := h
  have hlen : (body ++ putU32 (crcOf body)).length - 4 = body.length := by simp
  unfold DtnHardware.syndrome
  rw [hlen, List.take_left, List.drop_left, crcField_putU32]
  exact BitVec.xor_self

/-! ## A single bit -/

/-- The byte with bit `j` set. -/
def bitMask (j : Nat) : UInt8 := 1 <<< j.toUInt8

/-- The error in bit `k` of `n` bytes: bit `k % 8` of byte `k / 8`. -/
def bitError (n k : Nat) : List UInt8 := (List.replicate n 0).set (k / 8) (bitMask (k % 8))

/-- How far the top bit has been shifted to where bit `k` of a frame of `n` bytes enters. -/
def bitExponent (n k : Nat) : Nat :=
  if k / 8 < n - 4 then 8 * (n - 4 - k / 8) + (31 - k % 8)
  else 31 - (8 * (n - 1 - k / 8) + k % 8)

/-- **No two bits of a frame have the same exponent.** -/
theorem bitExponent_injective {n i j : Nat} (hi : i < 8 * n) (hj : j < 8 * n)
    (h : bitExponent n i = bitExponent n j) : i = j := by
  unfold bitExponent at h
  split at h <;> split at h <;> omega

theorem bitExponent_le {n : Nat} (k : Nat) (hn : n ≤ 205) : bitExponent n k ≤ 1639 := by
  unfold bitExponent
  split <;> omega

theorem bitMask_toBitVec {j : Nat} (hj : j < 8) :
    (bitMask j).toBitVec.setWidth 32 = BitVec.twoPow 32 j := by
  have hall : ∀ j < 8, (bitMask j).toBitVec.setWidth 32 = BitVec.twoPow 32 j := by decide
  exact hall j hj

/-- A single bit of the checksum field. -/
theorem crcField_bit {r j : Nat} (hr : r < 4) (hj : j < 8) :
    crcField ((List.replicate 4 0).set r (bitMask j)) = BitVec.twoPow 32 (8 * (3 - r) + j) := by
  have hall : ∀ r < 4, ∀ j < 8, crcField ((List.replicate 4 0).set r (bitMask j))
      = BitVec.twoPow 32 (8 * (3 - r) + j) := by decide
  exact hall r hr j hj

/-- Bit `j` is the top bit, moved down. -/
theorem twoPow_eq_iterate {j : Nat} (hj : j < 32) :
    BitVec.twoPow 32 j = (step crcPoly)^[31 - j] (BitVec.twoPow 32 31) := by
  have hmoved : (step crcPoly)^[31 - j] (BitVec.twoPow 32 (j + (31 - j))) = BitVec.twoPow 32 j :=
    iterate_twoPow (by omega)
  rw [← hmoved, show j + (31 - j) = 31 by omega]

/-- A bit among the data, `n` bytes of it. -/
theorem register_bit {n i j : Nat} (hi : i < n) (hj : j < 8) :
    register crcPoly 0#32 ((List.replicate n 0).set i (bitMask j))
      = (step crcPoly)^[8 * (n - i)] (BitVec.twoPow 32 j) := by
  have hset : (List.replicate n (0 : UInt8)).set i (bitMask j)
      = List.replicate i 0 ++ [bitMask j] ++ List.replicate (n - i - 1) 0 := by
    rw [List.set_eq_take_append_cons_drop, List.length_replicate, if_pos hi, List.take_replicate,
      List.drop_replicate, Nat.min_eq_left hi.le, List.append_assoc]
    rfl
  have hfeed : register crcPoly 0#32 [bitMask j] = (step crcPoly)^[8] (BitVec.twoPow 32 j) := by
    rw [← bitMask_toBitVec hj, register, List.foldl_cons, List.foldl_nil, feed, BitVec.zero_xor]
  have hsteps : 8 * (n - i) = 8 * (n - i - 1) + 8 := by omega
  rw [hset, register_append, register_append, register_zeros, register_zeros, iterate_zero, hfeed,
    hsteps, Function.iterate_add_apply]

/-- **A single bit's syndrome is the top bit, shifted.** -/
theorem syndrome_bitError {n k : Nat} (hn : 4 ≤ n) (hk : k < 8 * n) :
    syndrome (bitError n k) = (step crcPoly)^[bitExponent n k] (BitVec.twoPow 32 31) := by
  have hj : k % 8 < 8 := Nat.mod_lt _ (by decide)
  have hlen : (bitError n k).length = n := by simp [bitError]
  have hdata : (List.replicate n (0 : UInt8)).take (n - 4) = List.replicate (n - 4) 0 := by
    rw [List.take_replicate, Nat.min_eq_left (Nat.sub_le n 4)]
  have hfield : (List.replicate n (0 : UInt8)).drop (n - 4) = List.replicate 4 0 := by
    rw [List.drop_replicate, Nat.sub_sub_self hn]
  unfold syndrome bitExponent
  rw [hlen, bitError, List.take_set, List.drop_set, hdata, hfield]
  split
  · rename_i hi
    have hzero : crcField (List.replicate 4 0) = 0#32 := by decide
    rw [register_bit hi hj, hzero, BitVec.xor_zero, twoPow_eq_iterate (by omega),
      Function.iterate_add_apply]
  · rename_i hi
    have hset : (List.replicate (n - 4) (0 : UInt8)).set (k / 8) (bitMask (k % 8))
        = List.replicate (n - 4) 0 := List.set_eq_of_length_le (by simpa using hi)
    have hplace : 8 * (3 - (k / 8 - (n - 4))) + k % 8 = 8 * (n - 1 - k / 8) + k % 8 := by omega
    rw [hset, register_zeros, iterate_zero, BitVec.zero_xor, crcField_bit (by omega) hj, hplace,
      twoPow_eq_iterate (by omega)]

/-- **The top bit does not return** within the length of a frame. -/
theorem topBit_away : ∀ k, 0 < k → k ≤ 1640 →
    (step crcPoly)^[k] (BitVec.twoPow 32 31) ≠ BitVec.twoPow 32 31 := by
  apply iterate_ne_self
  decide +kernel

/-! ## Flipped bits -/

/-- Bit `k % 8` of byte `k / 8`, flipped. -/
def flipBit (l : List UInt8) (k : Nat) : List UInt8 := l.modify (k / 8) (· ^^^ bitMask (k % 8))

@[simp] theorem length_bitError (n k : Nat) : (bitError n k).length = n := by simp [bitError]

theorem flipBit_eq_xorBytes (l : List UInt8) (k : Nat) :
    flipBit l k = xorBytes l (bitError l.length k) := by
  apply List.ext_getElem?
  intro i
  unfold flipBit xorBytes bitError
  rw [List.getElem?_modify, List.getElem?_zipWith, List.getElem?_set, List.getElem?_replicate]
  rcases Nat.lt_or_ge i l.length with hi | hi
  · rw [List.getElem?_eq_getElem hi]
    by_cases hk : k / 8 = i
    · simp [hk, hi]
    · simp [hk, hi]
  · rw [List.getElem?_eq_none hi]
    rfl

theorem xorBytes_comm (l l' : List UInt8) : xorBytes l l' = xorBytes l' l :=
  List.zipWith_comm_of_comm UInt8.xor_comm

theorem xorBytes_assoc (l l' l'' : List UInt8) :
    xorBytes (xorBytes l l') l'' = xorBytes l (xorBytes l' l'') := by
  apply List.ext_getElem?
  intro i
  unfold xorBytes
  simp only [List.getElem?_zipWith]
  cases l[i]? <;> cases l'[i]? <;> cases l''[i]? <;> simp [UInt8.xor_assoc]

/-- The error of a frame is the error that was added to it. -/
theorem xorBytes_error {l e : List UInt8} (h : l.length = e.length) :
    xorBytes (xorBytes l e) l = e := by
  rw [xorBytes_comm, xorBytes_comm l e]
  exact xorBytes_cancel h

/-- What is accepted has syndrome zero. -/
theorem syndrome_of_accepted {b : Bundle} {cap : Nat} {frame e : List UInt8}
    (hser : bundleSerialize b cap = some frame) (hlen : frame.length = e.length)
    (hacc : bundleDeserialize (xorBytes frame e) ≠ .ok none) : syndrome e = 0#32 := by
  have hcode := (codeword_of_accepted hser (length_xorBytes hlen) hacc).1
  rw [xorBytes_error hlen] at hcode
  exact hcode.syndrome

/-- **One or two flipped bits are rejected**, anywhere in the frame. -/
theorem bundleDeserialize_bitErrors (b : Bundle) (cap i j : Nat) (frame : List UInt8)
    (hser : bundleSerialize b cap = some frame) (hi : i < 8 * frame.length)
    (hj : j < 8 * frame.length) :
    bundleDeserialize (flipBit frame i) = .ok none ∧
      (i ≠ j → bundleDeserialize (flipBit (flipBit frame i) j) = .ok none) := by
  have hfour : 4 ≤ frame.length := by
    obtain ⟨_, _, rfl⟩ := bundleSerialize_eq_some.mp hser
    rw [length_wireFrame]
    omega
  constructor
  · by_contra hacc
    rw [flipBit_eq_xorBytes] at hacc
    have hzero := syndrome_of_accepted hser (length_bitError _ _).symm hacc
    rw [syndrome_bitError hfour hi] at hzero
    -- a step is injective, and the top bit is not zero
    exact absurd (eq_zero_of_iterate crcPoly_msb hzero) (by decide)
  · intro hne
    by_contra hacc
    rw [flipBit_eq_xorBytes, flipBit_eq_xorBytes, length_xorBytes (length_bitError _ _).symm,
      xorBytes_assoc] at hacc
    have hlen : (bitError frame.length i).length = (bitError frame.length j).length := by simp
    have hzero := syndrome_of_accepted hser (by rw [length_xorBytes hlen, length_bitError]) hacc
    rw [syndrome_xor hlen, syndrome_bitError hfour hi, syndrome_bitError hfour hj] at hzero
    have hsame := BitVec.xor_eq_zero_iff.mp hzero
    have hshort : frame.length ≤ 205 := by
      obtain ⟨hpay, _, rfl⟩ := bundleSerialize_eq_some.mp hser
      rw [length_wireFrame]
      unfold bundleMaxPayload at hpay
      unfold wireHdrLen
      omega
    have hiexp := bitExponent_le i hshort
    have hjexp := bitExponent_le j hshort
    rcases Nat.lt_trichotomy (bitExponent frame.length i) (bitExponent frame.length j)
      with hlt | heq | hgt
    · exact iterate_ne crcPoly_msb topBit_away hlt (by omega) hsame
    · exact hne (bitExponent_injective hi hj heq)
    · exact iterate_ne crcPoly_msb topBit_away hgt (by omega) hsame.symm

/-- A bit of the header of "hello mars", and one more in the last byte of its checksum. -/
theorem bundleDeserialize_bitErrors_helloMars :
    bundleDeserialize (flipBit (wireFrame helloMars) 80) = .ok none ∧
      bundleDeserialize (flipBit (flipBit (wireFrame helloMars) 80) 439) = .ok none := by
  have hall := bundleDeserialize_bitErrors helloMars 256 80 439 (wireFrame helloMars)
    (by decide +kernel) (by decide +kernel) (by decide +kernel)
  exact ⟨hall.1, hall.2 (by decide)⟩

end DtnHardware
