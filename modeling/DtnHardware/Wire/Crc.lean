import DtnHardware.Core.Wire
import DtnHardware.Lib.ShiftRegister

/-!
# The checksum of a frame

`crc32_update` is the register of the CRC-32 generator, started and read out inverted. The
inversions cancel in a difference, so what two accepted frames of one length can differ by
does not depend on the frames:

> **the difference of two frames is a codeword** (`wireFrame_diff`): some bytes, and then the
> register of these bytes as a big-endian field.

`bundle_serialize` appends the register most significant byte first, while the register
itself runs least significant bit first. In the frame the four bytes of the checksum
therefore stand in the opposite order to the one a burst would meet.
-/

set_option autoImplicit false

namespace DtnHardware

open ShiftRegister ByteLayout

/-- The generator, reflected. -/
def crcPoly : BitVec 32 := 0xEDB88320#32

theorem crcPoly_msb : crcPoly.msb = true := by decide

/-! ## The code's loop is the register -/

theorem crc32Bit_toBitVec (c : UInt32) : (crc32Bit c).toBitVec = step crcPoly c.toBitVec := by
  have hmask : (0 - (c &&& 1)).toBitVec = if c.toBitVec.getLsbD 0 then -1#32 else 0#32 := by
    have hbit : (c &&& 1).toBitVec = BitVec.setWidth 32 (BitVec.ofBool (c.toBitVec.getLsbD 0)) := by
      rw [UInt32.toBitVec_and]
      exact BitVec.and_one_eq_setWidth_ofBool_getLsbD
    rw [UInt32.toBitVec_sub, hbit]
    cases c.toBitVec.getLsbD 0 <;> rfl
  unfold crc32Bit step
  rw [UInt32.toBitVec_xor, UInt32.toBitVec_and, hmask, UInt32.toBitVec_shiftRight]
  cases c.toBitVec.getLsbD 0
  · simp
  · simp [crcPoly]

theorem crc32Byte_toBitVec (c : UInt32) (x : UInt8) :
    (crc32Byte c x).toBitVec = feed crcPoly c.toBitVec x := by
  have hsemi : Function.Semiconj UInt32.toBitVec crc32Bit (step crcPoly) := crc32Bit_toBitVec
  have hrepeat : crc32Byte c x = crc32Bit^[8] (c ^^^ x.toUInt32) := rfl
  rw [hrepeat, (hsemi.iterate_right 8).eq, UInt32.toBitVec_xor]
  rfl

theorem foldl_crc32Byte (buf : List UInt8) (c : UInt32) :
    (buf.foldl crc32Byte c).toBitVec = register crcPoly c.toBitVec buf := by
  induction buf generalizing c with
  | nil => rfl
  | cons x buf ih => rw [List.foldl_cons, ih, crc32Byte_toBitVec]; rfl

/-! ## Differences -/

/-- The bytes that `l` and `l'` differ by. -/
def xorBytes (l l' : List UInt8) : List UInt8 := List.zipWith (· ^^^ ·) l l'

theorem length_xorBytes {l l' : List UInt8} (h : l.length = l'.length) :
    (xorBytes l l').length = l.length := by
  rw [xorBytes, List.length_zipWith, h, min_self]

/-- Adding the difference again gives the other one back. -/
theorem xorBytes_cancel : ∀ {l l' : List UInt8}, l.length = l'.length →
    xorBytes l (xorBytes l' l) = l' := by
  intro l
  induction l with
  | nil =>
    intro l' h
    rw [List.length_eq_zero_iff.mp h.symm]
    rfl
  | cons x l ih =>
    intro l' h
    cases l' with
    | nil => cases h
    | cons y l' =>
      have hbyte : x ^^^ (y ^^^ x) = y := by rw [UInt8.xor_comm y x, ← UInt8.xor_assoc]; simp
      have hrest := ih (Nat.succ.inj h)
      unfold xorBytes at hrest ⊢
      rw [List.zipWith_cons_cons, List.zipWith_cons_cons, hbyte, hrest]

theorem xorBytes_zeros (l : List UInt8) : xorBytes l (List.replicate l.length 0) = l := by
  induction l with
  | nil => rfl
  | cons x l ih =>
    unfold xorBytes at ih ⊢
    rw [List.length_cons, List.replicate_succ, List.zipWith_cons_cons, ih, UInt8.xor_zero]

/-- The difference is zero where the two agree. -/
theorem getElem?_xorBytes_of_eq {l l' : List UInt8} {i : Nat} {x : UInt8}
    (h : l[i]? = l'[i]?) (hx : (xorBytes l l')[i]? = some x) : x = 0 := by
  unfold xorBytes at hx
  rw [List.getElem?_zipWith, h] at hx
  cases hl : l'[i]? with
  | none => simp [hl] at hx
  | some y => simpa [hl] using hx.symm

theorem xorBytes_self (l : List UInt8) : xorBytes l l = List.replicate l.length 0 := by
  induction l with
  | nil => rfl
  | cons x l ih =>
    unfold xorBytes at ih ⊢
    rw [List.zipWith_cons_cons, ih, UInt8.xor_self, List.length_cons, List.replicate_succ]

/-! ## Codewords -/

/-- The checksum of a difference, without inversions. -/
def crcOf (e : List UInt8) : UInt32 := UInt32.ofBitVec (register crcPoly 0#32 e)

theorem crc32Update_xor {l l' : List UInt8} (h : l.length = l'.length) :
    crc32Update 0 l ^^^ crc32Update 0 l' = crcOf (xorBytes l l') := by
  apply UInt32.toBitVec_inj.mp
  have hstart : (~~~(0 : UInt32)).toBitVec ^^^ (~~~(0 : UInt32)).toBitVec = 0#32 := by decide
  unfold crc32Update crcOf xorBytes
  rw [UInt32.toBitVec_xor, UInt32.toBitVec_not, UInt32.toBitVec_not, foldl_crc32Byte,
    foldl_crc32Byte, ← hstart, register_xor l l' _ _ h]
  -- `~x ^ ~y = x ^ y`
  apply BitVec.eq_of_getLsbD_eq
  intro i hi
  simp [hi]

theorem crcOf_zeros (n : Nat) : crcOf (List.replicate n 0) = 0 := by
  unfold crcOf
  rw [register_zeros, iterate_zero]
  rfl

/-- Leading zeros do not matter. -/
theorem crcOf_zeros_append (n : Nat) (l : List UInt8) :
    crcOf (List.replicate n 0 ++ l) = crcOf l := by
  unfold crcOf
  rw [register_append, register_zeros, iterate_zero]

theorem putU32_xor (u v : UInt32) : xorBytes (putU32 u) (putU32 v) = putU32 (u ^^^ v) := by
  unfold xorBytes putU32
  simp [UInt32.shiftRight_xor]

theorem putU32_zero : putU32 0 = List.replicate 4 0 := rfl

theorem eq_zero_of_putU32 {v : UInt32} (h : putU32 v = List.replicate 4 0) : v = 0 := by
  have hdecode := congrArg decode h
  rw [putU32_eq, decode_encode, Nat.mod_eq_of_lt (show v.toNat < 256 ^ 4 from v.toNat_lt)] at hdecode
  exact UInt32.toNat_inj.mp hdecode

/-- What accepted frames of one length can differ by. -/
def IsCodeword (e : List UInt8) : Prop :=
  ∃ body, wireHdrLen ≤ body.length ∧ e = body ++ putU32 (crcOf body)

/-- The difference of two frames of one length: that of the bodies, and its checksum. -/
theorem xorBytes_wireFrame {b b' : Bundle} (h : b'.payload.length = b.payload.length) :
    xorBytes (wireFrame b') (wireFrame b)
      = xorBytes (wireBody b' (wireHdrLen + b'.payload.length + 4))
          (wireBody b (wireHdrLen + b.payload.length + 4))
        ++ putU32 (crcOf (xorBytes (wireBody b' (wireHdrLen + b'.payload.length + 4))
          (wireBody b (wireHdrLen + b.payload.length + 4)))) := by
  have hlen : (wireBody b' (wireHdrLen + b'.payload.length + 4)).length
      = (wireBody b (wireHdrLen + b.payload.length + 4)).length := by
    rw [length_wireBody, length_wireBody, h]
  rw [← crc32Update_xor hlen, ← putU32_xor]
  unfold wireFrame
  exact List.zipWith_append hlen

/-- **The difference of two frames of one length is a codeword.** -/
theorem wireFrame_diff {b b' : Bundle} (h : b'.payload.length = b.payload.length) :
    IsCodeword (xorBytes (wireFrame b') (wireFrame b)) := by
  refine ⟨_, ?_, xorBytes_wireFrame h⟩
  rw [length_xorBytes (by rw [length_wireBody, length_wireBody, h]), length_wireBody]
  omega

/-- The error of an accepted frame is a codeword. -/
theorem codeword_of_accepted {b : Bundle} {cap : Nat} {frame inp : List UInt8}
    (hser : bundleSerialize b cap = some frame) (hlen : inp.length = frame.length)
    (hacc : bundleDeserialize inp ≠ .ok none) : IsCodeword (xorBytes inp frame) ∧
      ∃ b', b'.payload.length = b.payload.length ∧ inp = wireFrame b' := by
  obtain ⟨o, ho⟩ := bundleDeserialize_ok inp
  cases o with
  | none => exact absurd ho hacc
  | some b' =>
    obtain ⟨_, _, rfl⟩ := bundleDeserialize_eq_some.mp ho
    obtain ⟨_, _, rfl⟩ := bundleSerialize_eq_some.mp hser
    rw [length_wireFrame, length_wireFrame] at hlen
    have hpay : b'.payload.length = b.payload.length := by omega
    exact ⟨wireFrame_diff hpay, b', hpay, rfl⟩

end DtnHardware
