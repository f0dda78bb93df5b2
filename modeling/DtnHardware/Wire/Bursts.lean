import DtnHardware.Wire.Crc

/-!
# Bursts

An error inside four consecutive bytes is what a 32-bit checksum is chosen for, and for every
window but one it is seen. A window inside the data is the general fact about registers
(`burst_seen`), a window inside the checksum is immediate, and three windows straddle the end
of the data.

> **A burst of four bytes is rejected, except for one**: the last two bytes of the payload
> changed by `61 D8` together with the first two of the checksum changed by `F4 EE`
> (`blindError`).

The blind spot is where the two byte orders meet. A window that ends in the checksum's first
two bytes asks the register of two bytes to vanish in its low half; with the checksum appended
low byte first it would have to vanish in its high half, and no two bytes do that. With one or
three bytes on the data's side there is no such error in either order.
-/

set_option autoImplicit false

namespace DtnHardware

open ShiftRegister ByteLayout

/-! ## The register of one, two and three bytes -/

/-- The register of one byte. -/
def byteCrc (x : BitVec 8) : BitVec 32 := (step crcPoly)^[8] (x.setWidth 32)

/-- Which byte has which low byte in its register, bit by bit. -/
def lowColumns : List (BitVec 8) := [0x4F, 0xFA, 0xBB, 0x39, 0x72, 0x80, 0x2B, 0x32]

def lowInverse (y : BitVec 8) : BitVec 8 :=
  lowColumns.zipIdx.foldl (fun x c => if y.getLsbD c.2 then x ^^^ c.1 else x) 0

/-- The low byte of its register determines a byte. -/
theorem lowInverse_byteCrc : ∀ x : BitVec 8, lowInverse ((byteCrc x).setWidth 8) = x := by
  decide +kernel

/-- The second byte that clears the low byte of the register, given the first. -/
def secondByte (x : BitVec 8) : BitVec 8 :=
  lowInverse (((step crcPoly)^[8] (byteCrc x)).setWidth 8)

/-- Clearing the next byte of the register as well leaves one pair. -/
theorem secondByte_clears : ∀ x : BitVec 8,
    ((step crcPoly)^[8] (byteCrc x) ^^^ byteCrc (secondByte x)).setWidth 16 = 0#16 →
      (x = 0x00 ∧ secondByte x = 0x00) ∨ (x = 0x61 ∧ secondByte x = 0xD8) := by
  decide +kernel

/-- No three bytes lead to a register that is zero but for its top byte. -/
theorem unstep_topByte : ∀ c : BitVec 8,
    ((unstep crcPoly)^[24] (c.setWidth 32 <<< 24)).toNat < 2 ^ 24 → c = 0 := by
  decide +kernel

theorem crcOf_one {x : UInt8} (h : (crcOf [x]).toUInt8 = 0) : x = 0 := by
  have hlow : (byteCrc x.toBitVec).setWidth 8 = 0#8 := by
    have hreg : register crcPoly 0#32 [x] = byteCrc x.toBitVec := by
      simp [register, feed, byteCrc]
    have hbits := congrArg UInt8.toBitVec h
    rw [← hreg]
    exact hbits
  have hx := lowInverse_byteCrc x.toBitVec
  rw [hlow] at hx
  apply UInt8.toBitVec_inj.mp
  rw [← hx]
  decide

theorem crcOf_two {x y : UInt8} (h₀ : (crcOf [x, y]).toUInt8 = 0)
    (h₁ : (crcOf [x, y] >>> 8).toUInt8 = 0) :
    (x = 0 ∧ y = 0) ∨ (x = 0x61 ∧ y = 0xD8) := by
  have hreg : register crcPoly 0#32 [x, y]
      = (step crcPoly)^[8] (byteCrc x.toBitVec) ^^^ byteCrc y.toBitVec := by
    simp only [register, List.foldl_cons, List.foldl_nil, feed, BitVec.zero_xor, iterate_xor]
    rfl
  have hlow : (register crcPoly 0#32 [x, y]).setWidth 16 = 0#16 := by
    have hval₀ := congrArg UInt8.toNat h₀
    have hval₁ := congrArg UInt8.toNat h₁
    rw [UInt32.toNat_toUInt8] at hval₀ hval₁
    rw [UInt32.toNat_shiftRight] at hval₁
    apply BitVec.eq_of_toNat_eq
    rw [BitVec.toNat_setWidth]
    change (crcOf [x, y]).toNat % 2 ^ 16 = 0
    simp [Nat.shiftRight_eq_div_pow] at hval₀ hval₁
    omega
  have hy : y.toBitVec = secondByte x.toBitVec := by
    have hzero : (register crcPoly 0#32 [x, y]).setWidth 8 = 0#8 := by
      have hnarrow := congrArg (BitVec.setWidth 8) hlow
      rwa [BitVec.setWidth_setWidth_of_le _ (by decide)] at hnarrow
    rw [hreg, BitVec.setWidth_xor] at hzero
    rw [secondByte, BitVec.xor_eq_zero_iff.mp hzero, lowInverse_byteCrc]
  rw [hreg, hy] at hlow
  rcases secondByte_clears x.toBitVec hlow with ⟨hx, hsecond⟩ | ⟨hx, hsecond⟩
  · exact Or.inl ⟨UInt8.toBitVec_inj.mp hx, UInt8.toBitVec_inj.mp (hy.trans hsecond)⟩
  · exact Or.inr ⟨UInt8.toBitVec_inj.mp hx, UInt8.toBitVec_inj.mp (hy.trans hsecond)⟩

theorem crcOf_three {x y z : UInt8} (h₀ : (crcOf [x, y, z]).toUInt8 = 0)
    (h₁ : (crcOf [x, y, z] >>> 8).toUInt8 = 0) (h₂ : (crcOf [x, y, z] >>> 16).toUInt8 = 0) :
    ∀ b ∈ [x, y, z], b = 0 := by
  have hlen : 8 * [x, y, z].length ≤ 32 := by simp
  have hreg : register crcPoly 0#32 [x, y, z] = (step crcPoly)^[24] (pack 32 [x, y, z]) := by
    rw [register_eq _ hlen, BitVec.zero_xor]
    rfl
  -- only the top byte of the register is left
  obtain ⟨c, hc⟩ : ∃ c : BitVec 8, register crcPoly 0#32 [x, y, z] = c.setWidth 32 <<< 24 := by
    have hval₀ := congrArg UInt8.toNat h₀
    have hval₁ := congrArg UInt8.toNat h₁
    have hval₂ := congrArg UInt8.toNat h₂
    rw [UInt32.toNat_toUInt8] at hval₀ hval₁ hval₂
    rw [UInt32.toNat_shiftRight] at hval₁ hval₂
    have hlt := (crcOf [x, y, z]).toNat_lt
    refine ⟨BitVec.ofNat 8 ((crcOf [x, y, z]).toNat / 2 ^ 24), BitVec.eq_of_toNat_eq ?_⟩
    change (crcOf [x, y, z]).toNat = _
    simp [Nat.shiftRight_eq_div_pow, Nat.shiftLeft_eq] at hval₀ hval₁ hval₂ ⊢
    omega
  have hpack : pack 32 [x, y, z] = (unstep crcPoly)^[24] (c.setWidth 32 <<< 24) := by
    apply (step_injective crcPoly_msb).iterate 24
    rw [iterate_unstep crcPoly_msb, ← hreg, hc]
  have hsmall := toNat_pack_lt [x, y, z] hlen
  rw [hpack] at hsmall
  have hzero := unstep_topByte c hsmall
  have hshift : (0 : BitVec 8).setWidth 32 <<< 24 = 0#32 := by decide
  rw [hzero, hshift, iterate_unstep_zero] at hpack
  exact eq_zero_of_pack _ hlen hpack

/-! ## Bursts -/

/-- The error is confined to the four bytes from `p` on. -/
def InWindow (p : Nat) (e : List UInt8) : Prop :=
  ∀ (i : Nat) (x : UInt8), e[i]? = some x → x ≠ 0 → p ≤ i ∧ i < p + 4

/-- The register of the two bytes that are not seen. -/
theorem crcOf_blind : crcOf [0x61, 0xD8] = 0xF4EE0000 := by decide +kernel

/-- The error of `n` bytes that is not seen: in the last two bytes of the payload and the
    first two of the checksum. -/
def blindError (n : Nat) : List UInt8 :=
  List.replicate (n - 6) 0 ++ [0x61, 0xD8, 0xF4, 0xEE, 0x00, 0x00]

/-- What is confined to a window is zeros, at most four bytes, and zeros. -/
theorem InWindow.split {p : Nat} {e : List UInt8} (h : InWindow p e) :
    e = List.replicate (min p e.length) 0 ++ (e.drop p).take 4
      ++ List.replicate (e.length - (p + 4)) 0 := by
  have hfront : e.take p = List.replicate (min p e.length) 0 := by
    apply List.eq_replicate_iff.mpr
    refine ⟨List.length_take, fun x hx => ?_⟩
    obtain ⟨i, hi⟩ := List.getElem?_of_mem hx
    have hlt : i < p := by
      have := (List.getElem?_eq_some_iff.mp hi).1
      rw [List.length_take] at this
      omega
    rw [List.getElem?_take_of_lt hlt] at hi
    by_contra hne
    have := h i x hi hne
    omega
  have hback : e.drop (p + 4) = List.replicate (e.length - (p + 4)) 0 := by
    apply List.eq_replicate_iff.mpr
    refine ⟨List.length_drop, fun x hx => ?_⟩
    obtain ⟨i, hi⟩ := List.getElem?_of_mem hx
    rw [List.getElem?_drop] at hi
    by_contra hne
    have := h (p + 4 + i) x hi hne
    omega
  have hrest : e.drop p = (e.drop p).take 4 ++ List.replicate (e.length - (p + 4)) 0 := by
    rw [← hback, ← List.drop_drop, List.take_append_drop]
  rw [List.append_assoc, ← hrest, ← hfront, List.take_append_drop]

/-- An error confined to a window leaves every other byte of the checksum alone. -/
theorem InWindow.field {p : Nat} {body f : List UInt8} (h : InWindow p (body ++ f)) {r : Nat}
    {x : UInt8} (hx : f[r]? = some x) (hout : body.length + r < p ∨ p + 4 ≤ body.length + r) :
    x = 0 := by
  by_contra hne
  have hget : (body ++ f)[body.length + r]? = some x := by
    rw [List.getElem?_append_right (by omega), Nat.add_sub_cancel_left, hx]
  have := h _ x hget hne
  omega

theorem InWindow.body {p : Nat} {body f : List UInt8} (h : InWindow p (body ++ f)) :
    InWindow p body := by
  intro i x hx
  have hlt := (List.getElem?_eq_some_iff.mp hx).1
  exact h i x (by rw [List.getElem?_append_left hlt, hx])

/-- A window inside the data: nothing but the trivial error is a codeword. -/
theorem data_burst {p : Nat} {body : List UInt8} (hin : p + 4 ≤ body.length)
    (hw : InWindow p (body ++ putU32 (crcOf body))) : body = List.replicate body.length 0 := by
  have hsum : crcOf body = 0 := by
    apply eq_zero_of_putU32
    apply List.eq_replicate_iff.mpr
    refine ⟨length_putU32 _, fun x hx => ?_⟩
    obtain ⟨r, hr⟩ := List.getElem?_of_mem hx
    exact hw.field hr (Or.inr (by omega))
  have hsplit := hw.body.split
  have hreg : register crcPoly 0#32 body = 0#32 := congrArg UInt32.toBitVec hsum
  have hshort : 8 * ((body.drop p).take 4).length ≤ 32 := by
    rw [List.length_take]
    omega
  rw [hsplit] at hreg
  have hzero := burst_seen crcPoly_msb hshort hreg
  rw [hsplit]
  apply List.eq_replicate_iff.mpr
  refine ⟨rfl, fun x hx => ?_⟩
  simp only [List.mem_append, List.mem_replicate] at hx
  rcases hx with (⟨_, rfl⟩ | hx) | ⟨_, rfl⟩
  · rfl
  · exact hzero x hx
  · rfl

/-- A window that begins `k` bytes before the end of the data. -/
theorem straddle_split {p k : Nat} {body : List UInt8} (hk : k ≤ 4) (hp : body.length = p + k)
    (hw : InWindow p (body ++ putU32 (crcOf body))) :
    ∃ d : List UInt8, d.length = k ∧ body = List.replicate p 0 ++ d ∧ crcOf body = crcOf d := by
  have hsplit := hw.body.split
  have hmin : min p body.length = p := by omega
  have hnone : body.length - (p + 4) = 0 := by omega
  have hall : (body.drop p).take 4 = body.drop p := by
    apply List.take_of_length_le
    rw [List.length_drop]
    omega
  rw [hmin, hnone, hall, List.replicate_zero, List.append_nil] at hsplit
  refine ⟨body.drop p, by rw [List.length_drop]; omega, hsplit, ?_⟩
  conv_lhs => rw [hsplit]
  exact crcOf_zeros_append p _

/-- **An error inside four consecutive bytes is a codeword only if it is no error, or the
    blind one.** -/
theorem codeword_of_window {p : Nat} {e : List UInt8} (h : IsCodeword e) (hw : InWindow p e) :
    e = List.replicate e.length 0 ∨ e = blindError e.length := by
  obtain ⟨body, hlen, rfl⟩ := h
  have hhdr : 41 ≤ body.length := hlen
  have htotal : (body ++ putU32 (crcOf body)).length = body.length + 4 := by
    rw [List.length_append, length_putU32]
  -- a trivial body has a trivial checksum
  have htrivial (hz : body = List.replicate body.length 0) :
      body ++ putU32 (crcOf body) = List.replicate (body ++ putU32 (crcOf body)).length 0 := by
    have hsum : crcOf body = 0 := by rw [hz, crcOf_zeros]
    rw [htotal, hsum, putU32_zero, List.replicate_add, ← hz]
  have hcases : p + 4 ≤ body.length ∨ body.length ≤ p ∨ body.length = p + 1 ∨
      body.length = p + 2 ∨ body.length = p + 3 := by omega
  have hbyte₀ (r : Nat) (x : UInt8) (hx : (putU32 (crcOf body))[r]? = some x)
      (hout : p + 4 ≤ body.length + r) : x = 0 := hw.field hx (Or.inr hout)
  rcases hcases with hin | hout | h1 | h2 | h3
  · exact Or.inl (htrivial (data_burst hin hw))
  · refine Or.inl (htrivial ?_)
    have hsplit := hw.body.split
    have hmin : min p body.length = body.length := by omega
    have hnone : body.length - (p + 4) = 0 := by omega
    rw [hmin, hnone, List.drop_of_length_le hout] at hsplit
    simpa using hsplit
  · obtain ⟨d, hd, hbody, hsum⟩ := straddle_split (by decide) h1 hw
    obtain ⟨x, rfl⟩ := List.length_eq_one_iff.mp hd
    have hx : x = 0 := crcOf_one (by rw [← hsum]; exact hbyte₀ 3 _ rfl (by omega))
    refine Or.inl (htrivial ?_)
    rw [hbody, hx, List.length_append, List.length_replicate, List.replicate_add]
    rfl
  · obtain ⟨d, hd, hbody, hsum⟩ := straddle_split (by decide) h2 hw
    obtain ⟨x, y, rfl⟩ := List.length_eq_two.mp hd
    rcases crcOf_two (by rw [← hsum]; exact hbyte₀ 3 _ rfl (by omega))
      (by rw [← hsum]; exact hbyte₀ 2 _ rfl (by omega)) with ⟨rfl, rfl⟩ | ⟨rfl, rfl⟩
    · refine Or.inl (htrivial ?_)
      rw [hbody, List.length_append, List.length_replicate, List.replicate_add]
      rfl
    · right
      have hfront : (body ++ putU32 (crcOf body)).length - 6 = p := by omega
      rw [blindError, hfront, hsum, crcOf_blind]
      conv_lhs => rw [hbody]
      rw [List.append_assoc]
      rfl
  · obtain ⟨d, hd, hbody, hsum⟩ := straddle_split (by decide) h3 hw
    obtain ⟨x, y, z, rfl⟩ := List.length_eq_three.mp hd
    have hz := crcOf_three (by rw [← hsum]; exact hbyte₀ 3 _ rfl (by omega))
      (by rw [← hsum]; exact hbyte₀ 2 _ rfl (by omega))
      (by rw [← hsum]; exact hbyte₀ 1 _ rfl (by omega))
    refine Or.inl (htrivial ?_)
    rw [hbody, List.length_append, List.length_replicate, List.replicate_add]
    congr 1
    exact List.eq_replicate_iff.mpr ⟨rfl, hz⟩

/-! ## What the decoder makes of a burst -/

/-- What arrives is the frame with the blind error, and the error is in the payload. -/
structure BlindSpot (b : Bundle) (frame inp : List UInt8) : Prop where
  payload : 2 ≤ b.payload.length
  error : inp = xorBytes frame (blindError frame.length)

/-- The blind error never reaches the length of the payload unnoticed. -/
theorem blindSpot_payload {b b' : Bundle} (hpay : b'.payload.length = b.payload.length)
    (herr : xorBytes (wireFrame b') (wireFrame b) = blindError (wireFrame b).length) :
    2 ≤ b.payload.length := by
  have hlow (x : Bundle) : (wireFrame x)[40]? = some (x.payload.length.toUInt16).toUInt8 := by
    have hfields := holdsAt_wireBody.mp (eq_wireFrame_iff.mp (rfl : wireFrame x = wireFrame x)).2.1
    have hcount := hfields.2.2.2.2.2.2.2.2.2.2.2.2.1
    exact (holdsAt_cons.mp (holdsAt_cons.mp hcount).2).1
  have hsame : (wireFrame b')[40]? = (wireFrame b)[40]? := by rw [hlow, hlow, hpay]
  by_contra hshort
  rw [length_wireFrame] at herr
  have hpart : b.payload.length = 0 ∨ b.payload.length = 1 := by omega
  rcases hpart with h0 | h1
  · rw [h0] at herr
    have hget : (xorBytes (wireFrame b') (wireFrame b))[40]? = some 0xD8 := by
      rw [herr]
      rfl
    exact absurd (getElem?_xorBytes_of_eq hsame hget) (by decide)
  · rw [h1] at herr
    have hget : (xorBytes (wireFrame b') (wireFrame b))[40]? = some 0x61 := by
      rw [herr]
      rfl
    exact absurd (getElem?_xorBytes_of_eq hsame hget) (by decide)

/-- The header does not depend on what is in the payload. -/
theorem wireBody_head (b : Bundle) (total : Nat) : ∃ head : List UInt8,
    head.length = wireHdrLen ∧ ∀ payload : List UInt8, payload.length = b.payload.length →
      wireBody { b with payload } total = head ++ payload := by
  refine ⟨putU16 wireMagic ++ [wireVersion] ++ putU64 b.bundleId ++ putU32 b.src ++ putU32 b.dst
    ++ putU32 b.curr ++ putU32 b.cust ++ putU16 total.toUInt16 ++ [b.prio]
    ++ [b.bundleClass.toUInt8] ++ putF32 b.tGen ++ putF32 b.ttl
    ++ putU16 b.payload.length.toUInt16, by simp [wireHdrLen], fun payload h => ?_⟩
  unfold wireBody
  dsimp only
  rw [h]

/-- The bundle whose payload has the blind error. -/
theorem exists_blind_bundle {b : Bundle} (h : 2 ≤ b.payload.length) :
    ∃ b' : Bundle, b'.payload.length = b.payload.length ∧
      wireFrame b' = xorBytes (wireFrame b) (blindError (wireFrame b).length) := by
  obtain ⟨q, x, y, hq⟩ : ∃ q x y, b.payload = q ++ [x, y] := by
    have hback : (b.payload.drop (b.payload.length - 2)).length = 2 := by
      rw [List.length_drop]
      omega
    obtain ⟨x, y, hxy⟩ := List.length_eq_two.mp hback
    exact ⟨b.payload.take (b.payload.length - 2), x, y, by rw [← hxy, List.take_append_drop]⟩
  have hqlen : b.payload.length = q.length + 2 := by rw [hq]; simp
  have hlen : (q ++ [x ^^^ 0x61, y ^^^ 0xD8]).length = b.payload.length := by rw [hq]; simp
  refine ⟨{ b with payload := q ++ [x ^^^ 0x61, y ^^^ 0xD8] }, hlen, ?_⟩
  obtain ⟨head, hhead, hbody⟩ := wireBody_head b (wireHdrLen + b.payload.length + 4)
  have hpay : ({ b with payload := q ++ [x ^^^ 0x61, y ^^^ 0xD8] } : Bundle).payload.length
      = b.payload.length := hlen
  have hdiff := xorBytes_wireFrame hpay
  have hold : wireBody b (wireHdrLen + b.payload.length + 4) = head ++ (q ++ [x, y]) := by
    rw [← hq]
    exact hbody b.payload rfl
  -- the two bodies differ in the last two bytes
  have hpair : xorBytes [x ^^^ 0x61, y ^^^ 0xD8] [x, y] = [0x61, 0xD8] := by
    have hx : x ^^^ 0x61 ^^^ x = 0x61 := by rw [UInt8.xor_comm x, UInt8.xor_assoc]; simp
    have hy : y ^^^ 0xD8 ^^^ y = 0xD8 := by rw [UInt8.xor_comm y, UInt8.xor_assoc]; simp
    simp only [xorBytes, List.zipWith_cons_cons, List.zipWith_nil_left, hx, hy]
  have hxor : xorBytes (head ++ (q ++ [x ^^^ 0x61, y ^^^ 0xD8])) (head ++ (q ++ [x, y]))
      = List.replicate (head.length + q.length) 0 ++ [0x61, 0xD8] := by
    have happ (l r r' : List UInt8) :
        xorBytes (l ++ r) (l ++ r') = xorBytes l l ++ xorBytes r r' := List.zipWith_append rfl
    rw [happ, happ, xorBytes_self, xorBytes_self, hpair, List.replicate_add, List.append_assoc]
  dsimp only at hdiff
  rw [hlen, hbody _ hlen, hold, hxor, crcOf_zeros_append, crcOf_blind] at hdiff
  have hframe : (wireFrame b).length = head.length + q.length + 6 := by
    rw [length_wireFrame, hqlen, hhead]
    omega
  have hsame : (wireFrame b).length
      = (wireFrame { b with payload := q ++ [x ^^^ 0x61, y ^^^ 0xD8] }).length := by
    rw [length_wireFrame, length_wireFrame, hlen]
  have hblind : blindError (wireFrame b).length
      = List.replicate (head.length + q.length) 0 ++ [0x61, 0xD8] ++ putU32 0xF4EE0000 := by
    rw [blindError, hframe, Nat.add_sub_cancel, List.append_assoc]
    rfl
  rw [hblind, ← hdiff]
  exact (xorBytes_cancel hsame).symm

/-- **A burst of four bytes is rejected, except for the blind spot.** -/
theorem bundleDeserialize_burst (b : Bundle) (cap p : Nat) (frame inp : List UInt8)
    (hser : bundleSerialize b cap = some frame) (hlen : inp.length = frame.length)
    (hne : inp ≠ frame) (hwin : ∀ i, inp[i]? ≠ frame[i]? → p ≤ i ∧ i < p + 4) :
    bundleDeserialize inp = .ok none ↔ ¬ BlindSpot b frame inp := by
  constructor
  · intro hrej hblind
    obtain ⟨hpay, _, rfl⟩ := bundleSerialize_eq_some.mp hser
    obtain ⟨b', hpay', hframe⟩ := exists_blind_bundle hblind.payload
    have hser' : bundleSerialize b' (wireHdrLen + b'.payload.length + 4) = some inp := by
      apply bundleSerialize_eq_some.mpr
      exact ⟨hpay'.trans_le hpay, le_rfl, hblind.error.trans hframe.symm⟩
    rw [bundleDeserialize_of_serialize hser'] at hrej
    cases hrej
  · intro hblind
    by_contra hacc
    obtain ⟨hcode, b', hpay', rfl⟩ := codeword_of_accepted hser hlen hacc
    obtain ⟨_, _, rfl⟩ := bundleSerialize_eq_some.mp hser
    have hconf : InWindow p (xorBytes (wireFrame b') (wireFrame b)) := by
      intro i x hx hx0
      exact hwin i fun heq => hx0 (getElem?_xorBytes_of_eq heq hx)
    rcases codeword_of_window hcode hconf with hzero | herr
    · apply hne
      rw [← xorBytes_cancel hlen.symm, hzero, length_xorBytes hlen, hlen, xorBytes_zeros]
    · rw [length_xorBytes hlen, hlen] at herr
      refine hblind ⟨blindSpot_payload hpay' herr, ?_⟩
      rw [← herr, xorBytes_cancel hlen.symm]

/-! ### "hello mars" -/

/-- Zeros, at most four bytes, and zeros are confined to a window. -/
theorem inWindow_of_split (p q : Nat) {d : List UInt8} (hd : d.length ≤ 4) :
    InWindow p (List.replicate p 0 ++ d ++ List.replicate q 0) := by
  intro i x hx hx0
  rw [List.append_assoc] at hx
  rcases Nat.lt_or_ge i p with hlt | hge
  · rw [List.getElem?_append_left (by simpa using hlt), List.getElem?_replicate_of_lt hlt] at hx
    exact absurd (Option.some.inj hx).symm hx0
  · refine ⟨hge, ?_⟩
    by_contra hout
    rw [List.getElem?_append_right (by simpa using hge), List.length_replicate,
      List.getElem?_append_right (by omega)] at hx
    exact hx0 (List.eq_of_mem_replicate (List.mem_of_getElem? hx))

/-- With such an error the frame differs in the window only. -/
theorem InWindow.differs {p : Nat} {e l : List UInt8} (h : InWindow p e)
    (hlen : l.length = e.length) (i : Nat) (hne : (xorBytes l e)[i]? ≠ l[i]?) :
    p ≤ i ∧ i < p + 4 := by
  unfold xorBytes at hne
  rw [List.getElem?_zipWith] at hne
  cases he : e[i]? with
  | none =>
    have hl : l[i]? = none := by
      rw [List.getElem?_eq_none_iff] at he ⊢
      omega
    exact absurd (by simp [he, hl]) hne
  | some x =>
    refine h i x he fun hx => hne ?_
    cases hl : l[i]? with
    | none => rfl
    | some y => simp [he, hx]

/-- The frame of "hello mars" with the blind error, and with `buf[10] ^= 0xFF`. -/
def blindMars : List UInt8 := xorBytes (wireFrame helloMars) (blindError 55)

def spoiledMars : List UInt8 :=
  xorBytes (wireFrame helloMars) (List.replicate 10 0 ++ [0xFF] ++ List.replicate 44 0)

/-- It is accepted, as "hello ma" and two other characters. -/
theorem blindMars_accepted : bundleSerialize helloMars 256 = some (wireFrame helloMars) ∧
    blindMars.length = (wireFrame helloMars).length ∧ blindMars ≠ wireFrame helloMars ∧
    (∀ i, blindMars[i]? ≠ (wireFrame helloMars)[i]? → 49 ≤ i ∧ i < 49 + 4) ∧
    bundleDeserialize blindMars ≠ .ok none := by
  have hwin : InWindow 49 (blindError 55) := inWindow_of_split 49 2 (d := [0x61, 0xD8, 0xF4, 0xEE])
    (by decide)
  refine ⟨by decide +kernel, by decide +kernel, by decide +kernel, ?_, by decide +kernel⟩
  exact hwin.differs (by decide +kernel)

/-- The corruption of the repository's own test is rejected. -/
theorem bundleDeserialize_burst_spoiledMars :
    spoiledMars ≠ wireFrame helloMars ∧ bundleDeserialize spoiledMars = .ok none := by
  have hne : spoiledMars ≠ wireFrame helloMars := by decide +kernel
  have hwin : InWindow 10 (List.replicate 10 0 ++ [0xFF] ++ List.replicate 44 0) :=
    inWindow_of_split 10 44 (by decide)
  refine ⟨hne, (bundleDeserialize_burst helloMars 256 10 (wireFrame helloMars) spoiledMars
    (by decide +kernel) (by decide +kernel) hne (hwin.differs (by decide +kernel))).mpr ?_⟩
  intro hblind
  have herr : spoiledMars ≠ blindMars := by decide +kernel
  exact herr hblind.error

end DtnHardware
