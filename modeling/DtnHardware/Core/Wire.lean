import DtnHardware.Core.Bundle
import DtnHardware.Lib.Layout

/-!
# The wire format, both ways

The encoder writes the fields one after the other, the decoder reads them at offsets kept by
hand. Both are facts about what stands where in the frame (`HoldsAt`), so the header is laid
out once, in `holdsAt_wireBody`, and `bundleDeserialize_eq_some` says exactly which byte
strings are accepted, and as what: the frame of a bundle that looks as if it had just
arrived. The round trip is one direction of it, the well-formedness of whatever is accepted
the other.
-/

set_option autoImplicit false

namespace DtnHardware

open ByteLayout

/-! ## A field: what is written is what is read -/

theorem byteAt_eq_ok {inp : List UInt8} {i : Nat} {x : UInt8} :
    byteAt inp i = .ok x ↔ HoldsAt inp i [x] := by
  rw [holdsAt_cons, and_iff_left (holdsAt_nil _ _), byteAt]
  cases inp[i]? with
  | none => simp
  | some y => simp

theorem putU16_eq (v : UInt16) : putU16 v = encode 2 v.toNat := by
  simp only [encode, putU16, List.nil_append, List.cons_append, List.cons.injEq, and_true]
  refine ⟨?_, ?_⟩ <;> apply UInt8.toNat_inj.mp <;> simp [Nat.shiftRight_eq_div_pow]

theorem putU32_eq (v : UInt32) : putU32 v = encode 4 v.toNat := by
  simp only [encode, putU32, List.nil_append, List.cons_append, List.cons.injEq, and_true]
  refine ⟨?_, ?_, ?_, ?_⟩ <;> apply UInt8.toNat_inj.mp <;>
    simp [Nat.shiftRight_eq_div_pow, Nat.div_div_eq_div_mul]

theorem putU64_eq (v : UInt64) : putU64 v = encode 8 v.toNat := by
  simp only [encode, putU64, List.nil_append, List.cons_append, List.range, List.range.loop,
    List.map_cons, List.map_nil, List.cons.injEq, and_true]
  refine ⟨?_, ?_, ?_, ?_, ?_, ?_, ?_, ?_⟩ <;> apply UInt8.toNat_inj.mp <;>
    simp [Nat.shiftRight_eq_div_pow, Nat.div_div_eq_div_mul]

@[simp] theorem length_putU16 (v : UInt16) : (putU16 v).length = 2 := rfl

@[simp] theorem length_putU32 (v : UInt32) : (putU32 v).length = 4 := rfl

@[simp] theorem length_putU64 (v : UInt64) : (putU64 v).length = 8 := rfl

@[simp] theorem length_putF32 (f : F32) : (putF32 f).length = 4 := rfl

theorem getU16_eq_ok {inp : List UInt8} {p : Nat} {v : UInt16} :
    getU16 inp p = .ok v ↔ HoldsAt inp p (putU16 v) := by
  have hread (b0 b1 : UInt8) :
      ((b0.toUInt16 <<< 8) ||| b1.toUInt16).toNat = decode [b0, b1] := by
    have h0 := b0.toNat_lt
    have h1 := b1.toNat_lt
    simp [decode, Nat.shiftLeft_eq]
    rw [or_eq_add (k := 8) (by omega) (by omega)]
    omega
  rw [putU16_eq, holdsAt_encode v.toNat_lt]
  simp only [getU16, bind_eq_ok, byteAt_eq_ok, pure, Except.pure, Except.ok.injEq]
  constructor
  · intro h
    obtain ⟨b0, h0, b1, h1, rfl⟩ := h
    exact ⟨[b0, b1], rfl, (hread b0 b1).symm, holdsAt_append.mpr ⟨h0, h1⟩⟩
  · intro h
    obtain ⟨s, hlen, hval, hs⟩ := h
    obtain ⟨b0, b1, rfl⟩ := List.length_eq_two.mp hlen
    obtain ⟨h0, h1⟩ := (holdsAt_append (s := [b0])).mp hs
    refine ⟨b0, h0, b1, h1, ?_⟩
    apply UInt16.toNat_inj.mp
    rw [hread, hval]

theorem getU32_eq_ok {inp : List UInt8} {p : Nat} {v : UInt32} :
    getU32 inp p = .ok v ↔ HoldsAt inp p (putU32 v) := by
  have hread (b0 b1 b2 b3 : UInt8) :
      ((b0.toUInt32 <<< 24) ||| (b1.toUInt32 <<< 16) ||| (b2.toUInt32 <<< 8)
        ||| b3.toUInt32).toNat = decode [b0, b1, b2, b3] := by
    have h0 := b0.toNat_lt
    have h1 := b1.toNat_lt
    have h2 := b2.toNat_lt
    have h3 := b3.toNat_lt
    have e24 : b0.toNat * 2 ^ 24 ||| b1.toNat * 2 ^ 16 = b0.toNat * 2 ^ 24 + b1.toNat * 2 ^ 16 :=
      or_eq_add (k := 24) (by omega) (by omega)
    have e16 := or_eq_add (x := b0.toNat * 2 ^ 24 + b1.toNat * 2 ^ 16) (y := b2.toNat * 2 ^ 8)
      (k := 16) (by omega) (by omega)
    have e8 := or_eq_add (y := b3.toNat) (k := 8)
      (x := b0.toNat * 2 ^ 24 + b1.toNat * 2 ^ 16 + b2.toNat * 2 ^ 8) (by omega) (by omega)
    have hval : decode [b0, b1, b2, b3]
        = b0.toNat * 2 ^ 24 + b1.toNat * 2 ^ 16 + b2.toNat * 2 ^ 8 + b3.toNat := by
      simp [decode]
      omega
    rw [hval, ← e8, ← e16, ← e24]
    simp only [UInt32.toNat_or, UInt32.toNat_shiftLeft, UInt8.toNat_toUInt32, Nat.shiftLeft_eq,
      UInt32.reduceToNat, Nat.reduceMod]
    -- no bit is shifted out
    rw [Nat.mod_eq_of_lt (show b0.toNat * 2 ^ 24 < 2 ^ 32 by omega),
      Nat.mod_eq_of_lt (show b1.toNat * 2 ^ 16 < 2 ^ 32 by omega),
      Nat.mod_eq_of_lt (show b2.toNat * 2 ^ 8 < 2 ^ 32 by omega)]
  rw [putU32_eq, holdsAt_encode v.toNat_lt]
  simp only [getU32, bind_eq_ok, byteAt_eq_ok, pure, Except.pure, Except.ok.injEq]
  constructor
  · intro h
    obtain ⟨b0, h0, b1, h1, b2, h2, b3, h3, rfl⟩ := h
    refine ⟨[b0, b1, b2, b3], rfl, (hread b0 b1 b2 b3).symm, ?_⟩
    exact (holdsAt_append (s := [b0])).mpr ⟨h0, (holdsAt_append (s := [b1])).mpr
      ⟨h1, (holdsAt_append (s := [b2])).mpr ⟨h2, h3⟩⟩⟩
  · intro h
    obtain ⟨s, hlen, hval, hs⟩ := h
    obtain ⟨b0, b1, b2, b3, rfl⟩ := List.length_eq_four.mp hlen
    obtain ⟨h0, hs⟩ := (holdsAt_append (s := [b0])).mp hs
    obtain ⟨h1, hs⟩ := (holdsAt_append (s := [b1])).mp hs
    obtain ⟨h2, h3⟩ := (holdsAt_append (s := [b2])).mp hs
    refine ⟨b0, h0, b1, h1, b2, h2, b3, h3, ?_⟩
    apply UInt32.toNat_inj.mp
    rw [hread, hval]

theorem getF32_eq_ok {inp : List UInt8} {p : Nat} {f : F32} :
    getF32 inp p = .ok f ↔ HoldsAt inp p (putF32 f) := by
  rw [putF32, ← getU32_eq_ok, getF32]
  simp only [bind_eq_ok, pure, Except.pure, Except.ok.injEq]
  constructor
  · intro h
    obtain ⟨v, hv, rfl⟩ := h
    exact hv
  · intro h
    exact ⟨f.bits, h, rfl⟩

/-- One round of the loop of `get_u64`: no bit is shifted out before the ninth. -/
theorem toNat_shift_or {w : UInt64} (hw : w.toNat < 2 ^ 56) (x : UInt8) :
    ((w <<< 8) ||| x.toUInt64).toNat = 256 * w.toNat + x.toNat := by
  have hx := x.toNat_lt
  simp only [UInt64.toNat_or, UInt64.toNat_shiftLeft, UInt8.toNat_toUInt64, Nat.shiftLeft_eq,
    UInt64.reduceToNat, Nat.reduceMod]
  rw [Nat.mod_eq_of_lt (show w.toNat * 2 ^ 8 < 2 ^ 64 by omega), or_eq_add (k := 8) (by omega) hx]
  omega

/-- After `n` rounds the loop has read the number in the first `n` bytes. -/
theorem getU64_loop {inp : List UInt8} {p : Nat} : ∀ (n : Nat), n ≤ 8 → ∀ (v : UInt64),
    ((List.range n).foldlM (fun v i => do
        let x ← byteAt inp (p + i)
        return (v <<< 8) ||| x.toUInt64) (0 : UInt64) = .ok v ↔
      ∃ s, s.length = n ∧ decode s = v.toNat ∧ HoldsAt inp p s) := by
  intro n
  induction n with
  | zero =>
    intro _ v
    constructor
    · intro h
      cases h
      exact ⟨[], rfl, rfl, holdsAt_nil _ _⟩
    · intro h
      obtain ⟨s, hlen, hval, _⟩ := h
      rw [List.length_eq_zero_iff.mp hlen] at hval
      have hzero : v = 0 := UInt64.toNat_inj.mp hval.symm
      rw [hzero]
      rfl
  | succ n ih =>
    intro hn v
    have hsmall (s : List UInt8) (hlen : s.length = n) : decode s < 2 ^ 56 := by
      have hlt := decode_lt s
      rw [hlen] at hlt
      calc decode s < 256 ^ n := hlt
        _ ≤ 256 ^ 7 := Nat.pow_le_pow_right (by norm_num) (by omega)
        _ = 2 ^ 56 := by norm_num
    rw [List.range_succ, List.foldlM_append, bind_eq_ok]
    constructor
    · intro h
      obtain ⟨w, hloop, hlast⟩ := h
      obtain ⟨s, hlen, hval, hs⟩ := (ih (by omega) w).mp hloop
      rw [List.foldlM_cons, bind_eq_ok] at hlast
      obtain ⟨_, hround, hend⟩ := hlast
      obtain ⟨x, hx, hres⟩ := bind_eq_ok.mp hround
      cases hres
      cases hend
      refine ⟨s ++ [x], by simp [hlen], ?_, ?_⟩
      · rw [decode_concat, hval, toNat_shift_or (hval ▸ hsmall s hlen)]
      · rw [holdsAt_append, hlen]
        exact ⟨hs, byteAt_eq_ok.mp hx⟩
    · intro h
      obtain ⟨s', hlen, hval, hs⟩ := h
      rcases List.eq_nil_or_concat s' with rfl | ⟨s, x, rfl⟩
      · cases hlen
      rw [List.concat_eq_append] at hlen hval hs
      rw [List.length_append, List.length_singleton, Nat.add_right_cancel_iff] at hlen
      rw [decode_concat] at hval
      rw [holdsAt_append, hlen] at hs
      obtain ⟨hs, hx⟩ := hs
      have hw : (UInt64.ofNat (decode s)).toNat = decode s := by
        have := hsmall s hlen
        rw [UInt64.toNat_ofNat', Nat.mod_eq_of_lt (by omega)]
      refine ⟨UInt64.ofNat (decode s), (ih (by omega) _).mpr ⟨s, hlen, hw.symm, hs⟩, ?_⟩
      have hround : (UInt64.ofNat (decode s) <<< 8) ||| x.toUInt64 = v := by
        apply UInt64.toNat_inj.mp
        rw [toNat_shift_or (by rw [hw]; exact hsmall s hlen), hw, hval]
      rw [List.foldlM_cons, byteAt_eq_ok.mpr hx, ← hround]
      rfl

theorem getU64_eq_ok {inp : List UInt8} {p : Nat} {v : UInt64} :
    getU64 inp p = .ok v ↔ HoldsAt inp p (putU64 v) := by
  rw [putU64_eq, holdsAt_encode v.toNat_lt]
  exact getU64_loop 8 le_rfl v

/-! ## The frame -/

/-- The frame of a bundle, whatever the length of its payload. -/
def wireFrame (b : Bundle) : List UInt8 :=
  let body := wireBody b (wireHdrLen + b.payload.length + 4)
  body ++ putU32 (crc32Update 0 body)

/-- What a receiver makes of the frame of `b`: the size is the frame's, the class is a
    byte, and what is not on the wire is reset. -/
def Bundle.arrived (b : Bundle) : Bundle :=
  { b with
    size := (wireHdrLen + b.payload.length + 4).toUInt16
    bundleClass := b.bundleClass.toUInt8.toUInt32
    nextHop := 0
    status := .queued
    retries := 0
    tSched := F32.zero
    tTxStart := F32.zero
    tArr := F32.zero }

theorem bundleSerialize_eq_some {b : Bundle} {cap : Nat} {frame : List UInt8} :
    bundleSerialize b cap = some frame ↔ b.payload.length ≤ bundleMaxPayload ∧
      wireHdrLen + b.payload.length + 4 ≤ cap ∧ frame = wireFrame b := by
  unfold bundleSerialize
  dsimp only
  split
  · rename_i hbig
    simp [not_le.mpr hbig]
  · rename_i hpay
    rw [and_iff_right (not_lt.mp hpay)]
    split
    · rename_i hcap
      simp [not_le.mpr hcap]
    · rename_i hcap
      rw [and_iff_right (not_lt.mp hcap), Option.some.injEq, eq_comm]
      rfl

theorem length_wireBody (b : Bundle) (total : Nat) :
    (wireBody b total).length = wireHdrLen + b.payload.length := by
  simp [wireBody, wireHdrLen]
  omega

theorem length_wireFrame (b : Bundle) :
    (wireFrame b).length = wireHdrLen + b.payload.length + 4 := by
  simp [wireFrame, length_wireBody]

/-- **A frame is its body, and then the checksum of the body.** -/
theorem eq_wireFrame_iff {inp : List UInt8} {b : Bundle} :
    inp = wireFrame b ↔ inp.length = wireHdrLen + b.payload.length + 4 ∧
      HoldsAt inp 0 (wireBody b (wireHdrLen + b.payload.length + 4)) ∧
      HoldsAt inp (wireHdrLen + b.payload.length)
        (putU32 (crc32Update 0 (wireBody b (wireHdrLen + b.payload.length + 4)))) := by
  have hfields : HoldsAt inp 0 (wireFrame b) ↔
      HoldsAt inp 0 (wireBody b (wireHdrLen + b.payload.length + 4)) ∧
      HoldsAt inp (wireHdrLen + b.payload.length)
        (putU32 (crc32Update 0 (wireBody b (wireHdrLen + b.payload.length + 4)))) := by
    rw [wireFrame, holdsAt_append, length_wireBody, zero_add]
  rw [← hfields, ← length_wireFrame]
  constructor
  · rintro rfl
    exact ⟨rfl, holdsAt_self _⟩
  · intro h
    obtain ⟨hlen, hframe⟩ := h
    exact (hframe.eq_of_length hlen.symm).symm

/-- The fields of the header, each at its offset. -/
theorem holdsAt_wireBody {inp : List UInt8} {b : Bundle} {total : Nat} :
    HoldsAt inp 0 (wireBody b total) ↔
      HoldsAt inp 0 (putU16 wireMagic) ∧ HoldsAt inp 2 [wireVersion] ∧
      HoldsAt inp 3 (putU64 b.bundleId) ∧ HoldsAt inp 11 (putU32 b.src) ∧
      HoldsAt inp 15 (putU32 b.dst) ∧ HoldsAt inp 19 (putU32 b.curr) ∧
      HoldsAt inp 23 (putU32 b.cust) ∧ HoldsAt inp 27 (putU16 total.toUInt16) ∧
      HoldsAt inp 29 [b.prio] ∧ HoldsAt inp 30 [b.bundleClass.toUInt8] ∧
      HoldsAt inp 31 (putF32 b.tGen) ∧ HoldsAt inp 35 (putF32 b.ttl) ∧
      HoldsAt inp 39 (putU16 b.payload.length.toUInt16) ∧
      HoldsAt inp wireHdrLen b.payload := by
  simp only [wireBody, holdsAt_append, List.length_append, length_putU16, length_putU32,
    length_putU64, length_putF32, List.length_singleton, and_assoc, Nat.reduceAdd, wireHdrLen]

theorem return_none_eq_ok {ε α : Type} {c : Prop} [Decidable c] {x : Except ε (Option α)} {a : α} :
    (if c then .ok none else x) = .ok (some a) ↔ ¬ c ∧ x = .ok (some a) := by
  split
  · simp [*]
  · simp [*]

/-- **The decoder accepts the frames of the bundles that look as if they had arrived**, and
    returns the bundle. -/
theorem bundleDeserialize_eq_some {inp : List UInt8} {b : Bundle} :
    bundleDeserialize inp = .ok (some b) ↔
      b.payload.length ≤ bundleMaxPayload ∧ b.arrived = b ∧ inp = wireFrame b := by
  unfold bundleDeserialize
  simp only [pure, Except.pure, return_none_eq_ok, bind_eq_ok, getU16_eq_ok, getU32_eq_ok,
    getU64_eq_ok, getF32_eq_ok, byteAt_eq_ok, accessBelow_ok_iff, Except.ok.injEq,
    Option.some.injEq, not_not, not_lt]
  constructor
  · -- every check of the decoder says what stands at one offset of its input
    intro h
    obtain ⟨_, magic, hmagic, rfl, version, hversion, rfl, total, htotal, hlen, bundleId, hid,
      src, hsrc, dst, hdst, curr, hcurr, cust, hcust, size, hsize, prio, hprio, cls, hcls,
      tGen, htGen, ttl, httl, n, hn, hpay, hend, _, -, _, -, crc, hcrc, hsum, hb⟩ := h
    have hpayload : b.payload = (inp.drop wireHdrLen).take n.toNat := by rw [← hb]
    have hpaylen : b.payload.length = n.toNat := by
      rw [hpayload, List.length_take, List.length_drop]
      omega
    -- the size field is read twice, and both times it is the length of the frame
    have hsame : size = total := by
      have := (getU16_eq_ok.mpr hsize).symm.trans (getU16_eq_ok.mpr htotal)
      rwa [Except.ok.injEq] at this
    have hframe : (wireHdrLen + b.payload.length + 4).toUInt16 = size := by
      rw [hpaylen, hend, ← hlen, hsame]
      exact UInt16.ofNat_toNat
    have hbody : HoldsAt inp 0 (wireBody b (wireHdrLen + b.payload.length + 4)) := by
      have hnum : b.payload.length.toUInt16 = n := by
        rw [hpaylen]
        exact UInt16.ofNat_toNat
      rw [holdsAt_wireBody, hframe, hnum, hpayload, ← hb, UInt8.toUInt8_toUInt32]
      exact ⟨hmagic, hversion, hid, hsrc, hdst, hcurr, hcust, hsize, hprio, hcls, htGen, httl,
        hn, holdsAt_of_take⟩
    refine ⟨hpaylen.trans_le hpay, ?_, ?_⟩
    · rw [Bundle.arrived, hframe, ← hb, UInt8.toUInt8_toUInt32]
    · -- the checksum is that of everything in front of it
      have htake := hbody.eq_take
      rw [length_wireBody, hpaylen] at htake
      rw [← hsum, htake, ← hpaylen] at hcrc
      exact eq_wireFrame_iff.mpr ⟨by rw [hpaylen, hend], hbody, hcrc⟩
  · -- the reads find what was written, since no length field wraps
    intro h
    obtain ⟨hpay, harr, hframe⟩ := h
    obtain ⟨hlen, hbody, hcrc⟩ := eq_wireFrame_iff.mp hframe
    have htake := hbody.eq_take
    rw [length_wireBody] at htake
    obtain ⟨hmagic, hversion, hid, hsrc, hdst, hcurr, hcust, hsize, hprio, hcls, htGen, httl,
      hn, hpayload⟩ := holdsAt_wireBody.mp hbody
    have hbound : b.payload.length ≤ 160 := hpay
    have hnum : b.payload.length.toUInt16.toNat = b.payload.length :=
      Nat.mod_eq_of_lt (by omega)
    have htotal : (wireHdrLen + b.payload.length + 4).toUInt16.toNat
        = wireHdrLen + b.payload.length + 4 := by
      apply Nat.mod_eq_of_lt
      unfold wireHdrLen
      omega
    refine ⟨by omega, _, hmagic, rfl, _, hversion, rfl, _, hsize, htotal.trans hlen.symm, _, hid,
      _, hsrc, _, hdst, _, hcurr, _, hcust, _, hsize, _, hprio, _, hcls, _, htGen, _, httl,
      _, hn, ?_⟩
    rw [hnum]
    refine ⟨hpay, hlen.symm, (), by omega, (), hpay, _, hcrc, ?_, ?_⟩
    · rw [htake]
    · rw [hpayload.take]
      exact harr

/-! ## The round trip -/

/-- Nothing that is on the wire changes by being sent. -/
theorem wireFrame_arrived (b : Bundle) : wireFrame b.arrived = wireFrame b := by
  have hclass : b.arrived.bundleClass.toUInt8 = b.bundleClass.toUInt8 :=
    UInt8.toUInt8_toUInt32 _
  have hbody (total : Nat) : wireBody b.arrived total = wireBody b total := by
    rw [wireBody, wireBody, hclass]
    rfl
  have hpay : b.arrived.payload = b.payload := rfl
  rw [wireFrame, wireFrame, hbody, hpay]

theorem arrived_arrived (b : Bundle) : b.arrived.arrived = b.arrived := by
  have hclass : b.bundleClass.toUInt8.toUInt32.toUInt8 = b.bundleClass.toUInt8 :=
    UInt8.toUInt8_toUInt32 _
  unfold Bundle.arrived
  rw [hclass]

/-- Every frame the encoder makes is accepted. -/
theorem bundleDeserialize_of_serialize {b : Bundle} {cap : Nat} {frame : List UInt8}
    (h : bundleSerialize b cap = some frame) :
    bundleDeserialize frame = .ok (some b.arrived) := by
  obtain ⟨hpay, _, rfl⟩ := bundleSerialize_eq_some.mp h
  apply bundleDeserialize_eq_some.mpr
  exact ⟨hpay, arrived_arrived b, (wireFrame_arrived b).symm⟩

/-- Every frame that is accepted is the encoding of what it is accepted as. -/
theorem bundleSerialize_of_deserialize {inp : List UInt8} {b : Bundle} {cap : Nat}
    (h : bundleDeserialize inp = .ok (some b)) (hcap : inp.length ≤ cap) :
    bundleSerialize b cap = some inp := by
  obtain ⟨hpay, _, rfl⟩ := bundleDeserialize_eq_some.mp h
  rw [length_wireFrame] at hcap
  exact bundleSerialize_eq_some.mpr ⟨hpay, hcap, rfl⟩

theorem bundleSerialize_isSome {b : Bundle} {cap : Nat}
    (hpay : b.payload.length ≤ bundleMaxPayload) :
    (bundleSerialize b cap).isSome = true ↔ wireHdrLen + b.payload.length + 4 ≤ cap := by
  rw [Option.isSome_iff_exists]
  simp only [bundleSerialize_eq_some, and_iff_right hpay, exists_and_left, exists_eq, and_true]

/-- **The wire round trip.** -/
theorem bundleDeserialize_bundleSerialize (b : Bundle) (cap : Nat)
    (hpay : b.payload.length ≤ bundleMaxPayload) (hcls : b.bundleClass.toNat ≤ 255) :
    ((bundleSerialize b cap).isSome = true ↔ 45 + b.payload.length ≤ cap) ∧
      ∀ frame, bundleSerialize b cap = some frame →
        frame.length = 45 + b.payload.length ∧
        ∃ size : UInt16, size.toNat = frame.length ∧
          bundleDeserialize frame = .ok (some
            { b with size, nextHop := 0, status := .queued, retries := 0, tSched := F32.zero,
                     tTxStart := F32.zero, tArr := F32.zero }) := by
  refine ⟨?_, fun frame h => ?_⟩
  · rw [bundleSerialize_isSome hpay]
    unfold wireHdrLen
    omega
  · have hdec := bundleDeserialize_of_serialize h
    obtain ⟨_, _, rfl⟩ := bundleSerialize_eq_some.mp h
    have hlen : (wireFrame b).length = 45 + b.payload.length := by
      rw [length_wireFrame]
      unfold wireHdrLen
      omega
    have hclass : b.bundleClass.toUInt8.toUInt32 = b.bundleClass := by
      apply UInt32.toNat_inj.mp
      simp
      omega
    refine ⟨hlen, (wireHdrLen + b.payload.length + 4).toUInt16, ?_, ?_⟩
    · rw [length_wireFrame]
      apply Nat.mod_eq_of_lt
      unfold bundleMaxPayload at hpay
      unfold wireHdrLen
      omega
    · rw [hdec, Bundle.arrived, hclass]

/-- The bundle of `test_bundle_serdes`: "hello mars" from `EART` to `ROVR`. -/
def helloMars : Bundle :=
  { Bundle.zero with
    bundleId := 0x1122334455667788
    src := 0x45415254
    dst := 0x524F5652
    curr := 0x45415254
    cust := 0x45415254
    prio := 2
    bundleClass := BundleClass.science.code
    ttl := ⟨0x45610000⟩
    payload := [0x68, 0x65, 0x6C, 0x6C, 0x6F, 0x20, 0x6D, 0x61, 0x72, 0x73]
    size := 55 }

theorem bundleDeserialize_bundleSerialize_helloMars :
    ∃ frame, bundleSerialize helloMars 256 = some frame ∧ frame.length = 55 ∧
      bundleDeserialize frame = .ok (some { helloMars with size := 55, status := .queued }) := by
  obtain ⟨hsome, hdec⟩ :=
    bundleDeserialize_bundleSerialize helloMars 256 (by decide) (by decide)
  obtain ⟨frame, hframe⟩ := Option.isSome_iff_exists.mp (hsome.mpr (by decide))
  obtain ⟨hlen, size, hsize, hok⟩ := hdec frame hframe
  have hsize55 : size = 55 := by
    apply UInt16.toNat_inj.mp
    rw [hsize, hlen]
    rfl
  rw [hsize55] at hok
  exact ⟨frame, hframe, hlen, hok⟩

/-- **The decoder accepts exactly the image of the encoder**, and never faults. -/
theorem bundleDeserialize_image (inp : List UInt8) :
    (∃ o, bundleDeserialize inp = .ok o) ∧
      ((∃ b, bundleDeserialize inp = .ok (some b)) ↔ ∃ b cap, bundleSerialize b cap = some inp) ∧
      (∀ b, bundleDeserialize inp = .ok (some b) →
        ∀ cap, inp.length ≤ cap → bundleSerialize b cap = some inp) ∧
      ∀ inp' b, bundleDeserialize inp = .ok (some b) → bundleDeserialize inp' = .ok (some b) →
        inp = inp' := by
  refine ⟨bundleDeserialize_ok inp, ?_, ?_, ?_⟩
  · constructor
    · intro h
      obtain ⟨b, hb⟩ := h
      exact ⟨b, inp.length, bundleSerialize_of_deserialize hb le_rfl⟩
    · intro h
      obtain ⟨b, cap, hb⟩ := h
      exact ⟨b.arrived, bundleDeserialize_of_serialize hb⟩
  · intro b hb cap hcap
    exact bundleSerialize_of_deserialize hb hcap
  · intro inp' b hb hb'
    rw [(bundleDeserialize_eq_some.mp hb).2.2, (bundleDeserialize_eq_some.mp hb').2.2]

end DtnHardware
