import DtnHardware.Core.Types

/-!
# `dtn_core/bundle` — the bundle, its clock, its scheduling key, its wire format

`bundle_t` with the fields in the source's order. The payload array and its length
are one list: `payload` holds the first `payload_len` bytes, and nothing in the code
looks at the others. `bundle_class` is the C enum's integer, because the decoder casts
any byte into it.

The wire half follows `bundle_serialize` and `bundle_deserialize` statement by
statement. Every read of the incoming frame goes through `byteAt`, which faults
outside it.
-/

set_option autoImplicit false

namespace DtnHardware

/-! ## The record -/

/-- `bundle_status_t`. -/
inductive BundleStatus where
  | generated | queued | routing | waiting | transmitting | inTransit | custody
  | delivered | disrupted | expired | terminated
deriving DecidableEq, Repr

/-- `bundle_class_t`, the four enumerators a sender can name. -/
inductive BundleClass where
  | housekeeping | telemetry | science | command
deriving DecidableEq, Repr

/-- The integer behind an enumerator. -/
def BundleClass.code : BundleClass → UInt32
  | housekeeping => 0
  | telemetry => 1
  | science => 2
  | command => 3

def bundlePrioMin : Int := 0
def bundlePrioMax : Int := 3
def bundleMaxPayload : Nat := 160
def bundleMaxHops : Nat := 10

/-- `bundle_t`. -/
structure Bundle where
  bundleId : UInt64
  src : NodeId
  dst : NodeId
  curr : NodeId
  size : UInt16
  prio : UInt8
  bundleClass : UInt32
  tGen : F32
  ttl : F32
  cust : NodeId
  nextHop : NodeId
  status : BundleStatus
  retries : UInt8
  tSched : F32
  tTxStart : F32
  tArr : F32
  payload : List UInt8
deriving DecidableEq

/-- `memset(&b, 0, sizeof(b))`. -/
def Bundle.zero : Bundle :=
  { bundleId := 0, src := 0, dst := 0, curr := 0, size := 0, prio := 0, bundleClass := 0,
    tGen := F32.zero, ttl := F32.zero, cust := 0, nextHop := 0, status := .generated,
    retries := 0, tSched := F32.zero, tTxStart := F32.zero, tArr := F32.zero, payload := [] }

/-- `(float)b->size`. -/
def Bundle.bytes (b : Bundle) : ℚ := b.size.toNat

theorem Bundle.bytes_nonneg (b : Bundle) : 0 ≤ b.bytes := Nat.cast_nonneg _

/-! ## Time -/

def bundleAge (b : Bundle) (t : ℚ) : Flt := (Flt.fin t).sub b.tGen.value

def bundleRttl (b : Bundle) (t : ℚ) : Flt := b.ttl.value.sub (bundleAge b t)

def bundleTExp (b : Bundle) : Flt := b.tGen.value.add b.ttl.value

def bundleIsAlive (b : Bundle) (t : ℚ) : Bool := (Flt.fin 0).lt (bundleRttl b t)

/-! ## The scheduling key -/

def bundlePriorityScore (b : Bundle) : ℚ :=
  let span := bundlePrioMax - bundlePrioMin
  if span = 0 then 1 else ((b.prio.toNat : Int) - bundlePrioMin : Int) / (span : ℚ)

/-- The priorities are thirds. -/
theorem bundlePriorityScore_eq (b : Bundle) : bundlePriorityScore b = b.prio.toNat / 3 := by
  simp [bundlePriorityScore, bundlePrioMax, bundlePrioMin]

/-- `1 / rttl` above `eps`, `1 / eps` otherwise: a NaN compares false, and the
    reciprocal of an infinite lifetime is zero. -/
def bundleUrgency (b : Bundle) (t eps : ℚ) : ℚ :=
  match bundleRttl b t with
  | .fin rttl => if eps < rttl ∧ 0 < eps then 1 / rttl else 1 / eps
  | .inf false => if 0 < eps then 0 else 1 / eps
  | _ => 1 / eps

def bundleSchedulingKey (b : Bundle) (t lam1 lam2 lam3 lam4 sizePenaltyThreshold : ℚ) : ℚ :=
  let custBonus := if b.cust ≠ 0 ∧ b.cust = b.curr then 1 else 0
  let sizePenalty := if b.bytes > sizePenaltyThreshold then 1 else 0
  lam1 * bundlePriorityScore b + lam2 * bundleUrgency b t 1 + lam3 * custBonus
    - lam4 * sizePenalty

/-! ## CRC-32, bit by bit -/

/-- One of the eight shifts: `crc = (crc >> 1) ^ (0xEDB88320u & -(crc & 1u))`. -/
def crc32Bit (crc : UInt32) : UInt32 :=
  (crc >>> 1) ^^^ (0xEDB88320 &&& (0 - (crc &&& 1)))

def crc32Byte (crc : UInt32) (x : UInt8) : UInt32 :=
  Nat.repeat crc32Bit 8 (crc ^^^ x.toUInt32)

def crc32Update (crc : UInt32) (buf : List UInt8) : UInt32 :=
  ~~~(buf.foldl crc32Byte (~~~crc))

/-! ## Big-endian fields -/

def putU16 (v : UInt16) : List UInt8 := [(v >>> 8).toUInt8, v.toUInt8]

def putU32 (v : UInt32) : List UInt8 :=
  [(v >>> 24).toUInt8, (v >>> 16).toUInt8, (v >>> 8).toUInt8, v.toUInt8]

def putU64 (v : UInt64) : List UInt8 :=
  (List.range 8).map fun i => (v >>> (8 * (7 - i)).toUInt64).toUInt8

def putF32 (f : F32) : List UInt8 := putU32 f.bits

/-- `p[i]`. -/
def byteAt (inp : List UInt8) (i : Nat) : Except Fault UInt8 :=
  match inp[i]? with
  | some x => .ok x
  | none => .error (.oob .frame i)

def getU16 (inp : List UInt8) (p : Nat) : Except Fault UInt16 := do
  let b0 ← byteAt inp p
  let b1 ← byteAt inp (p + 1)
  return (b0.toUInt16 <<< 8) ||| b1.toUInt16

def getU32 (inp : List UInt8) (p : Nat) : Except Fault UInt32 := do
  let b0 ← byteAt inp p
  let b1 ← byteAt inp (p + 1)
  let b2 ← byteAt inp (p + 2)
  let b3 ← byteAt inp (p + 3)
  return (b0.toUInt32 <<< 24) ||| (b1.toUInt32 <<< 16) ||| (b2.toUInt32 <<< 8) ||| b3.toUInt32

def getU64 (inp : List UInt8) (p : Nat) : Except Fault UInt64 :=
  (List.range 8).foldlM (fun v i => do
    let x ← byteAt inp (p + i)
    return (v <<< 8) ||| x.toUInt64) 0

def getF32 (inp : List UInt8) (p : Nat) : Except Fault F32 := do
  let v ← getU32 inp p
  return ⟨v⟩

/-! ## The frame -/

def wireMagic : UInt16 := 0x4454
def wireVersion : UInt8 := 1
def wireHdrLen : Nat := 41

/-- The bytes `bundle_serialize` puts before the checksum, `total` in the size field. -/
def wireBody (b : Bundle) (total : Nat) : List UInt8 :=
  putU16 wireMagic ++ [wireVersion] ++ putU64 b.bundleId ++ putU32 b.src ++ putU32 b.dst
    ++ putU32 b.curr ++ putU32 b.cust ++ putU16 total.toUInt16 ++ [b.prio]
    ++ [b.bundleClass.toUInt8] ++ putF32 b.tGen ++ putF32 b.ttl
    ++ putU16 b.payload.length.toUInt16 ++ b.payload

/-- `bundle_serialize` into a buffer of `cap` bytes; `none` is the return value `-1`. -/
def bundleSerialize (b : Bundle) (cap : Nat) : Option (List UInt8) :=
  if b.payload.length > bundleMaxPayload then none
  else
    let total := wireHdrLen + b.payload.length + 4
    if total > cap then none
    else
      let body := wireBody b total
      some (body ++ putU32 (crc32Update 0 body))

/-- `bundle_deserialize`; `none` is the return value `-1`. -/
def bundleDeserialize (inp : List UInt8) : Except Fault (Option Bundle) := do
  let len := inp.length
  if len < wireHdrLen + 4 then return none
  if (← getU16 inp 0) ≠ wireMagic then return none
  if (← byteAt inp 2) ≠ wireVersion then return none
  let total ← getU16 inp 27
  if total.toNat ≠ len then return none
  let bundleId ← getU64 inp 3
  let src ← getU32 inp 11
  let dst ← getU32 inp 15
  let curr ← getU32 inp 19
  let cust ← getU32 inp 23
  let size ← getU16 inp 27
  let prio ← byteAt inp 29
  let cls ← byteAt inp 30
  let tGen ← getF32 inp 31
  let ttl ← getF32 inp 35
  let payloadLen ← getU16 inp 39
  if payloadLen.toNat > bundleMaxPayload then return none
  if wireHdrLen + payloadLen.toNat + 4 ≠ len then return none
  accessBelow .frame len (wireHdrLen + payloadLen.toNat)
  accessBelow .payload bundleMaxPayload payloadLen.toNat
  let payload := (inp.drop wireHdrLen).take payloadLen.toNat
  let crcCalc := crc32Update 0 (inp.take (wireHdrLen + payloadLen.toNat))
  let crcIn ← getU32 inp (wireHdrLen + payloadLen.toNat)
  if crcCalc ≠ crcIn then return none
  return some
    { bundleId, src, dst, curr, size, prio, bundleClass := cls.toUInt32, tGen, ttl, cust,
      nextHop := 0, status := .queued, retries := 0, tSched := F32.zero,
      tTxStart := F32.zero, tArr := F32.zero, payload }

/-! ## The remaining lifetime -/

/-- Whether the remaining lifetime is a number does not depend on the time. -/
theorem bundleRttl_eq_nan (b : Bundle) (t t' : ℚ) (h : bundleRttl b t = .nan) :
    bundleRttl b t' = .nan := by
  unfold bundleRttl bundleAge at h ⊢
  cases hg : b.tGen.value <;> cases hl : b.ttl.value <;>
    simp_all [Flt.sub, Flt.neg, Flt.add]

theorem bundleRttl_of_alive {b : Bundle} {t : ℚ} (h : bundleIsAlive b t = true) :
    bundleRttl b t ≠ .nan := by
  intro hnan
  rw [bundleIsAlive, hnan] at h
  cases h

/-- Not alive is a lifetime that has run out, or is not a number. -/
theorem bundleRttl_of_dead {b : Bundle} {t : ℚ} (h : bundleIsAlive b t = false) :
    bundleRttl b t = .nan ∨ (bundleRttl b t).le (.fin 0) = true := by
  unfold bundleIsAlive at h
  cases hr : bundleRttl b t with
  | nan => exact Or.inl rfl
  | inf s =>
    rw [hr] at h
    cases s with
    | false => cases h
    | true => exact Or.inr rfl
  | fin r =>
    rw [hr] at h
    right
    simp only [Flt.lt_fin, decide_eq_false_iff_not, not_lt] at h
    simp [h]

/-! ## Reading inside the frame -/

theorem byteAt_ok {inp : List UInt8} {i : Nat} (h : i < inp.length) :
    ∃ x, byteAt inp i = .ok x :=
  ⟨inp[i], by rw [byteAt, List.getElem?_eq_getElem h]⟩

theorem getU16_ok {inp : List UInt8} {p : Nat} (h : p + 2 ≤ inp.length) :
    ∃ v, getU16 inp p = .ok v := by
  obtain ⟨b0, h0⟩ := byteAt_ok (show p < inp.length by omega)
  obtain ⟨b1, h1⟩ := byteAt_ok (show p + 1 < inp.length by omega)
  rw [getU16, h0, h1]
  exact ⟨_, rfl⟩

theorem getU32_ok {inp : List UInt8} {p : Nat} (h : p + 4 ≤ inp.length) :
    ∃ v, getU32 inp p = .ok v := by
  obtain ⟨b0, h0⟩ := byteAt_ok (show p < inp.length by omega)
  obtain ⟨b1, h1⟩ := byteAt_ok (show p + 1 < inp.length by omega)
  obtain ⟨b2, h2⟩ := byteAt_ok (show p + 2 < inp.length by omega)
  obtain ⟨b3, h3⟩ := byteAt_ok (show p + 3 < inp.length by omega)
  rw [getU32, h0, h1, h2, h3]
  exact ⟨_, rfl⟩

theorem getU64_ok {inp : List UInt8} {p : Nat} (h : p + 8 ≤ inp.length) :
    ∃ v, getU64 inp p = .ok v := by
  have hloop : ∀ (l : List Nat), (∀ i ∈ l, i < 8) → ∀ v : UInt64, ∃ w,
      l.foldlM (fun v i => do
        let x ← byteAt inp (p + i)
        return (v <<< 8) ||| x.toUInt64) v = .ok w := by
    intro l
    induction l with
    | nil => exact fun _ v => ⟨v, rfl⟩
    | cons i l ih =>
      intro hi v
      obtain ⟨x, hx⟩ := byteAt_ok (show p + i < inp.length by
        have := hi i List.mem_cons_self
        omega)
      rw [List.foldlM_cons, hx]
      exact ih (fun j hj => hi j (List.mem_cons_of_mem _ hj)) _
  exact hloop (List.range 8) (fun i hi => List.mem_range.mp hi) 0

theorem getF32_ok {inp : List UInt8} {p : Nat} (h : p + 4 ≤ inp.length) :
    ∃ v, getF32 inp p = .ok v := by
  obtain ⟨v, hv⟩ := getU32_ok h
  rw [getF32, hv]
  exact ⟨_, rfl⟩

/-- **The decoder reads inside every frame**: whatever arrives is decoded or rejected. -/
theorem bundleDeserialize_ok (inp : List UInt8) : ∃ o, bundleDeserialize inp = .ok o := by
  unfold bundleDeserialize
  dsimp only
  split
  · exact ⟨_, rfl⟩
  · rename_i hlen
    have hlen : wireHdrLen + 4 ≤ inp.length := not_lt.mp hlen
    unfold wireHdrLen at hlen
    obtain ⟨_, h0⟩ := getU16_ok (show 0 + 2 ≤ inp.length by omega)
    obtain ⟨_, h2⟩ := byteAt_ok (show 2 < inp.length by omega)
    obtain ⟨_, h27⟩ := getU16_ok (show 27 + 2 ≤ inp.length by omega)
    obtain ⟨_, h3⟩ := getU64_ok (show 3 + 8 ≤ inp.length by omega)
    obtain ⟨_, h11⟩ := getU32_ok (show 11 + 4 ≤ inp.length by omega)
    obtain ⟨_, h15⟩ := getU32_ok (show 15 + 4 ≤ inp.length by omega)
    obtain ⟨_, h19⟩ := getU32_ok (show 19 + 4 ≤ inp.length by omega)
    obtain ⟨_, h23⟩ := getU32_ok (show 23 + 4 ≤ inp.length by omega)
    obtain ⟨_, h29⟩ := byteAt_ok (show 29 < inp.length by omega)
    obtain ⟨_, h30⟩ := byteAt_ok (show 30 < inp.length by omega)
    obtain ⟨_, h31⟩ := getF32_ok (show 31 + 4 ≤ inp.length by omega)
    obtain ⟨_, h35⟩ := getF32_ok (show 35 + 4 ≤ inp.length by omega)
    obtain ⟨n, h39⟩ := getU16_ok (show 39 + 2 ≤ inp.length by omega)
    simp only [h0, h2, h27, h3, h11, h15, h19, h23, h29, h30, h31, h35, h39, bind, Except.bind]
    split
    · exact ⟨_, rfl⟩
    · split
      · exact ⟨_, rfl⟩
      · split
        · exact ⟨_, rfl⟩
        · split
          · exact ⟨_, rfl⟩
          · split
            · exact ⟨_, rfl⟩
            · -- the payload and its checksum end where the frame ends
              rename_i hpay htotal
              have htotal : wireHdrLen + n.toNat + 4 = inp.length := not_not.mp htotal
              obtain ⟨_, hcrc⟩ := getU32_ok
                (show wireHdrLen + n.toNat + 4 ≤ inp.length from htotal.le)
              simp only [accessBelow_of_le (show wireHdrLen + n.toNat ≤ inp.length by omega),
                accessBelow_of_le (not_lt.mp hpay), hcrc]
              split
              · exact ⟨_, rfl⟩
              · exact ⟨_, rfl⟩

end DtnHardware
