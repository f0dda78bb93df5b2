import Mathlib.Tactic
import Mathlib.Algebra.Order.Field.Rat

/-!
# `dtn_core/types` — node ids, floats, and the arrays of the C code

Three things every other module speaks of.

**Node ids** are `uint32_t`; the four-character spelling is packed big-endian.

**Floats.** The code stores and copies a `float` as its bit pattern (`memcpy` in
`put_f32`/`get_f32`) and computes with its value. The model keeps the two apart:
`F32` is the pattern, `Flt` the value, and arithmetic on values is *exact* — rational
on the finite ones, IEEE on infinities and NaN. So a frame may carry any pattern
whatsoever, and a NaN still compares false with everything, but `0.1 + 0.2` does not
round. Clocks, contact windows and rates are plain `ℚ`.

**Faults.** An access outside its array has no meaning in C, so the embedding stops
there with a `Fault` that names the array and the index.
-/

set_option autoImplicit false

namespace DtnHardware

/-! ## Node ids -/

/-- `node_id_t`. -/
abbrev NodeId := UInt32

/-- `node_id_from_str`: four characters, short strings padded with trailing spaces. -/
def nodeIdFromStr (s : List UInt8) : NodeId :=
  let buf := (s.take 4 ++ List.replicate 4 0x20).take 4
  buf.foldl (fun v c => (v <<< 8) ||| c.toUInt32) 0

/-- `node_id_to_str`, without the terminating NUL. -/
def nodeIdToStr (id : NodeId) : List UInt8 :=
  [(id >>> 24).toUInt8, (id >>> 16).toUInt8, (id >>> 8).toUInt8, id.toUInt8]

/-! ## Floats -/

/-- A `float` as the code stores and copies it. -/
structure F32 where
  bits : UInt32
deriving DecidableEq, Repr

/-- The value of a `float`, with exact arithmetic on the finite ones. -/
inductive Flt where
  | nan
  | inf (neg : Bool)
  | fin (q : ℚ)
deriving DecidableEq

namespace Flt

def neg : Flt → Flt
  | nan => nan
  | inf s => inf !s
  | fin q => fin (-q)

def add : Flt → Flt → Flt
  | nan, _ => nan
  | _, nan => nan
  | inf s, inf s' => if s = s' then inf s else nan
  | inf s, fin _ => inf s
  | fin _, inf s => inf s
  | fin p, fin q => fin (p + q)

def sub (x y : Flt) : Flt := add x y.neg

/-- `x < y`; false as soon as a NaN is involved. -/
def lt : Flt → Flt → Bool
  | nan, _ => false
  | _, nan => false
  | inf s, inf s' => s && !s'
  | inf s, fin _ => s
  | fin _, inf s => !s
  | fin p, fin q => decide (p < q)

/-- `x <= y`; false as soon as a NaN is involved. -/
def le : Flt → Flt → Bool
  | nan, _ => false
  | _, nan => false
  | inf s, inf s' => s || !s'
  | inf s, fin _ => s
  | fin _, inf s => !s
  | fin p, fin q => decide (p ≤ q)

@[simp] theorem neg_fin (p : ℚ) : (fin p).neg = fin (-p) := rfl

@[simp] theorem add_fin (p q : ℚ) : (fin p).add (fin q) = fin (p + q) := rfl

@[simp] theorem sub_fin (p q : ℚ) : (fin p).sub (fin q) = fin (p - q) := by
  simp [sub, sub_eq_add_neg]

@[simp] theorem lt_fin (p q : ℚ) : (fin p).lt (fin q) = decide (p < q) := rfl

@[simp] theorem le_fin (p q : ℚ) : (fin p).le (fin q) = decide (p ≤ q) := rfl

/-- An upper limit that has not passed at `p` has not passed earlier either — for
    every limit, NaN included. -/
theorem le_fin_antitone {e : Flt} {p q : ℚ} (h : e.le (fin p) = false) (hqp : q ≤ p) :
    e.le (fin q) = false := by
  cases e with
  | nan => rfl
  | inf s => exact h
  | fin e =>
    simp only [le_fin, decide_eq_false_iff_not, not_le] at h ⊢
    exact lt_of_le_of_lt hqp h

end Flt

/-- The value an IEEE single denotes: sign, eight exponent bits, twenty-three of
    fraction; exponent 255 is an infinity or a NaN, exponent 0 a subnormal. -/
def F32.value (f : F32) : Flt :=
  let b : Nat := f.bits.toNat
  let neg : Bool := decide (2 ^ 31 ≤ b)
  let e : Nat := b / 2 ^ 23 % 256
  let m : Nat := b % 2 ^ 23
  if e = 255 then
    if m = 0 then .inf neg else .nan
  else
    let mag : ℚ :=
      if e = 0 then (m : ℚ) / 2 ^ 149 else (2 ^ 23 + (m : ℚ)) * 2 ^ e / 2 ^ 150
    .fin (if neg then -mag else mag)

/-- The pattern of `0.0f`. -/
def F32.zero : F32 := ⟨0⟩

example : (F32.mk 0x45610000).value = .fin 3600 := by decide +kernel

example : (F32.mk 0x7FC00000).value = .nan := by decide +kernel

/-! ## Arrays and faults -/

/-- The fixed-size arrays whose indices the embedding checks. -/
inductive CArray where
  /-- `const contact_t *seeds[CONTACT_PLAN_MAX]` -/
  | seeds
  /-- `const contact_t *nxt[CONTACT_PLAN_MAX]` -/
  | nxt
  /-- `dfs_frame_t stack[DFS_STACK_MAX]` -/
  | stack
  /-- `node_id_t visited[BUNDLE_MAX_HOPS + 1]` -/
  | visited
  /-- `frontier_t frontiers[8]`, `node_id_t frontier_nodes[8]` -/
  | frontiers
  /-- `pareto_sig_t sigs[MAX_PARETO_PER_NODE]` -/
  | sigs
  /-- `cgr_route_t routes[CGR_MAX_ROUTES_PI]` -/
  | routes
  /-- `const contact_t *hops[CGR_ROUTE_MAX_HOPS]` -/
  | hops
  /-- `const uint8_t *in`, of the length passed with it -/
  | frame
  /-- `uint8_t payload[BUNDLE_MAX_PAYLOAD]` -/
  | payload
deriving DecidableEq, Repr

/-- What C leaves undefined. -/
inductive Fault where
  /-- an index outside its array -/
  | oob (arr : CArray) (idx : Nat)
  /-- a read of an entry that was never written -/
  | uninit (arr : CArray)
deriving DecidableEq, Repr

/-- Use index `i` of an array with `cap` entries. -/
def access (arr : CArray) (cap i : Nat) : Except Fault Unit :=
  if i < cap then .ok () else .error (.oob arr i)

/-- Use every index below `n`, as a counting loop does; the first bad one is `cap`. -/
def accessBelow (arr : CArray) (cap n : Nat) : Except Fault Unit :=
  if n ≤ cap then .ok () else .error (.oob arr cap)

@[simp] theorem access_ok_iff {arr : CArray} {cap i : Nat} {u : Unit} :
    access arr cap i = .ok u ↔ i < cap := by
  unfold access; split <;> simp_all

@[simp] theorem accessBelow_ok_iff {arr : CArray} {cap n : Nat} {u : Unit} :
    accessBelow arr cap n = .ok u ↔ n ≤ cap := by
  unfold accessBelow; split <;> simp_all

theorem access_of_lt {arr : CArray} {cap i : Nat} (h : i < cap) :
    access arr cap i = .ok () := by simp [h]

theorem accessBelow_of_le {arr : CArray} {cap n : Nat} (h : n ≤ cap) :
    accessBelow arr cap n = .ok () := by simp [h]

/-- The one way a sequence of fallible C statements succeeds. -/
theorem bind_eq_ok {ε α β : Type} {x : Except ε α} {f : α → Except ε β} {b : β} :
    (x >>= f) = .ok b ↔ ∃ a, x = .ok a ∧ f a = .ok b := by
  cases x with
  | error e => simp [bind, Except.bind]
  | ok a => simp [bind, Except.bind]

/-- `(size_t)x` of a C `int` on a 64-bit target: negative values wrap. -/
def sizeT (x : Int32) : Nat := (x.toInt % 2 ^ 64).toNat

theorem sizeT_of_nonneg {x : Int32} (h : 0 ≤ x.toInt) : (sizeT x : Int) = x.toInt := by
  have hlt : x.toInt < 2 ^ 64 := lt_trans x.toInt_lt (by norm_num)
  unfold sizeT
  rw [Int.emod_eq_of_lt h hlt, Int.toNat_of_nonneg h]

end DtnHardware
