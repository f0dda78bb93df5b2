import Mathlib.Tactic

/-!
# Fixed-width fields in a byte string

What a wire format with fields at fixed offsets needs, over lists of bytes.

* `encode n v` and `decode l` — a number as `n` bytes, most significant first, and back;
  each undoes the other (`decode_encode`, `encode_decode`), so a string is determined by its
  length and its number (`eq_encode_iff`).
* `HoldsAt l p s` — the bytes `s` stand in `l` from offset `p` on. A record written field
  after field stands there when each field does, at its own offset (`holdsAt_append`); this
  one fact serves the writer, who knows the fields, and the reader, who knows the offsets.
-/

set_option autoImplicit false

namespace ByteLayout

/-! ## Numbers -/

/-- The last `n` bytes of `v`, most significant first. -/
def encode : Nat → Nat → List UInt8
  | 0, _ => []
  | n + 1, v => encode n (v / 256) ++ [UInt8.ofNat v]

/-- The number with the given bytes, most significant first. -/
def decode (l : List UInt8) : Nat := l.foldl (fun v x => 256 * v + x.toNat) 0

@[simp] theorem encode_zero (v : Nat) : encode 0 v = [] := rfl

theorem encode_succ (n v : Nat) :
    encode (n + 1) v = encode n (v / 256) ++ [UInt8.ofNat v] := rfl

@[simp] theorem length_encode (n v : Nat) : (encode n v).length = n := by
  induction n generalizing v with
  | zero => rfl
  | succ n ih => simp [encode_succ, ih]

@[simp] theorem decode_nil : decode [] = 0 := rfl

@[simp] theorem decode_concat (l : List UInt8) (x : UInt8) :
    decode (l ++ [x]) = 256 * decode l + x.toNat := by
  simp [decode, List.foldl_append]

theorem decode_encode (n v : Nat) : decode (encode n v) = v % 256 ^ n := by
  induction n generalizing v with
  | zero => simp [Nat.mod_one]
  | succ n ih =>
    have hbyte : (UInt8.ofNat v).toNat = v % 256 := UInt8.toNat_ofNat'
    rw [encode_succ, decode_concat, ih, hbyte, pow_succ', Nat.mod_mul, add_comm]

theorem encode_decode (l : List UInt8) : encode l.length (decode l) = l := by
  induction l using List.reverseRecOn with
  | nil => rfl
  | append_singleton l x ih =>
    have hdiv : (256 * decode l + x.toNat) / 256 = decode l := by
      have := x.toNat_lt
      omega
    have hbyte : UInt8.ofNat (256 * decode l + x.toNat) = x := by
      apply UInt8.toNat_inj.mp
      have := x.toNat_lt
      rw [UInt8.toNat_ofNat']
      omega
    rw [List.length_append, List.length_singleton, decode_concat, encode_succ, hdiv, hbyte, ih]

theorem decode_lt (l : List UInt8) : decode l < 256 ^ l.length := by
  have hself := decode_encode l.length (decode l)
  rw [encode_decode] at hself
  rw [hself]
  apply Nat.mod_lt
  positivity

/-- A string is a number's encoding when it has the length and the number. -/
theorem eq_encode_iff {l : List UInt8} {n v : Nat} (hv : v < 256 ^ n) :
    l = encode n v ↔ l.length = n ∧ decode l = v := by
  constructor
  · intro h
    rw [h, length_encode, decode_encode, Nat.mod_eq_of_lt hv]
    exact ⟨rfl, rfl⟩
  · intro h
    obtain ⟨hlen, hval⟩ := h
    rw [← hlen, ← hval, encode_decode]

/-- Disjoint bits: or is addition. -/
theorem or_eq_add {x y k : Nat} (hx : 2 ^ k ∣ x) (hy : y < 2 ^ k) : x ||| y = x + y := by
  obtain ⟨q, rfl⟩ := hx
  exact (Nat.two_pow_add_eq_or_of_lt hy q).symm

/-! ## Fields -/

/-- The bytes `s` stand in `l` from offset `p` on. -/
def HoldsAt (l : List UInt8) (p : Nat) (s : List UInt8) : Prop := s <+: l.drop p

@[simp] theorem holdsAt_nil (l : List UInt8) (p : Nat) : HoldsAt l p [] := List.nil_prefix

/-- **A record stands at `p` when its first field does, and the rest right after it.** -/
theorem holdsAt_append {l s s' : List UInt8} {p : Nat} :
    HoldsAt l p (s ++ s') ↔ HoldsAt l p s ∧ HoldsAt l (p + s.length) s' := by
  unfold HoldsAt
  constructor
  · intro h
    obtain ⟨r, hr⟩ := h
    refine ⟨⟨s' ++ r, by rw [← hr, List.append_assoc]⟩, r, ?_⟩
    rw [← List.drop_drop, ← hr, List.append_assoc, List.drop_left]
  · intro h
    obtain ⟨⟨r, hr⟩, r', hr'⟩ := h
    refine ⟨r', ?_⟩
    rw [← List.drop_drop, ← hr, List.drop_left] at hr'
    rw [List.append_assoc, hr', hr]

theorem holdsAt_cons {l s : List UInt8} {p : Nat} {x : UInt8} :
    HoldsAt l p (x :: s) ↔ l[p]? = some x ∧ HoldsAt l (p + 1) s := by
  have hhead : HoldsAt l p [x] ↔ l[p]? = some x := by
    unfold HoldsAt
    rw [← List.head?_drop]
    constructor
    · intro h
      obtain ⟨r, hr⟩ := h
      rw [← hr]
      rfl
    · intro h
      obtain ⟨r, hr⟩ := List.head?_eq_some_iff.mp h
      exact ⟨r, hr.symm⟩
  rw [← List.singleton_append, holdsAt_append, hhead, List.length_singleton]

/-- A number stands where a string with that number does. -/
theorem holdsAt_encode {l : List UInt8} {p n v : Nat} (hv : v < 256 ^ n) :
    HoldsAt l p (encode n v) ↔ ∃ s, s.length = n ∧ decode s = v ∧ HoldsAt l p s := by
  constructor
  · intro h
    exact ⟨encode n v, length_encode n v, by rw [decode_encode, Nat.mod_eq_of_lt hv], h⟩
  · intro h
    obtain ⟨s, hlen, hval, hs⟩ := h
    rwa [← (eq_encode_iff hv).mpr ⟨hlen, hval⟩]

theorem HoldsAt.take {l s : List UInt8} {p : Nat} (h : HoldsAt l p s) :
    (l.drop p).take s.length = s := (List.prefix_iff_eq_take.mp h).symm

theorem holdsAt_of_take {l : List UInt8} {p n : Nat} : HoldsAt l p ((l.drop p).take n) :=
  List.take_prefix n _

/-- What stands at offset 0 and is as long as the string is the string. -/
theorem HoldsAt.eq_of_length {l s : List UInt8} (h : HoldsAt l 0 s)
    (hlen : s.length = l.length) : s = l := List.IsPrefix.eq_of_length h hlen

/-- Only the bytes in front of `n` matter to a field that ends there. -/
theorem HoldsAt.eq_take {l s : List UInt8} (h : HoldsAt l 0 s) : l.take s.length = s := h.take

theorem holdsAt_self (l : List UInt8) : HoldsAt l 0 l := List.prefix_rfl

end ByteLayout
