import DtnHardware.Core.Contact
import DtnHardware.Lib.CString
import DtnHardware.Lib.Machine

/-!
# `contact_plan_load_json` — the reader of the plan file

There is no tokenizer. For each contact the loop looks for a quoted key with `strstr`, for the
colon behind it with `strchr`, and reads a string or a number there; every search begins where
the last read ended and may run to the end of the file. A cursor is a suffix of the buffer
(`CString`), `none` where the code holds `NULL`, and following that is the fault `null`.

One step of `planLoop` is one trip of the loop, from its `find_key` on. Nothing bounds the trips
in the source; `contactPlanLoadJson` makes as many as there are bytes in the buffer and one
more, and that is always enough (`planLoop_ends`).
-/

set_option autoImplicit false

namespace DtnHardware

open StepMachine CString

deriving instance DecidableEq for ContactPlan

/-- The bytes of a string literal. -/
def ascii (s : List Char) : List UInt8 := s.map Char.toUInt8

/-- `'"'` and `':'`. -/
def quoteChar : UInt8 := '"'.toUInt8

def colonChar : UInt8 := ':'.toUInt8

/-- `strtof`, which is the C library's: the value that a string begins with, and how many
    bytes of it that is; `none` where there is nothing to convert and `end == p`. The value is
    rational like every number of the plan, whichever one stands for `inf` or `nan`. -/
structure Strtof where
  read : List UInt8 → Option (ℚ × Nat)
  /-- `end` points behind what was converted, at most at the NUL -/
  inside : ∀ s v k, read s = some (v, k) → 0 < k ∧ k ≤ s.length
  /-- no number begins with a quote -/
  not_quote : ∀ s, read (quoteChar :: s) = none

/-! ## Reading -/

/-- `pat`, the key between quotes. -/
def keyPattern (key : List UInt8) : List UInt8 := quoteChar :: key ++ [quoteChar]

/-- `find_key`. -/
def findKey (p : Option (List UInt8)) (key : List UInt8) :
    Except Stray (Option (List UInt8)) := do
  strstr (keyPattern key) (← nonNull p)

def isSpace (x : UInt8) : Bool :=
  decide (x = ' '.toUInt8 ∨ x = '\t'.toUInt8 ∨ x = '\n'.toUInt8 ∨ x = '\r'.toUInt8)

/-- `skip_ws`; a NUL is no space. -/
def skipWs : List UInt8 → Except Stray (List UInt8)
  | [] => .error .outside
  | x :: p => if isSpace x then skipWs p else .ok (x :: p)

/-- The loop of `read_string_field`, with room for `n` more characters; `*p` is read before
    the room is checked. -/
def copyString : Nat → List UInt8 → Except Stray (List UInt8 × List UInt8)
  | _, [] => .error .outside
  | 0, x :: p => .ok ([], x :: p)
  | n + 1, x :: p =>
    if x ≠ 0 ∧ x ≠ quoteChar then do
      let (out, rest) ← copyString n p
      return (x :: out, rest)
    else .ok ([], x :: p)

/-- `*p`. -/
def deref : List UInt8 → Except Stray UInt8
  | [] => .error .outside
  | x :: _ => .ok x

/-- `read_string_field` with `cap` at least one: what it copies, and where it stops. -/
def readStringField (p : List UInt8) (cap : Nat) :
    Except Stray (Option (List UInt8 × List UInt8)) := do
  let p ← skipWs p
  if (← deref p) ≠ quoteChar then return none
  let (out, p) ← copyString (cap - 1) (p.drop 1)
  if (← deref p) = quoteChar then return some (out, p.drop 1)
  return some (out, p)

/-- `read_number`. -/
def readNumber (F : Strtof) (p : List UInt8) : Except Stray (Option (ℚ × List UInt8)) := do
  let p ← skipWs p
  let s ← string p
  return (F.read s).map fun r => (r.1, p.drop r.2)

/-- `(k = find_key(q, key)) && (colon = strchr(k, ':'))`. -/
def keyColon (q : Option (List UInt8)) (key : List UInt8) :
    Except Stray (Option (List UInt8)) := do
  match ← findKey q key with
  | none => return none
  | some k => strchr colonChar k

/-- One of the six statements that read a number: the variable's new value, and the cursor,
    which a number that cannot be read leaves `NULL`. -/
def numberField (F : Strtof) (key : List UInt8) (q : Option (List UInt8)) (out : ℚ) :
    Except Stray (ℚ × Option (List UInt8)) := do
  match ← keyColon q key with
  | none => return (out, q)
  | some colon =>
    match ← readNumber F (colon.drop 1) with
    | none => return (out, none)
    | some (v, stop) => return (v, some stop)

/-- `colon + 1`. -/
def behindColon (colon : Option (List UInt8)) : Except Stray (List UInt8) := do
  return (← nonNull colon).drop 1

/-! ### Case by case -/

@[simp] theorem deref_cons (x : UInt8) (p : List UInt8) : deref (x :: p) = .ok x := rfl

theorem readStringField_none {p r : List UInt8} {x : UInt8} (hskip : skipWs p = .ok (x :: r))
    (hx : x ≠ quoteChar) (cap : Nat) : readStringField p cap = .ok none := by
  simp [readStringField, hskip, hx, bind, Except.bind, pure, Except.pure]

theorem readStringField_some {p r out r' : List UInt8} {y : UInt8} (cap : Nat)
    (hskip : skipWs p = .ok (quoteChar :: r)) (hcopy : copyString (cap - 1) r = .ok (out, y :: r')) :
    readStringField p cap = .ok (some (out, if y = quoteChar then r' else y :: r')) := by
  by_cases hy : y = quoteChar <;>
    simp [readStringField, hskip, hcopy, hy, bind, Except.bind, pure, Except.pure]

theorem readNumber_eq (F : Strtof) {p p' s : List UInt8} (hskip : skipWs p = .ok p')
    (hs : string p' = .ok s) :
    readNumber F p = .ok ((F.read s).map fun r => (r.1, p'.drop r.2)) := by
  simp [readNumber, hskip, hs, bind, Except.bind, pure, Except.pure]

theorem keyColon_none {q : Option (List UInt8)} {key : List UInt8}
    (h : findKey q key = .ok none) : keyColon q key = .ok none := by
  simp [keyColon, h, bind, Except.bind, pure, Except.pure]

theorem keyColon_some {q : Option (List UInt8)} {key k : List UInt8}
    (h : findKey q key = .ok (some k)) : keyColon q key = strchr colonChar k := by
  simp [keyColon, h, bind, Except.bind]

section
variable {F : Strtof} {key : List UInt8} {q : Option (List UInt8)} {out : ℚ}

/-- Without the key, or without a colon behind it, nothing happens. -/
theorem numberField_absent (h : keyColon q key = .ok none) :
    numberField F key q out = .ok (out, q) := by
  simp [numberField, h, bind, Except.bind, pure, Except.pure]

theorem numberField_read {colon stop : List UInt8} {v : ℚ} (h : keyColon q key = .ok (some colon))
    (hread : readNumber F (colon.drop 1) = .ok (some (v, stop))) :
    numberField F key q out = .ok (v, some stop) := by
  simp only [numberField, h, hread, bind, Except.bind, pure, Except.pure]

/-- Behind a number that cannot be read the cursor is `NULL`. -/
theorem numberField_unread {colon : List UInt8} (h : keyColon q key = .ok (some colon))
    (hread : readNumber F (colon.drop 1) = .ok none) :
    numberField F key q out = .ok (out, none) := by
  simp only [numberField, h, hread, bind, Except.bind, pure, Except.pure]

end

/-! ## The loop -/

def frmKey : List UInt8 := ascii ['f', 'r', 'm']
def toKey : List UInt8 := ascii ['t', 'o']

/-- The six numeric keys, in the order in which they are read. -/
inductive NumKey where
  | tStart | tEnd | rate | owlt | conf | ber
deriving DecidableEq, Repr

def NumKey.name : NumKey → List UInt8
  | .tStart => ascii ['t', '_', 's', 't', 'a', 'r', 't']
  | .tEnd => ascii ['t', '_', 'e', 'n', 'd']
  | .rate => ascii ['r', 'a', 't', 'e']
  | .owlt => ascii ['o', 'w', 'l', 't']
  | .conf => ascii ['c', 'o', 'n', 'f']
  | .ber => ascii ['b', 'e', 'r']

/-- What the variables hold before the file is read: `conf` is one, the others are zero. -/
def NumKey.initial : NumKey → ℚ
  | .conf => 1
  | _ => 0

/-- Where the loop stands: the plan, `p`, and whether it has been left. -/
structure LoadState where
  cp : ContactPlan
  p : Option (List UInt8)
  returned : Bool

/-- `sizeof(frm_str)`. -/
def idBuf : Nat := 8

/-- The part of a trip behind the two node ids. -/
def loadNumbers (F : Strtof) (cp : ContactPlan) (frmStr toStr q : List UInt8) :
    Except Stray LoadState := do
  let (tStart, q) ← numberField F NumKey.tStart.name (some q) NumKey.tStart.initial
  let (tEnd, q) ← numberField F NumKey.tEnd.name q NumKey.tEnd.initial
  let (rate, q) ← numberField F NumKey.rate.name q NumKey.rate.initial
  let (owlt, q) ← numberField F NumKey.owlt.name q NumKey.owlt.initial
  let (conf, q) ← numberField F NumKey.conf.name q NumKey.conf.initial
  let (ber, q) ← numberField F NumKey.ber.name q NumKey.ber.initial
  let c := Contact.loaded (nodeIdFromStr frmStr) (nodeIdFromStr toStr) tStart tEnd rate owlt conf ber
  return ⟨contactPlanAdd cp c, q, false⟩

/-- One trip of the loop, from the `find_key` in its condition. -/
def loadStep (F : Strtof) (cp : ContactPlan) (p : Option (List UInt8)) :
    Except Stray LoadState := do
  match ← findKey p frmKey with
  | none => return ⟨cp, none, true⟩
  | some p =>
    match ← strchr colonChar p with
    | none => return ⟨cp, some p, true⟩
    | some colon =>
      match ← readStringField (colon.drop 1) idBuf with
      | none => return ⟨cp, some (p.drop 4), false⟩
      | some (frmStr, q) =>
        match ← findKey (some q) toKey with
        | none => return ⟨cp, some p, true⟩
        | some kTo =>
          let colon ← strchr colonChar kTo
          -- not checked for `NULL`
          match ← readStringField (← behindColon colon) idBuf with
          | none => return ⟨cp, some (kTo.drop 3), false⟩
          | some (toStr, q) => loadNumbers F cp frmStr toStr q

def planLoop (F : Strtof) : Machine Stray LoadState where
  step s := loadStep F s.cp s.p
  done s := s.returned

/-- `sizeof(buf)`. -/
def planBufSize : Nat := 8192

/-- `buf` after `fread`, up to the NUL behind it. -/
def planBuf (file : List UInt8) : List UInt8 := file.take (planBufSize - 1) ++ [0]

def loadStart (file : List UInt8) : LoadState := ⟨ContactPlan.empty, some (planBuf file), false⟩

/-- `contact_plan_load_json`: the value returned, and the plan; `json` is `none` where the file
    cannot be opened, and the result is `none` where the loop is still running. -/
def contactPlanLoadJson (F : Strtof) (json : Option (List UInt8)) :
    Except Stray (Option (Int × ContactPlan)) := do
  match json with
  | none => return some (-1, ContactPlan.empty)
  | some file =>
    let s ← (planLoop F).run (planBufSize + 1) (loadStart file)
    return if s.returned then some (s.cp.contacts.length, s.cp) else none

/-! ### A trip, part by part -/

def NumKey.all : List NumKey := [.tStart, .tEnd, .rate, .owlt, .conf, .ber]

/-- The statements for the keys `ks`, one after the other. -/
def numberFields (F : Strtof) : List NumKey → Option (List UInt8) → (NumKey → ℚ) →
    Except Stray ((NumKey → ℚ) × Option (List UInt8))
  | [], q, vals => .ok (vals, q)
  | k :: ks, q, vals => do
    let (v, q) ← numberField F k.name q k.initial
    numberFields F ks q (Function.update vals k v)

/-- The contact that is added. -/
def loadedContact (frmStr toStr : List UInt8) (vals : NumKey → ℚ) : Contact :=
  Contact.loaded (nodeIdFromStr frmStr) (nodeIdFromStr toStr) (vals .tStart) (vals .tEnd)
    (vals .rate) (vals .owlt) (vals .conf) (vals .ber)

theorem loadNumbers_eq (F : Strtof) (cp : ContactPlan) (frmStr toStr q : List UInt8) :
    loadNumbers F cp frmStr toStr q =
      (numberFields F NumKey.all (some q) NumKey.initial).map fun r =>
        ⟨contactPlanAdd cp (loadedContact frmStr toStr r.1), r.2, false⟩ := by
  simp only [loadNumbers, numberFields, NumKey.all, loadedContact, bind, Except.bind, pure,
    Except.pure]
  -- the statements are the same, so whichever fails first fails on both sides
  repeat' split
  all_goals simp_all [Except.map, Function.update]

/-- The first `"to"` behind the sender of the next contact. -/
def ToKeyAt (p frmStr kTo : List UInt8) : Prop :=
  ∃ hit colon q, findKey (some p) frmKey = .ok (some hit) ∧
    strchr colonChar hit = .ok (some colon) ∧
    readStringField (colon.drop 1) idBuf = .ok (some (frmStr, q)) ∧
    findKey (some q) toKey = .ok (some kTo)

/-- The next contact's two node ids are read, up to `q`. -/
def IdsAt (p frmStr toStr q : List UInt8) : Prop :=
  ∃ kTo colon, ToKeyAt p frmStr kTo ∧ strchr colonChar kTo = .ok (some colon) ∧
    readStringField (colon.drop 1) idBuf = .ok (some (toStr, q))

section
variable {F : Strtof} {cp : ContactPlan} {p frmStr toStr kTo q : List UInt8}

theorem loadStep_done (h : findKey (some p) frmKey = .ok none) :
    loadStep F cp (some p) = .ok ⟨cp, none, true⟩ := by
  simp only [loadStep, h, bind, Except.bind, pure, Except.pure]

/-- `colon + 1` without a colon. -/
theorem loadStep_noColon (h : ToKeyAt p frmStr kTo) (hcolon : strchr colonChar kTo = .ok none) :
    loadStep F cp (some p) = .error .null := by
  obtain ⟨hit, colon, q, hfrm, hchr, hread, hto⟩ := h
  simp only [loadStep, hfrm, hchr, hread, hto, hcolon, behindColon, nonNull, bind, Except.bind]

theorem loadStep_ids (h : IdsAt p frmStr toStr q) :
    loadStep F cp (some p) = loadNumbers F cp frmStr toStr q := by
  obtain ⟨kTo, colon', ⟨hit, colon, q', hfrm, hchr, hread, hto⟩, hchr', hread'⟩ := h
  simp only [loadStep, hfrm, hchr, hread, hto, hchr', behindColon, nonNull, hread', bind,
    Except.bind, pure, Except.pure]

end

end DtnHardware
