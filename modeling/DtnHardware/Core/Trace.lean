import DtnHardware.Core.Types

/-!
# `dtn_core/trace` — what a node reports

A node's trace is the list of its calls of `tracer_emit`, oldest first. A record keeps the format
string with its arguments; what the sink gets of them is the text that `vsnprintf` makes, as much
of it as there is room for (`TraceRecord.detail`). The engine never reads it back.
-/

set_option autoImplicit false

namespace DtnHardware

/-- `trace_event_t`. -/
inductive TraceEvent where
  | bundleGenerated | bundleQueued | bundleRouting | bundleTxStart | bundleTxComplete
  | bundleArrived | custodyAccepted | custodyReleased | custodyTimeout | bundleDelivered
  | bundleExpired | bundleDropped | contactOpen | contactClose | disruption
deriving DecidableEq, Repr

/-- An argument of a detail format. -/
inductive TraceArg where
  /-- `%u` -/
  | u (n : Nat)
  /-- `%s`, `%.*s` -/
  | s (bytes : List UInt8)
  /-- `%.1f` -/
  | f (x : Flt)
deriving DecidableEq

/-- `trace_record_t`. -/
structure TraceRecord where
  t : Flt
  node : NodeId
  event : TraceEvent
  bundleId : UInt64
  fmt : String
  args : List TraceArg
deriving DecidableEq

/-! ## The text -/

/-- What a conversion prints; `float` is the C library's `%.1f`. -/
def TraceArg.text (float : Flt → List UInt8) : TraceArg → List UInt8
  | u n => (Nat.toDigits 10 n).map Char.toUInt8
  | s bytes => bytes.takeWhile (· ≠ 0)
  | f x => float x

/-- A format, from inside a conversion or from outside one. The conversions that there are end at
    their letter, and each takes an argument. -/
def renderFmt (float : Flt → List UInt8) : Bool → List Char → List TraceArg → List UInt8
  | _, [], _ => []
  | false, c :: fmt, args =>
    if c = '%' then renderFmt float true fmt args else c.toUInt8 :: renderFmt float false fmt args
  | true, c :: fmt, args =>
    if c = 'u' ∨ c = 's' ∨ c = 'f' then
      (args.head?.map (TraceArg.text float)).getD [] ++ renderFmt float false fmt args.tail
    else renderFmt float true fmt args

/-- `char detail[64]`. -/
def traceDetailSize : Nat := 64

/-- `detail`, up to its NUL. -/
def TraceRecord.detail (float : Flt → List UInt8) (r : TraceRecord) : List UInt8 :=
  (renderFmt float false r.fmt.toList r.args).take (traceDetailSize - 1)

end DtnHardware
