import NamespaceTopology.Span

set_option autoImplicit false

/-!
The options of a namespace and the rules they must keep. `fault?` gives the first rule that is
broken, in a fixed order.
-/
namespace NamespaceTopology

structure Retention where
  period : Span
  blockSize : Span
  bufferFuture : Span
  bufferPast : Span
  /-- Whether data that nobody reads expires early. -/
  expiry : Bool
  /-- After how long without access it does. -/
  expiryAfter : Span
deriving DecidableEq, Repr

structure Index where
  enabled : Bool
  blockSize : Span
deriving DecidableEq, Repr

structure Options where
  bootstrap : Bool
  flush : Bool
  commitLog : Bool
  cleanup : Bool
  repair : Bool
  snapshot : Bool
  coldWrites : Bool
  retention : Retention
  index : Index
deriving DecidableEq, Repr

/-- Two days in blocks of two hours, with ten minutes on either side. -/
def Retention.default : Retention where
  period := .ofSeconds (2 * 24 * 3600)
  blockSize := .ofSeconds (2 * 3600)
  bufferFuture := .ofSeconds (10 * 60)
  bufferPast := .ofSeconds (10 * 60)
  expiry := true
  expiryAfter := .ofSeconds (5 * 60)

def Index.default : Index where
  enabled := false
  blockSize := .ofSeconds (2 * 3600)

def Options.default : Options where
  bootstrap := true
  flush := true
  commitLog := true
  cleanup := true
  repair := false
  snapshot := true
  coldWrites := false
  retention := .default
  index := .default

inductive OptionsFault where
  | noRetention
  | noBlockSize
  | futureTooLong (buffer block : Span)
  | pastTooLong (buffer block : Span)
  | retentionTooShort (period block : Span)
  | noIndexBlockSize
  | unevenIndexBlock (index block : Span)
  /-- A document states a negative length of time. -/
  | negative (field : String) (nanos : Int64)
deriving DecidableEq, Repr

def OptionsFault.message : OptionsFault → String
  | .noRetention => "retention period must be positive"
  | .noBlockSize => "block size must be positive"
  | .futureTooLong buffer block =>
    "buffer future " ++ buffer.text ++ " must be smaller than block size " ++ block.text
  | .pastTooLong buffer block =>
    "buffer past " ++ buffer.text ++ " must be smaller than block size " ++ block.text
  | .retentionTooShort period block =>
    "retention period " ++ period.text ++ " must not be shorter than block size " ++ block.text
  | .noIndexBlockSize => "index block size must be positive"
  | .unevenIndexBlock index block =>
    "index block size " ++ index.text ++ " must be a multiple of data block size " ++ block.text
  | .negative field nanos => field ++ " must be non-negative, got " ++ toString nanos.toInt ++ "ns"

def Retention.fault? (r : Retention) : Option OptionsFault :=
  if r.period.nanos = 0 then some .noRetention
  else if r.blockSize.nanos = 0 then some .noBlockSize
  else if r.blockSize.nanos ≤ r.bufferFuture.nanos then
    some (.futureTooLong r.bufferFuture r.blockSize)
  else if r.blockSize.nanos ≤ r.bufferPast.nanos then some (.pastTooLong r.bufferPast r.blockSize)
  else if r.period.nanos < r.blockSize.nanos then some (.retentionTooShort r.period r.blockSize)
  else none

/-- The rule that an index breaks beside data in blocks of size `block`. A disabled index breaks
none. -/
def Index.fault? (x : Index) (block : Span) : Option OptionsFault :=
  if x.enabled = false then none
  else if x.blockSize.nanos = 0 then some .noIndexBlockSize
  else if x.blockSize.nanos % block.nanos ≠ 0 then some (.unevenIndexBlock x.blockSize block)
  else none

def Options.fault? (o : Options) : Option OptionsFault :=
  o.retention.fault?.or (o.index.fault? o.retention.blockSize)

theorem Retention.fault?_eq_none_iff (r : Retention) :
    r.fault? = none ↔ 0 < r.blockSize.nanos ∧ r.blockSize.nanos ≤ r.period.nanos ∧
      r.bufferFuture.nanos < r.blockSize.nanos ∧ r.bufferPast.nanos < r.blockSize.nanos := by
  unfold Retention.fault?
  repeat' split
  all_goals simp only [reduceCtorEq, false_iff, true_iff]; omega

theorem Index.fault?_eq_none_iff (x : Index) (block : Span) :
    x.fault? block = none ↔
      (x.enabled = true → 0 < x.blockSize.nanos ∧ x.blockSize.nanos % block.nanos = 0) := by
  unfold Index.fault?
  cases x.enabled <;> simp only [Bool.true_eq_false, if_true, if_false, true_implies,
    Bool.false_eq_true, false_implies]
  repeat' split
  all_goals simp only [reduceCtorEq, false_iff, true_iff]; omega

theorem Options.fault?_eq_none_iff (o : Options) :
    o.fault? = none ↔ o.retention.fault? = none ∧ o.index.fault? o.retention.blockSize = none := by
  simp [Options.fault?]

end NamespaceTopology
