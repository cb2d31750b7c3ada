import NamespaceTopology.Store.Basic

set_option autoImplicit false

/-!
A remote service that is fed from outside: what its watch reads, how many signals wait, and whether it
can be reached at all. Everybody who follows it shares one watch.
-/
namespace NamespaceTopology

/-- Whether the service can be reached and lets itself be watched. -/
inductive Access where
  | works
  | unreachable
  | watchRefused
deriving DecidableEq, Repr

structure Feed where
  access : Access
  content : Option Value
  /-- How many signals wait. -/
  signals : Nat
  /-- Whether no more signals will come. -/
  ended : Bool
  closed : Bool
  watched : List String
  reads : Nat
  closes : Nat
deriving DecidableEq

namespace Feed

def start : Feed := ⟨.works, none, 0, false, false, [], 0, 0⟩

/-- New content, announced by some signals. -/
def push (content : Option Value) (signals : Nat) (f : Feed) : Feed :=
  { f with content, signals := f.signals + signals }

def watch (key : String) (f : Feed) : Except StoreError Feed :=
  match f.access with
  | .unreachable => .error (.unavailable "connection refused")
  | .watchRefused => .error (.watchFailed key "permission denied")
  | .works => .ok { f with watched := f.watched ++ [key] }

def peek (f : Feed) : Signal :=
  if f.closed then .ended
  else if 0 < f.signals then .changed
  else if f.ended then .ended
  else .waiting

/-- Looks for a signal and takes it. -/
def look (f : Feed) : Feed × Signal :=
  match f.peek with
  | .changed => ({ f with signals := f.signals - 1 }, .changed)
  | signal => (f, signal)

def close (f : Feed) : Feed := { f with closed := true, closes := f.closes + 1 }

end Feed

end NamespaceTopology
