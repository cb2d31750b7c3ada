import NamespaceTopology.Wire.Varint

set_option autoImplicit false

/-!
The fields of a message: a number and a payload each. Reading splits the bytes of a message into its
fields without knowing what they mean; groups are read over, to a limited depth. The numbers for
which `embedded` holds are read as counted bytes, whatever kind of payload they announce.
-/
namespace NamespaceTopology.Wire

inductive Payload where
  | number (n : Nat)
  /-- Four or eight bytes. -/
  | fixed (bytes : List UInt8)
  | counted (bytes : List UInt8)
  | group
deriving DecidableEq

structure Field where
  number : Nat
  payload : Payload
deriving DecidableEq

/-- How the bytes after a key are to be read. -/
inductive Kind where
  | number
  | fixed (size : Nat)
  | counted
  | groupStart
  | groupEnd
deriving DecidableEq

/-- How many groups may stand inside one another. -/
def groupLimit : Nat := 100

def Kind.ofCode? : Nat → Option Kind
  | 0 => some .number
  | 1 => some (.fixed 8)
  | 2 => some .counted
  | 3 => some .groupStart
  | 4 => some .groupEnd
  | 5 => some (.fixed 4)
  | _ => none

def Kind.code : Kind → Nat
  | .number => 0
  | .fixed size => if size = 8 then 1 else 5
  | .counted => 2
  | .groupStart => 3
  | .groupEnd => 4

/-- The key before a field: its number and kind. Keys have 32 bits and numbers start at one. -/
def readKey (bytes : List UInt8) : Option ((Nat × Kind) × List UInt8) := do
  let (key, rest) ← readVarint bytes
  if 4294967296 ≤ key ∨ key / 8 = 0 then none
  else do
    let kind ← Kind.ofCode? (key % 8)
    some ((key / 8, kind), rest)

def writeKey (number : Nat) (kind : Kind) : List UInt8 := writeVarint (number * 8 + kind.code)

def takeBytes (n : Nat) (bytes : List UInt8) : Option (List UInt8 × List UInt8) :=
  if n ≤ bytes.length then some (bytes.take n, bytes.drop n) else none

/-- Bytes with their count before them. -/
def readCounted (bytes : List UInt8) : Option (List UInt8 × List UInt8) := do
  let (n, rest) ← readVarint bytes
  takeBytes n rest

theorem readKey_shorter {bytes rest : List UInt8} {key : Nat × Kind}
    (h : readKey bytes = some (key, rest)) : rest.length < bytes.length := by
  simp only [readKey, Option.bind_eq_bind, Option.bind_eq_some_iff] at h
  obtain ⟨⟨n, r⟩, hn, h⟩ := h
  split at h
  · cases h
  · obtain ⟨kind, _, h⟩ := Option.bind_eq_some_iff.mp h
    cases h
    exact readVarint_shorter hn

theorem takeBytes_le {n : Nat} {bytes taken rest : List UInt8}
    (h : takeBytes n bytes = some (taken, rest)) : rest.length ≤ bytes.length := by
  unfold takeBytes at h
  split at h
  · cases h; simp
  · cases h

theorem readCounted_shorter {bytes taken rest : List UInt8}
    (h : readCounted bytes = some (taken, rest)) : rest.length < bytes.length := by
  simp only [readCounted, Option.bind_eq_bind, Option.bind_eq_some_iff] at h
  obtain ⟨⟨n, r⟩, hn, h⟩ := h
  exact Nat.lt_of_le_of_lt (takeBytes_le h) (readVarint_shorter hn)

/-- The bytes after the groups whose numbers are in `pending`, the innermost first, have all been
closed. Every field inside a group must be whole, and inside at most `depth` groups. -/
def closeGroups (depth : Nat) (pending : List Nat) (bytes : List UInt8) : Option (List UInt8) :=
  match pending with
  | [] => some bytes
  | innermost :: outer =>
    match hkey : readKey bytes with
    | none => none
    | some ((number, kind), rest) =>
      have := readKey_shorter hkey
      match kind with
      | .groupEnd => if number = innermost then closeGroups depth outer rest else none
      | .groupStart =>
        if depth ≤ pending.length then none else closeGroups depth (number :: pending) rest
      | .number =>
        if depth ≤ pending.length then none
        else match hnumber : readVarint rest with
          | none => none
          | some (_, after) =>
            have := readVarint_shorter hnumber
            closeGroups depth pending after
      | .fixed size =>
        if depth ≤ pending.length then none
        else match hfixed : takeBytes size rest with
          | none => none
          | some (_, after) =>
            have := takeBytes_le hfixed
            closeGroups depth pending after
      | .counted =>
        if depth ≤ pending.length then none
        else match hcounted : readCounted rest with
          | none => none
          | some (_, after) =>
            have := readCounted_shorter hcounted
            closeGroups depth pending after
termination_by bytes.length

theorem closeGroups_le {depth : Nat} {pending : List Nat} {bytes after : List UInt8}
    (h : closeGroups depth pending bytes = some after) : after.length ≤ bytes.length := by
  fun_induction closeGroups depth pending bytes with
  | case1 => cases h; exact Nat.le_refl _
  | _ => grind

/-- What stands after a key. -/
def readPayload (depth number : Nat) (kind : Kind) (bytes : List UInt8) :
    Option (Payload × List UInt8) :=
  match kind with
  | .number => (readVarint bytes).map fun (n, rest) => (.number n, rest)
  | .fixed size => (takeBytes size bytes).map fun (taken, rest) => (.fixed taken, rest)
  | .counted => (readCounted bytes).map fun (taken, rest) => (.counted taken, rest)
  | .groupStart => (closeGroups depth [number] bytes).map fun rest => (.group, rest)
  | .groupEnd => none

theorem readPayload_le {depth number : Nat} {kind : Kind} {bytes rest : List UInt8}
    {payload : Payload} (h : readPayload depth number kind bytes = some (payload, rest)) :
    rest.length ≤ bytes.length := by
  cases kind with
  | number =>
    obtain ⟨⟨n, r⟩, hn, h⟩ := Option.map_eq_some_iff.mp h
    cases h
    exact Nat.le_of_lt (readVarint_shorter hn)
  | fixed size =>
    obtain ⟨⟨n, r⟩, hn, h⟩ := Option.map_eq_some_iff.mp h
    cases h
    exact takeBytes_le hn
  | counted =>
    obtain ⟨⟨n, r⟩, hn, h⟩ := Option.map_eq_some_iff.mp h
    cases h
    exact Nat.le_of_lt (readCounted_shorter hn)
  | groupStart =>
    obtain ⟨r, hr, h⟩ := Option.map_eq_some_iff.mp h
    cases h
    exact closeGroups_le hr
  | groupEnd => cases h

/-- The field at the head of the bytes, and the bytes after it. -/
def readField (embedded : Nat → Bool) (depth : Nat) (bytes : List UInt8) :
    Option (Field × List UInt8) :=
  match readKey bytes with
  | none => none
  | some ((number, kind), rest) =>
    (readPayload depth number (if embedded number then .counted else kind) rest).map
      fun (payload, after) => (⟨number, payload⟩, after)

theorem readField_shorter {embedded : Nat → Bool} {depth : Nat} {bytes rest : List UInt8}
    {field : Field} (h : readField embedded depth bytes = some (field, rest)) :
    rest.length < bytes.length := by
  unfold readField at h
  split at h
  · cases h
  next hkey =>
    obtain ⟨⟨payload, r⟩, hr, h⟩ := Option.map_eq_some_iff.mp h
    cases h
    exact Nat.lt_of_le_of_lt (readPayload_le hr) (readKey_shorter hkey)

def readFields (embedded : Nat → Bool) (depth : Nat) (bytes : List UInt8) : Option (List Field) :=
  match bytes with
  | [] => some []
  | b :: bs =>
    match hfield : readField embedded depth (b :: bs) with
    | none => none
    | some (field, rest) =>
      have := readField_shorter hfield
      (readFields embedded depth rest).map (field :: ·)
termination_by bytes.length
decreasing_by exact this

def writeNumber (number n : Nat) : List UInt8 := writeKey number .number ++ writeVarint n

def writeCounted (number : Nat) (bytes : List UInt8) : List UInt8 :=
  writeKey number .counted ++ (writeVarint bytes.length ++ bytes)

end NamespaceTopology.Wire
