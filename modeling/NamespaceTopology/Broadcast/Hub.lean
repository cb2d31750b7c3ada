import NamespaceTopology.Error

set_option autoImplicit false

/-!
A hub passes the latest of a series of values to any number of subscriptions. Each subscription has a
slot of its own for one value: a newer value takes the place of one that still waits there, so a slow
consumer skips to the latest and never holds up the hub or another consumer.
-/
namespace NamespaceTopology

/-- What a consumer meets that asks for the next value. -/
inductive Delivery (α : Type) where
  | value (a : α)
  | ended
  | waiting
deriving DecidableEq

inductive Slot (α : Type) where
  | empty
  | unseen (a : α)
  | seen (a : α)
deriving DecidableEq

namespace Slot

variable {α : Type}

def held : Slot α → Option α
  | .empty => none
  | .unseen a => some a
  | .seen a => some a

def isUnseen : Slot α → Bool
  | .unseen _ => true
  | _ => false

/-- The slot of a subscription that starts while `latest` is current. -/
def ofLatest : Option α → Slot α
  | none => .empty
  | some a => .unseen a

theorem held_ofLatest (latest : Option α) : (ofLatest latest).held = latest := by
  cases latest <;> rfl

end Slot

structure Subscription (α : Type) where
  id : Nat
  slot : Slot α
deriving DecidableEq

structure Hub (α : Type) where
  closed : Bool
  latest : Option α
  nextId : Nat
  /-- The subscriptions that get what is published. -/
  registered : List Nat
  /-- The subscriptions that somebody has. -/
  subscriptions : List (Subscription α)
deriving DecidableEq

namespace Hub

variable {α : Type}

def start (latest : Option α) : Hub α := ⟨false, latest, 1, [], []⟩

def find? (h : Hub α) (id : Nat) : Option (Subscription α) :=
  h.subscriptions.find? fun s => s.id = id

def setSlot (id : Nat) (slot : Slot α) (h : Hub α) : Hub α :=
  { h with subscriptions := h.subscriptions.map fun s => if s.id = id then { s with slot } else s }

/-- Publishes a value to every registered subscription, now and later. -/
def update (a : α) (h : Hub α) : Except Error (Hub α) :=
  if h.closed then .error .hubClosed
  else .ok { h with
    latest := some a
    subscriptions := h.subscriptions.map fun s =>
      if s.id ∈ h.registered then { s with slot := .unseen a } else s }

/-- Starts a subscription, which gets the current value first, and tells its number. -/
def subscribe (h : Hub α) : Except Error (Hub α × Nat) :=
  if h.closed then .error .hubClosed
  else .ok ({ h with
    nextId := h.nextId + 1
    registered := h.registered ++ [h.nextId]
    subscriptions := h.subscriptions ++ [⟨h.nextId, .ofLatest h.latest⟩] }, h.nextId)

/-- Ends every subscription once it has delivered what waits, and refuses all further use. -/
def close (h : Hub α) : Except Error (Hub α) :=
  if h.closed then .error .hubClosed else .ok { h with closed := true, registered := [] }

/-- What the subscription with a number meets. It waits for as long as it is registered. -/
def peek (id : Nat) (h : Hub α) : Delivery α :=
  match (h.find? id).map Subscription.slot with
  | some (.unseen a) => .value a
  | _ => if id ∈ h.registered then .waiting else .ended

/-- Asks for the next value. A value is delivered once. -/
def next (id : Nat) (h : Hub α) : Hub α × Delivery α :=
  match h.peek id with
  | .value a => (h.setSlot id (.seen a), .value a)
  | d => (h, d)

/-- The value that a subscription got last, delivered or not. -/
def get (id : Nat) (h : Hub α) : Option α := (h.find? id).bind fun s => s.slot.held

/-- Whether a value waits for the subscription while the hub is open. -/
def hasPending (id : Nat) (h : Hub α) : Bool :=
  id ∈ h.registered && (h.find? id).any fun s => s.slot.isUnseen

def drop (id : Nat) (h : Hub α) : Hub α :=
  { h with
    registered := h.registered.filter fun i => i ≠ id
    subscriptions := h.subscriptions.filter fun s => s.id ≠ id }

def subscriberCount (h : Hub α) : Nat := h.registered.length

theorem update_eq_error_iff (a : α) (h : Hub α) :
    h.update a = .error .hubClosed ↔ h.closed = true := by
  unfold update; split <;> simp_all

theorem subscribe_eq_error_iff (h : Hub α) : h.subscribe = .error .hubClosed ↔ h.closed = true := by
  unfold subscribe; split <;> simp_all

theorem close_eq_error_iff (h : Hub α) : h.close = .error .hubClosed ↔ h.closed = true := by
  unfold close; split <;> simp_all

theorem next_snd (id : Nat) (h : Hub α) : (h.next id).2 = h.peek id := by
  unfold next; split <;> simp_all

end Hub

end NamespaceTopology
