import PriceOracle.Dict
import PriceOracle.Oracle

/-!
# Locks

One lock per oracle keeps its cycles and the management calls apart. The table hands out a `Slot`
per oracle, made when it is first asked for. A slot that was forgotten goes on to exist for whoever
has it; the next one to ask gets a new one.
-/

namespace PriceOracle

/-- The identity of a lock. -/
abbrev Slot := Nat

/-- The locks: the slot of each oracle, the slots held, and the next free identity. -/
structure LockTable where
  slots : Dict OracleId Slot
  held : List Slot
  next : Slot

namespace LockTable

/-- No locks. -/
def empty : LockTable := ⟨[], [], 0⟩

/-- The slot of an oracle, made where there is none. -/
def slot (t : LockTable) (id : OracleId) : Slot × LockTable :=
  match t.slots.get? id with
  | some s => (s, t)
  | none => (t.next, { t with slots := t.slots.set id t.next, next := t.next + 1 })

/-- Whether a slot is free. -/
def isFree (t : LockTable) (s : Slot) : Bool := !t.held.contains s

/-- Takes a slot if it is free. -/
def tryTake (t : LockTable) (s : Slot) : Bool × LockTable :=
  if t.isFree s then (true, { t with held := s :: t.held }) else (false, t)

/-- Gives a slot back. -/
def release (t : LockTable) (s : Slot) : LockTable := { t with held := t.held.erase s }

/-- Drops the slot of an oracle. -/
def forget (t : LockTable) (id : OracleId) : LockTable := { t with slots := t.slots.unset id }

end LockTable

end PriceOracle
