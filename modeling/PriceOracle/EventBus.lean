import PriceOracle.Event

/-!
# The event bus

Events go to every reader that is subscribed at the time. The bus keeps as many events as its
capacity, a power of two; a reader that falls behind is told once how many it missed and goes on
with the oldest event that is kept. Events that nobody is subscribed for are dropped.
-/

namespace PriceOracle

/-- A bus: the events that are kept, oldest first, the number sent so far, and the place of each
reader, none when it is gone. -/
structure EventBus where
  capacity : Nat
  kept : List Event
  sent : Nat
  readers : List (Option Nat)

namespace EventBus

/-- What a reader receives. -/
inductive Receipt where
  | event (e : Event)
  | nothing
  | lagged (missed : Nat)
  | closed

/-- The least power of two that is at least `n`. -/
def roundUp (n : Nat) : Nat := if n ≤ 1 then 1 else 2 ^ ((n - 1).log2 + 1)

/-- A bus that keeps at least a number of events. -/
def ofCapacity (n : Nat) : EventBus := ⟨roundUp n, [], 0, []⟩

/-- The capacity of a bus unless given. -/
def defaultCapacity : Nat := 1000

/-- Adds a reader of all later events; gives its index. -/
def subscribe (b : EventBus) : Nat × EventBus :=
  (b.readers.length, { b with readers := b.readers ++ [some b.sent] })

/-- Takes a reader out; tells whether it was there. -/
def unsubscribe (b : EventBus) (reader : Nat) : Bool × EventBus :=
  ((b.readers[reader]?.bind id).isSome, { b with readers := b.readers.set reader none })

/-- Whether anybody is subscribed. -/
def hasReader (b : EventBus) : Bool := b.readers.any Option.isSome

/-- Sends an event; tells whether anybody is subscribed for it. -/
def publish (b : EventBus) (e : Event) : Bool × EventBus :=
  if b.hasReader then
    let kept := b.kept ++ [e]
    (true, { b with kept := kept.drop (kept.length - b.capacity), sent := b.sent + 1 })
  else (false, b)

/-- The number of the oldest event that is kept. -/
def oldest (b : EventBus) : Nat := b.sent - b.kept.length

/-- Moves a reader to a place. -/
def move (b : EventBus) (reader place : Nat) : EventBus :=
  { b with readers := b.readers.set reader (some place) }

/-- The next event of a reader, without waiting. -/
def receive (b : EventBus) (reader : Nat) : Receipt × EventBus :=
  match b.readers[reader]?.bind id with
  | none => (.closed, b)
  | some place =>
    if place < b.oldest then (.lagged (b.oldest - place), b.move reader b.oldest)
    else match b.kept[place - b.oldest]? with
      | some e => (.event e, b.move reader (place + 1))
      | none => (.nothing, b)

end EventBus

end PriceOracle
