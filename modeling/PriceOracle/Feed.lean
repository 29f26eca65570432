import PriceOracle.Program
import PriceOracle.Oracle
import PriceOracle.Feed.Error

/-!
# Price feeds

The interface to the contract that a destination names: reading rounds, sending updates, and
asking what became of a transaction.
-/

namespace PriceOracle.Feed

/-- What a feed can be asked for. -/
inductive Request where
  /-- The latest round; an empty feed reports round zero. -/
  | latestRound (destination : Destination)
  /-- A round by its number; none where the feed has no such round. -/
  | roundData (destination : Destination) (round : RoundId)
  /-- Sends an answer; the hash is that of the transaction that the node took. -/
  | submit (destination : Destination) (answer : Uint256)
  /-- The receipt of a mined transaction; none while it is not mined. -/
  | receipt (destination : Destination) (hash : TxHash)
  /-- Whether the node still knows a transaction, mined or not. -/
  | isKnown (destination : Destination) (hash : TxHash)
  /-- Waits until a transaction lies under a number of blocks. -/
  | confirmation (destination : Destination) (hash : TxHash) (depth : UInt64)

/-- The answer to each request. -/
def Request.Reply : Request → Type
  | latestRound _ => Except PublishError FeedRound
  | roundData _ _ => Except PublishError (Option FeedRound)
  | submit _ _ => Except PublishError TxHash
  | receipt _ _ => Except PublishError (Option Receipt)
  | isKnown _ _ => Except PublishError Bool
  | confirmation _ _ _ => Except PublishError Receipt

/-- The destination that a request goes to. -/
def Request.destination : Request → Destination
  | latestRound d | roundData d _ | submit d _ | receipt d _ | isKnown d _ | confirmation d _ _ => d

/-- The interface to feeds. -/
def interface : Interface := ⟨Request, Request.Reply⟩

/-- A use of feeds that may fail. -/
abbrev Use (α : Type) := Attempt interface PublishError α

def latestRound (d : Destination) : Use FeedRound :=
  ExceptT.mk (Program.request (I := interface) (.latestRound d))

def roundData (d : Destination) (round : RoundId) : Use (Option FeedRound) :=
  ExceptT.mk (Program.request (I := interface) (.roundData d round))

def submit (d : Destination) (answer : Uint256) : Use TxHash :=
  ExceptT.mk (Program.request (I := interface) (.submit d answer))

def receipt (d : Destination) (hash : TxHash) : Use (Option Receipt) :=
  ExceptT.mk (Program.request (I := interface) (.receipt d hash))

def isKnown (d : Destination) (hash : TxHash) : Use Bool :=
  ExceptT.mk (Program.request (I := interface) (.isKnown d hash))

def confirmation (d : Destination) (hash : TxHash) (depth : UInt64) : Use Receipt :=
  ExceptT.mk (Program.request (I := interface) (.confirmation d hash depth))

end PriceOracle.Feed
