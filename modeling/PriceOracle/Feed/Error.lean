import PriceOracle.Round

/-!
# Failed publications

Why a round is not published. Some failures may go away when the same round is tried again; all
others stop the oracle until an operator looks at it.

`PublishError.classify` sorts the message of a node by the words in it.
-/

namespace PriceOracle

/-- Why a round is not published. -/
inductive PublishError where
  /-- The feed is not at the round before the one to be written. -/
  | roundConflict (expected actual : RoundId)
  | unauthorized (reason : String)
  | invalidDestination (reason : String)
  | reverted (reason : String)
  | valueOutOfRange (reason : String)
  | network (reason : String)
  | timeout (reason : String)
  /-- Trouble with nonce, fee or queue that another submission may clear. -/
  | transient (reason : String)
  /-- A transaction was sent and its outcome is not known yet. -/
  | unconfirmed (txHash reason : String)
  /-- A number that is needed takes more than 64 bits. Whatever publishes breaks off at once, and
  nothing is made of the failure. -/
  | overflow
  deriving DecidableEq

namespace PublishError

/-- The wording of a failed publication. -/
def message : PublishError → String
  | roundConflict expected actual =>
    s!"Round conflict: expected next round {expected}, feed is at {actual}"
  | unauthorized reason => s!"Publisher is not authorized: {reason}"
  | invalidDestination reason => s!"Invalid destination: {reason}"
  | reverted reason => s!"Transaction reverted: {reason}"
  | valueOutOfRange reason => s!"Value out of range: {reason}"
  | network reason => s!"Network error: {reason}"
  | timeout reason => s!"Timed out: {reason}"
  | transient reason => s!"Transient submission failure: {reason}"
  | unconfirmed txHash reason => s!"Submission {txHash} unconfirmed: {reason}"
  | overflow => "attempt to add with overflow"

/-- Whether trying the same round again can succeed. -/
def isRetryable : PublishError → Bool
  | network _ | timeout _ | transient _ | unconfirmed _ _ => true
  | _ => false

/-- The lower-case form of a character, as far as it can matter for words of ASCII letters: two
characters outside ASCII have one that starts with an ASCII letter. -/
def lowerCase (c : Char) : List Char :=
  if c = '\u212a' then ['k']
  else if c = '\u0130' then ['i', '\u0307']
  else [c.toLower]

/-- Whether a text occurs in another. -/
def occurs (pattern : List Char) : List Char → Bool
  | [] => pattern.isEmpty
  | c :: rest => pattern.isPrefixOf (c :: rest) || occurs pattern rest

/-- Whether one of some phrases occurs in a message, in letters of either case. -/
def mentions (phrases : List String) (message : String) : Bool :=
  let lower := message.toList.flatMap lowerCase
  phrases.any fun phrase => occurs phrase.toList lower

/-- Sorts the message of a node by the words in it. -/
def classify (message : String) : PublishError :=
  if mentions ["unauthorized", "not owner", "caller is not the owner",
      "ownableunauthorizedaccount"] message then .unauthorized message
  else if mentions ["revert"] message then .reverted message
  else if mentions ["nonce too low", "replacement transaction underpriced", "already known",
      "fee too low", "max fee per gas less than block base fee"] message then .transient message
  else if mentions ["timed out", "timeout"] message then .timeout message
  else .network message

end PublishError

end PriceOracle
