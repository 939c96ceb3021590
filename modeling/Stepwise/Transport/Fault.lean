import Stepwise.Wire.Issue

/-!
# Faults

`Refusal` says why a transport did not take a message or a subscription.  `Fault` lists everything
that can make a routine of a component stop before its end.
-/

namespace Stepwise

/-- What a component asked of a transport. -/
inductive Request where
  | publish
  | subscribe
  | declare
  | consume
  deriving DecidableEq, Repr

/-- A request to a transport in words, up to the name of the queue. -/
def Request.words : Request → String
  | publish => "publish to "
  | subscribe => "subscribe to "
  | declare => "declare queue "
  | consume => "consume from "

/-- Why a transport refused a request. -/
inductive Refusal where
  | closed (carrier : String) (request : Request) (queue : String)
  | noSubscriber (queue : String)
  | failed (request : Request) (queue : String) (cause : String)
  | unavailable (cause : String)
  deriving DecidableEq, Repr

/-- The text of a refusal. -/
def Refusal.message : Refusal → String
  | closed carrier request queue => carrier ++ " closed, cannot " ++ request.words ++ queue
  | noSubscriber queue => "no subscriber for queue " ++ queue
  | failed request queue cause => "cannot " ++ request.words ++ queue ++ ": " ++ cause
  | unavailable cause => cause

/-- Why a routine stopped before its end. -/
inductive Fault where
  | refused (refusal : Refusal)
  | unresolved (step missing : Int)
  | invalid (issues : List Issue)
  /-- A date, a duration or a number of seconds beyond what can be represented. -/
  | outOfRange
  /-- A time without an offset compared with one that has an offset. -/
  | mixedTimes
  /-- A text that has no encoding. -/
  | unwritable
  | unmapped (operation : String)
  | alreadyAnswered
  | raised (text : String)
  deriving DecidableEq, Repr

/-- The text of a fault that people see. -/
def Fault.message : Fault → String
  | refused r => r.message
  | unresolved step missing =>
    "step " ++ toString step ++ " depends on unresolved step " ++ toString missing
  | invalid _ => "invalid message"
  | outOfRange => "out of range"
  | mixedTimes => "times with and without an offset"
  | unwritable => "text without an encoding"
  | unmapped op => "no queue for " ++ op
  | alreadyAnswered => "already answered"
  | raised text => text

end Stepwise
