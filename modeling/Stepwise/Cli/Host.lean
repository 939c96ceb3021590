import Stepwise.Service.Installation

/-!
# Hosts

A `Host` is what the command line needs from the machine it runs on.  The commands are written for
any host, so they can be run on a real one and on one whose clock and network are prescribed.
-/

namespace Stepwise.Cli

open Stepwise.Text (Body)

/-- A call to a service over Http. -/
structure Call where
  method : String
  url : String
  json : Option Json
  /-- The longest time to wait, in seconds. -/
  timeout : Float

/-- What comes of a call. -/
inductive Reply where
  | unreachable (cause : String)
  | answered (status : Nat) (text : String)

/-- A component to run until it is interrupted: what it subscribes, and how it behaves. -/
structure Component where
  start : Routine Installation Role Unit
  settings : Settings

/-- What commands need from their surroundings. -/
structure Host (m : Type → Type) where
  out : String → m Unit
  err : String → m Unit
  /-- All that is left of the input. -/
  readAll : m String
  /-- The next line of the input. -/
  readLine : m (Option String)
  /-- A clock in seconds, to measure times with. -/
  seconds : m Float
  /-- The milliseconds on the clock of the components. -/
  now : m Int
  call : Call → m Reply
  /-- Tries to reach the message server. -/
  reach : Settings → m (Except Refusal Unit)
  /-- Runs a component over the message server until it is interrupted. -/
  serve : Component → m Unit
  /-- The id of a client that has chosen none. -/
  clientId : m String

/-- What may go wrong beyond the messages that a command itself gives. -/
inductive Escape where
  | fault (fault : Fault)
  | notJson
  | notAnObject
  | invalid (issues : List Issue)
  | mismatchedMarkup
  | endless

/-- How a command ends. -/
inductive Ending where
  | returned
  | exited (code : Nat)
  | failed (e : Escape)

end Stepwise.Cli
