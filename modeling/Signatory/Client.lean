import Signatory.Number
import Signatory.Poll
import Signatory.RateLimit

/-! What a client of a ledger has around it: the backend it talks to, a clock that moves only when somebody
waits, the signal with which its caller may stop a wait, and a log. -/

namespace Signatory
set_option autoImplicit false

inductive PauseKind where
  | sleep
  | wait
  deriving DecidableEq, Repr

structure Timeline where
  now : Number
  pauses : List (PauseKind × Number)

def Timeline.start : Timeline := ⟨.float Binary64.zero, []⟩

/-- When the signal comes: after it was looked at so many times, or at a time. -/
inductive CancelSignal where
  | afterChecks (left : Nat)
  | at (time : Number)

/-- A message at a time of a clock of numbers; the time at which the message expires must be one too. -/
def RateLimiter.logOnClock (limiter : RateLimiter Number) (now interval : Number) (level message : Text) :
    Except Error (Option LogLine × RateLimiter Number) :=
  let result := limiter.log now interval level message
  if result.1.isSome && (now.add? interval).isNone then .error .overflow else .ok result

structure Client (β : Type) where
  backend : β
  timeline : Timeline
  cancel : Option CancelSignal
  limiter : RateLimiter Number
  journal : List LogLine

/-- A call: it answers or fails, and may change what the client has either way. -/
abbrev Action (σ α : Type) := ExceptT Error (StateM σ) α

namespace Client

variable {β γ : Type}

def start (backend : β) : Client β := ⟨backend, .start, none, [], []⟩

/-- Seconds between two notes of the same wait. -/
def noteInterval : Number := .int 30

/-- Whether the signal is there; looking counts. -/
def isCancelled (c : Client β) : Bool × Client β :=
  match c.cancel with
  | none => (false, c)
  | some (.afterChecks 0) => (true, c)
  | some (.afterChecks (n + 1)) => (false, { c with cancel := some (.afterChecks n) })
  | some (.at time) => (decide (time ≤ c.timeline.now), c)

/-- The end of a wait: that of its length, or the signal that comes before. -/
def pauseEnd (cancel : Option CancelSignal) (full : Number) : Number :=
  match cancel with
  | some (.at time) => if time < full then time else full
  | _ => full

/-- A number that has come out of a computation, unless that overflowed. -/
def computed (n : Option Number) : Except Error Number := n.elim (.error .overflow) .ok

/-- Waits; without a signal the wait is plain. -/
def pause (length : Number) (c : Client β) : Except Error Unit × Client β :=
  match length.toBinary64?, c.timeline.now.add? length with
  | some _, some full =>
    let kind := if c.cancel.isSome then PauseKind.wait else .sleep
    (.ok (), { c with timeline := ⟨pauseEnd c.cancel full, c.timeline.pauses ++ [(kind, length)]⟩ })
  | _, _ => (.error .overflow, c)

def log (level : LogLevel) (message : Text) (c : Client β) : Client β :=
  { c with journal := c.journal ++ [⟨level, message⟩] }

/-- Logs that the client waits, unless it said so lately. -/
def note (message : Text) (c : Client β) : Client β :=
  let (line, limiter) := c.limiter.log c.timeline.now noteInterval LogLevel.info.word message
  { c with limiter, journal := c.journal ++ line.toList }

def withBackend (c : Client β) (backend : γ) : Client γ := { c with backend }

/-- The world of a wait for what `fetch` gets. -/
def world (fetch : Ticket → Action (Client β) TransactionResult) : Poll.World (Client β) Number where
  isCancelled := isCancelled
  fetch ticket c := (fetch ticket).run.run c
  ahead length c := computed (c.timeline.now.add? length)
  remaining time c := computed (time.sub? c.timeline.now)
  pause := pause
  note := note

/-- Looks that a wait may take. -/
def patience : Nat := 1000000

def waitForSeal (fetch : Ticket → Action (Client β) TransactionResult) (plan : Poll.Schedule Number)
    (ticket : Ticket) : Action (Client β) TransactionResult :=
  fun c => Poll.waitForSeal (world fetch) Number.render plan ticket patience c

def onBackend {α : Type} (f : β → Except Error α × β) : Action (Client β) α := fun c =>
  let (result, backend) := f c.backend
  (result, { c with backend })

end Client

end Signatory
