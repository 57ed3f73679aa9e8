import Signatory.Log

/-! Messages that are logged at most once in an interval. Every interval has a store of its own, which holds the
256 messages that were logged last and forgets each when the interval is over. -/

namespace Signatory
set_option autoImplicit false

variable {τ : Type} [Add τ] [LT τ] [DecidableRel (α := τ) (· < ·)] [BEq τ]

/-- Messages with the times at which they expire, in the order in which they were stored. -/
abbrev RecentMessages (τ : Type) := List (Text × τ)

namespace RecentMessages

def capacity : Nat := 256

def isLive (now : τ) (key : Text) (messages : RecentMessages τ) : Bool :=
  messages.any fun m => m.1 == key && decide (now < m.2)

/-- The messages from the oldest one on that has not expired. -/
def expire (now : τ) (messages : RecentMessages τ) : RecentMessages τ :=
  messages.dropWhile fun m => !decide (now < m.2)

/-- Room for a message: its own old entry goes, or else, in a full store, the oldest one. -/
def makeRoom (key : Text) (messages : RecentMessages τ) : RecentMessages τ :=
  if messages.any fun m => m.1 == key then messages.filter fun m => !m.1 == key
  else messages.drop (messages.length + 1 - capacity)

def store (now interval : τ) (key : Text) (messages : RecentMessages τ) : RecentMessages τ :=
  makeRoom key (expire now messages) ++ [(key, now + interval)]

end RecentMessages

abbrev RateLimiter (τ : Type) := List (τ × RecentMessages τ)

namespace RateLimiter

def recent (interval : τ) (limiter : RateLimiter τ) : RecentMessages τ :=
  ((limiter.find? fun e => e.1 == interval).map Prod.snd).getD []

def replace (interval : τ) (messages : RecentMessages τ) : RateLimiter τ → RateLimiter τ
  | [] => [(interval, messages)]
  | e :: rest => if e.1 == interval then (e.1, messages) :: rest else e :: replace interval messages rest

/-- What tells a message apart: its level, as it was written, and its text. -/
def key (level message : Text) : Text := .concat [level, ":", message]

/-- A message at a time: the line to be logged, unless the message is suppressed. -/
def log (limiter : RateLimiter τ) (now interval : τ) (level message : Text) :
    Option LogLine × RateLimiter τ :=
  let messages := limiter.recent interval
  if messages.isLive now (key level message) then (none, limiter)
  else
    (some ⟨LogLevel.ofName level, message⟩,
      limiter.replace interval (messages.store now interval (key level message)))

/-- A limiter that suppresses nothing, because it holds nothing. -/
def forget (_ : RateLimiter τ) : RateLimiter τ := []

end RateLimiter

end Signatory
