import Signatory.Record
import Signatory.Ticket

/-! Waiting for a result to become final. Only the look at the result is repeated; the caller's signal is looked
at before each look and after each that is not final, so that none follows once it is set. -/

namespace Signatory.Poll
set_option autoImplicit false

/-- What a wait can do: look at the signal, fetch, reckon with its clock, pause, and say that it waits. -/
structure World (σ τ : Type) where
  isCancelled : σ → Bool × σ
  fetch : Ticket → σ → Except Error TransactionResult × σ
  ahead : τ → σ → Except Error τ
  remaining : τ → σ → Except Error τ
  pause : τ → σ → Except Error Unit × σ
  note : Text → σ → σ

/-- How long to wait between two looks, and in all. -/
structure Schedule (τ : Type) where
  interval : τ
  timeout : Option τ

variable {σ τ : Type} [OfNat τ 0] [LE τ] [LT τ]
variable [DecidableRel (α := τ) (· ≤ ·)] [DecidableRel (α := τ) (· < ·)]

/-- The pause before the next look; there is none once no time is left of a limited one. -/
def pauseLength? (interval : τ) (remaining : Option τ) : Option τ :=
  match remaining with
  | none => some interval
  | some remaining =>
    if remaining ≤ 0 then none else some (if remaining < interval then remaining else interval)

def noteText (ticket : Ticket) (status : TransactionStatus) : Text :=
  .concat ["Waiting for transaction ", ticket.hex, " to be sealed (status ", status.name, ")"]

/-- Looks at the result until it is final, `fuel` times at most. -/
def look (W : World σ τ) (render : τ → Text) (plan : Schedule τ) (deadline : Option τ) (ticket : Ticket) :
    (fuel : Nat) → (attempts : Nat) → σ → Except Error TransactionResult × σ
  | 0, _, s => (.error .stillWaiting, s)
  | n + 1, attempts, s =>
    match W.isCancelled s with
    | (true, s) => (.error (.cancelled ticket attempts), s)
    | (false, s) =>
      match W.fetch ticket s with
      | (.error e, s) => (.error e, s)
      | (.ok r, s) =>
        if r.status.isTerminal then (.ok r, s)
        else
          match W.isCancelled s with
          | (true, s) => (.error (.cancelled ticket (attempts + 1)), s)
          | (false, s) =>
            match deadline.mapM (W.remaining · s) with
            | .error e => (.error e, s)
            | .ok remaining =>
              match pauseLength? plan.interval remaining with
              | none => (.error (.notSealed ticket ((plan.timeout.map render).getD []) r.status.name), s)
              | some d =>
                match W.pause d (W.note (noteText ticket r.status) s) with
                | (.error e, s) => (.error e, s)
                | (.ok (), s) => look W render plan deadline ticket n (attempts + 1) s

def waitForSeal (W : World σ τ) (render : τ → Text) (plan : Schedule τ) (ticket : Ticket) (fuel : Nat) (s : σ) :
    Except Error TransactionResult × σ :=
  match plan.timeout.mapM (W.ahead · s) with
  | .error e => (.error e, s)
  | .ok deadline => look W render plan deadline ticket fuel 0 s

end Signatory.Poll
