import Signatory.Checked
import Signatory.Client
import Signatory.Json.Basic
import Signatory.Text.Numeral

/-! Prepared looks at a result. -/

namespace Signatory.Scenario
set_option autoImplicit false

/-- One look: how long it takes, and what it gives. -/
structure Look where
  takes : Number
  /-- A status and an error message as they are given, or the reason of a failure. -/
  answer : Except Text (Json × Json)

/-- The looks that are left, and how many were taken. -/
structure Looks where
  left : List Look
  taken : Nat

namespace Look

/-- The integer that stands for a status: a number without a fraction, a truth value, or a numeral. -/
def code? : Json → Option Int
  | .int i => some i
  | .bool b => some (if b then 1 else 0)
  | .float x => x.value.truncate?.filter fun i => Number.float x == .int i
  | .text s => Text.Numeral.decimal? s
  | _ => none

def statusField (v : Json) : Checked TransactionStatus :=
  ((code? v).bind TransactionStatus.ofCode?).elim (.fault "status" .notMember) .ok

def messageField : Json → Checked Text
  | .text s => .ok s
  | _ => .fault "error_message" .notText

def result (status errorMessage : Json) : Except Error TransactionResult := do
  let (status, errorMessage) ← ((statusField status).and (messageField errorMessage)).settle
  return ⟨status, errorMessage, [], none⟩

def toResult (l : Look) : Except Error TransactionResult :=
  match l.answer with
  | .ok (status, errorMessage) => result status errorMessage
  | .error reason => .error (.crash reason)

end Look

def Looks.fetch : Action (Client Looks) TransactionResult := fun c =>
  match c.backend.left with
  | [] =>
    (.error (.crash "fetch script exhausted"), { c with backend := { c.backend with taken := c.backend.taken + 1 } })
  | look :: left =>
    let c := { c with backend := ⟨left, c.backend.taken + 1⟩ }
    match c.timeline.now.add? look.takes with
    | none => (.error .overflow, c)
    | some now => (look.toResult, { c with timeline := { c.timeline with now } })

end Signatory.Scenario
