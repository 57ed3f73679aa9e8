import Signatory.Ledger.Basic

/-! What runs scripts. A runtime sees the whole ledger, but a transaction may change no more of it than the
accounts. A script runs on a copy, and may do with it what it likes. A runtime may remember things between its runs;
what it has emitted or given it does not change any more. -/

namespace Signatory
set_option autoImplicit false

/-- How a run ended: with a value, with a failure of the script, or with a crash of the runtime. -/
inductive Outcome (α : Type) where
  | done (value : α)
  | failed (reason : Text)
  | crashed (reason : Text)

def Outcome.map {α β : Type} (f : α → β) : Outcome α → Outcome β
  | done value => done (f value)
  | failed reason => failed reason
  | crashed reason => crashed reason

structure Runtime (μ : Type) where
  /-- Runs a transaction: the events it emits, the accounts it leaves, and what is remembered. -/
  execute : LooseTransaction → Ledger → μ → Outcome (List Json) × Accounts × μ
  /-- Runs a script: its value, the copy of the ledger that it leaves, and what is remembered. -/
  evaluate : (script : Bytes) → (arguments : List Json) → Ledger → μ → Outcome Json × Ledger × μ

namespace Runtime

/-- The value of a script that gives none. -/
def void : Json := .object [("type", .text "Void")]

/-- Nothing happens, and scripts give no value. -/
def null : Runtime Unit where
  execute _ l m := (.done [], l.accounts, m)
  evaluate _ _ l m := (.done void, l, m)

end Runtime

end Signatory
