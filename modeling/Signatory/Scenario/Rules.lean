import Signatory.Ledger.Runtime
import Signatory.Scenario.Position
import Signatory.Wire.Message

/-! A runtime made of rules. The first rule whose mark occurs in a script says what running it does; a script
that bears no mark does nothing. A counter outlives all runs, failed ones too. -/

namespace Signatory.Scenario
set_option autoImplicit false
open Cbor (Value)

inductive Instruction where
  | emit (event : Json)
  /-- Counts one more, and emits an event with the count. -/
  | count (type : Json)
  | setBalance (address : Bytes) (balance : Int)
  | revoke (address : Bytes) (position : Int)
  | delete (address : Bytes)
  | fail (reason : Text)
  | crash (reason : Text)
  | give (value : Json)
  | giveHeight
  | giveBalance (address : Bytes)
  | giveArguments

structure Rule where
  mark : Text
  instructions : List Instruction

def occursIn (mark : Bytes) : Bytes → Bool
  | [] => mark.isEmpty
  | b :: rest => mark.isPrefixOf (b :: rest) || occursIn mark rest

/-- Whether a mark stands in an item: inside bytes, among the items of a list, or among the keys of a map. -/
def standsIn (mark : Bytes) : Value → Except Text Bool
  | .bytes b => .ok (occursIn mark b)
  | .list items | .tuple items => .ok (items.any (· == .bytes mark))
  | .map entries => .ok ((Entries.find? (.bytes mark) entries).isSome)
  | .text _ => .error "'in <string>' requires string as left operand, not bytes"
  | v => .error (.concat ["argument of type '", Wire.kind v, "' is not iterable"])

/-- What the first rule whose mark occurs in a script says, or why that cannot be told. -/
def findRule (script : Value) : List Rule → Except Text (List Instruction)
  | [] => .ok []
  | r :: rest => do
    match Text.Utf8.encode? r.mark with
    | none => .error (Text.Utf8.refusal r.mark)
    | some mark => if ← standsIn mark script then return r.instructions else findRule script rest

structure Progress where
  accounts : Accounts
  counter : Nat
  /-- The events that were emitted, latest first. -/
  events : List Json
  value : Json

namespace Progress

def missing (address : Bytes) : Text := .concat ["no such account ", Bytes.hex address]

/-- The account changed, or a crash where there is none. -/
def onAccount (p : Progress) (address : Bytes) (f : StoredAccount → Except Text Accounts) :
    Outcome Unit × Progress :=
  match p.accounts.find? address with
  | none => (.crashed (missing address), p)
  | some account =>
    match f account with
    | .ok accounts => (.done (), { p with accounts })
    | .error reason => (.crashed reason, p)

def revokeKey (account : StoredAccount) (position : Int) : Except Text StoredAccount :=
  match Position.place? account.keys.length position with
  | some place => .ok { account with keys := account.keys.modify place fun k => { k with revoked := true } }
  | none => .error "list index out of range"

def intValue (n : Int) : Json := .object [("type", .text "Int"), ("value", .text (Text.ofInt n))]

def step (blocks : Nat) (arguments : List Json) (p : Progress) : Instruction → Outcome Unit × Progress
  | .emit event => (.done (), { p with events := event :: p.events })
  | .count type =>
    let event := Json.object [("type", type), ("payload", intValue (p.counter + 1))]
    (.done (), { p with counter := p.counter + 1, events := event :: p.events })
  | .setBalance address balance =>
    p.onAccount address fun a => .ok (p.accounts.insert address { a with balance })
  | .revoke address position =>
    p.onAccount address fun a => (revokeKey a position).map (p.accounts.insert address ·)
  | .delete address => p.onAccount address fun _ => .ok (p.accounts.erase address)
  | .fail reason => (.failed reason, p)
  | .crash reason => (.crashed reason, p)
  | .give value => (.done (), { p with value })
  | .giveHeight => (.done (), { p with value := intValue blocks })
  | .giveBalance address =>
    match p.accounts.find? address with
    | none => (.crashed (missing address), p)
    | some a => (.done (), { p with value := intValue a.balance })
  | .giveArguments =>
    (.done (), { p with value := .object [("type", .text "Array"), ("value", .list arguments)] })

/-- Instructions one after another, up to the first that does not succeed. -/
def steps (blocks : Nat) (arguments : List Json) (p : Progress) : List Instruction → Outcome Unit × Progress
  | [] => (.done (), p)
  | a :: rest =>
    match p.step blocks arguments a with
    | (.done (), p) => p.steps blocks arguments rest
    | result => result

end Progress

/-- A run of a script under rules. -/
def runRules (rules : List Rule) (script : Value) (arguments : List Json) (l : Ledger) (counter : Nat) :
    Outcome Unit × Progress :=
  let start : Progress := ⟨l.accounts, counter, [], Runtime.void⟩
  match findRule script rules with
  | .ok instructions => start.steps l.blocks.length arguments instructions
  | .error reason => (.crashed reason, start)

/-- The runtime of rules for transactions and rules for scripts. Its memory is the counter. -/
def ruleRuntime (transactions scripts : List Rule) : Runtime Nat where
  execute t l counter :=
    let (outcome, p) := runRules transactions t.script t.arguments l counter
    (outcome.map fun _ => p.events.reverse, p.accounts, p.counter)
  evaluate script arguments l counter :=
    let (outcome, p) := runRules scripts (.bytes script) arguments l counter
    (outcome.map fun _ => p.value, { l with accounts := p.accounts }, p.counter)

end Signatory.Scenario
