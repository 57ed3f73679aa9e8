import Signatory.Account.Basic

/-! Roles of a transaction: who proposes it, who pays for it and who authorizes it. -/

namespace Signatory
set_option autoImplicit false

/-- One account may have several roles, and stand several times among the authorizers. -/
structure Roles where
  proposer : Option Account
  payer : Option Account
  authorizers : List Account

namespace Roles

def lookup (d : Directory) (role name : Text) : Except Error Account :=
  match d.findName? name with
  | some a => .ok a
  | none => .error (.accountNotFound role name)

/-- The account of a role that may be left open; an empty name leaves it open too. -/
def lookupOptional (d : Directory) (role : Text) (name : Option Text) :
    Except Error (Option Account) :=
  match name with
  | some (p :: rest) => (lookup d role (p :: rest)).map some
  | _ => .ok none

def isGiven (name : Option Text) : Bool := (name.map (!·.isEmpty)).getD false

/-- The roles that names resolve to. A signer takes all of them and tolerates no other name. -/
def resolve (d : Directory) (signer proposer payer : Option Text) (authorizers : List Text) :
    Except Error Roles :=
  match signer with
  | some (p :: rest) =>
    if isGiven proposer || isGiven payer || !authorizers.isEmpty then .error .roleConflict
    else do
      let a ← lookup d "signer" (p :: rest)
      return ⟨some a, some a, [a]⟩
  | _ => do
    let proposer ← lookupOptional d "proposer" proposer
    let payer ← lookupOptional d "payer" payer
    let authorizers ← authorizers.mapM (lookup d "authorizer")
    return ⟨proposer, payer, authorizers⟩

def update (r : Roles) (ref : Nat) (f : Account → Account) : Roles :=
  let change := fun a : Account => if a.ref = ref then f a else a
  ⟨r.proposer.map change, r.payer.map change, r.authorizers.map change⟩

end Roles

end Signatory
