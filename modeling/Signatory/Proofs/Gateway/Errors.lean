import Signatory.Gateway.Embedded
import Signatory.Gateway.Remote
import Signatory.Proofs.Argument
import Signatory.Proofs.Poll

/-! The errors that gateways declare, and those that are foreign to them. -/

namespace Signatory
set_option autoImplicit false
open Outcome

namespace Error

/-- What a gateway makes of a backend that refuses, cannot be reached or takes too long, and of a wait that is over. -/
def isGateway : Error → Bool
  | rejected _ | response .. | connection _ | timeout _ | notSealed .. | cancelled .. | snapshotNotFound _ => true
  | _ => false

/-- Besides, an operation may find fault with its envelope, with an argument or with a range of heights. A wait that goes
on has not failed. -/
def isForeign : Error → Bool
  | argument _ | incomplete _ | incompleteUnprepared | heightRange .. | stillWaiting => false
  | e => !e.isGateway

theorem isForeign_of_isGateway {e : Error} (h : e.isGateway = true) : e.isForeign = false := by
  cases e <;> first | rfl | cases h

end Error

/-- It ends in a foreign error. -/
def Strays {α : Type} (r : Except Error α) : Prop := ∃ e, r = .error e ∧ e.isForeign = true

section Strays

variable {α β : Type}

theorem not_strays_ok (a : α) : ¬Strays (.ok a : Except Error α) := nofun

theorem strays_error {e : Error} : Strays (.error e : Except Error α) ↔ e.isForeign = true := by
  simp [Strays]

/-- What was to be computed makes no difference to an error. -/
theorem strays_error_congr {e : Error} : Strays (.error e : Except Error α) ↔ Strays (.error e : Except Error β) :=
  strays_error.trans strays_error.symm

theorem not_strays_error {e : Error} (h : e.isForeign = false) : ¬Strays (.error e : Except Error α) := by
  rw [strays_error, h]
  exact Bool.false_ne_true

instance : (r : Except Error α) → Decidable (Strays r)
  | .ok a => isFalse (not_strays_ok a)
  | .error _ => decidable_of_iff _ strays_error.symm

theorem strays_bind {x : Except Error α} {f : α → Except Error β} :
    Strays (x >>= f) ↔ Strays x ∨ ∃ a, x = .ok a ∧ Strays (f a) := by
  cases x with
  | error e => simp [Strays, bind, Except.bind]
  | ok a => simp [Strays, bind, Except.bind]

theorem strays_bind_pure {x : Except Error α} {f : α → β} : Strays (x >>= fun a => pure (f a)) ↔ Strays x := by
  rw [strays_bind, or_iff_left]
  rintro ⟨_, _, h⟩
  exact not_strays_ok _ h

theorem strays_map {x : Except Error α} {f : α → β} : Strays (x.map f) ↔ Strays x := by
  cases x with
  | error e => exact strays_error_congr
  | ok a => exact iff_of_false (not_strays_ok _) (not_strays_ok a)

theorem not_strays_mapM {f : α → Except Error β} {xs : List α} (h : ∀ x ∈ xs, ¬Strays (f x)) : ¬Strays (xs.mapM f) := by
  rintro ⟨e, he, hforeign⟩
  obtain ⟨x, hx, hfail⟩ := exists_of_mapM_eq_error he
  exact h x hx ⟨e, hfail, hforeign⟩

/-- A sequence of computations that come out unless they stray. -/
theorem strays_mapM_iff {f : α → Except Error β} {xs : List α} (h : ∀ x ∈ xs, (∃ y, f x = .ok y) ∨ Strays (f x)) :
    Strays (xs.mapM f) ↔ ∃ x ∈ xs, Strays (f x) := by
  constructor
  · intro hstrays
    by_contra hnone
    push Not at hnone
    exact not_strays_mapM hnone hstrays
  · rintro ⟨x, hx, e, he, _⟩
    cases hmap : xs.mapM f with
    | error e' =>
      obtain ⟨y, hy, hfail⟩ := exists_of_mapM_eq_error hmap
      rcases h y hy with ⟨_, hok⟩ | hstrays
      · cases hok.symm.trans hfail
      · rw [hfail] at hstrays
        exact strays_error_congr.mp hstrays
    | ok ys =>
      obtain ⟨_, hok⟩ := exists_of_mapM_eq_ok hmap x hx
      cases hok.symm.trans he

theorem not_strays_reject (r : Except Rejection α) : ¬Strays (Engine.reject r) := by
  cases r with
  | error rejection => exact not_strays_error rfl
  | ok a => exact not_strays_ok a

/-- A value that is no typed value is told so; one with an integer too long to be written breaks off the writing. -/
theorem strays_encode_iff (v : Json) : Strays (Argument.encode v) ↔ Argument.Overlong v := by
  rcases Argument.encode_cases v with ⟨_, hwritable, hencode⟩ | ⟨huntyped, ⟨_, hencode⟩⟩ | ⟨hlong, hencode⟩
  · rw [hencode]
    exact iff_of_false (not_strays_ok _) fun hlong => Bool.false_ne_true (hlong.2.symm.trans hwritable)
  · rw [hencode]
    exact iff_of_false (not_strays_error rfl) fun hlong => huntyped hlong.1
  · rw [hencode]
    exact iff_of_true (strays_error.mpr rfl) hlong

end Strays

namespace Argument

/-- All values before the first one that cannot be written can be, and that one is too long. -/
inductive Clogged : List Json → Prop where
  | here {v : Json} {vs : List Json} (h : Overlong v) : Clogged (v :: vs)
  | later {v : Json} {vs : List Json} (htyped : Typed v) (hwritable : v.isWritable = true) (h : Clogged vs) :
      Clogged (v :: vs)

theorem strays_mapM_encode_iff (vs : List Json) : Strays (vs.mapM encode) ↔ Clogged vs := by
  induction vs with
  | nil => exact iff_of_false (not_strays_ok []) nofun
  | cons v vs ih =>
    rw [List.mapM_cons, strays_bind, strays_encode_iff]
    simp only [strays_bind_pure, ih]
    constructor
    · rintro (hlong | ⟨b, hb, hrest⟩)
      · exact .here hlong
      · obtain ⟨htyped, hwritable, _⟩ := encode_eq_ok.mp hb
        exact .later htyped hwritable hrest
    · rintro (hlong | ⟨htyped, hwritable, hrest⟩)
      · exact .inl hlong
      · exact .inr ⟨_, htyped.encode_eq hwritable, hrest⟩

end Argument

theorem RpcFault.isGateway_toError (fault : RpcFault) (method : Text) : (fault.toError method).isGateway = true := by
  unfold toError
  split
  · rfl
  · split <;> rfl

theorem Poll.GivenUp.isForeign {ticket : Ticket} {e : Error} (h : GivenUp ticket e) : e.isForeign = false := by
  cases h <;> rfl

namespace Roles

theorem isForeign_of_requirement {kind : SignatureKind} {role : Text} {a : Account} {e : Error}
    (h : requirement kind role a = .error e) : e.isForeign = true := by
  unfold requirement at h
  rw [bind_eq_error] at h
  rcases h with h | ⟨_, _, h⟩
  · unfold Account.defaultKey at h
    split at h
    · cases h
    · obtain rfl := Except.error.inj h
      rfl
  · exact absurd h pure_ne_error

/-- Roles that do not tell who must sign. -/
theorem isForeign_of_requirements {r : Roles} {e : Error} (h : r.requirements = .error e) : e.isForeign = true := by
  unfold requirements at h
  split at h
  · simp only [bind_eq_error] at h
    rcases h with h | ⟨_, _, h | ⟨_, _, h | ⟨_, _, h⟩⟩⟩
    · obtain ⟨_, _, h⟩ := exists_of_mapM_eq_error h
      exact isForeign_of_requirement h
    · exact isForeign_of_requirement h
    · exact isForeign_of_requirement h
    · exact absurd h pure_ne_error
  · obtain rfl := Except.error.inj h
    rfl

end Roles

namespace Envelope

/-- An envelope is prepared, and the roles attached to it do not tell who must sign. -/
def Undetermined (e : Envelope) : Prop :=
  e.isPrepared = true ∧ ∃ roles error, e.roles = some roles ∧ roles.requirements = .error error

theorem strays_missing_iff (e : Envelope) :
    Strays e.missing ↔ ∃ roles error, e.roles = some roles ∧ roles.requirements = .error error := by
  unfold missing
  cases hroles : e.roles with
  | none => simp [Strays]
  | some roles =>
    rw [strays_bind_pure]
    constructor
    · rintro ⟨error, herror, _⟩
      exact ⟨roles, error, rfl, herror⟩
    · rintro ⟨_, error, hsame, herror⟩
      obtain rfl := Option.some.inj hsame
      exact ⟨error, herror, Roles.isForeign_of_requirements herror⟩

theorem strays_checkComplete_iff (e : Envelope) : Strays e.checkComplete ↔ e.Undetermined := by
  unfold Undetermined checkComplete
  rw [← strays_missing_iff]
  cases e.isPrepared with
  | false => simp [strays_error, Error.isForeign, bind, Except.bind]
  | true =>
    simp only [Bool.not_true, Bool.false_eq_true, if_false, true_and]
    rw [strays_bind, or_iff_left]
    rintro ⟨missing, _, h⟩
    cases missing with
    | nil => exact not_strays_ok _ h
    | cons => exact not_strays_error rfl h

/-- An envelope that is neither complete nor found wanting, or one that is complete and has an argument that is too
long. -/
def Unsubmittable (e : Envelope) : Prop :=
  e.Undetermined ∨ e.checkComplete = .ok () ∧ Argument.Clogged e.arguments

end Envelope

end Signatory
