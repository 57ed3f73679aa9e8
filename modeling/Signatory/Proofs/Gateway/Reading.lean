import Signatory.Proofs.Gateway.Errors
import Signatory.Proofs.Gateway.RemoteEvents
import Signatory.Proofs.Wire.Legible

/-! Errors of reading. Readers end in foreign errors, or, where they come upon arguments and payloads, in faults of these.
So a reading strays exactly if there is something illegible and no such fault is found first. -/

namespace Signatory
set_option autoImplicit false
open Outcome Wire
open Cbor (Value)

variable {α β : Type}

/-- The error, if there is one, is such. -/
def EndsIn (P : Error → Prop) (x : Except Error α) : Prop := ∀ e, x = .error e → P e

def FindsFault (x : Except Error α) : Prop := ∃ fault, x = .error (.argument fault)

/-- What readers end in. -/
inductive Error.OfReading : Error → Prop where
  | foreign (e : Error) (h : e.isForeign = true) : OfReading e
  | argument (fault : ArgumentFault) : OfReading (.argument fault)

theorem not_findsFault {x : Except Error α} (h : EndsIn (·.isForeign = true) x) : ¬FindsFault x := by
  rintro ⟨fault, hfault⟩
  exact Bool.false_ne_true (h _ hfault)

theorem strays_iff_of_endsIn {x : Except Error α} (h : EndsIn Error.OfReading x) :
    Strays x ↔ (¬∃ a, x = .ok a) ∧ ¬FindsFault x := by
  cases x with
  | ok a => exact iff_of_false (not_strays_ok a) fun hnone => hnone.1 ⟨a, rfl⟩
  | error e =>
    rw [strays_error, and_iff_right not_exists_ok]
    cases h e rfl with
    | foreign _ hforeign => exact iff_of_true hforeign (not_findsFault fun _ he => Except.error.inj he ▸ hforeign)
    | argument fault => exact iff_of_false Bool.false_ne_true (not_not_intro ⟨fault, rfl⟩)

namespace EndsIn

variable {P : Error → Prop}

theorem ok (a : α) : EndsIn P (.ok a) := nofun

theorem error {e : Error} (h : P e) : EndsIn P (.error e : Except Error α) := by
  rintro _ ⟨⟩
  exact h

theorem elim {e : Error} (h : P e) (x : Option α) : EndsIn P (x.elim (.error e) .ok) := by
  cases x with
  | none => exact .error h
  | some a => exact .ok a

theorem bind {x : Except Error α} {f : α → Except Error β} (hx : EndsIn P x) (hf : ∀ a, EndsIn P (f a)) :
    EndsIn P (x >>= f) := by
  intro e he
  rcases bind_eq_error.mp he with hfail | ⟨a, _, hfail⟩
  · exact hx e hfail
  · exact hf a e hfail

theorem mapM {f : α → Except Error β} (h : ∀ a, EndsIn P (f a)) (xs : List α) : EndsIn P (xs.mapM f) := by
  intro e he
  obtain ⟨x, _, hfail⟩ := exists_of_mapM_eq_error he
  exact h x e hfail

end EndsIn

section Readers

variable {P : Error → Prop} (hP : ∀ e : Error, e.isForeign = true → P e)
include hP

theorem endsIn_required (name : Text) (v : Value) : EndsIn P (required name v) := by
  unfold required
  split
  · split
    · exact .ok _
    · exact .error (hP _ rfl)
  · exact .error (hP _ rfl)

theorem endsIn_optional (name : Text) (default v : Value) : EndsIn P (Wire.optional name default v) := by
  unfold Wire.optional
  split
  · exact .ok _
  · exact .error (hP _ rfl)

theorem endsIn_toInt (v : Value) : EndsIn P (toInt v) := by
  unfold toInt
  split
  · exact .ok _
  · exact .ok _
  · split
    · exact .ok _
    · split <;> exact .error (hP _ rfl)
  · exact .elim (hP _ rfl) _
  · exact .elim (hP _ rfl) _
  · exact .elim (hP _ rfl) _
  · exact .error (hP _ rfl)

theorem endsIn_toItems (v : Value) : EndsIn P (toItems v) := by
  unfold toItems
  split
  · exact .ok _
  · exact .ok _
  · exact .ok _
  · exact .ok _
  · exact .ok _
  · split
    · exact .error (hP _ rfl)
    · exact .ok _
  · exact .elim (hP _ rfl) _
  · exact .error (hP _ rfl)

theorem endsIn_settle (c : Checked α) : EndsIn P c.settle := by
  cases c with
  | ok a => exact .ok a
  | error problems => exact .error (hP _ rfl)

theorem Moment.endsIn_ofWire (v : Value) : EndsIn P (ofWire v) := by
  have hmoment (w : Timestamp) : EndsIn P w.toMoment := by
    unfold Timestamp.toMoment
    split
    · exact .ok _
    · exact .error (hP _ rfl)
  refine .bind ?_ hmoment
  exact (endsIn_optional hP _ _ _).bind fun _ => (endsIn_toInt hP _).bind fun _ =>
    (endsIn_optional hP _ _ _).bind fun _ => (endsIn_toInt hP _).bind fun _ => .ok _

theorem KeyRecord.endsIn_ofWire (v : Value) : EndsIn P (ofWire v) :=
  (endsIn_required hP _ _).bind fun _ => (endsIn_toInt hP _).bind fun _ => (endsIn_required hP _ _).bind fun _ =>
    (endsIn_required hP _ _).bind fun _ => (endsIn_required hP _ _).bind fun _ =>
    (endsIn_optional hP _ _ _).bind fun _ => (endsIn_toInt hP _).bind fun _ =>
    (endsIn_optional hP _ _ _).bind fun _ => (endsIn_toInt hP _).bind fun _ =>
    (endsIn_optional hP _ _ _).bind fun _ => (endsIn_settle hP _).bind fun _ => .ok _

theorem AccountRecord.endsIn_ofWire (v : Value) : EndsIn P (ofWire v) :=
  (endsIn_required hP _ _).bind fun _ => (endsIn_optional hP _ _ _).bind fun _ => (endsIn_toInt hP _).bind fun _ =>
    (endsIn_optional hP _ _ _).bind fun _ => (endsIn_toItems hP _).bind fun _ =>
    (EndsIn.mapM (KeyRecord.endsIn_ofWire hP) _).bind fun _ => (endsIn_settle hP _).bind fun _ => .ok _

theorem Block.endsIn_ofWire (v : Value) : EndsIn P (ofWire v) :=
  (endsIn_required hP _ _).bind fun _ => (endsIn_required hP _ _).bind fun _ => (endsIn_required hP _ _).bind fun _ =>
    (endsIn_toInt hP _).bind fun _ => (endsIn_required hP _ _).bind fun _ => (Moment.endsIn_ofWire hP _).bind fun _ =>
    (endsIn_optional hP _ _ _).bind fun _ => (endsIn_toItems hP _).bind fun _ =>
    (endsIn_settle hP _).bind fun _ => .ok _

theorem Collection.endsIn_ofWire (v : Value) : EndsIn P (ofWire v) :=
  (endsIn_required hP _ _).bind fun _ => (endsIn_optional hP _ _ _).bind fun _ => (endsIn_toItems hP _).bind fun _ =>
    (endsIn_settle hP _).bind fun _ => .ok _

theorem Remote.endsIn_ticketOf (v : Value) : EndsIn P (ticketOf v) := .elim (hP _ rfl) _

variable (hargument : ∀ fault, P (.argument fault))
include hargument

omit hP in
theorem Argument.endsIn_decode (b : Bytes) : EndsIn P (decode b) := by
  unfold decode
  split
  · exact .error (hargument _)
  · rename_i v _
    refine .bind ?_ fun _ => .ok v
    rcases check_cases 0 v with hok | ⟨fault, hfault⟩
    · rw [hok]
      exact .ok ()
    · rw [hfault]
      exact .error (hargument fault)

theorem LooseTransaction.endsIn_argumentOfWire (v : Value) : EndsIn P (argumentOfWire v) := by
  unfold argumentOfWire
  split
  · exact Argument.endsIn_decode hargument _
  · exact .error (hP _ rfl)

theorem Event.endsIn_payloadOfWire (v : Value) : EndsIn P (payloadOfWire v) := by
  unfold payloadOfWire
  split
  · refine (Argument.endsIn_decode hargument _).bind fun j => ?_
    split
    · exact .ok _
    · exact .error (hP _ rfl)
  · exact .error (hP _ rfl)

theorem Event.endsIn_ofWire (v : Value) : EndsIn P (ofWire v) :=
  (endsIn_required hP _ _).bind fun _ => (endsIn_required hP _ _).bind fun _ => (endsIn_required hP _ _).bind fun _ =>
    (endsIn_toInt hP _).bind fun _ => (endsIn_required hP _ _).bind fun _ => (endsIn_toInt hP _).bind fun _ =>
    (endsIn_required hP _ _).bind fun _ => (endsIn_payloadOfWire hP hargument _).bind fun _ =>
    (endsIn_settle hP _).bind fun _ => .ok _

theorem BlockEvents.endsIn_ofWire (v : Value) : EndsIn P (ofWire v) :=
  (endsIn_required hP _ _).bind fun _ => (endsIn_required hP _ _).bind fun _ => (endsIn_toInt hP _).bind fun _ =>
    (endsIn_required hP _ _).bind fun _ => (Moment.endsIn_ofWire hP _).bind fun _ =>
    (endsIn_optional hP _ _ _).bind fun _ => (endsIn_toItems hP _).bind fun _ =>
    (EndsIn.mapM (Event.endsIn_ofWire hP hargument) _).bind fun _ => (endsIn_settle hP _).bind fun _ => .ok _

theorem TransactionResult.endsIn_ofWire (v : Value) : EndsIn P (ofWire v) := by
  refine (endsIn_optional hP _ _ _).bind fun _ => (endsIn_toInt hP _).bind fun _ => ?_
  split
  · exact .error (hP _ rfl)
  · exact (endsIn_optional hP _ _ _).bind fun _ => (endsIn_optional hP _ _ _).bind fun _ =>
      (endsIn_toItems hP _).bind fun _ => (EndsIn.mapM (Event.endsIn_ofWire hP hargument) _).bind fun _ =>
      (endsIn_optional hP _ _ _).bind fun _ => (endsIn_settle hP _).bind fun _ => .ok _

theorem Remote.endsIn_reported (message : Value) : EndsIn P (reported message) :=
  (endsIn_optional hP _ _ _).bind fun _ => (endsIn_toItems hP _).bind fun _ =>
    EndsIn.mapM (BlockEvents.endsIn_ofWire hP hargument) _

namespace LooseTransaction

omit hargument in
theorem endsIn_signaturesOfWire (v : Value) : EndsIn P (signaturesOfWire v) := by
  have hkey (item : Value) : EndsIn P (checkKey item) := by
    unfold checkKey
    split
    · exact .ok _
    · exact .error (hP _ rfl)
  have hsignature (item : Value) : EndsIn P (signatureOfWire item) :=
    (endsIn_required hP _ _).bind fun address => (endsIn_required hP _ _).bind fun _ => (endsIn_toInt hP _).bind fun _ =>
      (endsIn_required hP _ _).bind fun _ => (hkey address).bind fun _ => .ok _
  exact (endsIn_toItems hP _).bind fun _ => (EndsIn.mapM hsignature _).bind fun _ => .ok _

theorem endsIn_ofWire (v : Value) : EndsIn P (ofWire v) :=
  (endsIn_required hP _ _).bind fun _ => (endsIn_required hP _ _).bind fun _ => (endsIn_optional hP _ _ _).bind fun _ =>
    (endsIn_toItems hP _).bind fun _ => (EndsIn.mapM (endsIn_argumentOfWire hP hargument) _).bind fun _ =>
    (endsIn_required hP _ _).bind fun _ => (endsIn_optional hP _ _ _).bind fun _ => (endsIn_toItems hP _).bind fun _ =>
    (endsIn_required hP _ _).bind fun _ => (endsIn_required hP _ _).bind fun _ => (endsIn_toInt hP _).bind fun _ =>
    (endsIn_optional hP _ _ _).bind fun _ => (endsIn_optional hP _ _ _).bind fun _ =>
    (endsIn_optional hP _ _ _).bind fun _ => (endsIn_optional hP _ _ _).bind fun _ =>
    (endsIn_signaturesOfWire hP _).bind fun _ => (endsIn_optional hP _ _ _).bind fun _ =>
    (endsIn_signaturesOfWire hP _).bind fun _ => .ok _

end LooseTransaction

end Readers

/-- A report can be read when each of its batches can. -/
theorem Remote.exists_reported_iff (message : Value) :
    (∃ batches, reported message = .ok batches) ↔ MayHave message "results" (ItemsOf BlockEvents.Legible) := by
  have hresults := exists_optional_iff "results" message _ (itemsOf_nil BlockEvents.Legible)
  simp only [reported, exists_bind_iff, exists_mapM_iff, BlockEvents.exists_ofWire_iff]
  exact hresults

end Signatory
