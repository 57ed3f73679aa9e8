import Signatory.Argument
import Signatory.Proofs.Json.RoundTrip
import Signatory.Proofs.Outcome
import Signatory.Proofs.Text.Utf8

/-! Typed values on their way: the order of fields makes no difference to the bytes, and the bytes are read as the
value in canonical form. -/

namespace Signatory.Argument
set_option autoImplicit false
open Outcome

/-- A value with a type, and with what its type demands. -/
def Typed (v : Json) : Prop := check 0 v = .ok ()

theorem check_cases (position : Nat) (v : Json) :
    check position v = .ok () ∨ ∃ fault, check position v = .error (.argument fault) := by
  cases v with
  | object fields =>
    rw [check]
    unfold checkFields
    split
    · split
      · exact .inl rfl
      · exact .inr ⟨_, rfl⟩
    · exact .inr ⟨_, rfl⟩
  | _ => exact .inr ⟨_, rfl⟩

theorem check_canonical {v : Json} (h : v.Portable) (position : Nat) : check position v.canonical = check position v := by
  cases h with
  | @object fs hnodup _ _ =>
    have hfind (k : Text) : Entries.find? k (Json.inOrder fs) = (Entries.find? k fs).map Json.canonical :=
      Entries.find?_of_perm (Json.inOrder_perm fs) (fun _ _ => beq_iff_eq) hnodup
    rw [Json.canonical_object, check, check, checkFields, checkFields, hfind, hfind, Option.isSome_map]
    cases Entries.find? ("type" : Text) fs with
    | none => rfl
    | some v => cases v <;> rfl
  | _ => rfl

/-- A typed value with an integer that is too long to be written. -/
def Overlong (v : Json) : Prop := Typed v ∧ v.isWritable = false

/-- A value is written, or it is no typed value, or one of its integers is too long. -/
theorem encode_cases (v : Json) :
    Typed v ∧ v.isWritable = true ∧ encode v = .ok (Text.Utf8.encode v.render) ∨
      ¬Typed v ∧ (∃ fault, encode v = .error (.argument fault)) ∨ Overlong v ∧ encode v = .error .overlongNumeral := by
  unfold Overlong Typed encode
  rcases check_cases 0 v with hcheck | ⟨fault, hcheck⟩
  · rw [hcheck]
    cases v.isWritable with
    | true => exact .inl ⟨rfl, rfl, rfl⟩
    | false => exact .inr (.inr ⟨⟨rfl, rfl⟩, rfl⟩)
  · rw [hcheck]
    exact .inr (.inl ⟨nofun, fault, rfl⟩)

theorem encode_eq_ok {v : Json} {b : Bytes} :
    encode v = .ok b ↔ Typed v ∧ v.isWritable = true ∧ Text.Utf8.encode v.render = b := by
  rcases encode_cases v with ⟨htyped, hwritable, hencode⟩ | ⟨huntyped, _, hencode⟩ | ⟨⟨_, hlong⟩, hencode⟩
  · rw [hencode, Except.ok.injEq, and_iff_right htyped, and_iff_right hwritable]
  · rw [hencode]
    exact iff_of_false nofun fun h => huntyped h.1
  · rw [hencode, hlong]
    exact iff_of_false nofun fun h => Bool.false_ne_true h.2.1

theorem Typed.encode_eq {v : Json} (h : Typed v) (hwritable : v.isWritable = true) :
    encode v = .ok (Text.Utf8.encode v.render) :=
  encode_eq_ok.mpr ⟨h, hwritable, rfl⟩

/-- What can be written fails for want of a type or a value only. -/
theorem fault_of_encode_eq_error {v : Json} (hwritable : v.isWritable = true) {e : Error} (h : encode v = .error e) :
    ∃ fault, e = .argument fault := by
  rcases encode_cases v with ⟨_, _, hencode⟩ | ⟨_, fault, hencode⟩ | ⟨⟨_, hlong⟩, _⟩
  · cases hencode.symm.trans h
  · exact ⟨fault, (Except.error.inj (hencode.symm.trans h)).symm⟩
  · cases hlong.symm.trans hwritable

theorem typed_canonical {v : Json} (h : v.Portable) : Typed v.canonical ↔ Typed v := by
  rw [Typed, Typed, check_canonical h]

theorem encode_canonical {v : Json} (h : v.Portable) : encode v.canonical = encode v := by
  rw [encode, encode, check_canonical h, Json.render_canonical, Json.isWritable_canonical]

theorem mapM_encode_canonical {vs : List Json} (h : ∀ v ∈ vs, v.Portable) :
    (vs.map Json.canonical).mapM encode = vs.mapM encode := by
  induction vs with
  | nil => rfl
  | cons v vs ih =>
    rw [List.forall_mem_cons] at h
    rw [List.map_cons, List.mapM_cons, List.mapM_cons, encode_canonical h.1, ih h.2]

theorem decode_of_encode {v : Json} (h : v.Portable) {b : Bytes} (hb : encode v = .ok b) : decode b = .ok v.canonical := by
  obtain ⟨hcheck, _, rfl⟩ := encode_eq_ok.mp hb
  have htext := Text.Utf8.decode?_encode (Text.isSurrogate_of_isAscii (Json.isAscii_render v))
  have hcanonical : check 0 v.canonical = .ok () := (check_canonical h 0).trans hcheck
  simp only [decode, htext, Option.bind_some, Json.parse?_render h, hcanonical]
  rfl

end Signatory.Argument
