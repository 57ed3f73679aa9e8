import Signatory.Proofs.Lists
import Signatory.Proofs.Outcome
import Signatory.Transaction.Envelope

/-! Who must sign what: the requirements of roles, read back as accounts and their default keys. -/

namespace Signatory
set_option autoImplicit false
open Outcome

/-- Where the signatures of an account stand: its address and the index of its default key. -/
def Account.slot? (a : Account) : Option (Bytes × Int) := a.keys.head?.map fun key => (a.address, key.index)

theorem Account.slot?_of_defaultKey {a : Account} {key : AccountKey} (h : a.defaultKey = .ok key) :
    a.slot? = some (a.address, key.index) := by
  unfold defaultKey at h
  split at h
  · rename_i hkeys
    obtain rfl := Except.ok.inj h
    simp [slot?, hkeys]
  · cases h

/-- Where the signature that a requirement asks for stands. -/
def Requirement.place (r : Requirement) : Bytes × Int := (r.address, r.keyIndex)

namespace Roles

/-- An account stands in a role, which signs one kind of message. -/
inductive Holds (roles : Roles) : Text → SignatureKind → Account → Prop where
  | authorizer {a : Account} : a ∈ roles.authorizers → Holds roles "authorizer" .payload a
  | proposer {a : Account} : roles.proposer = some a → Holds roles "proposer" .payload a
  | payer {a : Account} : roles.payer = some a → Holds roles "payer" .envelope a

/-- A requirement is that of an account in one of its roles. -/
def Asks (roles : Roles) (kind : SignatureKind) (a : Account) (r : Requirement) : Prop :=
  ∃ role key, roles.Holds role kind a ∧ a.defaultKey = .ok key ∧ r = ⟨a.address, key.index, kind, role, a⟩

theorem requirement_eq_ok {kind : SignatureKind} {role : Text} {a : Account} {r : Requirement} :
    requirement kind role a = .ok r ↔
      ∃ key, a.defaultKey = .ok key ∧ r = ⟨a.address, key.index, kind, role, a⟩ := by
  simp only [requirement, bind_eq_ok, pure_eq_ok, eq_comm (a := r)]

theorem Holds.asks {roles : Roles} {role : Text} {kind : SignatureKind} {a : Account} {r : Requirement}
    (hold : roles.Holds role kind a) (h : requirement kind role a = .ok r) : roles.Asks kind a r := by
  obtain ⟨key, hkey, hr⟩ := requirement_eq_ok.mp h
  exact ⟨role, key, hold, hkey, hr⟩

theorem distinct_concat_eq (rs : List Requirement) (r : Requirement) :
    distinct (rs ++ [r]) = if ∃ q ∈ distinct rs, q.slot = r.slot then distinct rs else distinct rs ++ [r] := by
  simp only [distinct, List.foldl_append, List.foldl_cons, List.foldl_nil, List.mem_reverse, List.any_eq_true,
    decide_eq_true_eq]
  split <;> simp

theorem exists_slot_distinct {rs : List Requirement} {s : Bytes × Int × SignatureKind} :
    (∃ q ∈ distinct rs, q.slot = s) ↔ ∃ q ∈ rs, q.slot = s := by
  induction rs using List.reverseRecOn with
  | nil => rfl
  | append_singleton rs r ih =>
    rw [distinct_concat_eq]
    simp only [List.mem_append, List.mem_singleton, or_and_right, exists_or, exists_eq_left, ← ih]
    split
    · rename_i hold
      refine ⟨.inl, ?_⟩
      rintro (h | rfl)
      · exact h
      · exact hold
    · simp only [List.mem_append, List.mem_singleton, or_and_right, exists_or, exists_eq_left]

theorem distinct_concat (rs : List Requirement) (r : Requirement) :
    distinct (rs ++ [r]) = if ∃ q ∈ rs, q.slot = r.slot then distinct rs else distinct rs ++ [r] := by
  simp only [distinct_concat_eq, exists_slot_distinct]

/-- Requirements of one kind are kept by their places. -/
theorem map_place_distinct {kind : SignatureKind} {rs : List Requirement} (h : ∀ r ∈ rs, r.kind = kind) :
    (distinct rs).map Requirement.place = (rs.map Requirement.place).eraseDups := by
  induction rs using List.reverseRecOn with
  | nil => rfl
  | append_singleton rs r ih =>
    have hrs : ∀ q ∈ rs, q.kind = kind := fun q hq => h q (List.mem_append_left _ hq)
    have hr : r.kind = kind := h r (List.mem_append_right _ (List.mem_singleton_self r))
    have hslot : (∃ q ∈ rs, q.slot = r.slot) ↔ r.place ∈ rs.map Requirement.place := by
      rw [List.mem_map]
      refine exists_congr fun q => and_congr_right fun hq => ?_
      simp [Requirement.slot, Requirement.place, hrs q hq, hr]
    rw [distinct_concat, List.map_append, List.map_singleton, Lists.eraseDups_concat]
    simp only [hslot, apply_ite (List.map Requirement.place), List.map_append, List.map_singleton, ih hrs]

/-- What is kept of a slot is the first requirement with it. -/
theorem find?_of_mem_distinct {rs : List Requirement} {r : Requirement} (h : r ∈ distinct rs) :
    rs.find? (fun q => q.slot = r.slot) = some r := by
  induction rs using List.reverseRecOn with
  | nil => cases h
  | append_singleton rs q ih =>
    rw [List.find?_append]
    rw [distinct_concat] at h
    split at h
    · rw [ih h, Option.some_or]
    · rename_i hnew
      rcases List.mem_append.mp h with h | h
      · rw [ih h, Option.some_or]
      · obtain rfl := List.mem_singleton.mp h
        have hnone : rs.find? (fun q => q.slot = r.slot) = none := by
          simpa [List.find?_eq_none] using hnew
        simp [hnone]

theorem Asks.place {roles : Roles} {kind : SignatureKind} {a : Account} {r : Requirement} (h : roles.Asks kind a r) :
    a.slot? = some r.place := by
  obtain ⟨role, key, _, hkey, rfl⟩ := h
  exact Account.slot?_of_defaultKey hkey

theorem Asks.account_eq {roles : Roles} {kind : SignatureKind} {a : Account} {r : Requirement}
    (h : roles.Asks kind a r) : r.account = a := by
  obtain ⟨_, _, _, _, rfl⟩ := h
  rfl

theorem Asks.kind_eq {roles : Roles} {kind : SignatureKind} {a : Account} {r : Requirement}
    (h : roles.Asks kind a r) : r.kind = kind := by
  obtain ⟨_, _, _, _, rfl⟩ := h
  rfl

/-- The payload is asked of every authorizer and then of the proposer, the envelope of the payer. -/
theorem requirements_eq_ok {roles : Roles} {needed : List Requirement} (h : roles.requirements = .ok needed) :
    ∃ proposer payer rs last, roles.proposer = some proposer ∧ roles.payer = some payer ∧
      List.Forall₂ (roles.Asks .payload) (roles.authorizers ++ [proposer]) rs ∧
      roles.Asks .envelope payer last ∧ needed = distinct rs ++ [last] := by
  unfold requirements at h
  split at h
  · rename_i proposer payer hproposer hpayer
    simp only [bind_eq_ok, mapM_eq_ok, pure_eq_ok] at h
    obtain ⟨authorizers, hauthorizers, first, hfirst, last, hlast, rfl⟩ := h
    refine ⟨proposer, payer, authorizers ++ [first], last, hproposer, hpayer, ?_, ?_, rfl⟩
    · refine List.rel_append ?_ (.cons ((Holds.proposer hproposer).asks hfirst) .nil)
      have hall : ∀ a ∈ roles.authorizers, roles.Holds "authorizer" .payload a := fun _ => .authorizer
      exact ((List.forall₂_and_left _ _).mpr ⟨hall, hauthorizers⟩).imp fun _ _ h => h.1.asks h.2
    · exact (Holds.payer hpayer).asks hlast
  · cases h

theorem Asks.of_mem {roles : Roles} {kind : SignatureKind} {accounts : List Account} {rs : List Requirement}
    (h : List.Forall₂ (roles.Asks kind) accounts rs) {r : Requirement} (hr : r ∈ rs) : roles.Asks kind r.account r := by
  induction h with
  | nil => cases hr
  | cons hfirst _ ih =>
    rcases List.mem_cons.mp hr with rfl | hr
    · rwa [hfirst.account_eq]
    · exact ih hr

theorem asks_of_mem_requirements {roles : Roles} {needed : List Requirement} (h : roles.requirements = .ok needed)
    {r : Requirement} (hr : r ∈ needed) : roles.Asks r.kind r.account r := by
  obtain ⟨_, _, rs, last, _, _, hrs, hlast, rfl⟩ := requirements_eq_ok h
  rcases List.mem_append.mp hr with hr | hr
  · have hasks := Asks.of_mem hrs (List.mem_of_find?_eq_some (find?_of_mem_distinct hr))
    rwa [hasks.kind_eq]
  · obtain rfl := List.mem_singleton.mp hr
    rwa [hlast.account_eq, hlast.kind_eq]

end Roles

end Signatory
