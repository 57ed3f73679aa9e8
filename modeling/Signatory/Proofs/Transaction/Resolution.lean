import Signatory.Proofs.Account.Directory
import Signatory.Proofs.Lists
import Signatory.Proofs.Outcome
import Signatory.Transaction.Roles

/-! Roles resolved from names. The names are looked up one after another, each for its role; the first that leads to no
account ends the resolution. -/

namespace Signatory.Roles
set_option autoImplicit false

variable {α β : Type} {d : Directory} {role name : Text} {signer proposer payer : Option Text} {authorizers : List Text}

def inRole (role : Text) (names : List Text) : List (Text × Text) := names.map fun name => (role, name)

/-- The names to look up, each behind its role, in the order in which they are looked up. -/
def asked (signer proposer payer : Option Text) (authorizers : List Text) : List (Text × Text) :=
  inRole "signer" signer.toList ++ (inRole "proposer" proposer.toList ++
    (inRole "payer" payer.toList ++ inRole "authorizer" authorizers))

def firstUnknown? (d : Directory) (asked : List (Text × Text)) : Option (Text × Text) :=
  asked.find? fun x => (d.findName? x.2).isNone

/-- A signer is given together with another role. -/
def Conflicting (signer proposer payer : Option Text) (authorizers : List Text) : Prop :=
  signer ≠ none ∧ (proposer ≠ none ∨ payer ≠ none ∨ authorizers ≠ [])

/-- How the names of roles are to be resolved. -/
inductive Resolution (d : Directory) (signer proposer payer : Option Text) (authorizers : List Text) :
    Except Error Roles → Prop
  | conflict (h : Conflicting signer proposer payer authorizers) :
      Resolution d signer proposer payer authorizers (.error .roleConflict)
  | unknown {role name : Text} (hfree : ¬Conflicting signer proposer payer authorizers)
      (h : firstUnknown? d (asked signer proposer payer authorizers) = some (role, name)) :
      Resolution d signer proposer payer authorizers (.error (.accountNotFound role name))
  | signer {name : Text} {a : Account} (hfree : ¬Conflicting signer proposer payer authorizers)
      (hsigner : signer = some name) (ha : d.findName? name = some a) :
      Resolution d signer proposer payer authorizers (.ok ⟨some a, some a, [a]⟩)
  | roles {r : Roles} (hsigner : signer = none) (hproposer : proposer.map d.findName? = r.proposer.map some)
      (hpayer : payer.map d.findName? = r.payer.map some)
      (hauthorizers : authorizers.map d.findName? = r.authorizers.map some) :
      Resolution d signer proposer payer authorizers (.ok r)

theorem lookup_eq_ok_iff {a : Account} : lookup d role name = .ok a ↔ d.findName? name = some a := by
  rw [lookup]
  split
  · rename_i h
    rw [h, Except.ok.injEq, Option.some.injEq]
  · rename_i h
    simp [h]

theorem lookup_of_none (h : d.findName? name = none) : lookup d role name = .error (.accountNotFound role name) := by
  rw [lookup, h]

/-- The computation fails with the first of the names that is unknown, and succeeds when there is none. -/
def Searches (d : Directory) (asked : List (Text × Text)) (x : Except Error α) : Prop :=
  match firstUnknown? d asked with
  | some (role, name) => x = .error (.accountNotFound role name)
  | none => ∃ a, x = .ok a

theorem Searches.pure (a : α) : Searches d [] (pure a : Except Error α) := ⟨a, rfl⟩

/-- A search in two parts, the second of which may use what the first one found. -/
theorem Searches.bind {xs ys : List (Text × Text)} {x : Except Error α} {f : α → Except Error β}
    (hx : Searches d xs x) (hf : ∀ a, Searches d ys (f a)) : Searches d (xs ++ ys) (x >>= f) := by
  unfold Searches firstUnknown? at hx
  rw [Searches, firstUnknown?, List.find?_append]
  split at hx
  · rename_i role name hfirst
    rw [hfirst, hx]
    rfl
  · rename_i hfirst
    obtain ⟨a, rfl⟩ := hx
    rw [hfirst]
    exact hf a

theorem Searches.map {xs : List (Text × Text)} {x : Except Error α} (h : Searches d xs x) (f : α → β) :
    Searches d xs (f <$> x) := by
  unfold Searches at h ⊢
  split at h
  · rw [h]
    rfl
  · obtain ⟨a, rfl⟩ := h
    exact ⟨f a, rfl⟩

theorem searches_lookup (d : Directory) (role name : Text) : Searches d [(role, name)] (lookup d role name) := by
  rw [Searches, firstUnknown?, List.find?_singleton]
  cases h : d.findName? name with
  | none => exact lookup_of_none h
  | some a => exact ⟨a, lookup_eq_ok_iff.mpr h⟩

theorem searches_lookupOptional (d : Directory) (role : Text) {name : Option Text} (h : name ≠ some []) :
    Searches d (inRole role name.toList) (lookupOptional d role name) := by
  match name with
  | none => exact .pure none
  | some [] => exact absurd rfl h
  | some (p :: rest) => exact (searches_lookup d role (p :: rest)).map some

theorem searches_mapM (d : Directory) (role : Text) (names : List Text) :
    Searches d (inRole role names) (names.mapM (lookup d role)) := by
  induction names with
  | nil => exact .pure []
  | cons name names ih =>
    simp only [List.mapM_cons, bind_pure_comp]
    exact (searches_lookup d role name).bind fun a => ih.map (a :: ·)

theorem isGiven_iff {name : Option Text} (h : name ≠ some []) : isGiven name = true ↔ name ≠ none := by
  match name with
  | none => simp [isGiven]
  | some [] => exact absurd rfl h
  | some (p :: rest) => simp [isGiven]

theorem resolve_of_conflicting (hsigner : signer ≠ some []) (hproposer : proposer ≠ some []) (hpayer : payer ≠ some [])
    (h : Conflicting signer proposer payer authorizers) :
    resolve d signer proposer payer authorizers = .error .roleConflict := by
  obtain ⟨hgiven, hother⟩ := h
  match signer with
  | none => exact absurd rfl hgiven
  | some [] => exact absurd rfl hsigner
  | some (p :: rest) =>
    rw [resolve, if_pos]
    simpa [isGiven_iff hproposer, isGiven_iff hpayer, or_assoc] using hother

theorem eq_of_not_conflicting (h : ¬Conflicting (some name) proposer payer authorizers) :
    proposer = none ∧ payer = none ∧ authorizers = [] := by
  simpa [Conflicting] using h

theorem resolve_signer (d : Directory) (h : some name ≠ some []) :
    resolve d (some name) none none [] = (fun a => ⟨some a, some a, [a]⟩) <$> lookup d "signer" name := by
  match name with
  | [] => exact absurd rfl h
  | p :: rest => simp [resolve, isGiven, bind_pure_comp]

theorem resolve_signer_eq_ok_iff (h : some name ≠ some []) {r : Roles} :
    resolve d (some name) none none [] = .ok r ↔ ∃ a, d.findName? name = some a ∧ ⟨some a, some a, [a]⟩ = r := by
  simp only [resolve_signer d h, ← bind_pure_comp, Outcome.bind_eq_ok, Outcome.pure_eq_ok, lookup_eq_ok_iff]

theorem lookupOptional_eq_ok_iff {name? : Option Text} (h : name? ≠ some []) {found : Option Account} :
    lookupOptional d role name? = .ok found ↔ name?.map d.findName? = found.map some := by
  match name? with
  | none => cases found <;> simp [lookupOptional]
  | some [] => exact absurd rfl h
  | some (p :: rest) =>
    rw [lookupOptional]
    cases ha : d.findName? (p :: rest) with
    | none =>
      rw [lookup_of_none ha]
      cases found <;> simp [Except.map, ha]
    | some a =>
      rw [lookup_eq_ok_iff.mpr ha]
      cases found <;> simp [Except.map, ha]

theorem mapM_lookup_eq_ok_iff {names : List Text} {found : List Account} :
    names.mapM (lookup d role) = .ok found ↔ names.map d.findName? = found.map some := by
  rw [Outcome.mapM_eq_ok, Lists.map_eq_map_iff]
  simp only [lookup_eq_ok_iff]

theorem resolve_eq_ok_iff (hproposer : proposer ≠ some []) (hpayer : payer ≠ some []) {r : Roles} :
    resolve d none proposer payer authorizers = .ok r ↔ proposer.map d.findName? = r.proposer.map some ∧
      payer.map d.findName? = r.payer.map some ∧ authorizers.map d.findName? = r.authorizers.map some := by
  simp only [resolve, Outcome.bind_eq_ok, Outcome.pure_eq_ok, lookupOptional_eq_ok_iff hproposer,
    lookupOptional_eq_ok_iff hpayer, mapM_lookup_eq_ok_iff]
  constructor
  · rintro ⟨a, ha, b, hb, as, has, rfl⟩
    exact ⟨ha, hb, has⟩
  · rintro ⟨ha, hb, has⟩
    exact ⟨_, ha, _, hb, _, has, rfl⟩

theorem searches_resolve (hsigner : signer ≠ some []) (hproposer : proposer ≠ some []) (hpayer : payer ≠ some [])
    (hfree : ¬Conflicting signer proposer payer authorizers) :
    Searches d (asked signer proposer payer authorizers) (resolve d signer proposer payer authorizers) := by
  cases signer with
  | none =>
    -- Three searches one after another, in the order of the names.
    simp only [resolve, bind_pure_comp]
    exact (searches_lookupOptional d "proposer" hproposer).bind fun _ =>
      (searches_lookupOptional d "payer" hpayer).bind fun _ => (searches_mapM d "authorizer" authorizers).map _
  | some name =>
    obtain ⟨rfl, rfl, rfl⟩ := eq_of_not_conflicting hfree
    rw [resolve_signer d hsigner]
    exact (searches_lookup d "signer" name).map _

theorem resolution_resolve (d : Directory) (hsigner : signer ≠ some []) (hproposer : proposer ≠ some [])
    (hpayer : payer ≠ some []) (authorizers : List Text) :
    Resolution d signer proposer payer authorizers (resolve d signer proposer payer authorizers) := by
  by_cases hconflict : Conflicting signer proposer payer authorizers
  · rw [resolve_of_conflicting hsigner hproposer hpayer hconflict]
    exact .conflict hconflict
  · have hsearch := searches_resolve (d := d) hsigner hproposer hpayer hconflict
    unfold Searches at hsearch
    split at hsearch
    · rename_i role name hunknown
      rw [hsearch]
      exact .unknown hconflict hunknown
    · obtain ⟨r, hr⟩ := hsearch
      rw [hr]
      cases signer with
      | none =>
        obtain ⟨hp, hq, has⟩ := (resolve_eq_ok_iff hproposer hpayer).mp hr
        exact .roles rfl hp hq has
      | some name =>
        obtain ⟨rfl, rfl, rfl⟩ := eq_of_not_conflicting hconflict
        obtain ⟨a, ha, rfl⟩ := (resolve_signer_eq_ok_iff hsigner).mp hr
        exact .signer hconflict rfl ha

theorem Resolution.resolve_eq (hsigner : signer ≠ some []) (hproposer : proposer ≠ some []) (hpayer : payer ≠ some [])
    {answer : Except Error Roles} (h : Resolution d signer proposer payer authorizers answer) :
    resolve d signer proposer payer authorizers = answer := by
  cases h with
  | conflict h => exact resolve_of_conflicting hsigner hproposer hpayer h
  | unknown hfree h =>
    have hsearch := searches_resolve (d := d) hsigner hproposer hpayer hfree
    simpa only [Searches, h] using hsearch
  | signer hfree hname ha =>
    subst hname
    obtain ⟨rfl, rfl, rfl⟩ := eq_of_not_conflicting hfree
    exact (resolve_signer_eq_ok_iff hsigner).mpr ⟨_, ha, rfl⟩
  | roles hnone hp hq has =>
    subst hnone
    exact (resolve_eq_ok_iff hproposer hpayer).mpr ⟨hp, hq, has⟩

theorem resolve_iff (d : Directory) (hsigner : signer ≠ some []) (hproposer : proposer ≠ some [])
    (hpayer : payer ≠ some []) (authorizers : List Text) (answer : Except Error Roles) :
    resolve d signer proposer payer authorizers = answer ↔ Resolution d signer proposer payer authorizers answer := by
  constructor
  · rintro rfl
    exact resolution_resolve d hsigner hproposer hpayer authorizers
  · exact Resolution.resolve_eq hsigner hproposer hpayer

/-- The accounts of a configuration are an ordered map after every history of requests, and roles are resolved through
it: a name leads to the account that was stored last under it. -/
theorem resolution_through_history {initial : List Account} (h : (initial.map Account.name).Nodup)
    (requests : List Directory.Request) :
    Directory.Ordered (initial.map .put ++ requests) (.after ⟨initial⟩ requests) ∧
      ∀ signer proposer payer : Option Text, signer ≠ some [] → proposer ≠ some [] → payer ≠ some [] →
        ∀ (authorizers : List Text) (answer : Except Error Roles),
          resolve (.after ⟨initial⟩ requests) signer proposer payer authorizers = answer ↔
            Resolution (.after ⟨initial⟩ requests) signer proposer payer authorizers answer :=
  ⟨Directory.ordered_after h requests, fun _ _ _ hsigner hproposer hpayer authorizers answer =>
    resolve_iff _ hsigner hproposer hpayer authorizers answer⟩

/-- An account without keys, its address being a number. -/
def keyless (name : Text) (n : Nat) : Account := ⟨name, Bytes.ofNat Address.size n, [], n⟩

theorem resolution_through_history_replaced :
    let d : Directory := .after ⟨[keyless "alice" 1, keyless "bob" 2]⟩
      [.put (keyless "carol" 3), .put (keyless "alice" 4), .remove "bob", .remove "bob"]
    d.names = ["alice", "carol"] ∧ d.findName? "alice" = some (keyless "alice" 4) ∧
      resolve d none (some "alice") none ["carol", "carol"] =
        .ok ⟨some (keyless "alice" 4), none, [keyless "carol" 3, keyless "carol" 3]⟩ ∧
      resolve d none (some "alice") (some "bob") ["dave"] = .error (.accountNotFound "payer" "bob") := by
  obtain ⟨hordered, hresolve⟩ := resolution_through_history
    (show ([keyless "alice" 1, keyless "bob" 2].map Account.name).Nodup by decide)
    [.put (keyless "carol" 3), .put (keyless "alice" 4), .remove "bob", .remove "bob"]
  have halice : (some "alice" : Option Text) ≠ some [] := by decide
  have hbob : (some "bob" : Option Text) ≠ some [] := by decide
  refine ⟨rfl, (hordered.found "alice" (keyless "alice" 4)).mpr ?_, ?_, ?_⟩
  · exact ⟨[.put (keyless "alice" 1), .put (keyless "bob" 2), .put (keyless "carol" 3)], _, rfl, rfl, by decide⟩
  · exact (hresolve none (some "alice") none nofun halice nofun _ _).mpr (.roles rfl rfl rfl rfl)
  · exact (hresolve none (some "alice") (some "bob") nofun halice hbob _ _).mpr (.unknown nofun rfl)

end Signatory.Roles
