import Mathlib.Data.List.Induction
import Mathlib.Data.List.Nodup
import Signatory.Account.Basic

/-! A directory under requests that store and remove accounts. It is a map from names to accounts in the order in which
the names came: an account stored under a name of the directory takes the place of the other one, and each name leads to
what was stored last under it. -/

namespace Signatory.Directory
set_option autoImplicit false

variable {d : Directory} {a b : Account} {before behind : List Account}

def names (d : Directory) : List Text := d.accounts.map Account.name

theorem store_of_forall_ne {as : List Account} (h : ∀ b ∈ as, b.name ≠ a.name) : store a as = as ++ [a] := by
  induction as with
  | nil => rfl
  | cons b as ih =>
    rw [List.forall_mem_cons] at h
    rw [store, if_neg h.1, ih h.2, List.cons_append]

theorem store_append_cons (h : ∀ c ∈ before, c.name ≠ a.name) (hb : b.name = a.name) :
    store a (before ++ b :: behind) = before ++ a :: behind := by
  induction before with
  | nil => exact if_pos hb
  | cons c before ih =>
    rw [List.forall_mem_cons] at h
    rw [List.cons_append, store, if_neg h.1, ih h.2, List.cons_append]

theorem findName?_eq_none_iff {name : Text} : d.findName? name = none ↔ name ∉ d.names := by
  simp [findName?, names, List.find?_eq_none]

theorem isSome_findName?_iff {name : Text} : (d.findName? name).isSome = true ↔ name ∈ d.names := by
  rw [Option.isSome_iff_ne_none, ne_eq, findName?_eq_none_iff, not_not]

/-- No two accounts have one name: the accounts beside one of them have others. -/
theorem name_ne_of_split (hnames : d.names.Nodup) (h : d.accounts = before ++ b :: behind) :
    ∀ c ∈ before ++ behind, c.name ≠ b.name := by
  rintro c hc hname
  rw [names, h, List.map_append, List.map_cons, List.nodup_middle, List.nodup_cons, ← List.map_append] at hnames
  exact hnames.1 (hname ▸ List.mem_map_of_mem hc)

inductive Request where
  | put (a : Account)
  | remove (name : Text)

namespace Request

def name : Request → Text
  | put a => a.name
  | remove name => name

/-- The account that a request leaves under its name. -/
def account? : Request → Option Account
  | put a => some a
  | remove _ => none

end Request

/-- What a request answers, and the directory it leaves; one that fails leaves the directory as it was. -/
def answer (d : Directory) : Request → Except Error Unit × Directory
  | .put a => (.ok (), d.put a)
  | .remove name =>
    match d.remove name with
    | .ok d => (.ok (), d)
    | .error e => (.error e, d)

def after (d : Directory) (requests : List Request) : Directory := requests.foldl (fun d r => (d.answer r).2) d

theorem after_append (d : Directory) (rs rs' : List Request) : d.after (rs ++ rs') = (d.after rs).after rs' :=
  List.foldl_append

theorem after_concat (d : Directory) (rs : List Request) (r : Request) :
    d.after (rs ++ [r]) = ((d.after rs).answer r).2 := after_append d rs [r]

theorem answer_put_of_notMem (h : a.name ∉ d.names) : d.answer (.put a) = (.ok (), ⟨d.accounts ++ [a]⟩) := by
  rw [answer, put, store_of_forall_ne]
  exact fun b hb hname => h (hname ▸ List.mem_map_of_mem hb)

theorem answer_put_of_split (hnames : d.names.Nodup) (h : d.accounts = before ++ b :: behind) (hb : b.name = a.name) :
    d.answer (.put a) = (.ok (), ⟨before ++ a :: behind⟩) := by
  rw [answer, put, h, store_append_cons _ hb]
  exact fun c hc => hb ▸ name_ne_of_split hnames h c (List.mem_append_left behind hc)

theorem answer_remove_of_notMem {name : Text} (h : name ∉ d.names) :
    d.answer (.remove name) = (.error (.accountUnknown name), d) := by
  rw [answer, remove, if_neg (isSome_findName?_iff.not.mpr h)]

theorem answer_remove_of_mem {name : Text} (h : name ∈ d.names) :
    d.answer (.remove name) = (.ok (), ⟨d.accounts.filter fun a => a.name ≠ name⟩) := by
  rw [answer, remove, if_pos (isSome_findName?_iff.mpr h)]

theorem answer_remove_of_split (hnames : d.names.Nodup) (h : d.accounts = before ++ b :: behind) :
    d.answer (.remove b.name) = (.ok (), ⟨before ++ behind⟩) := by
  have hmem : b.name ∈ d.names := List.mem_map_of_mem (h ▸ List.mem_append_right before List.mem_cons_self)
  have hothers := name_ne_of_split hnames h
  have hkeep : ((before ++ behind).filter fun a => a.name ≠ b.name) = before ++ behind :=
    List.filter_eq_self.mpr fun c hc => decide_eq_true (hothers c hc)
  rw [answer_remove_of_mem hmem, h, List.filter_append, List.filter_cons_of_neg (by simp), ← List.filter_append, hkeep]

theorem findName?_put (name : Text) : (d.put a).findName? name = if a.name = name then some a else d.findName? name := by
  unfold findName? put
  induction d.accounts with
  | nil => by_cases ha : a.name = name <;> simp [store, ha]
  | cons b as ih =>
    rw [store, List.find?_cons]
    by_cases hname : b.name = a.name
    · rw [if_pos hname, List.find?_cons, hname]
      by_cases ha : a.name = name <;> simp [ha]
    · rw [if_neg hname, List.find?_cons]
      by_cases hb : b.name = name
      · have hne : a.name ≠ name := fun h => hname (hb.trans h.symm)
        simp [hb, hne]
      · simp [hb, ih]

/-- Whether a removal fails or not, it leaves the accounts of the other names. -/
theorem accounts_answer_remove (d : Directory) (name : Text) :
    (d.answer (.remove name)).2.accounts = d.accounts.filter fun a => a.name ≠ name := by
  by_cases h : name ∈ d.names
  · rw [answer_remove_of_mem h]
  · rw [answer_remove_of_notMem h, eq_comm, List.filter_eq_self]
    intro a ha
    exact decide_eq_true fun hname => h (hname ▸ List.mem_map_of_mem ha)

/-- A request decides what stands under its own name, and leaves the other names alone. -/
theorem findName?_answer (d : Directory) (r : Request) (name : Text) :
    (d.answer r).2.findName? name = if r.name = name then r.account? else d.findName? name := by
  cases r with
  | put a => exact findName?_put name
  | remove gone =>
    rw [findName?, accounts_answer_remove, List.find?_filter, findName?, Request.name, Request.account?]
    split
    · rename_i hgone
      simp [hgone]
    · rename_i hgone
      congr 1
      funext a
      by_cases ha : a.name = name <;> simp [ha, Ne.symm hgone]

theorem nodup_names_answer (h : d.names.Nodup) (r : Request) : (d.answer r).2.names.Nodup := by
  cases r with
  | put a =>
    by_cases hmem : a.name ∈ d.names
    · obtain ⟨b, hb, hname⟩ := List.mem_map.mp hmem
      obtain ⟨before, behind, hsplit⟩ := List.append_of_mem hb
      rw [answer_put_of_split h hsplit hname]
      rw [names, hsplit, List.map_append, List.map_cons, hname] at h
      rwa [names, List.map_append, List.map_cons]
    · rw [answer_put_of_notMem hmem, names, List.map_append, List.map_singleton]
      exact List.nodup_append_comm.mp (List.nodup_cons.mpr ⟨hmem, h⟩)
  | remove name =>
    rw [names, accounts_answer_remove]
    exact h.sublist (List.filter_sublist.map _)

theorem nodup_names_after (h : d.names.Nodup) (rs : List Request) : (d.after rs).names.Nodup := by
  induction rs using List.reverseRecOn with
  | nil => exact h
  | append_singleton rs r ih =>
    rw [after_concat]
    exact nodup_names_answer ih r

/-- The account is what was stored last under the name, and the name was not removed afterwards. -/
def LastStored (history : List Request) (name : Text) (a : Account) : Prop :=
  ∃ before later, history = before ++ .put a :: later ∧ a.name = name ∧ ∀ r ∈ later, r.name ≠ name

theorem not_lastStored_nil (name : Text) (a : Account) : ¬LastStored [] name a := by
  rintro ⟨before, later, h, _⟩
  exact List.append_ne_nil_of_right_ne_nil before (List.cons_ne_nil _ later) h.symm

theorem lastStored_concat_iff (history : List Request) (r : Request) (name : Text) (a : Account) :
    LastStored (history ++ [r]) name a ↔ if r.name = name then r.account? = some a else LastStored history name a := by
  constructor
  · -- The account was stored by the new request, or by one of the history.
    rintro ⟨before, later, h, ha, hlater⟩
    rcases List.eq_nil_or_concat' later with rfl | ⟨later, r', rfl⟩
    · obtain rfl := List.singleton_inj.mp (List.append_inj' h rfl).2
      exact (if_pos ha).mpr rfl
    · rw [← List.cons_append, ← List.append_assoc] at h
      obtain ⟨rfl, hr⟩ := List.append_inj' h rfl
      obtain rfl := List.singleton_inj.mp hr
      rw [List.forall_mem_append] at hlater
      rw [if_neg (hlater.2 r (List.mem_singleton_self r))]
      exact ⟨before, later, rfl, ha, hlater.1⟩
  · split
    · rename_i hr
      intro h
      cases r with
      | put b =>
        obtain rfl := Option.some.inj h
        exact ⟨history, [], rfl, hr, List.forall_mem_nil _⟩
      | remove => cases h
    · rename_i hr
      rintro ⟨before, later, rfl, ha, hlater⟩
      refine ⟨before, later ++ [r], List.append_assoc .., ha, List.forall_mem_append.mpr ⟨hlater, ?_⟩⟩
      exact List.forall_mem_singleton.mpr hr

/-- Under each name stands what was stored last under it. -/
theorem findName?_after_iff (history : List Request) (name : Text) (a : Account) :
    (after ⟨[]⟩ history).findName? name = some a ↔ LastStored history name a := by
  induction history using List.reverseRecOn with
  | nil => exact iff_of_false nofun (not_lastStored_nil name a)
  | append_singleton history r ih =>
    rw [after_concat, findName?_answer, lastStored_concat_iff]
    split
    · rfl
    · exact ih

/-- Accounts of different names, stored one after another, stand in that order. -/
theorem after_puts {accounts : List Account} (h : (accounts.map Account.name).Nodup) :
    after ⟨[]⟩ (accounts.map .put) = ⟨accounts⟩ := by
  induction accounts using List.reverseRecOn with
  | nil => rfl
  | append_singleton accounts a ih =>
    rw [List.map_append, List.nodup_append] at h
    have hnew : a.name ∉ (⟨accounts⟩ : Directory).names := fun ha => h.2.2 _ ha _ (List.mem_singleton_self _) rfl
    rw [List.map_append, List.map_singleton, after_concat, ih h.1, answer_put_of_notMem hnew]

/-- What a directory is after a history of requests, and what each further request makes of it. -/
structure Ordered (history : List Request) (d : Directory) : Prop where
  distinct : d.names.Nodup
  found : ∀ name a, d.findName? name = some a ↔ LastStored history name a
  update : ∀ a b before behind, d.accounts = before ++ b :: behind → b.name = a.name →
    d.answer (.put a) = (.ok (), ⟨before ++ a :: behind⟩)
  append : ∀ a, a.name ∉ d.names → d.answer (.put a) = (.ok (), ⟨d.accounts ++ [a]⟩)
  removal : ∀ b before behind, d.accounts = before ++ b :: behind →
    d.answer (.remove b.name) = (.ok (), ⟨before ++ behind⟩)
  refusal : ∀ name, name ∉ d.names → d.answer (.remove name) = (.error (.accountUnknown name), d)

theorem ordered_after {initial : List Account} (h : (initial.map Account.name).Nodup) (requests : List Request) :
    Ordered (initial.map .put ++ requests) (after ⟨initial⟩ requests) := by
  have hnames : (after ⟨initial⟩ requests).names.Nodup := nodup_names_after h requests
  constructor
  case distinct => exact hnames
  case found =>
    intro name a
    rw [← findName?_after_iff, after_append, after_puts h]
  case update => exact fun a b before behind hsplit => answer_put_of_split hnames hsplit
  case append => exact fun a => answer_put_of_notMem
  case removal => exact fun b before behind => answer_remove_of_split hnames
  case refusal => exact fun name => answer_remove_of_notMem

end Signatory.Directory
