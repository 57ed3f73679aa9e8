import Mathlib.Data.List.Infix
import Mathlib.Order.Lattice
import Signatory.RateLimit

/-! What a store of recent messages recalls. Messages of one interval expire in the order in which they were stored; so a
store holds the last of them, and lacks a message that has not expired only if its capacity has been filled since. -/

namespace Signatory.RecentMessages
set_option autoImplicit false

variable {τ : Type} [LinearOrder τ] {now : τ} {key : Text} {all messages : RecentMessages τ}

theorem isLive_iff : isLive now key messages = true ↔ ∃ m ∈ messages, m.1 = key ∧ now < m.2 := by
  simp [isLive]

/-- Messages in the order in which they expire. -/
def Ordered (messages : RecentMessages τ) : Prop := messages.Pairwise fun m n => m.2 ≤ n.2

theorem expire_suffix : expire now messages <:+ messages := List.dropWhile_suffix _

theorem expire_cons (m : Text × τ) :
    expire now (m :: messages) = if now < m.2 then m :: messages else expire now messages := by
  by_cases h : now < m.2 <;> simp [expire, h]

/-- No message that lives goes with those that have expired. -/
theorem suffix_expire {m : Text × τ} {later : RecentMessages τ} (h : m :: later <:+ messages) (hlive : now < m.2) :
    m :: later <:+ expire now messages := by
  induction messages with
  | nil => cases List.suffix_nil.mp h
  | cons n messages ih =>
    rw [expire_cons]
    split
    · exact h
    · rename_i hover
      rcases List.suffix_cons_iff.mp h with heq | h
      · obtain ⟨rfl, _⟩ := List.cons.inj heq
        exact absurd hlive hover
      · exact ih h

/-- In the order of expiry, all that is left lives. -/
theorem lt_of_mem_expire (h : Ordered messages) {m : Text × τ} (hm : m ∈ expire now messages) : now < m.2 := by
  induction messages with
  | nil => cases hm
  | cons n messages ih =>
    obtain ⟨hfirst, hrest⟩ := List.pairwise_cons.mp h
    rw [expire_cons] at hm
    split at hm
    · rename_i hlive
      rcases List.mem_cons.mp hm with rfl | hm
      · exact hlive
      · exact lt_of_lt_of_le hlive (hfirst m hm)
    · exact ih hrest hm

/-- What a store holds at a time, of all messages that have come to it: the last ones, and among them each that has
neither expired nor been followed by as many others as there is room for. -/
structure Recalls (now : τ) (all messages : RecentMessages τ) : Prop where
  suffix : messages <:+ all
  length_le : messages.length ≤ capacity
  kept : ∀ m later, m :: later <:+ all → now < m.2 → later.length < capacity → m :: later <:+ messages

theorem recalls_nil : Recalls now [] [] where
  suffix := List.suffix_rfl
  length_le := Nat.zero_le _
  kept _ _ h _ _ := h

theorem Recalls.mono {now' : τ} (h : Recalls now all messages) (hle : now ≤ now') : Recalls now' all messages where
  suffix := h.suffix
  length_le := h.length_le
  kept m later hlater hlive := h.kept m later hlater (lt_of_le_of_lt hle hlive)

theorem Recalls.isLive_iff (h : Recalls now all messages) : isLive now key messages = true ↔
    ∃ m later, m :: later <:+ all ∧ m.1 = key ∧ now < m.2 ∧ later.length < capacity := by
  rw [RecentMessages.isLive_iff]
  constructor
  · rintro ⟨m, hm, hkey, hlive⟩
    obtain ⟨before, later, rfl⟩ := List.append_of_mem hm
    have hlength := h.length_le
    rw [List.length_append, List.length_cons] at hlength
    exact ⟨m, later, (List.suffix_append before _).trans h.suffix, hkey, hlive, by omega⟩
  · rintro ⟨m, later, hlater, hkey, hlive, hfew⟩
    exact ⟨m, (h.kept m later hlater hlive hfew).mem List.mem_cons_self, hkey, hlive⟩

section

variable [Add τ] {interval : τ}

/-- A message that is not suppressed goes last, and room is made for it at the front. -/
theorem store_eq (h : Ordered messages) (hsilent : isLive now key messages = false) :
    store now interval key messages =
      (expire now messages).drop ((expire now messages).length + 1 - capacity) ++ [(key, now + interval)] := by
  have hnew : (expire now messages).any (fun m => m.1 == key) = false := by
    rw [← Bool.not_eq_true, List.any_eq_true]
    rintro ⟨m, hm, hkey⟩
    have hlive : isLive now key messages = true :=
      RecentMessages.isLive_iff.mpr ⟨m, expire_suffix.mem hm, beq_iff_eq.mp hkey, lt_of_mem_expire h hm⟩
    rw [hsilent] at hlive
    cases hlive
  rw [store, makeRoom, if_neg (Bool.not_eq_true _ ▸ hnew)]

/-- Whatever is dropped as a message comes has expired, or has had the whole capacity after it. -/
theorem Recalls.store {now' : τ} (h : Recalls now all messages) (hle : now ≤ now') (hordered : Ordered all)
    (hsilent : isLive now' key messages = false) :
    Recalls now' (all ++ [(key, now' + interval)]) (store now' interval key messages) := by
  rw [store_eq (List.Pairwise.sublist h.suffix.sublist hordered) hsilent]
  have hroom : ((expire now' messages).drop ((expire now' messages).length + 1 - capacity)).length =
      min (expire now' messages).length (capacity - 1) := by
    rw [List.length_drop, capacity]
    omega
  refine ⟨?_, ?_, ?_⟩
  · rw [List.suffix_append_self_iff]
    exact (List.drop_suffix _ _).trans (expire_suffix.trans h.suffix)
  · rw [List.length_append, hroom, List.length_singleton, capacity]
    omega
  · intro m later hlater hlive hfew
    rcases List.suffix_concat_iff.mp hlater with hnil | ⟨front, hfront, hold⟩
    · cases hnil
    rw [hfront, List.suffix_append_self_iff]
    cases front with
    | nil => exact List.nil_suffix
    | cons n front =>
      rw [List.cons_append] at hfront
      obtain ⟨rfl, rfl⟩ := List.cons.inj hfront
      rw [List.length_append, List.length_singleton] at hfew
      have hheld := h.kept m front hold (lt_of_le_of_lt hle hlive) (Nat.lt_of_succ_lt hfew)
      have hleft := suffix_expire hheld hlive
      refine List.suffix_of_suffix_length_le hleft (List.drop_suffix _ _) ?_
      rw [hroom, List.length_cons, capacity]
      have := hleft.length_le
      rw [List.length_cons] at this
      rw [capacity] at hfew
      omega

end

end Signatory.RecentMessages
