import Signatory.Proofs.Ledger.Naming
import Signatory.Proofs.Ledger.Submission
import Signatory.Proofs.Lists

/-! How a ledger grows. Whatever the runtime does, a submission changes accounts and puts one block at the end of the
chain at most; what it stores goes under new names, as long as digests do not collide, so that nothing is lost. -/

namespace Signatory
set_option autoImplicit false

/-- Nothing of the past is lost: the chain goes on, and all that is stored stays as it is. -/
structure Ledger.Extends (l l' : Ledger) : Prop where
  blocks : l.blocks <+: l'.blocks
  transactions : ∀ id t, l.transactions.find? id = some t → l'.transactions.find? id = some t
  results : ∀ id r, l.results.find? id = some r → l'.results.find? id = some r
  collections : ∀ id ids, l.collections.find? id = some ids → l'.collections.find? id = some ids
  events : ∀ id es, l.events.find? id = some es → l'.events.find? id = some es

namespace Ledger.Extends

variable {l l' l'' : Ledger}

theorem refl (l : Ledger) : l.Extends l :=
  ⟨List.prefix_refl _, fun _ _ h => h, fun _ _ h => h, fun _ _ h => h, fun _ _ h => h⟩

theorem trans (h : l.Extends l') (h' : l'.Extends l'') : l.Extends l'' where
  blocks := h.blocks.trans h'.blocks
  transactions id t ht := h'.transactions id t (h.transactions id t ht)
  results id r hr := h'.results id r (h.results id r hr)
  collections id ids hids := h'.collections id ids (h.collections id ids hids)
  events id es hes := h'.events id es (h.events id es hes)

theorem digests (h : l.Extends l') {p : Bytes} (hp : l.Digests p) : l'.Digests p := by
  rcases hp with ⟨b, hb, rfl⟩ | ⟨id, hid, rfl⟩
  · exact .inl ⟨b, h.blocks.subset hb, rfl⟩
  · obtain ⟨t, ht⟩ := OrderedMap.mem_keys_iff.mp hid
    exact .inr ⟨id, OrderedMap.mem_keys_iff.mpr ⟨t, h.transactions id t ht⟩, rfl⟩

theorem of_accounts (l : Ledger) (accounts : Accounts) (accountCounter : Nat) :
    l.Extends { l with accounts, accountCounter } :=
  ⟨List.prefix_refl _, fun _ _ h => h, fun _ _ h => h, fun _ _ h => h, fun _ _ h => h⟩

end Ledger.Extends

namespace Engine

variable {μ : Type} (E : Engine μ)

/-- Blocks go by the digest of what they hold, their height included, and all that is stored goes by the name of a
stored transaction or of a block. -/
structure Anchored (l : Ledger) : Prop where
  height : ∀ (i : Nat) (b : StoredBlock), l.blocks[i]? = some b → b.height = i
  named : ∀ b ∈ l.blocks, b.id = E.suite.digest b.preimage
  results : ∀ id ∈ l.results.keys, id ∈ l.transactions.keys
  collections : ∀ c ∈ l.collections.keys, ∃ id ∈ l.transactions.keys, c = E.collectionId id
  events : ∀ name ∈ l.events.keys, name ∈ l.blocks.map StoredBlock.id

/-- The ledgers that an attempt can leave: with other accounts, with a block that nothing is stored for, or sealed. -/
inductive Growing (l : Ledger) (x : Admission) : Ledger → Prop where
  | touched (accounts : Accounts) : Growing l x { l with accounts }
  | torn (accounts : Accounts) (time : Moment) : Growing l x
      { l with accounts, blocks := l.blocks ++ [E.nextBlock l.blocks [E.collectionId x.id] time] }
  | sealed (accounts : Accounts) (time : Moment) (events : List StoredEvent) (message : Text) :
      Growing l x (E.sealed l x accounts time events message)

variable {E} {l : Ledger} {x : Admission}

theorem Sealing.growing {s s' : State μ} {left : Accounts} {emitted : List Json} {message : Text}
    {answer : Except Error Bytes} (h : Sealing E s x emitted message answer s')
    (hs : s.ledger = { l with accounts := left }) : Growing E l x s'.ledger := by
  cases h with
  | noKey _ => exact hs ▸ .touched left
  | @noTime accounts _ _ _ =>
    rw [hs]
    exact .touched accounts
  | @noEvents accounts time _ _ _ _ =>
    rw [hs]
    exact .torn accounts time
  | @done accounts time events _ _ _ =>
    rw [hs]
    exact .sealed accounts time events message

theorem attempt_growing (s : State μ) (x : Admission) : Growing E s.ledger x (E.attempt s (.ok x)).2.ledger := by
  have hrunning := attempt_running E s x
  generalize E.attempt s (.ok x) = result at hrunning ⊢
  obtain ⟨answer, s'⟩ := result
  cases hrunning with
  | crashed _ => exact .touched s.ledger.accounts
  | failed _ hsealing => exact hsealing.growing rfl
  | done _ hsealing => exact hsealing.growing rfl

theorem Anchored.of_accounts (h : E.Anchored l) (accounts : Accounts) (accountCounter : Nat) :
    E.Anchored { l with accounts, accountCounter } := ⟨h.height, h.named, h.results, h.collections, h.events⟩

theorem anchored_start {service : RawKey} {memory : μ} {s : State μ} (h : E.start service memory = .ok s) :
    E.Anchored s.ledger := by
  obtain ⟨time, hledger⟩ := start_eq_ok h
  rw [hledger]
  constructor
  · intro i b hb
    cases i with
    | zero =>
      obtain rfl := Option.some.inj hb
      rfl
    | succ i => cases hb
  · intro b hb
    obtain rfl := List.mem_singleton.mp hb
    rfl
  all_goals exact List.forall_mem_nil _

theorem Anchored.concat (h : E.Anchored l) (accounts : Accounts) (collections : List Bytes) (time : Moment) :
    E.Anchored { l with accounts, blocks := l.blocks ++ [E.nextBlock l.blocks collections time] } where
  height i b hb := by
    rcases Lists.getElem?_concat_eq_some hb with hb | ⟨rfl, rfl⟩
    · exact h.height i b hb
    · rfl
  named b hb := by
    rcases List.mem_append.mp hb with hb | hb
    · exact h.named b hb
    · obtain rfl := List.mem_singleton.mp hb
      rfl
  results := h.results
  collections := h.collections
  events name hname := by
    rw [List.map_append]
    exact List.mem_append_left _ (h.events name hname)

theorem Growing.anchored {l' : Ledger} (hgrowing : Growing E l x l') (h : E.Anchored l) : E.Anchored l' := by
  cases hgrowing with
  | touched accounts => exact h.of_accounts accounts l.accountCounter
  | torn accounts time => exact h.concat accounts _ time
  | sealed accounts time events message =>
    have htorn := h.concat accounts [E.collectionId x.id] time
    refine ⟨htorn.height, htorn.named, ?_, ?_, ?_⟩
    · intro id hid
      rcases OrderedMap.mem_keys_insert.mp hid with hid | rfl
      · exact OrderedMap.mem_keys_insert.mpr (.inl (h.results id hid))
      · exact OrderedMap.mem_keys_insert.mpr (.inr rfl)
    · intro c hc
      rcases OrderedMap.mem_keys_insert.mp hc with hc | rfl
      · obtain ⟨id, hid, rfl⟩ := h.collections c hc
        exact ⟨id, OrderedMap.mem_keys_insert.mpr (.inl hid), rfl⟩
      · exact ⟨x.id, OrderedMap.mem_keys_insert.mpr (.inr rfl), rfl⟩
    · intro name hname
      rcases OrderedMap.mem_keys_insert.mp hname with hname | rfl
      · exact htorn.events name hname
      · exact List.mem_map_of_mem (List.mem_append_right _ (List.mem_singleton_self _))

section Sealed

variable {accounts : Accounts} {time : Moment} {events : List StoredEvent} {message : Text}

theorem digests_sealed {p : Bytes} (hfresh : x.id ∉ l.transactions.keys) (h : l.Digests p) :
    (E.sealed l x accounts time events message).Digests p := by
  rcases h with ⟨b, hb, rfl⟩ | ⟨id, hid, rfl⟩
  · exact .inl ⟨b, List.mem_append_left _ hb, rfl⟩
  · refine .inr ⟨id, ?_, rfl⟩
    rw [(transactions_sealed hfresh accounts time events message).1]
    exact List.mem_append_left _ hid

/-- The block and the collection go under names not used before. -/
theorem Anchored.fresh (h : E.Anchored l) (hfresh : x.id ∉ l.transactions.keys)
    (hfree : E.suite.CollisionFree (E.sealed l x accounts time events message).Digests) :
    (E.nextBlock l.blocks [E.collectionId x.id] time).id ∉ l.blocks.map StoredBlock.id ∧
      E.collectionId x.id ∉ l.collections.keys := by
  constructor
  · intro hold
    obtain ⟨c, hc, hsame⟩ := List.mem_map.mp hold
    have hnew : E.nextBlock l.blocks [E.collectionId x.id] time ∈ (E.sealed l x accounts time events message).blocks :=
      List.mem_append_right _ (List.mem_singleton_self _)
    rw [h.named c hc] at hsame
    have hpreimage := hfree _ _ (digests_sealed hfresh (.inl ⟨c, hc, rfl⟩)) (.inl ⟨_, hnew, rfl⟩) hsame
    obtain ⟨i, hi⟩ := List.mem_iff_getElem?.mp hc
    have hheight : c.height = (l.blocks.length : Int) := StoredBlock.height_eq_of_preimage hpreimage
    rw [h.height i c hi] at hheight
    have hlt := (List.getElem?_eq_some_iff.mp hi).1
    omega
  · intro hold
    obtain ⟨id, hid, hsame⟩ := h.collections _ hold
    have hnew : x.id ∈ (E.sealed l x accounts time events message).transactions.keys :=
      OrderedMap.mem_keys_iff.mpr ⟨_, OrderedMap.find?_insert_self⟩
    have hpreimage := hfree _ _ (.inr ⟨x.id, hnew, rfl⟩) (digests_sealed hfresh (.inr ⟨id, hid, rfl⟩)) hsame
    exact hfresh (collectionPreimage_inj hpreimage ▸ hid)

end Sealed

/-- A new transaction is stored beside all that is there, and overwrites nothing. -/
theorem Growing.extends {l' : Ledger} (hgrowing : Growing E l x l') (h : E.Anchored l)
    (hfresh : x.id ∉ l.transactions.keys) (hfree : E.suite.CollisionFree l'.Digests) : l.Extends l' := by
  cases hgrowing with
  | touched accounts => exact .of_accounts l accounts l.accountCounter
  | torn accounts time => exact ⟨List.prefix_append _ _, fun _ _ h => h, fun _ _ h => h, fun _ _ h => h, fun _ _ h => h⟩
  | sealed accounts time events message =>
    -- Each of the four maps gets a key that it does not have.
    obtain ⟨hblock, hcollection⟩ := h.fresh hfresh hfree
    constructor
    · exact List.prefix_append _ _
    · exact fun _ _ => OrderedMap.find?_insert_of_notMem hfresh
    · exact fun _ _ => OrderedMap.find?_insert_of_notMem fun hold => hfresh (h.results _ hold)
    · exact fun _ _ => OrderedMap.find?_insert_of_notMem hcollection
    · exact fun _ _ => OrderedMap.find?_insert_of_notMem fun hold => hblock (h.events _ hold)

theorem extends_attempt {s : State μ} {admission : Except Error Admission}
    (hadmitted : ∀ x, admission = .ok x → x.Admitted E.suite s.ledger) (h : E.Anchored s.ledger)
    (hfree : E.suite.CollisionFree (E.attempt s admission).2.ledger.Digests) :
    s.ledger.Extends (E.attempt s admission).2.ledger := by
  cases admission with
  | error _ => exact .refl _
  | ok x => exact (attempt_growing s x).extends h (hadmitted x rfl).fits.fresh hfree

theorem anchored_attempt {s : State μ} (h : E.Anchored s.ledger) (admission : Except Error Admission) :
    E.Anchored (E.attempt s admission).2.ledger := by
  cases admission with
  | error _ => exact h
  | ok x => exact (attempt_growing s x).anchored h

end Engine

end Signatory
