/-! Finite maps that remember the order in which their keys came. Storing under a key that is present
keeps its place; a new key goes last. -/

namespace Signatory
set_option autoImplicit false

namespace Entries

variable {κ ν : Type}

def keys (es : List (κ × ν)) : List κ := es.map Prod.fst

section

variable [BEq κ]

def find? (k : κ) : List (κ × ν) → Option ν
  | [] => none
  | e :: rest => if e.1 == k then some e.2 else find? k rest

def insert (k : κ) (v : ν) : List (κ × ν) → List (κ × ν)
  | [] => [(k, v)]
  | e :: rest => if e.1 == k then (e.1, v) :: rest else e :: insert k v rest

def erase (k : κ) (es : List (κ × ν)) : List (κ × ν) := es.filter fun e => !e.1 == k

def collect (es : List (κ × ν)) : List (κ × ν) := es.foldl (fun acc e => insert e.1 e.2 acc) []

end

variable [DecidableEq κ]

theorem find?_insert (k k' : κ) (v : ν) (es : List (κ × ν)) :
    find? k' (insert k v es) = if k = k' then some v else find? k' es := by
  induction es with
  | nil => simp [insert, find?]
  | cons e rest ih =>
    by_cases h : e.1 = k
    · subst h
      by_cases h' : e.1 = k' <;> simp [insert, find?, h']
    · by_cases h' : e.1 = k'
      · have hk : ¬ k = k' := fun hk => h (h'.trans hk.symm)
        subst h'
        simp [insert, find?, h, hk]
      · simp [insert, find?, h, h', ih]

theorem keys_insert (k : κ) (v : ν) (es : List (κ × ν)) :
    keys (insert k v es) = if k ∈ keys es then keys es else keys es ++ [k] := by
  induction es with
  | nil => simp [insert, keys]
  | cons e rest ih =>
    by_cases h : e.1 = k
    · subst h
      simp [insert, keys]
    · have hk : ¬ k = e.1 := fun hk => h hk.symm
      simp only [keys] at ih
      by_cases hm : k ∈ rest.map Prod.fst
      · simp [insert, keys, h, hk, ih, hm]
      · simp [insert, keys, h, hk, ih, hm]

theorem nodup_keys_insert (k : κ) (v : ν) {es : List (κ × ν)} (h : (keys es).Nodup) :
    (keys (insert k v es)).Nodup := by
  rw [keys_insert]
  split
  · exact h
  · rename_i hk
    exact List.nodup_append.mpr ⟨h, by simp, by
      intro a ha b hb
      simp only [List.mem_singleton] at hb
      subst hb
      exact fun hab => hk (hab ▸ ha)⟩

theorem nodup_keys_erase (k : κ) {es : List (κ × ν)} (h : (keys es).Nodup) :
    (keys (erase k es)).Nodup :=
  List.Nodup.sublist (List.Sublist.map _ List.filter_sublist) h

end Entries

/-- A map in the order in which its keys came, each key once. -/
structure OrderedMap (κ ν : Type) where
  entries : List (κ × ν)
  nodup : (Entries.keys entries).Nodup

namespace OrderedMap

variable {κ ν : Type}

def empty : OrderedMap κ ν := ⟨[], List.nodup_nil⟩

instance : Inhabited (OrderedMap κ ν) := ⟨empty⟩

def keys (m : OrderedMap κ ν) : List κ := Entries.keys m.entries

def values (m : OrderedMap κ ν) : List ν := m.entries.map Prod.snd

@[ext] theorem ext {m m' : OrderedMap κ ν} (h : m.entries = m'.entries) : m = m' := by
  cases m
  cases m'
  simp_all

variable [DecidableEq κ]

def find? (m : OrderedMap κ ν) (k : κ) : Option ν := Entries.find? k m.entries

def contains (m : OrderedMap κ ν) (k : κ) : Bool := (m.find? k).isSome

def insert (m : OrderedMap κ ν) (k : κ) (v : ν) : OrderedMap κ ν :=
  ⟨Entries.insert k v m.entries, Entries.nodup_keys_insert k v m.nodup⟩

def erase (m : OrderedMap κ ν) (k : κ) : OrderedMap κ ν :=
  ⟨Entries.erase k m.entries, Entries.nodup_keys_erase k m.nodup⟩

def ofList (es : List (κ × ν)) : OrderedMap κ ν := es.foldl (fun m e => m.insert e.1 e.2) empty

def modify (m : OrderedMap κ ν) (k : κ) (f : ν → ν) : OrderedMap κ ν :=
  match m.find? k with
  | some v => m.insert k (f v)
  | none => m

def reverse (m : OrderedMap κ ν) : OrderedMap κ ν :=
  ⟨m.entries.reverse, by
    have h := m.nodup
    simp only [Entries.keys, List.map_reverse] at h ⊢
    exact List.pairwise_reverse.mpr (h.imp Ne.symm)⟩

theorem find?_insert (m : OrderedMap κ ν) (k k' : κ) (v : ν) :
    (m.insert k v).find? k' = if k = k' then some v else m.find? k' :=
  Entries.find?_insert k k' v m.entries

theorem keys_insert (m : OrderedMap κ ν) (k : κ) (v : ν) :
    (m.insert k v).keys = if k ∈ m.keys then m.keys else m.keys ++ [k] :=
  Entries.keys_insert k v m.entries

/-- Whether two maps hold the same entries, in whatever order. -/
def sameEntries [BEq ν] (m m' : OrderedMap κ ν) : Bool :=
  m.entries.length == m'.entries.length &&
    m.entries.all fun e => (m'.find? e.1).any (· == e.2)

end OrderedMap

end Signatory
