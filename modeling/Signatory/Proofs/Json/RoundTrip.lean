import Signatory.Proofs.Json.Canonical
import Signatory.Proofs.OrderedMap

/-! JSON values read back: the text of a value is read as that value, with the fields of its objects in the order of
their keys. -/

namespace Signatory.Json
set_option autoImplicit false

/-- Values that come back as they went. A double does so where its text is read as that double. -/
inductive Portable : Json → Prop where
  | null : Portable null
  | bool (b : Bool) : Portable (bool b)
  | int {i : Int} : i.natAbs < 10 ^ Text.Numeral.digitLimit → Portable (int i)
  | float {x : Binary64} : scalar? (renderFloat x) = some (.float x, []) → Portable (float x)
  | text {s : Text} : Unpaired s → Portable (text s)
  | list {vs : List Json} : (∀ v ∈ vs, Portable v) → Portable (list vs)
  | object {fs : List (Text × Json)} : (Entries.keys fs).Nodup → (∀ f ∈ fs, Unpaired f.1) → (∀ f ∈ fs, Portable f.2) →
      Portable (object fs)

theorem Portable.isWritable {v : Json} (h : v.Portable) : v.isWritable = true := by
  induction h with
  | int hi =>
    rw [Json.isWritable, Text.Numeral.isWritable, ← Text.length_digitsOf, decide_eq_true_eq]
    exact Text.length_digitsOf_le (by decide) hi
  | list _ ih => exact areWritable_iff.mpr ih
  | object _ _ _ ih => exact areFieldsWritable_iff.mpr ih
  | _ => rfl

theorem scalar_cases {p : CodePoint} (h : isScalarStart p = true) :
    isBlank p = false ∧ p.is '"' = false ∧ p.is '[' = false ∧ p.is ']' = false ∧ p.is '{' = false ∧
      p.is '}' = false := by
  simpa [isScalarStart, CodePoint.isOneOf] using h

theorem skipBlanks_cons {p : CodePoint} (h : isBlank p = false) (t : Text) : skipBlanks (p :: t) = p :: t := by
  rw [skipBlanks, List.dropWhile_cons, h]
  rfl

/-- A written value begins with neither a blank nor a closing bracket. -/
theorem start_render {v : Json} (h : v.Portable) :
    ∃ p t, render v = p :: t ∧ isBlank p = false ∧ p.is ']' = false ∧ p.is '}' = false := by
  have hscalar {s : Text} {r : Json × Text} (hs : scalar? s = some r) :
      ∃ p t, s = p :: t ∧ isBlank p = false ∧ p.is ']' = false ∧ p.is '}' = false := by
    obtain ⟨p, t, ht, hp⟩ := start_of_scalar? hs
    obtain ⟨hblank, _, _, hbracket, _, hbrace⟩ := scalar_cases hp
    exact ⟨p, t, ht, hblank, hbracket, hbrace⟩
  cases h with
  | null => exact ⟨_, _, rfl, rfl, rfl, rfl⟩
  | bool b => cases b <;> exact ⟨_, _, rfl, rfl, rfl, rfl⟩
  | int hi => exact hscalar (scalar?_ofInt hi)
  | float hx => exact hscalar hx
  | text _ => exact ⟨_, _, rfl, rfl, rfl, rfl⟩
  | list _ =>
    rw [render_list]
    exact ⟨_, _, rfl, rfl, rfl, rfl⟩
  | object _ _ _ =>
    rw [render_object]
    exact ⟨_, _, rfl, rfl, rfl, rfl⟩

/-- A value is read back in front of whatever may follow it, with fuel enough for it. -/
def Reads (v : Json) : Prop :=
  ∀ (fuel : Nat) (rest : Text), 2 * (render v).length ≤ fuel → Ends rest →
    value? fuel (render v ++ rest) = some (canonical v, rest)

theorem value?_scalar {s : Text} {v : Json} (h : scalar? s = some (v, [])) (fuel : Nat) {rest : Text}
    (hrest : Ends rest) : value? (fuel + 1) (s ++ rest) = some (v, rest) := by
  have hread := scalar?_append hrest s
  obtain ⟨p, t, rfl, hp⟩ := start_of_scalar? h
  obtain ⟨_, hquote, hlist, _, hobject, _⟩ := scalar_cases hp
  rw [h] at hread
  simp only [List.cons_append, value?, hquote, hlist, hobject, Bool.false_eq_true, if_false]
  exact hread

/-- What has a text that is read as a scalar, and no members. -/
theorem reads_of_scalar {v : Json} (h : scalar? (render v) = some (v, [])) (hv : canonical v = v) : Reads v := by
  intro fuel rest hfuel hrest
  obtain ⟨p, t, ht, _⟩ := start_of_scalar? h
  obtain ⟨n, rfl⟩ : ∃ n, fuel = n + 1 := ⟨fuel - 1, by rw [ht, List.length_cons] at hfuel; omega⟩
  rw [hv]
  exact value?_scalar h n hrest

theorem key?_quote {k : Text} (h : Unpaired k) {p : CodePoint} (hp : isBlank p = false) (t : Text) :
    key? (quote k ++ (.ofChar ':' :: p :: t)) = some (k, p :: t) := by
  have hkey : quote k ++ (.ofChar ':' :: p :: t) =
      .ofChar '"' :: (k.flatMap escapePoint ++ .ofChar '"' :: .ofChar ':' :: p :: t) := by
    simp [quote]
  have hcolon : skipBlanks (.ofChar ':' :: p :: t) = .ofChar ':' :: p :: t := skipBlanks_cons rfl _
  have hquote : CodePoint.is (.ofChar '"') '"' = true := rfl
  rw [hkey, key?]
  simp only [hquote, string?_quoted h, hcolon, skipBlanks_cons hp, Option.bind_eq_bind, Option.bind_some]
  rfl

/-- Items that are joined begin as the first of them does. -/
theorem start_join {s t : Text} {p : CodePoint} (h : s = p :: t) (separator : Text) (parts : List Text) (rest : Text) :
    ∃ u, Text.join separator (s :: parts) ++ rest = p :: u := by
  subst h
  cases parts with
  | nil =>
    rw [Text.join_singleton]
    exact ⟨_, rfl⟩
  | cons u parts =>
    rw [Text.join_cons_cons]
    exact ⟨_, rfl⟩

theorem items?_of_reads {v : Json} {vs : List Json} (h : ∀ w ∈ v :: vs, Reads w) (hportable : ∀ w ∈ v :: vs, w.Portable)
    (fuel : Nat) (rest : Text) (hfuel : 2 * (Text.join "," ((v :: vs).map render)).length + 1 ≤ fuel) :
    items? fuel (Text.join "," ((v :: vs).map render) ++ .ofChar ']' :: rest) =
      some ((v :: vs).map canonical, rest) := by
  -- The first item stands apart, for a comma or the bracket follows each; both end the value before them.
  induction vs generalizing v fuel with
  | nil =>
    rw [List.map_singleton, Text.join_singleton] at hfuel ⊢
    obtain ⟨n, rfl⟩ : ∃ n, fuel = n + 1 := ⟨fuel - 1, by omega⟩
    have hread := h v List.mem_cons_self n (.ofChar ']' :: rest) (by omega) (.bracket rest)
    have hclosing : skipBlanks (.ofChar ']' :: rest) = .ofChar ']' :: rest := skipBlanks_cons rfl rest
    rw [items?]
    simp only [hread, Option.bind_eq_bind, Option.bind_some, hclosing]
    rfl
  | cons w vs ih =>
    rw [List.forall_mem_cons] at h hportable
    have hcomma : ("," : Text) = [.ofChar ','] := rfl
    rw [List.map_cons, List.map_cons, Text.join_cons_cons, hcomma, List.singleton_append, List.length_append,
      List.length_cons] at hfuel
    obtain ⟨n, rfl⟩ : ∃ n, fuel = n + 1 := ⟨fuel - 1, by omega⟩
    have hrest := ih h.2 hportable.2 n (by rw [List.map_cons, hcomma]; omega)
    obtain ⟨p, t, ht, hp, _⟩ := start_render (hportable.2 w List.mem_cons_self)
    obtain ⟨u, hu⟩ := start_join ht "," (vs.map render) (.ofChar ']' :: rest)
    rw [List.map_cons, hu] at hrest
    have hread := h.1 n (.ofChar ',' :: p :: u) (by omega) (.comma _)
    have hblank : skipBlanks (.ofChar ',' :: p :: u) = .ofChar ',' :: p :: u := skipBlanks_cons rfl _
    rw [List.map_cons, List.map_cons, Text.join_cons_cons, List.append_assoc, List.append_assoc, hu, hcomma,
      List.singleton_append, items?]
    simp only [hread, Option.bind_eq_bind, Option.bind_some, hblank]
    simp only [skipBlanks_cons hp, hrest]
    rfl

theorem renderField_eq (f : Text × Json) : renderField f = quote f.1 ++ .ofChar ':' :: render f.2 := by
  rw [renderField, Text.concat, List.flatten_cons, List.flatten_cons, List.flatten_cons, List.flatten_nil,
    List.append_nil]
  rfl

theorem start_renderField (f : Text × Json) : ∃ t, renderField f = .ofChar '"' :: t := by
  rw [renderField_eq]
  exact ⟨_, rfl⟩

theorem field_of_reads {f : Text × Json} (h : Reads f.2) (hkey : Unpaired f.1) (hportable : f.2.Portable) (fuel : Nat)
    (hfuel : 2 * (renderField f).length ≤ fuel) {rest : Text} (hrest : Ends rest) :
    ∃ t, key? (renderField f ++ rest) = some (f.1, t) ∧ value? fuel t = some (canonical f.2, rest) := by
  obtain ⟨p, t, ht, hp, _⟩ := start_render hportable
  rw [renderField_eq, List.length_append, List.length_cons] at hfuel
  refine ⟨render f.2 ++ rest, ?_, h fuel rest (by omega) hrest⟩
  rw [renderField_eq, List.append_assoc, List.cons_append, ht, List.cons_append]
  exact key?_quote hkey hp (t ++ rest)

theorem fields?_of_reads {f : Text × Json} {fs : List (Text × Json)} (h : ∀ g ∈ f :: fs, Reads g.2)
    (hkeys : ∀ g ∈ f :: fs, Unpaired g.1) (hportable : ∀ g ∈ f :: fs, g.2.Portable)
    (fuel : Nat) (rest : Text) (hfuel : 2 * (Text.join "," ((f :: fs).map renderField)).length + 1 ≤ fuel) :
    fields? fuel (Text.join "," ((f :: fs).map renderField) ++ .ofChar '}' :: rest) =
      some ((f :: fs).map fun f => (f.1, canonical f.2), rest) := by
  induction fs generalizing f fuel with
  | nil =>
    rw [List.map_singleton, Text.join_singleton] at hfuel ⊢
    obtain ⟨n, rfl⟩ : ∃ n, fuel = n + 1 := ⟨fuel - 1, by omega⟩
    obtain ⟨t, hkey, hread⟩ := field_of_reads (h f List.mem_cons_self) (hkeys f List.mem_cons_self)
      (hportable f List.mem_cons_self) n (by omega) (.brace rest)
    have hclosing : skipBlanks (.ofChar '}' :: rest) = .ofChar '}' :: rest := skipBlanks_cons rfl rest
    rw [fields?]
    simp only [hkey, hread, Option.bind_eq_bind, Option.bind_some, hclosing]
    rfl
  | cons g fs ih =>
    rw [List.forall_mem_cons] at h hkeys hportable
    have hcomma : ("," : Text) = [.ofChar ','] := rfl
    rw [List.map_cons, List.map_cons, Text.join_cons_cons, hcomma, List.singleton_append, List.length_append,
      List.length_cons] at hfuel
    obtain ⟨n, rfl⟩ : ∃ n, fuel = n + 1 := ⟨fuel - 1, by omega⟩
    have hrest := ih h.2 hkeys.2 hportable.2 n (by rw [List.map_cons, hcomma]; omega)
    obtain ⟨t, hquote⟩ := start_renderField g
    obtain ⟨u, hu⟩ := start_join hquote "," (fs.map renderField) (.ofChar '}' :: rest)
    rw [List.map_cons, hu] at hrest
    obtain ⟨t, hkey, hread⟩ := field_of_reads h.1 hkeys.1 hportable.1 n (by omega)
      (.comma (.ofChar '"' :: u))
    have hblank : skipBlanks (.ofChar ',' :: .ofChar '"' :: u) = .ofChar ',' :: .ofChar '"' :: u :=
      skipBlanks_cons rfl _
    have hnext : skipBlanks (.ofChar '"' :: u) = .ofChar '"' :: u := skipBlanks_cons rfl u
    rw [List.map_cons, List.map_cons, Text.join_cons_cons, List.append_assoc, List.append_assoc, hu, hcomma,
      List.singleton_append, fields?]
    simp only [hkey, hread, Option.bind_eq_bind, Option.bind_some, hblank]
    simp only [hnext, hrest]
    rfl

theorem reads_text {s : Text} (h : Unpaired s) : Reads (.text s) := by
  intro fuel rest hfuel _
  have hwritten : render (.text s) ++ rest = .ofChar '"' :: (s.flatMap escapePoint ++ .ofChar '"' :: rest) := by
    simp [render, quote]
  have hquote : CodePoint.is (.ofChar '"') '"' = true := rfl
  rw [render, quote, List.cons_append, List.length_cons] at hfuel
  obtain ⟨n, rfl⟩ : ∃ n, fuel = n + 1 := ⟨fuel - 1, by omega⟩
  rw [hwritten, value?]
  simp only [hquote, if_true, string?_quoted h]
  rfl

theorem reads_list {vs : List Json} (hportable : ∀ v ∈ vs, v.Portable) (h : ∀ v ∈ vs, Reads v) : Reads (.list vs) := by
  intro fuel rest hfuel _
  rw [render_list, enclose, List.length_append, List.length_cons, List.length_singleton] at hfuel
  obtain ⟨n, rfl⟩ : ∃ n, fuel = n + 1 := ⟨fuel - 1, by omega⟩
  have hopening : CodePoint.is (.ofChar '[') '"' = false ∧ CodePoint.is (.ofChar '[') '[' = true := ⟨rfl, rfl⟩
  rw [render_list, canonical_list, enclose, List.cons_append, List.cons_append, List.append_assoc, value?]
  simp only [hopening, Bool.false_eq_true, if_false, if_true]
  cases vs with
  | nil => rfl
  | cons v vs =>
    have hitems := items?_of_reads h hportable n rest (by omega)
    obtain ⟨p, t, ht, hp, hbracket, _⟩ := start_render (hportable v List.mem_cons_self)
    obtain ⟨u, hu⟩ := start_join ht "," (vs.map render) (.ofChar ']' :: rest)
    rw [List.map_cons, hu] at hitems
    rw [List.singleton_append, List.map_cons, hu, skipBlanks_cons hp]
    simp only [hbracket, Bool.false_eq_true, if_false, hitems]
    rfl

theorem reads_object {fs : List (Text × Json)} (hnodup : (Entries.keys fs).Nodup) (hkeys : ∀ f ∈ fs, Unpaired f.1)
    (hportable : ∀ f ∈ fs, f.2.Portable) (h : ∀ f ∈ fs, Reads f.2) : Reads (.object fs) := by
  intro fuel rest hfuel _
  have hcollect := Entries.collect_of_nodup ((keys_inOrder_perm fs).nodup_iff.mpr hnodup)
  rw [render_object, enclose, List.length_append, List.length_cons, List.length_singleton] at hfuel
  obtain ⟨n, rfl⟩ : ∃ n, fuel = n + 1 := ⟨fuel - 1, by omega⟩
  have hopening : CodePoint.is (.ofChar '{') '"' = false ∧ CodePoint.is (.ofChar '{') '[' = false ∧
      CodePoint.is (.ofChar '{') '{' = true := ⟨rfl, rfl, rfl⟩
  rw [render_object, canonical_object, enclose, List.cons_append, List.cons_append, List.append_assoc, value?]
  simp only [hopening, Bool.false_eq_true, if_false, if_true]
  -- What is read are the fields in the order in which they are written.
  rw [inOrder] at hcollect ⊢
  have hperm := List.mergeSort_perm fs fieldLe
  generalize fs.mergeSort fieldLe = gs at hcollect hfuel hperm ⊢
  cases gs with
  | nil => rfl
  | cons g gs =>
    have hfields := fields?_of_reads (fun f hf => h f (hperm.mem_iff.mp hf)) (fun f hf => hkeys f (hperm.mem_iff.mp hf))
      (fun f hf => hportable f (hperm.mem_iff.mp hf)) n rest (by omega)
    obtain ⟨t, hquote⟩ := start_renderField g
    obtain ⟨u, hu⟩ := start_join hquote "," (gs.map renderField) (.ofChar '}' :: rest)
    have hnext : skipBlanks (.ofChar '"' :: u) = .ofChar '"' :: u := skipBlanks_cons rfl u
    have hbrace : CodePoint.is (.ofChar '"') '}' = false := rfl
    rw [List.map_cons, hu] at hfields
    rw [List.singleton_append, List.map_cons, hu, hnext]
    simp only [hbrace, Bool.false_eq_true, if_false, hfields, Option.map_some, hcollect]

theorem reads_of_portable {v : Json} (h : v.Portable) : Reads v := by
  induction h with
  | null => exact reads_of_scalar rfl rfl
  | bool b => cases b <;> exact reads_of_scalar rfl rfl
  | int hi => exact reads_of_scalar (scalar?_ofInt hi) rfl
  | float hx => exact reads_of_scalar hx rfl
  | text hs => exact reads_text hs
  | list hportable ih => exact reads_list hportable ih
  | object hnodup hkeys hportable ih => exact reads_object hnodup hkeys hportable ih

/-- The text of a value is read as that value in canonical form. -/
theorem parse?_render {v : Json} (h : v.Portable) : parse? (render v) = some (canonical v) := by
  obtain ⟨p, t, ht, hp, _⟩ := start_render h
  have hread := reads_of_portable h (2 * (render v).length + 2) [] (Nat.le_add_right _ 2) .nil
  rw [List.append_nil] at hread
  have hblanks : skipBlanks (render v) = render v := by rw [ht, skipBlanks_cons hp]
  rw [parse?, hblanks, hread]
  rfl

end Signatory.Json
