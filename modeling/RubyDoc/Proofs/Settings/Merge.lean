import Mathlib.Data.List.Basic
import RubyDoc.Value

/-!
# Values over values

One value is laid over another: where both are mappings, key by key and at every depth; where one of
them is not, the second one replaces the first.  A key of the result leads to what was given under
it, laid over what was there, and to what was there if nothing was given (`get?_merge`).  Only keys
that are texts are matched; the other entries of both mappings stay as they are.
-/

namespace RubyDoc.Value

/-- The value under a key, which leads to one only if it is a text. -/
def at? (v : Value) : (key : Value) → Option Value
  | text key => v.get? key
  | _ => none

mutual

/-- The second value over the first: mappings are merged, everything else is replaced. -/
def merge : (base given : Value) → Value
  | mapping base, mapping given =>
      mapping (mergeEntries base given ++ given.filter fun e => ((mapping base).at? e.1).isNone)
  | _, given => given

/-- The entries of the first mapping, each with what the second one has under its key over it. -/
def mergeEntries : (base given : List (Value × Value)) → List (Value × Value)
  | [], _ => []
  | (key, b) :: base, given =>
      (key, match (mapping given).at? key with
        | some v => merge b v
        | none => b) :: mergeEntries base given

end

/-- What was given, if anything, over a value. -/
def overlaid (base : Value) (given : Option Value) : Value :=
  given.elim base (merge base)

variable {key : Text}

/-! ## Looking up keys -/

theorem get?_append (entries more : List (Value × Value)) (key : Text) :
    (mapping (entries ++ more)).get? key =
      ((mapping entries).get? key).or ((mapping more).get? key) := by
  simp only [get?, List.find?_append, Option.map_or]

theorem get?_cons (e : Value × Value) (entries : List (Value × Value)) (key : Text) :
    (mapping (e :: entries)).get? key = ((mapping [e]).get? key).or ((mapping entries).get? key) :=
  get?_append [e] entries key

theorem get?_singleton_self (key : Text) (v : Value) :
    (mapping [(text key, v)]).get? key = some v := by
  simp [get?]

theorem get?_singleton_of_ne {k : Value} (hk : k ≠ text key) (v : Value) :
    (mapping [(k, v)]).get? key = none := by
  cases k with
  | text t =>
      have ht : t ≠ key := fun h => hk (h ▸ rfl)
      simp [get?, ht]
  | _ => rfl

/-- An entry more is not found under other keys. -/
theorem get?_insert {k : Value} (hk : k ≠ text key) (v : Value)
    (before behind : List (Value × Value)) :
    (mapping (before ++ (k, v) :: behind)).get? key = (mapping (before ++ behind)).get? key := by
  rw [get?_append, get?_cons, get?_singleton_of_ne hk, Option.none_or, get?_append]

/-- Mappings that differ in the value of one entry differ at most under its key. -/
theorem get?_replace (k v w : Value) (before behind : List (Value × Value)) (key : Text) :
    (mapping (before ++ (k, v) :: behind)).get? key =
        (mapping (before ++ (k, w) :: behind)).get? key ∨
      k = text key ∧ (mapping (before ++ (k, v) :: behind)).get? key = some v ∧
        (mapping (before ++ (k, w) :: behind)).get? key = some w := by
  by_cases hk : k = text key
  · subst hk
    rw [get?_append, get?_append, get?_cons, get?_cons (text key, w), get?_singleton_self,
      get?_singleton_self]
    cases (mapping before).get? key with
    | none => exact .inr ⟨rfl, rfl, rfl⟩
    | some u => exact .inl rfl
  · exact .inl (by rw [get?_insert hk, get?_insert hk])

theorem at?_text (v : Value) (key : Text) : v.at? (text key) = v.get? key := rfl

/-- What is found under a key is a part of the mapping. -/
theorem sizeOf_lt_of_get? {entries : List (Value × Value)} {v : Value}
    (h : (mapping entries).get? key = some v) : sizeOf v < sizeOf (mapping entries) := by
  obtain ⟨⟨k, u⟩, hfound, rfl⟩ := Option.map_eq_some_iff.1 h
  have hmem := List.sizeOf_lt_of_mem (List.mem_of_find?_eq_some hfound)
  simp only [mapping.sizeOf_spec, Prod.mk.sizeOf_spec] at hmem ⊢
  omega

/-! ## Looking up keys of a merge -/

theorem get?_mergeEntries (base given : List (Value × Value)) (key : Text) :
    (mapping (mergeEntries base given)).get? key =
      ((mapping base).get? key).map (overlaid · ((mapping given).get? key)) := by
  induction base with
  | nil => rw [mergeEntries]; rfl
  | cons e base ih =>
      obtain ⟨k, b⟩ := e
      rw [mergeEntries, get?_cons, ih, get?_cons (k, b)]
      by_cases hk : k = text key
      · subst hk
        rw [get?_singleton_self, get?_singleton_self, at?_text]
        cases (mapping given).get? key <;> rfl
      · rw [get?_singleton_of_ne hk, get?_singleton_of_ne hk, Option.none_or, Option.none_or]

/-- A choice of entries by their keys has a value where the key is chosen. -/
theorem get?_filter (chosen : Value → Bool) (entries : List (Value × Value)) (key : Text) :
    (mapping (entries.filter fun e => chosen e.1)).get? key =
      if chosen (text key) then (mapping entries).get? key else none := by
  induction entries with
  | nil => exact (ite_self none).symm
  | cons e entries ih =>
      obtain ⟨k, v⟩ := e
      rw [List.filter_cons, get?_cons (k, v)]
      by_cases hk : k = text key
      · subst hk
        rw [get?_singleton_self, Option.some_or]
        split
        · rw [get?_cons, get?_singleton_self, Option.some_or]
        · rename_i hout
          rw [ih, if_neg hout]
      · rw [get?_singleton_of_ne hk, Option.none_or, ← ih]
        split
        · rw [get?_cons, get?_singleton_of_ne hk, Option.none_or]
        · rfl

/-- **What a merge has under a key.** -/
theorem get?_merge (base given : List (Value × Value)) (key : Text) :
    (merge (mapping base) (mapping given)).get? key =
      match (mapping base).get? key with
      | some b => some (overlaid b ((mapping given).get? key))
      | none => (mapping given).get? key := by
  rw [merge, get?_append, get?_mergeEntries,
    get?_filter (fun k => ((mapping base).at? k).isNone), at?_text]
  cases (mapping base).get? key <;> rfl

/-- Only mappings are merged, and the merge is a mapping. -/
theorem merge_cases (base given : Value) :
    merge base given = given ∨ ∃ bs gs ms, base = mapping bs ∧ given = mapping gs ∧
      merge base given = mapping ms := by
  cases base with
  | mapping bs =>
      cases given with
      | mapping gs => exact .inr ⟨bs, gs, _, rfl, rfl, by rw [merge]⟩
      | _ => exact .inl (by rw [merge]; nofun)
  | _ => exact .inl (by rw [merge]; nofun)

/-- Over a mapping there is a mapping with its keys, or else nothing that has keys. -/
theorem get?_overlaid {base : List (Value × Value)} {b : Value}
    (h : (mapping base).get? key = some b) (given : Option Value) :
    (∃ v, (overlaid (mapping base) given).get? key = some v) ∨
      ∀ other, (overlaid (mapping base) given).get? other = none := by
  cases given with
  | none => exact .inl ⟨b, h⟩
  | some given =>
      cases given with
      | mapping entries => exact .inl ⟨_, by rw [overlaid, Option.elim_some, get?_merge, h]⟩
      | _ => exact .inr fun _ => rfl

/-- What a merge has under a key of the first mapping was laid over what is there. -/
theorem exists_overlaid_of_get?_merge {base : List (Value × Value)} {b given v : Value}
    (h : (mapping base).get? key = some b) (hv : (merge (mapping base) given).get? key = some v) :
    ∃ u, v = overlaid b u := by
  cases given with
  | mapping entries =>
      rw [get?_merge, h] at hv
      exact ⟨_, (Option.some.inj hv).symm⟩
  | _ => cases hv

end RubyDoc.Value
