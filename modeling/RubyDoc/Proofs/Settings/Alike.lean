import Mathlib.Data.List.Forall2
import RubyDoc.Proofs.Settings.Merge
import RubyDoc.Settings.Reading
import RubyDoc.Settings.Summary

/-!
# Values that describe the same settings

Two values say the same where a default is known (`Alike`) if they are equal, or if one is missing
and the other is the default, or if both are mappings that say the same under every known name.
Each reader of settings gives the same for values that say the same (`Respects`), faults included,
so that both describe the same settings (`ofValue_eq_of_alike`).  A setting with two names is read
under the second one only if there is nothing under the first; values are compared that do not use
the second name alone.
-/

namespace RubyDoc.Settings

open Outline

/-- Lists and mappings: what no single setting is. -/
def IsCollection : Value → Prop
  | .list _ | .mapping _ => True
  | _ => False

/-- Do two values, given or missing, say the same about what has the default `d`? -/
inductive Alike : (d : Value) → (v w : Option Value) → Prop
  | same (d : Value) (v : Option Value) : Alike d v v
  | default (d : Value) : Alike d none (some d)
  /-- Only the names that have a default matter. -/
  | sections {ds vs ws : List (Value × Value)}
      (h : ∀ key d, (Value.mapping ds).get? key = some d →
        Alike d ((Value.mapping vs).get? key) ((Value.mapping ws).get? key)) :
      Alike (.mapping ds) (some (.mapping vs)) (some (.mapping ws))
  /-- Where no section is known, every mapping is as wrong as another. -/
  | mappings {d : Value} (hd : ∀ ds, d ≠ .mapping ds) (vs ws : List (Value × Value)) :
      Alike d (some (.mapping vs)) (some (.mapping ws))
  /-- The same holds of collections in a list. -/
  | lists {d : Value} {vs ws : List Value}
      (h : List.Forall₂ (fun v w => v = w ∨ IsCollection v ∧ IsCollection w) vs ws) :
      Alike d (some (.list vs)) (some (.list ws))

/-- Does a reader give the same for values that say the same? -/
def Respects {α : Type} (d : Value) (read : Option Value → Reader α) : Prop :=
  ∀ v w, Alike d v w → read v = read w

variable {path : List Step} {v w : Option Value}

/-! ## Single settings -/

theorem respects_readBool (path : List Step) (b : Bool) :
    Respects (.bool b) (readBool path b) := by
  intro v w h
  cases h <;> rfl

theorem respects_readText (path : List Step) (t : Text) :
    Respects (.text t) (readText path t) := by
  intro v w h
  cases h <;> rfl

theorem respects_readFilled (path : List Step) (t : Text) (ht : t ≠ []) :
    Respects (.text t) (readFilled path t) := by
  intro v w h
  cases h with
  | default =>
      rw [readFilled, readFilled, List.isEmpty_eq_false_iff.2 ht]
      rfl
  | same | mappings | lists => rfl

theorem respects_readOptional {α : Type} {d : Value} {read : Option Value → Reader α}
    (hread : Respects d read) (hd : ∀ ds, d ≠ .mapping ds) :
    Respects .null (readOptional read) := by
  intro v w h
  cases h with
  | same | default => rfl
  | mappings _ vs ws =>
      rw [readOptional, readOptional, hread _ _ (.mappings hd vs ws)]
      all_goals nofun
  | lists h =>
      rw [readOptional, readOptional, hread _ _ (.lists h)]
      all_goals nofun

section Items

variable {α : Type} {item : Value → Except Mismatch α} {m : Mismatch}

theorem readItems_congr (hitem : ∀ v, IsCollection v → item v = .error m) {vs ws : List Value}
    (h : List.Forall₂ (fun v w => v = w ∨ IsCollection v ∧ IsCollection w) vs ws) (i : Nat) :
    readItems path item i vs = readItems path item i ws := by
  induction h generalizing i with
  | nil => rfl
  | @cons v w vs ws hvw _ ih =>
      have hsame : item v = item w := by
        rcases hvw with rfl | ⟨hv, hw⟩
        · rfl
        · rw [hitem v hv, hitem w hw]
      rw [readItems, readItems, hsame, ih]

/-- Items that can be read are read. -/
theorem readItems_map {toItem : α → Value} (htoItem : ∀ a, item (toItem a) = .ok a) (as : List α)
    (i : Nat) : readItems path item i (as.map toItem) = pure as := by
  induction as generalizing i with
  | nil => rfl
  | cons a as ih =>
      rw [List.map_cons, readItems, htoItem, ih]
      rfl

theorem respects_readList (path : List Step) {toItem : α → Value}
    (hitem : ∀ v, IsCollection v → item v = .error m)
    (htoItem : ∀ a, item (toItem a) = .ok a) (as : List α) :
    Respects (.list (as.map toItem)) (readList path item as) := by
  intro v w h
  cases h with
  | same | mappings => rfl
  | default => exact (readItems_map htoItem as 0).symm
  | lists h => exact readItems_congr hitem h 0

end Items

theorem textItem_of_isCollection (v : Value) (hv : IsCollection v) :
    textItem v = .error .notText := by
  cases v with
  | list | mapping => rfl
  | _ => cases hv

theorem choiceItem_of_isCollection {α : Type} (ofName? : Text → Option α) (v : Value)
    (hv : IsCollection v) : choiceItem ofName? v = .error .notChoice := by
  cases v with
  | list | mapping => rfl
  | _ => cases hv

theorem respects_readTexts (path : List Step) (ts : List Text) :
    Respects (texts ts) (readList path textItem ts) :=
  respects_readList path textItem_of_isCollection (fun _ => rfl) ts

theorem respects_readChoices {α : Type} (path : List Step) (name : α → Text)
    (ofName? : Text → Option α) (h : ∀ a, ofName? (name a) = some a) (as : List α) :
    Respects (texts (as.map name)) (readList path (choiceItem ofName?) as) := by
  rw [texts, List.map_map]
  refine respects_readList path (choiceItem_of_isCollection ofName?) (fun a => ?_) as
  show (ofName? (name a)).elim _ _ = _
  rw [h]
  rfl

/-! ## Sections -/

/-- What a value, given or missing, has under a key. -/
def lookup (v : Option Value) (key : Text) : Option Value :=
  v.bind (·.get? key)

/-- A section is read in the same way if what is looked up in it says the same under every known
name. -/
theorem readSection_congr {α : Type} {default : α}
    {read : (Text → List Step) → (Text → Option Value) → Reader α} {ds : List (Value × Value)}
    (hdefault : read (fun key => path ++ [.key key]) (lookup none) = pure default)
    (h : Alike (.mapping ds) v w)
    (hread : (∀ key d, (Value.mapping ds).get? key = some d →
        Alike d (lookup v key) (lookup w key)) →
      read (fun key => path ++ [.key key]) (lookup v) =
        read (fun key => path ++ [.key key]) (lookup w)) :
    readSection path default read v = readSection path default read w := by
  cases h with
  | same | lists => rfl
  | default =>
      refine hdefault.symm.trans (hread fun key d hd => ?_)
      rw [show lookup (some (.mapping ds)) key = some d from hd]
      exact .default d
  | sections h => exact hread h
  | mappings hd => exact absurd rfl (hd ds)

theorem respects_readEmit (path : List Step) : Respects (Emit.toValue {}) (readEmit path) := by
  intro v w h
  refine readSection_congr rfl h fun hkey => ?_
  have flag (key : Text) (b : Bool) (hb : (Emit.toValue {}).get? key = some (.bool b)) :=
    respects_readBool (path ++ [.key key]) b _ _ (hkey key _ hb)
  simp only [flag "header" true rfl, flag "description" true rfl, flag "param_tags" true rfl,
    flag "return_tag" true rfl, flag "visibility_tags" true rfl, flag "raise_tags" true rfl,
    flag "rescue_conditional_returns" true rfl, flag "attributes" false rfl]

theorem respects_readDoc (path : List Step) :
    Respects (record [("default_message", .text ({} : Doc).message)]) (readDoc path) := by
  intro v w h
  refine readSection_congr rfl h fun hkey => ?_
  have hmessage := respects_readText (path ++ [.key "default_message"]) ({} : Doc).message _ _
    (hkey "default_message" _ rfl)
  simp only [hmessage]

theorem respects_readOverride (path : List Step) :
    Respects (Override.toValue {}) (readOverride path) := by
  intro v w h
  refine readSection_congr rfl h fun hkey => ?_
  have htag := respects_readOptional (respects_readBool (path ++ [.key "return_tag"]) true) nofun
    _ _ (hkey "return_tag" _ rfl)
  have hmessage := respects_readOptional
    (respects_readText (path ++ [.key "default_message"]) []) nofun _ _
    (hkey "default_message" _ rfl)
  simp only [htag, hmessage]

theorem respects_readByVisibility (path : List Step) :
    Respects (ByVisibility.toValue {}) (readByVisibility path) := by
  intro v w h
  refine readSection_congr rfl h fun hkey => ?_
  have bucket (visibility : Visibility) :=
    respects_readOverride (path ++ [.key visibility.name]) _ _
      (hkey visibility.name _ (by cases visibility <;> rfl))
  simp only [bucket]

/-- The first name is looked up alone, if there is nothing under the second one alone. -/
theorem eitherKey_eq {get? : Text → Option Value} {first second : Text}
    (h : get? first = none → get? second = none) :
    eitherKey get? first second = (first, get? first) := by
  rw [eitherKey]
  cases hfirst : get? first with
  | some v => rfl
  | none => rw [h hfirst]

theorem readMethods_congr (path : List Step)
    (h : Alike (record [("instance", ByVisibility.toValue {}), ("class", ByVisibility.toValue {})])
      v w)
    (hv : lookup v "class" = none → lookup v "class_" = none)
    (hw : lookup w "class" = none → lookup w "class_" = none) :
    readMethods path v = readMethods path w := by
  refine readSection_congr rfl h fun hkey => ?_
  have hinstance := respects_readByVisibility (path ++ [.key "instance"]) _ _
    (hkey "instance" _ rfl)
  have hclass := respects_readByVisibility (path ++ [.key "class"]) _ _ (hkey "class" _ rfl)
  simp only [eitherKey_eq hv, eitherKey_eq hw, hinstance, hclass]

theorem respects_readInference (path : List Step) :
    Respects (record [("fallback_type", .text ({} : Inference).fallback),
      ("nil_as_optional", .bool true), ("treat_options_keyword_as_hash", .bool true)])
      (readInference path) := by
  intro v w h
  refine readSection_congr rfl h fun hkey => ?_
  have hfallback := respects_readFilled (path ++ [.key "fallback_type"])
    ({} : Inference).fallback (by decide) _ _ (hkey "fallback_type" _ rfl)
  have hoptional := respects_readBool (path ++ [.key "nil_as_optional"]) true _ _
    (hkey "nil_as_optional" _ rfl)
  have hoptions := respects_readBool (path ++ [.key "treat_options_keyword_as_hash"]) true _ _
    (hkey "treat_options_keyword_as_hash" _ rfl)
  simp only [hfallback, hoptional, hoptions]

theorem respects_readFileFilter (path : List Step) :
    Respects (record [("include", texts []), ("exclude", texts [])]) (readFileFilter path) := by
  intro v w h
  refine readSection_congr rfl h fun hkey => ?_
  have hincludes := respects_readTexts (path ++ [.key "include"]) [] _ _ (hkey "include" _ rfl)
  have hexcludes := respects_readTexts (path ++ [.key "exclude"]) [] _ _ (hkey "exclude" _ rfl)
  simp only [hincludes, hexcludes]

theorem respects_readFilter (path : List Step) :
    Respects (Filter.toValue {}) (readFilter path) := by
  intro v w h
  refine readSection_congr rfl h fun hkey => ?_
  have hvisibilities := respects_readChoices (path ++ [.key "visibilities"]) Visibility.name
    Visibility.ofName? (fun v => by cases v <;> rfl) Visibility.all _ _
    (hkey "visibilities" _ rfl)
  have hscopes := respects_readChoices (path ++ [.key "scopes"]) Scope.name Scope.ofName?
    (fun scope => by cases scope <;> rfl) Scope.all _ _ (hkey "scopes" _ rfl)
  have hincludes := respects_readTexts (path ++ [.key "include"]) [] _ _ (hkey "include" _ rfl)
  have hexcludes := respects_readTexts (path ++ [.key "exclude"]) [] _ _ (hkey "exclude" _ rfl)
  have hfiles := respects_readFileFilter (path ++ [.key "files"]) _ _ (hkey "files" _ rfl)
  simp only [hvisibilities, hscopes, hincludes, hexcludes, hfiles]

theorem respects_readSignatures (path : List Step) :
    Respects (record [("enabled", .bool false), ("sig_dirs", texts ({} : Signatures).directories),
      ("collapse_generics", .bool false)]) (readSignatures path) := by
  intro v w h
  refine readSection_congr rfl h fun hkey => ?_
  have henabled := respects_readBool (path ++ [.key "enabled"]) false _ _ (hkey "enabled" _ rfl)
  have hdirectories := respects_readTexts (path ++ [.key "sig_dirs"]) ({} : Signatures).directories
    _ _ (hkey "sig_dirs" _ rfl)
  have hcollapse := respects_readBool (path ++ [.key "collapse_generics"]) false _ _
    (hkey "collapse_generics" _ rfl)
  simp only [henabled, hdirectories, hcollapse]

/-! ## All settings -/

/-- Is nothing given under a second name alone, neither signatures nor buckets of class scope? -/
structure UsesFirstNames (v : Value) : Prop where
  signatures : v.get? "signatures" = none → v.get? "rbs" = none
  methods : ∀ m, v.get? "methods" = some m → m.get? "class" = none → m.get? "class_" = none

theorem UsesFirstNames.lookup_class {v : Value} (h : UsesFirstNames v) :
    lookup (v.get? "methods") "class" = none → lookup (v.get? "methods") "class_" = none := by
  cases hm : v.get? "methods" with
  | none => exact id
  | some m => exact h.methods m hm

/-- **Values that say the same over the defaults describe the same settings**, or have the same
faults. -/
theorem ofValue_eq_of_alike {v w : Value} (h : Alike (toValue {}) (some v) (some w))
    (hv : UsesFirstNames v) (hw : UsesFirstNames w) : ofValue v = ofValue w := by
  suffices readAll [] (some v) = readAll [] (some w) by rw [ofValue, ofValue, settle, settle, this]
  refine readSection_congr rfl h fun hkey => ?_
  have hemit := respects_readEmit ([] ++ [.key "emit"]) _ _ (hkey "emit" _ rfl)
  have hdoc := respects_readDoc ([] ++ [.key "doc"]) _ _ (hkey "doc" _ rfl)
  have hmethods := readMethods_congr ([] ++ [.key "methods"]) (hkey "methods" _ rfl)
    hv.lookup_class hw.lookup_class
  have hinference := respects_readInference ([] ++ [.key "inference"]) _ _ (hkey "inference" _ rfl)
  have hfilter := respects_readFilter ([] ++ [.key "filter"]) _ _ (hkey "filter" _ rfl)
  have hsignatures := respects_readSignatures ([] ++ [.key "signatures"]) _ _
    (hkey "signatures" _ rfl)
  have heither {u : Value} (hu : UsesFirstNames u) :
      eitherKey (lookup (some u)) "signatures" "rbs" =
        (("signatures" : Text), lookup (some u) "signatures") :=
    eitherKey_eq hu.signatures
  simp only [heither hv, heither hw, hemit, hdoc, hmethods, hinference, hfilter, hsignatures]

end RubyDoc.Settings
