import Mathlib.Logic.Relation
import RubyDoc.Proofs.Settings.Alike
import RubyDoc.Settings.Document

/-!
# Partial settings

Settings may leave out whatever has a default, and may hold more than is known.  To read them is the
same as to read them laid over the defaults, at every depth, and entries under unknown keys, in
whatever mapping they stand, change nothing (`partial_settings_completed`).  The faults of settings
that cannot be read are the same as well.

Two sections have a second name each, which is used when there is nothing under the first one.  The
defaults laid under a value have the first names, so that a second name in it is no longer looked
at: nothing is said about settings that use a second name alone.
-/

namespace RubyDoc.Settings

/-! ## Settings over the defaults -/

/-- What is given says the same over a default as without it. -/
theorem alike_overlaid (d : Value) (v : Option Value) : Alike d v (some (d.overlaid v)) := by
  cases v with
  | none => exact .default d
  | some v =>
      rcases Value.merge_cases d v with hmerge | ⟨ds, vs, ws, rfl, rfl, hmerge⟩
      · rw [Value.overlaid, Option.elim_some, hmerge]
        exact .same d _
      · rw [Value.overlaid, Option.elim_some, hmerge]
        refine .sections fun key d hd => ?_
        have hsmaller := Value.sizeOf_lt_of_get? hd
        rw [← hmerge, Value.get?_merge, hd]
        exact alike_overlaid d ((Value.mapping vs).get? key)
termination_by sizeOf d

/-- Over the defaults every setting has its first name. -/
theorem usesFirstNames_merge (v : Value) : UsesFirstNames (Value.merge (toValue {}) v) where
  signatures hnone := by
    have hdefault : (toValue {}).get? "signatures" = some _ := rfl
    rcases Value.get?_overlaid hdefault (some v) with ⟨x, hx⟩ | hx
    · cases hnone.symm.trans hx
    · exact hx "rbs"
  methods m hm hnone := by
    have hdefault : (toValue {}).get? "methods" = some _ := rfl
    have hclass : (record [("instance", ByVisibility.toValue {}),
      ("class", ByVisibility.toValue {})]).get? "class" = some _ := rfl
    obtain ⟨u, rfl⟩ := Value.exists_overlaid_of_get?_merge hdefault hm
    rcases Value.get?_overlaid hclass u with ⟨x, hx⟩ | hx
    · cases hnone.symm.trans hx
    · exact hx "class_"

/-! ## Unknown keys -/

/-- The first name of a setting that has two. -/
def firstName (key : Text) : Text :=
  if key = "class_" then "class" else if key = "rbs" then "signatures" else key

/-- The default of what a key names in a section with the defaults `d`; none if it names nothing
there. -/
def defaultAt? (d : Value) : (key : Value) → Option Value
  | .text key => d.get? key <|> d.get? (firstName key)
  | _ => none

/-- Is `w` the value `v` with one entry more, in any mapping in it, under a key that names nothing
there?  The value `d` has the defaults of what is known. -/
inductive AddsUnknown : (d v w : Value) → Prop
  | here {d key x : Value} (before behind : List (Value × Value))
      (hkey : defaultAt? d key = none) :
      AddsUnknown d (.mapping (before ++ behind)) (.mapping (before ++ (key, x) :: behind))
  | under {d key v w : Value} (before behind : List (Value × Value))
      (h : AddsUnknown ((defaultAt? d key).getD .null) v w) :
      AddsUnknown d (.mapping (before ++ (key, v) :: behind))
        (.mapping (before ++ (key, w) :: behind))
  | item {d v w : Value} (before behind : List Value) (h : AddsUnknown .null v w) :
      AddsUnknown d (.list (before ++ v :: behind)) (.list (before ++ w :: behind))

namespace AddsUnknown

variable {d v w : Value}

theorem isCollection (h : AddsUnknown d v w) : IsCollection v ∧ IsCollection w := by
  cases h <;> exact ⟨trivial, trivial⟩

/-- A mapping stays a mapping and a list a list; of its items only collections change. -/
theorem shape (h : AddsUnknown d v w) :
    (∃ vs ws, v = .mapping vs ∧ w = .mapping ws) ∨
      ∃ vs ws, v = .list vs ∧ w = .list ws ∧
        List.Forall₂ (fun v w => v = w ∨ IsCollection v ∧ IsCollection w) vs ws := by
  cases h with
  | here | under => exact .inl ⟨_, _, rfl, rfl⟩
  | @item _ x y before behind h =>
      refine .inr ⟨_, _, rfl, rfl, List.rel_append ?_ (.cons (.inr h.isCollection) ?_)⟩ <;>
        exact List.forall₂_same.2 fun _ _ => .inl rfl

/-- Under a name that is known, at most something is added further inside. -/
theorem get? (h : AddsUnknown d v w) {key : Text} {b : Value}
    (hkey : defaultAt? d (.text key) = some b) :
    v.get? key = w.get? key ∨
      ∃ x y, v.get? key = some x ∧ w.get? key = some y ∧ AddsUnknown b x y := by
  cases h with
  | @here _ k x before behind hnew =>
      refine .inl (Value.get?_insert ?_ x before behind).symm
      rintro rfl
      rw [hkey] at hnew
      cases hnew
  | @under _ k x y before behind h =>
      rcases Value.get?_replace k x y before behind key with heq | ⟨rfl, hx, hy⟩
      · exact .inl heq
      · rw [hkey] at h
        exact .inr ⟨x, y, hx, hy, h⟩
  | item => exact .inl rfl

theorem get?_eq_none_iff (h : AddsUnknown d v w) {key : Text} {b : Value}
    (hkey : defaultAt? d (.text key) = some b) : w.get? key = none ↔ v.get? key = none := by
  rcases h.get? hkey with heq | ⟨x, y, hx, hy, -⟩
  · rw [heq]
  · rw [hx, hy]
    exact iff_of_false (Option.some_ne_none y) (Option.some_ne_none x)

end AddsUnknown

theorem defaultAt?_of_get? {d b : Value} {key : Text} (h : d.get? key = some b) :
    defaultAt? d (.text key) = some b := by
  rw [defaultAt?, h]
  rfl

/-- With entries under unknown keys a value says the same. -/
theorem alike_of_addsUnknown (d : Value) {v w : Value} (h : AddsUnknown d v w) :
    Alike d (some v) (some w) := by
  rcases h.shape with ⟨vs, ws, rfl, rfl⟩ | ⟨vs, ws, rfl, rfl, hitems⟩
  · cases d with
    | mapping ds =>
        refine .sections fun key b hb => ?_
        have hsmaller := Value.sizeOf_lt_of_get? hb
        rcases h.get? (defaultAt?_of_get? hb) with heq | ⟨x, y, hx, hy, hxy⟩
        · rw [heq]
          exact .same b _
        · rw [hx, hy]
          exact alike_of_addsUnknown b hxy
    | _ =>
        refine .mappings ?_ vs ws
        nofun
  · exact .lists hitems
termination_by sizeOf d

theorem UsesFirstNames.addsUnknown {v w : Value} (hv : UsesFirstNames v)
    (h : AddsUnknown (toValue {}) v w) : UsesFirstNames w where
  signatures hnone := by
    rw [h.get?_eq_none_iff (show defaultAt? _ _ = some _ from rfl)] at hnone ⊢
    exact hv.signatures hnone
  methods m hm hnone := by
    rcases h.get? (show defaultAt? _ (.text "methods") = some _ from rfl) with
      heq | ⟨x, y, hx, hy, hxy⟩
    · exact hv.methods m (heq.trans hm) hnone
    · obtain rfl := Option.some.inj (hy.symm.trans hm)
      rw [hxy.get?_eq_none_iff (show defaultAt? _ _ = some _ from rfl)] at hnone ⊢
      exact hv.methods x hx hnone

/-! ## Partial settings -/

theorem ofValue_merge {v : Value} (hv : UsesFirstNames v) :
    ofValue (Value.merge (toValue {}) v) = ofValue v :=
  (ofValue_eq_of_alike (alike_overlaid (toValue {}) (some v)) hv (usesFirstNames_merge v)).symm

/-- However many entries under unknown keys are added, the settings stay the same. -/
theorem ofValue_of_unknown {v w : Value} (hv : UsesFirstNames v)
    (h : Relation.ReflTransGen (AddsUnknown (toValue {})) v w) :
    UsesFirstNames w ∧ ofValue w = ofValue v := by
  induction h with
  | refl => exact ⟨hv, rfl⟩
  | @tail u w _ hstep ih =>
      obtain ⟨hu, heq⟩ := ih
      have hw := hu.addsUnknown hstep
      exact ⟨hw, (ofValue_eq_of_alike (alike_of_addsUnknown _ hstep) hu hw).symm.trans heq⟩

theorem ofData_merge {v : Value} (hv : UsesFirstNames v) (origin : Text) :
    ofData origin (Value.merge (toValue {}) v) = ofData origin v := by
  have hsame := ofValue_merge hv
  rcases Value.merge_cases (toValue {}) v with hmerge | ⟨_, _, _, -, rfl, hmerge⟩
  · rw [hmerge]
  · rw [hmerge] at hsame ⊢
    rw [ofData, ofData, hsame]

/-- **Partial settings are the settings that complete them with the defaults.**  For every value
that uses no second name alone, whether its settings can be read or not: laid over the defaults,
key by key and at every depth, it gives the same settings or the same faults, also as a document;
and so it does with any entries under unknown keys in any of its mappings, laid over the defaults
or not. -/
theorem partial_settings_completed {v : Value} (hv : UsesFirstNames v) :
    ofValue (Value.merge (toValue {}) v) = ofValue v ∧
      (∀ origin, ofData origin (Value.merge (toValue {}) v) = ofData origin v) ∧
      ∀ w, Relation.ReflTransGen (AddsUnknown (toValue {})) v w →
        ofValue w = ofValue v ∧ ofValue (Value.merge (toValue {}) w) = ofValue v := by
  refine ⟨ofValue_merge hv, ofData_merge hv, fun w h => ?_⟩
  obtain ⟨hw, heq⟩ := ofValue_of_unknown hv h
  exact ⟨heq, (ofValue_merge hw).trans heq⟩

/-- The bucket of public class methods, with a word for its switch. -/
def partialBucket : List (Value × Value) :=
  [(.text "return_tag", .text "No")]

/-- Settings with `bucket` for the public methods of class scope. -/
def withBucket (bucket : List (Value × Value)) : Value :=
  record [("methods", record [("class", record [("public", .mapping bucket)])]),
    ("filter", record [("scopes", texts ["instance"])])]

/-- An unknown key, four mappings down, is passed over; everything that is left out has its
default. -/
theorem partial_settings_completed_bucket :
    UsesFirstNames (withBucket partialBucket) ∧
      AddsUnknown (toValue {}) (withBucket partialBucket)
        (withBucket ((.text "header", .null) :: partialBucket)) ∧
      ofValue (withBucket partialBucket) = .ok {
        methods := { onClass := { pub := { returnTag := some false } } }
        filter := { scopes := [.onInstance] } } ∧
      ofValue (Value.merge (toValue {}) (withBucket partialBucket)) =
        ofValue (withBucket partialBucket) ∧
      ofValue (withBucket ((.text "header", .null) :: partialBucket)) =
        ofValue (withBucket partialBucket) := by
  have hnames : UsesFirstNames (withBucket partialBucket) :=
    ⟨fun _ => rfl, fun m hm _ => by obtain rfl := Option.some.inj hm; rfl⟩
  have hadds : AddsUnknown (toValue {}) (withBucket partialBucket)
      (withBucket ((.text "header", .null) :: partialBucket)) :=
    .under [] _ (.under [] [] (.under [] [] (.here [] partialBucket rfl)))
  obtain ⟨hmerge, -, hunknown⟩ := partial_settings_completed hnames
  exact ⟨hnames, hadds, rfl, hmerge, (hunknown _ (.single hadds)).1⟩

/-- A second name alone is not looked at any more when the defaults are laid under it. -/
example :
    let signatures : Value := record [("rbs", record [("enabled", .bool true)])]
    ofValue signatures = .ok { signatures := { enabled := true } } ∧
      ofValue (Value.merge (toValue {}) signatures) = .ok {} :=
  ⟨rfl, rfl⟩

end RubyDoc.Settings
