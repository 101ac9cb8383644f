import RubyDoc.Signature.Bracket

/-!
# Types in the notation of documentation

A declared type is spelled anew for documentation: `Array[String]?` becomes `Array<String>?`, a
union becomes a list without repetitions, and the forms that documentation has no notation for
become the class of their values.  The shape of a type says which rule applies and which shorter
texts are types again; the spelling follows the shapes.
-/

namespace RubyDoc.Signature

/-- The words that stand for a fixed documented type. -/
def keywordTypes : List (Text × Text) :=
  [("bool", "Boolean"), ("boolish", "Boolean"), ("true", "Boolean"), ("false", "Boolean"),
    ("untyped", "Object"), ("top", "Object"), ("bot", "Object"), ("void", "void"),
    ("nil", "nil"), ("class", "Class")]

/-- The outermost form of a declared type. -/
inductive Shape where
  /-- A type that is documented by one word whatever its parts are. -/
  | fixed (word : Text)
  | union (members : List Text)
  | optional (inner : Text)
  | group (inner : Text)
  | generic (name : Text) (arguments : List Text)
  deriving DecidableEq, Repr

namespace Shape

/-- The texts inside a shape that are types again. -/
def inner : Shape → List Text
  | fixed _ => []
  | union members => members
  | optional t => [t]
  | group t => [t]
  | generic _ arguments => arguments

end Shape

/-- A text without the colons at its beginning. -/
def withoutColons (t : Text) : Text :=
  t.dropWhile (· = .char ':')

/-- A symbol of a path of names. -/
def isPathSym (s : Sym) : Bool :=
  s.isWord || s = .char ':'

/-- A path followed by arguments in square brackets, the last symbol closing them. -/
def generic? (t : Text) : Option Shape :=
  match t.dropWhile isPathSym with
  | [] => none
  | s :: rest =>
      if s = .char '[' ∧ t.takeWhile isPathSym ≠ [] ∧ rest.getLast? = some (.char ']') then
        some (.generic (withoutColons (t.takeWhile isPathSym))
          (pieces (.char ',') rest.dropLast))
      else none

/-- An integer literal: decimal digits, perhaps after a minus sign. -/
def isInteger (t : Text) : Bool :=
  let digits := if t.head? = some (.char '-') then t.tail else t
  !digits.isEmpty && digits.all Sym.isDigit

/-- The shape of a type that is one word, a literal or a bracketed list. -/
def atomShape (t : Text) : Shape :=
  if t.startsWith "[" then .fixed "Array"
  else if t.startsWith "\x7b" then .fixed "Hash"
  else if t.head?.any isQuote then .fixed "String"
  else if t.startsWith ":" && !t.startsWith "::" then .fixed "Symbol"
  else if isInteger t then .fixed "Integer"
  else match keywordTypes.lookup t with
    | some word => .fixed word
    | none =>
        if t.startsWith "singleton(" && t.endsWith ")" then .fixed "Class"
        else match generic? t with
          | some shape => shape
          | none => .fixed (if t.startsWith "::" then withoutColons t else t)

/-- The shape of a declared type without white space around it. -/
def shape (t : Text) : Shape :=
  if t.isEmpty then .fixed "Object"
  else if t.startsWith "^" then .fixed "Proc"
  else if 1 < (pieces (.char '|') t).length then .union (pieces (.char '|') t)
  else if 1 < (pieces (.char '&') t).length then .fixed "Object"
  else if t.endsWith "?" && 1 < t.length then .optional t.dropLast
  else if t.startsWith "(" ∧ closing? t = some (t.length - 1) then .group t.tail.dropLast
  else atomShape t

theorem length_lt_of_mem_generic {t p : Text} {form : Shape} (hform : generic? t = some form)
    (h : p ∈ form.inner) : p.length < t.length := by
  unfold generic? at hform
  split at hform
  · simp at hform
  · rename_i s rest hrest
    split at hform
    · cases hform
      have hp := length_le_of_mem_pieces (show p ∈ pieces _ rest.dropLast from h)
      have hle : (s :: rest).length ≤ t.length := hrest ▸ (List.dropWhile_sublist _).length_le
      simp only [List.length_dropLast, List.length_cons] at hp hle
      omega
    · simp at hform

theorem length_lt_of_mem_atomShape {t p : Text} (h : p ∈ (atomShape t).inner) :
    p.length < t.length := by
  unfold atomShape at h
  split at h <;> try (simp [Shape.inner] at h; done)
  split at h <;> try (simp [Shape.inner] at h; done)
  split at h <;> try (simp [Shape.inner] at h; done)
  split at h <;> try (simp [Shape.inner] at h; done)
  split at h <;> try (simp [Shape.inner] at h; done)
  split at h <;> try (simp [Shape.inner] at h; done)
  split at h <;> try (simp [Shape.inner] at h; done)
  split at h
  · rename_i form hform
    exact length_lt_of_mem_generic hform h
  · simp [Shape.inner] at h

/-- The types inside a type are shorter texts. -/
theorem length_lt_of_mem_shape {t p : Text} (h : p ∈ (shape t).inner) :
    p.length < t.length := by
  unfold shape at h
  split at h
  · simp [Shape.inner] at h
  · rename_i hne
    have hpos : 0 < t.length := List.length_pos_iff.2 (by simpa using hne)
    split at h
    · simp [Shape.inner] at h
    · split at h
      · rename_i htwo
        exact length_lt_of_mem_pieces h htwo
      · split at h
        · simp [Shape.inner] at h
        · split at h
          · simp only [Shape.inner, List.mem_singleton] at h
            simp only [h, List.length_dropLast]
            omega
          · split at h
            · simp only [Shape.inner, List.mem_singleton] at h
              simp only [h, List.length_dropLast, List.length_tail]
              omega
            · exact length_lt_of_mem_atomShape h

/-- A declared type in the notation of documentation, with or without the arguments of generic
types. -/
def docType (collapse : Bool) (declared : Text) : Text :=
  match _hform : shape declared.trim with
  | .fixed word => word
  | .union members =>
      Text.join ", " (members.attach.map fun m => docType collapse m.1).eraseDups
  | .optional inner => docType collapse inner ++ "?"
  | .group inner => docType collapse inner
  | .generic name arguments =>
      if collapse then name
      else
        name ++ "<" ++ Text.join ", " (arguments.attach.map fun a => docType collapse a.1) ++ ">"
termination_by declared.length
decreasing_by
  all_goals
    refine Nat.lt_of_lt_of_le (length_lt_of_mem_shape ?_) (Text.length_trim_le declared)
    simp [_hform, Shape.inner, Subtype.property]

end RubyDoc.Signature
