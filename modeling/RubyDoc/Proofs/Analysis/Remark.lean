import Mathlib.Tactic.Common
import RubyDoc.Analysis.Parameter
import RubyDoc.Analysis.Result
import RubyDoc.Proofs.Syntax.Remark

/-!
# What the analysis sees of remarks

Nothing: constants, values, parameters, exceptions and results of a node are those of the cleared
node (`parameters_cleared`, `raisedTypes_cleared`, `returnSpec_cleared`).  The functions that go
through a list of children pass over remarks, each by what it asks of a child.
-/

namespace RubyDoc.Analysis

open RubyDoc.Syntax Node

variable (s : Source)

/-! ## Constants -/

mutual

theorem constantPath?_cleared : ∀ n : Node, constantPath? s n.cleared = constantPath? s n
  | ⟨kind, field, startByte, endByte, row, isNamed, isMissing, hasError, children⟩ => by
      rw [cleared]
      by_cases hkind : kind = .scopeResolution
      swap
      · cases kind <;> first | rfl | exact absurd rfl hkind
      subst hkind
      rw [constantPath?, constantPath?, find?_field_clearedList, scopePath?_clearedList children]
      cases children.find? fun c => c.field = some .name with
      | none => rfl
      | some last =>
          rw [Option.map_some]
          simp only [kind_cleared, textOf_cleared]

theorem scopePath?_clearedList : ∀ cs : List Node, scopePath? s (clearedList cs) = scopePath? s cs
  | [] => by rw [clearedList]
  | c :: cs => by
      rw [clearedList]
      split
      · rename_i hc
        have hfield : c.field = none := field_cleared c ▸ field_of_isRemark hc
        rw [scopePath?_clearedList cs, scopePath?, if_neg (by simp [hfield])]
      · rw [scopePath?, scopePath?, field_cleared, constantPath?_cleared c,
          scopePath?_clearedList cs]

end

@[simp] theorem lastSegment?_cleared (n : Node) : lastSegment? s n.cleared = lastSegment? s n := by
  rw [lastSegment?, lastSegment?, kind_cleared, textOf_cleared, child?_cleared]
  cases n.child? .name with
  | none => rfl
  | some last => simp only [Option.map_some, kind_cleared, textOf_cleared]

/-! ## Values -/

@[simp] theorem signedType?_cleared (n : Node) : signedType? s n.cleared = signedType? s n := by
  rw [signedType?, signedType?, child?_cleared, child?_cleared]
  cases n.child? .operand with
  | none => rfl
  | some operand =>
      cases n.child? .operator with
      | none => rfl
      | some sign =>
          simp only [Option.map_some, Option.bind_eq_bind, Option.bind_some, kind_cleared,
            textOf_cleared]

@[simp] theorem constructedType?_cleared (n : Node) :
    constructedType? s n.cleared = constructedType? s n := by
  rw [constructedType?, constructedType?, child?_cleared, child?_cleared]
  cases n.child? .receiver with
  | none => rfl
  | some receiver =>
      cases n.child? .method with
      | none => rfl
      | some method =>
          show (if s.textOf method.cleared = _ then lastSegment? s receiver.cleared else none) = _
          rw [textOf_cleared, lastSegment?_cleared]
          rfl

section Values

variable (fallback : Text)

mutual

theorem valueType_cleared : ∀ n : Node, valueType s fallback n.cleared = valueType s fallback n
  | ⟨kind, field, startByte, endByte, row, isNamed, isMissing, hasError, children⟩ => by
      have hlast := lastSegment?_cleared s
        ⟨kind, field, startByte, endByte, row, isNamed, isMissing, hasError, children⟩
      have hsigned := signedType?_cleared s
        ⟨kind, field, startByte, endByte, row, isNamed, isMissing, hasError, children⟩
      have hmade := constructedType?_cleared s
        ⟨kind, field, startByte, endByte, row, isNamed, isMissing, hasError, children⟩
      rw [cleared] at *
      unfold valueType
      simp only [hlast, hsigned, hmade, soleType_clearedList children]
      cases kind <;> rfl

theorem soleType_clearedList :
    ∀ cs : List Node, soleType s fallback (clearedList cs) = soleType s fallback cs
  | [] => by rw [clearedList]
  | c :: cs => by
      rw [clearedList]
      split
      · rename_i hc
        have hcode : c.isCode = false := isCode_cleared c ▸ isCode_of_isRemark hc
        rw [soleType_clearedList cs, soleType, if_neg (by simp [hcode])]
      · rw [soleType, soleType, isCode_cleared, valueType_cleared c, soleType_clearedList cs,
          any_clearedList isCode_cleared fun _ => isCode_of_isRemark]

end

end Values

/-! ## Parameters -/

theorem parameterType_cleared (style : ParameterStyle) (kind : ParameterKind) (name : Text)
    (value : Option Node) :
    parameterType s style kind name (value.map cleared) =
      parameterType s style kind name value := by
  cases value with
  | none => rfl
  | some v =>
      simp only [parameterType, Option.map_some, valueType_cleared, Option.any_some,
        textOf_cleared]

theorem parameterShape?_cleared (n : Node) : parameterShape? s n.cleared =
    (parameterShape? s n).map fun shape => (shape.1, shape.2.1, shape.2.2.map cleared) := by
  simp only [parameterShape?, kind_cleared, child?_cleared, Source.map_textOf_cleared,
    textOf_cleared, Option.isNone_map]
  split <;> rfl

theorem parameter?_cleared (style : ParameterStyle) (n : Node) :
    parameter? s style n.cleared = parameter? s style n := by
  rw [parameter?, parameter?, parameterShape?_cleared]
  cases parameterShape? s n with
  | none => rfl
  | some shape =>
      obtain ⟨kind, name, value⟩ := shape
      show (if name.isEmpty then none else some (Parameter.mk name kind
        (parameterType s style kind name (value.map cleared)))) = _
      rw [parameterType_cleared]
      rfl

theorem parameters_cleared (style : ParameterStyle) (method : Node) :
    parameters s style method.cleared = parameters s style method := by
  rw [parameters, parameters, codeOf_cleared, List.filterMap_map]
  exact congrArg (List.filterMap · _) (funext (parameter?_cleared s style))

/-! ## Exceptions -/

theorem errorClass_cleared (n : Node) : errorClass s n.cleared = errorClass s n := by
  rw [errorClass, errorClass, constantPath?_cleared]

theorem handledErrors_cleared (clause : Node) :
    handledErrors s clause.cleared = handledErrors s clause := by
  rw [handledErrors, handledErrors, codeOf_cleared]
  cases clause.codeOf .exceptions with
  | nil => rfl
  | cons c cs =>
      show ((c :: cs).map cleared).map (errorClass s) = (c :: cs).map (errorClass s)
      rw [List.map_map]
      exact congrArg (List.map · _) (funext (errorClass_cleared s))

theorem raisedBy?_cleared (n : Node) : raisedBy? s n.cleared = raisedBy? s n := by
  rw [raisedBy?, raisedBy?, Source.callName?_cleared, isReceiverless_cleared, arguments_cleared]
  cases n.arguments with
  | nil => rfl
  | cons first rest => simp only [List.map_cons, errorClass_cleared]

/-- A remark mentions no exception. -/
theorem raisedEvents_of_isRemark {n : Node} (h : n.isRemark) : raisedEvents s n = [] := by
  have hkind := kind_of_isRemark h
  have hchildren := children_of_isRemark h
  obtain ⟨kind, field, startByte, endByte, row, isNamed, isMissing, hasError, children⟩ := n
  obtain rfl : kind = .comment := hkind
  obtain rfl : children = [] := hchildren
  rfl

mutual

theorem raisedEvents_cleared : ∀ n : Node, raisedEvents s n.cleared = raisedEvents s n
  | ⟨kind, field, startByte, endByte, row, isNamed, isMissing, hasError, children⟩ => by
      have hhandled := handledErrors_cleared s
        ⟨kind, field, startByte, endByte, row, isNamed, isMissing, hasError, children⟩
      have hraised := raisedBy?_cleared s
        ⟨kind, field, startByte, endByte, row, isNamed, isMissing, hasError, children⟩
      rw [cleared] at *
      unfold raisedEvents
      simp only [hhandled, hraised, raisedEventsIn_clearedList children,
        raisedEventsBut_clearedList .method children, raisedEventsBut_clearedList .name children,
        raisedEventsOf_clearedList .body children, raisedEventsOf_clearedList .handler children]
      cases kind <;> rfl

theorem raisedEventsIn_clearedList :
    ∀ cs : List Node, raisedEventsIn s (clearedList cs) = raisedEventsIn s cs
  | [] => by rw [clearedList]
  | c :: cs => by
      rw [clearedList, raisedEventsIn, ← raisedEvents_cleared c, ← raisedEventsIn_clearedList cs]
      split
      · rename_i hc
        rw [raisedEvents_of_isRemark s hc]
        simp
      · rw [raisedEventsIn, isNamed_cleared]

theorem raisedEventsBut_clearedList (f : Field) :
    ∀ cs : List Node, raisedEventsBut s f (clearedList cs) = raisedEventsBut s f cs
  | [] => by rw [clearedList]
  | c :: cs => by
      rw [clearedList, raisedEventsBut, ← raisedEvents_cleared c,
        ← raisedEventsBut_clearedList f cs, ← raisedEventsIn_clearedList cs, ← field_cleared c]
      split
      · rename_i hc
        rw [field_of_isRemark hc, if_neg nofun, raisedEvents_of_isRemark s hc]
        simp
      · rw [raisedEventsBut, isNamed_cleared]

theorem raisedEventsOf_clearedList (f : Field) :
    ∀ cs : List Node, raisedEventsOf s f (clearedList cs) = raisedEventsOf s f cs
  | [] => by rw [clearedList]
  | c :: cs => by
      rw [clearedList, raisedEventsOf, ← raisedEvents_cleared c, ← raisedEventsOf_clearedList f cs,
        ← field_cleared c]
      split
      · rename_i hc
        rw [field_of_isRemark hc, if_neg nofun]
      · rw [raisedEventsOf]

end

theorem raisedTypes_cleared (method : Node) :
    raisedTypes s method.cleared = raisedTypes s method := by
  rw [raisedTypes, raisedTypes, raisedEvents_cleared]

/-! ## Results -/

section Results

variable (style : ResultStyle)

@[simp] theorem isStatement_cleared (n : Node) : isStatement n.cleared = isStatement n := by
  rw [isStatement, isStatement, kind_cleared]

theorem returnedType_cleared (n : Node) :
    returnedType s style n.cleared = returnedType s style n := by
  rw [returnedType, returnedType, code_cleared]
  cases n.code with
  | nil => rfl
  | cons v vs =>
      simp only [List.map_cons, kind_cleared, code_cleared]
      by_cases hv : v.kind = .argumentList
      · simp only [if_pos hv]
        rcases v.code with _ | ⟨w, _ | ⟨x, xs⟩⟩
        · rfl
        · exact valueType_cleared s _ w
        · rfl
      · simp only [if_neg hv]
        cases vs with
        | nil => exact valueType_cleared s _ v
        | cons w ws => rfl

theorem any_statement_clearedList (cs : List Node) :
    ((clearedList cs).any fun d => d.isCode && isStatement d) =
      cs.any fun d => d.isCode && isStatement d :=
  any_clearedList (fun c => by rw [isCode_cleared, isStatement_cleared])
    (fun c hc => by simp [isCode_of_isRemark hc]) cs

/-- The value of a sequence without statements is none. -/
theorem lastType?_eq_none {cs : List Node}
    (h : (cs.any fun d => d.isCode && isStatement d) = false) : lastType? s style cs = none := by
  induction cs with
  | nil => rw [lastType?]
  | cons c cs _ =>
      rw [List.any_cons, Bool.or_eq_false_iff] at h
      rw [lastType?, if_neg (by simp [h.2]), if_neg (by simp [h.1])]

mutual

theorem tailType?_cleared : ∀ n : Node, tailType? s style n.cleared = tailType? s style n
  | ⟨kind, field, startByte, endByte, row, isNamed, isMissing, hasError, children⟩ => by
      have hvalue := valueType_cleared s style.fallback
        ⟨kind, field, startByte, endByte, row, isNamed, isMissing, hasError, children⟩
      have hreturned := returnedType_cleared s style
        ⟨kind, field, startByte, endByte, row, isNamed, isMissing, hasError, children⟩
      have hrescue : ((clearedList children).any fun c => c.isCode && c.kind = .rescue) =
          children.any fun c => c.isCode && c.kind = .rescue :=
        any_clearedList (fun c => by rw [isCode_cleared, kind_cleared])
          (fun c hc => by simp [isCode_of_isRemark hc]) children
      rw [cleared] at *
      unfold tailType?
      simp only [hvalue, hreturned, hrescue, lastType?_clearedList children,
        fieldType?_clearedList .consequence children, fieldType?_clearedList .alternative children,
        fieldType?_clearedList .body children, armTypes_clearedList children]
      cases kind <;> rfl

theorem lastType?_clearedList :
    ∀ cs : List Node, lastType? s style (clearedList cs) = lastType? s style cs
  | [] => by rw [clearedList]
  | c :: cs => by
      rw [clearedList, lastType?, ← tailType?_cleared c, ← lastType?_clearedList cs,
        ← any_statement_clearedList cs, ← isCode_cleared c, ← isStatement_cleared c]
      split
      · rename_i hc
        rw [isCode_of_isRemark hc]
        split
        · rfl
        · rename_i hnone
          exact lastType?_eq_none s style (by simpa using hnone)
      · rw [lastType?]

theorem fieldType?_clearedList (f : Field) :
    ∀ cs : List Node, fieldType? s style f (clearedList cs) = fieldType? s style f cs
  | [] => by rw [clearedList]
  | c :: cs => by
      rw [clearedList, fieldType?, ← tailType?_cleared c, ← fieldType?_clearedList f cs,
        ← field_cleared c]
      split
      · rename_i hc
        rw [field_of_isRemark hc, if_neg nofun]
      · rw [fieldType?]

theorem thenType?_clearedList :
    ∀ cs : List Node, thenType? s style (clearedList cs) = thenType? s style cs
  | [] => by rw [clearedList]
  | c :: cs => by
      rw [clearedList, thenType?, ← tailType?_cleared c, ← thenType?_clearedList cs,
        ← isNamed_cleared c, ← kind_cleared c]
      split
      · rename_i hc
        rw [kind_of_isRemark hc, if_neg (by simp)]
      · rw [thenType?]

theorem clauseType?_cleared : ∀ n : Node, clauseType? s style n.cleared = clauseType? s style n
  | ⟨kind, field, startByte, endByte, row, isNamed, isMissing, hasError, children⟩ => by
      rw [cleared, clauseType?, clauseType?, any_field_clearedList,
        fieldType?_clearedList .body children, thenType?_clearedList children]

theorem armTypes_clearedList :
    ∀ cs : List Node, armTypes s style (clearedList cs) = armTypes s style cs
  | [] => by rw [clearedList]
  | c :: cs => by
      rw [clearedList, armTypes, ← tailType?_cleared c, ← clauseType?_cleared c,
        ← armTypes_clearedList cs, ← isCode_cleared c, ← kind_cleared c]
      split
      · rename_i hc
        rw [isCode_of_isRemark hc]
        rfl
      · rw [armTypes]

end

theorem returnSpec_cleared (method : Node) :
    returnSpec s style method.cleared = returnSpec s style method := by
  have hstatements : method.cleared.statements.filter isStatement =
      (method.statements.filter isStatement).map cleared := by
    rw [statements_cleared, List.filter_map]
    exact congrArg (List.map _ <| List.filter · _) (funext isStatement_cleared)
  have hclauses : (method.cleared.statements.filter fun c => c.kind = .rescue) =
      (method.statements.filter fun c => c.kind = .rescue).map cleared := by
    rw [statements_cleared, List.filter_map]
    exact congrArg (List.map _ <| List.filter · _) (funext fun c => by simp)
  have hlast : (method.cleared.statements.filter isStatement).getLast?.bind (tailType? s style) =
      (method.statements.filter isStatement).getLast?.bind (tailType? s style) := by
    rw [hstatements, List.getLast?_map, Option.bind_map]
    exact congrArg (Option.bind _) (funext (tailType?_cleared s style))
  simp only [returnSpec, hlast]
  rw [hstatements, hclauses]
  cases method.statements.filter fun c => c.kind = .rescue with
  | nil =>
      rcases method.statements.filter isStatement with _ | ⟨only, _ | ⟨other, rest⟩⟩
      · rfl
      · simp only [List.map_cons, List.map_nil, kind_cleared, children_cleared,
          fieldType?_clearedList]
      · rfl
  | cons clause clauses =>
      simp only [List.map_cons, List.map_map, handledErrors_cleared, clauseType?_cleared,
        Function.comp_def]

end Results

end RubyDoc.Analysis
