import Mathlib.Data.List.Dedup
import RubyDoc.Environment
import RubyDoc.Proofs.Signature.Lookup

/-!
# A provider is asked once for each key

A series of lookups may ask for the same keys over and over, in any order.  The provider hears of
each key once, when it is first looked up, and whatever it gives then is found ever after, a failure
being no signature (`findAll_asks_once`).  So it does not matter what the provider would say the
second time: nothing is assumed about it, and its answers may depend on all that it was asked
before.  Of its failures only the first one is reported, if that is wanted.
-/

namespace RubyDoc.Signature

/-- What a lookup takes an answer for: a failure is no signature. -/
def settled (r : Except Trouble Finding) : Finding :=
  r.toOption.getD .nothing

/-- What went wrong with an answer. -/
def trouble? : Except Trouble Finding → Option Trouble
  | .ok _ => none
  | .error t => some t

/-- The keys in the order in which they were first looked up, the latest first. -/
def firstLookups (keys : List Key) : List Key :=
  keys.reverse.dedup

theorem mem_firstLookups {keys : List Key} {key : Key} : key ∈ firstLookups keys ↔ key ∈ keys := by
  rw [firstLookups, List.mem_dedup, List.mem_reverse]

theorem nodup_firstLookups (keys : List Key) : (firstLookups keys).Nodup :=
  List.nodup_dedup _

theorem firstLookups_concat_of_mem {keys : List Key} {key : Key} (h : key ∈ keys) :
    firstLookups (keys ++ [key]) = firstLookups keys := by
  rw [firstLookups, List.reverse_append, List.reverse_singleton, List.singleton_append,
    List.dedup_cons_of_mem (List.mem_reverse.2 h), firstLookups]

theorem firstLookups_concat_of_notMem {keys : List Key} {key : Key} (h : key ∉ keys) :
    firstLookups (keys ++ [key]) = key :: firstLookups keys := by
  rw [firstLookups, List.reverse_append, List.reverse_singleton, List.singleton_append,
    List.dedup_cons_of_notMem fun hkey => h (List.mem_reverse.1 hkey), firstLookups]

namespace Provider

variable (p : Provider)

/-- What the provider gives when `key` is first looked up among `keys`.  Until then it was asked for
the keys looked up earlier, each of them once, and its answer may show that. -/
def given (keys : List Key) (key : Key) : Except Trouble Finding :=
  p.answer (firstLookups (keys.takeWhile (· ≠ key))) key

/-- What went wrong at the earliest first lookup that failed. -/
def firstTrouble? (keys : List Key) : Option Trouble :=
  keys.findSome? fun key => trouble? (p.given keys key)

variable {p} {keys : List Key} {key : Key}

/-- What was given for a key does not depend on what is looked up after it. -/
theorem given_append (h : key ∈ keys) (later : List Key) :
    p.given (keys ++ later) key = p.given keys key := by
  have htake : (keys ++ later).takeWhile (· ≠ key) = keys.takeWhile (· ≠ key) := by
    induction keys with
    | nil => cases h
    | cons k keys ih =>
        by_cases hk : k = key
        · simp [hk]
        · have hkey : key ∈ keys := (List.mem_cons.1 h).resolve_left fun heq => hk heq.symm
          simp only [List.cons_append, List.takeWhile_cons, ih hkey]
  rw [given, htake, given]

theorem given_append_cons (keys : List Key) (key : Key) (later : List Key) :
    p.given (keys ++ key :: later) key = p.given (keys ++ [key]) key := by
  have hkey : key ∈ keys ++ [key] := List.mem_concat_self
  rw [← given_append hkey later, List.append_assoc, List.singleton_append]

theorem given_concat_of_notMem (h : key ∉ keys) :
    p.given (keys ++ [key]) key = p.answer (firstLookups keys) key := by
  have hall : ∀ k ∈ keys, decide (k ≠ key) := by
    rintro k hk
    exact decide_eq_true fun heq => h (heq ▸ hk)
  rw [given, List.takeWhile_append_of_pos hall]
  simp

theorem firstTrouble?_eq_none_iff :
    p.firstTrouble? keys = none ↔ ∀ key ∈ keys, trouble? (p.given keys key) = none :=
  List.findSome?_eq_none_iff

/-- A first trouble stays the first one. -/
theorem firstTrouble?_concat (keys : List Key) (key : Key) :
    p.firstTrouble? (keys ++ [key]) =
      (p.firstTrouble? keys).or (trouble? (p.given (keys ++ [key]) key)) := by
  have hearlier : (keys.findSome? fun k => trouble? (p.given (keys ++ [key]) k)) =
      keys.findSome? fun k => trouble? (p.given keys k) := by
    rw [← List.head?_filterMap, ← List.head?_filterMap]
    exact congrArg _ (List.filterMap_congr fun k hk => by rw [given_append hk])
  rw [firstTrouble?, List.findSome?_append, hearlier, List.findSome?_singleton, firstTrouble?]

theorem firstTrouble?_concat_of_mem (h : key ∈ keys) :
    p.firstTrouble? (keys ++ [key]) = p.firstTrouble? keys := by
  rw [firstTrouble?_concat, given_append h]
  cases hnone : p.firstTrouble? keys with
  | some t => rfl
  | none => rw [firstTrouble?_eq_none_iff.1 hnone key h, Option.or_none]

theorem firstTrouble?_concat_of_notMem (h : key ∉ keys) :
    p.firstTrouble? (keys ++ [key]) =
      (p.firstTrouble? keys).or (trouble? (p.answer (firstLookups keys) key)) := by
  rw [firstTrouble?_concat, given_concat_of_notMem h]

end Provider

namespace Lookups

/-- The lines of the report that are always written. -/
def traces (l : Lookups) : List Text :=
  l.log.filterMap fun
    | .trace line => some line
    | .debug _ => none

/-- The report of a failing lookup. -/
def failureLine (t : Trouble) : Text :=
  "yardgen: signature lookup failed: " ++ t.text

/-- Looks up one key after the other. -/
def findAll (provider : Option Provider) (keys : List Key) : StateM Lookups (List Finding) :=
  keys.mapM fun key => (find provider key : StateM Lookups Finding)

@[simp] theorem calls_ask (l : Lookups) (key : Key) : (l.ask key).calls = key :: l.calls := rfl

@[simp] theorem calls_notice (l : Lookups) (p : Provider) : (l.notice p).calls = l.calls := by
  unfold notice
  split
  · split <;> rfl
  · rfl

@[simp] theorem calls_fail (l : Lookups) (t : Trouble) : (l.fail t).calls = l.calls := by
  unfold fail
  split <;> rfl

@[simp] theorem calls_remember (l : Lookups) (key : Key) (f : Finding) :
    (l.remember key f).calls = l.calls := rfl

@[simp] theorem traces_ask (l : Lookups) (key : Key) : (l.ask key).traces = l.traces := rfl

@[simp] theorem traces_notice (l : Lookups) (p : Provider) : (l.notice p).traces = l.traces := by
  unfold notice
  split
  · split
    · rfl
    · simp [traces, report]
  · rfl

@[simp] theorem reportFailure_ask (l : Lookups) (key : Key) :
    (l.ask key).reportFailure = l.reportFailure := rfl

@[simp] theorem reportFailure_notice (l : Lookups) (p : Provider) :
    (l.notice p).reportFailure = l.reportFailure := by
  unfold notice
  split
  · split <;> rfl
  · rfl

@[simp] theorem answers_remember (l : Lookups) (key : Key) (f : Finding) :
    (l.remember key f).answers = (key, f) :: l.answers := rfl

@[simp] theorem traces_remember (l : Lookups) (key : Key) (f : Finding) :
    (l.remember key f).traces = l.traces := rfl

@[simp] theorem reportFailure_remember (l : Lookups) (key : Key) (f : Finding) :
    (l.remember key f).reportFailure = l.reportFailure := rfl

theorem traces_fail (l : Lookups) (t : Trouble) :
    (l.fail t).traces = l.traces ++ if l.reportFailure then [failureLine t] else [] := by
  unfold fail
  split
  · simp [traces, report, failureLine]
  · rw [List.append_nil]

theorem reportFailure_fail (l : Lookups) (t : Trouble) : (l.fail t).reportFailure = false := by
  unfold fail
  split
  · rfl
  · rename_i hfalse
    simpa using hfalse

theorem run_findAll_cons (provider : Option Provider) (key : Key) (keys : List Key) (l : Lookups) :
    (findAll provider (key :: keys)).run l =
      ((find provider key l).1 :: ((findAll provider keys).run (find provider key l).2).1,
        ((findAll provider keys).run (find provider key l).2).2) := by
  rw [findAll, List.mapM_cons]
  rfl

/-- Is `l` the state of a series in which `keys` were looked up?  The provider was asked for every
key once, and what it gave is remembered; the first trouble is reported if that is wanted, and the
wish is granted with it. -/
structure After (p : Provider) (reports : Bool) (keys : List Key) (l : Lookups) : Prop where
  calls : l.calls = firstLookups keys
  answers : l.answers = (firstLookups keys).map fun key => (key, settled (p.given keys key))
  traces : l.traces = if reports then ((p.firstTrouble? keys).map failureLine).toList else []
  reportFailure : l.reportFailure = (reports && (p.firstTrouble? keys).isNone)

theorem lookup_map_self {f : Key → Finding} (key : Key) (keys : List Key) :
    (keys.map fun k => (k, f k)).lookup key = if key ∈ keys then some (f key) else none := by
  induction keys with
  | nil => rfl
  | cons k keys ih =>
      rw [List.map_cons, List.lookup_cons]
      by_cases hkey : key = k
      · simp [hkey]
      · rw [beq_eq_false_iff_ne.2 hkey, ih]
        simp [hkey]

namespace After

variable {p : Provider} {reports : Bool} {keys : List Key} {l : Lookups}

theorem start (p : Provider) (reports : Bool) :
    After p reports [] { reportFailure := reports } where
  calls := rfl
  answers := rfl
  traces := by cases reports <;> rfl
  reportFailure := by cases reports <;> rfl

theorem lookup_of_mem (h : After p reports keys l) {key : Key} (hkey : key ∈ keys) :
    l.answers.lookup key = some (settled (p.given keys key)) := by
  rw [h.answers, lookup_map_self, if_pos (mem_firstLookups.2 hkey)]

theorem lookup_of_notMem (h : After p reports keys l) {key : Key} (hkey : key ∉ keys) :
    l.answers.lookup key = none := by
  rw [h.answers, lookup_map_self, if_neg fun hmem => hkey (mem_firstLookups.1 hmem)]

/-- A key that was looked up before changes nothing. -/
theorem find_of_mem (h : After p reports keys l) {key : Key} (hkey : key ∈ keys) :
    (find (some p) key l).1 = settled (p.given (keys ++ [key]) key) ∧
      After p reports (keys ++ [key]) (find (some p) key l).2 := by
  rw [find_of_lookup p (h.lookup_of_mem hkey), Provider.given_append hkey]
  refine ⟨rfl, ?_, ?_, ?_, ?_⟩
  · rw [h.calls, firstLookups_concat_of_mem hkey]
  · rw [h.answers, firstLookups_concat_of_mem hkey]
    refine List.map_congr_left fun k hk => ?_
    rw [Provider.given_append (mem_firstLookups.1 hk)]
  · rw [h.traces, Provider.firstTrouble?_concat_of_mem hkey]
  · rw [h.reportFailure, Provider.firstTrouble?_concat_of_mem hkey]

/-- The provider is asked for a new key, and the answer is remembered. -/
theorem find_of_notMem (h : After p reports keys l) {key : Key} (hkey : key ∉ keys) :
    (find (some p) key l).1 = settled (p.given (keys ++ [key]) key) ∧
      After p reports (keys ++ [key]) (find (some p) key l).2 := by
  have hanswers : (key, settled (p.given (keys ++ [key]) key)) :: l.answers =
      (firstLookups (keys ++ [key])).map fun k => (k, settled (p.given (keys ++ [key]) k)) := by
    rw [firstLookups_concat_of_notMem hkey, List.map_cons, h.answers]
    refine congrArg _ (List.map_congr_left fun k hk => ?_)
    rw [Provider.given_append (mem_firstLookups.1 hk)]
  rw [Provider.given_concat_of_notMem hkey] at hanswers ⊢
  have hcalls : key :: l.calls = firstLookups (keys ++ [key]) := by
    rw [h.calls, firstLookups_concat_of_notMem hkey]
  rw [find, h.lookup_of_notMem hkey, h.calls]
  have htrouble := Provider.firstTrouble?_concat_of_notMem (p := p) hkey
  cases hanswer : p.answer (firstLookups keys) key with
  | ok f =>
      rw [hanswer] at hanswers htrouble
      refine ⟨rfl, ?_, ?_, ?_, ?_⟩
      · rw [calls_remember, calls_notice, calls_ask]
        exact hcalls
      · rw [answers_remember, answers_notice, answers_ask]
        exact hanswers
      · rw [traces_remember, traces_notice, traces_ask, h.traces, htrouble, trouble?,
          Option.or_none]
      · rw [reportFailure_remember, reportFailure_notice, reportFailure_ask, h.reportFailure,
          htrouble, trouble?, Option.or_none]
  | error t =>
      rw [hanswer] at hanswers htrouble
      refine ⟨rfl, ?_, ?_, ?_, ?_⟩
      · rw [calls_remember, calls_fail, calls_notice, calls_ask]
        exact hcalls
      · rw [answers_remember, answers_fail, answers_notice, answers_ask]
        exact hanswers
      · -- The failure is reported if no earlier one was.
        rw [traces_remember, traces_fail, traces_notice, traces_ask, reportFailure_notice,
          reportFailure_ask, h.traces, h.reportFailure, htrouble, trouble?]
        cases reports <;> cases p.firstTrouble? keys <;> rfl
      · rw [reportFailure_remember, reportFailure_fail, htrouble, trouble?]
        cases p.firstTrouble? keys <;> simp

/-- One more lookup: it finds what was given for its key first. -/
theorem find (h : After p reports keys l) (key : Key) :
    (Lookups.find (some p) key l).1 = settled (p.given (keys ++ [key]) key) ∧
      After p reports (keys ++ [key]) (Lookups.find (some p) key l).2 := by
  by_cases hkey : key ∈ keys
  · exact h.find_of_mem hkey
  · exact h.find_of_notMem hkey

/-- A series of lookups after another one. -/
theorem findAll (h : After p reports keys l) (later : List Key) :
    ((Lookups.findAll (some p) later).run l).1 =
        later.map (fun key => settled (p.given (keys ++ later) key)) ∧
      After p reports (keys ++ later) ((Lookups.findAll (some p) later).run l).2 := by
  induction later generalizing keys l with
  | nil => exact ⟨rfl, by rw [List.append_nil]; exact h⟩
  | cons key later ih =>
      obtain ⟨hfound, hafter⟩ := h.find key
      obtain ⟨hrest, hend⟩ := ih hafter
      rw [List.append_assoc, List.singleton_append] at hrest hend
      refine ⟨?_, ?_⟩
      · rw [run_findAll_cons, List.map_cons, hfound, hrest,
          Provider.given_append_cons keys key later]
      · rw [run_findAll_cons]
        exact hend

end After

theorem run_findAll_none (keys : List Key) (l : Lookups) :
    (findAll none keys).run l = (keys.map fun _ => .nothing, l) := by
  induction keys with
  | nil => rfl
  | cons key keys ih => rw [run_findAll_cons, find, ih, List.map_cons]

/-- **Each key is asked for once, and its first answer is kept.**  Take any series of lookups.
Without a provider nothing is found, remembered or reported.  With one, every lookup finds what the
provider gave when the key was first looked up, or nothing if that failed; the provider was asked
for every key that was looked up, once each and in the order of the first lookups; and if the
variable says so and something failed, the first failure is reported and nothing else.  The last
part says when: the next lookup adds a line if its key is the first one to fail. -/
theorem findAll_asks_once (env : Environment) (keys : List Key) :
    let start : Lookups := { reportFailure := env.reportsLookups }
    (findAll none keys).run start = (keys.map fun _ => .nothing, start) ∧
      ∀ p : Provider,
        let r := (findAll (some p) keys).run start
        let wanted := env.get? "YARDGEN_RBS_DEBUG" = some (Text.ofString "1")
        r.1 = keys.map (fun key => settled (p.given keys key)) ∧
          r.2.calls = firstLookups keys ∧ r.2.calls.Nodup ∧ (∀ key, key ∈ r.2.calls ↔ key ∈ keys) ∧
          r.2.traces = (if wanted then ((p.firstTrouble? keys).map failureLine).toList else []) ∧
          ∀ key, (find (some p) key r.2).2.traces = r.2.traces ++
            if wanted ∧ p.firstTrouble? keys = none then
              ((trouble? (p.given (keys ++ [key]) key)).map failureLine).toList
            else [] := by
  intro start
  refine ⟨run_findAll_none keys start, fun p => ?_⟩
  intro r wanted
  have hwanted : env.reportsLookups = decide wanted := rfl
  obtain ⟨hfound, hafter⟩ := (After.start p env.reportsLookups).findAll keys
  rw [List.nil_append] at hfound hafter
  refine ⟨hfound, hafter.calls, ?_, fun key => ?_, ?_, fun key => ?_⟩
  · rw [hafter.calls]
    exact nodup_firstLookups keys
  · rw [hafter.calls, mem_firstLookups]
  · rw [hafter.traces, hwanted]
    simp only [decide_eq_true_eq]
  · rw [(hafter.find key).2.traces, hafter.traces, hwanted, Provider.firstTrouble?_concat]
    by_cases hreport : wanted
    · cases hnone : p.firstTrouble? keys <;> simp [hreport]
    · simp [hreport]

/-- A provider that fails when it is asked the first time. -/
def flaky : Provider where
  answer earlier _ :=
    if earlier.isEmpty then .error ⟨"IOError", "busy"⟩ else .ok (.found { returnType := "Text" })

/-- It is not asked again for the key with which it failed, and its failure is reported once. -/
theorem findAll_asks_once_flaky :
    let go : Key := ⟨"A", .onInstance, "go"⟩
    let no : Key := ⟨"A", .onInstance, "no"⟩
    let r := (findAll (some flaky) [go, go, no, go]).run { reportFailure := true }
    r.1 = [.nothing, .nothing, .found { returnType := "Text" }, .nothing] ∧ r.2.calls = [no, go] ∧
      r.2.traces = ["yardgen: signature lookup failed: IOError: busy"] := by
  intro go no r
  obtain ⟨hfound, hcalls, -, -, htraces, -⟩ :=
    (findAll_asks_once [("YARDGEN_RBS_DEBUG", "1")] [go, go, no, go]).2 flaky
  refine ⟨hfound.trans (by decide), hcalls.trans (by decide), htraces.trans (by decide)⟩

end Lookups

end RubyDoc.Signature
