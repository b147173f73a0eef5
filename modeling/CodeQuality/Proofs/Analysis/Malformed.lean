import Mathlib.Data.List.TakeWhile
import CodeQuality.Analysis.Defect
import CodeQuality.Score.Breakdown

/-!
# Malformed analyses

`Analysis.checkAll_eq_error_iff`: analyses are refused exactly if one of them is malformed, and what
the refusal reports is the first defect of the first malformed one.

What is wrong with an analysis is said here without the search that the check makes.
`Analysis.Malformed` says what must not occur anywhere in an analysis, and `Analysis.defects` lists
every occurrence: that of the score, those of the metrics in the order of their names, those of the
issues in their order, a name before its number and a message before its file. The search finds the
head of that list (`Analysis.defect?_eq_head?`), and the list is empty exactly for an analysis that is
not malformed (`Analysis.malformed_iff`).
-/

namespace CodeQuality

/-! ## Blank texts -/

namespace Text

theorem skipBlanks_eq_nil_iff (cs : List Char) : skipBlanks cs = [] ↔ ∀ c ∈ cs, isBlank c = true :=
  List.dropWhile_eq_nil_iff

theorem blank_iff (s : String) : blank s = true ↔ trim s = "" := by
  have hempty : trim s = "" ↔ skipBlanks (skipBlanks s.toList).reverse = [] := by
    rw [trim, ← String.toList_inj, String.toList_ofList, String.toList_empty, List.reverse_eq_nil_iff]
  rw [hempty, skipBlanks_eq_nil_iff, blank, List.all_eq_true]
  constructor
  · intro h c hc
    exact h c ((List.dropWhile_sublist _).subset (List.mem_reverse.1 hc))
  · intro h
    -- what is left at the front starts with no blank, and yet holds nothing else
    have hnil : skipBlanks s.toList = [] := by
      cases hleft : skipBlanks s.toList with
      | nil => rfl
      | cons c cs =>
        have hc : isBlank c = true := h c (by simp [hleft])
        have hhead := List.head?_dropWhile_not isBlank s.toList
        rw [show s.toList.dropWhile isBlank = c :: cs from hleft] at hhead
        simp [hc] at hhead
    exact (skipBlanks_eq_nil_iff _).1 hnil

end Text

/-! ## What is wrong with an analysis -/

namespace Analysis

variable {α : Type} [Scalar α]

/-- Something occurs in an analysis that makes a score meaningless. -/
inductive Malformed (a : Analysis α) : Prop where
  | score {value : α} (h : a.score = some value) (hvalue : Scalar.isFinite value = false)
  | metricName {entry : String × α} (h : entry ∈ a.metrics.entries) (hname : Text.trim entry.1 = "")
  | metric {entry : String × α} (h : entry ∈ a.metrics.entries)
      (hvalue : Scalar.isFinite entry.2 = false)
  | issueMessage {issue : Issue} (h : issue ∈ a.issues) (hmessage : Text.trim issue.message = "")
  | issueFile {issue : Issue} (h : issue ∈ a.issues) (hfile : issue.file = "")

def scoreDefects (a : Analysis α) : List Defect :=
  (a.score.bind Scalar.nonFinite?).toList.map .score

/-- What is wrong with a metric, its name first. -/
def metricDefects (entry : String × α) : List Defect :=
  (if Text.trim entry.1 = "" then [.metricName] else []) ++
    (Scalar.nonFinite? entry.2).toList.map (.metric entry.1)

/-- What is wrong with the issue at a position, its message first. -/
def issueDefects (p : Issue × Nat) : List Defect :=
  (if Text.trim p.1.message = "" then [.issueMessage p.2] else []) ++
    if p.1.file = "" then [.issueFile p.2] else []

/-- All that is wrong with an analysis: its score, its metrics by name, its issues by position. -/
def defects (a : Analysis α) : List Defect :=
  a.scoreDefects ++ (a.metrics.entries.flatMap metricDefects ++ a.issues.zipIdx.flatMap issueDefects)

/-! ## The search finds the first defect -/

theorem metricDefect?_eq_head? (entry : String × α) :
    metricDefect? entry = (metricDefects entry).head? := by
  simp only [metricDefect?, metricDefects, Text.blank_iff]
  split
  · rfl
  · cases Scalar.nonFinite? entry.2 <;> rfl

theorem issueDefect?_eq_head? (p : Issue × Nat) : issueDefect? p = (issueDefects p).head? := by
  simp only [issueDefect?, issueDefects, Text.blank_iff, String.isEmpty_iff]
  split
  · rfl
  · split <;> rfl

theorem defect?_eq_head? (a : Analysis α) : a.defect? = a.defects.head? := by
  have hscore : (a.score.bind Scalar.nonFinite?).map Defect.score = a.scoreDefects.head? := by
    rw [scoreDefects]
    cases a.score.bind Scalar.nonFinite? <;> rfl
  have hmetric : metricDefect? = fun entry : String × α => (metricDefects entry).head? :=
    funext metricDefect?_eq_head?
  have hissue : issueDefect? = fun p => (issueDefects p).head? := funext issueDefect?_eq_head?
  rw [defect?, defects, List.head?_append, List.head?_append, List.head?_flatMap, List.head?_flatMap,
    hscore, hmetric, hissue]

/-! ## Malformed means that there is a defect -/

theorem isFinite_eq_false_iff (x : α) :
    Scalar.isFinite x = false ↔ ∃ value, Scalar.nonFinite? x = some value := by
  rw [Scalar.isFinite, Option.isNone_eq_false_iff, Option.isSome_iff_exists]

theorem mem_scoreDefects {a : Analysis α} {d : Defect} :
    d ∈ a.scoreDefects ↔
      ∃ x, a.score = some x ∧ ∃ value, Scalar.nonFinite? x = some value ∧ .score value = d := by
  rw [scoreDefects]
  cases a.score <;> simp

theorem mem_metricDefects {entry : String × α} {d : Defect} :
    d ∈ metricDefects entry ↔
      Text.trim entry.1 = "" ∧ d = .metricName ∨
        ∃ value, Scalar.nonFinite? entry.2 = some value ∧ .metric entry.1 value = d := by
  simp [metricDefects]

theorem mem_issueDefects {p : Issue × Nat} {d : Defect} :
    d ∈ issueDefects p ↔
      Text.trim p.1.message = "" ∧ d = .issueMessage p.2 ∨ p.1.file = "" ∧ d = .issueFile p.2 := by
  simp [issueDefects]

theorem mem_defects {a : Analysis α} {d : Defect} :
    d ∈ a.defects ↔
      d ∈ a.scoreDefects ∨ (∃ entry ∈ a.metrics.entries, d ∈ metricDefects entry) ∨
        ∃ p ∈ a.issues.zipIdx, d ∈ issueDefects p := by
  simp only [defects, List.mem_append, List.mem_flatMap]

theorem malformed_iff (a : Analysis α) : a.Malformed ↔ ∃ d, d ∈ a.defects := by
  constructor
  · intro h
    cases h with
    | score h hvalue =>
      obtain ⟨value, hvalue⟩ := (isFinite_eq_false_iff _).1 hvalue
      exact ⟨_, mem_defects.2 (.inl (mem_scoreDefects.2 ⟨_, h, value, hvalue, rfl⟩))⟩
    | metricName h hname =>
      exact ⟨_, mem_defects.2 (.inr (.inl ⟨_, h, mem_metricDefects.2 (.inl ⟨hname, rfl⟩)⟩))⟩
    | metric h hvalue =>
      obtain ⟨value, hvalue⟩ := (isFinite_eq_false_iff _).1 hvalue
      exact ⟨_, mem_defects.2 (.inr (.inl ⟨_, h, mem_metricDefects.2 (.inr ⟨value, hvalue, rfl⟩)⟩))⟩
    | issueMessage h hmessage =>
      obtain ⟨i, hi⟩ := List.getElem?_of_mem h
      exact ⟨_, mem_defects.2 (.inr (.inr ⟨(_, i), List.mem_zipIdx_iff_getElem?.2 hi,
        mem_issueDefects.2 (.inl ⟨hmessage, rfl⟩)⟩))⟩
    | issueFile h hfile =>
      obtain ⟨i, hi⟩ := List.getElem?_of_mem h
      exact ⟨_, mem_defects.2 (.inr (.inr ⟨(_, i), List.mem_zipIdx_iff_getElem?.2 hi,
        mem_issueDefects.2 (.inr ⟨hfile, rfl⟩)⟩))⟩
  · rintro ⟨d, hd⟩
    rcases mem_defects.1 hd with hscore | ⟨entry, hentry, hmetric⟩ | ⟨p, hp, hissue⟩
    · obtain ⟨x, hx, value, hvalue, -⟩ := mem_scoreDefects.1 hscore
      exact .score hx ((isFinite_eq_false_iff x).2 ⟨value, hvalue⟩)
    · rcases mem_metricDefects.1 hmetric with ⟨hname, -⟩ | ⟨value, hvalue, -⟩
      · exact .metricName hentry hname
      · exact .metric hentry ((isFinite_eq_false_iff _).2 ⟨value, hvalue⟩)
    · have hmem : p.1 ∈ a.issues := List.mem_of_getElem? (List.mem_zipIdx_iff_getElem?.1 hp)
      rcases mem_issueDefects.1 hissue with ⟨hmessage, -⟩ | ⟨hfile, -⟩
      · exact .issueMessage hmem hmessage
      · exact .issueFile hmem hfile

theorem not_malformed_iff (a : Analysis α) : ¬ a.Malformed ↔ a.defect? = none := by
  rw [malformed_iff, defect?_eq_head?, List.head?_eq_none_iff, List.eq_nil_iff_forall_not_mem,
    not_exists]

theorem forall_not_malformed {as : List (Analysis α)} (h : as.all (·.defect?.isNone) = true) :
    ∀ a ∈ as, ¬ a.Malformed := by
  intro a ha
  rw [not_malformed_iff, ← Option.isNone_iff_eq_none]
  exact List.all_eq_true.1 h a ha

/-! ## Checking analyses one after the other -/

theorem checkFrom_append {before : List (Analysis α)} (h : ∀ b ∈ before, ¬ b.Malformed) (index : Nat)
    (rest : List (Analysis α)) :
    checkFrom index (before ++ rest) = checkFrom (index + before.length) rest := by
  induction before generalizing index with
  | nil => rfl
  | cons b before ih =>
    have hb : b.defect? = none := (not_malformed_iff b).1 (h b List.mem_cons_self)
    rw [List.cons_append, checkFrom, hb, List.length_cons, Nat.add_comm before.length, ← Nat.add_assoc]
    exact ih (fun c hc => h c (List.mem_cons_of_mem _ hc)) (index + 1)

theorem checkFrom_cons {a : Analysis α} {d : Defect} (h : a.defects.head? = some d) (index : Nat)
    (after : List (Analysis α)) : checkFrom index (a :: after) = .error (d.error index) := by
  rw [checkFrom, defect?_eq_head?, h]

/-- Either no analysis is malformed, or there is a first one that is. -/
theorem first_malformed (as : List (Analysis α)) :
    (∀ a ∈ as, ¬ a.Malformed) ∨
      ∃ before a after d, as = before ++ a :: after ∧ (∀ b ∈ before, ¬ b.Malformed) ∧
        a.defects.head? = some d := by
  cases hfind : as.find? (·.defect?.isSome) with
  | none =>
    refine .inl fun a ha => (not_malformed_iff a).2 ?_
    simpa using List.find?_eq_none.1 hfind a ha
  | some a =>
    obtain ⟨ha, before, after, hsplit, hbefore⟩ := List.find?_eq_some_iff_append.1 hfind
    obtain ⟨d, hd⟩ := Option.isSome_iff_exists.1 ha
    refine .inr ⟨before, a, after, d, hsplit, fun b hb => (not_malformed_iff b).2 ?_, ?_⟩
    · simpa using hbefore b hb
    · rw [← defect?_eq_head?, hd]

/-- What is refused, and why: the first defect of the first malformed analysis, at its position. -/
theorem checkAll_eq_error_iff {as : List (Analysis α)} {e : Error} :
    checkAll as = .error e ↔
      ∃ before a after d, as = before ++ a :: after ∧ (∀ b ∈ before, ¬ b.Malformed) ∧
        a.defects.head? = some d ∧ e = d.error before.length := by
  have hrefused : ∀ {before a after d}, (∀ b ∈ before, ¬ b.Malformed) → a.defects.head? = some d →
      checkAll (before ++ a :: after : List (Analysis α)) = .error (d.error before.length) := by
    intro before a after d hbefore hd
    rw [checkAll, checkFrom_append hbefore, checkFrom_cons hd, Nat.zero_add]
  constructor
  · intro h
    rcases first_malformed as with hsound | ⟨before, a, after, d, rfl, hbefore, hd⟩
    · have hok := checkFrom_append hsound 0 []
      rw [List.append_nil] at hok
      rw [checkAll, hok] at h
      nomatch h
    · rw [hrefused hbefore hd] at h
      exact ⟨before, a, after, d, rfl, hbefore, hd, (Except.error.inj h).symm⟩
  · rintro ⟨before, a, after, d, rfl, hbefore, hd, rfl⟩
    exact hrefused hbefore hd

theorem exists_checkAll_eq_error_iff {as : List (Analysis α)} :
    (∃ e, checkAll as = .error e) ↔ ∃ a ∈ as, a.Malformed := by
  constructor
  · rintro ⟨e, h⟩
    obtain ⟨before, a, after, d, rfl, -, hd, -⟩ := checkAll_eq_error_iff.1 h
    exact ⟨a, by simp, (malformed_iff a).2 ⟨d, List.mem_of_head? hd⟩⟩
  · rintro ⟨a, ha, hmalformed⟩
    rcases first_malformed as with hsound | ⟨before, b, after, d, hsplit, hbefore, hd⟩
    · exact absurd hmalformed (hsound a ha)
    · exact ⟨_, checkAll_eq_error_iff.2 ⟨before, b, after, d, hsplit, hbefore, hd, rfl⟩⟩

theorem checkAll_eq_ok_iff {as : List (Analysis α)} :
    checkAll as = .ok () ↔ ∀ a ∈ as, ¬ a.Malformed := by
  cases hcheck : checkAll as with
  | error e =>
    obtain ⟨a, ha, hmalformed⟩ := exists_checkAll_eq_error_iff.1 ⟨e, hcheck⟩
    exact iff_of_false nofun fun h => h a ha hmalformed
  | ok _ =>
    refine iff_of_true rfl fun a ha hmalformed => ?_
    obtain ⟨e, he⟩ := exists_checkAll_eq_error_iff.2 ⟨a, ha, hmalformed⟩
    rw [hcheck] at he
    nomatch he

end Analysis

/-! ## Scoring -/

theorem Breakdown.calculate_eq_ok_iff {α : Type} [Scalar α] {w : Weights α} {as : List (Analysis α)}
    {r : Breakdown α} :
    calculate w as = .ok r ↔ (∀ a ∈ as, ¬ a.Malformed) ∧ r = ofAnalyses w as := by
  rw [← Analysis.checkAll_eq_ok_iff, calculate]
  cases Analysis.checkAll as with
  | error e => simp [bind, Except.bind]
  | ok _ => simp [bind, Except.bind, pure, Except.pure, eq_comm]

end CodeQuality
