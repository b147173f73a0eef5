import Mathlib.Order.Bounds.Basic
import CodeQuality.Analysis.Basic

/-!
# Precedence of categories

`Analysis.classified_by_precedence`: an untagged analysis has the highest of the categories that the names
of its metrics mark, where type checks stand above coverage, coverage above complexity and complexity above
linters. So a metric that is set raises the category to the one that its name marks, or leaves it alone, and
no number, no order and no other name has a say in it. A tag is the category, whatever the metrics are.

The category is searched for in two nested lists, that of the categories and that of the names which mark
each. The first list descends (`Category.all_descending`), so that the search finds the greatest category
that is marked (`Metrics.category?_eq_some_iff`), and all else is about the set of marked categories. To set
a metric adds to that set at most one category (`Metrics.marks_set`), since no name marks two.
-/

namespace CodeQuality

theorem find?_eq_some_iff_isGreatest {ι : Type} [PartialOrder ι] {xs : List ι}
    (h : xs.Pairwise (· > ·)) {p : ι → Bool} {x : ι} :
    xs.find? p = some x ↔ IsGreatest {y | y ∈ xs ∧ p y = true} x := by
  induction xs with
  | nil => simp [IsGreatest]
  | cons y xs ih =>
    obtain ⟨hbelow, hrest⟩ := List.pairwise_cons.1 h
    by_cases hp : p y = true
    · have hgreatest : IsGreatest {z | z ∈ y :: xs ∧ p z = true} y := by
        refine ⟨⟨List.mem_cons_self, hp⟩, fun z hz => ?_⟩
        rcases List.mem_cons.1 hz.1 with rfl | hz
        · exact le_refl _
        · exact (hbelow z hz).le
      rw [List.find?_cons_of_pos hp, Option.some_inj]
      exact ⟨fun heq => heq ▸ hgreatest, hgreatest.unique⟩
    · have hset : {z | z ∈ y :: xs ∧ p z = true} = {z | z ∈ xs ∧ p z = true} := by
        ext z
        constructor
        · rintro ⟨hz, hpz⟩
          exact ⟨(List.mem_cons.1 hz).resolve_left fun heq => hp (heq ▸ hpz), hpz⟩
        · exact fun ⟨hz, hpz⟩ => ⟨List.mem_cons_of_mem _ hz, hpz⟩
      rw [List.find?_cons_of_neg hp, ih hrest, hset]

/-! ## Categories in order -/

namespace Category

/-- How high a category stands. -/
def rank : Category → ℕ
  | typeCheck => 3
  | coverage => 2
  | complexity => 1
  | lint => 0

theorem rank_injective : Function.Injective rank := by
  intro c d
  cases c <;> cases d <;> decide

/-- A category is above another if it takes precedence over it. -/
instance : LinearOrder Category := LinearOrder.lift' rank rank_injective

theorem all_descending : all.Pairwise (· > ·) := by decide

theorem ascending :
    [none, some lint, some complexity, some coverage, some typeCheck].Pairwise (· < ·) := by
  have hall : [lint, complexity, coverage, typeCheck].Pairwise (· < ·) :=
    List.pairwise_reverse.2 all_descending
  refine List.pairwise_cons.2 ⟨?_, hall.map some fun _ _ => Option.some_lt_some.2⟩
  simp

/-- The category that a metric of some name marks. -/
def marked? (key : String) : Option Category := all.find? fun c => c.markers.contains key

theorem marked?_eq_some_iff {key : String} {c : Category} : marked? key = some c ↔ key ∈ c.markers := by
  have hmem {d : Category} (h : marked? key = some d) : key ∈ d.markers := by
    rw [marked?] at h
    simpa using List.find?_some h
  refine ⟨hmem, fun hc => ?_⟩
  have hsome : (marked? key).isSome := List.find?_isSome.2 ⟨c, mem_all c, List.contains_iff_mem.2 hc⟩
  obtain ⟨d, hd⟩ := Option.isSome_iff_exists.1 hsome
  rw [hd, markers_disjoint (hmem hd) hc]

theorem marked?_eq_none_iff {key : String} : marked? key = none ↔ ∀ c : Category, key ∉ c.markers := by
  simp only [Option.eq_none_iff_forall_ne_some, ne_eq, marked?_eq_some_iff]

end Category

/-! ## Categories of metrics -/

namespace Metrics

variable {α β : Type} {metrics : Metrics α} {others : Metrics β} {c : Category}

/-- One of the metrics marks a category. -/
def Marks (metrics : Metrics α) (c : Category) : Prop := ∃ key ∈ c.markers, metrics.has key = true

/-- A search by precedence finds the highest category that is marked. -/
theorem category?_eq_some_iff :
    metrics.category? = some c ↔ IsGreatest {d | metrics.Marks d} c := by
  rw [category?, find?_eq_some_iff_isGreatest Category.all_descending]
  simp only [Category.mem_all, true_and, List.any_eq_true, Marks]

theorem category?_eq_none_iff : metrics.category? = none ↔ ∀ d, ¬ metrics.Marks d := by
  simp only [category?, List.find?_eq_none, List.any_eq_true, Category.mem_all, forall_const, Marks]

theorem category?_mono (h : ∀ d, metrics.Marks d → others.Marks d) :
    metrics.category? ≤ others.category? := by
  cases hmetrics : metrics.category? with
  | none => exact Option.none_le
  | some c =>
    have hc : IsGreatest {d | metrics.Marks d} c := category?_eq_some_iff.1 hmetrics
    cases hothers : others.category? with
    | none => exact absurd (h c hc.1) (category?_eq_none_iff.1 hothers c)
    | some d => exact Option.some_le_some.2 (hc.mono (category?_eq_some_iff.1 hothers) h)

theorem category?_congr (h : ∀ d, metrics.Marks d ↔ others.Marks d) :
    metrics.category? = others.category? := by
  have hset : {d | metrics.Marks d} = {d | others.Marks d} := Set.ext h
  refine Option.ext fun c => ?_
  rw [category?_eq_some_iff, category?_eq_some_iff, hset]

theorem Marks.of_has (h : ∀ key, (Category.marked? key).isSome → metrics.has key = true →
    others.has key = true) (hc : metrics.Marks c) : others.Marks c := by
  obtain ⟨key, hkey, hhas⟩ := hc
  have hsome : (Category.marked? key).isSome := by rw [Category.marked?_eq_some_iff.2 hkey]; rfl
  exact ⟨key, hkey, h key hsome hhas⟩

theorem category?_congr_of_has (h : ∀ key, (Category.marked? key).isSome →
    (metrics.has key = true ↔ others.has key = true)) : metrics.category? = others.category? :=
  category?_congr fun _ =>
    ⟨Marks.of_has fun key hkey => (h key hkey).1, Marks.of_has fun key hkey => (h key hkey).2⟩

/-! ## Setting metrics -/

theorem marks_set (metrics : Metrics α) (key : String) (value : α) (c : Category) :
    (metrics.set key value).Marks c ↔ key ∈ c.markers ∨ metrics.Marks c := by
  simp only [Marks, has_set, Bool.or_eq_true, decide_eq_true_eq, and_or_left, exists_or,
    exists_eq_right]

theorem category?_set (metrics : Metrics α) (key : String) (value : α) :
    (metrics.set key value).category? = max metrics.category? (Category.marked? key) := by
  cases hmarked : Category.marked? key with
  | none =>
    rw [Option.max_none_right]
    refine category?_congr fun d => ?_
    rw [marks_set]
    exact or_iff_right (Category.marked?_eq_none_iff.1 hmarked d)
  | some c =>
    -- no name marks two categories, so that one at most is added
    have hset : {d | (metrics.set key value).Marks d} = insert c {d | metrics.Marks d} := by
      ext d
      have hone : key ∈ d.markers ↔ d = c := by
        rw [← Category.marked?_eq_some_iff, hmarked, Option.some_inj, eq_comm]
      exact (marks_set metrics key value d).trans (or_congr_left hone)
    cases hbefore : metrics.category? with
    | none =>
      have hempty : {d | metrics.Marks d} = ∅ :=
        Set.eq_empty_iff_forall_notMem.2 (category?_eq_none_iff.1 hbefore)
      rw [Option.max_none_left, category?_eq_some_iff, hset, hempty, insert_empty_eq]
      exact isGreatest_singleton
    | some b =>
      rw [Option.max_some_some, category?_eq_some_iff, hset, max_comm]
      exact (category?_eq_some_iff.1 hbefore).insert c

theorem category?_foldl_set (entries : List (String × α)) (metrics : Metrics α) :
    (entries.foldl (fun metrics entry => metrics.set entry.1 entry.2) metrics).category? =
      (entries.map fun entry => Category.marked? entry.1).foldl max metrics.category? := by
  induction entries generalizing metrics with
  | nil => rfl
  | cons entry entries ih => rw [List.foldl_cons, ih, category?_set, List.map_cons, List.foldl_cons]

theorem category?_ofList_congr {entries : List (String × α)} {others : List (String × β)}
    (h : ∀ key, (Category.marked? key).isSome →
      (key ∈ entries.map Prod.fst ↔ key ∈ others.map Prod.fst)) :
    (ofList entries).category? = (ofList others).category? := by
  refine category?_congr_of_has fun key hkey => ?_
  rw [has_ofList, has_ofList]
  exact h key hkey

end Metrics

/-! ## Categories of analyses -/

namespace Analysis

theorem classify_of_tagged {α : Type} {a : Analysis α} {c : Category} (h : a.category = some c) :
    a.classify = some c := by
  rw [classify, h, Option.some_or]

theorem classify_of_untagged {α : Type} {a : Analysis α} (h : a.category = none) :
    a.classify = a.metrics.category? := by
  rw [classify, h, Option.none_or]

/-- **Categories are told by precedence.** Type checks stand above coverage, then come complexity and
linters, and nothing is below these. A name marks one category at most. A metric that is set raises the
category to the one that its name marks, if that is the higher one, so that settings lead to the join of all
that they mark. More metrics never lower a category, and metrics with the same names among those that mark
one have the same category, whatever their numbers, in whatever order and however often they were set. An
untagged analysis has the category of its metrics, and a tagged one that of its tag, whatever its metrics
are. -/
theorem classified_by_precedence {α β : Type} :
    [none, some Category.lint, some .complexity, some .coverage, some .typeCheck].Pairwise (· < ·) ∧
      (∀ key c, Category.marked? key = some c ↔ key ∈ c.markers) ∧
      (∀ (metrics : Metrics α) (key : String) (value : α),
        (metrics.set key value).category? = max metrics.category? (Category.marked? key)) ∧
      (∀ entries : List (String × α), (Metrics.ofList entries).category? =
        (entries.map fun entry => Category.marked? entry.1).foldl max none) ∧
      (∀ (metrics : Metrics α) (others : Metrics β),
        (∀ key, (Category.marked? key).isSome → metrics.has key = true → others.has key = true) →
          metrics.category? ≤ others.category?) ∧
      (∀ (metrics : Metrics α) (others : Metrics β),
        (∀ key, (Category.marked? key).isSome → (metrics.has key = true ↔ others.has key = true)) →
          metrics.category? = others.category?) ∧
      (∀ (entries : List (String × α)) (others : List (String × β)),
        (∀ key, (Category.marked? key).isSome →
          (key ∈ entries.map Prod.fst ↔ key ∈ others.map Prod.fst)) →
            (Metrics.ofList entries).category? = (Metrics.ofList others).category?) ∧
      (∀ (a : Analysis α) (key : String) (value : α), a.category = none →
        (a.withMetric key value).classify = max a.classify (Category.marked? key)) ∧
      ∀ (a : Analysis α) (c : Category), a.category = some c →
        ∀ metrics, { a with metrics := metrics }.classify = some c := by
  refine ⟨Category.ascending, fun _ _ => Category.marked?_eq_some_iff, Metrics.category?_set,
    ?_, ?_, ?_, ?_, ?_, ?_⟩
  · intro entries
    exact Metrics.category?_foldl_set entries .empty
  · intro metrics others h
    exact Metrics.category?_mono fun d => Metrics.Marks.of_has h
  · intro metrics others h
    exact Metrics.category?_congr_of_has h
  · intro entries others h
    exact Metrics.category?_ofList_congr h
  · intro a key value h
    rw [classify_of_untagged h, classify_of_untagged (a := a.withMetric key value) h]
    exact Metrics.category?_set ..
  · intro a c h metrics
    exact classify_of_tagged (a := { a with metrics := metrics }) h

/-- Metrics that mark linters, complexity and coverage, the lowest first. -/
def mixed : List (String × Float) :=
  [(Metric.fixableRate, 0.5), (Metric.averageComplexity, 4.0), (Metric.testCoverage, 80.0)]

/-- The same names in another order and with other numbers, coverage twice, and a name that marks
nothing. -/
def reordered : List (String × ℕ) :=
  [(Metric.testCoverage, 0), ("bundleSizeKb", 312), (Metric.averageComplexity, 9),
    (Metric.fixableRate, 1), (Metric.testCoverage, 7)]

/-- Coverage prevails until a type check is marked, with any numbers and in any order, and a linter that
says what it is stays one. -/
theorem classified_by_precedence_mixed :
    (Metrics.ofList mixed).category? = some .coverage ∧
      ((Metrics.ofList mixed).set Metric.typeErrors 2.0).category? = some .typeCheck ∧
      ((Metrics.ofList mixed).set "bundleSizeKb" 312.0).category? = some .coverage ∧
      (Metrics.ofList mixed).category? = (Metrics.ofList reordered).category? ∧
      (Metrics.ofList mixed).category? ≤
        (Metrics.ofList (reordered ++ [(Metric.typeErrors, 3)])).category? ∧
      ((empty none).withMetric Metric.lintErrors (1.0 : Float)).classify = some .lint ∧
      { (empty (some .lint) : Analysis Float) with metrics := Metrics.ofList mixed }.classify =
        some .lint := by
  obtain ⟨-, -, hset, hrun, hmore, hsame, hsettings, huntagged, htagged⟩ :=
    @classified_by_precedence Float ℕ
  have hmixed : (Metrics.ofList mixed).category? = some .coverage := by
    rw [hrun]
    decide
  have hnames : ∀ key, (Category.marked? key).isSome →
      (key ∈ mixed.map Prod.fst ↔ key ∈ reordered.map Prod.fst) := by
    intro key hkey
    have hsize : key ≠ "bundleSizeKb" := by
      rintro rfl
      exact absurd hkey (by decide)
    simp [mixed, reordered, hsize, or_comm, or_left_comm]
  refine ⟨hmixed, ?_, ?_, hsettings mixed reordered hnames, ?_, ?_, ?_⟩
  · rw [hset, hmixed]
    decide
  · rw [hset, hmixed]
    decide
  · refine hmore _ _ fun key hkey hhas => ?_
    rw [Metrics.has_ofList] at hhas ⊢
    rw [List.map_append]
    exact List.mem_append_left _ ((hnames key hkey).1 hhas)
  · rw [huntagged (empty none) Metric.lintErrors 1.0 rfl]
    decide
  · exact htagged (empty (some .lint)) .lint rfl _

end Analysis

end CodeQuality
