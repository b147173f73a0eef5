import Mathlib.Data.List.Sort
import CodeQuality.Number.Binary64
import CodeQuality.Proofs.Suggestion.Collection

/-!
# The canonical list of suggestions

`suggestions_canonical`: the suggestions for analyses ascend strictly by priority, id and title. They are
those of the rules that some analysis of their category meets, and one for each text that analyses report
themselves, in the category of the first analysis that does. So a list of suggestions is known from its
members, and another order of the analyses or of their texts may change a category of a text and nothing
else.

The members are what the loop has collected (`Collected.collect`), no two of them with the same key. The
order is that of a lexicographic product, `Suggestion.key`.
-/

namespace CodeQuality

namespace Suggestion

theorem before_iff {s t : Suggestion} : s.before t = true ↔ s.key ≤ t.key := by
  have htitle : (s.title < t.title ∨ s.title = t.title) ↔ s.title ≤ t.title := le_iff_lt_or_eq.symm
  simp only [before, key, Prod.Lex.toLex_le_toLex, Bool.or_eq_true, Bool.and_eq_true, decide_eq_true_iff,
    beq_iff_eq, htitle]

theorem pairwise_sort {l : List Suggestion} (h : (l.map key).Nodup) :
    (l.mergeSort before).Pairwise fun s t => s.key < t.key := by
  have hle : (l.mergeSort before).Pairwise fun s t => s.key ≤ t.key := by
    refine (List.pairwise_mergeSort (fun s t u hst htu => ?_) (fun s t => ?_) l).imp before_iff.1
    · exact before_iff.2 ((before_iff.1 hst).trans (before_iff.1 htu))
    · rw [Bool.or_eq_true, before_iff, before_iff]
      exact le_total s.key t.key
  have hne : (l.mergeSort before).Pairwise fun s t => s.key ≠ t.key :=
    List.pairwise_map.1 (((List.mergeSort_perm l before).map key).nodup_iff.2 h)
  exact (hle.and hne).imp fun hst => lt_of_le_of_ne hst.1 hst.2

theorem eq_of_mem_iff {l l' : List Suggestion} (hl : l.Pairwise fun s t => s.key < t.key)
    (hl' : l'.Pairwise fun s t => s.key < t.key) (h : ∀ s, s ∈ l ↔ s ∈ l') : l = l' := by
  have hirrefl : Std.Irrefl fun s t : Suggestion => s.key < t.key := ⟨fun s => lt_irrefl s.key⟩
  have hasymm : Std.Asymm fun s t : Suggestion => s.key < t.key := ⟨fun s t => lt_asymm⟩
  exact hl.eq_of_mem_iff hl' h

end Suggestion

open Suggestion

variable {α : Type} {as bs : List (Analysis α)} {s : Suggestion} {text : String}

theorem Analysis.reports_iff {a : Analysis α} :
    a.reports text = true ↔ text ≠ "" ∧ ∃ raw ∈ a.suggestions, Text.trim raw = text := by
  simp only [reports, occursAmong, Bool.and_eq_true, bne_iff_ne, List.any_eq_true, beq_iff_eq]

theorem exists_reports_iff : (∃ a ∈ as, a.reports text = true) ↔
    text ≠ "" ∧ ∃ raw ∈ as.flatMap (·.suggestions), Text.trim raw = text := by
  simp only [Analysis.reports_iff, List.mem_flatMap]
  grind

variable [Scalar α]

/-! ## The list -/

theorem mem_suggestions : s ∈ suggestions as ↔
    (∃ r ∈ rules, (∃ a ∈ as, r.firedBy a = true) ∧ r.suggestion = s) ∨
      ∃ text a, as.find? (·.reports text) = some a ∧ ofText (text, a.classify) = s := by
  rw [suggestions, List.mem_mergeSort, (Collected.collect as).found s]
  refine or_congr_right (exists_congr fun text => ?_)
  simp only [Option.map_eq_some_iff]
  constructor
  · rintro ⟨_, ⟨a, ha, rfl⟩, rfl⟩
    exact ⟨a, ha, rfl⟩
  · rintro ⟨a, ha, rfl⟩
    exact ⟨a.classify, ⟨a, ha, rfl⟩, rfl⟩

theorem pairwise_suggestions (as : List (Analysis α)) :
    (suggestions as).Pairwise fun s t => s.key < t.key :=
  pairwise_sort (Collected.collect as).keys

/-! ## Other orders -/

/-- An analysis without the texts that it reports. -/
def Analysis.silent (a : Analysis α) : Analysis α := { a with suggestions := [] }

/-- The same analyses but for their texts, and the same texts altogether: analyses and texts may stand in
another order, and a text may be in another analysis. -/
structure Reordered (as bs : List (Analysis α)) : Prop where
  analyses : (as.map (·.silent)).Perm (bs.map (·.silent))
  texts : (as.flatMap (·.suggestions)).Perm (bs.flatMap (·.suggestions))

/-- A suggestion without the category of the analysis that reports its text. -/
def Suggestion.unattributed (s : Suggestion) : Suggestion :=
  if s.id = "analyzer" then { s with category := none } else s

theorem Suggestion.key_unattributed (s : Suggestion) : s.unattributed.key = s.key := by
  unfold unattributed
  split <;> rfl

theorem firedBy_silent {r : Rule α} (hr : r ∈ rules) (a : Analysis α) :
    r.firedBy a.silent = r.firedBy a := by
  have hrules : (rules : List (Rule α)).map (fun r => r.applies a.silent) =
      rules.map (fun r => r.applies a) := rfl
  exact congrArg (a.classify == some r.category && ·) (List.map_inj_left.1 hrules r hr)

theorem exists_firedBy_iff {r : Rule α} (hr : r ∈ rules) (as : List (Analysis α)) :
    (∃ a ∈ as, r.firedBy a = true) ↔ ∃ a ∈ as.map (·.silent), r.firedBy a = true := by
  simp only [List.mem_map, exists_exists_and_eq_and, firedBy_silent hr]

theorem mem_map_unattributed : s ∈ (suggestions as).map unattributed ↔
    (∃ r ∈ rules, (∃ a ∈ as, r.firedBy a = true) ∧ r.suggestion = s) ∨
      ∃ text, (∃ a ∈ as, a.reports text = true) ∧ ofText (text, none) = s := by
  have hrule {r : Rule α} (hr : r ∈ rules) : r.suggestion.unattributed = r.suggestion :=
    if_neg (Rule.id_ne_analyzer hr)
  simp only [List.mem_map, mem_suggestions]
  constructor
  · rintro ⟨t, ⟨r, hr, hfired, rfl⟩ | ⟨text, a, ha, rfl⟩, rfl⟩
    · exact .inl ⟨r, hr, hfired, (hrule hr).symm⟩
    · exact .inr ⟨text, List.find?_isSome.1 (Option.isSome_iff_exists.2 ⟨a, ha⟩), rfl⟩
  · rintro (⟨r, hr, hfired, rfl⟩ | ⟨text, hreports, rfl⟩)
    · exact ⟨r.suggestion, .inl ⟨r, hr, hfired, rfl⟩, hrule hr⟩
    · obtain ⟨a, ha⟩ := Option.isSome_iff_exists.1 (List.find?_isSome.2 hreports)
      exact ⟨_, .inr ⟨text, a, ha, rfl⟩, rfl⟩

theorem Reordered.map_unattributed (h : Reordered as bs) :
    (suggestions as).map unattributed = (suggestions bs).map unattributed := by
  have hsorted (cs : List (Analysis α)) :
      ((suggestions cs).map unattributed).Pairwise fun s t => s.key < t.key := by
    rw [List.pairwise_map]
    simp only [key_unattributed]
    exact pairwise_suggestions cs
  -- both lists are in strict order, so that only their members have to be compared
  refine eq_of_mem_iff (hsorted as) (hsorted bs) fun s => ?_
  rw [mem_map_unattributed, mem_map_unattributed]
  refine or_congr ?_ ?_
  · refine exists_congr fun r => and_congr_right fun hr => and_congr_left' ?_
    rw [exists_firedBy_iff hr as, exists_firedBy_iff hr bs]
    exact exists_congr fun a => and_congr_left' h.analyses.mem_iff
  · refine exists_congr fun text => and_congr_left' ?_
    rw [exists_reports_iff, exists_reports_iff]
    exact and_congr_right' (exists_congr fun raw => and_congr_left' h.texts.mem_iff)

/-! ## Characterization -/

/-- **Suggestions are complete, unique and in a canonical order.** They ascend strictly by priority, id and
title. The suggestion of a rule is among them exactly if some analysis of its category meets the rule. All
others are those of the texts that analyses report, one for each text, in the category of the first
analysis that reports it. In whatever order the analyses and their texts stand, only these categories may
differ. -/
theorem suggestions_canonical (as : List (Analysis α)) :
    ((suggestions as).Pairwise fun s t => s.key < t.key) ∧
    (∀ r ∈ rules, r.suggestion ∈ suggestions as ↔
      ∃ a ∈ as, a.classify = some r.category ∧ r.applies a = true) ∧
    (∀ s, (s ∈ suggestions as ∧ ∀ r ∈ (rules : List (Rule α)), r.suggestion ≠ s) ↔
      ∃ text a, as.find? (·.reports text) = some a ∧
        s = { id := "analyzer", priority := .low, category := a.classify, title := text,
              description := text }) ∧
    (∀ text, (∃ a ∈ as, a.reports text = true) →
      ∃! s, s ∈ suggestions as ∧ s.id = "analyzer" ∧ s.title = text) ∧
    ∀ bs, Reordered as bs → (suggestions as).map unattributed = (suggestions bs).map unattributed := by
  refine ⟨pairwise_suggestions as, fun r hr => ?_, fun s => ?_, fun text htext => ?_,
    fun bs h => h.map_unattributed⟩
  · have hfired : (∃ a ∈ as, r.firedBy a = true) ↔
        ∃ a ∈ as, a.classify = some r.category ∧ r.applies a = true := by
      simp only [Rule.firedBy, Bool.and_eq_true, beq_iff_eq]
    rw [mem_suggestions, ← hfired]
    constructor
    · rintro (⟨r', hr', h, heq⟩ | ⟨text, a, -, heq⟩)
      · exact Rule.eq_of_id_eq hr' hr (congrArg Suggestion.id heq) ▸ h
      · exact absurd (congrArg Suggestion.id heq.symm) (Rule.id_ne_analyzer hr)
    · exact fun h => .inl ⟨r, hr, h, rfl⟩
  · rw [mem_suggestions]
    constructor
    · rintro ⟨⟨r, hr, -, heq⟩ | ⟨text, a, ha, heq⟩, hrules⟩
      · exact absurd heq (hrules r hr)
      · exact ⟨text, a, ha, heq.symm⟩
    · rintro ⟨text, a, ha, heq⟩
      exact ⟨.inr ⟨text, a, ha, heq.symm⟩,
        fun r hr hs => Rule.id_ne_analyzer hr (congrArg Suggestion.id (hs.trans heq))⟩
  · obtain ⟨a, ha⟩ := Option.isSome_iff_exists.1 (List.find?_isSome.2 htext)
    refine ⟨ofText (text, a.classify), ⟨mem_suggestions.2 (.inr ⟨text, a, ha, rfl⟩), rfl, rfl⟩, ?_⟩
    rintro s ⟨hs, hid, rfl⟩
    rcases mem_suggestions.1 hs with ⟨r, hr, -, rfl⟩ | ⟨text, a', ha', rfl⟩
    · exact absurd hid (Rule.id_ne_analyzer hr)
    · exact congrArg (fun a => ofText (text, a.classify)) (Option.some_inj.1 (ha'.symm.trans ha))

/-- An analysis of texts, and of one error if it has a category. -/
def noting (category : Option Category) (texts : List String) : Analysis Float :=
  { category, score := none, suggestions := texts, metrics := .empty
    issues := if category.isSome then [{ severity := .error, file := "a.ts", message := "unused" }] else [] }

/-- A text that two analyses report, once with blanks around it, and an error. -/
theorem suggestions_canonical_overlap :
    let first := noting none [" pin versions", "  "]
    let second := noting (some .lint) ["split files", "pin versions"]
    (∃ s ∈ suggestions [first, second], s.id = "lint-errors") ∧
    (∃! s, s ∈ suggestions [first, second] ∧ s.id = "analyzer" ∧ s.title = "pin versions") ∧
    ofText ("pin versions", none) ∈ suggestions [first, second] ∧
    ofText ("pin versions", some .lint) ∈ suggestions [second, first] ∧
    (suggestions [first, second]).map unattributed = (suggestions [second, first]).map unattributed := by
  intro first second
  have hreports : first.reports "pin versions" = true ∧ second.reports "pin versions" = true := by
    decide +kernel
  obtain ⟨-, hrules, htexts, hunique, horder⟩ := suggestions_canonical [first, second]
  obtain ⟨-, -, htexts', -, -⟩ := suggestions_canonical [second, first]
  refine ⟨?_, hunique "pin versions" ⟨first, by simp, hreports.1⟩, ?_, ?_,
    horder [second, first] ⟨?_, ?_⟩⟩
  · obtain ⟨r, hr, hid, hfired⟩ : ∃ r ∈ (rules : List (Rule Float)), r.id = "lint-errors" ∧
        r.firedBy second = true :=
      ⟨rules[3], List.getElem_mem _, rfl, by decide +kernel⟩
    obtain ⟨hcategory, happlies⟩ := Bool.and_eq_true_iff.1 hfired
    exact ⟨r.suggestion, (hrules r hr).2 ⟨second, by simp, beq_iff_eq.1 hcategory, happlies⟩, hid⟩
  · exact ((htexts _).2 ⟨"pin versions", first, List.find?_cons_of_pos hreports.1, rfl⟩).1
  · exact ((htexts' _).2 ⟨"pin versions", second, List.find?_cons_of_pos hreports.2, rfl⟩).1
  · exact .swap ..
  · exact List.perm_append_comm

end CodeQuality
