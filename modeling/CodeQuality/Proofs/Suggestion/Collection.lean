import Mathlib.Data.List.Nodup
import Mathlib.Data.Prod.Lex
import Mathlib.Data.String.Basic
import CodeQuality.Suggestion.Collect

/-!
# The loop that collects suggestions

`Collected.collect`: once all analyses were gone through, the rules that have fired are those that some
analysis of their category meets, the texts that were passed through are those that some analysis reports,
and there is one suggestion for each of them, that of a text in the category of the first analysis that
reports it.

`Collected` says this of the analyses gone through so far, with the rules that fire and the category of each
text as parameters. A step may add a rule or a text (`Collected.tryRule`, `Collected.passText`), and what was
found before is never lost. No two suggestions have the same key: the ids of the rules differ from each other
and from the one of the texts (`nodup_ids`), and a text is passed through once.
-/

namespace CodeQuality

/-! ## Keys -/

namespace Suggestion

/-- What suggestions are ordered by. -/
def key (s : Suggestion) : ℕ ×ₗ String ×ₗ String := toLex (s.priority.rank, toLex (s.id, s.title))

theorem id_eq_of_key_eq {s t : Suggestion} (h : s.key = t.key) : s.id = t.id :=
  congrArg (fun k => (ofLex (ofLex k).2).1) h

theorem title_eq_of_key_eq {s t : Suggestion} (h : s.key = t.key) : s.title = t.title :=
  congrArg (fun k => (ofLex (ofLex k).2).2) h

theorem nodup_keys_append {found : List Suggestion} {s : Suggestion} (h : (found.map key).Nodup)
    (hnew : ∀ t ∈ found, t.id = s.id → t.title ≠ s.title) : ((found ++ [s]).map key).Nodup := by
  rw [List.map_append, List.nodup_append]
  refine ⟨h, List.nodup_singleton _, ?_⟩
  intro k hk k' hk' heq
  obtain ⟨t, ht, rfl⟩ := List.mem_map.1 hk
  obtain rfl := List.mem_singleton.1 hk'
  exact hnew t ht (id_eq_of_key_eq heq) (title_eq_of_key_eq heq)

end Suggestion

open Suggestion

variable {α : Type}

/-! ## Texts -/

/-- Whether a text is among raw ones, up to the blanks around them. Blanks alone are no text. -/
def occursAmong (text : String) (raws : List String) : Bool :=
  text != "" && raws.any (Text.trim · == text)

theorem occursAmong_cons (text raw : String) (raws : List String) :
    occursAmong text (raw :: raws) = (occursAmong text [raw] || occursAmong text raws) := by
  simp only [occursAmong, List.any_cons, List.any_nil, Bool.or_false, Bool.and_or_distrib_left]

/-- Whether an analysis reports a text. -/
def Analysis.reports (a : Analysis α) (text : String) : Bool := occursAmong text a.suggestions

/-! ## Rules -/

variable [Scalar α]

/-- Whether an analysis of the category of a rule meets it. -/
def Rule.firedBy (r : Rule α) (a : Analysis α) : Bool :=
  a.classify == some r.category && r.applies a

/-- The rules have different ids, none of which is the one of the texts. -/
theorem nodup_ids : ("analyzer" :: (rules : List (Rule α)).map (·.id)).Nodup := by
  have hids : (rules : List (Rule α)).map (·.id) = ["type-errors", "strict-mode", "type-coverage",
    "lint-errors", "lint-autofix", "lint-warnings", "coverage-critical", "coverage-raise",
    "coverage-branches", "complexity-hotspots", "complexity-average", "maintainability"] := rfl
  rw [hids]
  decide

theorem Rule.id_ne_analyzer {r : Rule α} (hr : r ∈ rules) : r.id ≠ "analyzer" := by
  intro h
  exact (List.nodup_cons.1 (nodup_ids (α := α))).1 (h ▸ List.mem_map_of_mem hr)

theorem Rule.eq_of_id_eq {r r' : Rule α} (hr : r ∈ rules) (hr' : r' ∈ rules) (h : r.id = r'.id) : r = r' :=
  List.inj_on_of_nodup_map (List.nodup_cons.1 nodup_ids).2 hr hr' h

/-! ## What is collected -/

/-- The rules of a collection fire, and its texts were reported first in the categories that `reporter`
knows for them. -/
structure Collected (fires : Rule α → Prop) (reporter : String → Option (Option Category))
    (c : Collection) : Prop where
  fired : ∀ r ∈ rules, (r.id ∈ c.fired ↔ fires r)
  passed : ∀ text, text ∈ c.passed ↔ reporter text ≠ none
  found : ∀ s, s ∈ c.found ↔
    (∃ r ∈ rules, fires r ∧ r.suggestion = s) ∨
      ∃ text category, reporter text = some category ∧ ofText (text, category) = s
  keys : (c.found.map key).Nodup

namespace Collected

variable {fires fires' : Rule α → Prop} {reporter reporter' : String → Option (Option Category)}
  {c : Collection}

theorem empty : Collected (fun _ : Rule α => False) (fun _ => none) .empty where
  fired := by simp [Collection.empty]
  passed := by simp [Collection.empty]
  found := by simp [Collection.empty]
  keys := .nil

theorem congr (h : Collected fires reporter c) (hfires : ∀ r ∈ rules, (fires r ↔ fires' r))
    (hreporter : ∀ text, reporter text = reporter' text) : Collected fires' reporter' c := by
  obtain rfl : reporter = reporter' := funext hreporter
  refine ⟨fun r hr => (h.fired r hr).trans (hfires r hr), h.passed, fun s => ?_, h.keys⟩
  rw [h.found s]
  refine or_congr_left (exists_congr fun r => and_congr_right fun hr => ?_)
  rw [hfires r hr]

theorem addRule (h : Collected fires reporter c) {r : Rule α} (hr : r ∈ rules) (hnew : r.id ∉ c.fired) :
    Collected (fun r' => fires r' ∨ r' = r) reporter
      { c with fired := c.fired ++ [r.id], found := c.found ++ [r.suggestion] } := by
  have hsame {r' : Rule α} (hr' : r' ∈ rules) : r'.id = r.id ↔ r' = r :=
    ⟨Rule.eq_of_id_eq hr' hr, congrArg Rule.id⟩
  refine ⟨?_, h.passed, ?_, nodup_keys_append h.keys ?_⟩
  · intro r' hr'
    rw [List.mem_append, List.mem_singleton, h.fired r' hr', hsame hr']
  · intro s
    have hone : (∃ r' ∈ rules, r' = r ∧ r'.suggestion = s) ↔ s = r.suggestion := by
      constructor
      · rintro ⟨_, -, rfl, rfl⟩
        rfl
      · rintro rfl
        exact ⟨r, hr, rfl, rfl⟩
    rw [List.mem_append, List.mem_singleton, h.found s]
    simp only [or_and_right, and_or_left, exists_or, hone]
    rw [or_right_comm]
  · intro t ht hid
    -- the rule would have fired before, and no text has its id
    rcases (h.found t).1 ht with ⟨r', hr', hfires, rfl⟩ | ⟨text, category, -, rfl⟩
    · obtain rfl := (hsame hr').1 hid
      exact absurd ((h.fired r' hr').2 hfires) hnew
    · exact absurd hid.symm (Rule.id_ne_analyzer hr)

theorem addText (h : Collected fires reporter c) {text : String} (hnew : text ∉ c.passed)
    (category : Option Category) :
    Collected fires (fun text' => if text' = text then some category else reporter text')
      { c with passed := c.passed ++ [text], found := c.found ++ [ofText (text, category)] } := by
  have hnone : reporter text = none := by
    by_contra hreported
    exact hnew ((h.passed text).2 hreported)
  refine ⟨h.fired, ?_, ?_, nodup_keys_append h.keys ?_⟩
  · intro text'
    rw [List.mem_append, List.mem_singleton, h.passed text']
    by_cases htext : text' = text <;> simp [htext]
  · intro s
    rw [List.mem_append, List.mem_singleton, h.found s, or_assoc]
    refine or_congr_right ?_
    constructor
    · rintro (⟨text', first, hfirst, rfl⟩ | rfl)
      · have hne : text' ≠ text := by
          rintro rfl
          rw [hnone] at hfirst
          nomatch hfirst
        exact ⟨text', first, by rw [if_neg hne, hfirst], rfl⟩
      · exact ⟨text, category, if_pos rfl, rfl⟩
    · rintro ⟨text', first, hfirst, rfl⟩
      by_cases htext : text' = text
      · rw [if_pos htext] at hfirst
        exact .inr (by rw [htext, Option.some.inj hfirst])
      · rw [if_neg htext] at hfirst
        exact .inl ⟨text', first, hfirst, rfl⟩
  · intro t ht hid htitle
    -- rules have other ids, and the text was not passed through before
    rcases (h.found t).1 ht with ⟨r, hr, -, rfl⟩ | ⟨text', first, hfirst, rfl⟩
    · exact Rule.id_ne_analyzer hr hid
    · obtain rfl : text' = text := htitle
      rw [hnone] at hfirst
      nomatch hfirst

/-- One rule is tried. -/
theorem tryRule (h : Collected fires reporter c) (a : Analysis α) {r : Rule α} (hr : r ∈ rules) :
    Collected (fun r' => fires r' ∨ r' = r ∧ r.applies a = true) reporter (c.tryRule a r) := by
  unfold Collection.tryRule
  split
  next hnew =>
    rw [Bool.and_eq_true, Bool.not_eq_true', List.contains_eq_mem, decide_eq_false_iff_not] at hnew
    refine (h.addRule hr hnew.1).congr (fun r' _ => ?_) fun _ => rfl
    rw [and_iff_left hnew.2]
  next hold =>
    -- a rule that applies has fired before
    refine h.congr (fun r' hr' => ⟨.inl, ?_⟩) fun _ => rfl
    rintro (hfires | ⟨rfl, happlies⟩)
    · exact hfires
    · refine (h.fired r' hr').1 (by_contra fun hnew => hold ?_)
      simp [hnew, happlies]

/-- One text is looked at. -/
theorem passText (h : Collected fires reporter c) (category : Option Category) (raw : String) :
    Collected fires
      (fun text => (reporter text).or (if occursAmong text [raw] then some category else none))
      (c.passText category raw) := by
  simp only [Collection.passText, occursAmong, List.any_cons, List.any_nil, Bool.or_false]
  generalize Text.trim raw = trimmed
  split
  next hold =>
    rw [Bool.or_eq_true, String.isEmpty_iff, List.contains_iff_mem, h.passed trimmed] at hold
    refine h.congr (fun _ _ => .rfl) fun text => ?_
    split
    next hcond =>
      obtain ⟨hne, htext⟩ := Bool.and_eq_true_iff.1 hcond
      obtain rfl := beq_iff_eq.1 htext
      obtain ⟨first, hfirst⟩ := Option.ne_none_iff_exists'.1 (hold.resolve_left (bne_iff_ne.1 hne))
      rw [hfirst]
      rfl
    · exact Option.or_none.symm
  next hnew =>
    rw [Bool.or_eq_true, String.isEmpty_iff, List.contains_iff_mem, not_or] at hnew
    obtain ⟨hne, hnew⟩ := hnew
    have hnone := not_not.1 (mt (h.passed trimmed).2 hnew)
    refine (h.addText hnew category).congr (fun _ _ => .rfl) fun text => ?_
    by_cases htext : text = trimmed
    · simp [htext, hne, hnone]
    · have hother : (trimmed == text) = false := beq_eq_false_iff_ne.2 (Ne.symm htext)
      rw [if_neg htext, hother, Bool.and_false]
      exact Option.or_none.symm

theorem tryRules (h : Collected fires reporter c) (a : Analysis α) {rs : List (Rule α)}
    (hrs : ∀ r ∈ rs, r ∈ rules) :
    Collected (fun r => fires r ∨ r ∈ rs ∧ r.applies a = true) reporter
      (rs.foldl (Collection.tryRule a) c) := by
  induction rs generalizing fires c with
  | nil => exact h.congr (by simp) fun _ => rfl
  | cons r rs ih =>
    obtain ⟨hr, hrest⟩ := List.forall_mem_cons.1 hrs
    refine (ih (h.tryRule a hr) hrest).congr (fun r' _ => ?_) fun _ => rfl
    rw [List.mem_cons, or_assoc, or_and_right]
    exact or_congr_right (or_congr_left (and_congr_right fun heq => by rw [heq]))

theorem passTexts (h : Collected fires reporter c) (category : Option Category) (raws : List String) :
    Collected fires
      (fun text => (reporter text).or (if occursAmong text raws then some category else none))
      (raws.foldl (Collection.passText category) c) := by
  induction raws generalizing reporter c with
  | nil => exact h.congr (fun _ _ => .rfl) fun text => by simp [occursAmong]
  | cons raw raws ih =>
    refine (ih (h.passText category raw)).congr (fun _ _ => .rfl) fun text => ?_
    rw [Option.or_assoc, occursAmong_cons text raw raws]
    cases occursAmong text [raw] <;> rfl

theorem visit (h : Collected fires reporter c) (a : Analysis α) :
    Collected (fun r => fires r ∨ r.firedBy a = true)
      (fun text => (reporter text).or (if a.reports text then some a.classify else none))
      (c.visit a) := by
  have hown : ∀ r ∈ rules.filter fun r : Rule α => a.classify == some r.category, r ∈ rules :=
    fun r hr => (List.mem_filter.1 hr).1
  refine ((h.tryRules a hown).passTexts a.classify a.suggestions).congr (fun r hr => ?_) fun _ => rfl
  rw [List.mem_filter, Rule.firedBy, Bool.and_eq_true]
  simp only [hr, true_and]

theorem visits (h : Collected fires reporter c) (as : List (Analysis α)) :
    Collected (fun r => fires r ∨ ∃ a ∈ as, r.firedBy a = true)
      (fun text => (reporter text).or ((as.find? (·.reports text)).map (·.classify)))
      (as.foldl Collection.visit c) := by
  induction as generalizing fires reporter c with
  | nil => exact h.congr (by simp) fun _ => Option.or_none.symm
  | cons a as ih =>
    refine (ih (h.visit a)).congr (fun r _ => ?_) fun text => ?_
    · rw [List.exists_mem_cons_iff, or_assoc]
    · rw [Option.or_assoc, List.find?_cons]
      cases a.reports text <;> rfl

/-- **The loop collects every suggestion once.** The rules that fire are those that some analysis of their
category meets, and a text is passed through in the category of the first analysis that reports it. -/
theorem collect (as : List (Analysis α)) :
    Collected (fun r => ∃ a ∈ as, r.firedBy a = true)
      (fun text => (as.find? (·.reports text)).map (·.classify)) (collect as) :=
  (empty.visits as).congr (fun _ _ => by rw [false_or]) fun _ => Option.none_or

end Collected

end CodeQuality
