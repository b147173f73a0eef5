import CodeQuality.Proofs.Monitor.Persistence
import CodeQuality.Proofs.Wire.Analyses

/-!
# The wire formats lose nothing

`wire_lossless`: analyses, measurements of files, scores, suggestions, snapshots and reports are read
as they were written, and what is read from any text can be written and read again. Numbers are kept as
far as their texts are: the reader of numbers rounds the digits and the power of ten each for itself, so
that the text of a number with many digits may be read as a neighbour.
-/

namespace CodeQuality

open Leaf

/-! ## Records of four numbers -/

namespace Record

variable {τ : Type} (make : Float → Float → Float → Float → τ) {a b c d : String}

/-- The record of four numbers that a JSON value is. -/
def ofNumbers? (a b c d : String) (j : Json) : Option τ := do
  let r ← read? [a, b, c, d] [] j
  return make (← r.required a Json.float?) (← r.required b Json.float?)
    (← r.required c Json.float?) (← r.required d Json.float?)

theorem ofNumbers?_reread {x y z w : Float} (hnames : [a, b, c, d].Nodup)
    (h : ∀ l ∈ [number x, number y, number z, number w], l.Exact) :
    ofNumbers? make a b c d
        (Json.ofMembers
          [(a, .ofFloat x), (b, .ofFloat y), (c, .ofFloat z), (d, .ofFloat w)]).reread =
      some (make x y z w) := by
  simp only [List.forall_mem_cons] at h
  obtain ⟨hx, hy, hz, hw, -⟩ := h
  have hrecord : read? [a, b, c, d] [] (Json.ofMembers
      [(a, .ofFloat x), (b, .ofFloat y), (c, .ofFloat z), (d, .ofFloat w)]).reread = some _ :=
    read?_reread rfl hnames
  simp only [List.nodup_cons, List.mem_cons, List.not_mem_nil, or_false, not_or] at hnames
  obtain ⟨⟨hab, hac, had⟩, ⟨hbc, hbd⟩, hcd, -⟩ := hnames
  rw [ofNumbers?, hrecord]
  refine Option.bind_eq_some_iff.2 ⟨_, rfl, ?_⟩
  refine Option.bind_eq_some_iff.2 ⟨x, required_reread ?_ hx.float?_reread, ?_⟩
  · exact List.lookup_cons_self
  refine Option.bind_eq_some_iff.2 ⟨y, required_reread ?_ hy.float?_reread, ?_⟩
  · simp [Metrics.lookup_cons_eq, Ne.symm hab]
  refine Option.bind_eq_some_iff.2 ⟨z, required_reread ?_ hz.float?_reread, ?_⟩
  · simp [Metrics.lookup_cons_eq, Ne.symm hac, Ne.symm hbc]
  refine Option.bind_eq_some_iff.2 ⟨w, required_reread ?_ hw.float?_reread, rfl⟩
  simp [Metrics.lookup_cons_eq, Ne.symm had, Ne.symm hbd, Ne.symm hcd]

theorem proper_of_ofNumbers? {j : Json} {v : τ} (h : ofNumbers? make a b c d j = some v) :
    ∃ x y z w, v = make x y z w ∧
      ∀ l ∈ [number x, number y, number z, number w], l.Proper := by
  obtain ⟨r, -, h⟩ := Option.bind_eq_some_iff.1 h
  obtain ⟨x, hx, h⟩ := Option.bind_eq_some_iff.1 h
  obtain ⟨y, hy, h⟩ := Option.bind_eq_some_iff.1 h
  obtain ⟨z, hz, h⟩ := Option.bind_eq_some_iff.1 h
  obtain ⟨w, hw, h⟩ := Option.bind_eq_some_iff.1 h
  refine ⟨x, y, z, w, (Option.some.inj h).symm, ?_⟩
  simp only [List.forall_mem_cons]
  exact ⟨proper_of_number hx, proper_of_number hy,
    proper_of_number hz, proper_of_number hw, List.forall_mem_nil _⟩

end Record

/-! ## Scores -/

namespace ByCategory

def leaves (v : ByCategory Float) : List Leaf :=
  [.number v.typeCheck, .number v.lint, .number v.coverage, .number v.complexity]

theorem ofJson?_reread {v : ByCategory Float} (h : ∀ l ∈ v.leaves, l.Exact) :
    ofJson? v.toJson.reread = some v :=
  Record.ofNumbers?_reread mk (by decide) h

theorem proper_of_ofJson? {j : Json} {v : ByCategory Float} (h : ofJson? j = some v) :
    ∀ l ∈ v.leaves, l.Proper := by
  obtain ⟨x, y, z, w, rfl, hproper⟩ := Record.proper_of_ofNumbers? mk h
  exact hproper

end ByCategory

namespace Weights

theorem ofJson?_reread {w : Weights Float} (h : ∀ l ∈ w.leaves, l.Exact) :
    ofJson? w.toJson.reread = some w := by
  simp only [ByCategory.leaves, List.forall_mem_cons] at h
  obtain ⟨htypeCheck, hlint, hcoverage, hcomplexity, -⟩ := h
  have hrecord : Record.read? ByCategory.fieldNames [("type_check", "typeCheck")] w.toJson.reread =
      some _ := Record.read?_reread rfl (by decide)
  rw [ofJson?, hrecord]
  refine Option.bind_eq_some_iff.2 ⟨_, rfl, ?_⟩
  refine Option.bind_eq_some_iff.2 ⟨_, Record.withDefault_reread rfl htypeCheck.float?_reread, ?_⟩
  refine Option.bind_eq_some_iff.2 ⟨_, Record.withDefault_reread rfl hlint.float?_reread, ?_⟩
  refine Option.bind_eq_some_iff.2 ⟨_, Record.withDefault_reread rfl hcoverage.float?_reread, ?_⟩
  refine Option.bind_eq_some_iff.2 ⟨_, Record.withDefault_reread rfl hcomplexity.float?_reread, ?_⟩
  rfl

theorem proper_standard : ∀ l ∈ (standard : Weights Float).leaves, l.Proper := by decide +kernel

theorem proper_of_ofJson? {j : Json} {w : Weights Float} (h : ofJson? j = some w) :
    ∀ l ∈ w.leaves, l.Proper := by
  have hnumber : ∀ {r : Record} {name : String} {default x : Float}, (number default).Proper →
      r.withDefault name default Json.float? = some x → (number x).Proper :=
    fun hdefault => Record.proper_of_withDefault (P := fun x => (number x).Proper) hdefault
      Json.proper_of_float?
  have hstandard := proper_standard
  simp only [ByCategory.leaves, List.forall_mem_cons] at hstandard
  obtain ⟨hstandardTypeCheck, hstandardLint, hstandardCoverage, hstandardComplexity, -⟩ := hstandard
  obtain ⟨r, -, h⟩ := Option.bind_eq_some_iff.1 h
  obtain ⟨typeCheck, htypeCheck, h⟩ := Option.bind_eq_some_iff.1 h
  obtain ⟨lint, hlint, h⟩ := Option.bind_eq_some_iff.1 h
  obtain ⟨coverage, hcoverage, h⟩ := Option.bind_eq_some_iff.1 h
  obtain ⟨complexity, hcomplexity, h⟩ := Option.bind_eq_some_iff.1 h
  obtain rfl := Option.some.inj h
  simp only [ByCategory.leaves, List.forall_mem_cons]
  exact ⟨hnumber hstandardTypeCheck htypeCheck, hnumber hstandardLint hlint,
    hnumber hstandardCoverage hcoverage, hnumber hstandardComplexity hcomplexity,
    List.forall_mem_nil _⟩

end Weights

namespace Penalties

def leaves (p : Penalties Float) : List Leaf :=
  [.number p.criticalIssues, .number p.highComplexity, .number p.lowCoverage, .number p.typeErrors]

theorem ofJson?_reread {p : Penalties Float} (h : ∀ l ∈ p.leaves, l.Exact) :
    ofJson? p.toJson.reread = some p :=
  Record.ofNumbers?_reread mk (by decide) h

theorem proper_of_ofJson? {j : Json} {p : Penalties Float} (h : ofJson? j = some p) :
    ∀ l ∈ p.leaves, l.Proper := by
  obtain ⟨x, y, z, w, rfl, hproper⟩ := Record.proper_of_ofNumbers? mk h
  exact hproper

end Penalties

namespace Bonuses

def leaves (b : Bonuses Float) : List Leaf :=
  [.number b.strictMode, .number b.highCoverage, .number b.lowComplexity, .number b.cleanCode]

theorem ofJson?_reread {b : Bonuses Float} (h : ∀ l ∈ b.leaves, l.Exact) :
    ofJson? b.toJson.reread = some b :=
  Record.ofNumbers?_reread mk (by decide) h

theorem proper_of_ofJson? {j : Json} {b : Bonuses Float} (h : ofJson? j = some b) :
    ∀ l ∈ b.leaves, l.Proper := by
  obtain ⟨x, y, z, w, rfl, hproper⟩ := Record.proper_of_ofNumbers? mk h
  exact hproper

end Bonuses

namespace Breakdown

def leaves (b : Breakdown Float) : List Leaf :=
  [.number b.overall, .number b.weighted] ++ b.components.leaves ++ b.weights.leaves ++
    b.penalties.leaves ++ b.bonuses.leaves ++ [.count UInt64.size b.unclassified]

theorem ofJson?_reread {b : Breakdown Float} (h : ∀ l ∈ b.leaves, l.Exact) :
    ofJson? b.toJson.reread = some b := by
  simp only [leaves, List.forall_mem_append, List.forall_mem_cons] at h
  obtain ⟨⟨⟨⟨⟨⟨hoverall, hweighted, -⟩, hcomponents⟩, hweights⟩, hpenalties⟩, hbonuses⟩,
    hunclassified, -⟩ := h
  have hcomponents := ByCategory.ofJson?_reread hcomponents
  have hweights := Weights.ofJson?_reread hweights
  have hpenalties := Penalties.ofJson?_reread hpenalties
  have hbonuses := Bonuses.ofJson?_reread hbonuses
  have hunclassified := Json.count64?_reread hunclassified.lt
  have hrecord : Record.read? fieldNames [] b.toJson.reread = some _ :=
    Record.read?_reread rfl (by decide)
  rw [ofJson?, hrecord]
  refine Option.bind_eq_some_iff.2 ⟨_, rfl, ?_⟩
  refine Option.bind_eq_some_iff.2 ⟨_, Record.required_eq rfl hoverall.float?_reread, ?_⟩
  refine Option.bind_eq_some_iff.2 ⟨_, Record.required_eq rfl hweighted.float?_reread, ?_⟩
  refine Option.bind_eq_some_iff.2 ⟨_, Record.required_eq rfl hcomponents, ?_⟩
  refine Option.bind_eq_some_iff.2 ⟨_, Record.required_eq rfl hweights, ?_⟩
  refine Option.bind_eq_some_iff.2 ⟨_, Record.required_eq rfl hpenalties, ?_⟩
  refine Option.bind_eq_some_iff.2 ⟨_, Record.required_eq rfl hbonuses, ?_⟩
  refine Option.bind_eq_some_iff.2 ⟨_, Record.required_eq rfl hunclassified, ?_⟩
  rfl

theorem proper_of_ofJson? {j : Json} {b : Breakdown Float} (h : ofJson? j = some b) :
    ∀ l ∈ b.leaves, l.Proper := by
  obtain ⟨r, -, h⟩ := Option.bind_eq_some_iff.1 h
  obtain ⟨overall, hoverall, h⟩ := Option.bind_eq_some_iff.1 h
  obtain ⟨weighted, hweighted, h⟩ := Option.bind_eq_some_iff.1 h
  obtain ⟨components, hcomponents, h⟩ := Option.bind_eq_some_iff.1 h
  obtain ⟨weights, hweights, h⟩ := Option.bind_eq_some_iff.1 h
  obtain ⟨penalties, hpenalties, h⟩ := Option.bind_eq_some_iff.1 h
  obtain ⟨bonuses, hbonuses, h⟩ := Option.bind_eq_some_iff.1 h
  obtain ⟨unclassified, hunclassified, h⟩ := Option.bind_eq_some_iff.1 h
  obtain rfl := Option.some.inj h
  simp only [leaves, List.forall_mem_append, List.forall_mem_cons]
  exact ⟨⟨⟨⟨⟨⟨Record.proper_of_number hoverall,
    Record.proper_of_number hweighted, List.forall_mem_nil _⟩,
    Record.proper_of_required ByCategory.proper_of_ofJson? hcomponents⟩,
    Record.proper_of_required Weights.proper_of_ofJson? hweights⟩,
    Record.proper_of_required Penalties.proper_of_ofJson? hpenalties⟩,
    Record.proper_of_required Bonuses.proper_of_ofJson? hbonuses⟩,
    Record.proper_of_count64 hunclassified, List.forall_mem_nil _⟩

end Breakdown

/-! ## Snapshots -/

theorem Debt.proper_of_ofJson? {j : Json} {d : Debt Float} (h : ofJson? j = some d) :
    ∀ x ∈ d.numbers, (number x).Proper := by
  obtain ⟨r, -, h⟩ := Option.bind_eq_some_iff.1 h
  obtain ⟨hours, hhours, h⟩ := Option.bind_eq_some_iff.1 h
  obtain ⟨ratio, hratio, h⟩ := Option.bind_eq_some_iff.1 h
  obtain ⟨density, hdensity, h⟩ := Option.bind_eq_some_iff.1 h
  obtain ⟨interest, hinterest, h⟩ := Option.bind_eq_some_iff.1 h
  obtain ⟨payback, hpayback, h⟩ := Option.bind_eq_some_iff.1 h
  obtain ⟨trend, -, h⟩ := Option.bind_eq_some_iff.1 h
  obtain rfl := Option.some.inj h
  simp only [numbers, List.forall_mem_cons]
  exact ⟨Record.proper_of_number hhours,
    Record.proper_of_number hratio,
    Record.proper_of_number hdensity,
    Record.proper_of_number hinterest,
    Record.proper_of_number hpayback, List.forall_mem_nil _⟩

theorem Profile.proper_of_ofJson? {j : Json} {p : Profile Float} (h : ofJson? j = some p) :
    (∀ x ∈ p.numbers, (number x).Proper) ∧ ∀ n ∈ p.counts, (count UInt64.size n).Proper := by
  obtain ⟨r, -, h⟩ := Option.bind_eq_some_iff.1 h
  obtain ⟨index, hindex, h⟩ := Option.bind_eq_some_iff.1 h
  obtain ⟨cyclomatic, hcyclomatic, h⟩ := Option.bind_eq_some_iff.1 h
  obtain ⟨cognitive, hcognitive, h⟩ := Option.bind_eq_some_iff.1 h
  obtain ⟨lines, hlines, h⟩ := Option.bind_eq_some_iff.1 h
  obtain ⟨files, hfiles, h⟩ := Option.bind_eq_some_iff.1 h
  obtain ⟨rating, -, h⟩ := Option.bind_eq_some_iff.1 h
  obtain rfl := Option.some.inj h
  simp only [numbers, counts, List.forall_mem_cons]
  exact ⟨⟨Record.proper_of_number hindex,
    Record.proper_of_number hcyclomatic,
    Record.proper_of_number hcognitive, List.forall_mem_nil _⟩,
    Record.proper_of_count64 hlines,
    Record.proper_of_count64 hfiles, List.forall_mem_nil _⟩

theorem Projection.proper_of_ofJson? {j : Json} {p : Projection Float} (h : ofJson? j = some p) :
    (∀ x ∈ p.numbers, (number x).Proper) ∧ (count UInt32.size p.period).Proper := by
  obtain ⟨r, -, h⟩ := Option.bind_eq_some_iff.1 h
  obtain ⟨period, hperiod, h⟩ := Option.bind_eq_some_iff.1 h
  obtain ⟨score, hscore, h⟩ := Option.bind_eq_some_iff.1 h
  obtain ⟨confidence, hconfidence, h⟩ := Option.bind_eq_some_iff.1 h
  obtain rfl := Option.some.inj h
  simp only [numbers, List.forall_mem_cons]
  exact ⟨⟨Record.proper_of_number hscore,
    Record.proper_of_number hconfidence, List.forall_mem_nil _⟩,
    Record.proper_of_count32 hperiod⟩

theorem Trend.proper_of_ofJson? {j : Json} {t : Trend Float} (h : ofJson? j = some t) :
    (∀ x ∈ t.numbers, (number x).Proper) ∧
      ∀ p ∈ t.projections, (count UInt32.size p.period).Proper := by
  obtain ⟨r, -, h⟩ := Option.bind_eq_some_iff.1 h
  obtain ⟨direction, -, h⟩ := Option.bind_eq_some_iff.1 h
  obtain ⟨velocity, hvelocity, h⟩ := Option.bind_eq_some_iff.1 h
  obtain ⟨volatility, hvolatility, h⟩ := Option.bind_eq_some_iff.1 h
  obtain ⟨improvement, himprovement, h⟩ := Option.bind_eq_some_iff.1 h
  obtain ⟨risk, hrisk, h⟩ := Option.bind_eq_some_iff.1 h
  obtain ⟨stability, hstability, h⟩ := Option.bind_eq_some_iff.1 h
  obtain ⟨predicted, hpredicted, h⟩ := Option.bind_eq_some_iff.1 h
  obtain ⟨projections, hprojections, h⟩ := Option.bind_eq_some_iff.1 h
  obtain rfl := Option.some.inj h
  have hprojections :=
    Record.proper_of_required (Json.proper_of_list? Projection.proper_of_ofJson?) hprojections
  refine ⟨?_, fun p hp => (hprojections p hp).2⟩
  simp only [numbers, List.forall_mem_append, List.forall_mem_cons, List.forall_mem_flatMap]
  exact ⟨⟨Record.proper_of_number hvelocity,
    Record.proper_of_number hvolatility,
    Record.proper_of_number himprovement,
    Record.proper_of_number hrisk,
    Record.proper_of_number hstability,
    Record.proper_of_number hpredicted, List.forall_mem_nil _⟩,
    fun p hp => (hprojections p hp).1⟩

theorem Health.proper_of_ofJson? {j : Json} {health : Health} (h : ofJson? j = some health) :
    ∀ n ∈ health.counts, (count UInt64.size n).Proper := by
  obtain ⟨r, -, h⟩ := Option.bind_eq_some_iff.1 h
  obtain ⟨issues, hissues, h⟩ := Option.bind_eq_some_iff.1 h
  obtain ⟨errors, herrors, h⟩ := Option.bind_eq_some_iff.1 h
  obtain ⟨warnings, hwarnings, h⟩ := Option.bind_eq_some_iff.1 h
  obtain ⟨infos, hinfos, h⟩ := Option.bind_eq_some_iff.1 h
  obtain ⟨fixable, hfixable, h⟩ := Option.bind_eq_some_iff.1 h
  obtain ⟨unclassified, hunclassified, h⟩ := Option.bind_eq_some_iff.1 h
  obtain ⟨grade, -, h⟩ := Option.bind_eq_some_iff.1 h
  obtain rfl := Option.some.inj h
  simp only [counts, List.forall_mem_cons]
  exact ⟨Record.proper_of_count64 hissues,
    Record.proper_of_count64 herrors,
    Record.proper_of_count64 hwarnings,
    Record.proper_of_count64 hinfos,
    Record.proper_of_count64 hfixable,
    Record.proper_of_count64 hunclassified, List.forall_mem_nil _⟩

theorem Forecast.proper_of_ofJson? {j : Json} {f : Forecast Float} (h : ofJson? j = some f) :
    ∀ x ∈ f.numbers, (number x).Proper := by
  obtain ⟨r, -, h⟩ := Option.bind_eq_some_iff.1 h
  obtain ⟨score, hscore, h⟩ := Option.bind_eq_some_iff.1 h
  obtain ⟨confidence, hconfidence, h⟩ := Option.bind_eq_some_iff.1 h
  obtain ⟨time, htime, h⟩ := Option.bind_eq_some_iff.1 h
  obtain ⟨effort, heffort, h⟩ := Option.bind_eq_some_iff.1 h
  obtain ⟨risks, -, h⟩ := Option.bind_eq_some_iff.1 h
  obtain ⟨recommendations, -, h⟩ := Option.bind_eq_some_iff.1 h
  obtain rfl := Option.some.inj h
  simp only [numbers, List.forall_mem_append, List.forall_mem_cons, Option.mem_toList]
  exact ⟨⟨Record.proper_of_number hscore,
    Record.proper_of_number hconfidence,
    Record.proper_of_number heffort, List.forall_mem_nil _⟩,
    Record.proper_of_optional Json.proper_of_float? htime⟩

namespace Snapshot

def leaves (s : Snapshot Float) : List Leaf :=
  s.numbers.map .number ++ (s.profile.counts ++ s.health.counts).map (.count UInt64.size) ++
    s.trend.projections.map (fun p => .count UInt32.size p.period) ++ [.instant s.instant]

theorem persistable_of_exact {s : Snapshot Float} (h : ∀ l ∈ s.leaves, l.Exact) :
    s.Persistable := by
  simp only [leaves, List.forall_mem_append, List.forall_mem_map, List.forall_mem_cons] at h
  obtain ⟨⟨⟨hnumbers, hcounts⟩, hperiods⟩, hinstant, -⟩ := h
  refine ⟨fun x hx => (hnumbers x hx).readsBack, ?_, fun p hp => (hperiods p hp).lt, hinstant.plain⟩
  exact List.forall_mem_append.2 ⟨fun n hn => (hcounts.1 n hn).lt, fun n hn => (hcounts.2 n hn).lt⟩

theorem proper_of_ofJson? {j : Json} {s : Snapshot Float} (h : ofJson? j = some s) :
    ∀ l ∈ s.leaves, l.Proper := by
  obtain ⟨r, -, h⟩ := Option.bind_eq_some_iff.1 h
  obtain ⟨score, hscore, h⟩ := Option.bind_eq_some_iff.1 h
  obtain ⟨debt, hdebt, h⟩ := Option.bind_eq_some_iff.1 h
  obtain ⟨profile, hprofile, h⟩ := Option.bind_eq_some_iff.1 h
  obtain ⟨trend, htrend, h⟩ := Option.bind_eq_some_iff.1 h
  obtain ⟨health, hhealth, h⟩ := Option.bind_eq_some_iff.1 h
  obtain ⟨forecast, hforecast, h⟩ := Option.bind_eq_some_iff.1 h
  obtain ⟨instant, hinstant, h⟩ := Option.bind_eq_some_iff.1 h
  obtain ⟨version, -, h⟩ := Option.bind_eq_some_iff.1 h
  obtain rfl := Option.some.inj h
  have hscore := Record.proper_of_number hscore
  have hdebt := Record.proper_of_required Debt.proper_of_ofJson? hdebt
  have hprofile := Record.proper_of_required Profile.proper_of_ofJson? hprofile
  have htrend := Record.proper_of_required Trend.proper_of_ofJson? htrend
  have hhealth := Record.proper_of_required Health.proper_of_ofJson? hhealth
  have hforecast := Record.proper_of_required Forecast.proper_of_ofJson? hforecast
  have hinstant := Record.proper_of_required Instant.proper_of_ofJson? hinstant
  simp only [leaves, numbers, List.forall_mem_append, List.forall_mem_map, List.forall_mem_cons]
  exact ⟨⟨⟨⟨⟨⟨⟨hscore, hdebt⟩, hprofile.1⟩, htrend.1⟩, hforecast⟩, hprofile.2, hhealth⟩, htrend.2⟩,
    hinstant, List.forall_mem_nil _⟩

end Snapshot

/-! ## Suggestions and reports -/

namespace Suggestion

/-- The members of the form of a suggestion. -/
def members (s : Suggestion) : List (String × Json) :=
  [("id", .ofString s.id), ("priority", .ofString s.priority.key)] ++
    Json.member? "category" (s.category.map fun c => .ofString c.key) ++
    [("title", .ofString s.title), ("description", .ofString s.description)]

theorem names_members (s : Suggestion) : (s.members.map (·.1)).Sublist fieldNames := by
  simp only [members, List.map_append]
  have hfront : ["id", "priority"].Sublist ["id", "priority"] := .refl _
  exact (hfront.append (Record.names_member? "category" _)).append (.refl ["title", "description"])

theorem lookup_members (s : Suggestion) :
    s.members.lookup "id" = some (.ofString s.id) ∧
      s.members.lookup "priority" = some (.ofString s.priority.key) ∧
      s.members.lookup "category" = s.category.map (fun c => .ofString c.key) ∧
      s.members.lookup "title" = some (.ofString s.title) ∧
      s.members.lookup "description" = some (.ofString s.description) := by
  simp [members, List.lookup_append, Metrics.lookup_cons_eq, Record.lookup_member?]

theorem ofJson?_reread (s : Suggestion) : ofJson? s.toJson.reread = some s := by
  have htext : ∀ text : String, Json.string? (Json.ofString text).reread = some text := fun _ => rfl
  have hkey : Priority.ofJson? (Json.ofString s.priority.key).reread = some s.priority :=
    Priority.named?_key s.priority
  obtain ⟨hid, hpriority, hcategory, htitle, hdescription⟩ := s.lookup_members
  have hrecord : Record.read? fieldNames [] s.toJson.reread = some _ :=
    Record.read?_reread_of_sublist s.names_members (by decide)
  rw [ofJson?, hrecord]
  refine Option.bind_eq_some_iff.2 ⟨_, rfl, ?_⟩
  refine Option.bind_eq_some_iff.2 ⟨_, Record.required_reread hid (htext _), ?_⟩
  refine Option.bind_eq_some_iff.2 ⟨_, Record.required_reread hpriority hkey, ?_⟩
  refine Option.bind_eq_some_iff.2 ⟨_, Record.optional_reread rfl hcategory fun c _ =>
    Category.named?_key c, ?_⟩
  refine Option.bind_eq_some_iff.2 ⟨_, Record.required_reread htitle (htext _), ?_⟩
  exact Option.bind_eq_some_iff.2 ⟨_, Record.required_reread hdescription (htext _), rfl⟩

end Suggestion

namespace Report

def leaves (r : Report Float) : List Leaf := r.breakdown.leaves ++ r.snapshot.leaves

theorem ofJson?_reread {r : Report Float} (h : ∀ l ∈ r.leaves, l.Exact) :
    ofJson? r.toJson.reread = some r := by
  obtain ⟨hbreakdown, hsnapshot⟩ := List.forall_mem_append.1 h
  have hbreakdown := Breakdown.ofJson?_reread hbreakdown
  have hsnapshot := Snapshot.ofJson?_reread (Snapshot.persistable_of_exact hsnapshot)
  have hsuggestions := Json.list?_reread fun s (_ : s ∈ r.suggestions) => s.ofJson?_reread
  have hrecord : Record.read? fieldNames [] r.toJson.reread = some _ :=
    Record.read?_reread rfl (by decide)
  rw [ofJson?, hrecord]
  refine Option.bind_eq_some_iff.2 ⟨_, rfl, ?_⟩
  refine Option.bind_eq_some_iff.2 ⟨_, Record.required_eq rfl hbreakdown, ?_⟩
  refine Option.bind_eq_some_iff.2 ⟨_, Record.required_eq rfl hsnapshot, ?_⟩
  exact Option.bind_eq_some_iff.2 ⟨_, Record.required_eq rfl hsuggestions, rfl⟩

theorem proper_of_ofJson? {j : Json} {r : Report Float} (h : ofJson? j = some r) :
    ∀ l ∈ r.leaves, l.Proper := by
  obtain ⟨fields, -, h⟩ := Option.bind_eq_some_iff.1 h
  obtain ⟨breakdown, hbreakdown, h⟩ := Option.bind_eq_some_iff.1 h
  obtain ⟨snapshot, hsnapshot, h⟩ := Option.bind_eq_some_iff.1 h
  obtain ⟨suggestions, -, h⟩ := Option.bind_eq_some_iff.1 h
  obtain rfl := Option.some.inj h
  exact List.forall_mem_append.2
    ⟨Record.proper_of_required Breakdown.proper_of_ofJson? hbreakdown,
      Record.proper_of_required Snapshot.proper_of_ofJson? hsnapshot⟩

end Report

/-! ## Forms -/

def Analysis.form : Form (Analysis Float) := ⟨toJson, ofJson?, leaves⟩

def FileMeasurement.form : Form (FileMeasurement Float) := ⟨toJson, ofJson?, leaves⟩

def Breakdown.form : Form (Breakdown Float) := ⟨toJson, ofJson?, leaves⟩

def Suggestion.form : Form Suggestion := ⟨toJson, ofJson?, fun _ => []⟩

def Snapshot.form : Form (Snapshot Float) := ⟨toJson, ofJson?, leaves⟩

def Report.form : Form (Report Float) := ⟨toJson, ofJson?, leaves⟩

/-- **The wire formats lose nothing.** A value of finite numbers and of instants in the years `0` to
`9999` is read as it was written, in any layout, if the texts of its numbers are read as the numbers.
What is read from a text is such a value, but for the years of its instants; written again it is read
as the same value, so that rewriting a second time changes nothing. -/
theorem wire_lossless :
    Analysis.form.Lossless ∧ FileMeasurement.form.Lossless ∧ Breakdown.form.Lossless ∧
      Suggestion.form.Lossless ∧ Snapshot.form.Lossless ∧ Report.form.Lossless := by
  refine ⟨?_, ?_, ?_, ?_, ?_, ?_⟩
  · exact .of_reread Analysis.proper_of_ofJson? Analysis.ofJson?_reread
  · exact .of_reread FileMeasurement.proper_of_ofJson? FileMeasurement.ofJson?_reread
  · exact .of_reread Breakdown.proper_of_ofJson? Breakdown.ofJson?_reread
  · exact .of_reread (fun _ => List.forall_mem_nil _) fun _ => Suggestion.ofJson?_reread _
  · exact .of_reread Snapshot.proper_of_ofJson? fun h =>
      Snapshot.ofJson?_reread (Snapshot.persistable_of_exact h)
  · exact .of_reread Report.proper_of_ofJson? Report.ofJson?_reread

/-- A number whose text is read as a neighbour: its power of ten takes two divisions. -/
example : ¬(number 1.2345678901234567e-300).Kept := by decide +kernel

/-- A report with a suggestion of no category. -/
def Report.sample : Report Float where
  breakdown :=
    { overall := 87.35
      weighted := 84.1
      components := ⟨91.0, 88.5, 76.25, 82.0⟩
      weights := .standard
      penalties := ⟨2.0, 0.0, 1.5, 0.0⟩
      bonuses := ⟨5.0, 0.0, 1.75, 0.0⟩
      unclassified := 1 }
  snapshot := .sample
  suggestions := [⟨"strict-mode", .high, none, "Enable strict mode", "Set \"strict\" to true"⟩]

/-- An analysis without a category, with an issue at a line but no column. -/
def Analysis.sample : Analysis Float where
  category := none
  score := some 91.5
  issues := [{ severity := .warning, file := "src/a.ts", line := some 3, message := "Unused\tname" }]
  suggestions := []
  metrics := .ofList [("lintWarnings", 1.0), ("fixableRate", 0.25)]

theorem wire_lossless_sample :
    (∀ l ∈ Report.form.leaves .sample, l.Exact) ∧
      Report.form.read? (Report.form.write Json.pretty .sample) = some .sample ∧
      Report.form.rewrite? Json.compact (Report.form.write Json.pretty .sample) =
        Report.form.rewrite? Json.compact (Report.form.write Json.compact .sample) ∧
      (∀ l ∈ Analysis.form.leaves .sample, l.Exact) ∧
      Analysis.form.read? (Analysis.form.write Json.compact .sample) = some .sample := by
  have hreport : ∀ l ∈ Report.form.leaves .sample, l.Exact := by decide +kernel
  have hanalysis : ∀ l ∈ Analysis.form.leaves .sample, l.Exact := by decide +kernel
  obtain ⟨hlossless, -, -, -, -, hreports⟩ := wire_lossless
  have hcompact := hreports.read_write Json.compact_blank hreport
  have hwritable : ∀ l ∈ Report.form.leaves .sample, l.Dated ∧ l.Kept := fun l hl =>
    ⟨(hreport l hl).dated, (hreport l hl).kept⟩
  refine ⟨hreport, hreports.read_write Json.pretty_blank hreport, ?_, hanalysis,
    hlossless.read_write Json.compact_blank hanalysis⟩
  refine hreports.rewrite_idempotent Json.pretty_blank hcompact hwritable ?_
  rw [Form.rewrite?, hcompact, Option.map_some]

end CodeQuality
