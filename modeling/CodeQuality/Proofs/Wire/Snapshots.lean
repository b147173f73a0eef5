import CodeQuality.Proofs.Json.Reading
import CodeQuality.Proofs.Time.Timestamp
import CodeQuality.Wire.Report

/-!
# Reading snapshots

A snapshot is read as it was written (`Snapshot.ofJson?_reread`), if the text of each of its numbers
is read as that number, its counts fit the machine and its instant has a year of four digits.
-/

namespace CodeQuality

variable {α : Type}

/-! ## What a snapshot holds -/

def Debt.numbers (d : Debt α) : List α := [d.hours, d.ratio, d.density, d.interest, d.payback]

def Profile.numbers (p : Profile α) : List α := [p.index, p.averageCyclomatic, p.averageCognitive]

def Projection.numbers (p : Projection α) : List α := [p.score, p.confidence]

def Trend.numbers (t : Trend α) : List α :=
  [t.velocity, t.volatility, t.improvementRate, t.regressionRisk, t.stability, t.predicted] ++
    t.projections.flatMap (·.numbers)

def Forecast.numbers (f : Forecast α) : List α :=
  [f.score, f.confidence, f.effort] ++ f.timeToTarget.toList

/-- All numbers of a snapshot that are no counts. -/
def Snapshot.numbers (s : Snapshot α) : List α :=
  s.score :: s.debt.numbers ++ s.profile.numbers ++ s.trend.numbers ++ s.forecast.numbers

def Profile.counts (p : Profile α) : List Nat := [p.lines, p.files]

def Health.counts (h : Health) : List Nat :=
  [h.issues, h.errors, h.warnings, h.infos, h.fixable, h.unclassified]

section rounded

variable [Scalar α]

open Scalar

theorem Debt.numbers_rounded (d : Debt α) : d.rounded.numbers = d.numbers.map hundredths := rfl

theorem Profile.numbers_rounded (p : Profile α) : p.rounded.numbers = p.numbers.map hundredths := rfl

theorem Trend.numbers_rounded (t : Trend α) : t.rounded.numbers = t.numbers.map hundredths := by
  simp only [Trend.numbers, Trend.rounded, List.map_append, List.flatMap_map, List.map_flatMap]
  rfl

theorem Forecast.numbers_rounded (f : Forecast α) : f.rounded.numbers = f.numbers.map hundredths := by
  simp only [Forecast.numbers, Forecast.rounded, List.map_append]
  cases f.timeToTarget <;> rfl

theorem Snapshot.numbers_rounded (s : Snapshot α) : s.rounded.numbers = s.numbers.map hundredths := by
  have hparts : s.rounded.numbers = hundredths s.score :: s.debt.rounded.numbers ++
      s.profile.rounded.numbers ++ s.trend.rounded.numbers ++ s.forecast.rounded.numbers := rfl
  rw [hparts, Debt.numbers_rounded, Profile.numbers_rounded, Trend.numbers_rounded,
    Forecast.numbers_rounded]
  simp only [Snapshot.numbers, List.map_append, List.map_cons]

end rounded

/-- The text of a number is read as the number. -/
def ReadsBack (x : Float) : Prop :=
  (Json.read? (Json.write Json.compact (Json.ofFloat x))).bind Json.float? = some x

instance (x : Float) : Decidable (ReadsBack x) := inferInstanceAs (Decidable (_ = _))

/-- A snapshot whose numbers are read back, whose counts fit in 64 bits and those of weeks in 32, and
whose instant is of the years `0` to `9999`. -/
structure Snapshot.Persistable (s : Snapshot Float) : Prop where
  numbers : ∀ x ∈ s.numbers, ReadsBack x
  counts : ∀ n ∈ s.profile.counts ++ s.health.counts, n < UInt64.size
  periods : ∀ p ∈ s.trend.projections, p.period < UInt32.size
  instant : s.instant.Plain

/-! ## Values -/

namespace Json

theorem reread_ofMembers (members : List (String × Json)) :
    (ofMembers members).reread = ofMembers (members.map fun m => (m.1, m.2.reread)) := by
  rw [ofMembers, reread, rereadMembers_eq, List.map_map, ofMembers, List.map_map]
  rfl

theorem reread_array (items : List Json) : (array items).reread = array (items.map reread) := by
  rw [reread, rereadItems_eq]

theorem reread_ofString (s : String) : (ofString s).reread = ofString s := rfl

theorem float?_reread {x : Float} (h : ReadsBack x) : float? (ofFloat x).reread = some x := by
  rwa [ReadsBack, read?_write compact_blank, Option.bind_some] at h

theorem natBelow?_reread {n bound : Nat} (h : n < bound) (hbound : bound ≤ UInt64.size) :
    natBelow? bound (ofNat n).reread = some n := by
  have hread : (ofNat n).reread = ofNat n := by
    show number (Numeral.ofNat n).reread = _
    rw [Numeral.reread_ofNat (Nat.lt_of_lt_of_le h hbound)]
    rfl
  rw [hread]
  simp [natBelow?, ofNat, Numeral.ofNat, Numeral.toNat?, h]

theorem count64?_reread {n : Nat} (h : n < UInt64.size) : count64? (ofNat n).reread = some n :=
  natBelow?_reread h (Nat.le_refl _)

theorem count32?_reread {n : Nat} (h : n < UInt32.size) : count32? (ofNat n).reread = some n :=
  natBelow?_reread h (by decide)

theorem nullable?_eq {τ : Type} {value? : Json → Option τ} {j : Json} {v : τ}
    (hnull : value? null = none) (h : value? j = some v) : nullable? value? j = some (some v) := by
  cases j with
  | null =>
    rw [hnull] at h
    cases h
  | _ => simp [nullable?, h]

theorem mapM_map_eq_some {τ σ : Type} {f : σ → Option τ} {g : τ → σ} {xs : List τ}
    (h : ∀ x ∈ xs, f (g x) = some x) : (xs.map g).mapM f = some xs := by
  induction xs with
  | nil => rfl
  | cons x xs ih =>
    have hrest := ih fun y hy => h y (List.mem_cons_of_mem _ hy)
    rw [List.map_cons, List.mapM_cons, h x List.mem_cons_self, hrest]
    rfl

theorem list?_reread {τ : Type} {item? : Json → Option τ} {toJson : τ → Json} {xs : List τ}
    (h : ∀ x ∈ xs, item? (toJson x).reread = some x) :
    list? item? (array (xs.map toJson)).reread = some xs := by
  rw [reread_array, list?, List.map_map]
  exact mapM_map_eq_some h

end Json

theorem Instant.ofJson?_reread {i : Instant} (h : i.Plain) :
    ofJson? (Json.ofString i.text).reread = some i := by
  rw [Json.reread_ofString, ofJson?, Json.ofString, Json.string?, Option.bind_some, read?_text h]

/-! ## Records -/

namespace Record

theorem gather?_eq (rename : String → Option String) {members found : List (String × Json)}
    (hrename : ∀ m ∈ members, rename m.1 = some m.1)
    (hnames : ((found.reverse ++ members).map (·.1)).Nodup) :
    gather? rename (members.map fun m => (some m.1, m.2)) found = some (found.reverse ++ members) := by
  induction members generalizing found with
  | nil => rw [List.map_nil, gather?, List.append_nil]
  | cons m members ih =>
    have hnew : found.lookup m.1 = none := by
      rw [List.lookup_eq_none_iff]
      intro p hp
      simp only [List.map_append, List.map_cons, List.nodup_append] at hnames
      have hne := hnames.2.2 p.1 (List.mem_map_of_mem (List.mem_reverse.2 hp)) m.1 List.mem_cons_self
      simpa using Ne.symm hne
    have hrest : (((m :: found).reverse ++ members).map (·.1)).Nodup := by simpa using hnames
    have hnext := ih (fun p hp => hrename p (List.mem_cons_of_mem _ hp)) hrest
    rw [List.map_cons, gather?, hrename m List.mem_cons_self]
    simp only [hnew, Option.isSome_none, Bool.false_eq_true, if_false]
    simpa using hnext

theorem read?_reread_of_sublist {names : List String} {aliases : List (String × String)}
    {members : List (String × Json)} (hmembers : (members.map (·.1)).Sublist names)
    (hnames : names.Nodup) :
    read? names aliases (Json.ofMembers members).reread =
      some ⟨members.map fun m => (m.1, m.2.reread)⟩ := by
  obtain ⟨found, hfound⟩ : ∃ found, found = members.map fun m => (m.1, m.2.reread) := ⟨_, rfl⟩
  have hsame : found.map (·.1) = members.map (·.1) := by
    rw [hfound, List.map_map]
    rfl
  let rename := fun s => if s ∈ names then some s else aliases.lookup s
  have hknown : ∀ m ∈ found, rename m.1 = some m.1 := by
    intro m hm
    exact if_pos (hmembers.subset (hsame ▸ List.mem_map_of_mem hm))
  have hdistinct : ((([] : List (String × Json)).reverse ++ found).map (·.1)).Nodup := by
    rw [List.reverse_nil, List.nil_append, hsame]
    exact hnames.sublist hmembers
  have hgather := gather?_eq rename hknown hdistinct
  rw [Json.reread_ofMembers, ← hfound, Json.ofMembers, read?, hgather]
  rfl

theorem read?_reread {names : List String} {aliases : List (String × String)}
    {members : List (String × Json)} (hmembers : members.map (·.1) = names) (hnames : names.Nodup) :
    read? names aliases (Json.ofMembers members).reread =
      some ⟨members.map fun m => (m.1, m.2.reread)⟩ :=
  read?_reread_of_sublist (hmembers ▸ .refl _) hnames

theorem required_eq {τ : Type} {r : Record} {name : String} {value? : Json → Option τ} {j : Json}
    {v : τ} (hj : r.get? name = some j) (hv : value? j = some v) :
    r.required name value? = some v := by
  rw [required, hj, Option.bind_some, hv]

theorem optional_eq {τ : Type} {r : Record} {name : String} {value? : Json → Option τ} {j : Json}
    {v : Option τ} (hj : r.get? name = some j) (hv : Json.nullable? value? j = some v) :
    r.optional name value? = some v := by
  rw [optional, withDefault, hj]
  exact hv

end Record

theorem Debt.ofJson?_reread {d : Debt Float} (h : ∀ x ∈ d.numbers, ReadsBack x) :
    ofJson? d.toJson.reread = some d := by
  have hread := fun x hx => Json.float?_reread (h x hx)
  simp only [numbers, List.forall_mem_cons] at hread
  obtain ⟨hhours, hratio, hdensity, hinterest, hpayback, -⟩ := hread
  have htrend : DebtTrend.ofJson? (Json.ofString d.trend.key).reread = some d.trend :=
    DebtTrend.named?_key d.trend
  have hrecord : Record.read? fieldNames [] d.toJson.reread = some _ :=
    Record.read?_reread rfl (by decide)
  rw [ofJson?, hrecord]
  refine Option.bind_eq_some_iff.2 ⟨_, rfl, ?_⟩
  refine Option.bind_eq_some_iff.2 ⟨_, Record.required_eq rfl hhours, ?_⟩
  refine Option.bind_eq_some_iff.2 ⟨_, Record.required_eq rfl hratio, ?_⟩
  refine Option.bind_eq_some_iff.2 ⟨_, Record.required_eq rfl hdensity, ?_⟩
  refine Option.bind_eq_some_iff.2 ⟨_, Record.required_eq rfl hinterest, ?_⟩
  refine Option.bind_eq_some_iff.2 ⟨_, Record.required_eq rfl hpayback, ?_⟩
  refine Option.bind_eq_some_iff.2 ⟨_, Record.required_eq rfl htrend, ?_⟩
  rfl

theorem Profile.ofJson?_reread {p : Profile Float} (h : ∀ x ∈ p.numbers, ReadsBack x)
    (hcounts : ∀ n ∈ p.counts, n < UInt64.size) : ofJson? p.toJson.reread = some p := by
  have hread := fun x hx => Json.float?_reread (h x hx)
  simp only [numbers, List.forall_mem_cons] at hread
  obtain ⟨hindex, hcyclomatic, hcognitive, -⟩ := hread
  have hlines := Json.count64?_reread (hcounts p.lines (by simp [counts]))
  have hfiles := Json.count64?_reread (hcounts p.files (by simp [counts]))
  have hrating : Grade.ofJson? (Json.ofString p.rating.letter).reread = some p.rating :=
    Grade.named?_letter p.rating
  have hrecord : Record.read? fieldNames [] p.toJson.reread = some _ :=
    Record.read?_reread rfl (by decide)
  rw [ofJson?, hrecord]
  refine Option.bind_eq_some_iff.2 ⟨_, rfl, ?_⟩
  refine Option.bind_eq_some_iff.2 ⟨_, Record.required_eq rfl hindex, ?_⟩
  refine Option.bind_eq_some_iff.2 ⟨_, Record.required_eq rfl hcyclomatic, ?_⟩
  refine Option.bind_eq_some_iff.2 ⟨_, Record.required_eq rfl hcognitive, ?_⟩
  refine Option.bind_eq_some_iff.2 ⟨_, Record.required_eq rfl hlines, ?_⟩
  refine Option.bind_eq_some_iff.2 ⟨_, Record.required_eq rfl hfiles, ?_⟩
  refine Option.bind_eq_some_iff.2 ⟨_, Record.required_eq rfl hrating, ?_⟩
  rfl

theorem Projection.ofJson?_reread {p : Projection Float} (h : ∀ x ∈ p.numbers, ReadsBack x)
    (hperiod : p.period < UInt32.size) : ofJson? p.toJson.reread = some p := by
  have hscore := Json.float?_reread (h p.score (by simp [numbers]))
  have hconfidence := Json.float?_reread (h p.confidence (by simp [numbers]))
  have hweeks := Json.count32?_reread hperiod
  have hrecord : Record.read? fieldNames [] p.toJson.reread = some _ :=
    Record.read?_reread rfl (by decide)
  rw [ofJson?, hrecord]
  refine Option.bind_eq_some_iff.2 ⟨_, rfl, ?_⟩
  refine Option.bind_eq_some_iff.2 ⟨_, Record.required_eq rfl hweeks, ?_⟩
  refine Option.bind_eq_some_iff.2 ⟨_, Record.required_eq rfl hscore, ?_⟩
  refine Option.bind_eq_some_iff.2 ⟨_, Record.required_eq rfl hconfidence, ?_⟩
  rfl

theorem Trend.ofJson?_reread {t : Trend Float} (h : ∀ x ∈ t.numbers, ReadsBack x)
    (hperiods : ∀ p ∈ t.projections, p.period < UInt32.size) : ofJson? t.toJson.reread = some t := by
  have hprojections : Json.list? Projection.ofJson?
      (Json.array (t.projections.map (·.toJson))).reread = some t.projections := by
    refine Json.list?_reread fun p hp => Projection.ofJson?_reread (fun x hx => h x ?_) (hperiods p hp)
    exact List.mem_append_right _ (List.mem_flatMap.2 ⟨p, hp, hx⟩)
  have hread := fun x hx => Json.float?_reread (h x (List.mem_append_left _ hx))
  simp only [List.forall_mem_cons] at hread
  obtain ⟨hvelocity, hvolatility, himprovement, hrisk, hstability, hpredicted, -⟩ := hread
  have hdirection : Direction.ofJson? (Json.ofString t.direction.key).reread = some t.direction :=
    Direction.named?_key t.direction
  have hrecord : Record.read? fieldNames [] t.toJson.reread = some _ :=
    Record.read?_reread rfl (by decide)
  rw [ofJson?, hrecord]
  refine Option.bind_eq_some_iff.2 ⟨_, rfl, ?_⟩
  refine Option.bind_eq_some_iff.2 ⟨_, Record.required_eq rfl hdirection, ?_⟩
  refine Option.bind_eq_some_iff.2 ⟨_, Record.required_eq rfl hvelocity, ?_⟩
  refine Option.bind_eq_some_iff.2 ⟨_, Record.required_eq rfl hvolatility, ?_⟩
  refine Option.bind_eq_some_iff.2 ⟨_, Record.required_eq rfl himprovement, ?_⟩
  refine Option.bind_eq_some_iff.2 ⟨_, Record.required_eq rfl hrisk, ?_⟩
  refine Option.bind_eq_some_iff.2 ⟨_, Record.required_eq rfl hstability, ?_⟩
  refine Option.bind_eq_some_iff.2 ⟨_, Record.required_eq rfl hpredicted, ?_⟩
  refine Option.bind_eq_some_iff.2 ⟨_, Record.required_eq rfl hprojections, ?_⟩
  rfl

theorem Health.ofJson?_reread {health : Health} (h : ∀ n ∈ health.counts, n < UInt64.size) :
    ofJson? health.toJson.reread = some health := by
  have hread := fun n hn => Json.count64?_reread (h n hn)
  simp only [counts, List.forall_mem_cons] at hread
  obtain ⟨hissues, herrors, hwarnings, hinfos, hfixable, hunclassified, -⟩ := hread
  have hgrade : Grade.ofJson? (Json.ofString health.grade.letter).reread = some health.grade :=
    Grade.named?_letter health.grade
  have hrecord : Record.read? fieldNames [] health.toJson.reread = some _ :=
    Record.read?_reread rfl (by decide)
  rw [ofJson?, hrecord]
  refine Option.bind_eq_some_iff.2 ⟨_, rfl, ?_⟩
  refine Option.bind_eq_some_iff.2 ⟨_, Record.required_eq rfl hissues, ?_⟩
  refine Option.bind_eq_some_iff.2 ⟨_, Record.required_eq rfl herrors, ?_⟩
  refine Option.bind_eq_some_iff.2 ⟨_, Record.required_eq rfl hwarnings, ?_⟩
  refine Option.bind_eq_some_iff.2 ⟨_, Record.required_eq rfl hinfos, ?_⟩
  refine Option.bind_eq_some_iff.2 ⟨_, Record.required_eq rfl hfixable, ?_⟩
  refine Option.bind_eq_some_iff.2 ⟨_, Record.required_eq rfl hunclassified, ?_⟩
  refine Option.bind_eq_some_iff.2 ⟨_, Record.required_eq rfl hgrade, ?_⟩
  rfl

theorem Forecast.timeToTarget_reread {time : Option Float} (h : ∀ x ∈ time, ReadsBack x) :
    Json.nullable? Json.float? ((time.map Json.ofFloat).getD .null).reread = some time := by
  cases time with
  | none => rfl
  | some x => exact Json.nullable?_eq rfl (Json.float?_reread (h x rfl))

theorem Forecast.ofJson?_reread {f : Forecast Float} (h : ∀ x ∈ f.numbers, ReadsBack x) :
    ofJson? f.toJson.reread = some f := by
  have htexts : ∀ texts : List String,
      Json.list? Json.string? (Json.array (texts.map .ofString)).reread = some texts :=
    fun _ => Json.list?_reread fun _ _ => rfl
  have htime : ∀ x ∈ f.timeToTarget, ReadsBack x := fun x hx =>
    h x (List.mem_append_right _ (Option.mem_toList.2 hx))
  have htime := timeToTarget_reread htime
  have hread := fun x hx => Json.float?_reread (h x (List.mem_append_left _ hx))
  simp only [List.forall_mem_cons] at hread
  obtain ⟨hscore, hconfidence, heffort, -⟩ := hread
  have hrecord : Record.read? fieldNames [] f.toJson.reread = some _ :=
    Record.read?_reread rfl (by decide)
  rw [ofJson?, hrecord]
  refine Option.bind_eq_some_iff.2 ⟨_, rfl, ?_⟩
  refine Option.bind_eq_some_iff.2 ⟨_, Record.required_eq rfl hscore, ?_⟩
  refine Option.bind_eq_some_iff.2 ⟨_, Record.required_eq rfl hconfidence, ?_⟩
  refine Option.bind_eq_some_iff.2 ⟨_, Record.optional_eq rfl htime, ?_⟩
  refine Option.bind_eq_some_iff.2 ⟨_, Record.required_eq rfl heffort, ?_⟩
  refine Option.bind_eq_some_iff.2 ⟨_, Record.required_eq rfl (htexts _), ?_⟩
  refine Option.bind_eq_some_iff.2 ⟨_, Record.required_eq rfl (htexts _), ?_⟩
  rfl

/-- **A snapshot is read as it was written.** -/
theorem Snapshot.ofJson?_reread {s : Snapshot Float} (h : s.Persistable) :
    ofJson? s.toJson.reread = some s := by
  obtain ⟨hnumbers, hcounts, hperiods, hinstant⟩ := h
  simp only [numbers, List.forall_mem_append, List.forall_mem_cons] at hnumbers hcounts
  obtain ⟨⟨⟨⟨hscore, hdebt⟩, hprofile⟩, htrend⟩, hforecast⟩ := hnumbers
  have hscore := Json.float?_reread hscore
  have hdebt := Debt.ofJson?_reread hdebt
  have hprofile := Profile.ofJson?_reread hprofile hcounts.1
  have htrend := Trend.ofJson?_reread htrend hperiods
  have hhealth := Health.ofJson?_reread hcounts.2
  have hforecast := Forecast.ofJson?_reread hforecast
  have hinstant := Instant.ofJson?_reread hinstant
  have hversion : Json.string? (Json.ofString s.version).reread = some s.version := rfl
  have hrecord : Record.read? fieldNames [] s.toJson.reread = some _ :=
    Record.read?_reread rfl (by decide)
  rw [ofJson?, hrecord]
  refine Option.bind_eq_some_iff.2 ⟨_, rfl, ?_⟩
  refine Option.bind_eq_some_iff.2 ⟨_, Record.required_eq rfl hscore, ?_⟩
  refine Option.bind_eq_some_iff.2 ⟨_, Record.required_eq rfl hdebt, ?_⟩
  refine Option.bind_eq_some_iff.2 ⟨_, Record.required_eq rfl hprofile, ?_⟩
  refine Option.bind_eq_some_iff.2 ⟨_, Record.required_eq rfl htrend, ?_⟩
  refine Option.bind_eq_some_iff.2 ⟨_, Record.required_eq rfl hhealth, ?_⟩
  refine Option.bind_eq_some_iff.2 ⟨_, Record.required_eq rfl hforecast, ?_⟩
  refine Option.bind_eq_some_iff.2 ⟨_, Record.required_eq rfl hinstant, ?_⟩
  refine Option.bind_eq_some_iff.2 ⟨_, Record.required_eq rfl hversion, ?_⟩
  rfl

/-! ## What can be read -/

open Binary64 in
theorem Json.isFinite_of_float?_reread {x y : Float} (h : float? (ofFloat x).reread = some y) :
    Scalar.isFinite x = true := by
  -- a value that is no number is written `null`, which is not read as a number
  by_contra hnot
  have hnull : ofFloat x = null := by
    cases hparts : parts x with
    | special value => rw [ofFloat, Numeral.ofFloat?, hparts]
    | finite negative m q =>
      refine absurd ?_ hnot
      show (nonFinite? x).isNone = true
      rw [nonFinite?, hparts]
      rfl
  rw [hnull] at h
  nomatch h

theorem Json.mem_of_list?_reread {τ σ : Type} {item? : Json → Option τ} {toJson : σ → Json}
    {xs : List σ} {ys : List τ} (h : list? item? (array (xs.map toJson)).reread = some ys) :
    ∀ x ∈ xs, ∃ y, item? (toJson x).reread = some y := by
  rw [reread_array, list?] at h
  induction xs generalizing ys with
  | nil => exact nofun
  | cons x xs ih =>
    rw [List.map_cons, List.map_cons, List.mapM_cons] at h
    obtain ⟨y, hy, h⟩ := Option.bind_eq_some_iff.1 h
    obtain ⟨ys', hys, -⟩ := Option.bind_eq_some_iff.1 h
    intro z hz
    rcases List.mem_cons.1 hz with rfl | hz
    · exact ⟨y, hy⟩
    · exact ih hys z hz

theorem Profile.isFinite_of_ofJson? {p p' : Profile Float} (h : ofJson? p.toJson.reread = some p') :
    ∀ x ∈ p.numbers, Scalar.isFinite x = true := by
  have hrecord : Record.read? fieldNames [] p.toJson.reread = some _ :=
    Record.read?_reread rfl (by decide)
  rw [ofJson?, hrecord] at h
  obtain ⟨r, hr, h⟩ := Option.bind_eq_some_iff.1 h
  obtain rfl := Option.some.inj hr
  obtain ⟨index, hindex, h⟩ := Option.bind_eq_some_iff.1 h
  obtain ⟨cyclomatic, hcyclomatic, h⟩ := Option.bind_eq_some_iff.1 h
  obtain ⟨cognitive, hcognitive, -⟩ := Option.bind_eq_some_iff.1 h
  simp only [numbers, List.forall_mem_cons]
  exact ⟨Json.isFinite_of_float?_reread hindex, Json.isFinite_of_float?_reread hcyclomatic,
    Json.isFinite_of_float?_reread hcognitive, nofun⟩

theorem Snapshot.profile_of_ofJson? {s s' : Snapshot Float} (h : ofJson? s.toJson.reread = some s') :
    ∃ p, Profile.ofJson? s.profile.toJson.reread = some p := by
  have hrecord : Record.read? fieldNames [] s.toJson.reread = some _ :=
    Record.read?_reread rfl (by decide)
  rw [ofJson?, hrecord] at h
  obtain ⟨r, hr, h⟩ := Option.bind_eq_some_iff.1 h
  obtain rfl := Option.some.inj hr
  obtain ⟨score, -, h⟩ := Option.bind_eq_some_iff.1 h
  obtain ⟨debt, -, h⟩ := Option.bind_eq_some_iff.1 h
  obtain ⟨profile, hprofile, -⟩ := Option.bind_eq_some_iff.1 h
  exact ⟨profile, hprofile⟩

end CodeQuality
