import CodeQuality.Proofs.Wire.Form
import CodeQuality.Wire.Measurement

/-!
# Reading analyses and measurements

Analyses, their issues and their metrics, and the measurements of files are read as they were written,
whatever members were left out; and those that are read have leaves of their types.
-/

namespace CodeQuality

open Leaf

/-! ## Issues -/

namespace Issue

def leaves (issue : Issue) : List Leaf :=
  (issue.line.toList ++ issue.column.toList).map (.count UInt64.size)

/-- The members of the form of an issue. -/
def members (issue : Issue) : List (String × Json) :=
  [("severity", .ofString issue.severity.key), ("file", .ofString issue.file)] ++
    Json.member? "line" (issue.line.map .ofNat) ++
    Json.member? "column" (issue.column.map .ofNat) ++
    [("message", .ofString issue.message)] ++
    Json.member? "rule" (issue.rule.map .ofString) ++
    [("fixable", .bool issue.fixable)]

theorem names_members (issue : Issue) : (issue.members.map (·.1)).Sublist fieldNames := by
  simp only [members, List.map_append]
  have hfront : ["severity", "file"].Sublist ["severity", "file"] := .refl _
  exact ((((hfront.append (Record.names_member? "line" _)).append
    (Record.names_member? "column" _)).append (.refl ["message"])).append
      (Record.names_member? "rule" _)).append (.refl ["fixable"])

theorem lookup_members (issue : Issue) :
    issue.members.lookup "severity" = some (.ofString issue.severity.key) ∧
      issue.members.lookup "file" = some (.ofString issue.file) ∧
      issue.members.lookup "line" = issue.line.map .ofNat ∧
      issue.members.lookup "column" = issue.column.map .ofNat ∧
      issue.members.lookup "message" = some (.ofString issue.message) ∧
      issue.members.lookup "rule" = issue.rule.map .ofString ∧
      issue.members.lookup "fixable" = some (.bool issue.fixable) := by
  simp [members, List.lookup_append, Metrics.lookup_cons_eq, Record.lookup_member?]

theorem ofJson?_reread {issue : Issue} (h : ∀ l ∈ issue.leaves, l.Exact) :
    ofJson? issue.toJson.reread = some issue := by
  simp only [leaves, List.forall_mem_map, List.forall_mem_append, Option.mem_toList] at h
  obtain ⟨hline, hcolumn⟩ := h
  have htext : ∀ s : String, Json.string? (Json.ofString s).reread = some s := fun _ => rfl
  have hkey : Severity.ofJson? (Json.ofString issue.severity.key).reread = some issue.severity :=
    Severity.named?_key issue.severity
  obtain ⟨hseverity, hfile, hatLine, hatColumn, hmessage, hrule, hfixable⟩ := issue.lookup_members
  have hrecord : Record.read? fieldNames [] issue.toJson.reread = some _ :=
    Record.read?_reread_of_sublist issue.names_members (by decide)
  rw [ofJson?, hrecord]
  refine Option.bind_eq_some_iff.2 ⟨_, rfl, ?_⟩
  refine Option.bind_eq_some_iff.2 ⟨_, Record.required_reread hseverity hkey, ?_⟩
  refine Option.bind_eq_some_iff.2 ⟨_, Record.required_reread hfile (htext _), ?_⟩
  refine Option.bind_eq_some_iff.2 ⟨_, Record.optional_reread rfl hatLine fun n hn =>
    Json.count64?_reread (hline n hn).lt, ?_⟩
  refine Option.bind_eq_some_iff.2 ⟨_, Record.optional_reread rfl hatColumn fun n hn =>
    Json.count64?_reread (hcolumn n hn).lt, ?_⟩
  refine Option.bind_eq_some_iff.2 ⟨_, Record.required_reread hmessage (htext _), ?_⟩
  refine Option.bind_eq_some_iff.2 ⟨_, Record.optional_reread rfl hrule fun s _ => htext s, ?_⟩
  exact Option.bind_eq_some_iff.2 ⟨_, Record.withDefault_reread hfixable rfl, rfl⟩

theorem proper_of_ofJson? {j : Json} {issue : Issue} (h : ofJson? j = some issue) :
    ∀ l ∈ issue.leaves, l.Proper := by
  obtain ⟨r, -, h⟩ := Option.bind_eq_some_iff.1 h
  obtain ⟨severity, -, h⟩ := Option.bind_eq_some_iff.1 h
  obtain ⟨file, -, h⟩ := Option.bind_eq_some_iff.1 h
  obtain ⟨line, hline, h⟩ := Option.bind_eq_some_iff.1 h
  obtain ⟨column, hcolumn, h⟩ := Option.bind_eq_some_iff.1 h
  obtain ⟨message, -, h⟩ := Option.bind_eq_some_iff.1 h
  obtain ⟨rule, -, h⟩ := Option.bind_eq_some_iff.1 h
  obtain ⟨fixable, -, h⟩ := Option.bind_eq_some_iff.1 h
  obtain rfl := Option.some.inj h
  simp only [leaves, List.forall_mem_map, List.forall_mem_append, Option.mem_toList]
  exact ⟨Record.proper_of_optional Json.proper_of_count64? hline,
    Record.proper_of_optional Json.proper_of_count64? hcolumn⟩

end Issue

/-! ## Metrics -/

namespace Metrics

def leaves (metrics : Metrics Float) : List Leaf := metrics.entries.map fun entry => .number entry.2

section entries

variable {α : Type} {key : String} {value : α} {entry : String × α}

theorem setEntry_of_forall_lt {entries : List (String × α)} (h : ∀ e ∈ entries, e.1 < key) :
    setEntry key value entries = entries ++ [(key, value)] := by
  induction entries with
  | nil => rfl
  | cons first rest ih =>
    obtain ⟨hfirst, hrest⟩ := List.forall_mem_cons.1 h
    rw [setEntry, if_neg (String.lt_asymm hfirst), if_pos hfirst, ih hrest, List.cons_append]

theorem entries_foldl_set {metrics : Metrics α} {entries : List (String × α)}
    (h : (metrics.entries ++ entries).Pairwise fun a b => a.1 < b.1) :
    (entries.foldl (fun metrics entry => metrics.set entry.1 entry.2) metrics).entries =
      metrics.entries ++ entries := by
  induction entries generalizing metrics with
  | nil => exact (List.append_nil _).symm
  | cons entry entries ih =>
    have hlt : ∀ e ∈ metrics.entries, e.1 < entry.1 := fun e he =>
      (List.pairwise_append.1 h).2.2 e he entry List.mem_cons_self
    have hset : (metrics.set entry.1 entry.2).entries = metrics.entries ++ [entry] :=
      setEntry_of_forall_lt hlt
    have hsplit : metrics.entries ++ entry :: entries =
        (metrics.set entry.1 entry.2).entries ++ entries := by
      rw [hset, List.append_assoc, List.singleton_append]
    rw [List.foldl_cons, hsplit]
    exact ih (hsplit ▸ h)

theorem ofList_entries (metrics : Metrics α) : ofList metrics.entries = metrics :=
  Metrics.ext (entries_foldl_set metrics.sorted)

theorem mem_foldl_set {metrics : Metrics α} {entries : List (String × α)}
    (h : entry ∈ (entries.foldl (fun metrics entry => metrics.set entry.1 entry.2) metrics).entries) :
    entry ∈ metrics.entries ∨ entry ∈ entries := by
  induction entries generalizing metrics with
  | nil => exact .inl h
  | cons first rest ih =>
    rcases ih h with hset | hrest
    · rcases mem_setEntry hset with rfl | hold
      · exact .inr List.mem_cons_self
      · exact .inl hold
    · exact .inr (List.mem_cons_of_mem _ hrest)

theorem mem_of_mem_ofList {entries : List (String × α)} (h : entry ∈ (ofList entries).entries) :
    entry ∈ entries :=
  (mem_foldl_set h).resolve_left List.not_mem_nil

end entries

theorem ofJson?_reread {metrics : Metrics Float} (h : ∀ l ∈ metrics.leaves, l.Exact) :
    ofJson? Json.float? metrics.toJson.reread = some metrics := by
  have hentries : ∀ entry ∈ metrics.entries, Json.float? (Json.ofFloat entry.2).reread = some entry.2 :=
    fun entry hentry => (h _ (List.mem_map_of_mem hentry)).float?_reread
  rw [toJson, Json.reread_ofMembers, Json.ofMembers, ofJson?, List.map_map, List.map_map,
    Json.mapM_map_eq_some]
  · rw [Option.bind_eq_bind, Option.bind_some, ofList_entries]
    rfl
  · intro entry hentry
    refine Option.bind_eq_some_iff.2 ⟨_, rfl, ?_⟩
    exact Option.bind_eq_some_iff.2 ⟨_, hentries entry hentry, rfl⟩

theorem proper_of_ofJson? {j : Json} {metrics : Metrics Float}
    (h : ofJson? Json.float? j = some metrics) : ∀ l ∈ metrics.leaves, l.Proper := by
  cases j with
  | object members =>
    obtain ⟨entries, hentries, h⟩ := Option.bind_eq_some_iff.1 h
    obtain rfl := Option.some.inj h
    have hproper : ∀ entry ∈ entries, (number entry.2).Proper := by
      refine Json.forall_of_mapM ?_ hentries
      intro m entry hm
      obtain ⟨key, -, hm⟩ := Option.bind_eq_some_iff.1 hm
      obtain ⟨value, hvalue, hm⟩ := Option.bind_eq_some_iff.1 hm
      obtain rfl := Option.some.inj hm
      exact Json.proper_of_float? hvalue
    simp only [leaves, List.forall_mem_map]
    exact fun entry hentry => hproper entry (mem_of_mem_ofList hentry)
  | _ => cases h

end Metrics

/-! ## Analyses -/

namespace Analysis

def leaves (a : Analysis Float) : List Leaf :=
  a.score.toList.map .number ++ a.issues.flatMap (·.leaves) ++ a.metrics.leaves

/-- The members of the form of an analysis. -/
def members (a : Analysis Float) : List (String × Json) :=
  Json.member? "category" (a.category.map fun c => .ofString c.key) ++
    Json.member? "score" (a.score.map .ofFloat) ++
    [("issues", .array (a.issues.map (·.toJson))),
      ("suggestions", .array (a.suggestions.map .ofString)),
      ("metrics", a.metrics.toJson)]

theorem names_members (a : Analysis Float) : (a.members.map (·.1)).Sublist fieldNames := by
  simp only [members, List.map_append]
  exact ((Record.names_member? "category" _).append (Record.names_member? "score" _)).append
    (.refl ["issues", "suggestions", "metrics"])

theorem lookup_members (a : Analysis Float) :
    a.members.lookup "category" = a.category.map (fun c => .ofString c.key) ∧
      a.members.lookup "score" = a.score.map .ofFloat ∧
      a.members.lookup "issues" = some (.array (a.issues.map (·.toJson))) ∧
      a.members.lookup "suggestions" = some (.array (a.suggestions.map .ofString)) ∧
      a.members.lookup "metrics" = some a.metrics.toJson := by
  simp [members, List.lookup_append, Metrics.lookup_cons_eq, Record.lookup_member?]

theorem ofJson?_reread {a : Analysis Float} (h : ∀ l ∈ a.leaves, l.Exact) :
    ofJson? a.toJson.reread = some a := by
  simp only [leaves, List.forall_mem_append, List.forall_mem_map, Option.mem_toList,
    List.forall_mem_flatMap] at h
  obtain ⟨⟨hscore, hissues⟩, hmetrics⟩ := h
  have hissues := Json.list?_reread fun issue hissue => Issue.ofJson?_reread (hissues issue hissue)
  have htexts : Json.list? Json.string? (Json.array (a.suggestions.map .ofString)).reread =
      some a.suggestions := Json.list?_reread fun _ _ => rfl
  obtain ⟨hatCategory, hatScore, hatIssues, hatSuggestions, hatMetrics⟩ := a.lookup_members
  have hrecord : Record.read? fieldNames [] a.toJson.reread = some _ :=
    Record.read?_reread_of_sublist a.names_members (by decide)
  rw [ofJson?, ofJsonWith?, hrecord]
  refine Option.bind_eq_some_iff.2 ⟨_, rfl, ?_⟩
  refine Option.bind_eq_some_iff.2 ⟨_, Record.optional_reread rfl hatCategory fun c _ =>
    Category.named?_key c, ?_⟩
  refine Option.bind_eq_some_iff.2 ⟨_, Record.optional_reread rfl hatScore fun x hx =>
    (hscore x hx).float?_reread, ?_⟩
  refine Option.bind_eq_some_iff.2 ⟨_, Record.required_reread hatIssues hissues, ?_⟩
  refine Option.bind_eq_some_iff.2 ⟨_, Record.withDefault_reread hatSuggestions htexts, ?_⟩
  exact Option.bind_eq_some_iff.2
    ⟨_, Record.required_reread hatMetrics (Metrics.ofJson?_reread hmetrics), rfl⟩

theorem proper_of_ofJson? {j : Json} {a : Analysis Float} (h : ofJson? j = some a) :
    ∀ l ∈ a.leaves, l.Proper := by
  obtain ⟨r, -, h⟩ := Option.bind_eq_some_iff.1 h
  obtain ⟨category, -, h⟩ := Option.bind_eq_some_iff.1 h
  obtain ⟨score, hscore, h⟩ := Option.bind_eq_some_iff.1 h
  obtain ⟨issues, hissues, h⟩ := Option.bind_eq_some_iff.1 h
  obtain ⟨suggestions, -, h⟩ := Option.bind_eq_some_iff.1 h
  obtain ⟨metrics, hmetrics, h⟩ := Option.bind_eq_some_iff.1 h
  obtain rfl := Option.some.inj h
  simp only [leaves, List.forall_mem_append, List.forall_mem_map, Option.mem_toList,
    List.forall_mem_flatMap]
  refine ⟨⟨Record.proper_of_optional Json.proper_of_float? hscore, ?_⟩,
    Record.proper_of_required Metrics.proper_of_ofJson? hmetrics⟩
  exact Record.proper_of_required (Json.proper_of_list? Issue.proper_of_ofJson?) hissues

end Analysis

/-! ## Measurements -/

namespace Measurement

def leaves (m : Measurement) : List Leaf :=
  [.count UInt64.size m.line, .count UInt32.size m.cyclomatic, .count UInt32.size m.cognitive,
    .count UInt64.size m.lines, .count UInt64.size m.parameters]

theorem ofJson?_reread {m : Measurement} (h : ∀ l ∈ m.leaves, l.Exact) :
    ofJson? m.toJson.reread = some m := by
  simp only [leaves, List.forall_mem_cons] at h
  obtain ⟨hline, hcyclomatic, hcognitive, hlines, hparameters, -⟩ := h
  have hname : Json.string? (Json.ofString m.name).reread = some m.name := rfl
  have hkind : Source.DefinitionKind.ofJson? (Json.ofString m.kind.key).reread = some m.kind :=
    Source.DefinitionKind.named?_key m.kind
  have hline := Json.count64?_reread hline.lt
  have hcyclomatic := Json.count32?_reread hcyclomatic.lt
  have hcognitive := Json.count32?_reread hcognitive.lt
  have hlines := Json.count64?_reread hlines.lt
  have hparameters := Json.count64?_reread hparameters.lt
  have hrecord : Record.read? fieldNames [] m.toJson.reread = some _ :=
    Record.read?_reread rfl (by decide)
  rw [ofJson?, hrecord]
  refine Option.bind_eq_some_iff.2 ⟨_, rfl, ?_⟩
  refine Option.bind_eq_some_iff.2 ⟨_, Record.required_eq rfl hname, ?_⟩
  refine Option.bind_eq_some_iff.2 ⟨_, Record.required_eq rfl hkind, ?_⟩
  refine Option.bind_eq_some_iff.2 ⟨_, Record.required_eq rfl hline, ?_⟩
  refine Option.bind_eq_some_iff.2 ⟨_, Record.required_eq rfl hcyclomatic, ?_⟩
  refine Option.bind_eq_some_iff.2 ⟨_, Record.required_eq rfl hcognitive, ?_⟩
  refine Option.bind_eq_some_iff.2 ⟨_, Record.required_eq rfl hlines, ?_⟩
  refine Option.bind_eq_some_iff.2 ⟨_, Record.required_eq rfl hparameters, ?_⟩
  rfl

theorem proper_of_ofJson? {j : Json} {m : Measurement} (h : ofJson? j = some m) :
    ∀ l ∈ m.leaves, l.Proper := by
  obtain ⟨r, -, h⟩ := Option.bind_eq_some_iff.1 h
  obtain ⟨name, -, h⟩ := Option.bind_eq_some_iff.1 h
  obtain ⟨kind, -, h⟩ := Option.bind_eq_some_iff.1 h
  obtain ⟨line, hline, h⟩ := Option.bind_eq_some_iff.1 h
  obtain ⟨cyclomatic, hcyclomatic, h⟩ := Option.bind_eq_some_iff.1 h
  obtain ⟨cognitive, hcognitive, h⟩ := Option.bind_eq_some_iff.1 h
  obtain ⟨lines, hlines, h⟩ := Option.bind_eq_some_iff.1 h
  obtain ⟨parameters, hparameters, h⟩ := Option.bind_eq_some_iff.1 h
  obtain rfl := Option.some.inj h
  simp only [leaves, List.forall_mem_cons]
  exact ⟨Record.proper_of_count64 hline,
    Record.proper_of_count32 hcyclomatic,
    Record.proper_of_count32 hcognitive,
    Record.proper_of_count64 hlines,
    Record.proper_of_count64 hparameters, List.forall_mem_nil _⟩

end Measurement

namespace FileMeasurement

def leaves (file : FileMeasurement Float) : List Leaf :=
  file.definitions.flatMap (·.leaves) ++
    [.count UInt32.size file.cyclomatic, .count UInt32.size file.cognitive,
      .number file.averageCyclomatic, .number file.maintainability, .count UInt64.size file.lines]

theorem ofJson?_reread {file : FileMeasurement Float} (h : ∀ l ∈ file.leaves, l.Exact) :
    ofJson? file.toJson.reread = some file := by
  simp only [leaves, List.forall_mem_append, List.forall_mem_flatMap, List.forall_mem_cons] at h
  obtain ⟨hdefinitions, hcyclomatic, hcognitive, haverage, hmaintainability, hlines, -⟩ := h
  have hpath : Json.string? (Json.ofString file.path).reread = some file.path := rfl
  have hdefinitions := Json.list?_reread fun m hm => Measurement.ofJson?_reread (hdefinitions m hm)
  have hcyclomatic := Json.count32?_reread hcyclomatic.lt
  have hcognitive := Json.count32?_reread hcognitive.lt
  have hlines := Json.count64?_reread hlines.lt
  have hrecord : Record.read? fieldNames [] file.toJson.reread = some _ :=
    Record.read?_reread rfl (by decide)
  rw [ofJson?, hrecord]
  refine Option.bind_eq_some_iff.2 ⟨_, rfl, ?_⟩
  refine Option.bind_eq_some_iff.2 ⟨_, Record.required_eq rfl hpath, ?_⟩
  refine Option.bind_eq_some_iff.2 ⟨_, Record.required_eq rfl hdefinitions, ?_⟩
  refine Option.bind_eq_some_iff.2 ⟨_, Record.required_eq rfl hcyclomatic, ?_⟩
  refine Option.bind_eq_some_iff.2 ⟨_, Record.required_eq rfl hcognitive, ?_⟩
  refine Option.bind_eq_some_iff.2 ⟨_, Record.required_eq rfl haverage.float?_reread, ?_⟩
  refine Option.bind_eq_some_iff.2 ⟨_, Record.required_eq rfl hmaintainability.float?_reread, ?_⟩
  refine Option.bind_eq_some_iff.2 ⟨_, Record.required_eq rfl hlines, ?_⟩
  rfl

theorem proper_of_ofJson? {j : Json} {file : FileMeasurement Float} (h : ofJson? j = some file) :
    ∀ l ∈ file.leaves, l.Proper := by
  obtain ⟨r, -, h⟩ := Option.bind_eq_some_iff.1 h
  obtain ⟨path, -, h⟩ := Option.bind_eq_some_iff.1 h
  obtain ⟨definitions, hdefinitions, h⟩ := Option.bind_eq_some_iff.1 h
  obtain ⟨cyclomatic, hcyclomatic, h⟩ := Option.bind_eq_some_iff.1 h
  obtain ⟨cognitive, hcognitive, h⟩ := Option.bind_eq_some_iff.1 h
  obtain ⟨average, haverage, h⟩ := Option.bind_eq_some_iff.1 h
  obtain ⟨maintainability, hmaintainability, h⟩ := Option.bind_eq_some_iff.1 h
  obtain ⟨lines, hlines, h⟩ := Option.bind_eq_some_iff.1 h
  obtain rfl := Option.some.inj h
  simp only [leaves, List.forall_mem_append, List.forall_mem_flatMap, List.forall_mem_cons]
  exact ⟨Record.proper_of_required (Json.proper_of_list? Measurement.proper_of_ofJson?) hdefinitions,
    Record.proper_of_count32 hcyclomatic,
    Record.proper_of_count32 hcognitive,
    Record.proper_of_number haverage,
    Record.proper_of_number hmaintainability,
    Record.proper_of_count64 hlines, List.forall_mem_nil _⟩

end FileMeasurement

end CodeQuality
