import CodeQuality.Config.Search

/-!
# Which file decides the configuration

`Config.nearest_decides`: the nearest configuration file that can be read decides, if it is accepted.
If it is refused, the search goes on behind it as if it were not there, so that the standard
configuration comes out exactly if no file farther away is accepted, or the first such file gives the
standard configuration itself. What cannot be read is passed over, and nothing beyond the searched
directories matters.

The search is `List.findSome?` on the directories. A directory answers if its file can be read
(`textIn?`) and its text is accepted (`Accepted`); both a file that is missing and one that is refused
are no answer, which is why a refusal cannot end the search.
-/

namespace CodeQuality.Config

open Files

variable {files : Entry} {directories farther : List String} {start directory text : String}
  {config : Config Float}

/-! ## What a directory holds -/

/-- The text of the configuration file in a directory, if it can be read. -/
def textIn? (files : Entry) (directory : String) : Option String :=
  (files.readText (join directory fileName)).toOption

/-- The file in a directory gives a configuration. -/
def Accepted (files : Entry) (directory : String) (config : Config Float) : Prop :=
  ∃ text notices, textIn? files directory = some text ∧ parse text = .ok (config, notices)

theorem inDirectory?_eq (files : Entry) (directory : String) :
    inDirectory? files directory =
      (textIn? files directory).bind fun text => (parse text).toOption.map Prod.fst := by
  rw [inDirectory?, load, textIn?]
  cases files.readText (join directory fileName) with
  | error fault => rfl
  | ok text =>
    show ((parse text).map Prod.fst).toOption = (parse text).toOption.map Prod.fst
    cases parse text <;> rfl

theorem accepted_iff : Accepted files directory config ↔ inDirectory? files directory = some config := by
  rw [inDirectory?_eq, Option.bind_eq_some_iff]
  constructor
  · rintro ⟨text, notices, htext, hparse⟩
    exact ⟨text, htext, by rw [hparse]; rfl⟩
  · rintro ⟨text, htext, h⟩
    cases hparse : parse text with
    | error e =>
      rw [hparse] at h
      nomatch h
    | ok result =>
      rw [hparse] at h
      obtain rfl : result.1 = config := Option.some.inj h
      exact ⟨text, result.2, htext, hparse⟩

theorem inDirectory?_eq_none_iff :
    inDirectory? files directory = none ↔ ∀ config, ¬ Accepted files directory config := by
  rw [Option.eq_none_iff_forall_ne_some]
  exact forall_congr' fun config => not_congr accepted_iff.symm

theorem inDirectory?_of_unread (h : textIn? files directory = none) :
    inDirectory? files directory = none := by
  rw [inDirectory?_eq, h, Option.bind_none]

theorem inDirectory?_of_refused {e : Error} (htext : textIn? files directory = some text)
    (hrefused : parse text = .error e) : inDirectory? files directory = none := by
  rw [inDirectory?_eq, htext, Option.bind_some, hrefused]
  rfl

/-! ## Going through directories -/

/-- Of some directories the first with an accepted file gives a configuration. -/
def FirstAccepted (files : Entry) (directories : List String) (config : Config Float) : Prop :=
  ∃ nearer directory farther, directories = nearer ++ directory :: farther ∧
    (∀ d ∈ nearer, ∀ c, ¬ Accepted files d c) ∧ Accepted files directory config

/-- Of some directories the first whose file can be read holds `text`, and `farther` are those behind
it. -/
def Nearest (files : Entry) (directories : List String) (text : String) (farther : List String) :
    Prop :=
  ∃ nearer directory, directories = nearer ++ directory :: farther ∧
    (∀ d ∈ nearer, textIn? files d = none) ∧ textIn? files directory = some text

theorem firstAccepted_iff :
    FirstAccepted files directories config ↔
      directories.findSome? (inDirectory? files) = some config := by
  rw [List.findSome?_eq_some_iff]
  constructor
  · rintro ⟨nearer, directory, farther, hsplit, hnearer, haccepted⟩
    exact ⟨nearer, directory, farther, hsplit, accepted_iff.1 haccepted,
      fun d hd => inDirectory?_eq_none_iff.2 (hnearer d hd)⟩
  · rintro ⟨nearer, directory, farther, hsplit, haccepted, hnearer⟩
    exact ⟨nearer, directory, farther, hsplit,
      fun d hd => inDirectory?_eq_none_iff.1 (hnearer d hd), accepted_iff.2 haccepted⟩

theorem search_of_firstAccepted (h : FirstAccepted files (ancestors searchDepth start) config) :
    search files start = config := by
  rw [search, firstAccepted_iff.1 h, Option.getD_some]

theorem search_of_none (h : ∀ config, ¬ FirstAccepted files (ancestors searchDepth start) config) :
    search files start = standard := by
  have hnone : (ancestors searchDepth start).findSome? (inDirectory? files) = none :=
    Option.eq_none_iff_forall_ne_some.2 fun config hconfig => h config (firstAccepted_iff.2 hconfig)
  rw [search, hnone, Option.getD_none]

theorem Nearest.firstAccepted {notices : List (Notice Float)}
    (h : Nearest files directories text farther) (hparse : parse text = .ok (config, notices)) :
    FirstAccepted files directories config := by
  obtain ⟨nearer, directory, hsplit, hunread, htext⟩ := h
  refine ⟨nearer, directory, farther, hsplit, fun d hd => ?_, text, notices, htext, hparse⟩
  exact inDirectory?_eq_none_iff.1 (inDirectory?_of_unread (hunread d hd))

theorem Nearest.firstAccepted_iff_farther {e : Error} (h : Nearest files directories text farther)
    (hrefused : parse text = .error e) :
    FirstAccepted files directories config ↔ FirstAccepted files farther config := by
  obtain ⟨nearer, directory, rfl, hunread, htext⟩ := h
  have hnearer : nearer.findSome? (inDirectory? files) = none :=
    List.findSome?_eq_none_iff.2 fun d hd => inDirectory?_of_unread (hunread d hd)
  rw [firstAccepted_iff, firstAccepted_iff, List.findSome?_append, hnearer, Option.none_or,
    List.findSome?_cons, inDirectory?_of_refused htext hrefused]

/-! ## The search -/

theorem length_ancestors_le (depth : Nat) (path : String) : (ancestors depth path).length ≤ depth := by
  induction depth generalizing path with
  | zero => exact Nat.le_refl _
  | succ depth ih =>
    rw [ancestors, List.length_cons, Nat.add_le_add_iff_right]
    cases parent? path with
    | none => exact Nat.zero_le _
    | some up => exact ih up

theorem search_congr {files' : Entry}
    (h : ∀ d ∈ ancestors searchDepth start, textIn? files' d = textIn? files d) :
    search files' start = search files start := by
  have hsame : ∀ d ∈ ancestors searchDepth start, inDirectory? files' d = inDirectory? files d := by
    intro d hd
    rw [inDirectory?_eq, inDirectory?_eq, h d hd]
  have hfirst := congrArg (List.findSome? id) (List.map_congr_left hsame)
  rw [List.findSome?_map, List.findSome?_map, Function.id_comp, Function.id_comp] at hfirst
  rw [search, search, hfirst]

/-- **Which file decides.** If the nearest file that can be read is accepted, its configuration comes
out, whatever stands farther away. If it is refused, the first accepted file behind it decides, and the
standard configuration comes out exactly if there is none that gives another one. Without a file that
can be read the standard configuration comes out. At most ten directories are searched, and nothing but
the texts in them matters. -/
theorem nearest_decides (files : Entry) (start : String) :
    (∀ text farther, Nearest files (ancestors searchDepth start) text farther →
      (∀ config notices, parse text = .ok (config, notices) → search files start = config) ∧
      ∀ e, parse text = .error e →
        (∀ config, FirstAccepted files farther config → search files start = config) ∧
        (search files start = standard ↔
          ∀ config, FirstAccepted files farther config → config = standard)) ∧
    ((∀ d ∈ ancestors searchDepth start, textIn? files d = none) → search files start = standard) ∧
    (ancestors searchDepth start).length ≤ 10 ∧
    ∀ files', (∀ d ∈ ancestors searchDepth start, textIn? files' d = textIn? files d) →
      search files' start = search files start := by
  refine ⟨fun text farther hnearest => ⟨fun config notices hparse => ?_, fun e hrefused => ?_⟩,
    fun hunread => ?_, length_ancestors_le _ _, fun files' h => search_congr h⟩
  · exact search_of_firstAccepted (hnearest.firstAccepted hparse)
  · have hfarther : ∀ config, FirstAccepted files farther config → search files start = config :=
      fun config h => search_of_firstAccepted ((hnearest.firstAccepted_iff_farther hrefused).2 h)
    refine ⟨hfarther, fun h config hconfig => (hfarther config hconfig).symm.trans h, fun h => ?_⟩
    by_cases hsome : ∃ config, FirstAccepted files farther config
    · obtain ⟨config, hconfig⟩ := hsome
      exact (hfarther config hconfig).trans (h config hconfig)
    · refine search_of_none fun config hconfig => hsome ⟨config, ?_⟩
      exact (hnearest.firstAccepted_iff_farther hrefused).1 hconfig
  · refine search_of_none ?_
    rintro config ⟨nearer, directory, farther, hsplit, -, text, notices, htext, -⟩
    rw [hunread directory (by simp [hsplit])] at htext
    nomatch htext

/-- A directory with a configuration of a team of seven, and in it one with another file. -/
def nested (inner : String) : Entry :=
  .directory
    [(fileName, .file "team_size = 7\n".toUTF8),
      ("a", .directory [(fileName, .file inner.toUTF8), ("b", .directory [])])]

theorem ancestors_inner : ancestors searchDepth "a/b" = ["a/b", "a", ""] := by decide +kernel

theorem nearest_inner {inner : String} (h : textIn? (nested inner) "a" = some inner)
    (hempty : textIn? (nested inner) "a/b" = none) :
    Nearest (nested inner) (ancestors searchDepth "a/b") inner [""] := by
  refine ⟨["a/b"], "a", ancestors_inner, ?_, h⟩
  rintro d hd
  rw [List.mem_singleton.1 hd]
  exact hempty

/-- The nearer of two accepted files decides. -/
theorem nearest_decides_eight :
    ∃ config notices, Nearest (nested "team_size = 8") (ancestors searchDepth "a/b") "team_size = 8" [""] ∧
      parse "team_size = 8" = .ok (config, notices) ∧
      search (nested "team_size = 8") "a/b" = config := by
  have hnearest : Nearest (nested "team_size = 8") (ancestors searchDepth "a/b") "team_size = 8" [""] :=
    nearest_inner (by decide +kernel) (by decide +kernel)
  have hok : (parse "team_size = 8").toOption.isSome = true := by decide +kernel
  cases hparse : parse "team_size = 8" with
  | error e =>
    rw [hparse] at hok
    nomatch hok
  | ok result =>
    exact ⟨result.1, result.2, hnearest, rfl,
      ((nearest_decides _ _).1 _ _ hnearest).1 result.1 result.2 hparse⟩

/-- A nearer file that is refused, for its team of nobody, does not lead to the standard configuration:
the file in the directory above is used. -/
theorem refused_passed_over :
    Nearest (nested "team_size = 0") (ancestors searchDepth "a/b") "team_size = 0" [""] ∧
      (∃ e, parse "team_size = 0" = .error e) ∧
      (search (nested "team_size = 0") "a/b").teamSize = 7 ∧
      search (nested "team_size = 0") "a/b" ≠ standard := by
  have hnearest : Nearest (nested "team_size = 0") (ancestors searchDepth "a/b") "team_size = 0" [""] :=
    nearest_inner (by decide +kernel) (by decide +kernel)
  have hrefused : (parse "team_size = 0").toOption.isNone = true := by decide +kernel
  have hseven : (parse "team_size = 7\n").toOption.map (fun result => result.1.teamSize) = some 7 := by
    decide +kernel
  have hroot : textIn? (nested "team_size = 0") "" = some "team_size = 7\n" := by decide +kernel
  cases herror : parse "team_size = 0" with
  | ok result =>
    rw [herror] at hrefused
    nomatch hrefused
  | error e =>
    cases hparse : parse "team_size = 7\n" with
    | error e' =>
      rw [hparse] at hseven
      nomatch hseven
    | ok result =>
      rw [hparse] at hseven
      have haccepted : FirstAccepted (nested "team_size = 0") [""] result.1 :=
        ⟨[], "", [], rfl, nofun, _, result.2, hroot, hparse⟩
      have hsearch := search_of_firstAccepted ((hnearest.firstAccepted_iff_farther herror).2 haccepted)
      have hteam : (search (nested "team_size = 0") "a/b").teamSize = 7 :=
        hsearch ▸ Option.some.inj hseven
      refine ⟨hnearest, ⟨e, rfl⟩, hteam, fun hstandard => ?_⟩
      rw [hstandard] at hteam
      nomatch hteam

end CodeQuality.Config
