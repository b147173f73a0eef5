import CodeQuality.Config.Search
import CodeQuality.Proofs.Monitor.Session
import CodeQuality.Proofs.Score.Rescaling

/-!
# Configurations that can be used

`Config.usable_iff_repairable`: a configuration that is read from a text counts a team and a history
of at least one, and a monitor starts with it exactly when the weights of the text are repairable and
memory has room for the history. The search through directories ends with such a configuration or the
standard one.

Weights are repairable (`Weights.Repairable`) if they are sound, or cannot be rescaled and are
replaced, or miss the balance by more than the tolerance with a sum that is a number. The repair
leaves two kinds of faulty weights: those whose sum is within the tolerance although one of them is
above `1`, because they count as balanced already, and those whose sum is infinite.

A retention is accepted however large it is. Room for it is reserved when a monitor starts, which ends
the program if there is none: no memory holds the largest retention that a text can give
(`startIn_unreservable`).
-/

namespace CodeQuality

open Scalar

/-! ## Repair -/

/-- The weights that the repair makes sound. -/
def Weights.Repairable (w : Weights Float) : Prop :=
  fault? w = none ∨ isRescalable w = false ∨ isUnbalanced w = true ∧ isFinite (sum w) = true

instance (w : Weights Float) : Decidable (Weights.Repairable w) :=
  inferInstanceAs (Decidable (_ ∨ _ ∨ _ ∧ _))

theorem Weights.fault?_repair_iff {w : Weights Float} (hfault : fault? w ≠ none) :
    fault? (repair w) = none ↔ Repairable w := by
  rw [Repairable, or_iff_right hfault, repair]
  cases hrescalable : isRescalable w with
  | false => simp [Monitor.fault?_standard]
  | true =>
    cases hunbalanced : isUnbalanced w with
    | false =>
      -- the sum is balanced and nothing is divided, so the fault stays
      have : normalize w = w := by
        rw [normalize, hunbalanced, Bool.and_false]
        rfl
      simp [this, hfault]
    | true => simp [fault?_normalize_iff hrescalable hunbalanced]

namespace Config

theorem fault?_repair_iff (config : Config Float) :
    Weights.fault? config.repair.1.weights = none ↔ config.weights.Repairable := by
  unfold repair
  split
  next hsound => exact ⟨fun _ => .inl hsound, fun _ => hsound⟩
  next fault hfault => exact Weights.fault?_repair_iff (by rw [hfault]; simp)

/-! ## Reading -/

/-- The configuration that a text gives, as it stands there. -/
def given? (text : String) : Option (Config Float) := (Toml.read? text).bind ofEntries?

theorem accept_eq_ok {given : Config Float} {result : Config Float × List (Notice Float)}
    (h : given.accept = .ok result) :
    result = given.repair ∧ 1 ≤ given.teamSize ∧ 1 ≤ given.history.window ∧
      1 ≤ given.history.retention := by
  unfold accept at h
  split at h
  · nomatch h
  · split at h
    · nomatch h
    · exact ⟨(Except.ok.inj h).symm, by omega, by omega, by omega⟩

theorem parse_eq_ok {text : String} {result : Config Float × List (Notice Float)}
    (h : parse text = .ok result) : ∃ given, given? text = some given ∧ given.accept = .ok result := by
  unfold parse at h
  split at h
  next given hgiven => exact ⟨given, hgiven, h⟩
  · nomatch h

theorem inDirectory?_eq_some {files : Files.Entry} {directory : String} {config : Config Float}
    (h : inDirectory? files directory = some config) :
    ∃ text notices, files.readText (Files.join directory fileName) = .ok text ∧
      parse text = .ok (config, notices) := by
  unfold inDirectory? load at h
  split at h
  · nomatch h
  next text htext =>
    cases hparse : parse text with
    | error e =>
      rw [hparse] at h
      nomatch h
    | ok result =>
      rw [hparse] at h
      obtain rfl := Option.some.inj h
      exact ⟨text, result.2, htext, hparse⟩

theorem search_cases (files : Files.Entry) (start : String) :
    search files start = standard ∨
      ∃ directory ∈ Files.ancestors searchDepth start,
        inDirectory? files directory = some (search files start) := by
  unfold search
  cases h : (Files.ancestors searchDepth start).findSome? (inDirectory? files) with
  | none => exact .inl rfl
  | some config => exact .inr (List.exists_of_findSome?_eq_some h)

/-! ## Use -/

/-- A configuration that a monitor can work with, where memory has room for a number of snapshots. -/
structure Usable (room : ℕ) (config : Config Float) : Prop where
  sound : Weights.fault? config.weights = none
  team : 1 ≤ config.teamSize
  window : 1 ≤ config.history.window
  retention : 1 ≤ config.history.retention
  starts : ∃ m, Monitor.startIn room config = some (.ok m)

theorem standard_usable_iff (room : ℕ) : Usable room standard ↔ 100 ≤ room :=
  ⟨fun h => (Monitor.exists_startIn_iff.1 h.starts).2, fun h =>
    ⟨Monitor.fault?_standard, by decide, by decide, by decide,
      Monitor.exists_startIn_iff.2 ⟨Monitor.fault?_standard, h⟩⟩⟩

theorem parse_usable {text : String} {config : Config Float} {notices : List (Notice Float)}
    (h : parse text = .ok (config, notices)) :
    1 ≤ config.teamSize ∧ 1 ≤ config.history.window ∧ 1 ≤ config.history.retention ∧
      ∃ given, given? text = some given ∧ config.history = given.history ∧
        (Weights.fault? config.weights = none ↔ given.weights.Repairable) := by
  obtain ⟨given, hgiven, haccept⟩ := parse_eq_ok h
  obtain ⟨hrepair, hteam, hwindow, hretention⟩ := accept_eq_ok haccept
  obtain rfl : config = given.repair.1 := congrArg Prod.fst hrepair
  have hkept : given.repair.1.teamSize = given.teamSize ∧
      given.repair.1.history = given.history := by
    unfold repair
    split <;> exact ⟨rfl, rfl⟩
  rw [hkept.1, hkept.2]
  exact ⟨hteam, hwindow, hretention, given, hgiven, rfl, fault?_repair_iff given⟩

/-- **What can be used of the configurations that are handed out.** A configuration read from a text
has a team, a window and a retention of at least one. Its weights are sound exactly if those of the text
are repairable. A monitor starts with it if, besides, memory has room for as many snapshots as the text
retains; where it has not, the program stops. A search ends with the standard configuration, which can be
used where there is room for a hundred snapshots, or with one that was read, which can be used exactly if
the weights in the file are repairable and there is room for its history. -/
theorem usable_iff_repairable (room : ℕ) (text : String) (files : Files.Entry) (start : String) :
    (∀ config notices, parse text = .ok (config, notices) →
      1 ≤ config.teamSize ∧ 1 ≤ config.history.window ∧ 1 ≤ config.history.retention ∧
      ∃ given, given? text = some given ∧
        (Weights.fault? config.weights = none ↔ given.weights.Repairable) ∧
        ((∃ m, Monitor.startIn room config = some (.ok m)) ↔
          given.weights.Repairable ∧ given.history.retention ≤ room) ∧
        (Monitor.startIn room config = none ↔
          given.weights.Repairable ∧ room < given.history.retention)) ∧
    (search files start = standard ∧ (Usable room (search files start) ↔ 100 ≤ room) ∨
      ∃ directory ∈ Files.ancestors searchDepth start, ∃ found notices given,
        files.readText (Files.join directory fileName) = .ok found ∧
        parse found = .ok (search files start, notices) ∧ given? found = some given ∧
        (Usable room (search files start) ↔
          given.weights.Repairable ∧ given.history.retention ≤ room)) := by
  constructor
  · intro config notices h
    obtain ⟨hteam, hwindow, hretention, given, hgiven, hhistory, hsound⟩ := parse_usable h
    refine ⟨hteam, hwindow, hretention, given, hgiven, hsound, ?_, ?_⟩
    · rw [Monitor.exists_startIn_iff, hsound, max_eq_left hretention, hhistory]
    · rw [Monitor.startIn_eq_none_iff, hsound, max_eq_left hretention, hhistory]
  · rcases search_cases files start with h | ⟨directory, hmem, h⟩
    · exact .inl ⟨h, h ▸ standard_usable_iff room⟩
    · obtain ⟨found, notices, hfound, hparse⟩ := inDirectory?_eq_some h
      obtain ⟨hteam, hwindow, hretention, given, hgiven, hhistory, hsound⟩ := parse_usable hparse
      have hstarts : (∃ m, Monitor.startIn room (search files start) = some (.ok m)) ↔
          given.weights.Repairable ∧ given.history.retention ≤ room := by
        rw [Monitor.exists_startIn_iff, hsound, max_eq_left hretention, hhistory]
      refine .inr ⟨directory, hmem, found, notices, given, hfound, hparse, hgiven, ?_⟩
      exact ⟨fun h => hstarts.1 h.starts,
        fun h => ⟨hsound.2 h.1, hteam, hwindow, hretention, hstarts.2 h⟩⟩

/-- Weights that add up to four. -/
def fourfold : String := "[weights]\ntypeCheck = 1.0\nlint = 1.0\ncoverage = 1.0\ncomplexity = 1.0\n"

theorem usable_iff_repairable_fourfold :
    ∃ config notices, parse fourfold = .ok (config, notices) ∧ Usable 100 config := by
  have hweights : (given? fourfold).map (fun given => (given.weights, given.history.retention)) =
      some (⟨1.0, 1.0, 1.0, 1.0⟩, 100) := by decide +kernel
  have hrepairable : Weights.Repairable ⟨1.0, 1.0, 1.0, 1.0⟩ := by decide +kernel
  have hok : (parse fourfold).toOption.isSome = true := by decide +kernel
  cases hparse : parse fourfold with
  | error e =>
    rw [hparse] at hok
    nomatch hok
  | ok result =>
    obtain ⟨hteam, hwindow, hretention, given, hgiven, hsound, hstarts, -⟩ :=
      (usable_iff_repairable 100 fourfold (.directory []) "").1 result.1 result.2 hparse
    rw [hgiven] at hweights
    obtain ⟨hgivenWeights, hgivenRetention⟩ := Prod.mk.inj (Option.some.inj hweights)
    rw [hgivenWeights] at hsound hstarts
    exact ⟨result.1, result.2, rfl, hsound.2 hrepairable, hteam, hwindow, hretention,
      hstarts.2 ⟨hrepairable, hgivenRetention.le⟩⟩

/-- Weights that are balanced within the tolerance, though one of them is too large. -/
def slightlyAboveOne : String :=
  "[weights]\ntypeCheck = 1.0005\nlint = 0.0\ncoverage = 0.0\ncomplexity = 0.0\n"

/-- Weights that count as balanced are left as they are, and no monitor starts with them, however much
room there is. -/
theorem parse_slightlyAboveOne :
    ∃ config notices, parse slightlyAboveOne = .ok (config, notices) ∧
      Weights.fault? config.weights ≠ none ∧
      ∀ room m, Monitor.startIn room config ≠ some (.ok m) := by
  have hfault : (parse slightlyAboveOne).toOption.any
      (fun result => (Weights.fault? result.1.weights).isSome) = true := by decide +kernel
  cases hparse : parse slightlyAboveOne with
  | error e =>
    rw [hparse] at hfault
    nomatch hfault
  | ok result =>
    rw [hparse] at hfault
    have hne : Weights.fault? result.1.weights ≠ none := Option.isSome_iff_ne_none.1 hfault
    exact ⟨result.1, result.2, rfl, hne, fun room m hm => hne (Monitor.exists_startIn_iff.1 ⟨m, hm⟩).1⟩

/-- The largest retention that a text can give. -/
def largestRetention : String := "[history]\nretention = 9223372036854775807\n"

/-- The largest retention is accepted. Where snapshots take two bytes or more and memory has at most
`2 ^ 63 - 1` of them, the program stops when a monitor is to start. -/
theorem startIn_unreservable :
    ∃ config notices, parse largestRetention = .ok (config, notices) ∧
      Weights.fault? config.weights = none ∧
      ∀ room bytes, 2 ≤ bytes → room * bytes ≤ 2 ^ 63 - 1 → Monitor.startIn room config = none := by
  have hconfig : (parse largestRetention).toOption.any (fun result =>
      (Weights.fault? result.1.weights).isNone &&
        result.1.history.retention == 2 ^ 63 - 1) = true := by decide +kernel
  cases hparse : parse largestRetention with
  | error e =>
    rw [hparse] at hconfig
    nomatch hconfig
  | ok result =>
    rw [hparse] at hconfig
    obtain ⟨hfault, hretention⟩ := Bool.and_eq_true_iff.1 hconfig
    have hsound : Weights.fault? result.1.weights = none := Option.isNone_iff_eq_none.1 hfault
    refine ⟨result.1, result.2, rfl, hsound, fun room bytes hbytes hroom => ?_⟩
    have htwice : room * 2 ≤ room * bytes := Nat.mul_le_mul_left room hbytes
    rw [Monitor.startIn_eq_none_iff, beq_iff_eq.1 hretention]
    exact ⟨hsound, by omega⟩

end Config

end CodeQuality
