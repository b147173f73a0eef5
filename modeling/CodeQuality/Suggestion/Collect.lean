import CodeQuality.Suggestion.Rule
import CodeQuality.Text

/-!
# Collecting suggestions

A rule suggests once, however many analyses it applies to, and so does a text that analyzers report
themselves. The analyses are gone through one after the other, with a record of the rules that have
suggested something and of the texts that were passed through. In the end the suggestions are put in the
order of their priorities, ids and titles.
-/

namespace CodeQuality

variable {α : Type} [Scalar α]

/-- Whether a suggestion may stand in front of another one. -/
def Suggestion.before (s t : Suggestion) : Bool :=
  s.priority.rank < t.priority.rank ||
    (s.priority.rank == t.priority.rank &&
      (s.id < t.id || (s.id == t.id && (s.title < t.title || s.title == t.title))))

/-- The suggestion of a text that an analyzer reports. -/
def Suggestion.ofText (entry : String × Option Category) : Suggestion :=
  { id := "analyzer"
    priority := .low
    category := entry.2
    title := entry.1
    description := entry.1 }

/-- What was collected so far. -/
structure Collection where
  /-- The ids of the rules that have suggested something. -/
  fired : List String
  /-- The texts that were passed through. -/
  passed : List String
  /-- The suggestions, in the order in which they were found. -/
  found : List Suggestion

namespace Collection

/-- Nothing is collected yet. -/
def empty : Collection := ⟨[], [], []⟩

/-- Collects the suggestion of a rule that an analysis meets, unless the rule has fired before. -/
def tryRule (a : Analysis α) (c : Collection) (r : Rule α) : Collection :=
  if !c.fired.contains r.id && r.applies a then
    { c with fired := c.fired ++ [r.id], found := c.found ++ [r.suggestion] }
  else c

/-- Collects a text that an analysis of a category reports, without the blanks around it. Blanks alone
are no text, and a text that was passed through before is not collected again. -/
def passText (category : Option Category) (c : Collection) (raw : String) : Collection :=
  let text := Text.trim raw
  if text.isEmpty || c.passed.contains text then c
  else
    { c with passed := c.passed ++ [text], found := c.found ++ [.ofText (text, category)] }

/-- Goes through an analysis: the rules of its category, and then its texts. -/
def visit (c : Collection) (a : Analysis α) : Collection :=
  let ruled := (rules.filter fun r => a.classify == some r.category).foldl (tryRule a) c
  a.suggestions.foldl (passText a.classify) ruled

end Collection

/-- What is collected from analyses. -/
def collect (as : List (Analysis α)) : Collection := as.foldl Collection.visit .empty

/-- The suggestions for analyses, in order. -/
def suggestions (as : List (Analysis α)) : List Suggestion :=
  (collect as).found.mergeSort Suggestion.before

end CodeQuality
