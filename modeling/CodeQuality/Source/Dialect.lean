import CodeQuality.Files.Path

/-!
# Dialects and texts of source files

Which grammar a source file is written in, told from the extension of its name, and the lines and byte
ranges of its text.
-/

namespace CodeQuality.Source

/-- A grammar of source files. -/
inductive Dialect where
  | javaScript
  | jsx
  | typeScript
  | tsx
deriving DecidableEq

namespace Dialect

/-- The dialect of an extension. -/
def ofExtension? : String → Option Dialect
  | "js" | "mjs" | "cjs" => some javaScript
  | "jsx" => some jsx
  | "ts" | "mts" | "cts" => some typeScript
  | "tsx" => some tsx
  | _ => none

/-- The dialect of a path; a path that does not tell has the dialect `typeScript`. -/
def ofPath (path : String) : Dialect :=
  ((Files.extension? path).bind ofExtension?).getD typeScript

/-- The name of a dialect. -/
def name : Dialect → String
  | javaScript => "JavaScript"
  | jsx => "Jsx"
  | typeScript => "TypeScript"
  | tsx => "Tsx"

end Dialect

/-! ## Texts of source files -/

/-- The number of lines. A line ends at a newline; a final newline does not open another line. -/
def lineCount (text : String) : Nat :=
  let cs := text.toList
  cs.count '\n' + (if cs.getLast?.all (· == '\n') then 0 else 1)

/-- The text between two byte positions of a text in UTF-8; nothing if a position lies outside the
text or inside a character. -/
def slice (bytes : ByteArray) (start stop : Nat) : String :=
  if start ≤ stop ∧ stop ≤ bytes.size then (String.fromUTF8? (bytes.extract start stop)).getD ""
  else ""

end CodeQuality.Source
