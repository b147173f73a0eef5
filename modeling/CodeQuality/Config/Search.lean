import CodeQuality.Config.Document
import CodeQuality.Files.Path
import CodeQuality.Files.Tree

/-!
# Finding the configuration

The configuration of a directory stands in a file of a fixed name, in the directory itself or in one
above it. The nearest file that is accepted counts; at most ten directories are searched.
-/

namespace CodeQuality.Config

open Files

/-- The name of configuration files. -/
def fileName : String := ".qualitymap.toml"

/-- How many directories are searched. -/
def searchDepth : Nat := 10

/-- The configuration in the file at a path. -/
def load (files : Entry) (path : String) : Except Error (Config Float) :=
  match files.readText path with
  | .error fault => .error ((Error.io fault.message).within s!"Reading {path}")
  | .ok text => (parse text).map Prod.fst

/-- The configuration in a directory, if there is one that is accepted. -/
def inDirectory? (files : Entry) (directory : String) : Option (Config Float) :=
  (load files (join directory fileName)).toOption

/-- The configuration for a directory. -/
def search (files : Entry) (start : String) : Config Float :=
  ((ancestors searchDepth start).findSome? (inDirectory? files)).getD standard

end CodeQuality.Config
