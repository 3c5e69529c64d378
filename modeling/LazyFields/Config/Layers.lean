import LazyFields.Config.Document

/-!
# Layers of configuration

The options of the project file go over the defaults, and the variables of the environment go over
both.  Only the outcome is validated.
-/
namespace LazyFields
open Text

structure Environment where
  schema : Option Text := none
  qualifier : Option Text := none
  extensions : Option Text := none
  respectIgnore : Option Text := none

namespace Environment

def schemaVariable : Text := "LAZYPROTO_SCHEMA".toList

def qualifierVariable : Text := "LAZYPROTO_NAMESPACE".toList

def extensionsVariable : Text := "LAZYPROTO_EXTENSIONS".toList

def respectIgnoreVariable : Text := "LAZYPROTO_RESPECT_IGNORE".toList

def variableNames : List Text :=
  [schemaVariable, qualifierVariable, extensionsVariable, respectIgnoreVariable]

def ofVariables (vars : List (Text × Text)) : Environment where
  schema := vars.lookup schemaVariable
  qualifier := vars.lookup qualifierVariable
  extensions := vars.lookup extensionsVariable
  respectIgnore := vars.lookup respectIgnoreVariable

/-- The extensions in a list with commas: blanks around an entry and dots before it do not count,
and entries with nothing left are dropped. -/
def extensionList (t : Text) : List Text :=
  ((splitOn ',' t).map fun e => (trim e).dropWhile (· == '.')).filter (!·.isEmpty)

/-- The truth value that is spelled exactly so. -/
def truth? (t : Text) : Option Bool :=
  if t = "true".toList then some true else if t = "false".toList then some false else none

/-- Puts the variables that are set over a configuration.  A list of extensions without entries
and a text that is no truth value count as not set. -/
def overlay (env : Environment) (c : Config) : Config where
  schema := { c.schema with path := env.schema.or c.schema.path }
  scan := { c.scan with
    qualifier := env.qualifier.or c.scan.qualifier
    extensions :=
      match (env.extensions.map extensionList).getD [] with
      | [] => c.scan.extensions
      | es => es
    respectIgnoreFiles := (env.respectIgnore.bind truth?).or c.scan.respectIgnoreFiles }
  naming := c.naming

end Environment

inductive ProjectFile where
  | absent
  | unreadable
  | document (t : Text)

namespace Config

def listOr (ts others : List Text) : List Text := if ts.isEmpty then others else ts

/-- The options that `c` sets, over those of `base`. -/
def merge (base c : Config) : Config where
  schema := { path := c.schema.path.or base.schema.path }
  scan := {
    extensions := listOr c.scan.extensions base.scan.extensions
    qualifier := c.scan.qualifier.or base.scan.qualifier
    respectIgnoreFiles := c.scan.respectIgnoreFiles.or base.scan.respectIgnoreFiles
    extraIgnore := listOr c.scan.extraIgnore base.scan.extraIgnore
    maxFileSize := c.scan.maxFileSize.or base.scan.maxFileSize
    followLinks := c.scan.followLinks.or base.scan.followLinks }
  naming := {
    messageSuffix := c.naming.messageSuffix.or base.naming.messageSuffix
    responseSuffix := c.naming.responseSuffix.or base.naming.responseSuffix
    requestVerbs := listOr c.naming.requestVerbs base.naming.requestVerbs }

def ofProjectFile (path : Text) : ProjectFile → Except ConfigError Config
  | .absent => .ok {}
  | .unreadable => .error (.unreadable path)
  | .document t => (parse path t).map (merge {})

def load (path : Text) (file : ProjectFile) (env : Environment) : Except ConfigError Config := do
  (env.overlay (← ofProjectFile path file)).validate

end Config
end LazyFields
