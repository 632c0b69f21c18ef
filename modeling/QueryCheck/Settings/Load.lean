import QueryCheck.Settings.Decode
import QueryCheck.Settings.Files
import QueryCheck.Settings.Toml.Reader
import QueryCheck.Settings.Yaml.Reader
import QueryCheck.Text.Lower
import QueryCheck.Text.Quoted

/-! # Loading settings

Settings come from four sources, each lying over the ones before: the defaults, a configuration
file, variables of the environment and options of the command line that were given.

* `layerOfFile`, `layerOfEnvironment`: what the sources say;
* `combine`: all sources, laid over each other;
* `load`: the settings of a run. -/

namespace QueryCheck.Settings

open QueryCheck.Text (lower quote)

/-- Why settings cannot be loaded. -/
inductive LoadError where
  | unsupportedType (ending : String)
  | unreadable (path : String) (e : ReadError)
  | malformed (path : String)
  | undecodable
  | tooFewJobs (jobs : Int)
  | emptyRule
  deriving DecidableEq, Repr, Inhabited

/-- The wording of a failure. -/
def LoadError.message : LoadError → String
  | unsupportedType ending => "unsupported config file type " ++ quote ending
  | unreadable path .missing =>
    "error reading config file " ++ path ++ ": " ++ ReadError.missing.message path
  | unreadable path _ => "error reading config file " ++ path
  | malformed path => "error reading config file " ++ path
  | undecodable => "unable to decode config"
  | tooFewJobs jobs => "jobs must be at least 1, got " ++ toString jobs
  | emptyRule => "rules must not contain empty names"

/-! ### Sources -/

/-- The file of the schema unless another is chosen. -/
def defaultSchema : String := "schema.graphql"

/-- The greatest depth of a document unless another is chosen. -/
def defaultMaxDepth : Int := 512

/-- What holds unless a source says otherwise. -/
def defaults (processors : Int) : Layer :=
  [("schema", .str defaultSchema), ("format", .str ""), ("max_depth", .int defaultMaxDepth),
   ("rules", .list []), ("directives", .str ""), ("verbose", .bool false), ("jobs", .int processors)]

/-- The configuration files that are looked for, in order. -/
def fileNames : List String := [".gqlcheck.yaml", ".gqlcheck.yml", ".gqlcheck.toml"]

/-- The notation of a configuration file by its ending. -/
def readerFor (path : String) : Except LoadError (String → Option Layer) :=
  match lower (Path.ending path) with
  | ".yaml" | ".yml" => .ok readYaml
  | ".toml" => .ok readToml
  | _ => .error (.unsupportedType (Path.ending path))

/-- The names in front of variables of the environment. -/
def environmentMark : String := "GQLCHECK_"

/-- The spaces of a text. -/
def isSpace (c : Char) : Bool :=
  let n := c.toNat
  9 ≤ n && n ≤ 13 || n = 32 || n = 0x85 || n = 0xa0 || n = 0x1680 || 0x2000 ≤ n && n ≤ 0x200a
    || n = 0x2028 || n = 0x2029 || n = 0x202f || n = 0x205f || n = 0x3000

/-- A text without the spaces at its ends. -/
def trim (s : String) : String :=
  String.ofList (((s.toList.dropWhile isSpace).reverse.dropWhile isSpace).reverse)

/-- The parts of a text between commas, without spaces around them and without empty ones. -/
def splitList (s : String) : List String := ((s.splitOn ",").map trim).filter (· ≠ "")

/-- What one variable of the environment says, if it is meant for this program. -/
def variableDatum (name value : String) : Option (String × Datum) :=
  if name.startsWith environmentMark && environmentMark.length < name.length then
    let key := lower (name.drop environmentMark.length).toString
    let d := if key = "rules" then .list ((splitList value).map .str) else .str value
    match key.splitOn "." with
    | [] => none
    | first :: path => some (first, Datum.nest path d)
  else none

/-- What the variables of the environment say. -/
def layerOfEnvironment (environment : List (String × String)) : Layer :=
  Layer.overlay [] (environment.filterMap fun v => variableDatum v.1 v.2)

/-- All sources, each over the ones before. -/
def combine (sources : List Layer) : Layer := sources.foldl Layer.overlay []

/-! ### Loading -/

/-- Settings that can be used: at least one job, and no rule without a name. -/
def Config.check (s : Config) : Except LoadError Config :=
  if s.jobs < 1 then .error (.tooFewJobs s.jobs)
  else if s.rules.any fun r => trim r = "" then .error .emptyRule
  else .ok s

/-- The settings of sources. -/
def ofSources (sources : List Layer) : Except LoadError Config :=
  match decode (combine sources) with
  | some s => s.check
  | none => .error .undecodable

/-- Settings with the configuration file they were read from, if any. -/
structure Loaded where
  settings : Config
  file : String
  deriving DecidableEq, Repr, Inhabited

section

variable {m : Type → Type} [Monad m]

/-- The first of the given files that is there. -/
def firstPresent (disk : Disk m) : List String → m String
  | [] => return ""
  | path :: paths => do
    if ← disk.present path then return path else firstPresent disk paths

/-- The configuration file to read: the chosen one, or the first that is found. -/
def findFile (disk : Disk m) (chosen : String) : m String :=
  if chosen ≠ "" then return chosen
  else firstPresent disk (fileNames.map fun n => disk.directory ++ "/" ++ n)

/-- What a configuration file says; no file says nothing. -/
def layerOfFile (disk : Disk m) (path : String) : m (Except LoadError Layer) := do
  if path = "" then return .ok []
  else match readerFor path with
    | .error e => return .error e
    | .ok reader =>
      match ← disk.read path with
      | .error e => return .error (.unreadable path e)
      | .ok text =>
        match reader text with
        | some l => return .ok l
        | none => return .error (.malformed path)

/-- The settings of a run, from the configuration file that is chosen or found, the variables of the
environment and the options that were given. -/
def load (disk : Disk m) (processors : Int) (environment : List (String × String)) (chosen : String)
    (options : Layer) : m (Except LoadError Loaded) := do
  let path ← findFile disk chosen
  match ← layerOfFile disk path with
  | .error e => return .error e
  | .ok file =>
    return (ofSources [defaults processors, file, layerOfEnvironment environment, options]).map
      fun s => { settings := s, file := path }

end

end QueryCheck.Settings
