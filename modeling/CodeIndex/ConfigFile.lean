import CodeIndex.Disk.Store
import CodeIndex.Settings

/-!
# The configuration file of a project

A project may have a configuration file.  One that cannot be read, is malformed or is not
accepted leaves the defaults in effect; nothing of it is used.

* `load_of_error` : with an unusable file the defaults are used, all of them.
-/

namespace CodeIndex

/-- The name of the configuration file. -/
def configFile : String := ".phpindex.toml"

namespace Config

/-- The configuration of a file. -/
def ofFile (disk : Disk) (path : String) : Except ConfigError Config :=
  match disk.readText? path with
  | none => .error .unreadable
  | some text => ofText text

/-- The configuration of a project directory, if it has a configuration file. -/
def ofProject? (disk : Disk) (dir : String) : Except ConfigError (Option Config) :=
  let path := Path.join dir configFile
  if disk.pathExists path then (ofFile disk path).map some else .ok none

/-- The configuration of a project directory: that of its file, or the defaults. -/
def ofProject (disk : Disk) (dir : String) : Config :=
  match ofProject? disk dir with
  | .ok (some config) => config
  | .ok none => {}
  | .error _ => {}

/-- The configuration of a project directory: that of its file, or the defaults, with the
error that made the file unusable. -/
def load (disk : Disk) (dir : String) : Config × Option ConfigError :=
  match ofProject? disk dir with
  | .ok config => (config.getD {}, none)
  | .error e => ({}, some e)

/-- With an unusable file the defaults are used, all of them. -/
theorem load_of_error {disk : Disk} {dir : String} {e : ConfigError}
    (h : ofProject? disk dir = .error e) : load disk dir = ({}, some e) := by
  simp [load, h]

end Config

end CodeIndex
