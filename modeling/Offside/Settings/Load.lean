import Offside.Json.Reader
import Offside.Settings.Toml

/-!
# Modes from settings files
-/
namespace Offside

namespace Settings

def scalarOfJson : Json → Scalar
  | .int n => .int n
  | .bool b => .bool b
  | .string s => .text s
  | _ => .other

/-- Settings as an object, or as a list in the order of the keys. -/
def ofJson? : Json → Option Settings
  | .object members => ofEntries? (members.map fun (key, j) => (key, scalarOfJson j))
  | .array items => ofValues? (items.map scalarOfJson)
  | _ => none

end Settings

namespace Mode

def ofJson (s : String) : Except SettingsError Mode :=
  match (Json.parse? s).bind Settings.ofJson? with
  | some settings => settings.toMode
  | none => .error .badJson

def ofToml (s : String) : Except SettingsError Mode :=
  match (Settings.Toml.parse? s).bind Settings.ofEntries? with
  | some settings => settings.toMode
  | none => .error .badToml

/-- What follows the last dot of a file name, unless nothing stands before it. -/
def extension? (name : String) : Option String :=
  let cs := name.toList.reverse
  match cs.dropWhile (· ≠ '.') with
  | '.' :: _ :: _ => some (String.ofList (cs.takeWhile (· ≠ '.')).reverse)
  | _ => none

/-- The mode of a settings file by its name and what it holds, if it is there. -/
def ofFile (name : String) (content : Option ByteArray) : Except SettingsError Mode :=
  match content.bind String.fromUTF8? with
  | none => .error .unreadable
  | some s => if extension? name = some "json" then ofJson s else ofToml s

end Mode

end Offside
