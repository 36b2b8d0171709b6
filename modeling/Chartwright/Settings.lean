import Chartwright.Assoc
import Chartwright.Files.Path
import Chartwright.Number.Decimal
import Chartwright.Text.Quoted
/-!
Settings, taken from environment variables where they are set.
-/
namespace Chartwright

/-- `renderDelay` is in seconds of quiet before a rendering. -/
structure Settings where
  maxHistory : Int
  renderDelay : Binary64
  stateFile : Option Path
  host : Text
  port : Int
  origins : List Text
deriving DecidableEq, Repr

/-- Why a variable cannot be part of an environment. -/
inductive VariableFault where
  | nul | equalsSign | noName
deriving DecidableEq, Repr

namespace VariableFault

def message : VariableFault → Text
  | nul => "embedded null byte".toList
  | equalsSign => "illegal environment variable name".toList
  | noName => "[Errno 22] Invalid argument".toList

/-- What is wrong with a variable: neither name nor value can hold the character NUL, and the name
is not empty and has no equals sign. -/
def ofEntry? (entry : Text × Text) : Option VariableFault :=
  let (name, value) := entry
  let nulChar := Char.ofNat 0
  if name.contains nulChar || value.contains nulChar then some nul
  else if name.contains '=' then some equalsSign
  else if name.isEmpty then some noName
  else none

end VariableFault

/-- A variable that no environment can have, or a value that cannot be read as a number. -/
inductive SettingError where
  | environment (fault : VariableFault)
  | notInteger (value : Text)
  | tooLong (e : Integer.TooLong)
  | notNumber (value : Text)
deriving DecidableEq, Repr

namespace SettingError

/-- The message; of a value that is no integer it shows 200 characters at most. -/
def message : SettingError → Text
  | environment fault => fault.message
  | notInteger value =>
    "invalid literal for int() with base 10: ".toList ++ (Text.quoted value).take 200
  | tooLong e => e.message
  | notNumber value => "could not convert string to float: ".toList ++ Text.quoted value

end SettingError

namespace Settings

def defaultOrigins : Text :=
  "http://localhost:5173,http://localhost:3000,http://127.0.0.1:5173".toList

/-- The origins in a list with commas, without blanks around them; empty ones are left out. -/
def readOrigins (t : Text) : List Text :=
  ((Text.pieces ',' t).map Text.trim).filter fun origin => !origin.isEmpty

def default : Settings where
  maxHistory := 100
  renderDelay := Binary64.ofDecimal false 3 (-1)
  stateFile := none
  host := "127.0.0.1".toList
  port := 8765
  origins := readOrigins defaultOrigins

def readInteger (value : Text) : Except SettingError Int :=
  match Integer.read value with
  | .ok (some n) => .ok n
  | .ok none => .error (.notInteger value)
  | .error e => .error (.tooLong e)

def readNumber (value : Text) : Except SettingError Binary64 :=
  match Decimal.read? value with
  | some x => .ok x
  | none => .error (.notNumber value)

/-- What `read` makes of a variable, or a default where it is not set. -/
def fromVariable {α : Type} (env : List (Text × Text)) (name : String) (default : α)
    (read : Text → Except SettingError α) : Except SettingError α :=
  match Assoc.find? name.toList env with
  | some value => read value
  | none => .ok default

/-- The settings for an environment. -/
def ofEnvironment (env : List (Text × Text)) : Except SettingError Settings := do
  if let some fault := env.findSome? VariableFault.ofEntry? then throw (.environment fault)
  let maxHistory ← fromVariable env "FLOWEDIT_MAX_HISTORY" default.maxHistory readInteger
  let renderDelay ← fromVariable env "FLOWEDIT_RENDER_DELAY" default.renderDelay readNumber
  let stateFile ← fromVariable env "FLOWEDIT_STATE_FILE" none fun value =>
    .ok (if value.isEmpty then none else some (Path.ofText value))
  let host ← fromVariable env "FLOWEDIT_HOST" default.host .ok
  let port ← fromVariable env "FLOWEDIT_PORT" default.port readInteger
  let origins ← fromVariable env "FLOWEDIT_CORS_ORIGINS" default.origins
    fun value => .ok (readOrigins value)
  return { maxHistory, renderDelay, stateFile, host, port, origins }

end Settings
end Chartwright
