import Mathlib.Logic.Basic

namespace Taskvisor.Lib

/-- The payload of a caught panic, by what its message can be read from. -/
inductive PanicPayload
  | str (message : String)
  | string (message : String)
  | other
deriving DecidableEq

def PanicPayload.text : PanicPayload → Option String
  | .str message => some message
  | .string message => some message
  | .other => none

end Taskvisor.Lib
