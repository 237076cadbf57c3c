/-! Log messages, which operations give along with their results. -/

namespace ProgramFacts

inductive Level
  | trace | debug | info | warn
deriving DecidableEq, Repr

def Level.name : Level → String
  | .trace => "TRACE"
  | .debug => "DEBUG"
  | .info => "INFO"
  | .warn => "WARN"

structure Message where
  level : Level
  text : String
deriving DecidableEq, Repr

end ProgramFacts
