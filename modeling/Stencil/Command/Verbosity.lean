/-! # Verbosity

    How much is logged: the more often the flag is given, the more. -/

namespace Stencil.Command

/-- The levels of logging. -/
inductive Verbosity where
  | warn
  | info
  | debug
  | trace
deriving DecidableEq, Repr

namespace Verbosity

/-- The level for a number of flags. -/
def ofCount : Nat → Verbosity
  | 0 => .warn
  | 1 => .info
  | 2 => .debug
  | _ => .trace

/-- Which log lines a level lets through. -/
def directive : Verbosity → String
  | .warn => "warn"
  | .info => "info,modgen=info,modgen_cli_lib=info"
  | .debug => "info,modgen=debug,modgen_cli_lib=debug"
  | .trace => "trace"

end Verbosity

end Stencil.Command
