import Stencil.Command.Arguments

/-! # Help

    The texts that explain the command line. -/

namespace Stencil.Command

/-- The version of the program. -/
def versionText : String := "modgen 0.3.0\n"

/-- Lines, each of them ended. -/
def unlines (lines : List String) : String :=
  String.join (lines.map (· ++ "\n"))

/-- The options that every level has. -/
def sharedOptions : List String :=
  ["  -v, --verbose...     Increase log verbosity (-v info, -vv debug, -vvv trace)",
    "      --config <PATH>  Read configuration from this file instead of the standard locations",
    "  -h, --help           Print help"]

/-- What the user is told when the arguments are wrong. -/
def misuseText : String :=
  "error: the arguments are wrong\n\nFor more information, try '--help'.\n"

/-- The help on a subcommand, or on everything. -/
def helpText : Option Subcommand → String
  | none =>
      unlines <|
        ["Scaffold Express/Prisma modules from your schema", "",
          "Usage: modgen [OPTIONS] [COMMAND]", "", "Commands:",
          "  init    Copy the server boilerplate into src/",
          "  add     Generate services, controller and router for a model",
          "  schema  Print the models and enums found in the schema",
          "  help    Print this message or the help of the given subcommand(s)", "",
          "Options:"]
          ++ sharedOptions ++ ["  -V, --version        Print version"]
  | some .init =>
      unlines <|
        ["Copy the server boilerplate into src/", "", "Usage: modgen init [OPTIONS]", "",
          "Options:"]
          ++ sharedOptions
  | some .add =>
      unlines <|
        ["Generate services, controller and router for a model", "",
          "Usage: modgen add [OPTIONS] <NAME>", "", "Arguments:",
          "  <NAME>  Model name (e.g. `user`, `blog-post`, `BlogPost`)", "", "Options:",
          "      --schema <PATH>  Schema file to read fields from"]
          ++ sharedOptions
  | some .schema =>
      unlines <|
        ["Print the models and enums found in the schema", "",
          "Usage: modgen schema [OPTIONS]", "", "Options:",
          "      --schema <PATH>  Schema file to read",
          "      --json           Print JSON instead of a table"]
          ++ sharedOptions

end Stencil.Command
