import ClientTypes.CommandLine.Invocation

/-!
Help pages of the command line.
-/

namespace ClientTypes.CommandLine

def programName : String := "main"

def Topic.usage : Topic → String
  | .everything => "Usage: " ++ programName ++ " [OPTIONS] COMMAND [ARGS]..."
  | .compile => "Usage: " ++ programName ++ " compile [OPTIONS] DOC_PATH"
  | .inspect => "Usage: " ++ programName ++ " inspect [OPTIONS] DOC_PATH"

/-- What a command is for, line by line. -/
def Topic.purpose : Topic → List String
  | .everything =>
    ["  API Model Compiler: turn OpenAPI schemas into an enriched model for code",
     "  templates."]
  | .compile => ["  Compile an API document into the enriched model."]
  | .inspect => ["  Print a summary of the compiled models and operations."]

/-- The options and commands of a command, line by line. -/
def Topic.tables : Topic → List String
  | .everything =>
    ["Options:",
     "  -v, --verbose  Log every rename, fallback and dropped variant.",
     "  -q, --quiet    Only log warnings and errors.",
     "  --help         Show this message and exit.",
     "",
     "Commands:",
     "  compile  Compile an API document into the enriched model.",
     "  inspect  Print a summary of the compiled models and operations."]
  | .compile =>
    ["Options:",
     "  -o, --output PATH          Output file for the compiled model (JSON).",
     "                             [required]",
     "  --prefix TEXT              Target API prefix; names the models file",
     "                             <prefix>_models.rs.",
     "  --config PATH              YAML file overlaid on the default tables.",
     "  --skip-none / --keep-none  Skip optional fields that are None when",
     "                             serializing.",
     "  --help                     Show this message and exit."]
  | .inspect =>
    ["Options:",
     "  --config PATH  YAML file overlaid on the default tables.",
     "  --help         Show this message and exit."]

def Topic.page (t : Topic) : List String := t.usage :: "" :: t.purpose ++ "" :: t.tables

end ClientTypes.CommandLine
