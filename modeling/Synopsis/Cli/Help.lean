import Synopsis.Cli.Arguments

/-!
# Help and usage

The text that explains the command line, and what is written when one cannot be read.
-/

namespace Synopsis.Cli

/-- The lines that show all options. -/
def usage : List String :=
  ["usage: contextit [-h] [-i PATH] [-o OUTPUT] [-f] [--include-empty] [--json]",
    "                 [--no-ignore] [-v]",
    "                 [paths ...]"]

/-- The lines that explain them. -/
def explanation : List String :=
  ["",
    "Extract function signatures from source code into a Markdown (or JSON) document.",
    "",
    "Supported: TypeScript/JavaScript, Go, Java, Python, Rust, PHP",
    "",
    "positional arguments:",
    "  paths                 Files or directories to scan (default: current",
    "                        directory)",
    "",
    "options:",
    "  -h, --help            show this help message and exit",
    "  -i PATH, --input PATH",
    "                        Source file or directory; may be repeated, same as a",
    "                        positional path",
    "  -o OUTPUT, --output OUTPUT",
    "                        Write the document to this file instead of stdout",
    "  -f, --functions-only  Omit the full source section for each file",
    "  --include-empty       List files with no signatures as \"_No functions",
    "                        found_\" sections",
    "  --json                Output signatures as JSON",
    "  --no-ignore           Do not apply .gitignore / .contextignore patterns",
    "  -v, --verbose         Log every skipped file and dropped declaration to",
    "                        stderr"]

/-- Lines, each with its line end. -/
def textOfLines (lines : List String) : Text := lines.flatMap fun l => l.toList ++ ['\n']

/-- The whole help. -/
def help : Text := textOfLines (usage ++ explanation)

/-- What is written about a command line that cannot be read. -/
def UsageError.report (e : UsageError) : Text :=
  textOfLines usage ++ "contextit: error: ".toList ++ e.message ++ ['\n']

end Synopsis.Cli
