import Synopsis.Text.Quote

/-!
# Command-line arguments

Words on the command line are options or positional paths. A long option may be cut short as long as
it stays unambiguous, short options may be run together, and a value may follow in the same word.
Positional paths count only where they first stand together; later ones are left over. The first fault
ends the reading, and so does a request for help when its turn comes.
-/

namespace Synopsis.Cli

open Text

/-! ## Options -/

/-- An option by what it asks for. -/
inductive Flag where
  | help
  | input
  | output
  | functionsOnly
  | includeEmpty
  | json
  | noIgnore
  | verbose
deriving DecidableEq, Repr

/-- Every option, in the order in which they are listed. -/
def Flag.all : List Flag :=
  [.help, .input, .output, .functionsOnly, .includeEmpty, .json, .noIgnore, .verbose]

/-- The ways to spell an option. -/
def Flag.spellings : Flag → List Text
  | .help => ["-h".toList, "--help".toList]
  | .input => ["-i".toList, "--input".toList]
  | .output => ["-o".toList, "--output".toList]
  | .functionsOnly => ["-f".toList, "--functions-only".toList]
  | .includeEmpty => ["--include-empty".toList]
  | .json => ["--json".toList]
  | .noIgnore => ["--no-ignore".toList]
  | .verbose => ["-v".toList, "--verbose".toList]

/-- Whether an option takes a value. -/
def Flag.takesValue : Flag → Bool
  | .input => true
  | .output => true
  | _ => false

/-- Every spelling with its option. -/
def spellings : List (Text × Flag) := Flag.all.flatMap fun f => f.spellings.map (·, f)

/-- The option of a spelling. -/
def flagOf? (spelling : Text) : Option Flag := spellings.lookup spelling

/-- What is wrong with a command line. -/
inductive UsageError where
  | ambiguous (word : Text) (candidates : List Text)
  | missingValue (flag : Flag)
  | strayValue (flag : Flag) (value : Text)
  | unrecognized (words : List Text)
deriving DecidableEq, Repr

/-- The wording of a usage error. -/
def UsageError.message : UsageError → Text
  | .ambiguous word candidates =>
    "ambiguous option: ".toList ++ word ++ " could match ".toList ++ join ", " candidates
  | .missingValue flag =>
    "argument ".toList ++ join "/" flag.spellings ++ ": expected one argument".toList
  | .strayValue flag value =>
    "argument ".toList ++ join "/" flag.spellings ++ ": ignored explicit argument ".toList ++
      quoted value
  | .unrecognized words => "unrecognized arguments: ".toList ++ join " " words

/-! ## Words -/

/-- A word of the command line: a value or path, the double dash that ends options, an option with
    the spelling it was found by and the value in the same word, or an option nobody knows. -/
inductive Word where
  | plain (text : Text)
  | endOfOptions
  | option (flag : Flag) (spelling : Text) (value : Option Text)
  | unknown (text : Text)
deriving DecidableEq, Repr

/-- The text before and after the first equals sign. -/
def splitValue (t : Text) : Text × Option Text :=
  match cutAt? '=' t with
  | some (head, value) => (head, some value)
  | none => (t, none)

/-- Whether a text is a dash and a decimal number, with digits after any point; a line end after it
    does not count. -/
def isNegativeNumber (t : Text) : Bool :=
  match t with
  | '-' :: cs =>
    let tail := cs.dropWhile isDecimal
    let ends (u : Text) : Bool := u.isEmpty || u == ['\n']
    (ends tail && cs.head?.any isDecimal) || match tail with
      | '.' :: ds => ds.head?.any isDecimal && ends (ds.dropWhile isDecimal)
      | _ => false
  | _ => false

/-- The options that a word may stand for, each with the spelling and the value that it then has. Long
    options may be cut short; of a short one the rest of the word is the value. -/
def candidates (t : Text) : List (Flag × Text × Option Text) :=
  match t with
  | '-' :: '-' :: _ =>
    let (head, value) := splitValue t
    (spellings.filter fun s => head.isPrefixOf s.1).map fun s => (s.2, s.1, value)
  | _ => spellings.filterMap fun s =>
    if s.1 = t.take 2 then some (s.2, s.1, some (t.drop 2))
    else if t.isPrefixOf s.1 then some (s.2, s.1, none)
    else none

/-- A whole spelling with a value after an equals sign. -/
def withValue? (t : Text) : Option Word := do
  let (head, value) ← cutAt? '=' t
  let flag ← flagOf? head
  return .option flag head (some value)

/-- What a word is when options are still read. -/
def classify (t : Text) : Except UsageError Word :=
  if t.head? ≠ some '-' || t.length = 1 then .ok (.plain t)
  else match flagOf? t, withValue? t, candidates t with
    | some flag, _, _ => .ok (.option flag t none)
    | none, some word, _ => .ok word
    | none, none, [(flag, spelling, value)] => .ok (.option flag spelling value)
    | none, none, [] =>
      if isNegativeNumber t || t.contains ' ' then .ok (.plain t) else .ok (.unknown t)
    | none, none, found => .error (.ambiguous t (found.map (·.2.1)))

/-- The words of a command line; after a double dash all are plain. -/
def classifyAll : List Text → Except UsageError (List Word)
  | [] => .ok []
  | t :: ts =>
    if t = "--".toList then .ok (.endOfOptions :: ts.map .plain)
    else do
      let word ← classify t
      let words ← classifyAll ts
      return word :: words

/-! ## Options of a run -/

/-- What a command line asks for. An input may lack its path. -/
structure Options where
  paths : List Text := []
  inputs : List (Option Text) := []
  output : Option Text := none
  functionsOnly : Bool := false
  includeEmpty : Bool := false
  json : Bool := false
  noIgnore : Bool := false
  verbose : Bool := false
deriving DecidableEq, Repr

/-- Why there are no options to go by. -/
inductive Halt where
  | help
  | usage (error : UsageError)
deriving DecidableEq, Repr

/-- Applies one option with its value, if it has one. -/
def Options.set (o : Options) (flag : Flag) (value : Option Text) : Except Halt Options :=
  match flag with
  | .help => .error .help
  | .input => .ok { o with inputs := o.inputs ++ [value] }
  | .output => .ok { o with output := value }
  | .functionsOnly => .ok { o with functionsOnly := true }
  | .includeEmpty => .ok { o with includeEmpty := true }
  | .json => .ok { o with json := true }
  | .noIgnore => .ok { o with noIgnore := true }
  | .verbose => .ok { o with verbose := true }

/-- Splits an option and the text after it into the options run together in one word, none with a
    value but possibly the last, which may still lack it. -/
def runTogether (flag : Flag) (isShort : Bool) : (value : Text) →
    Except UsageError (List Flag × Flag × Option Text)
  | [] => if flag.takesValue then .ok ([], flag, some []) else .error (.strayValue flag [])
  | c :: cs =>
    if flag.takesValue then .ok ([], flag, some (c :: cs))
    else if !isShort then .error (.strayValue flag (c :: cs))
    else match flagOf? ['-', c] with
      | none => .error (.strayValue flag (c :: cs))
      | some next =>
        if cs.isEmpty then .ok ([flag], next, none)
        else do
          let (flags, last, value) ← runTogether next true cs
          return (flag :: flags, last, value)

/-- The options of one word. -/
def wordFlags (flag : Flag) (spelling : Text) :
    Option Text → Except UsageError (List Flag × Flag × Option Text)
  | none => .ok ([], flag, none)
  | some value => runTogether flag ((spelling.drop 1).head? ≠ some '-') value

/-- Where the positional paths are: not met yet, being read, or behind. -/
inductive Stage where
  | before
  | within
  | behind
deriving DecidableEq, Repr

/-- The stage after an option. -/
def Stage.close : Stage → Stage
  | .before => .before
  | _ => .behind

/-- Applies the options of one word, all but the last without value. -/
def Options.setAll (o : Options) (flags : List Flag) (last : Flag) (value : Option Text) :
    Except Halt Options := do
  (← flags.foldlM (fun o f => o.set f none) o).set last value

/-- A value from the word of its option. A double dash is no value, even there. -/
def innerValue (value : Text) : Option Text := if value = "--".toList then none else some value

/-- Reads words in order. `extras` collects what has no place. -/
def readWords (stage : Stage) (o : Options) (extras : List Text) :
    List Word → Except Halt (Options × List Text)
  | [] => .ok (o, extras)
  | .plain t :: ws =>
    if stage = .behind then readWords stage o (extras ++ [t]) ws
    else readWords .within { o with paths := o.paths ++ [t] } extras ws
  | .endOfOptions :: ws =>
    if stage = .behind then readWords stage o (extras ++ ["--".toList]) ws
    else readWords .within o extras ws
  | .unknown t :: ws => readWords stage.close o (extras ++ [t]) ws
  | .option flag spelling value :: ws => do
    let (flags, last, value) ← (wordFlags flag spelling value).mapError .usage
    match value, last.takesValue, ws with
    | some v, _, ws => readWords stage.close (← o.setAll flags last (innerValue v)) extras ws
    | none, false, ws => readWords stage.close (← o.setAll flags last none) extras ws
    | none, true, .plain v :: ws => readWords stage.close (← o.setAll flags last (some v)) extras ws
    | none, true, _ => .error (.usage (.missingValue last))

/-- The paths that the options name, or the current folder if they name none. -/
def Options.given (o : Options) : List (Option Text) :=
  let given := o.paths.map some ++ o.inputs
  if given.isEmpty then [some ['.']] else given

/-- The options of a command line. -/
def parse (argv : List Text) : Except Halt Options := do
  let words ← (classifyAll argv).mapError .usage
  let (o, extras) ← readWords .before {} [] words
  if extras.isEmpty then return o else throw (.usage (.unrecognized extras))

end Synopsis.Cli
