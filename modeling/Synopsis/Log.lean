import Synopsis.Text.Basic

/-!
# The log

Records have a level, the name of their source and a message; those at or above the level of the
program's logger are written, one line each. A logger without a level of its own takes the one that
holds everywhere else. Of a source that is not the program's, warnings and worse are written, without
level and source.
-/

namespace Synopsis

open Text

namespace Log

def debug : Int := 10
def info : Int := 20
def warning : Int := 30
def error : Int := 40
def critical : Int := 50

/-- The name of a level; any other level goes by its number. -/
def levelName (level : Int) : Text :=
  if level = 0 then "NOTSET".toList
  else if level = debug then "DEBUG".toList
  else if level = info then "INFO".toList
  else if level = warning then "WARNING".toList
  else if level = error then "ERROR".toList
  else if level = critical then "CRITICAL".toList
  else "Level ".toList ++ (toString level).toList

/-- The levels that a setting can name. -/
def named : List (String × Int) :=
  [("NOTSET", 0), ("DEBUG", debug), ("INFO", info), ("WARN", warning), ("WARNING", warning),
    ("ERROR", error), ("CRITICAL", critical), ("FATAL", critical)]

/-- The capital form of a letter, for those whose capital is an ASCII letter: besides ASCII itself
    the dotless i and the long s. -/
def capital (c : Char) : Char :=
  if c = 'ı' then 'I' else if c = 'ſ' then 'S' else c.toUpper

/-- The level that a setting names, in any case; without a setting, or with one that names none, it is
    the level of warnings. -/
def levelOf (setting : Option Text) : Int :=
  match setting with
  | none => warning
  | some t => ((named.find? fun n => n.1.toList == t.map capital).map Prod.snd).getD warning

/-- A message with its level and source. -/
structure Record where
  level : Int
  source : Text
  message : Text
deriving DecidableEq, Repr

/-- A record written on a line. -/
def Record.line (r : Record) : Text :=
  levelName r.level ++ ' ' :: r.source ++ ": ".toList ++ r.message

/-- The logger of the program: its level and how many outlets it writes to. -/
structure Logger where
  level : Int := 0
  outlets : Nat := 0
deriving DecidableEq, Repr

/-- Sets the level, which being verbose overrides, and gives the logger its one outlet. -/
def Logger.configure (l : Logger) (setting : Option Text) (verbose : Bool) : Logger :=
  ⟨if verbose then debug else levelOf setting, if l.outlets = 0 then 1 else l.outlets⟩

/-- The least level that is written: that of warnings when the logger has none. -/
def Logger.threshold (l : Logger) : Int := if l.level = 0 then warning else l.level

/-- The source that the program's other sources are below. -/
def program : Text := "contextit".toList

/-- Whether a record comes from the program. -/
def Record.isOwn (r : Record) : Bool := r.source = program || (program ++ ['.']).isPrefixOf r.source

/-- What is written of a record, if anything. -/
def Logger.written? (l : Logger) (r : Record) : Option Text :=
  if r.isOwn then if l.threshold ≤ r.level then some r.line else none
  else if warning ≤ r.level then some r.message else none

/-- What the logger writes of the given records. -/
def Logger.write (l : Logger) (records : List Record) : Text :=
  (records.filterMap l.written?).flatMap (· ++ ['\n'])

end Log

end Synopsis
