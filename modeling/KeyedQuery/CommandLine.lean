import KeyedQuery.Dataset

/-!
# Command line arguments

The arguments of the two commands, as data.  An option has its value behind an
equals sign or in the next argument, and a later option wins over an earlier one.
-/

namespace KeyedQuery

/-- What the program is asked to do. -/
inductive Invocation where
  | explain (command : Command)
  | query (command : Command) (data : TextFile) (pageSize : Nat) (config : ReadConfig)

/-- Why arguments are no invocation. -/
inductive UsageError where
  | commandUnknown (word : String)
  | commandMissing
  | optionUnknown (word : String)
  | valueMissing (option : String)
  | valueInvalid (option value : String)
  | optionMissing (option : String)
deriving DecidableEq, Repr

def UsageError.message : UsageError → String
  | .commandUnknown word => "unknown command " ++ word
  | .commandMissing => "expected the command query or explain"
  | .optionUnknown word => "unexpected argument " ++ word
  | .valueMissing option => "missing value of " ++ option
  | .valueInvalid option value => "invalid value " ++ value ++ " of " ++ option
  | .optionMissing option => "missing option " ++ option

/-- Options with their values, the latest first. -/
abbrev Options := List (String × String)

namespace Options

/-- The long name of an option, and whether the program knows it. -/
def canonical? (word : String) : Option String :=
  match word with
  | "-s" => some "--schema"
  | "-m" => some "--model"
  | "-f" => some "--filter"
  | "-d" => some "--data"
  | _ =>
      if ["--schema", "--model", "--filter", "--data", "--format", "--page-size",
          "--timeout-ms", "--max-pages"].contains word then
        some word
      else
        none

/-- An argument cut at its first equals sign. -/
def splitAssignment (argument : String) : String × Option String :=
  let chars := argument.toList
  match chars.dropWhile fun c => c != '=' with
  | _ :: value => (String.ofList (chars.takeWhile fun c => c != '='), some (String.ofList value))
  | [] => (argument, none)

/-- Read options, and return the words that are none. -/
def read (options : Options) (words : List String) :
    List String → Except UsageError (Options × List String)
  | [] => .ok (options, words.reverse)
  | argument :: rest =>
      let (word, value) := splitAssignment argument
      match canonical? word with
      | none =>
          if argument.startsWith "-" then
            .error (.optionUnknown argument)
          else
            read options (argument :: words) rest
      | some name =>
          match value with
          | some value => read ((name, value) :: options) words rest
          | none =>
              match rest with
              | value :: rest => read ((name, value) :: options) words rest
              | [] => .error (.valueMissing name)

def required (options : Options) (name : String) : Except UsageError String :=
  match options.lookup name with
  | some value => .ok value
  | none => .error (.optionMissing name)

/-- A count, which has a default. -/
def count (options : Options) (name : String) (default : Nat) : Except UsageError Nat :=
  match options.lookup name with
  | none => .ok default
  | some value =>
      match Decimal.readDigits value.toList with
      | some n => .ok n
      | none => .error (.valueInvalid name value)

/-- The output format, which is a document unless lines are wanted. -/
def format (options : Options) : Except UsageError OutputFormat :=
  match options.lookup "--format" with
  | none => .ok .json
  | some "json" => .ok .json
  | some "lines" => .ok .lines
  | some value => .error (.valueInvalid "--format" value)

/-- A file that is yet to be read. -/
def file (options : Options) (name : String) : Except UsageError TextFile := do
  .ok ⟨← options.required name, none⟩

/-- What both commands are told. -/
def command (options : Options) : Except UsageError Command := do
  .ok {
    schema := ← options.file "--schema"
    model := ← options.required "--model"
    filter := (options.lookup "--filter").getD "\x7b\x7d"
    format := ← options.format }

/-- The limits of a read; a timeout of zero is none. -/
def config (options : Options) : Except UsageError ReadConfig := do
  let maxPages ← options.count "--max-pages" ReadConfig.default.maxPages
  let timeout ← options.count "--timeout-ms" 30000
  let limits := ReadConfig.default.withMaxPages maxPages
  .ok (if timeout = 0 then limits.withoutTimeout else limits.withTimeout timeout)

end Options

namespace Invocation

/-- The invocation that arguments stand for; its files are yet to be read. -/
def ofArguments (arguments : List String) : Except UsageError Invocation := do
  let (options, words) ← Options.read [] [] arguments
  match words with
  | [] => .error .commandMissing
  | ["explain"] => .ok (.explain (← options.command))
  | ["query"] =>
      let pageSize ← options.count "--page-size" MemoryStore.defaultPageSize
      .ok (.query (← options.command) (← options.file "--data") pageSize (← options.config))
  | ["explain", word] => .error (.optionUnknown word)
  | ["query", word] => .error (.optionUnknown word)
  | word :: _ => .error (.commandUnknown word)

def files : Invocation → List String
  | .explain c => [c.schema.name]
  | .query c data _ _ => [c.schema.name, data.name]

/-- The invocation with the texts of its files. -/
def withTexts (text : String → Option String) : Invocation → Invocation
  | .explain c => .explain { c with schema := ⟨c.schema.name, text c.schema.name⟩ }
  | .query c data pageSize config =>
      .query { c with schema := ⟨c.schema.name, text c.schema.name⟩ }
        ⟨data.name, text data.name⟩ pageSize config

def output : Invocation → Except DatasetError String
  | .explain c => c.explain
  | .query c data pageSize config => c.run data pageSize config .idle

end Invocation

end KeyedQuery
