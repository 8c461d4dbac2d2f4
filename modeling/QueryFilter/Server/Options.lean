import QueryFilter.Decimal.Literal
import QueryFilter.Decimal.Power
import QueryFilter.Text.Split

/-!
# Options of the server

Options are given by name as words, `--server-port 80` or `--server-port=80`; a word that begins
with a hyphen is a value only after `=`, except for the hyphen alone.  Each option is given at most
once, but for the allowed origins, of which every word adds some.

The words are read from left to right.  A value is looked at when the next option comes, or after
the last word, so an option that does not exist is reported before a bad value in front of it.
-/

namespace QueryFilter

/-- What a server is told when it starts. -/
structure ServerOptions where
  /-- What every path begins with. -/
  rootPath : String := ""
  host : String := "0.0.0.0"
  port : Nat := 3333
  allowedOrigins : List String := ["http://localhost:5173"]
  backendUrl : String := "http://localhost:3000"
  /-- In seconds. -/
  backendTimeout : Nat := 10
  logFilter : String := "info"
  logJson : Bool := false
  deriving DecidableEq, Repr

/-- The options. -/
inductive OptionName where
  | rootPath
  | host
  | port
  | allowedOrigins
  | backendUrl
  | backendTimeout
  | logFilter
  | logJson
  | help
  | version
  deriving DecidableEq, Repr

namespace OptionName

/-- All options. -/
def all : List OptionName :=
  [.rootPath, .host, .port, .allowedOrigins, .backendUrl, .backendTimeout, .logFilter, .logJson,
    .help, .version]

/-- The name of an option, without the hyphens before it. -/
def name : OptionName → String
  | .rootPath => "server-root-path"
  | .host => "server-host"
  | .port => "server-port"
  | .allowedOrigins => "server-allowed-origins"
  | .backendUrl => "backend-url"
  | .backendTimeout => "backend-timeout-secs"
  | .logFilter => "log-filter"
  | .logJson => "log-json"
  | .help => "help"
  | .version => "version"

/-- The option of a given name. -/
def ofName? (name : String) : Option OptionName :=
  all.find? fun option => option.name == name

/-- The option of a given letter. -/
def ofLetter? (letter : Char) : Option OptionName :=
  if letter = 'h' then some .help else if letter = 'V' then some .version else none

/-- Whether an option has a value. -/
def takesValue : OptionName → Bool
  | .logJson | .help | .version => false
  | _ => true

/-- Whether an option may be given again. -/
def isRepeatable : OptionName → Bool
  | .allowedOrigins => true
  | _ => false

end OptionName

/-- Why the words do not start a server. -/
inductive OptionStop where
  /-- Help is asked for. -/
  | help
  /-- The version is asked for. -/
  | version
  | unknown (word : String)
  | missingValue (option : OptionName)
  | unneededValue (option : OptionName)
  | notANumber (option : OptionName) (word : String)
  | repeated (option : OptionName)
  deriving DecidableEq, Repr

/-- The words that tell why no server starts. -/
def OptionStop.message : OptionStop → String
  | .help =>
    "Options: " ++ Text.joinWith ", " (OptionName.all.map fun option => "--" ++ option.name)
  | .version => "query filter server"
  | .unknown word => "unknown option: " ++ word
  | .missingValue option => "missing value for --" ++ option.name
  | .unneededValue option => "no value is expected for --" ++ option.name
  | .notANumber option word => "no number in range for --" ++ option.name ++ ": " ++ word
  | .repeated option => "given more than once: --" ++ option.name

/-- A word, by the hyphens it begins with. -/
inductive OptionWord where
  /-- Two hyphens alone, after which nothing is an option. -/
  | terminator
  /-- The name of an option, perhaps with a value. -/
  | long (name : String) (value : Option String)
  /-- Letters of options. -/
  | short (letter : Char) (letters : List Char)
  | plain
  deriving DecidableEq, Repr

/-- The kind of a word. -/
def OptionWord.ofText (word : String) : OptionWord :=
  match word.toList with
  | ['-', '-'] => .terminator
  | '-' :: '-' :: cs =>
    match Text.cutAt '=' cs with
    | some (name, value) => .long (String.ofList name) (some (String.ofList value))
    | none => .long (String.ofList cs) none
  | '-' :: letter :: letters => .short letter letters
  | _ => .plain

namespace ServerOptions

/-- What was read of the words so far. -/
structure Gathered where
  options : ServerOptions
  /-- The options that were given. -/
  given : List OptionName
  /-- The option that waits for a value, or for its value to be looked at. -/
  waiting : Option (OptionName × Option String)

/-- The options with the value of one of them, if the value is one.  Origins are added to those that
were given. -/
def withValue? (gathered : Gathered) (option : OptionName) (word : String) :
    Option ServerOptions :=
  let options := gathered.options
  match option with
  | .rootPath => some { options with rootPath := word }
  | .host => some { options with host := word }
  | .port =>
    (Decimal.int64? word.toList).bind fun i =>
      if 0 ≤ i ∧ i < (Decimal.twoPow 16 : Nat) then some { options with port := i.toNat } else none
  | .allowedOrigins =>
    let before := if gathered.given.contains .allowedOrigins then options.allowedOrigins else []
    some { options with allowedOrigins := before ++ Text.pieces ',' word }
  | .backendUrl => some { options with backendUrl := word }
  | .backendTimeout =>
    (Decimal.natBelow? (Decimal.twoPow 64) word.toList).map fun n =>
      { options with backendTimeout := n }
  | .logFilter => some { options with logFilter := word }
  | .logJson | .help | .version => none

/-- Whether an option was given that is given at most once. -/
def Gathered.exhausted (gathered : Gathered) (option : OptionName) : Bool :=
  gathered.given.contains option && !option.isRepeatable

/-- Takes the value of an option. -/
def Gathered.take (gathered : Gathered) (option : OptionName) (word : String) :
    Except OptionStop Gathered :=
  if gathered.exhausted option then .error (.repeated option)
  else match withValue? gathered option word with
    | some options => .ok ⟨options, option :: gathered.given, none⟩
    | none => .error (.notANumber option word)

/-- Looks at the value that waits. -/
def Gathered.settle (gathered : Gathered) : Except OptionStop Gathered :=
  match gathered.waiting with
  | none => .ok gathered
  | some (option, none) => .error (.missingValue option)
  | some (option, some word) => gathered.take option word

/-- Acts on an option without a value. -/
def Gathered.switch (gathered : Gathered) (option : OptionName) : Except OptionStop Gathered :=
  match option with
  | .help => .error .help
  | .version => .error .version
  | _ =>
    if gathered.exhausted option then .error (.repeated option)
    else
      .ok { gathered with
        options := { gathered.options with logJson := true }
        given := option :: gathered.given }

/-- Reads one word. -/
def Gathered.read (gathered : Gathered) (word : String) : Except OptionStop Gathered :=
  match OptionWord.ofText word with
  | .long name value =>
    match OptionName.ofName? name with
    | none => .error (.unknown word)
    | some option =>
      if option.takesValue then
        gathered.settle.bind fun gathered =>
          match value with
          | some value => gathered.take option value
          | none => .ok { gathered with waiting := some (option, none) }
      else if value.isSome then .error (.unneededValue option)
      else gathered.settle.bind fun gathered => gathered.switch option
  | .short letter _ =>
    match OptionName.ofLetter? letter with
    | none => .error (.unknown word)
    | some option => gathered.settle.bind fun gathered => gathered.switch option
  | .terminator | .plain =>
    match gathered.waiting with
    | some (option, none) => .ok { gathered with waiting := some (option, some word) }
    | _ => .error (.unknown word)

/-- Reads words up to the last one, or up to a terminator, behind which nothing may follow. -/
def Gathered.readAll (gathered : Gathered) : List String → Except OptionStop Gathered
  | [] => gathered.settle
  | word :: words =>
    match OptionWord.ofText word, words with
    | .terminator, [] => gathered.settle
    | .terminator, extra :: _ => .error (.unknown extra)
    | _, _ => (gathered.read word).bind fun gathered => gathered.readAll words

/-- The options that words stand for. -/
def ofWords (words : List String) : Except OptionStop ServerOptions :=
  (Gathered.readAll ⟨{}, [], none⟩ words).map Gathered.options

/-- Whether a character may stand in a header. -/
def isHeaderChar (c : Char) : Bool :=
  (' ' ≤ c && c ≤ '~') || c == '\t'

/-- Whether the allowed origins can be compared with headers. -/
def originsAreHeaders (options : ServerOptions) : Bool :=
  options.allowedOrigins.all fun origin => origin.toList.all isHeaderChar

/-! ### Small lemmas -/

/-- No words leave every option as it is by default. -/
theorem ofWords_nil : ofWords [] = .ok {} := rfl

end ServerOptions

end QueryFilter
