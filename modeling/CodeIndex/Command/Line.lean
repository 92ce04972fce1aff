import CodeIndex.Text.Slice

/-!
# The command line

A command line is a list of words.  Words that start with a dash are options, by their
letter or their name, with a value where the option takes one; the first other word names
the command, and further ones are its arguments.  Two dashes end the options.

Words are taken in order, and the first one that is a mistake or asks for help or for the
version decides.  A value that is a word of its own is looked at when the reading goes on.
-/

namespace CodeIndex.Command

open Text

/-- What is to be done. -/
inductive Task where
  | build (rebuild concurrent : Bool)
  | lookup (name : String) (member : Option String)
  | search (query kind : String) (limit : Option Nat)
  | events (filter space : Option String)
  | schema (table component : Option String) (all : Bool)
  | stats
  deriving DecidableEq, Repr, Inhabited

/-- A command line that is understood. -/
structure Invocation where
  task : Task
  project : String := "."
  deriving DecidableEq, Repr, Inhabited

/-- What a command line asks for. -/
inductive Asked where
  | run (invocation : Invocation)
  | version
  | help
  | misuse
  deriving DecidableEq, Repr, Inhabited

/-- What an option takes along. -/
inductive Operand where
  | nothing
  | text
  | number
  deriving DecidableEq, Repr, Inhabited

/-- An option: its letter, its name, and what it takes along. -/
structure Switch where
  letter : Char
  name : String
  operand : Operand := .nothing
  deriving DecidableEq, Repr, Inhabited

/-- An option as given, by its letter, or another word. -/
inductive Given where
  | flag (letter : Char)
  | value (letter : Char) (text : String)
  | word (text : String)
  deriving DecidableEq, Repr, Inhabited

/-- The options of every command. -/
def sharedOptions : List Switch :=
  [⟨'p', "project", .text⟩, ⟨'d', "debug", .nothing⟩, ⟨'v', "verbose", .nothing⟩,
    ⟨'h', "help", .nothing⟩]

/-- The options in front of the command. -/
def frontOptions : List Switch := ⟨'V', "version", .nothing⟩ :: sharedOptions

/-- The names of the commands. -/
def commandNames : List String := ["build", "lookup", "search", "events", "schema", "stats"]

/-- The options of a command. -/
def optionsOf (command : String) : List Switch :=
  sharedOptions ++
    match command with
    | "build" => [⟨'r', "rebuild", .nothing⟩, ⟨'c', "concurrent", .nothing⟩]
    | "lookup" => [⟨'m', "member", .text⟩]
    | "search" => [⟨'k', "kind", .text⟩, ⟨'l', "limit", .number⟩]
    | "events" => [⟨'f', "filter", .text⟩, ⟨'n', "namespace", .text⟩]
    | "schema" => [⟨'t', "table", .text⟩, ⟨'c', "component", .text⟩, ⟨'a', "all", .nothing⟩]
    | _ => []

/-- The number of words that a command takes. -/
def roomOf (command : String) : Nat :=
  if command = "lookup" || command = "search" then 1 else 0

/-- Does a word look like an option?  A single dash does not. -/
def looksLikeOption (word : List Char) : Bool :=
  match word with
  | '-' :: _ :: _ => true
  | _ => false

/-- A number as a limit: digits with an optional plus sign, below the bound of a word. -/
def limit? (text : String) : Option Nat :=
  let cs := text.toList
  let ds := (stripStart? ['+'] cs).getD cs
  if ds.isEmpty || !ds.all Char.isDigit then none
  else
    let n := ds.foldl (fun n d => n * 10 + (d.toNat - '0'.toNat)) 0
    if n < Nat.pow 2 64 then some n else none

/-- Is the text a value that the option takes? -/
def Switch.admits (o : Switch) (text : String) : Bool :=
  match o.operand with
  | .nothing => false
  | .text => true
  | .number => (limit? text).isSome

/-- The letter of an option that is given. -/
def Given.letter? : Given → Option Char
  | .flag c => some c
  | .value c _ => some c
  | .word _ => none

/-- What was read so far, and an option whose value was the last word, which counts once the
reading goes on. -/
structure Reading where
  given : List Given := []
  waiting : Option (Switch × String) := none
  deriving Inhabited

namespace Reading

/-- Add an option; no option is given twice. -/
def add (r : Reading) (letter : Char) (given : Given) : Except Asked Reading :=
  if r.given.any fun g => g.letter? == some letter then .error .misuse
  else .ok { r with given := r.given ++ [given] }

/-- Add an option with its value. -/
def addValue (r : Reading) (o : Switch) (text : String) : Except Asked Reading :=
  if o.admits text then r.add o.letter (.value o.letter text) else .error .misuse

/-- Count the option that waits. -/
def settle (r : Reading) : Except Asked Reading :=
  match r.waiting with
  | none => .ok r
  | some (o, text) => ({ r with waiting := none } : Reading).addValue o text

/-- Take an option without a value.  One that asks for help or for the version ends the
reading. -/
def takeFlag (r : Reading) (letter : Char) : Except Asked Reading := do
  let r ← r.settle
  if letter = 'h' then .error .help
  else if letter = 'V' then .error .version
  else r.add letter (.flag letter)

/-- Take an option with its value in the same word. -/
def takeValue (r : Reading) (o : Switch) (value : List Char) : Except Asked Reading := do
  (← r.settle).addValue o (String.ofList value)

/-- Take an option whose value is the next word, which must not look like an option. -/
def takeNext (r : Reading) (o : Switch) : List String → Except Asked (Reading × List String)
  | word :: rest =>
    if looksLikeOption word.toList then .error .misuse
    else do
      let r ← r.settle
      .ok ({ r with waiting := some (o, word) }, rest)
  | [] => .error .misuse

/-- Take a word that is no option, if there is room for it. -/
def takeWord (r : Reading) (room : Nat) (word : String) : Except Asked Reading := do
  let r ← r.settle
  if (r.given.filter fun g => g.letter?.isNone).length < room then
    .ok { r with given := r.given ++ [.word word] }
  else .error .misuse

/-- Take an option by its name, with what stands after an equals sign. -/
def takeName (r : Reading) (options : List Switch) (body : List Char) (rest : List String) :
    Except Asked (Reading × List String) :=
  let (name, value) := match splitOnce? '=' body with
    | some (name, value) => (name, some value)
    | none => (body, none)
  match options.find? fun o => o.name.toList == name with
  | none => .error .misuse
  | some o =>
    match o.operand, value with
    | .nothing, none => (r.takeFlag o.letter).map (·, rest)
    | .nothing, some _ => .error .misuse
    | _, some value => (r.takeValue o value).map (·, rest)
    | _, none => r.takeNext o rest

/-- Take the letters after a dash: flags, and at most one option with a value, which is the
rest of the word or else the next word. -/
def takeLetters (r : Reading) (options : List Switch) (rest : List String) :
    List Char → Except Asked (Reading × List String)
  | [] => .ok (r, rest)
  | c :: more =>
    match options.find? fun o => o.letter == c with
    | none => .error .misuse
    | some o =>
      match o.operand, more with
      | .nothing, _ => do (← r.takeFlag c).takeLetters options rest more
      | _, [] => r.takeNext o rest
      | _, '=' :: value => (r.takeValue o value).map (·, rest)
      | _, value => (r.takeValue o value).map (·, rest)

/-- Take an option word. -/
def takeOption (r : Reading) (options : List Switch) (word : List Char) (rest : List String) :
    Except Asked (Reading × List String) :=
  match word with
  | '-' :: '-' :: body => r.takeName options body rest
  | _ => r.takeLetters options rest (word.drop 1)

/-- Take the words after a command to the end. -/
def takeAll (options : List Switch) (room : Nat) : Nat → Reading → List String →
    Except Asked Reading
  | 0, _, _ => .error .misuse
  | _ + 1, r, [] => r.settle
  | fuel + 1, r, word :: rest => do
    if word = "--" then (← rest.foldlM (fun r word => r.takeWord room word) r).settle
    else if looksLikeOption word.toList then
      let (r, rest) ← r.takeOption options word.toList rest
      takeAll options room fuel r rest
    else takeAll options room fuel (← r.takeWord room word) rest

end Reading

/-- Is this letter given as a flag? -/
def isFlag (letter : Char) (given : List Given) : Bool := given.contains (.flag letter)

/-- The value given for a letter. -/
def valueOf (letter : Char) (given : List Given) : Option String :=
  given.findSome? fun g =>
    match g with
    | .value c text => if c = letter then some text else none
    | _ => none

/-- The words that are no options. -/
def wordsOf (given : List Given) : List String :=
  given.filterMap fun g =>
    match g with
    | .word text => some text
    | _ => none

/-- An optional limit; a text that is no number is a mistake. -/
def limitOf (given : List Given) : Option (Option Nat) :=
  match valueOf 'l' given with
  | none => some none
  | some text => (limit? text).map some

/-- The task of a command with its options and words. -/
def taskOf (command : String) (given : List Given) : Option Task :=
  let text (c : Char) := valueOf c given
  match command, wordsOf given with
  | "build", [] => some (.build (isFlag 'r' given) (isFlag 'c' given))
  | "lookup", [name] => some (.lookup name (text 'm'))
  | "search", [query] => (limitOf given).map (.search query ((text 'k').getD "all"))
  | "events", [] => some (.events (text 'f') (text 'n'))
  | "schema", [] =>
    let table := text 't'
    let component := text 'c'
    let all := isFlag 'a' given
    if (table.isSome && (component.isSome || all)) || (component.isSome && all) then none
    else some (.schema table component all)
  | "stats", [] => some .stats
  | _, _ => none

/-- Does a request for help name at most one command? -/
def namesCommand (words : List String) : Bool :=
  match words with
  | [] => true
  | [word] => word = "help" || commandNames.contains word
  | _ => false

/-- Read the part of a command line after the command; `front` is what stood before it. -/
def readCommand (front : Reading) (command : String) (words : List String) :
    Except Asked Invocation := do
  if command = "help" then .error (if namesCommand words then .help else .misuse)
  else if !commandNames.contains command then .error .misuse
  else
    let r ← Reading.takeAll (optionsOf command) (roomOf command) (words.length + 1) {} words
    let front ← front.settle
    match taskOf command r.given with
    | none => .error .misuse
    | some task => .ok ⟨task, ((valueOf 'p' r.given).or (valueOf 'p' front.given)).getD "."⟩

/-- Read the options in front of the command, then the command. -/
def readFront : Nat → Reading → List String → Except Asked Invocation
  | 0, _, _ => .error .misuse
  | _ + 1, _, [] => .error .misuse
  | fuel + 1, r, word :: rest => do
    if word = "--" then .error .misuse
    else if looksLikeOption word.toList then
      let (r, rest) ← r.takeOption frontOptions word.toList rest
      readFront fuel r rest
    else readCommand r word rest

/-- What a command line asks for. -/
def ask (words : List String) : Asked :=
  match readFront (words.length + 1) {} words with
  | .ok invocation => .run invocation
  | .error asked => asked

end CodeIndex.Command
