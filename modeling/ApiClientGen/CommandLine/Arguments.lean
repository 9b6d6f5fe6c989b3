/-
The arguments of the program.

Arguments that begin with a hyphen are options; long ones may be shortened as long as only
one option begins like that, and take their value behind an equals sign or from the next
argument.  Short ones may be written together, and the last of them may have its value
right behind it.  Two hyphens end the options.  The first run of other arguments fills the
name and the description, and every argument after that is one too many.
-/
import ApiClientGen.Number.Reading
import ApiClientGen.Settings.Saved

namespace ApiClientGen.CommandLine

open ApiClientGen.Number ApiClientGen.Settings ApiClientGen.Text

/-- What the arguments ask for. -/
structure Arguments where
  overrides : Overrides := {}
  /-- Whether the settings are to be saved, and nothing more. -/
  initConfig : Bool := false
  verbose : Bool := false
  deriving Repr

/-- Why the arguments are not taken. -/
inductive Refusal where
  /-- The arguments break the rules. -/
  | usage
  /-- Help is asked for. -/
  | help
  deriving DecidableEq, Repr

/-! ### The options -/

/-- What an option does. -/
inductive Action where
  | help
  | language
  | outputDir
  | flag
  | derive
  | examples (wanted : Bool)
  | initConfig
  | verbose
  deriving DecidableEq, Repr

namespace Action

/-- Whether an option takes a value. -/
def takesValue : Action → Bool
  | language | outputDir | flag | derive => true
  | help | examples _ | initConfig | verbose => false

/-- Whether a value may be given to an option. -/
def allows (value : String) : Action → Bool
  | language => Language.all.any fun l => l.name = value
  | flag => Flag.all.any fun f => f.name = value
  | _ => true

/-- What the arguments ask for with one more option. -/
def apply (value : String) (a : Arguments) : Action → Arguments
  | help => a
  | language => { a with overrides.language := value }
  | outputDir => { a with overrides.outputDir := value }
  | flag => { a with overrides.flags := a.overrides.flags ++ [value] }
  | derive => { a with overrides.derives := a.overrides.derives ++ [value] }
  | examples wanted => { a with overrides.examples := some wanted }
  | initConfig => { a with initConfig := true }
  | verbose => { a with verbose := true }

end Action

/-- The options by their names. -/
def options : List (String × Action) := [
  ("-h", .help), ("--help", .help), ("-l", .language), ("--lang", .language),
  ("-o", .outputDir), ("--output-dir", .outputDir), ("-c", .flag), ("--config", .flag),
  ("--derive", .derive), ("--examples", .examples true), ("--no-examples", .examples false),
  ("--init-config", .initConfig), ("-v", .verbose), ("--verbose", .verbose)]

/-! ### One argument -/

/-- What is written in one argument with an option. -/
inductive Attached where
  | nothing
  /-- Right behind its letter. -/
  | letters (s : String)
  /-- Behind an equals sign. -/
  | value (s : String)
  deriving DecidableEq, Repr

/-- What an argument is by itself. -/
inductive Word where
  /-- An option, with what is part of the argument. -/
  | option (action : Action) (attached : Attached)
  /-- An option that is not known. -/
  | unknown
  /-- No option. -/
  | plain
  deriving DecidableEq, Repr

/-- The text before the first equals sign and what is behind it. -/
def splitValue (s : String) : String × Attached :=
  match splitAtFirst (· == '=') s.toList with
  | (before, some behind) => (String.ofList before, .value (String.ofList behind))
  | (before, none) => (String.ofList before, .nothing)

/-- The options that an argument may mean by its beginning. -/
def candidates (s : String) : List Word :=
  if beginsWith s "--" then
    let (start, attached) := splitValue s
    (options.filter fun o => beginsWith o.1 start).map fun o => .option o.2 attached
  else
    let short := String.ofList (s.toList.take 2)
    (options.filter fun o => o.1 = short).map fun o =>
      .option o.2 (.letters (String.ofList (s.toList.drop 2)))

/-- Whether an argument is a negative number. -/
def isNegativeNumber (s : String) : Bool :=
  match s.toList with
  | '-' :: rest =>
    let rest := if rest.getLast? = some '\n' then rest.dropLast else rest
    let isDigits (ds : List Char) : Bool := !ds.isEmpty && ds.all fun c => (decimalDigit? c).isSome
    let (whole, fraction) := splitAtFirst (· == '.') rest
    match fraction with
    | none => isDigits whole
    | some digits => (whole.isEmpty || isDigits whole) && isDigits digits
  | _ => false

/-- What an argument is by itself, if that is clear. -/
def Word.of (s : String) : Except Refusal Word := do
  if !beginsWith s "-" then return .plain
  if let some action := options.lookup s then return .option action .nothing
  if s = "-" then return .plain
  let (name, attached) := splitValue s
  if attached ≠ .nothing then
    if let some action := options.lookup name then return .option action attached
  match candidates s with
  | _ :: _ :: _ => throw .usage
  | [word] => return word
  | [] => return if isNegativeNumber s || s.toList.contains ' ' then .plain else .unknown

/-- An argument with what it is, which behind the mark that ends the options is nothing special. -/
inductive Item where
  | word (text : String) (word : Word)
  /-- The mark that ends the options. -/
  | mark
  deriving DecidableEq, Repr

/-- The arguments with what they are. -/
def items : List String → Except Refusal (List Item)
  | [] => .ok []
  | s :: rest =>
    if s = "--" then .ok (.mark :: rest.map fun t => .word t .plain)
    else do return .word s (← Word.of s) :: (← items rest)

/-! ### Options -/

/-- The options that one argument stands for, with their values, and the arguments behind it. -/
structure Group where
  actions : List (Action × String)
  rest : List Item
  /-- Whether a letter is no option. -/
  hasUnknown : Bool := false

/-- The group with one more option in front, which takes no value. -/
def Group.behind (action : Action) (g : Group) : Group :=
  { g with actions := (action, "") :: g.actions }

/-- An option by itself: its value is the next argument. -/
def alone (action : Action) (rest : List Item) : Except Refusal Group :=
  if action.takesValue then
    match rest with
    | .word value .plain :: rest => .ok { actions := [(action, value)], rest }
    | _ => .error .usage
  else .ok { actions := [(action, "")], rest }

/-- An option with a value behind an equals sign. -/
def assigned (action : Action) (value : String) (rest : List Item) : Except Refusal Group :=
  if action.takesValue then .ok { actions := [(action, value)], rest } else .error .usage

/--
An option with letters behind its own: its value if it takes one, else further options.
A letter that is no option ends them.
-/
def withLetters (action : Action) (rest : List Item) : List Char → Except Refusal Group
  | [] => alone action rest
  | letter :: letters =>
    if action.takesValue then
      .ok { actions := [(action, String.ofList (letter :: letters))], rest }
    else if letter = '-' then .error .usage
    else
      match options.lookup (String.ofList ['-', letter]), letters with
      | none, _ => .ok { actions := [(action, "")], rest, hasUnknown := true }
      | some next, '=' :: value =>
        (assigned next (String.ofList value) rest).map (Group.behind action)
      | some next, letters => (withLetters next rest letters).map (Group.behind action)

/-- The options that one argument stands for. -/
def groupOf (action : Action) (attached : Attached) (rest : List Item) : Except Refusal Group :=
  match attached with
  | .nothing => alone action rest
  | .value s => assigned action s rest
  | .letters s => withLetters action rest s.toList

/-- Takes an option with its value. -/
def take (a : Arguments) (option : Action × String) : Except Refusal Arguments :=
  if option.1 = .help then .error .help
  else if !option.1.allows option.2 then .error .usage
  else .ok (option.1.apply option.2 a)

/-! ### Other arguments -/

/-- Takes at most one argument that is no option, and the mark that ends the options around it. -/
def takeOne : List Item → List String × List Item
  | .mark :: .word s .plain :: rest => (["--", s], rest)
  | .mark :: rest => (["--"], rest)
  | .word s .plain :: .mark :: rest => ([s, "--"], rest)
  | .word s .plain :: rest => ([s], rest)
  | rest => ([], rest)

/-- The argument among those taken, once the first mark is left out. -/
def valueOf (taken : List String) : String := ((taken.erase "--").head?).getD ""

/-- Takes name and description from the arguments at hand. -/
def takePlain (a : Arguments) (rest : List Item) : Arguments × List Item :=
  let (name, rest) := takeOne rest
  let (spec, rest) := takeOne rest
  ({ a with overrides.name := valueOf name, overrides.spec := valueOf spec }, rest)

/-- Whether any option is left. -/
def hasOption (rest : List Item) : Bool :=
  rest.any fun item => match item with
    | .word _ .plain => false
    | .word _ _ => true
    | .mark => false

/-- How far the arguments have been gone through. -/
structure Progress where
  arguments : Arguments := {}
  /-- Whether name and description have been taken. -/
  filled : Bool := false
  /-- Whether there was an argument too many. -/
  hasExtra : Bool := false

/-- Goes through the arguments, in at most as many steps as given. -/
def run (p : Progress) (rest : List Item) : Nat → Except Refusal Progress
  | 0 => .ok p
  | fuel + 1 =>
    if !hasOption rest then
      if p.filled then .ok { p with hasExtra := p.hasExtra || !rest.isEmpty }
      else
        let (a, rest) := takePlain p.arguments rest
        .ok { arguments := a, filled := true, hasExtra := p.hasExtra || !rest.isEmpty }
    else
      match rest with
      | .word _ (.option action attached) :: rest => do
        let g ← groupOf action attached rest
        let a ← g.actions.foldlM take p.arguments
        run { p with arguments := a, hasExtra := p.hasExtra || g.hasUnknown } g.rest fuel
      | .word _ .unknown :: rest => run { p with hasExtra := true } rest fuel
      | _ =>
        if p.filled then run { p with hasExtra := true } (rest.drop 1) fuel
        else
          let (a, rest) := takePlain p.arguments rest
          run { p with arguments := a, filled := true } rest fuel

/-- What the arguments of a program ask for. -/
def parse (args : List String) : Except Refusal Arguments := do
  let all ← items args
  let p ← run {} all (all.length + 1)
  if p.hasExtra then throw .usage
  return p.arguments

end ApiClientGen.CommandLine
