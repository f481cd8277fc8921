import EmbeddedTcl.Text.Digit
import EmbeddedTcl.Text.Quoted

/-!
# Command-line arguments

Sorts the arguments into options and files. Each argument is first read on its own, then they are
gone through in order. An option may be spelled by its letter, with more letters or its value
after it, or by its name, which may be cut short. The files must stand together.
-/

namespace EmbeddedTcl.CommandLine

inductive Flag where
  | help
  | command
  | verbose
  deriving DecidableEq

namespace Flag

def all : List Flag :=
  [help, command, verbose]

def letter : Flag → Char
  | help => 'h'
  | command => 'c'
  | verbose => 'v'

def long : Flag → List Char
  | help => "--help".toList
  | command => "--command".toList
  | verbose => "--verbose".toList

def takesValue : Flag → Bool
  | command => true
  | _ => false

def ofLetter? (c : Char) : Option Flag :=
  all.find? fun flag => flag.letter == c

/-- The flag that a text spells in full, and whether by its letter. -/
def ofSpelling? (text : List Char) : Option (Flag × Bool) :=
  match text with
  | ['-', c] => (ofLetter? c).map (·, true)
  | _ => (all.find? fun flag => flag.long == text).map (·, false)

/-- The flag's name in messages. -/
def title (flag : Flag) : String :=
  String.ofList ('-' :: flag.letter :: '/' :: flag.long)

end Flag

/-- What one argument is when read on its own. -/
inductive Item where
  /-- A known option: whether it is spelled by its letter, and the text attached to it. -/
  | option (flag : Flag) (byLetter : Bool) (attached : Option (List Char))
  /-- It looks like an option but names none. -/
  | unknown (text : String)
  /-- The first bare double dash. What follows is plain. -/
  | separator
  | plain (text : String)

/-- Decimal digits after a dash, with at most one point before the last of them. A newline at
the very end does not count. -/
def looksNegative : List Char → Bool
  | '-' :: text =>
    let number := if text.getLast? = some '\n' then text.dropLast else text
    let whole := number.takeWhile isDecimalDigit
    match number.dropWhile isDecimalDigit with
    | [] => !whole.isEmpty
    | '.' :: fraction => !fraction.isEmpty && fraction.all isDecimalDigit
    | _ => false
  | _ => false

/-- An argument that is no option: a number, a text with a blank in it, or a stray option. -/
def Item.ofOther (text : List Char) : Item :=
  if looksNegative text || text.contains ' ' then .plain (String.ofList text)
  else .unknown (String.ofList text)

/-- Reads an argument that starts with two dashes as a name that may be cut short. -/
def Item.ofName (text name : List Char) (attached : Option (List Char)) : Except String Item :=
  match Flag.all.filter fun flag => name.isPrefixOf flag.long with
  | [] => .ok (ofOther text)
  | [flag] => .ok (.option flag false attached)
  | flags =>
    .error ("ambiguous option: " ++ String.ofList text ++ " could match " ++
      ", ".intercalate (flags.map fun flag => String.ofList flag.long))

/-- Reads one argument on its own. -/
def Item.read (text : List Char) : Except String Item :=
  let name := text.takeWhile (· != '=')
  let attached := if text.contains '=' then some ((text.dropWhile (· != '=')).drop 1) else none
  match text, Flag.ofSpelling? name with
  | '-' :: _, some (flag, byLetter) => .ok (.option flag byLetter attached)
  | '-' :: '-' :: _, none => Item.ofName text name attached
  | '-' :: c :: value, none =>
    match Flag.ofLetter? c with
    | some flag => .ok (.option flag true (some value))
    | none => .ok (ofOther text)
  | _, _ => .ok (.plain (String.ofList text))

def Item.readAll : List String → Except String (List Item)
  | [] => .ok []
  | "--" :: rest => .ok (.separator :: rest.map .plain)
  | text :: rest => do
    let item ← Item.read text.toList
    let items ← Item.readAll rest
    return item :: items

/-- What remains to be done after the flags of one argument. -/
inductive Ending where
  | complete
  | needsValue
  | value (text : String)

/-- A flag with nothing attached. -/
def Flag.alone (flag : Flag) : List Flag × Ending :=
  if flag.takesValue then ([], .needsValue) else ([flag], .complete)

def Flag.ignored (flag : Flag) (attached : List Char) : String :=
  "argument " ++ flag.title ++ ": ignored explicit argument " ++
    Quoted.ofString (String.ofList attached)

/-- The flags that a row of letters stands for. A flag that takes a value takes all that is left of
the row. -/
def Flag.row (flag : Flag) : List Char → Except String (List Flag × Ending)
  | [] => .ok flag.alone
  | c :: rest =>
    if flag.takesValue then .ok ([], .value (String.ofList (c :: rest)))
    else
      match Flag.ofLetter? c with
      | none => .error (flag.ignored (c :: rest))
      | some next => (next.row rest).map fun r => (flag :: r.1, r.2)

/-- The flags of one argument. Text attached to a letter that takes no value is read as the letters
of more flags, with or without an equals sign in front. -/
def Flag.expand (flag : Flag) (byLetter : Bool) :
    (attached : Option (List Char)) → Except String (List Flag × Ending)
  | none => .ok flag.alone
  | some attached =>
    if flag.takesValue then .ok ([], .value (String.ofList attached))
    else if byLetter && !attached.isEmpty then flag.row attached
    else .error (flag.ignored attached)

structure Options where
  files : List String := []
  command : Option String := none
  verbose : Bool := false

inductive Invocation where
  | help
  | misuse (message : String)
  | evaluate (options : Options)

/-- Whether the files are still to come, are being read, or are over. -/
inductive Phase where
  | before
  | inside
  | after

structure Progress where
  options : Options := {}
  phase : Phase := .before
  extras : List String := []

namespace Progress

def addExtra (p : Progress) (text : String) : Progress :=
  { p with extras := p.extras ++ [text] }

/-- An option ends the files. -/
def endFiles (p : Progress) : Progress :=
  match p.phase with
  | .inside => { p with phase := .after }
  | _ => p

def addPlain (p : Progress) (text : String) : Progress :=
  match p.phase with
  | .after => p.addExtra text
  | _ => { p with phase := .inside, options.files := p.options.files ++ [text] }

def addSeparator (p : Progress) : Progress :=
  match p.phase with
  | .after => p.addExtra "--"
  | _ => { p with phase := .inside }

def setFlags (p : Progress) (flags : List Flag) : Progress :=
  { p with options.verbose := p.options.verbose || flags.contains .verbose }

/-- A double dash is no script: the inline script is then empty. -/
def setCommand (p : Progress) (text : String) : Progress :=
  { p with options.command := some (if text = "--" then "" else text) }

def finish (p : Progress) : Invocation :=
  if !p.extras.isEmpty then .misuse ("unrecognized arguments: " ++ " ".intercalate p.extras)
  else if p.options.files.isEmpty && p.options.command.isNone then
    .misuse "nothing to evaluate: give script files or -c"
  else .evaluate p.options

/-- Goes through the arguments in order. Help is given as soon as it is asked for. -/
def run (p : Progress) : List Item → Invocation
  | [] => p.finish
  | .plain text :: rest => (p.addPlain text).run rest
  | .separator :: rest => p.addSeparator.run rest
  | .unknown text :: rest => (p.endFiles.addExtra text).run rest
  | .option flag byLetter attached :: rest =>
    match flag.expand byLetter attached with
    | .error message => .misuse message
    | .ok (flags, ending) =>
      let next := p.endFiles.setFlags flags
      let helped := flags.contains .help
      match ending with
      | .complete => if helped then .help else next.run rest
      | .value text => if helped then .help else (next.setCommand text).run rest
      | .needsValue =>
        match rest with
        | .plain text :: rest' => if helped then .help else (next.setCommand text).run rest'
        | _ => .misuse ("argument " ++ Flag.command.title ++ ": expected one argument")

end Progress

/-- Reads a command line. -/
def Invocation.read (args : List String) : Invocation :=
  match Item.readAll args with
  | .error message => .misuse message
  | .ok items => ({} : Progress).run items

end EmbeddedTcl.CommandLine
