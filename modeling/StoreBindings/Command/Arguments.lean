/-!
# The arguments of the command line

A command is called with one verb, of which `transform` needs a file. Before and after the verb
there can be options, each with a value: `--root x`, `--root=x`, and for the root also `-r x`,
`-rx` and `-r=x`. An option may be given once before the verb and once after it; the latter counts.
Everything behind `--` is taken literally. Arguments that are not of this form are refused, and the
reading of arguments ends with the first that asks for the version or for help.
-/

namespace StoreBindings.Command

/-- What is to be done. -/
inductive Verb
  | build | watch | transform
deriving DecidableEq, Repr

namespace Verb

/-- The verb that a word means. -/
def ofWord? : String → Option Verb
  | "build" | "b" => some build
  | "watch" | "w" => some watch
  | "transform" => some transform
  | _ => none

end Verb

/-- The options. -/
inductive OptionName
  | root | storesPath | declarationsName
deriving DecidableEq, Repr

namespace OptionName

/-- The option that a word behind two dashes means. -/
def ofWord? : List Char → Option OptionName
  | cs =>
    if cs = "root".toList then some root
    else if cs = "stores-path".toList then some storesPath
    else if cs = "stores-file-name".toList then some declarationsName
    else none

/-- Whether the value of an option may be empty: a path may not. -/
def admitsEmpty : OptionName → Bool
  | declarationsName => true
  | root | storesPath => false

end OptionName

/-- The values that options are given. -/
structure Options where
  root : Option String
  storesPath : Option String
  declarationsName : Option String
deriving DecidableEq, Repr

namespace Options

/-- No option has a value. -/
def empty : Options := ⟨none, none, none⟩

def get? (o : Options) : OptionName → Option String
  | .root => o.root
  | .storesPath => o.storesPath
  | .declarationsName => o.declarationsName

/-- Give an option a value that it does not have yet. -/
def set? (o : Options) (name : OptionName) (value : String) : Option Options :=
  if (o.get? name).isSome || value.isEmpty && !name.admitsEmpty then none
  else
    some <| match name with
      | .root => { o with root := some value }
      | .storesPath => { o with storesPath := some value }
      | .declarationsName => { o with declarationsName := some value }

/-- The values of some options, and of others where those have none. -/
def orElse (o p : Options) : Options :=
  ⟨o.root.or p.root, o.storesPath.or p.storesPath, o.declarationsName.or p.declarationsName⟩

end Options

/-- A task, with all that it needs. -/
inductive Task
  | build
  | watch
  | transform (file : String)
deriving DecidableEq, Repr

/-- What arguments ask for. -/
inductive Request
  | perform (task : Task) (options : Options)
  | version
  | help
  /-- The arguments are refused. -/
  | refused
deriving DecidableEq, Repr

/-- What has been read of the arguments. -/
structure Reading where
  verb : Option Verb
  /-- The options before the verb. -/
  outer : Options
  /-- The options after the verb. -/
  inner : Options
  file : Option String
  /-- An option that still needs its value. -/
  pending : Option OptionName
  /-- Whether everything is taken literally from here on. -/
  literal : Bool
deriving DecidableEq, Repr

namespace Reading

/-- Nothing has been read yet. -/
def start : Reading := ⟨none, .empty, .empty, none, none, false⟩

/-- Give an option its value. -/
def setOption? (r : Reading) (name : OptionName) (value : List Char) : Option Reading :=
  let value := String.ofList value
  if r.verb.isSome then
    (r.inner.set? name value).map fun o => { r with inner := o, pending := none }
  else (r.outer.set? name value).map fun o => { r with outer := o, pending := none }

/-- Take an argument that is no option. -/
def takeWord? (r : Reading) (word : String) : Option Reading :=
  match r.verb with
  | none =>
    if r.literal then none else (Verb.ofWord? word).map fun v => { r with verb := some v }
  | some .transform =>
    if r.file.isSome || word.isEmpty then none else some { r with file := some word }
  | some _ => none

/-- The request at the end of the arguments. -/
def finish (r : Reading) : Request :=
  let options := r.inner.orElse r.outer
  match r.pending, r.verb, r.file with
  | none, some .build, _ => .perform .build options
  | none, some .watch, _ => .perform .watch options
  | none, some .transform, some file => .perform (.transform file) options
  | _, _, _ => .refused

/-- What an argument leads to: more reading, or a request at once. -/
inductive Next
  | reading (r : Reading)
  | done (q : Request)

def ofOption : Option Reading → Next
  | some r => .reading r
  | none => .done .refused

/-- Take an argument that begins with two dashes. -/
def takeLong (r : Reading) (arg : List Char) : Next :=
  let word := arg.takeWhile (· != '=')
  let value := (arg.dropWhile (· != '=')).drop 1
  let hasValue := word.length < arg.length
  if word = "help".toList ∧ !hasValue then .done .help
  else if word = "version".toList ∧ !hasValue ∧ r.verb.isNone then .done .version
  else
    match OptionName.ofWord? word with
    | none => .done .refused
    | some name =>
      if hasValue then ofOption (r.setOption? name value)
      else .reading { r with pending := some name }

/-- Take an argument that begins with one dash, given without it. -/
def takeShort (r : Reading) : List Char → Next
  | 'r' :: [] => .reading { r with pending := some .root }
  | 'r' :: '=' :: value => ofOption (r.setOption? .root value)
  | 'r' :: value => ofOption (r.setOption? .root value)
  | 'h' :: _ => .done .help
  | 'V' :: _ => .done (if r.verb.isNone then .version else .refused)
  | _ => .done .refused

/-- Take an argument. -/
def take (r : Reading) (arg : String) : Next :=
  if r.literal then ofOption (r.takeWord? arg)
  else
    match r.pending, arg.toList with
    | some _, '-' :: _ :: _ => .done .refused
    | some name, value => ofOption (r.setOption? name value)
    | none, ['-', '-'] => .reading { r with literal := true }
    | none, '-' :: '-' :: long => r.takeLong long
    | none, '-' :: c :: short => r.takeShort (c :: short)
    | none, _ => ofOption (r.takeWord? arg)

/-- Whether an argument is the word `help` in the place of the verb. -/
def asksForHelp (r : Reading) (arg : String) : Bool :=
  r.verb.isNone && r.pending.isNone && !r.literal && arg == "help"

/-- What `help` with the arguments behind it asks for: help, on one verb at most. -/
def helpOn : List String → Request
  | [] => .help
  | [word] => if word = "help" ∨ (Verb.ofWord? word).isSome then .help else .refused
  | _ => .refused

/-- Read arguments one after the other. -/
def readAll (r : Reading) : List String → Request
  | [] => r.finish
  | arg :: args =>
    if r.asksForHelp arg then helpOn args
    else
      match r.take arg with
      | .reading r => readAll r args
      | .done q => q

end Reading

/-- What the arguments of a call ask for. -/
def Request.ofArguments (args : List String) : Request := Reading.start.readAll args

end StoreBindings.Command
