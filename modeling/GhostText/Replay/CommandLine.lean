import GhostText.Number.Integer
import GhostText.Replay.Report
import GhostText.Replay.Samples
import GhostText.Settings.Reading
import GhostText.Text.Distance

namespace GhostText.Replay

-- An option that is given without any value is left blank.
structure Options where
  -- a file to type
  ground    : Option Text := none
  sample    : Option Sample := some .python
  debounce  : Option Int := some 0
  accepting : Bool := true
  verbose   : Bool := false
deriving DecidableEq, Repr

-- Long options may be shortened as long as they stay apart, and short flags may share one dash.
namespace CommandLine

inductive Flag
  | help
  | noAccept
  | verbose
deriving DecidableEq, Repr

-- Options that take a value.
inductive Key
  | ground
  | sample
  | debounce
deriving DecidableEq, Repr

inductive Name
  | flag (f : Flag)
  | key (k : Key)
deriving DecidableEq, Repr

def longNames : List (Text × Name) :=
  [("--help".toList, .flag .help), ("--ground".toList, .key .ground), ("--example".toList, .key .sample),
   ("--debounce-ms".toList, .key .debounce), ("--no-accept".toList, .flag .noAccept),
   ("--verbose".toList, .flag .verbose)]

def shortFlag? : Char → Option Flag
  | 'h' => some .help
  | 'v' => some .verbose
  | _   => none

-- What an argument is, before any value is taken.
inductive Token
  | value (t : Text)
  | option (n : Name) (attached : Option Text)
  | flags (fs : List Flag)
  -- a flag that something else hangs on
  | misused
  | unknown
  -- the end of all options
  | stop
deriving DecidableEq, Repr

-- A dash, digits and maybe a point in front of or among them. A line feed may follow.
def isNegativeNumber (t : Text) : Bool :=
  match if t.getLast? = some '\n' then t.dropLast else t with
  | '-' :: rest =>
    let whole := rest.takeWhile fun c => (digitValue? c).isSome
    match rest.drop whole.length with
    | [] => !whole.isEmpty
    | '.' :: places => !places.isEmpty && places.all fun c => (digitValue? c).isSome
    | _ => false
  | _ => false

-- The part before an equals sign, and the part after it if there is one.
def splitAssignment (t : Text) : Text × Option Text :=
  let name := t.takeWhile (· ≠ '=')
  match t.drop name.length with
  | [] => (name, none)
  | _ :: value => (name, some value)

-- The flags that share a dash with the first one. An equals sign may stand in front of them.
def others? : Text → Option (List Flag)
  | [] => some []
  | ['='] => none
  | '=' :: rest => rest.mapM shortFlag?
  | rest => rest.mapM shortFlag?

-- An argument that can only be a value, although it starts with a dash.
def asValue (t : Text) : Token :=
  if isNegativeNumber t || t.contains ' ' then .value t else .unknown

def longOption (t : Text) : Option Token :=
  let (name, attached) := splitAssignment t
  match longNames.lookup name with
  | some n => some (.option n attached)
  | none =>
    match longNames.filter (name.isPrefixOf ·.1) with
    | [] => some (asValue t)
    | [(_, n)] => some (.option n attached)
    | _ => none

-- Nothing if the argument could be short for more than one option.
def token? (t : Text) : Option Token :=
  match t with
  | ['-'] => some (.value t)
  | ['-', '-'] => some .stop
  | '-' :: '-' :: _ => longOption t
  | '-' :: c :: rest =>
    match shortFlag? c with
    | none => some (asValue t)
    | some f =>
      match others? rest with
      | some fs => some (.flags (f :: fs))
      | none => some .misused
  | _ => some (.value t)

-- Why the command line leads to no replay.
inductive Ending
  | help
  | usage
deriving DecidableEq, Repr

structure Progress where
  options  : Options := {}
  -- which of the two sources of text were named
  byGround : Bool := false
  bySample : Bool := false
  -- arguments that belong to nothing
  extra    : Bool := false

def setFlag (p : Progress) : Flag → Except Ending Progress
  | .help     => .error .help
  | .noAccept => .ok { p with options := { p.options with accepting := false } }
  | .verbose  => .ok { p with options := { p.options with verbose := true } }

-- What a value stands for, if there is one. A value that stands for nothing is refused.
def valueOf (f : Text → Option α) : Option Text → Except Ending (Option α)
  | none => .ok none
  | some t =>
    match f t with
    | none => .error .usage
    | some a => .ok (some a)

-- A file and an example exclude each other.
def setKey (p : Progress) (k : Key) (value : Option Text) : Except Ending Progress := do
  match k with
  | .ground =>
    if p.bySample then .error .usage
    else return { p with options := { p.options with ground := value }, byGround := true }
  | .sample =>
    let sample ← valueOf Sample.ofName? value
    if p.byGround then .error .usage
    else return { p with options := { p.options with sample }, bySample := true }
  | .debounce =>
    let debounce ← valueOf integer? value
    return { p with options := { p.options with debounce } }

-- Two dashes behind the equals sign leave an option blank.
def attachedValue (t : Text) : Option Text :=
  if t = ['-', '-'] then none else some t

def take (p : Progress) : List Token → Except Ending Progress
  | [] => .ok p
  | .value _ :: rest => take { p with extra := true } rest
  | .unknown :: rest => take { p with extra := true } rest
  | .stop :: _ => .ok { p with extra := true }
  | .misused :: _ => .error .usage
  | .flags fs :: rest => do take (← fs.foldlM setFlag p) rest
  | .option (.flag f) none :: rest => do take (← setFlag p f) rest
  | .option (.flag _) (some _) :: _ => .error .usage
  | .option (.key k) (some t) :: rest => do take (← setKey p k (attachedValue t)) rest
  | .option (.key k) none :: .value t :: rest => do take (← setKey p k (some t)) rest
  | .option (.key _) none :: _ => .error .usage

-- Everything after the end of the options is a value.
def tokens? : List Text → Option (List Token)
  | [] => some []
  | t :: rest => do
    let token ← token? t
    if token = .stop then some (.stop :: rest.map .value) else return token :: (← tokens? rest)

def read (arguments : List Text) : Except Ending Options :=
  match tokens? arguments with
  | none => .error .usage
  | some tokens => do
    let p ← take {} tokens
    if p.extra then .error .usage else .ok p.options

end CommandLine

-- Names of files are brought into one form before they are used.
def normalPath (t : Text) : Text :=
  let parts := ((splitAt t).filter fun part => !part.isEmpty && part ≠ ['.'])
  let slashes := t.takeWhile (· = '/')
  let root : Text := if slashes.length = 2 then ['/', '/'] else if slashes.isEmpty then [] else ['/']
  let path := root ++ join parts
  if path.isEmpty then ['.'] else path
where
  splitAt : Text → List Text
    | [] => [[]]
    | c :: rest =>
      if c = '/' then [] :: splitAt rest
      else match splitAt rest with
        | [] => [[c]]
        | part :: parts => (c :: part) :: parts
  join : List Text → Text
    | [] => []
    | [part] => part
    | part :: parts => part ++ '/' :: join parts

-- Why a file cannot be read.
inductive FileError
  | missing (path : Text)
  | directory (path : Text)
  | tooLong (path : Text)
  -- a character that no path can hold
  | noPath

def FileError.message : FileError → Text
  | missing path => "[Errno 2] No such file or directory: ".toList ++ path.quoted
  | directory path => "[Errno 21] Is a directory: ".toList ++ path.quoted
  | tooLong path => "[Errno 36] File name too long: ".toList ++ path.quoted
  | noPath => "embedded null byte".toList

-- The settings in the environment, with the debounce time of the command line. One left blank is a list of none.
def settings (o : Options) (env : List (Text × Text)) : Except Settings.Complaint Settings := do
  let s ← Settings.ofEnvironment env
  match o.debounce with
  | none => .error (.wrongShape .debounce (Settings.describe (.array [])))
  | some debounce => ({ s with debounce }).check

-- Lines are alike when their similarity, out of a hundred, reaches a least score.
def scoring (least : Float) : Repeat.Likeness :=
  Repeat.reaching (fun line known => Text.similarity line known * 100.0) least

-- The service compares lines by their scores, and alarms ring in turn.
def setup (settings : Settings) : Service.Setup :=
  { settings with likeness := scoring }

def complain (c : Settings.Complaint) : Text :=
  "invalid configuration: ".toList ++ c.message?.getD []

-- What keeps a replay from its report.
inductive Refusal
  -- no file is named, and the example is left blank
  | noText
  | settings (complaint : Settings.Complaint)
  | replay (e : ReplayError)

-- Type a text, the file's if there is one, and give the lines of the report, together with the engine's notices.
def conduct (o : Options) (env : List (Text × Text)) (ground : Option Text) :
    Except Refusal (List String) × Array Notice :=
  match ground.map Text.normalizeBreaks <|> o.sample.map Sample.text with
  | none => (.error .noText, #[])
  | some truth =>
    match settings o env with
    | .error c => (.error (.settings c), #[])
    | .ok s =>
      match run (setup s) { answers := .continuing truth } o.accepting truth with
      | (.error e, notices) => (.error (.replay e), notices)
      | (.ok tally, notices) => (.ok (report o.verbose tally), notices)

end GhostText.Replay
