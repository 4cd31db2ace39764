import GhostText.Json.Reader
import GhostText.Settings.Basic

namespace GhostText.Settings

def describe : Json → String
  | .null                => "null"
  | .bool _              => "bool"
  | .number (.whole _)   => "int"
  | .number (.decimal _) => "float"
  | .text _              => "str"
  | .array _             => "array"
  | .object _            => "object"

-- Why data cannot be the value of a field.
inductive Unfit
  | otherShape
  -- a number beyond the range of doubles
  | beyondDoubles
  -- a whole number with too many digits
  | tooLong
deriving DecidableEq, Repr

def Unfit.complaint (f : Field) (given : String) : Unfit → Complaint
  | otherShape    => .wrongShape f given
  | beyondDoubles => .numberTooLarge (some f)
  | tooLong       => .wholeTooLarge f

-- A double without a fraction, as long as doubles are dense enough to tell whole numbers apart.
def exactWhole (x : Float) : Except Unfit Int :=
  if x.abs ≤ 9007199254740992.0 && x == x.floor then
    let n : Int := x.abs.toUInt64.toNat
    .ok (if x < 0.0 then -n else n)
  else .error .otherShape

def finite (n : Json.Number) : Except Unfit Float :=
  if n.toFloat.isInf then .error .beyondDoubles else .ok n.toFloat

def boolOfNumber : Json.Number → Except Unfit Bool
  | .whole 0 => .ok false
  | .whole 1 => .ok true
  | _        => .error .otherShape

def lower (t : Text) : Text :=
  t.map Char.toLower

-- One of two words in any case, or a number that stands for one of them.
def boolOfText (t : Text) : Except Unfit Bool :=
  if lower t = "true".toList then .ok true
  else if lower t = "false".toList then .ok false
  else match Json.Number.ofText? t with
    | none => .error .otherShape
    | some n => do
      let _ ← finite n
      boolOfNumber n

def wholeOfText (t : Text) : Except Unfit Int :=
  match Json.Number.ofText? t with
  | none => .error .otherShape
  | some (.whole i) => if Json.Number.isTooLong i then .error .tooLong else .ok i
  | some n => do exactWhole (← finite n)

def unsigned (t : Text) : Bool × Text :=
  match t with
  | '-' :: t => (true, t)
  | t => (false, t)

-- A JSON number, or one of the values that JSON has no number for.
def floatOfText (t : Text) : Except Unfit Float :=
  match Json.Number.ofText? t with
  | some n => finite n
  | none =>
    let (negative, word) := unsigned t
    if lower word = "nan".toList then .ok (0.0 / 0.0)
    else if lower word = "inf".toList || lower word = "infinity".toList then
      .ok (if negative then -1.0 / 0.0 else 1.0 / 0.0)
    else .error .otherShape

-- The value of a field. Data is taken strictly as it is, or leniently: text may stand for a value, a number
-- without a fraction for a whole number, and one or zero for true or false.
def value (strict : Bool) : (s : Shape) → Json → Except Unfit s.Value
  | .bool, .bool b => .ok b
  | .bool, .number n => if strict then .error .otherShape else boolOfNumber n
  | .bool, .text t => if strict then .error .otherShape else boolOfText t
  | .int, .number (.whole i) => .ok i
  | .int, .number (.decimal d) => if strict then .error .otherShape else exactWhole d.toFloat
  | .int, .text t => if strict then .error .otherShape else wholeOfText t
  | .float, .number (.whole i) => finite (.whole i)
  | .float, .number (.decimal d) => .ok d.toFloat
  | .float, .text t => if strict then .error .otherShape else floatOfText t
  | _, _ => .error .otherShape

def assign (strict : Bool) (s : Settings) (f : Field) (v : Json) : Except Complaint Settings :=
  match value strict f.shape v with
  | .ok value => .ok (s.set f value)
  | .error e => .error (e.complaint f (describe v))

def assignNamed (strict : Bool) (s : Settings) (name : Text) (v : Json) : Except Complaint Settings :=
  match Field.ofName? name with
  | none => .error (.unknownField name)
  | some f => assign strict s f v

-- Settings from values of the right shapes. A field without a value keeps its default.
def ofValues (values : List ((f : Field) × f.shape.Value)) : Except Complaint Settings :=
  (values.foldl (fun s value => s.set value.1 value.2) ({} : Settings)).check

-- Settings from a table. What it does not name keeps its default.
def ofTable (strict : Bool) (table : List (Text × Json)) : Except Complaint Settings := do
  let s ← table.foldlM (fun s (name, v) => assignNamed strict s name v) {}
  s.check

def variableName (f : Field) : Text :=
  "AUTOTAB_".toList ++ f.name.toList.map Char.toUpper

-- Settings from environment variables, one for each field.
def ofEnvironment (env : List (Text × Text)) : Except Complaint Settings := do
  let s ← Field.all.foldlM (fun s f =>
    match env.lookup (variableName f) with
    | some t => assign false s f (.text t)
    | none => .ok s) {}
  s.check

-- A number in JSON text, as it is taken for a field. It must not be too large.
def numberFor (f : Field) (n : Json.Number) : Except Unfit Json.Number :=
  match if f.shape = .int then n else n.widened with
  | .whole i => if Json.Number.isTooLong i then .error .tooLong else .ok (.whole i)
  | n => do
    let _ ← finite n
    return n

-- Assign a value from JSON text.
def assignRead (s : Settings) (f : Field) (v : Json) : Except Complaint Settings :=
  match v with
  | .number n =>
    match numberFor f n with
    | .ok n => assign true s f (.number n)
    | .error e => .error (e.complaint f (describe v))
  | v => assign true s f v

-- A value read as far as is needed to take or refuse it: of an array or object the bracket is enough.
def front? (t : Text) : Option (Json × Text) :=
  match t with
  | '[' :: rest => some (.array [], rest)
  | '\x7b' :: rest => some (.object [], rest)
  | _ => Json.scalar? t

-- The members of an object whose brace has been read. Each is taken or refused before the next is looked at.
def members : Nat → Settings → Text → Except Complaint (Settings × Text)
  | 0, _, _ => .error .malformed
  | fuel + 1, s, t =>
    match Json.skipSpace t with
    | '\x22' :: rest =>
      match Json.string? rest with
      | none => .error .malformed
      | some (name, rest) =>
        match Json.skipSpace rest with
        | ':' :: rest =>
          match Field.ofName? name with
          | none => .error (.unknownField name)
          | some f =>
            match front? (Json.skipSpace rest) with
            | none => .error .malformed
            | some (v, rest) => do
              let s ← assignRead s f v
              match Json.skipSpace rest with
              | ',' :: rest => members fuel s rest
              | '\x7d' :: rest => .ok (s, rest)
              | _ => .error .malformed
        | _ => .error .malformed
    | _ => .error .malformed

def onlySpace (s : Settings) (rest : Text) : Except Complaint Settings :=
  if (Json.skipSpace rest).isEmpty then .ok s else .error .malformed

-- Settings from the text of a JSON object.
def ofJson (t : Text) : Except Complaint Settings :=
  match Json.skipSpace t with
  | '\x7b' :: rest =>
    match Json.skipSpace rest with
    | '\x7d' :: rest => do onlySpace (← check {}) rest
    | _ => do
      let (s, rest) ← members (t.length + 1) {} rest
      onlySpace (← s.check) rest
  | t =>
    match front? t with
    | none => .error .malformed
    | some (.number n, _) =>
      .error (if n.toFloat.isInf then .numberTooLarge none else .notAnObject (describe (.number n.widened)))
    | some (v, _) => .error (.notAnObject (describe v))

end GhostText.Settings
