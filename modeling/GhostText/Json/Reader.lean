import GhostText.Json.Value

namespace GhostText.Json

def isSpace (c : Char) : Bool :=
  c = ' ' || c = '\t' || c = '\n' || c = '\r'

def skipSpace (t : Text) : Text :=
  t.dropWhile isSpace

def hexValue? (c : Char) : Option Nat :=
  if '0' ≤ c && c ≤ '9' then some (c.toNat - 48)
  else if 'a' ≤ c && c ≤ 'f' then some (c.toNat - 87)
  else if 'A' ≤ c && c ≤ 'F' then some (c.toNat - 55)
  else none

-- Each reader gives what stands at the front of a text and what follows, or nothing if the text is malformed there.

-- Four hexadecimal digits.
def unit? : Text → Option (Nat × Text)
  | a :: b :: c :: d :: rest => do
    let a ← hexValue? a
    let b ← hexValue? b
    let c ← hexValue? c
    let d ← hexValue? d
    some (4096 * a + 256 * b + 16 * c + d, rest)
  | _ => none

-- Characters beyond the first 65536 are written as two units; half a pair is no character.
def character? (t : Text) : Option (Char × Text) := do
  let (high, rest) ← unit? t
  if 0xD800 ≤ high && high < 0xDC00 then
    match rest with
    | '\\' :: 'u' :: more => do
      let (low, rest) ← unit? more
      if 0xDC00 ≤ low && low < 0xE000 then
        some (Char.ofNat (0x10000 + (high - 0xD800) * 0x400 + (low - 0xDC00)), rest)
      else none
    | _ => none
  else if 0xDC00 ≤ high && high < 0xE000 then none
  else some (Char.ofNat high, rest)

def simpleEscape? : Char → Option Char
  | '\x22' => some '\x22'
  | '\\'   => some '\\'
  | '/'    => some '/'
  | 'b'    => some '\x08'
  | 'f'    => some '\x0c'
  | 'n'    => some '\n'
  | 'r'    => some '\r'
  | 't'    => some '\t'
  | _      => none

-- The characters up to the closing quote. The fuel bounds their number.
def characters? : Nat → Text → Text → Option (Text × Text)
  | 0, _, _ => none
  | _, _, [] => none
  | fuel + 1, done, c :: rest =>
    if c = '\x22' then some (done.reverse, rest)
    else if c = '\\' then
      match rest with
      | 'u' :: more => do
        let (c, rest) ← character? more
        characters? fuel (c :: done) rest
      | e :: more => do
        let c ← simpleEscape? e
        characters? fuel (c :: done) more
      | [] => none
    else if c.toNat < 0x20 then none
    else characters? fuel (c :: done) rest

-- The rest of a text whose opening quote has been read.
def string? (t : Text) : Option (Text × Text) :=
  characters? (t.length + 1) [] t

def keyword? (t : Text) : Option (Json × Text) :=
  [("null", Json.null), ("true", .bool true), ("false", .bool false)].findSome? fun (word, value) =>
    if word.toList.isPrefixOf t then some (value, t.drop word.length) else none

-- A value that has no parts.
def scalar? (t : Text) : Option (Json × Text) :=
  match t with
  | '\x22' :: rest => (string? rest).map fun (s, rest) => (.text s, rest)
  | _ => keyword? t <|> (Number.read? t).map fun (n, rest) => (.number n, rest)

mutual

-- The fuel bounds the number of characters and of values read.
def value? : Nat → Text → Option (Json × Text)
  | 0, _ => none
  | fuel + 1, t =>
    match skipSpace t with
    | '[' :: rest =>
      match skipSpace rest with
      | ']' :: rest => some (.array [], rest)
      | rest => items? fuel [] rest
    | '{' :: rest =>
      match skipSpace rest with
      | '}' :: rest => some (.object [], rest)
      | rest => members? fuel [] rest
    | t => scalar? t

def items? : Nat → List Json → Text → Option (Json × Text)
  | 0, _, _ => none
  | fuel + 1, done, t => do
    let (v, rest) ← value? fuel t
    match skipSpace rest with
    | ',' :: rest => items? fuel (v :: done) rest
    | ']' :: rest => some (.array (v :: done).reverse, rest)
    | _ => none

def members? : Nat → List (Text × Json) → Text → Option (Json × Text)
  | 0, _, _ => none
  | fuel + 1, done, t =>
    match skipSpace t with
    | '\x22' :: rest => do
      let (key, rest) ← string? rest
      match skipSpace rest with
      | ':' :: rest => do
        let (v, rest) ← value? fuel rest
        match skipSpace rest with
        | ',' :: rest => members? fuel ((key, v) :: done) rest
        | '}' :: rest => some (.object ((key, v) :: done).reverse, rest)
        | _ => none
      | _ => none
    | _ => none

end

-- A text that is one value, with nothing but space around it.
def ofText? (t : Text) : Option Json :=
  match value? (2 * t.length + 2) t with
  | some (v, rest) => if (skipSpace rest).isEmpty then some v else none
  | none => none

end GhostText.Json
