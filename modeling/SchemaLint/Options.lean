import SchemaLint.Decimal.Shortest
import SchemaLint.Json.Reader
import SchemaLint.Numeral
import SchemaLint.Text.Scan

/-! Options. Their defaults come from the environment; an options file overrides them and may add
others. The environment is read first, so a fault in it counts even if the file would override
it. -/

namespace SchemaLint
open SchemaLint.Text

/-- The variables of the environment that matter. -/
structure Environment where
  maxContentBytes : Option (List Char) := none
  allowedOrigins : Option (List Char) := none
  optionsPath : Option (List Char) := none

namespace Options

/-- What tells the names of options apart. A file can give pairs whose first item is no string;
numbers of one value are one name. -/
inductive Identity
  | text (s : List CodePoint)
  | null
  | whole (n : Int)
  | fraction (negative : Bool) (value : Binary)
  | infinite (negative : Bool)
  | nan
  deriving DecidableEq

/-- The name of an option and how it is spelt. -/
structure Name where
  identity : Identity
  spelling : List CodePoint

instance : BEq Name := ⟨fun a b => a.identity = b.identity⟩

def Name.ofText (s : List CodePoint) : Name :=
  ⟨.text s, s⟩

def Identity.ofReal : Real → Identity
  | .infinite negative => .infinite negative
  | .nan => .nan
  | .finite d => match d.nearest? with
    | none => .infinite d.negative
    | some b =>
      if b.isWhole then .whole (Numeral.signed d.negative b.floor) else .fraction d.negative b

def spellReal : Real → String
  | .infinite negative => if negative then "-Infinity" else "Infinity"
  | .nan => "NaN"
  | .finite d => String.ofList d.shortestText

/-- The name that a value is; lists and objects are none. -/
def Name.ofJson? : Json → Option Name
  | .str s => some (.ofText s)
  | .null => some ⟨.null, ofChars "null".toList⟩
  | .bool b => some ⟨.whole (if b then 1 else 0), ofChars (if b then "true" else "false").toList⟩
  | .int n => some ⟨.whole n, ofChars (toString n).toList⟩
  | .real r => some ⟨.ofReal r, ofChars (spellReal r).toList⟩
  | .list _ | .object _ => none

/-- Why options cannot be loaded. -/
inductive Fault
  /-- The environment's limit is no integer. -/
  | limit (fault : Numeral.Fault)
  /-- The file is not JSON. -/
  | notJson
  /-- An integer in the file is too long. -/
  | overlong (digits : Nat)
  /-- The file holds no collection. -/
  | notCollection
  /-- An element of the file is no collection, and so no pair. -/
  | elementNotCollection (index : Nat)
  /-- An element of the file has another number of items than two. -/
  | elementLength (index length : Nat)
  /-- A pair's first item cannot be a name. -/
  | notName
  deriving DecidableEq

def Fault.message? : Fault → Option String
  | .limit fault => some fault.message
  | .overlong digits => some (Numeral.Fault.overlong digits).message
  | .elementLength index length =>
    some ("dictionary update sequence element #" ++ toString index ++ " has length " ++
      toString length ++ "; 2 is required")
  | _ => none

end Options

/-- Options by name; a name that is set again keeps its place. -/
structure Options where
  entries : List (Options.Name × Json)

namespace Options

def maxContentBytes : Name := .ofText (ofChars "max_content_bytes".toList)

def allowedOrigins : Name := .ofText (ofChars "cors_allow_origins".toList)

/-- The limit where nothing sets it: one mebibyte. -/
def defaultLimit : Int := 1048576

def defaultPath : List Char := "/data/options.json".toList

def get? (o : Options) (name : Name) : Option Json :=
  o.entries.lookup name

def set (o : Options) (name : Name) (value : Json) : Options :=
  ⟨Json.put name value o.entries⟩

/-- The names between commas, without blank ones; any origin if none is left. -/
def origins (text : List Char) : List (List Char) :=
  match ((text.splitOn ',').map trim).filter (!·.isEmpty) with
  | [] => [['*']]
  | names => names

def ofEnvironment (env : Environment) : Except Fault Options :=
  let limit := match env.maxContentBytes with
    | some text => (Numeral.parse (ofChars text)).mapError Fault.limit
    | none => .ok defaultLimit
  limit.map fun limit =>
    let names := origins (env.allowedOrigins.getD ['*'])
    ⟨[(maxContentBytes, .int limit),
      (allowedOrigins, .list (names.map fun name => .str (ofChars name)))]⟩

/-- The items of a value that is a collection: of an object its names, of a string its code
points. -/
def items? : Json → Option (List Json)
  | .list items => some items
  | .object fields => some (fields.map fun (name, _) => .str name)
  | .str s => some (s.map fun p => .str [p])
  | _ => none

def pair (index : Nat) (element : Json) : Except Fault (Name × Json) :=
  match items? element with
  | none => .error (.elementNotCollection index)
  | some [name, value] => match Name.ofJson? name with
    | some name => .ok (name, value)
    | none => .error .notName
  | some items => .error (.elementLength index items.length)

/-- The settings that a file holds: an object's fields, or pairs. -/
def settings (file : Json) : Except Fault (List (Name × Json)) :=
  match file with
  | .object fields => .ok (fields.map fun (name, value) => (.ofText name, value))
  | file => match items? file with
    | some elements => (elements.zipIdx).mapM fun (element, index) => pair index element
    | none => .error .notCollection

def update (o : Options) (file : Json) : Except Fault Options :=
  (settings file).map fun new => new.foldl (fun o (name, value) => o.set name value) o

/-- Loads options; `readFile` gives the text of the file at a path, if there is one. -/
def load (env : Environment) (readFile : List Char → Option (List Char)) :
    Except Fault Options := do
  let defaults ← ofEnvironment env
  match readFile (env.optionsPath.getD defaultPath) with
  | none => return defaults
  | some text => match Json.parse (ofChars text) with
    | .error .malformed => throw .notJson
    | .error (.overlong digits) => throw (.overlong digits)
    | .ok file => defaults.update file

/-- Why the limit is no integer. -/
inductive LimitFault
  | numeral (fault : Numeral.Fault)
  | infinite
  | nan
  /-- The value is neither a number nor a string. -/
  | notNumber
  deriving DecidableEq

def LimitFault.message? : LimitFault → Option String
  | .numeral fault => some fault.message
  | .infinite => some "cannot convert float infinity to integer"
  | .nan => some "cannot convert float NaN to integer"
  | .notNumber => none

/-- The integer that a value gives: a number without its fraction, a truth value as zero or one,
a string by the numeral that it holds. -/
def integer : Json → Except LimitFault Int
  | .int n => .ok n
  | .bool b => .ok (if b then 1 else 0)
  | .str s => (Numeral.parse s).mapError LimitFault.numeral
  | .real (.finite d) => match d.nearest? with
    | some b => .ok (Numeral.signed d.negative b.floor)
    | none => .error .infinite
  | .real (.infinite _) => .error .infinite
  | .real .nan => .error .nan
  | .null | .list _ | .object _ => .error .notNumber

/-- The largest source that is accepted, in bytes. -/
def limit (o : Options) : Except LimitFault Int :=
  integer ((o.get? maxContentBytes).getD .null)

end Options

end SchemaLint
