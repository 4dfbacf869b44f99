import SchemaLint.Options
import SchemaLint.RuleCatalog
import SchemaLint.SampleSchema
import SchemaLint.Json.Encoding
import SchemaLint.Source

/-! The endpoints of the service. What they are given from outside stays open: a form is known by
what it gives for a name, a file by its reads, and requests that no endpoint takes are replied to
elsewhere. -/

namespace SchemaLint.Service
open SchemaLint.Text

/-- Why a request is turned down. -/
inductive Refusal
  | invalidBody
  | missingContent
  | noFile
  | tooLarge (limit : Int)
  deriving DecidableEq

def Refusal.status : Refusal → Nat
  | .invalidBody | .missingContent | .noFile => 400
  | .tooLarge _ => 413

def Refusal.detail : Refusal → String
  | .invalidBody => "Invalid request body"
  | .missingContent => "Missing 'content' field"
  | .noFile => "No file provided"
  | .tooLarge limit => "Content exceeds " ++ toString limit ++ " bytes"

/-- What a request gets. -/
inductive Reply
  | report (r : Report)
  | formatted (text : List Char)
  | rules
  | sample
  | healthy
  | refused (why : Refusal)
  /-- A reply that no endpoint gives. -/
  | unrouted (status : Nat) (detail : String)

def Reply.status : Reply → Nat
  | .refused why => why.status
  | .unrouted status _ => status
  | _ => 200

/-- Why a request gets no reply at all. -/
inductive Failure
  /-- No options are loaded. -/
  | notInitialised
  /-- The limit in the options is no integer. -/
  | limit (fault : Options.LimitFault)
  /-- A surrogate stands alone in the content, so it has no size in bytes. -/
  | unencodable
  /-- The limit is beyond the sizes that a read can be given. -/
  | unreadableSize
  /-- A number in the content is too long. -/
  | numeral (fault : Numeral.Fault)
  deriving DecidableEq

def Failure.message? : Failure → Option String
  | .notInitialised => some "Options not initialised"
  | .limit fault => fault.message?
  | .unencodable => none
  | .unreadableSize => some "cannot fit 'int' into an index-sized integer"
  | .numeral fault => some fault.message

/-- A file, known by its reads: of so many bytes at most, or of all bytes for a negative size. -/
structure Upload where
  read : Int → Except Failure (List UInt8)

/-- What a form holds under a name. -/
inductive Field
  | text
  | file (upload : Upload)

structure Form where
  get : String → Option Field

def Form.empty : Form :=
  ⟨fun _ => none⟩

/-- A request, with its body as bytes and, if it carries a form, as that. -/
structure Request where
  method : String
  path : String
  contentType : Option String := none
  body : List UInt8 := []
  form : Form := .empty

/-- What a request asks for. -/
inductive Route
  | validate | format | rules | sample | health
  deriving DecidableEq

def routes : List (String × String × Route) :=
  [("/api/validate", "POST", .validate), ("/api/format", "POST", .format),
    ("/api/rules", "GET", .rules), ("/api/example", "GET", .sample), ("/health", "GET", .health)]

def route? (path method : String) : Option Route :=
  (routes.find? fun entry => entry.1 == path && entry.2.1 == method).map (·.2.2)

/-- The limit of the loaded options. -/
def limit (options : Option Options) : Except Failure Int :=
  match options with
  | none => .error .notInitialised
  | some options => options.limit.mapError Failure.limit

def jsonContent (body : List UInt8) : Except Refusal (List CodePoint) :=
  match Json.parseBytes body with
  | .error _ => .error .invalidBody
  | .ok value => match value.field? "content" with
    | some (.str content) => .ok content
    | _ => .error .missingContent

def withContent (limit : Int) (content : List CodePoint)
    (answer : List Char → Except Failure Reply) : Except Failure Reply :=
  match chars? content with
  | none => .error .unencodable
  | some chars => if limit < utf8Size chars then .ok (.refused (.tooLarge limit)) else answer chars

def validated (content : List Char) : Except Failure Reply :=
  match Source.validate content with
  | .ok report => .ok (.report report)
  | .error fault => .error (.numeral fault)

def formatted (content : List Char) : Except Failure Reply :=
  .ok (.formatted (Source.format content))

def withBody (limit : Int) (body : List UInt8)
    (answer : List Char → Except Failure Reply) : Except Failure Reply :=
  match jsonContent body with
  | .ok content => withContent limit content answer
  | .error why => .ok (.refused why)

/-- Answers for the content of a form's file. One byte more than the limit is read of it, so its
size is judged before it is decoded. -/
def withFile (limit : Int) (form : Form)
    (answer : List Char → Except Failure Reply) : Except Failure Reply :=
  match form.get "file" with
  | some (.file upload) => do
    let data ← upload.read (limit + 1)
    if limit < data.length then return .refused (.tooLarge limit)
    else match (decodeUtf8? data).bind chars? with
      | none => return .refused .invalidBody
      | some content => withContent limit (ofChars content) answer
  | _ => .ok (.refused .noFile)

def isForm (contentType : Option String) : Bool :=
  contentType.any fun header => holds "multipart/form-data".toList header.toList

/-- Responds to a request; `unrouted` replies where no endpoint takes it. -/
def respond (unrouted : Request → Reply) (options : Option Options) (r : Request) :
    Except Failure Reply :=
  match route? r.path r.method with
  | none => .ok (unrouted r)
  | some .validate => do
    let limit ← limit options
    if isForm r.contentType then withFile limit r.form validated
    else withBody limit r.body validated
  | some .format => do withBody (← limit options) r.body formatted
  | some .rules => .ok .rules
  | some .sample => .ok .sample
  | some .health => .ok .healthy

end SchemaLint.Service
