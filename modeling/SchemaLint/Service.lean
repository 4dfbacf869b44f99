import SchemaLint.Service.Endpoints

/-! The service by itself: its forms are held in memory, and a request that no endpoint takes is
turned down. -/

namespace SchemaLint.Service

/-- A part of a form. A part with a file name is a file, even if that name is empty. -/
structure Part where
  name : String
  filename : Option String := none
  bytes : List UInt8 := []

def sizeBound : Int := Int.pow 2 63

def Upload.ofBytes (bytes : List UInt8) : Upload where
  read size :=
    if sizeBound ≤ size || size < -sizeBound then .error .unreadableSize
    else .ok (if size < 0 then bytes else bytes.take size.toNat)

def Part.field (part : Part) : Field :=
  if part.filename.isSome then .file (.ofBytes part.bytes) else .text

/-- Of several parts with one name the last one counts. -/
def Form.ofParts (parts : List Part) : Form where
  get name := (parts.reverse.find? (·.name == name)).map Part.field

def unrouted (r : Request) : Reply :=
  if routes.any (·.1 == r.path) then .unrouted 405 "Method Not Allowed"
  else .unrouted 404 "Not Found"

def answer (options : Option Options) (r : Request) : Except Failure Reply :=
  respond unrouted options r

def answerForm (options : Option Options) (parts : List Part) : Except Failure Reply :=
  answer options
    { method := "POST", path := "/api/validate", contentType := some "multipart/form-data"
      form := .ofParts parts }

end SchemaLint.Service
