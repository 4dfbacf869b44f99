import SchemaLint.Json.Reader
import SchemaLint.Text.Encoding

/-! JSON in bytes. The encoding is told by a byte order mark, or else by which of the first bytes
are zero, since JSON starts with ASCII. -/

namespace SchemaLint.Json
open SchemaLint.Text

inductive Encoding
  | utf8
  | utf16 (bigEndian : Bool)
  | utf32 (bigEndian : Bool)
  deriving DecidableEq

def Encoding.unmarked (bytes : List UInt8) : Encoding :=
  match bytes with
  | a :: b :: c :: d :: _ =>
    if a = 0 then (if b = 0 then .utf32 true else .utf16 true)
    else if b = 0 then (if c = 0 && d = 0 then .utf32 false else .utf16 false)
    else .utf8
  | [a, b] => if a = 0 then .utf16 true else if b = 0 then .utf16 false else .utf8
  | _ => .utf8

/-- The encoding, and the bytes without a mark. -/
def Encoding.detect (bytes : List UInt8) : Encoding × List UInt8 :=
  match bytes with
  | 0x00 :: 0x00 :: 0xfe :: 0xff :: rest => (.utf32 true, rest)
  | 0xff :: 0xfe :: 0x00 :: 0x00 :: rest => (.utf32 false, rest)
  | 0xfe :: 0xff :: rest => (.utf16 true, rest)
  | 0xff :: 0xfe :: rest => (.utf16 false, rest)
  | 0xef :: 0xbb :: 0xbf :: rest => (.utf8, rest)
  | bytes => (.unmarked bytes, bytes)

def Encoding.decode? : Encoding → List UInt8 → Option (List CodePoint)
  | .utf8 => decodeUtf8?
  | .utf16 bigEndian => decodeUtf16? bigEndian
  | .utf32 bigEndian => decodeUtf32? bigEndian

def parseBytes (bytes : List UInt8) : Except Fault Json :=
  let (encoding, bytes) := Encoding.detect bytes
  match encoding.decode? bytes with
  | some text => parse text
  | none => .error .malformed

end SchemaLint.Json
