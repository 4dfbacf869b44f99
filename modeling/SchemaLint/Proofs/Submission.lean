import SchemaLint.Proofs.Json.Strings
import SchemaLint.Service.Body

/-! The two ways of handing in a source for validation: in the body of a request, and as the file
of a form. Both judge its size and then validate it, so they get one response. -/

namespace SchemaLint.Service
open SchemaLint.Text

/-- A read of this size gives as many bytes as it asks for, from the first on, or all there are; a
negative size asks for all. -/
structure Upload.Delivers (upload : Upload) (bytes : List UInt8) (size : Int) : Prop where
  whole : size < 0 → upload.read size = .ok bytes
  first : 0 ≤ size → upload.read size = .ok (bytes.take size.toNat)

/-- The request asks for validation, and its body holds the content. -/
structure Request.Carries (r : Request) (content : List Char) : Prop where
  path : r.path = "/api/validate"
  method : r.method = "POST"
  header : isForm r.contentType = false
  body : ∃ value, Json.parseBytes r.body = .ok value ∧
    value.field? "content" = some (.str (ofChars content))

/-- The request asks for validation, and its form holds the file. -/
structure Request.Uploads (r : Request) (upload : Upload) : Prop where
  path : r.path = "/api/validate"
  method : r.method = "POST"
  header : isForm r.contentType = true
  file : r.form.get "file" = some (.file upload)

/-- What a client sees of a reply: its status and its body. -/
def Reply.response (r : Reply) : Nat × Json :=
  (r.status, r.body)

/-- The response for content that has a report. -/
def verdict (max : Int) (content : List Char) (report : Report) : Nat × Json :=
  if max < (utf8 content).length then
    (413, .record [("detail", .ofString ("Content exceeds " ++ toString max ++ " bytes"))])
  else (200, report.toJson)

variable {unrouted : Request → Reply} {options : Option Options} {max : Int}
  {content : List Char} {bytes : List UInt8} {upload : Upload} {r : Request}

theorem respond_validate (hlimit : limit options = .ok max) (hpath : r.path = "/api/validate")
    (hmethod : r.method = "POST") :
    respond unrouted options r =
      if isForm r.contentType then withFile max r.form validated
      else withBody max r.body validated := by
  have hroute : route? r.path r.method = some .validate := by
    rw [hpath, hmethod]
    rfl
  rw [respond, hroute]
  simp only [hlimit]
  rfl

theorem jsonContent_of_carries (h : r.Carries content) :
    jsonContent r.body = .ok (ofChars content) := by
  obtain ⟨value, hbody, hcontent⟩ := h.body
  rw [jsonContent, hbody]
  simp only [hcontent]

theorem respond_of_carries (hlimit : limit options = .ok max) (h : r.Carries content) :
    respond unrouted options r = withContent max (ofChars content) validated := by
  rw [respond_validate hlimit h.path h.method, h.header, withBody, jsonContent_of_carries h]
  rfl

/-- The file is too large exactly if what is read of it is; otherwise it is read whole. -/
theorem Upload.Delivers.cases (h : upload.Delivers bytes (max + 1)) :
    ∃ data, upload.read (max + 1) = .ok data ∧
      ((max < bytes.length ∧ max < data.length) ∨ (¬ max < bytes.length ∧ data = bytes)) := by
  by_cases hsize : max + 1 < 0
  · refine ⟨bytes, h.whole hsize, .inl ⟨?_, ?_⟩⟩ <;> omega
  · refine ⟨_, h.first (by omega), ?_⟩
    by_cases hlong : max < bytes.length
    · refine .inl ⟨hlong, ?_⟩
      rw [List.length_take]
      omega
    · exact .inr ⟨hlong, List.take_of_length_le (by omega)⟩

theorem withContent_ofChars (max : Int) (content : List Char)
    (answer : List Char → Except Failure Reply) :
    withContent max (ofChars content) answer =
      if max < (utf8 content).length then .ok (.refused (.tooLarge max)) else answer content := by
  rw [withContent, chars?_ofChars]
  simp only [utf8Size_eq]

theorem withFile_of_delivers {form : Form} (hfile : form.get "file" = some (.file upload))
    (h : upload.Delivers (utf8 content) (max + 1)) (answer : List Char → Except Failure Reply) :
    withFile max form answer = withContent max (ofChars content) answer := by
  obtain ⟨data, hread, hdata⟩ := h.cases
  simp only [withFile, hfile, hread, bind, Except.bind]
  rcases hdata with ⟨hlong, hdata⟩ | ⟨hwithin, rfl⟩
  · rw [withContent_ofChars, if_pos hdata, if_pos hlong]
    rfl
  · have hdecoded : (decodeUtf8? (utf8 content)).bind chars? = some content := by
      rw [decodeUtf8?_utf8, Option.bind_some, chars?_ofChars]
    rw [if_neg hwithin, hdecoded]

theorem respond_of_uploads (hlimit : limit options = .ok max) (h : r.Uploads upload)
    (hread : upload.Delivers (utf8 content) (max + 1)) :
    respond unrouted options r = withContent max (ofChars content) validated := by
  rw [respond_validate hlimit h.path h.method, h.header, withFile_of_delivers h.file hread]
  rfl

theorem response_of_report {report : Report} (max : Int)
    (h : Source.validate content = .ok report) :
    (withContent max (ofChars content) validated).map Reply.response =
      .ok (verdict max content report) := by
  rw [withContent_ofChars, validated, h, verdict]
  split <;> rfl

/-- A source is answered by its size and its report, handed in as a body or as a file. -/
theorem submissions_agree {report : Report} {json form : Request}
    (hlimit : limit options = .ok max) (hreport : Source.validate content = .ok report)
    (hjson : json.Carries content) (hform : form.Uploads upload)
    (hread : upload.Delivers (utf8 content) (max + 1)) :
    (respond unrouted options json).map Reply.response = .ok (verdict max content report) ∧
      (respond unrouted options form).map Reply.response = .ok (verdict max content report) := by
  have hverdict := response_of_report max hreport
  constructor
  · rw [respond_of_carries hlimit hjson, hverdict]
  · rw [respond_of_uploads hlimit hform hread, hverdict]

def jsonRequest (content : List Char) : Request :=
  { method := "POST", path := "/api/validate", contentType := some "application/json",
    body := utf8 (Json.write (.single "content".toList content)) }

def fileRequest (content : List Char) : Request :=
  { method := "POST", path := "/api/validate", contentType := some "multipart/form-data"
    form := .ofParts [{ name := "file", filename := some "source.proto", bytes := utf8 content }] }

theorem jsonRequest_carries (content : List Char) : (jsonRequest content).Carries content :=
  ⟨rfl, rfl, rfl, _, Json.parseBytes_single "content".toList content, rfl⟩

theorem fileRequest_uploads (content : List Char) :
    (fileRequest content).Uploads (.ofBytes (utf8 content)) :=
  ⟨rfl, rfl, rfl, rfl⟩

theorem delivers_ofBytes {size : Int} (hlow : -sizeBound ≤ size) (hhigh : size < sizeBound) :
    (Upload.ofBytes bytes).Delivers bytes size := by
  have hread : (Upload.ofBytes bytes).read size =
      .ok (if size < 0 then bytes else bytes.take size.toNat) := if_neg (by simp [hlow, hhigh])
  refine ⟨fun hsize => ?_, fun hsize => ?_⟩
  · rw [hread, if_pos hsize]
  · rw [hread, if_neg (by omega)]

/-- A source without issues, of thirty bytes. -/
def tidy : List Char := "syntax = \"proto3\";\npackage a;\n".toList

def limited (max : Int) : Option Options :=
  some ⟨[(Options.maxContentBytes, .int max)]⟩

theorem validate_tidy : Source.validate tidy = .ok ⟨[], [], []⟩ := by
  have hissues : Source.validate tidy = .ok (Report.ofIssues []) := rfl
  rw [hissues, Report.ofIssues, List.mergeSort_nil]
  rfl

/-- At its own size the source is accepted. -/
theorem submissions_agree_tidy :
    (limit (limited 30) = .ok 30 ∧ Source.validate tidy = .ok ⟨[], [], []⟩ ∧
        (jsonRequest tidy).Carries tidy ∧
        (fileRequest tidy).Uploads (.ofBytes (utf8 tidy)) ∧
        (Upload.ofBytes (utf8 tidy)).Delivers (utf8 tidy) 31) ∧
      (respond Service.unrouted (limited 30) (jsonRequest tidy)).map Reply.response =
        .ok (200, Report.toJson ⟨[], [], []⟩) ∧
      (respond Service.unrouted (limited 30) (fileRequest tidy)).map Reply.response =
        .ok (200, Report.toJson ⟨[], [], []⟩) := by
  have hlimit : limit (limited 30) = .ok 30 := rfl
  have hread : (Upload.ofBytes (utf8 tidy)).Delivers (utf8 tidy) (30 + 1) :=
    delivers_ofBytes (by decide) (by decide)
  exact ⟨⟨hlimit, validate_tidy, jsonRequest_carries tidy, fileRequest_uploads tidy, hread⟩,
    submissions_agree hlimit validate_tidy (jsonRequest_carries tidy) (fileRequest_uploads tidy)
      hread⟩

end SchemaLint.Service
