import SchemaLint.Proofs.Submission

/-! Requests for formatting. Each is answered by its body, unless a surrogate stands alone in the
content: then the size of the content cannot be told, and the request gets no reply. -/

namespace SchemaLint.Service
open SchemaLint.Text

/-- The request asks for formatting. -/
structure Request.AsksFormat (r : Request) : Prop where
  path : r.path = "/api/format"
  method : r.method = "POST"

/-- The body holds content in which a surrogate stands alone. -/
def HoldsLone (body : List UInt8) : Prop :=
  ∃ content, jsonContent body = .ok content ∧ ∃ k, CodePoint.lone k ∈ content

theorem exists_ofChars_iff {s : List CodePoint} :
    (∃ content, s = ofChars content) ↔ ∀ k, CodePoint.lone k ∉ s := by
  induction s with
  | nil => exact iff_of_true ⟨[], rfl⟩ (by simp)
  | cons p s ih =>
      cases p with
      | char c =>
          simp only [List.mem_cons, reduceCtorEq, false_or, ← ih]
          constructor
          · rintro ⟨content, he⟩
            cases content with
            | nil => cases he
            | cons d content => exact ⟨content, (List.cons.inj he).2⟩
          · rintro ⟨content, rfl⟩
            exact ⟨c :: content, rfl⟩
      | lone k =>
          refine iff_of_false ?_ fun h => h k (List.mem_cons_self ..)
          rintro ⟨content, he⟩
          cases content with
          | nil => cases he
          | cons d content => cases (List.cons.inj he).1

theorem chars?_of_lone {s : List CodePoint} {k : Fin 0x800} (h : CodePoint.lone k ∈ s) :
    chars? s = none := by
  induction s with
  | nil => cases h
  | cons p s ih =>
      rw [chars?, List.mapM_cons]
      rcases List.mem_cons.1 h with rfl | h
      · rfl
      · rw [← chars?, ih h]
        cases p <;> rfl

variable {unrouted : Request → Reply} {options : Option Options} {max : Int} {r : Request}

theorem respond_of_asksFormat (hlimit : limit options = .ok max) (h : r.AsksFormat) :
    respond unrouted options r = withBody max r.body formatted := by
  have hroute : route? r.path r.method = some .format := by
    rw [h.path, h.method]
    rfl
  rw [respond, hroute]
  simp only [hlimit]
  rfl

theorem withBody_of_error {body : List UInt8} {why : Refusal} (h : jsonContent body = .error why)
    (f : List Char → Except Failure Reply) :
    withBody max body f = .ok (.refused why) ∧ why.status = 400 := by
  refine ⟨by rw [withBody, h], ?_⟩
  unfold jsonContent at h
  split at h
  case h_1 => cases h; rfl
  case h_2 =>
    split at h
    case h_1 => cases h
    case h_2 => cases h; rfl

theorem withBody_of_ofChars {body : List UInt8} {content : List Char}
    (h : jsonContent body = .ok (ofChars content)) (f : List Char → Except Failure Reply) :
    withBody max body f =
      if max < (utf8 content).length then .ok (.refused (.tooLarge max)) else f content := by
  rw [withBody, h]
  exact withContent_ofChars max content f

theorem withBody_of_lone {body : List UInt8} {content : List CodePoint} {k : Fin 0x800}
    (h : jsonContent body = .ok content) (hk : CodePoint.lone k ∈ content)
    (f : List Char → Except Failure Reply) : withBody max body f = .error .unencodable := by
  simp only [withBody, h, withContent, chars?_of_lone hk]

/-- A request for formatting is answered, with one of three statuses, exactly if no surrogate stands
alone in its content, and fails on the size of the content otherwise. -/
theorem format_answered_iff (hlimit : limit options = .ok max) (h : r.AsksFormat) :
    ((∃ reply, respond unrouted options r = .ok reply ∧ reply.status ∈ [200, 400, 413]) ↔
        ¬ HoldsLone r.body) ∧
      (respond unrouted options r = .error .unencodable ↔ HoldsLone r.body) := by
  rw [respond_of_asksFormat hlimit h]
  by_cases hlone : HoldsLone r.body
  · have hfails : withBody max r.body formatted = .error .unencodable := by
      obtain ⟨content, hcontent, k, hk⟩ := hlone
      exact withBody_of_lone hcontent hk formatted
    rw [hfails]
    exact ⟨iff_of_false nofun fun hn => hn hlone, iff_of_true rfl hlone⟩
  · obtain ⟨reply, hreply, hstatus⟩ : ∃ reply, withBody max r.body formatted = .ok reply ∧
        reply.status ∈ [200, 400, 413] := by
      cases hcontent : jsonContent r.body with
      | error why =>
          obtain ⟨hreply, hstatus⟩ := withBody_of_error hcontent formatted
          exact ⟨_, hreply, by simp [Reply.status, hstatus]⟩
      | ok points =>
          obtain ⟨content, rfl⟩ := exists_ofChars_iff.2 fun k hk => hlone ⟨points, hcontent, k, hk⟩
          rw [withBody_of_ofChars hcontent]
          by_cases hlong : max < (utf8 content).length
          · exact ⟨_, if_pos hlong, by simp [Reply.status, Refusal.status]⟩
          · exact ⟨_, if_neg hlong, by simp [Reply.status]⟩
    rw [hreply]
    exact ⟨iff_of_true ⟨reply, rfl, hstatus⟩ hlone, iff_of_false nofun hlone⟩

def formatRequest (body : String) : Request :=
  { method := "POST", path := "/api/format", contentType := some "application/json",
    body := utf8 body.toList }

theorem formatRequest_asksFormat (body : String) : (formatRequest body).AsksFormat := ⟨rfl, rfl⟩

theorem jsonContent_formatRequest {body : String} {content : List CodePoint}
    (h : (jsonContent (formatRequest body).body).toOption = some content) :
    jsonContent (formatRequest body).body = .ok content := by
  cases hread : jsonContent (formatRequest body).body with
  | error why =>
      rw [hread] at h
      cases h
  | ok read =>
      rw [hread] at h
      exact congrArg _ (Option.some.inj h)

/-- A pair of surrogates is a character. -/
theorem format_answered_pair :
    limit (limited 30) = .ok 30 ∧
      (formatRequest "\x7b\"content\":\"\\ud800\\udc00\"\x7d").AsksFormat ∧
      ∃ reply, respond Service.unrouted (limited 30)
          (formatRequest "\x7b\"content\":\"\\ud800\\udc00\"\x7d") = .ok reply ∧
        reply.status ∈ [200, 400, 413] := by
  have hread : jsonContent (formatRequest "\x7b\"content\":\"\\ud800\\udc00\"\x7d").body =
      .ok [.char (Char.ofNat 0x10000)] := jsonContent_formatRequest (by decide +kernel)
  have hlone : ¬ HoldsLone (formatRequest "\x7b\"content\":\"\\ud800\\udc00\"\x7d").body := by
    rintro ⟨content, hcontent, k, hk⟩
    rw [hread] at hcontent
    cases hcontent
    simp at hk
  exact ⟨rfl, formatRequest_asksFormat _,
    (format_answered_iff rfl (formatRequest_asksFormat _)).1.2 hlone⟩

/-- Half a pair of surrogates gets no reply. -/
theorem format_unanswered_half_pair :
    ¬ ∀ (unrouted : Request → Reply) (options : Option Options) (max : Int) (r : Request),
      limit options = .ok max → r.AsksFormat →
        ∃ reply, respond unrouted options r = .ok reply ∧ reply.status ∈ [200, 400, 413] := by
  intro h
  have hread : jsonContent (formatRequest "\x7b\"content\":\"\\ud800\"\x7d").body =
      .ok [.lone 0] := jsonContent_formatRequest (by decide +kernel)
  obtain ⟨reply, hreply, -⟩ := h Service.unrouted (limited 30) 30 _ rfl
    (formatRequest_asksFormat "\x7b\"content\":\"\\ud800\"\x7d")
  rw [respond_of_asksFormat rfl (formatRequest_asksFormat _),
    withBody_of_lone hread (List.mem_singleton.2 rfl)] at hreply
  cases hreply

end SchemaLint.Service
