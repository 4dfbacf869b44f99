import SchemaLint.Proofs.Layout.CodeSpacing
import SchemaLint.Proofs.Layout.Collect

/-! Tokens as their lines show them. A reader of the output sees trimmed lines and remembers whether
a block comment is open; that is enough to tell comments, closing braces and code apart, and the
depth of each token is what the tokens above it lead to. -/

namespace SchemaLint.Layout
open SchemaLint.Text SchemaLint.Line

/-- A trimmed line belongs to a comment as a whole: to a block comment that is open or that it
opens, or to itself as a line comment. -/
def commentLine (inBlock : Bool) (t : List Char) : Bool :=
  inBlock || opensBlock t || startsWith "//".toList t

/-- The line of a token is code, and is neither blank nor a closing brace. -/
structure Token.ShowsCode (t : Token) : Prop where
  noCommentToken : t.category ≠ .comment
  noCloseToken : t.category ≠ .close
  nonempty : t.text ≠ []
  solid : StartsSolid t.text
  noComment : commentLine false (trim t.text) = false
  noClose : isClosingLine (trim t.text) = false

/-- From a depth, inside a block comment or outside, the lines of some tokens show what the tokens
hold and how deep they stand. -/
inductive Shown : Nat → Bool → List Token → Prop
  | done {d : Nat} {b : Bool} : Shown d b []
  | comment {d : Nat} {b : Bool} {t : List Char} {ts : List Token} :
      commentLine b t → trim t = t → Shown d (blockAfter b t) ts →
      Shown d b (⟨t, d, .comment⟩ :: ts)
  | close {d : Nat} {t : List Char} {ts : List Token} :
      isClosingLine t → trim t = t → Shown (d - 1) false ts →
      Shown d false (⟨t, d - 1, .close⟩ :: ts)
  | code {t : Token} {ts : List Token} :
      t.ShowsCode → Shown t.next false ts → Shown t.depth false (t :: ts)

theorem commentLine_block {b : Bool} {t : List Char} (h : b || opensBlock t) :
    commentLine b t := by
  rw [commentLine, h, Bool.true_or]

theorem commentLine_of_not_isComment {t : List Char} (h : isComment t = false) :
    commentLine false t = false := by
  rw [isComment, Bool.or_eq_false_iff] at h
  rw [commentLine, Bool.false_or, Bool.or_comm]
  exact h.1

theorem commentLine_of_word {c : Char} {t : List Char} (hc : t.head? = some c) (hw : isWord c) :
    commentLine false t = false :=
  commentLine_of_not_isComment (isComment_of_word hc hw)

theorem commentLine_closing {t : List Char} (h : isClosingLine t) :
    commentLine false t = false := by
  obtain ⟨s, rfl⟩ := isClosingLine_head h
  exact commentLine_of_not_isComment (not_isComment_of_head (by simp))

theorem opensBlock_of_commentLine {b : Bool} {t : List Char} (h : commentLine b t = false) :
    opensBlock t = false := by
  rw [commentLine, Bool.or_eq_false_iff, Bool.or_eq_false_iff] at h
  exact h.1.2

theorem category_ne_close (s : List Char) : (readLine s).1 ≠ .close := by
  intro h
  have hs := spelled_readLine s
  rw [h] at hs
  generalize (readLine s).2 = t at hs
  cases hs with
  | statement hk => simp [statementKeywords] at hk

/-- A line is read as a comment outside block comments if it is a line comment, and only then. -/
theorem category_comment_iff {s : List Char} :
    (readLine s).1 = .comment ↔ startsWith "//".toList s := by
  constructor
  · intro h
    have hs := spelled_readLine s
    rw [h] at hs
    generalize (readLine s).2 = t at hs
    cases hs with
    | comment h => exact h
    | statement hk => simp [statementKeywords] at hk
  · intro h
    rw [readLine_slashes h]

theorem showsCode_lineToken {d : Nat} {l : List Char} (h : IsCode l)
    (hc : (lineToken d l).category ≠ .comment) : (lineToken d l).ShowsCode := by
  have hslash : startsWith "//".toList (trim l) = false :=
    eq_false_of_ne_true fun hs => hc (category_comment_iff.2 hs)
  have hkept := isClosingLine_spaced (trim_trim l)
  rw [h.noClose] at hkept
  have hnote : commentLine false (spaced (trim l)) = false := by
    rcases spaced_head (trim_trim l) with hs | ⟨c, -, hs, hw⟩
    · rw [hs, commentLine, h.noBlock, hslash]
      rfl
    · exact commentLine_of_word hs hw
  rcases (spelled_readLine (trim l)).head with hs | ⟨c, -, hs, hw⟩
  · have htext : (lineToken d l).text = trim l := hs
    exact ⟨hc, category_ne_close _, htext ▸ h.nonblank, htext ▸ startsSolid_trim l, hnote, hkept⟩
  · refine ⟨hc, category_ne_close _, ?_, startsSolid_of_head? hw hs, hnote, hkept⟩
    intro hn
    rw [show (readLine (trim l)).2 = [] from hn] at hs
    cases hs

theorem showsCode_braced {d : Nat} {l : List Char} (hw : (lineToken d l).wantsBrace) :
    (lineToken d l).braced.ShowsCode := by
  have hcategory : (lineToken d l).braced.category = .block := (Token.wantsBrace_iff.1 hw).1
  obtain ⟨c, hc, hword⟩ := wantsBrace_head hw
  have hhead : (lineToken d l).braced.text.head? = some c :=
    List.mem_head?_append_of_mem_head? hc
  have htrim := head?_trim hhead hword
  refine ⟨?_, ?_, ?_, startsSolid_of_head? hword hhead, commentLine_of_word htrim hword,
    isClosingLine_of_word htrim hword⟩
  · rw [hcategory]
    decide
  · rw [hcategory]
    decide
  · intro hn
    rw [hn] at hhead
    cases hhead

theorem Reads.shown {d : Nat} {b : Bool} {ls : List (List Char)} {ts : List Token}
    (h : Reads d b ls ts) : Shown d b ts := by
  induction h with
  | done => exact .done
  | blank _ _ ih => exact ih
  | block hb _ ih => exact .comment (commentLine_block hb) (trim_trim _) ih
  | close hc _ ih => exact .close hc (trim_trim _) ih
  | split _ _ _ ih => exact ih
  | @line d l ls ts hcode _ _ ih =>
      by_cases hc : (lineToken d l).category = .comment
      · have hs : startsWith "//".toList (trim l) := category_comment_iff.1 hc
        have htoken : lineToken d l = ⟨trim l, d, .comment⟩ := by
          rw [lineToken, readLine_slashes hs]
        rw [htoken] at ih ⊢
        have hnext : Shown d (blockAfter false (trim l)) ts := by
          rw [blockAfter_of_no_block hcode.noBlock]
          exact ih
        refine .comment ?_ (trim_trim l) hnext
        rw [commentLine, hs, Bool.or_true]
      · exact .code (showsCode_lineToken hcode hc) ih
  | braced _ hw _ _ _ ih => exact .code (showsCode_braced hw) ih

end SchemaLint.Layout
