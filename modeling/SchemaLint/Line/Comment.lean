import SchemaLint.Text.Scan

/-! Comments. A line is a comment as a whole if it opens or continues one; any other line may end
in a comment. A block comment is known by its first line alone, so it starts at the start of a
line and ends with the line that holds its closing mark. -/

namespace SchemaLint.Line
open SchemaLint.Text

def opensBlock (s : List Char) : Bool :=
  startsWith "/*".toList s

def closesBlock (s : List Char) : Bool :=
  holds "*/".toList s

def blockAfter (inBlock : Bool) (s : List Char) : Bool :=
  (inBlock || opensBlock s) && !closesBlock s

/-- The line is a comment as a whole: a line comment, the start of a block comment, or a line
that continues one by a star. -/
def isComment (s : List Char) : Bool :=
  startsWith "//".toList s || opensBlock s || startsWith "*".toList s

/-- The text before a trailing comment. The comment runs to the end of the text, so a line feed
after it, other than one that ends the text, makes it none. -/
def beforeComment : List Char → List Char
  | [] => []
  | c :: s =>
    if startsWith "//".toList (c :: s) && atEnd (s.dropWhile (· != '\n')) then []
    else c :: beforeComment s

/-- The code of a line: the text before its trailing comment, trimmed. -/
def code (s : List Char) : List Char :=
  trim (beforeComment s)

@[simp] theorem blockAfter_true (s : List Char) : blockAfter true s = !closesBlock s := by
  simp [blockAfter]

theorem blockAfter_nil (b : Bool) : blockAfter b [] = b := by cases b <;> rfl

theorem blockAfter_of_not_isComment {s : List Char} (h : isComment s = false) :
    blockAfter false s = false := by
  rw [isComment, Bool.or_eq_false_iff, Bool.or_eq_false_iff] at h
  rw [blockAfter, h.1.2]
  rfl

@[simp] theorem beforeComment_nil : beforeComment [] = [] := rfl

theorem beforeComment_isPrefix (s : List Char) : beforeComment s <+: s := by
  induction s with
  | nil => simp
  | cons c s ih =>
    unfold beforeComment
    split
    · simp
    · simpa using ih

end SchemaLint.Line
