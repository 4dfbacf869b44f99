import SchemaLint.Text.Encoding

/-! Texts in UTF-8. A text is read back from its bytes: the first byte of a character leads to the
state in which the bytes that follow are due, and the last of them completes the character. -/

namespace SchemaLint.Text

def utf8 (s : List Char) : List UInt8 :=
  s.flatMap String.utf8EncodeChar

theorem foldl_utf8Size (n : Nat) (s : List Char) :
    s.foldl (fun n c => n + c.utf8Size) n = n + (utf8 s).length := by
  induction s generalizing n with
  | nil => rfl
  | cons c s ih =>
      have hcons : (utf8 (c :: s)).length = c.utf8Size + (utf8 s).length := by
        rw [utf8, List.flatMap_cons, List.length_append, String.length_utf8EncodeChar, utf8]
      rw [List.foldl_cons, ih, hcons, Nat.add_assoc]

theorem utf8Size_eq (s : List Char) : utf8Size s = (utf8 s).length := by
  rw [utf8Size, foldl_utf8Size, Nat.zero_add]

theorem CodePoint.ofNat?_toNat (c : Char) : ofNat? c.toNat = some (.char c) := by
  have hvalid : c.toNat.isValidChar := c.valid
  rw [ofNat?, dif_pos hvalid]
  rfl

namespace Utf8State

theorem toNat_ofNat {b : Nat} (h : b < 0x100) : (UInt8.ofNat b).toNat = b :=
  Nat.mod_eq_of_lt h

variable {value low high x : Nat}

theorem step_last (hx : x < 0x40) (hlow : low ≤ x + 0x80) (hhigh : x + 0x80 ≤ high) :
    (within 0 value low high).step (UInt8.ofNat (x + 0x80)) = complete (0x40 * value + x) := by
  simp only [step, toNat_ofNat (b := x + 0x80) (by omega)]
  simp [hlow, hhigh]

/-- A byte between the first and the last: it carries six bits, and any byte of that kind may
follow. -/
theorem step_between (missing : Nat) (hx : x < 0x40) (hlow : low ≤ x + 0x80)
    (hhigh : x + 0x80 ≤ high) :
    (within (missing + 1) value low high).step (UInt8.ofNat (x + 0x80)) =
      (within missing (0x40 * value + x) 0x80 0xbf, []) := by
  simp only [step, toNat_ofNat (b := x + 0x80) (by omega)]
  simp [hlow, hhigh]

theorem start_one {v : Nat} (h : v < 0x80) : start v = complete v :=
  if_pos h

theorem start_two {q : Nat} (hlow : 2 ≤ q) (hhigh : q < 0x20) :
    start (q + 0xc0) = (.within 0 q 0x80 0xbf, []) := by
  rw [start, if_neg (by omega), if_neg (by omega), if_pos (by omega), Nat.add_sub_cancel]

theorem start_three {q : Nat} (h : q < 0x10) :
    start (q + 0xe0) = (.within 1 q (if q = 0 then 0xa0 else 0x80) 0xbf, []) := by
  rw [start, if_neg (by omega), if_neg (by omega), if_neg (by omega), if_pos (by omega),
    Nat.add_sub_cancel]
  simp

theorem start_four {q : Nat} (h : q < 5) :
    start (q + 0xf0) =
      (.within 2 q (if q = 0 then 0x90 else 0x80) (if q = 4 then 0x8f else 0xbf), []) := by
  rw [start, if_neg (by omega), if_neg (by omega), if_neg (by omega), if_neg (by omega),
    if_pos (by omega), Nat.add_sub_cancel]
  simp

theorem step_ready {b : Nat} (h : b < 0x100) : ready.step (UInt8.ofNat b) = start b := by
  rw [step, toNat_ofNat h]

theorem run_one {v : Nat} (h : v < 0x80) :
    Pass.run step ready [UInt8.ofNat v] = complete v := by
  rw [Pass.run_cons, step_ready (by omega), start_one h]
  simp

theorem run_two {v : Nat} (hlow : 0x80 ≤ v) (hhigh : v < 0x800) :
    Pass.run step ready [UInt8.ofNat (v / 0x40 % 0x20 + 0xc0), UInt8.ofNat (v % 0x40 + 0x80)] =
      complete v := by
  have hv : 0x40 * (v / 0x40 % 0x20) + v % 0x40 = v := by omega
  rw [Pass.run_cons, step_ready (by omega), start_two (by omega) (by omega),
    Pass.run_cons, step_last (by omega) (by omega) (by omega), hv]
  simp

theorem run_three {v : Nat} (hlow : 0x800 ≤ v) (hhigh : v < 0x10000) :
    Pass.run step ready [UInt8.ofNat (v / 0x1000 % 0x10 + 0xe0),
        UInt8.ofNat (v / 0x40 % 0x40 + 0x80), UInt8.ofNat (v % 0x40 + 0x80)] = complete v := by
  have hv : 0x40 * (0x40 * (v / 0x1000 % 0x10) + v / 0x40 % 0x40) + v % 0x40 = v := by omega
  rw [Pass.run_cons, step_ready (by omega), start_three (by omega),
    Pass.run_cons, step_between 0 (by omega) (by split <;> omega) (by omega),
    Pass.run_cons, step_last (by omega) (by omega) (by omega), hv]
  simp

theorem run_four {v : Nat} (hlow : 0x10000 ≤ v) (hhigh : v < 0x110000) :
    Pass.run step ready [UInt8.ofNat (v / 0x40000 % 8 + 0xf0),
        UInt8.ofNat (v / 0x1000 % 0x40 + 0x80), UInt8.ofNat (v / 0x40 % 0x40 + 0x80),
        UInt8.ofNat (v % 0x40 + 0x80)] = complete v := by
  have hv : 0x40 * (0x40 * (0x40 * (v / 0x40000 % 8) + v / 0x1000 % 0x40) + v / 0x40 % 0x40) +
      v % 0x40 = v := by omega
  rw [Pass.run_cons, step_ready (by omega), start_four (by omega),
    Pass.run_cons, step_between 1 (by omega) (by split <;> omega) (by split <;> omega),
    Pass.run_cons, step_between 0 (by omega) (by omega) (by omega),
    Pass.run_cons, step_last (by omega) (by omega) (by omega), hv]
  simp

theorem run_utf8EncodeChar (c : Char) :
    Pass.run step ready (String.utf8EncodeChar c) = (.ready, [.char c]) := by
  have hbound : c.toNat < 0x110000 := by
    have hvalid : c.toNat.isValidChar := c.valid
    unfold Nat.isValidChar at hvalid
    omega
  have hv : c.val.toNat = c.toNat := rfl
  have hcomplete : complete c.toNat = (.ready, [.char c]) := by
    rw [complete, CodePoint.ofNat?_toNat]
  rw [← hcomplete, String.utf8EncodeChar, hv]
  split
  · exact run_one (by omega)
  · split
    · exact run_two (by omega) (by omega)
    · split
      · exact run_three (by omega) (by omega)
      · exact run_four (by omega) hbound

end Utf8State

theorem decodeUtf8?_utf8 (s : List Char) : decodeUtf8? (utf8 s) = some (ofChars s) := by
  have hrun : Pass.run Utf8State.step .ready (utf8 s) = (.ready, ofChars s) := by
    induction s with
    | nil => rfl
    | cons c s ih =>
        rw [utf8, List.flatMap_cons, Pass.run_append, Utf8State.run_utf8EncodeChar, ← utf8, ih]
        rfl
  rw [decodeUtf8?, hrun]

end SchemaLint.Text
