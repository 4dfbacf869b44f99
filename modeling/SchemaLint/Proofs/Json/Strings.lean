import SchemaLint.Json.Encoding
import SchemaLint.Json.Writer
import SchemaLint.Proofs.Text.Utf8

/-! Strings of JSON. A string is read back as it was written, escapes and pairs of escapes included,
and with it an object that holds nothing else. -/

namespace SchemaLint.Json
open SchemaLint.Text (CodePoint utf8 decodeUtf8?_utf8)

theorem hexValue?_digitChar : ∀ d < 16, hexValue? (.char (Nat.digitChar d)) = some d := by
  decide

theorem unit?_hex {n : Nat} (h : n < 0x10000) :
    unit? (.char (Nat.digitChar (n / 16 / 16 / 16 % 16)))
      (.char (Nat.digitChar (n / 16 / 16 % 16))) (.char (Nat.digitChar (n / 16 % 16)))
      (.char (Nat.digitChar (n % 16))) = some n := by
  have hdigit (m : Nat) : hexValue? (.char (Nat.digitChar (m % 16))) = some (m % 16) :=
    hexValue?_digitChar _ (Nat.mod_lt m (by decide))
  simp only [unit?, hdigit, Option.pure_def, Option.bind_eq_bind, Option.bind_some,
    Option.some.injEq]
  omega

theorem unitEscape_eq (n : Nat) : Text.ofChars (unitEscape n) =
    [.char '\\', .char 'u', .char (Nat.digitChar (n / 16 / 16 / 16 % 16)),
      .char (Nat.digitChar (n / 16 / 16 % 16)), .char (Nat.digitChar (n / 16 % 16)),
      .char (Nat.digitChar (n % 16))] := rfl

theorem isHighSurrogate_iff {n : Nat} : isHighSurrogate n = true ↔ 0xd800 ≤ n ∧ n < 0xdc00 := by
  rw [isHighSurrogate, Bool.and_eq_true, decide_eq_true_eq, decide_eq_true_eq]

theorem isLowSurrogate_iff {n : Nat} : isLowSurrogate n = true ↔ 0xdc00 ≤ n ∧ n < 0xe000 := by
  rw [isLowSurrogate, Bool.and_eq_true, decide_eq_true_eq, decide_eq_true_eq]

theorem stringPoint?_unitEscape {n : Nat} {p : CodePoint} (hn : n < 0x10000)
    (hhigh : ¬ isHighSurrogate n = true) (hp : CodePoint.ofNat? n = some p)
    (rest : List CodePoint) :
    stringPoint? (Text.ofChars (unitEscape n) ++ rest) = some (p, rest) := by
  rw [unitEscape_eq]
  simp only [List.cons_append, List.nil_append, stringPoint?, numberedEscape?, unit?_hex hn, hp,
    hhigh, Option.pure_def, Option.bind_eq_bind, Option.bind_some]
  rfl

theorem stringPoint?_pair {high low : Nat} {p : CodePoint} (hhigh : isHighSurrogate high = true)
    (hlow : isLowSurrogate low = true) (hp : CodePoint.ofNat? (pair high low) = some p)
    (rest : List CodePoint) :
    stringPoint? (Text.ofChars (unitEscape high) ++ (Text.ofChars (unitEscape low) ++ rest)) =
      some (p, rest) := by
  obtain ⟨hge, hlt⟩ := isHighSurrogate_iff.1 hhigh
  obtain ⟨-, hlt'⟩ := isLowSurrogate_iff.1 hlow
  have hhex := unit?_hex (n := high) (by omega)
  have hhex' := unit?_hex (n := low) (by omega)
  -- Alone, the first unit would be a code point as well.
  obtain ⟨lone, hlone⟩ : ∃ q, CodePoint.ofNat? high = some q := by
    have hinvalid : ¬ high.isValidChar := by
      unfold Nat.isValidChar
      omega
    rw [CodePoint.ofNat?, dif_neg hinvalid, dif_pos (by omega)]
    exact ⟨_, rfl⟩
  rw [unitEscape_eq, unitEscape_eq]
  simp only [List.cons_append, List.nil_append, stringPoint?, numberedEscape?, hhex, hhex', hlone,
    hp, hhigh, hlow, Option.pure_def, Option.bind_eq_bind, Option.bind_some, if_true]

theorem stringPoint?_char {c : Char} (hslash : c ≠ '\\') (hc : 32 ≤ c.toNat)
    (rest : List CodePoint) : stringPoint? (.char c :: rest) = some (.char c, rest) := by
  have hn : CodePoint.toNat (.char c) = c.toNat := rfl
  unfold stringPoint?
  split
  case h_4 p tail _ _ _ heq =>
    cases heq
    rw [if_neg (by omega)]
  all_goals simp_all

/-- How a character can be written: itself, behind a backslash, or by its code units. -/
inductive Written (c : Char) : List Char → Prop
  | escaped : c = '"' ∨ c = '\\' → Written c ['\\', c]
  | plain : c ≠ '"' → c ≠ '\\' → 32 ≤ c.toNat → Written c [c]
  | unit : c.toNat < 0x10000 → Written c (unitEscape c.toNat)
  | pair {high low : Nat} : isHighSurrogate high = true → isLowSurrogate low = true →
      pair high low = c.toNat → Written c (unitEscape high ++ unitEscape low)

theorem writePoint_written (c : Char) : Written c (writePoint (.char c)) := by
  have hn : CodePoint.toNat (.char c) = c.toNat := rfl
  have hvalid : c.toNat.isValidChar := c.valid
  unfold Nat.isValidChar at hvalid
  simp only [writePoint, hn]
  by_cases hquote : c.toNat = 0x22
  · obtain rfl : c = '"' := Char.toNat_inj.1 hquote
    exact .escaped (.inl rfl)
  rw [if_neg hquote]
  by_cases hslash : c.toNat = 0x5c
  · obtain rfl : c = '\\' := Char.toNat_inj.1 hslash
    exact .escaped (.inr rfl)
  rw [if_neg hslash]
  by_cases hplain : (decide (32 ≤ c.toNat) && decide (c.toNat < 127)) = true
  · rw [if_pos hplain, Char.ofNat_toNat]
    rw [Bool.and_eq_true, decide_eq_true_eq] at hplain
    exact .plain (fun he => hquote (he ▸ rfl)) (fun he => hslash (he ▸ rfl)) hplain.1
  rw [if_neg hplain]
  by_cases hunit : c.toNat < 0x10000
  · rw [if_pos hunit]
    exact .unit hunit
  rw [if_neg hunit]
  refine .pair (isHighSurrogate_iff.2 (by omega)) (isLowSurrogate_iff.2 (by omega)) ?_
  unfold Json.pair
  omega

theorem Written.read {c : Char} {text : List Char} (h : Written c text) (rest : List CodePoint) :
    stringPoint? (Text.ofChars text ++ rest) = some (.char c, rest) := by
  have hvalid : c.toNat.isValidChar := c.valid
  unfold Nat.isValidChar at hvalid
  cases h with
  | escaped hc => obtain rfl | rfl := hc <;> rfl
  | plain _ hslash hc => exact stringPoint?_char hslash hc rest
  | unit hn =>
      have hhigh : ¬ isHighSurrogate c.toNat = true := by
        rw [isHighSurrogate_iff]
        omega
      exact stringPoint?_unitEscape hn hhigh (CodePoint.ofNat?_toNat c) rest
  | pair hhigh hlow hpair =>
      rw [Text.ofChars, List.map_append, List.append_assoc]
      exact stringPoint?_pair hhigh hlow (by rw [hpair, CodePoint.ofNat?_toNat]) rest

/-- No character is written with a quote in front, which would end the string. -/
theorem Written.head {c : Char} {text : List Char} (h : Written c text) (rest : List CodePoint) :
    ∃ p tail, Text.ofChars text ++ rest = p :: tail ∧ p ≠ .char '"' := by
  cases h with
  | plain hquote => exact ⟨_, _, rfl, fun he => hquote (CodePoint.char.inj he)⟩
  | _ => exact ⟨_, _, rfl, by decide⟩

theorem stringRest_quote (sofar rest : List CodePoint) :
    stringRest sofar (.char '"' :: rest) = .ok (sofar.reverse, rest) := by
  rw [stringRest]

theorem stringRest_point {s rest : List CodePoint} {p : CodePoint} (sofar : List CodePoint)
    (hs : ∃ q tail, s = q :: tail ∧ q ≠ .char '"') (h : stringPoint? s = some (p, rest)) :
    stringRest sofar s = stringRest (p :: sofar) rest := by
  obtain ⟨q, tail, rfl, hq⟩ := hs
  rw [stringRest]
  · split
    case h_1 hnone => simp [h] at hnone
    case h_2 hsome =>
      rw [h] at hsome
      cases hsome
      rfl
  · intro tail' he
    cases he
    exact hq rfl

/-- What is written of a string after its opening quote, and what follows it. -/
def stringEnd (s : List Char) (rest : List CodePoint) : List CodePoint :=
  Text.ofChars ((Text.ofChars s).flatMap writePoint) ++ .char '"' :: rest

theorem stringEnd_cons (c : Char) (s : List Char) (rest : List CodePoint) :
    stringEnd (c :: s) rest = Text.ofChars (writePoint (.char c)) ++ stringEnd s rest := by
  simp [stringEnd, Text.ofChars]

theorem stringRest_stringEnd (s : List Char) (sofar rest : List CodePoint) :
    stringRest sofar (stringEnd s rest) = .ok (sofar.reverse ++ Text.ofChars s, rest) := by
  induction s generalizing sofar with
  | nil => exact (stringRest_quote sofar rest).trans (by simp [Text.ofChars])
  | cons c s ih =>
      have hc := writePoint_written c
      rw [stringEnd_cons, stringRest_point sofar (hc.head _) (hc.read _), ih]
      simp [Text.ofChars]

theorem value_quote (fuel : Nat) (s : List CodePoint) :
    value (fuel + 1) (.char '"' :: s) =
      (stringRest [] s).map fun read => (.str read.1, read.2) := rfl

theorem value_string (fuel : Nat) (s : List Char) (rest : List CodePoint) :
    value (fuel + 1) (.char '"' :: stringEnd s rest) = .ok (.str (Text.ofChars s), rest) := by
  rw [value_quote, stringRest_stringEnd]
  rfl

def single (name s : List Char) : Json :=
  .object [(Text.ofChars name, .str (Text.ofChars s))]

theorem skip_cons {p : CodePoint} (h : isSpace p = false) (s : List CodePoint) :
    skip (p :: s) = p :: s :=
  List.dropWhile_cons_of_neg (by simp [h])

theorem fields_last (fuel : Nat) (sofar : List (List CodePoint × Json)) (name s : List Char)
    (rest : List CodePoint) :
    fields (fuel + 2) sofar
      (.char '"' :: stringEnd name
        (.char ':' :: .char '"' :: stringEnd s (.char '\x7d' :: rest))) =
      .ok (.object (put (Text.ofChars name) (.str (Text.ofChars s)) sofar), rest) := by
  rw [fields]
  simp only [stringRest_stringEnd, bind, Except.bind, skip_cons (p := .char ':') rfl,
    skip_cons (p := .char '"') rfl, value_string, skip_cons (p := .char '\x7d') rfl]
  rfl

theorem write_single (name s : List Char) : Text.ofChars (write (single name s)) =
    .char '\x7b' :: .char '"' :: stringEnd name
      (.char ':' :: .char '"' :: stringEnd s [.char '\x7d']) := by
  simp [write, single, writeFields, writeString, stringEnd, Text.ofChars]

theorem parse_single (name s : List Char) :
    parse (Text.ofChars (write (single name s))) = .ok (single name s) := by
  rw [write_single]
  generalize htail : CodePoint.char '"' :: _ = tail
  have hfuel : 2 * (CodePoint.char '\x7b' :: tail).length + 2 = 2 * tail.length + 1 + 3 := by
    rw [List.length_cons]
    omega
  have hvalue : value (2 * tail.length + 1 + 3) (.char '\x7b' :: tail) =
      .ok (single name s, []) := by
    rw [← htail]
    exact fields_last _ [] name s []
  rw [parse, skip_cons rfl, hfuel, hvalue]
  rfl

/-- Bytes that start as those of an object with a field are taken for UTF-8. -/
theorem detect_object (rest : List UInt8) :
    Encoding.detect (0x7b :: 0x22 :: rest) = (.utf8, 0x7b :: 0x22 :: rest) := by
  match rest with
  | [] => rfl
  | [_] => rfl
  | _ :: _ :: _ => rfl

theorem parseBytes_single (name s : List Char) :
    parseBytes (utf8 (write (single name s))) = .ok (single name s) := by
  obtain ⟨tail, htail⟩ : ∃ tail, utf8 (write (single name s)) = 0x7b :: 0x22 :: tail := ⟨_, rfl⟩
  rw [parseBytes, htail, detect_object, ← htail]
  simp only [Encoding.decode?, decodeUtf8?_utf8, parse_single]

end SchemaLint.Json
