import TableStore.Bytes

/-!
# Text as bytes

## What is here

* `Utf8.encode`, `Utf8.decode?` — the bytes of a text, and the text of a byte string that is valid
  UTF-8.  `decode?_eq_some_iff` says that the two are inverse to each other.
* `Utf8.fit` — the longest start of a text, made of whole characters, that takes at most a given
  number of bytes.
* `Utf8.repair` — the byte string with every maximal ill-formed part replaced by the replacement
  character U+FFFD.  An ill-formed part is one byte that begins no character, or the longest start
  of a character that is not completed.
-/

set_option autoImplicit false
namespace TableStore
namespace Utf8

/-- The bytes of a text. -/
def encode (s : String) : Bytes := s.toByteArray.data.toList

/-- The text with these bytes, if they are valid UTF-8. -/
def decode? (b : Bytes) : Option String := String.fromUTF8? b.toByteArray

theorem toByteArray_encode (s : String) : (encode s).toByteArray = s.toByteArray := by
  apply ByteArray.ext
  apply Array.toList_inj.1
  rw [encode, List.toList_data_toByteArray]

theorem decode?_encode (s : String) : decode? (encode s) = some s := by
  simp only [decode?, String.fromUTF8?, toByteArray_encode, s.isValidUTF8, ↓reduceDIte]
  rfl

theorem decode?_eq_some_iff {b : Bytes} {s : String} : decode? b = some s ↔ b = encode s := by
  constructor
  · intro h
    simp only [decode?, String.fromUTF8?] at h
    split at h
    · obtain rfl := Option.some.inj h
      simp only [encode, String.fromUTF8, List.toList_data_toByteArray]
    · cases h
  · rintro rfl
    exact decode?_encode s

theorem encode_ofList (l : List Char) :
    encode (String.ofList l) = l.flatMap String.utf8EncodeChar := by
  rw [encode, String.toByteArray_ofList, List.utf8Encode, List.toList_data_toByteArray]

/-! ## Cutting a text to a number of bytes -/

/-- The characters up to the first that does not fit into `limit` bytes with those before it. -/
def fitChars : Nat → List Char → List Char
  | _, [] => []
  | limit, c :: cs =>
    if c.utf8Size ≤ limit then c :: fitChars (limit - c.utf8Size) cs else []

/-- The longest start of a text that takes at most `limit` bytes. -/
def fit (limit : Nat) (s : String) : String := String.ofList (fitChars limit s.toList)

theorem length_flatMap_fitChars (limit : Nat) (cs : List Char) :
    ((fitChars limit cs).flatMap String.utf8EncodeChar).length ≤ limit := by
  induction cs generalizing limit with
  | nil => simp [fitChars]
  | cons c cs ih =>
    by_cases h : c.utf8Size ≤ limit
    · have := ih (limit - c.utf8Size)
      simp only [fitChars, h, ↓reduceIte, List.flatMap_cons, List.length_append,
        String.length_utf8EncodeChar]
      omega
    · simp [fitChars, h]

theorem length_encode_fit (limit : Nat) (s : String) : (encode (fit limit s)).length ≤ limit := by
  rw [fit, encode_ofList]
  exact length_flatMap_fitChars limit s.toList

/-! ## Replacing ill-formed parts -/

/-- What may follow the first byte of a character: the range of the second byte, and the number of
continuation bytes after it. -/
structure Lead where
  low : UInt8
  high : UInt8
  more : Nat

/-- The rule for a byte that begins a character of two to four bytes.  The narrower ranges exclude
overlong forms, surrogates and code points above U+10FFFF. -/
def lead? (b : UInt8) : Option Lead :=
  if b < 0xC2 then none
  else if b ≤ 0xDF then some ⟨0x80, 0xBF, 0⟩
  else if b = 0xE0 then some ⟨0xA0, 0xBF, 1⟩
  else if b = 0xED then some ⟨0x80, 0x9F, 1⟩
  else if b ≤ 0xEF then some ⟨0x80, 0xBF, 1⟩
  else if b = 0xF0 then some ⟨0x90, 0xBF, 2⟩
  else if b ≤ 0xF3 then some ⟨0x80, 0xBF, 2⟩
  else if b = 0xF4 then some ⟨0x80, 0x8F, 2⟩
  else none

/-- How many of the next bytes continue a character, and whether they complete it. -/
def Lead.extent (l : Lead) : Bytes → Nat × Bool
  | [] => (0, false)
  | b :: rest =>
    if l.low ≤ b ∧ b ≤ l.high then
      let n := ((rest.take l.more).takeWhile fun c => 0x80 ≤ c ∧ c ≤ 0xBF).length
      (n + 1, n == l.more)
    else (0, false)

/-- The bytes of U+FFFD. -/
def replacement : Bytes := [0xEF, 0xBF, 0xBD]

/-- Replaces every maximal ill-formed part by the replacement character. -/
def repair : Bytes → Bytes
  | [] => []
  | b :: rest =>
    if b < 0x80 then b :: repair rest
    else match lead? b with
      | none => replacement ++ repair rest
      | some l =>
        let (n, whole) := l.extent rest
        (if whole then b :: rest.take n else replacement) ++ repair (rest.drop n)
  termination_by b => b.length
  decreasing_by
    · simp
    · simp
    · simp only [List.length_drop, List.length_cons]
      omega

end Utf8
end TableStore
