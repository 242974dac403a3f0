import TableStore.Split

/-!
# White space, words and lines

## What is here

* `isBlank` — the characters with the Unicode property `White_Space`.
* `trim`, `words` — a text without its outer white space, and its parts between white space.
* `lines` — the lines of a text, each ended by a line feed that a carriage return may precede.

They work on lists of characters.
-/

set_option autoImplicit false
namespace TableStore
namespace Text

/-- The white-space code points, as ranges with both ends included, in increasing order. -/
def blankRanges : List (Nat × Nat) :=
  [(0x9, 0xd), (0x20, 0x20), (0x85, 0x85), (0xa0, 0xa0), (0x1680, 0x1680), (0x2000, 0x200a),
  (0x2028, 0x2029), (0x202f, 0x202f), (0x205f, 0x205f), (0x3000, 0x3000)]

/-- Whether the character is white space. -/
def isBlank (c : Char) : Bool :=
  blankRanges.any fun r => r.1 ≤ c.toNat && c.toNat ≤ r.2

/-- The text without the white space at its two ends. -/
def trim (cs : List Char) : List Char :=
  ((cs.dropWhile isBlank).reverse.dropWhile isBlank).reverse

/-- The longest parts without white space, in order. -/
def words : List Char → List (List Char)
  | [] => []
  | c :: cs =>
    if isBlank c then words cs
    else (c :: cs.takeWhile (!isBlank ·)) :: words (cs.dropWhile (!isBlank ·))
  termination_by cs => cs.length
  decreasing_by
    · simp
    · have := (List.dropWhile_sublist (l := cs) (!isBlank ·)).length_le
      simp only [List.length_cons]
      omega

/-- A line without the carriage return before its end. -/
def dropReturn (line : List Char) : List Char :=
  if line.getLast? = some '\r' then line.dropLast else line

/-- The lines of a text.  The last one may lack its line feed; nothing follows a final line feed. -/
def lines (cs : List Char) : List (List Char) :=
  let parts := splitOn '\n' cs
  let ended := parts.dropLast.map dropReturn
  match parts.getLast? with
  | none | some [] => ended
  | some rest => ended ++ [rest]

end Text
end TableStore
