import Mathlib.Data.List.TakeWhile
import TableStore.Text.Blank

/-!
# Words and outer white space

`Text.words` and `Text.trim` are computed by taking and dropping characters.  Here both are put as
what they find: a text and its words determine each other up to the white space between the words,
and likewise a text and what stands inside its outer white space.

## What is here

* `Text.Blank`, `Text.Word`, `Text.Gapped` — white space, a word, and a text where no word goes on.
* `Text.Spaced` — a text is made of words with white space around them.
* `Text.words_eq_iff` — the words of a text are the words that it is made of.
* `Text.Trimmed`, `Text.trim_eq_iff` — the same for the text inside the outer white space.
-/

set_option autoImplicit false
namespace TableStore
namespace Text

variable {gap word text rest inner : List Char} {ws : List (List Char)} {c : Char}

/-- White space only. -/
def Blank (text : List Char) : Prop := ∀ c ∈ text, isBlank c = true

/-- At least one character, and none of them white space. -/
structure Word (text : List Char) : Prop where
  ne_nil : text ≠ []
  letters : ∀ c ∈ text, isBlank c = false

/-- The text is empty or starts with white space, so that a word before it ends there. -/
def Gapped (text : List Char) : Prop := ∀ c ∈ text.head?, isBlank c = true

/-- The text is made of the words, with white space around them and between any two. -/
inductive Spaced : List (List Char) → List Char → Prop
  | nil {gap : List Char} : Blank gap → Spaced [] gap
  | cons {gap word rest : List Char} {ws : List (List Char)} : Blank gap → Word word → Gapped rest →
      Spaced ws rest → Spaced (word :: ws) (gap ++ (word ++ rest))

theorem Blank.nil : Blank [] := fun _ h => absurd h List.not_mem_nil

theorem Blank.cons (hc : isBlank c = true) (h : Blank gap) : Blank (c :: gap) :=
  List.forall_mem_cons.2 ⟨hc, h⟩

theorem Blank.notMem (h : Blank gap) (hc : isBlank c = false) : c ∉ gap := fun hmem =>
  Bool.false_ne_true (hc.symm.trans (h c hmem))

/-- What is left after characters have been dropped does not start with one of them. -/
theorem eq_false_of_head?_dropWhile {p : Char → Bool} (h : c ∈ (text.dropWhile p).head?) :
    p c = false := by
  rw [← List.find?_not_eq_head?_dropWhile] at h
  simpa using List.find?_some h

/-! ## Words

Words are described by the text that they make up, with white space in between.  Each text has just
one such description. -/

theorem words_append_of_blank (h : Blank gap) (text : List Char) :
    words (gap ++ text) = words text := by
  induction gap with
  | nil => rfl
  | cons c gap ih =>
    obtain ⟨hc, hgap⟩ := List.forall_mem_cons.1 h
    rw [List.cons_append, words, if_pos hc, ih hgap]

/-- The first word reaches up to the next white space. -/
theorem words_append_of_word (h : Word word) (hrest : Gapped rest) :
    words (word ++ rest) = word :: words rest := by
  obtain ⟨hne, hletters⟩ := h
  cases word with
  | nil => exact absurd rfl hne
  | cons c word =>
    obtain ⟨hc, hword⟩ := List.forall_mem_cons.1 hletters
    have hall : ∀ a ∈ word, (!isBlank a) = true := fun a ha => by rw [hword a ha, Bool.not_false]
    have hstop : rest.takeWhile (!isBlank ·) = [] ∧ rest.dropWhile (!isBlank ·) = rest := by
      cases rest with
      | nil => exact ⟨rfl, rfl⟩
      | cons d rest => simp [hrest d rfl]
    rw [List.cons_append, words, if_neg (by simp [hc]), List.takeWhile_append_of_pos hall,
      List.dropWhile_append_of_pos hall, hstop.1, hstop.2, List.append_nil]

theorem Spaced.blank_cons (hc : isBlank c = true) (h : Spaced ws text) : Spaced ws (c :: text) := by
  cases h with
  | nil hgap => exact .nil (hgap.cons hc)
  | cons hgap hword hrest h => exact .cons (hgap.cons hc) hword hrest h

theorem spaced_words (text : List Char) : Spaced (words text) text := by
  induction text using words.induct with
  | case1 => rw [words]; exact .nil .nil
  | case2 c text hc ih => rw [words, if_pos hc]; exact ih.blank_cons hc
  | case3 c text hc ih =>
    have hword : Word (c :: text.takeWhile (!isBlank ·)) := by
      refine ⟨List.cons_ne_nil _ _, List.forall_mem_cons.2 ⟨Bool.eq_false_iff.2 hc, fun a ha => ?_⟩⟩
      simpa using List.mem_takeWhile_imp ha
    have hrest : Gapped (text.dropWhile (!isBlank ·)) := fun a ha => by
      simpa using eq_false_of_head?_dropWhile ha
    have h := Spaced.cons .nil hword hrest ih
    rw [List.nil_append, List.cons_append, List.takeWhile_append_dropWhile] at h
    rwa [words, if_neg hc]

/-- **The words of a text are the words that it is made of.** -/
theorem words_eq_iff : words text = ws ↔ Spaced ws text := by
  refine ⟨fun h => h ▸ spaced_words text, fun h => ?_⟩
  induction h with
  | @nil gap hgap =>
    have h := words_append_of_blank hgap []
    rw [List.append_nil] at h
    rw [h, words]
  | cons hgap hword hrest _ ih =>
    rw [words_append_of_blank hgap, words_append_of_word hword hrest, ih]

/-! ## Outer white space -/

/-- No white space at the two ends. -/
structure Trimmed (text : List Char) : Prop where
  head : ∀ c ∈ text.head?, isBlank c = false
  last : ∀ c ∈ text.getLast?, isBlank c = false

/-- Dropping white space takes away the white space that a text starts with. -/
theorem dropWhile_append_of_blank (hgap : Blank gap) (h : ∀ c ∈ text.head?, isBlank c = false) :
    (gap ++ text).dropWhile isBlank = text := by
  rw [List.dropWhile_append_of_pos hgap]
  cases text with
  | nil => rfl
  | cons c text => rw [List.dropWhile_cons_of_neg (by simp [h c rfl])]

theorem exists_blank_append (text : List Char) :
    ∃ gap, Blank gap ∧ text = gap ++ text.dropWhile isBlank :=
  ⟨text.takeWhile isBlank, fun _ => List.mem_takeWhile_imp,
    List.takeWhile_append_dropWhile.symm⟩

/-- **A text without its outer white space.** -/
theorem trim_eq_iff : trim text = inner ↔
    Trimmed inner ∧ ∃ gap gap', Blank gap ∧ Blank gap' ∧ text = gap ++ (inner ++ gap') := by
  constructor
  · rintro rfl
    obtain ⟨gap, hgap, htext⟩ := exists_blank_append text
    obtain ⟨gap', hgap', hrest⟩ := exists_blank_append (text.dropWhile isBlank).reverse
    have hback : text.dropWhile isBlank = trim text ++ gap'.reverse := by
      rw [trim, ← List.reverse_append, ← hrest, List.reverse_reverse]
    refine ⟨⟨fun c hc => ?_, fun c hc => ?_⟩, gap, gap'.reverse, hgap,
      fun c hc => hgap' c (List.mem_reverse.1 hc), hback ▸ htext⟩
    · have hhead : c ∈ (text.dropWhile isBlank).head? := by
        rw [hback, List.head?_append, Option.mem_def.1 hc]
        rfl
      exact eq_false_of_head?_dropWhile hhead
    · rw [trim, List.getLast?_reverse] at hc
      exact eq_false_of_head?_dropWhile hc
  · rintro ⟨⟨hhead, hlast⟩, gap, gap', hgap, hgap', rfl⟩
    have hreverse : ∀ c ∈ inner.reverse.head?, isBlank c = false := by
      rwa [List.head?_reverse]
    rw [trim, List.dropWhile_append_of_pos hgap]
    cases inner with
    | nil =>
      rw [List.nil_append, List.dropWhile_eq_nil_iff.2 hgap']
      rfl
    | cons c inner =>
      rw [List.cons_append, List.dropWhile_cons_of_neg (by simp [hhead c rfl]), ← List.cons_append,
        List.reverse_append, dropWhile_append_of_blank (fun a ha => hgap' a (List.mem_reverse.1 ha))
          hreverse, List.reverse_reverse]

end Text
end TableStore
