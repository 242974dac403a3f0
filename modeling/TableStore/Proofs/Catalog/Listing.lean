import TableStore.Proofs.Catalog.SchemaLine

/-!
# Printed schema files

Tables are printed one to a line, as `name (field type, field type pk)`.  Reading a schema file
takes it apart into lines first and then every line into its parts, and both steps drop white space.
Here it is shown that nothing else is lost: each printed line is read as the table that has been
printed, wherever blank lines and outer white space have been put in, and however lines end.

## What is here

* `ColumnEntry.print`, `Plain.spelled` — a column as it is printed, and that it is spelled by the
  grammar.
* `TableListing` — a table that can be printed; `TableListing.print`, `TableListing.parse_print` —
  its line, and that the line is read as the table.
* `Listing` — the lines of a file that lists tables.
* `Catalog.entryLines_of_joined` — the lines that are read in a file, and `Listing.map_trim` — those
  of a listing are the printed tables.
-/

set_option autoImplicit false
namespace TableStore

/-! ## White space

A line is trimmed before it is read, and its words may stand any amount of white space apart.  What
is printed has single spaces and no outer white space, so that neither takes anything from it. -/

namespace Text

variable {gap text : List Char} {ws : List (List Char)}

theorem Word.of_all (hne : text ≠ []) (h : text.all (!isBlank ·) = true) : Word text :=
  ⟨hne, by simpa using h⟩

theorem Trimmed.of_trim_eq (h : trim text = text) : Trimmed text := (trim_eq_iff.1 h).1

theorem trim_of_blank (h : Blank gap) : trim gap = [] := by
  rw [trim, List.dropWhile_eq_nil_iff.2 h]
  rfl

/-- White space at the end of a text does not matter. -/
theorem trim_append_of_blank (h : Blank gap) (text : List Char) :
    trim (text ++ gap) = trim text := by
  obtain ⟨htrimmed, front, back, hfront, hback, htext⟩ :=
    trim_eq_iff.1 (rfl : trim text = trim text)
  refine trim_eq_iff.2 ⟨htrimmed, front, back ++ gap, hfront, fun c hc => ?_, ?_⟩
  · exact (List.mem_append.1 hc).elim (hback c) (h c)
  · conv_lhs => rw [htext]
    simp only [List.append_assoc]

/-- So it does not matter whether a line ends with a carriage return. -/
theorem trim_dropReturn (line : List Char) : trim (dropReturn line) = trim line := by
  rw [dropReturn]
  split
  · rename_i hlast
    obtain ⟨front, rfl⟩ := List.getLast?_eq_some_iff.1 hlast
    rw [List.dropLast_concat, trim_append_of_blank (Blank.nil.cons (by decide))]
  · rfl

/-- Words with one space between any two. -/
theorem spaced_intercalate (h : ∀ w ∈ ws, Word w) : Spaced ws (List.intercalate [' '] ws) := by
  have hspace : isBlank ' ' = true := by decide
  induction ws with
  | nil => exact .nil .nil
  | cons w ws ih =>
    obtain ⟨hw, hws⟩ := List.forall_mem_cons.1 h
    cases ws with
    | nil =>
      have hend := Spaced.cons .nil hw (fun _ hc => by cases hc) (.nil .nil)
      rw [List.append_nil, List.nil_append] at hend
      rwa [List.intercalate_singleton]
    | cons w' ws =>
      rw [List.intercalate_cons_cons, List.append_assoc, ← List.nil_append (w ++ _)]
      exact .cons .nil hw (by rintro c ⟨⟩; exact hspace) ((ih hws).blank_cons hspace)

end Text

/-! ## Joining -/

/-- What stands in no part and not in the separator does not stand in the joined text. -/
theorem notMem_intercalate {a : Char} {sep : List Char} {parts : List (List Char)} (hsep : a ∉ sep)
    (h : ∀ part ∈ parts, a ∉ part) : a ∉ List.intercalate sep parts := by
  induction parts with
  | nil => exact List.not_mem_nil
  | cons part parts ih =>
    obtain ⟨hpart, hparts⟩ := List.forall_mem_cons.1 h
    cases parts with
    | nil => exact List.intercalate_singleton ▸ hpart
    | cons next parts =>
      rw [List.intercalate_cons_cons, List.mem_append, List.mem_append]
      rintro ((ha | ha) | ha)
      · exact hpart ha
      · exact hsep ha
      · exact ih hparts ha

/-- A separator of two characters is one character and another before every part but the first. -/
theorem intercalate_pair (a b : Char) (part : List Char) (parts : List (List Char)) :
    List.intercalate [a, b] (part :: parts) =
      List.intercalate [a] (part :: parts.map (b :: ·)) := by
  induction parts generalizing part with
  | nil => rw [List.map_nil, List.intercalate_singleton, List.intercalate_singleton]
  | cons next parts ih =>
    rw [List.map_cons, List.intercalate_cons_cons, List.intercalate_cons_cons, ih next]
    -- the second character of the separator joins the part that follows it
    cases parts with
    | nil => simp
    | cons _ _ => simp [List.intercalate_cons_cons]

/-! ## Printing columns -/

namespace ColumnEntry

variable {c : ColumnEntry}

/-- A column whose name is a word without commas. -/
structure Plain (c : ColumnEntry) : Prop where
  word : Text.Word c.name.toList
  comma : ',' ∉ c.name.toList

/-- The words of a column. -/
def words (c : ColumnEntry) : List (List Char) :=
  c.name.toList :: c.type.spelling :: if c.marked then [keyMark] else []

/-- The column as it is printed: `field type`, or `field type pk` if it is marked. -/
def print (c : ColumnEntry) : List Char := List.intercalate [' '] c.words

/-- What all words of a column have in common. -/
theorem forall_mem_words {P : List Char → Prop} (hname : P c.name.toList)
    (htype : ∀ t : FieldType, P t.spelling) (hmark : P keyMark) : ∀ w ∈ c.words, P w := by
  refine List.forall_mem_cons.2 ⟨hname, List.forall_mem_cons.2 ⟨htype c.type, fun w hw => ?_⟩⟩
  split at hw
  · exact List.mem_singleton.1 hw ▸ hmark
  · exact absurd hw List.not_mem_nil

theorem Plain.spaced (h : c.Plain) : Text.Spaced c.words c.print := by
  refine Text.spaced_intercalate (forall_mem_words h.word (fun t => ?_) ?_)
  · cases t <;> exact .of_all (by decide) (by decide)
  · exact .of_all (by decide) (by decide)

theorem notMem_print {a : Char} (hspace : a ∉ [' ']) (hname : a ∉ c.name.toList)
    (htype : ∀ t : FieldType, a ∉ t.spelling) (hmark : a ∉ keyMark) : a ∉ c.print :=
  notMem_intercalate hspace (forall_mem_words hname htype hmark)

/-- The name of a column does not go over to another line. -/
theorem Plain.feed_notMem (h : c.Plain) : '\n' ∉ c.print := by
  refine notMem_print (by decide) (fun hmem => ?_) (fun t => by cases t <;> decide) (by decide)
  exact absurd (h.word.letters _ hmem) (by decide)

theorem Plain.spelled (h : c.Plain) : c.Spelled c.print :=
  .intro (by cases c.type <;> decide)
    (notMem_print (by decide) h.comma (fun t => by cases t <;> decide) (by decide)) h.spaced

theorem Spelled.blank_cons {a : Char} {text : List Char} (ha : Text.isBlank a = true)
    (h : c.Spelled text) : c.Spelled (a :: text) := by
  obtain ⟨htype, hcomma, hspaced⟩ := h
  refine .intro htype (fun hmem => ?_) (hspaced.blank_cons ha)
  rcases List.mem_cons.1 hmem with rfl | hmem
  · exact absurd ha (by decide)
  · exact hcomma hmem

end ColumnEntry

/-! ## Printing tables -/

/-- A table with a name that a line can hold: some characters without outer white space, and no
opening parenthesis or line feed among them.  It has columns, with words for names, and the marked
one is the key. -/
structure TableListing where
  name : String
  columns : List ColumnEntry
  /-- The name of the primary key; empty if no column is marked. -/
  key : String
  name_ne : name ≠ ""
  trim_name : Text.trim name.toList = name.toList
  opening : '(' ∉ name.toList
  feed : '\n' ∉ name.toList
  nonempty : columns ≠ []
  plain : ∀ c ∈ columns, c.Plain
  keyOf : TableEntry.KeyOf columns key

namespace TableListing

variable (l : TableListing)

/-- The types and the names of the columns. -/
def schema : Schema := ⟨l.columns.map ColumnEntry.column, mt List.map_eq_nil_iff.1 l.nonempty⟩

/-- The table as it is printed: `name (column, ...)`. -/
def print : List Char :=
  l.name.toList ++ ' ' :: '(' ::
    (List.intercalate [',', ' '] (l.columns.map ColumnEntry.print) ++ [')'])

theorem print_eq_concat : l.print = (l.name.toList ++ ' ' :: '(' ::
    List.intercalate [',', ' '] (l.columns.map ColumnEntry.print)) ++ [')'] := by
  simp [print]

/-- What is printed is spelled by the grammar of lines. -/
theorem spelled_print : TableEntry.Spelled ⟨l.name, l.schema, l.key⟩ [] l.print := by
  obtain ⟨c, columns, hcolumns⟩ := List.exists_cons_of_ne_nil l.nonempty
  have hspace : Text.isBlank ' ' = true := by decide
  -- all columns but the first follow the space of their separator
  have hparts : List.Forall₂ ColumnEntry.Spelled l.columns
      (c.print :: (columns.map ColumnEntry.print).map (' ' :: ·)) := by
    have hplain := l.plain
    rw [hcolumns] at hplain ⊢
    obtain ⟨hc, hrest⟩ := List.forall_mem_cons.1 hplain
    refine .cons hc.spelled ?_
    rw [List.forall₂_map_right_iff, List.forall₂_map_right_iff]
    exact List.forall₂_same.2 fun d hd => (hrest d hd).spelled.blank_cons hspace
  have h : TableEntry.Spelled ⟨l.name, l.schema, l.key⟩ [] _ :=
    .intro Text.Blank.nil (Text.Blank.nil.cons hspace) l.name_ne (.of_trim_eq l.trim_name)
      l.opening hparts rfl l.keyOf
  rw [← intercalate_pair, ← List.map_cons, ← hcolumns, List.nil_append, List.append_assoc] at h
  exact h

/-- **A printed table is read as it is.** -/
theorem parse_print : TableEntry.parse l.print = .ok ⟨l.name, l.schema, l.key⟩ := by
  have h := l.spelled_print
  rw [print_eq_concat] at h ⊢
  exact (TableEntry.parse_closed _).2 h

theorem trimmed_print : Text.Trimmed l.print where
  head c hc := by
    refine (Text.Trimmed.of_trim_eq l.trim_name).head c ?_
    rwa [print, List.head?_append_of_ne_nil _ (mt String.toList_eq_nil_iff.1 l.name_ne)] at hc
  last c hc := by
    rw [print_eq_concat, List.getLast?_concat] at hc
    obtain rfl : ')' = c := Option.some.inj hc
    decide

theorem print_ne_nil : l.print ≠ [] := by
  rw [print_eq_concat]
  exact List.append_ne_nil_of_right_ne_nil _ (List.cons_ne_nil _ _)

theorem feed_notMem_print : '\n' ∉ l.print := by
  have hcolumns : '\n' ∉ List.intercalate [',', ' '] (l.columns.map ColumnEntry.print) :=
    notMem_intercalate (by decide) <| List.forall_mem_map.2 fun c hc => (l.plain c hc).feed_notMem
  rw [print]
  simp only [List.mem_append, List.mem_cons, List.not_mem_nil, not_or]
  exact ⟨l.feed, by decide, by decide, hcolumns, by decide, not_false⟩

end TableListing

/-! ## Schema files

Lines may end with a carriage return, and empty lines are passed over.  So a list of tables has many
files, and all of them have to be read alike. -/

/-- The lines list the tables, one to a line.  White space may stand around a printed table, a
carriage return at its end included, and there may be lines of white space only. -/
inductive Listing : List TableListing → List (List Char) → Prop
  | nil : Listing [] []
  | blank {ls : List TableListing} {lines : List (List Char)} {gap : List Char} :
      Text.Blank gap → '\n' ∉ gap → Listing ls lines → Listing ls (gap :: lines)
  | table {l : TableListing} {ls : List TableListing} {lines : List (List Char)}
      {gap gap' : List Char} : Text.Blank gap → '\n' ∉ gap → Text.Blank gap' → '\n' ∉ gap' →
      Listing ls lines → Listing (l :: ls) ((gap ++ (l.print ++ gap')) :: lines)

namespace Listing

variable {ls : List TableListing} {lines : List (List Char)}

/-- The lines are those of a file: no line goes on behind a line feed. -/
theorem feed_notMem (h : Listing ls lines) : ∀ line ∈ lines, '\n' ∉ line := by
  induction h with
  | nil => exact fun _ hline => absurd hline List.not_mem_nil
  | blank _ hfeed _ ih => exact List.forall_mem_cons.2 ⟨hfeed, ih⟩
  | @table l _ _ _ _ _ hfeed _ hfeed' _ ih =>
    refine List.forall_mem_cons.2 ⟨fun hmem => ?_, ih⟩
    rw [List.mem_append, List.mem_append] at hmem
    exact hmem.elim hfeed fun hmem => hmem.elim l.feed_notMem_print hfeed'

/-- What the lines are without white space. -/
theorem map_trim (h : Listing ls lines) :
    (lines.map Text.trim).filter (· ≠ []) = ls.map TableListing.print := by
  induction h with
  | nil => rfl
  | blank hgap _ _ ih =>
    rw [List.map_cons, Text.trim_of_blank hgap, List.filter_cons_of_neg (by simp), ih]
  | @table l _ _ gap gap' hgap _ hgap' _ _ ih =>
    have htrim : Text.trim (gap ++ (l.print ++ gap')) = l.print :=
      Text.trim_eq_iff.2 ⟨l.trimmed_print, gap, gap', hgap, hgap', rfl⟩
    rw [List.map_cons, htrim, List.filter_cons_of_pos (by simpa using l.print_ne_nil), ih,
      List.map_cons]

end Listing

namespace Catalog

/-- The lines that are read in a file.  Carriage returns and a final line feed do not matter. -/
theorem entryLines_eq (text : String) :
    entryLines text = ((splitOn '\n' text.toList).map Text.trim).filter (· ≠ []) := by
  have htrim : Text.trim ∘ Text.dropReturn = Text.trim := funext Text.trim_dropReturn
  rw [entryLines, Text.lines]
  generalize hparts : splitOn '\n' text.toList = parts
  obtain ⟨ended, last, rfl⟩ : ∃ ended last, parts = ended ++ [last] :=
    ⟨_, _, (List.dropLast_concat_getLast (hparts ▸ splitOn_ne_nil _ _)).symm⟩
  simp only [List.dropLast_concat, List.getLast?_concat]
  split
  · rename_i hlast
    cases hlast
  · rename_i hlast
    obtain rfl : last = [] := Option.some.inj hlast
    simp [htrim, Text.trim_of_blank .nil]
  · rename_i hlast
    obtain rfl := Option.some.inj hlast
    simp [htrim]

/-- The lines that are read in a file made of lines. -/
theorem entryLines_of_joined {text : String} {lines : List (List Char)}
    (htext : text.toList = List.intercalate ['\n'] lines) (h : ∀ line ∈ lines, '\n' ∉ line) :
    entryLines text = (lines.map Text.trim).filter (· ≠ []) := by
  rw [entryLines_eq, htext]
  cases lines with
  | nil => rfl
  | cons line lines => rw [splitOn_intercalate (List.cons_ne_nil _ _) h]

end Catalog
end TableStore
