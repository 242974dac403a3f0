import Mathlib.Data.List.Forall2
import TableStore.Catalog.Load
import TableStore.Proofs.Words

/-!
# The lines that describe tables

A line is taken apart by searching: for the first opening parenthesis, for the last closing one, for
commas and for white space.  Here the lines that are accepted are given by a grammar that puts them
together instead, and the two are shown to agree.  They do so with one exception: what follows the
last closing parenthesis is ignored, whatever it is.

## What is here

* `ColumnEntry.Spelled` — a text is `field type` or `field type pk`.
* `TableEntry.Spelled` — a line is `name (column, ...)` with a text after it.
* `TableEntry.halves?_eq_some_iff`, `splitOn_eq_iff` — how a line falls apart.
* `ColumnEntry.parseAll_eq_ok_iff`, `TableEntry.keyOf_eq_iff` — the columns, and the key they give.
* `TableEntry.parse_eq_ok_iff`, `TableEntry.parse_closed` — the lines that describe a table, and
  those among them that end with a closing parenthesis.
* `TableEntry.parse_grammar` — the whole, with the lines that are refused.
-/

set_option autoImplicit false
namespace TableStore

variable {line before body part : List Char} {parts : List (List Char)} {entry : TableEntry}
  {column : ColumnEntry} {columns : List ColumnEntry}

/-! ## The grammar

The grammar says which texts stand for an entry, and nothing of the order in which a reader looks at
them.  It has to admit any text after the last closing parenthesis, since a reader never looks
there. -/

/-- The name of a type as it stands in a schema file, in lower case. -/
def FieldType.spelling : FieldType → List Char
  | int => ['i', 'n', 't']
  | text => ['s', 't', 'r', 'i', 'n', 'g']

namespace ColumnEntry

/-- The text is `field type`, or `field type pk` for a marked column.  The letters of the type may
be capital, and the text holds no comma. -/
inductive Spelled (column : ColumnEntry) : List Char → Prop
  | intro {type text : List Char} : type.map Char.toLower = column.type.spelling → ',' ∉ text →
      Text.Spaced (column.name.toList :: type :: if column.marked then [keyMark] else []) text →
      Spelled column text

end ColumnEntry

namespace TableEntry

/-- The key is the name of the last marked column, or empty if there is none. -/
inductive KeyOf : List ColumnEntry → String → Prop
  | unmarked {columns : List ColumnEntry} : (∀ c ∈ columns, c.marked = false) → KeyOf columns ""
  | last {before after : List ColumnEntry} {column : ColumnEntry} : column.marked = true →
      (∀ c ∈ after, c.marked = false) → KeyOf (before ++ column :: after) column.name

/-- The line is the name of the table, an opening parenthesis, the columns with commas between them
and a closing parenthesis.  The text `after` follows. -/
inductive Spelled (entry : TableEntry) (after : List Char) : List Char → Prop
  | intro {gap gap' : List Char} {columns : List ColumnEntry} {parts : List (List Char)} :
      Text.Blank gap → Text.Blank gap' → entry.name ≠ "" → Text.Trimmed entry.name.toList →
      '(' ∉ entry.name.toList → List.Forall₂ ColumnEntry.Spelled columns parts →
      entry.schema.columns = columns.map ColumnEntry.column → KeyOf columns entry.key →
      Spelled entry after (gap ++ (entry.name.toList ++ gap') ++
        '(' :: (List.intercalate [','] parts ++ ')' :: after))

end TableEntry

/-! ## Searching

A line is cut at single characters: the first opening parenthesis, the last closing one, all commas.
For each kind of cut there is just one way to put the parts together, and that way is told by what
the parts do not hold. -/

/-- A search stops at the first occurrence, and nowhere before it. -/
theorem search_eq {a b : Char} {text rest : List Char} (h : text.dropWhile (· ≠ a) = b :: rest) :
    a ∉ text.takeWhile (· ≠ a) ∧ text = text.takeWhile (· ≠ a) ++ a :: rest := by
  have hhead : b ∈ (text.dropWhile (· ≠ a)).head? := by rw [h]; rfl
  obtain rfl : b = a := by simpa using Text.eq_false_of_head?_dropWhile hhead
  refine ⟨fun ha => by simpa using List.mem_takeWhile_imp ha, ?_⟩
  rw [← h, List.takeWhile_append_dropWhile]

/-- What stands before a first occurrence is what the search passes over. -/
theorem search_append {a : Char} (h : a ∉ before) (rest : List Char) :
    (before ++ a :: rest).takeWhile (· ≠ a) = before ∧
      (before ++ a :: rest).dropWhile (· ≠ a) = a :: rest := by
  have hpass : ∀ c ∈ before, decide (c ≠ a) = true := fun c hc =>
    decide_eq_true fun he => h (he ▸ hc)
  rw [List.takeWhile_append_of_pos hpass, List.dropWhile_append_of_pos hpass]
  simp

/-- A line falls apart at its first opening parenthesis and its last closing one. -/
theorem TableEntry.halves?_eq_some_iff : halves? line = some (before, body) ↔
    '(' ∉ before ∧ ∃ after, ')' ∉ after ∧ line = before ++ '(' :: (body ++ ')' :: after) := by
  constructor
  · intro h
    rw [halves?] at h
    split at h
    · cases h
    · rename_i _ rest hopen
      split at h
      · cases h
      · rename_i _ back hclose
        obtain ⟨rfl, rfl⟩ : line.takeWhile (· ≠ '(') = before ∧ back.reverse = body := by
          simpa using h
        obtain ⟨hbefore, hline⟩ := search_eq hopen
        obtain ⟨hafter, hrest⟩ := search_eq hclose
        refine ⟨hbefore, (rest.reverse.takeWhile (· ≠ ')')).reverse,
          fun hc => hafter (List.mem_reverse.1 hc), hline.trans ?_⟩
        have hrest := congrArg List.reverse hrest
        rw [List.reverse_reverse, List.reverse_append, List.reverse_cons, List.append_assoc,
          List.singleton_append] at hrest
        rw [← hrest]
  · rintro ⟨hbefore, after, hafter, rfl⟩
    obtain ⟨htake, hdrop⟩ := search_append hbefore (body ++ ')' :: after)
    have hback : (body ++ ')' :: after).reverse = after.reverse ++ ')' :: body.reverse := by simp
    have hclose := (search_append (mt List.mem_reverse.1 hafter) body.reverse).2
    simp only [halves?, htake, hdrop, hback, hclose, List.reverse_reverse]

/-- No part holds the separator. -/
theorem notMem_of_mem_splitOn {sep : Char} {text : List Char} (h : part ∈ splitOn sep text) :
    sep ∉ part := by
  induction text generalizing part with
  | nil =>
    rw [splitOn, List.mem_singleton] at h
    exact h ▸ List.not_mem_nil
  | cons c text ih =>
    rw [splitOn] at h
    split at h
    · obtain rfl | h := List.mem_cons.1 h
      · exact List.not_mem_nil
      · exact ih h
    · rename_i hc
      cases hs : splitOn sep text with
      | nil => exact absurd hs (splitOn_ne_nil sep text)
      | cons first rest =>
        rw [hs, List.modifyHead_cons] at h
        obtain rfl | h := List.mem_cons.1 h
        · rw [List.mem_cons, not_or]
          exact ⟨Ne.symm hc, ih (hs ▸ List.mem_cons_self)⟩
        · exact ih (hs ▸ List.mem_cons_of_mem _ h)

/-- A text falls apart at its commas, and in no other way. -/
theorem splitOn_eq_iff {sep : Char} {text : List Char} : splitOn sep text = parts ↔
    parts ≠ [] ∧ (∀ part ∈ parts, sep ∉ part) ∧ List.intercalate [sep] parts = text := by
  constructor
  · rintro rfl
    exact ⟨splitOn_ne_nil sep text, fun _ => notMem_of_mem_splitOn, intercalate_splitOn sep text⟩
  · rintro ⟨hne, hparts, rfl⟩
    exact splitOn_intercalate hne hparts

/-! ## Columns -/

theorem Schema.ofColumns?_eq_some_iff {columns : List Column} {schema : Schema} :
    ofColumns? columns = some schema ↔ schema.columns = columns := by
  obtain ⟨columns', hne⟩ := schema
  rw [ofColumns?]
  split
  · rename_i h
    exact iff_of_false (fun h => by cases h) fun he => hne (he.trans h)
  · rw [Option.some.injEq, Schema.mk.injEq, eq_comm]

theorem FieldType.ofName?_eq_some_iff {name : String} {t : FieldType} :
    ofName? name = some t ↔ name.toList.map Char.toLower = t.spelling := by
  unfold ofName?
  cases t with
  | int => grind [spelling]
  | text => grind [spelling]

namespace ColumnEntry

theorem ofWords_eq_ok_iff {field type : List Char} {marked : Bool} :
    ofWords field type marked = .ok column ↔
      column.name.toList = field ∧ type.map Char.toLower = column.type.spelling ∧
        column.marked = marked := by
  obtain ⟨name, t, m⟩ := column
  have hname : FieldType.ofName? (String.ofList type) = some t ↔
      type.map Char.toLower = t.spelling := by
    rw [FieldType.ofName?_eq_some_iff, String.toList_ofList]
  have hfield : String.ofList field = name ↔ name.toList = field :=
    ⟨fun h => h ▸ String.toList_ofList, fun h => h ▸ String.ofList_toList⟩
  rw [ofWords]
  split
  · rename_i hnone
    refine iff_of_false (fun h => by cases h) fun h => ?_
    cases hnone.symm.trans (hname.2 h.2.1)
  · rename_i t' hsome
    rw [hsome, Option.some.injEq] at hname
    rw [Except.ok.injEq, ColumnEntry.mk.injEq, hfield, hname, eq_comm (a := marked)]

/-- A part between commas is accepted exactly if it spells a column. -/
theorem parse_eq_ok_iff (hpart : ',' ∉ part) : parse part = .ok column ↔ column.Spelled part := by
  constructor
  · intro h
    rw [parse] at h
    split at h
    · rename_i field type hwords
      obtain ⟨rfl, htype, hmark⟩ := ofWords_eq_ok_iff.1 h
      refine .intro htype hpart (Text.words_eq_iff.1 ?_)
      rw [hwords, hmark, if_neg Bool.false_ne_true]
    · rename_i field type mark hwords
      split at h
      · rename_i hkey
        obtain ⟨rfl, htype, hmark⟩ := ofWords_eq_ok_iff.1 h
        refine .intro htype hpart (Text.words_eq_iff.1 ?_)
        rw [hwords, hmark, if_pos rfl, hkey]
      · cases h
    · cases h
  · rintro ⟨htype, -, hspaced⟩
    rename_i type
    rw [parse, Text.words_eq_iff.2 hspaced]
    cases hmark : column.marked with
    | false => exact ofWords_eq_ok_iff.2 ⟨rfl, htype, hmark⟩
    | true =>
      rw [if_pos rfl]
      exact (if_pos rfl).trans (ofWords_eq_ok_iff.2 ⟨rfl, htype, hmark⟩)

theorem Spelled.comma_notMem (h : column.Spelled part) : ',' ∉ part := by
  cases h with
  | intro _ hcomma _ => exact hcomma

theorem comma_notMem_of_spelled (h : List.Forall₂ Spelled columns parts) :
    ∀ part ∈ parts, ',' ∉ part := by
  induction h with
  | nil => exact fun _ hpart => absurd hpart List.not_mem_nil
  | cons hcolumn _ ih => exact List.forall_mem_cons.2 ⟨hcolumn.comma_notMem, ih⟩

/-- Parts between commas are accepted exactly if each spells a column. -/
theorem parseAll_eq_ok_iff (hparts : ∀ part ∈ parts, ',' ∉ part) :
    parseAll parts = .ok columns ↔ List.Forall₂ Spelled columns parts := by
  induction parts generalizing columns with
  | nil =>
    rw [parseAll, Except.ok.injEq, List.forall₂_nil_right_iff]
    exact eq_comm
  | cons part parts ih =>
    obtain ⟨hpart, hparts⟩ := List.forall_mem_cons.1 hparts
    rw [parseAll, List.forall₂_cons_right_iff]
    constructor
    · intro h
      split at h
      · cases h
      · rename_i column hcolumn
        split at h
        · cases h
        · rename_i rest hrest
          cases h
          exact ⟨column, rest, (parse_eq_ok_iff hpart).1 hcolumn, (ih hparts).1 hrest, rfl⟩
    · rintro ⟨column, rest, hcolumn, hrest, rfl⟩
      rw [(parse_eq_ok_iff hpart).2 hcolumn, (ih hparts).2 hrest]

end ColumnEntry

/-! ## Lines -/

namespace TableEntry

theorem keyOf_spec (columns : List ColumnEntry) : KeyOf columns (keyOf columns) := by
  cases h : (columns.filter ColumnEntry.marked).getLast? with
  | none =>
    rw [keyOf, h]
    refine .unmarked fun c hc => ?_
    rw [List.getLast?_eq_none_iff, List.filter_eq_nil_iff] at h
    exact Bool.eq_false_iff.2 (h c hc)
  | some c =>
    rw [keyOf, h]
    obtain ⟨marked, hmarked⟩ := List.getLast?_eq_some_iff.1 h
    obtain ⟨front, back, rfl, -, hback⟩ := List.filter_eq_append_iff.1 hmarked
    obtain ⟨between, after, rfl, -, hc, hafter⟩ := List.filter_eq_cons_iff.1 hback
    rw [← List.append_assoc]
    refine .last hc fun d hd => ?_
    exact Bool.eq_false_iff.2 (List.filter_eq_nil_iff.1 hafter d hd)

theorem keyOf_eq_iff {key : String} : keyOf columns = key ↔ KeyOf columns key := by
  refine ⟨fun h => h ▸ keyOf_spec columns, fun h => ?_⟩
  cases h with
  | unmarked h =>
    rw [keyOf, List.filter_eq_nil_iff.2 fun c hc => Bool.eq_false_iff.1 (h c hc)]
    rfl
  | last hmarked hafter =>
    rw [keyOf, List.filter_append, List.filter_cons_of_pos hmarked,
      List.filter_eq_nil_iff.2 fun c hc => Bool.eq_false_iff.1 (hafter c hc), List.getLast?_concat]
    rfl

/-- A line is accepted if its parts are, and the entry is made of what they are. -/
theorem parse_eq_ok_iff_parts : parse line = .ok entry ↔ ∃ before body columns,
    halves? line = some (before, body) ∧ Text.trim before = entry.name.toList ∧ entry.name ≠ "" ∧
      ColumnEntry.parseAll (splitOn ',' body) = .ok columns ∧
      entry.schema.columns = columns.map ColumnEntry.column ∧ keyOf columns = entry.key := by
  constructor
  · intro h
    rw [parse] at h
    dsimp only at h
    split at h
    · cases h
    · rename_i before body hhalves
      split_ifs at h with hname
      split at h
      · cases h
      · rename_i columns hcolumns
        split at h
        · cases h
        · rename_i schema hschema
          cases h
          refine ⟨before, body, columns, hhalves, String.toList_ofList.symm, ?_, hcolumns,
            Schema.ofColumns?_eq_some_iff.1 hschema, rfl⟩
          exact fun he => hname (String.toList_ofList.symm.trans (congrArg String.toList he))
  · rintro ⟨before, body, columns, hhalves, hname, hne, hcolumns, hschema, hkey⟩
    have hname' : Text.trim before ≠ [] := fun he =>
      hne (String.toList_eq_nil_iff.1 (hname.symm.trans he))
    simp only [parse, hhalves, hcolumns, Schema.ofColumns?_eq_some_iff.2 hschema, if_neg hname']
    rw [hname, hkey, String.ofList_toList]

/-- **The lines that describe a table.** -/
theorem parse_eq_ok_iff :
    parse line = .ok entry ↔ ∃ after, ')' ∉ after ∧ entry.Spelled after line := by
  rw [parse_eq_ok_iff_parts]
  constructor
  · rintro ⟨before, body, columns, hhalves, hname, hne, hcolumns, hschema, hkey⟩
    obtain ⟨hopen, after, hafter, rfl⟩ := halves?_eq_some_iff.1 hhalves
    obtain ⟨htrimmed, gap, gap', hgap, hgap', rfl⟩ := Text.trim_eq_iff.1 hname
    obtain ⟨-, hparts, hbody⟩ := splitOn_eq_iff.1 (rfl : splitOn ',' body = _)
    refine ⟨after, hafter, ?_⟩
    rw [← hbody]
    refine .intro hgap hgap' hne htrimmed (fun hmem => hopen ?_)
      ((ColumnEntry.parseAll_eq_ok_iff hparts).1 hcolumns) hschema (keyOf_eq_iff.1 hkey)
    exact List.mem_append_right _ (List.mem_append_left _ hmem)
  · rintro ⟨after, hafter, @⟨gap, gap', columns, parts, hgap, hgap', hne, htrimmed, hopen, hspelled,
      hschema, hkey⟩⟩
    have hparts := ColumnEntry.comma_notMem_of_spelled hspelled
    have hne' : parts ≠ [] := by
      rintro rfl
      rw [List.forall₂_nil_right_iff] at hspelled
      exact entry.schema.nonempty (hschema.trans (hspelled ▸ rfl))
    refine ⟨gap ++ (entry.name.toList ++ gap'), List.intercalate [','] parts, columns,
      halves?_eq_some_iff.2 ⟨?_, after, hafter, rfl⟩,
      Text.trim_eq_iff.2 ⟨htrimmed, gap, gap', hgap, hgap', rfl⟩, hne, ?_, hschema,
      keyOf_eq_iff.2 hkey⟩
    · rw [List.mem_append, List.mem_append, not_or, not_or]
      exact ⟨hgap.notMem (by decide), hopen, hgap'.notMem (by decide)⟩
    · rw [splitOn_intercalate hne' hparts]
      exact (ColumnEntry.parseAll_eq_ok_iff hparts).2 hspelled

theorem Spelled.after_closing {after : List Char} (h : entry.Spelled after line) :
    ∃ front, line = front ++ ')' :: after := by
  cases h with
  | @intro gap gap' columns parts =>
    exact ⟨gap ++ (entry.name.toList ++ gap') ++ '(' :: List.intercalate [','] parts, by simp⟩

/-- A line that ends with a closing parenthesis describes a table exactly if nothing else is to be
spelled after it. -/
theorem parse_closed (front : List Char) :
    parse (front ++ [')']) = .ok entry ↔ entry.Spelled [] (front ++ [')']) := by
  rw [parse_eq_ok_iff]
  refine ⟨?_, fun h => ⟨[], List.not_mem_nil, h⟩⟩
  rintro ⟨after, hafter, hspelled⟩
  obtain ⟨front', hline⟩ := hspelled.after_closing
  suffices after = [] from this ▸ hspelled
  by_contra hne
  have hlast := congrArg List.getLast? hline
  rw [List.getLast?_concat, List.getLast?_append_of_ne_nil _ (List.cons_ne_nil _ _),
    List.getLast?_cons_of_ne_nil hne] at hlast
  exact hafter (List.mem_of_getLast? hlast.symm)

/-- **A line describes a table exactly if it is spelled by the grammar, with any text after its last
closing parenthesis.**  The table has the name, the columns in their order and the key that the line
spells.  Every other line is refused as malformed, and so it is when it is loaded. -/
theorem parse_grammar (line : List Char) :
    (∀ entry, parse line = .ok entry ↔ ∃ after, ')' ∉ after ∧ entry.Spelled after line) ∧
      ((¬ ∃ entry after, ')' ∉ after ∧ Spelled entry after line) ↔
        ∃ fault, parse line = .error fault ∧ ∀ (c : Catalog) (d : Disk) (directory : Path),
          c.loadLine d directory line = .error (.malformedLine fault (String.ofList line))) := by
  refine ⟨fun _ => parse_eq_ok_iff, fun h => ?_, ?_⟩
  · cases hparse : parse line with
    | error fault => exact ⟨fault, rfl, fun c d directory => by rw [Catalog.loadLine, hparse]⟩
    | ok entry => exact absurd ⟨entry, parse_eq_ok_iff.1 hparse⟩ h
  · rintro ⟨fault, hfault, -⟩ ⟨entry, hentry⟩
    cases hfault.symm.trans (parse_eq_ok_iff.2 hentry)

/-- A line with words after its closing parenthesis describes a table all the same. -/
theorem parse_grammar_trailing :
    ∃ entry, parse "t (a int) junk".toList = .ok entry ∧
      ¬ ∃ after, Text.Blank after ∧ entry.Spelled after "t (a int) junk".toList := by
  refine ⟨⟨"t", ⟨[⟨.int, some "a"⟩], by decide⟩, ""⟩, by decide +kernel, ?_⟩
  rintro ⟨after, hblank, hspelled⟩
  obtain ⟨front, hline⟩ := hspelled.after_closing
  have hlast := congrArg List.getLast? hline
  rw [List.getLast?_append_of_ne_nil _ (List.cons_ne_nil _ _)] at hlast
  have hmem : 'k' ∈ ')' :: after := List.mem_of_getLast? (hlast.symm.trans (by decide))
  obtain hk | hk := List.mem_cons.1 hmem
  · exact absurd hk (by decide)
  · exact absurd (hblank 'k' hk) (by decide)

end TableEntry
end TableStore
