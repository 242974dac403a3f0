import TableStore.Proofs.Page.Clipped
import TableStore.Proofs.Page.Formed

/-!
# Writing a page and reading it back

Pages are made in two ways only, without rows or from bytes, and changed in four.  Whatever has been
done to a page, its bytes fill a page of the file exactly and the page can be read back from them.

## What is here

* `Page.Edit`, `Page.Edit.apply` — what a caller can do to a page in memory.
* `Page.Worked` — the pages that come about.  All of them are well-formed.
* `Page.ReadBack`, `Page.worked_read_back` — what a page is once it has been read back from its
  bytes, and that this is how each page is read back.
-/

set_option autoImplicit false
namespace TableStore
namespace Page

variable {size : PageSize} {id : PageId} {schema : Schema} {p q : Page}

/-! ## The pages that come about

A page is made without rows or from bytes, and then rows are put in and taken away.  There is no
other way to come by one, so what all edits keep holds of every page. -/

/-- What a caller can do to a page in memory. -/
inductive Edit where
  | insert (row : Row)
  | remove (row : Row)
  | mark (dirtier : Option TxnId)
  | snapshot

/-- The page after an edit.  One that is refused leaves the page as it is. -/
def Edit.apply (p : Page) : Edit → Page
  | insert row =>
    match p.insert row with
    | .ok (q, _) => q
    | .error _ => p
  | remove row =>
    match p.remove row with
    | .ok (q, _) => q
    | .error _ => p
  | mark dirtier => { p with dirtier }
  | snapshot => p.snapshot

/-- An edit keeps a page well-formed. -/
theorem Formed.edit (h : p.Formed size schema) (e : Edit) : (e.apply p).Formed size schema := by
  cases e with
  | insert row =>
    simp only [Edit.apply]
    split
    · rename_i hi
      exact (h.insert hi).1
    · exact h
  | remove row =>
    simp only [Edit.apply]
    split
    · rename_i hr
      exact (h.remove hr).1
    · exact h
  | mark dirtier => exact h.marked dirtier p.beforeImage
  | snapshot => exact h.marked p.dirtier p.encode

/-- No edit gives a page another id. -/
theorem id_edit (p : Page) (e : Edit) : (e.apply p).id = p.id := by
  cases e with
  | insert row =>
    simp only [Edit.apply]
    split
    · rename_i hi
      exact insert_id hi
    · rfl
  | remove row =>
    simp only [Edit.apply]
    split
    · rename_i hr
      exact remove_id hr
    · rfl
  | mark dirtier => rfl
  | snapshot => rfl

/-- A page made without rows or from bytes, and edited since. -/
inductive Worked (size : PageSize) (id : PageId) (schema : Schema) : Page → Prop
  | empty : Worked size id schema (Page.empty size id schema)
  | decoded {data : Bytes} {p : Page} (h : decode size id schema data = .ok p) :
      Worked size id schema p
  | edited {p : Page} (h : Worked size id schema p) (e : Edit) : Worked size id schema (e.apply p)

theorem Worked.formed (h : Worked size id schema p) : p.Formed size schema ∧ p.id = id := by
  induction h with
  | empty => exact ⟨(formed_empty size id schema).1, rfl⟩
  | decoded h => exact ⟨(formed_of_decode h).1, (of_decode h).1⟩
  | edited _ e ih => exact ⟨ih.1.edit e, (id_edit _ e).trans ih.2⟩

/-! ## Reading a page back -/

/-- `q` is what is read back of `p`: a clean page with the same slots in use, where each row stands
in its place and is what is left of the row that stood there. -/
structure ReadBack (p q : Page) : Prop where
  id_eq : q.id = p.id
  schema_eq : q.schema = p.schema
  capacity_eq : q.capacity = p.capacity
  clean : q.isDirty = false
  before : q.beforeImage = p.encode
  used : ∀ i, q.isUsed i = p.isUsed i
  row : ∀ i, p.isUsed i = true → ∃ r s, p.row? i = some r ∧ q.row? i = some s ∧
    r.rid = some ⟨p.id, i⟩ ∧ r.Clipped s
  vacant : ∀ i, p.isUsed i = false → p.row? i = none ∧ q.row? i = none

theorem Formed.isUsed_eq (h : p.Formed size schema) (i : Nat) : p.isUsed i = (p.row? i).isSome := by
  rw [isUsed, h.used]
  by_cases hi : i < p.slots.length
  · simp [capacity, hi]
  · simp [capacity, hi, row?_of_length_le (Nat.not_lt.1 hi)]

/-- A well-formed page is read back from its bytes. -/
theorem Formed.read_back (h : p.Formed size schema) :
    ∃ q, decode size p.id schema p.encode = .ok q ∧ p.ReadBack q := by
  obtain ⟨q, hq, hrows⟩ := h.decode_encode
  have hf := (formed_of_decode hq).1
  have heq := h.decode_encode_eq.symm.trans hq
  refine ⟨q, hq, ?_⟩
  have hused : ∀ i, q.isUsed i = p.isUsed i := fun i => by
    rw [hf.isUsed_eq, h.isUsed_eq, hrows, Option.isSome_map]
  have hvacant : ∀ i, p.isUsed i = false → p.row? i = none := fun i hi => by
    rwa [h.isUsed_eq, Option.isSome_eq_false_iff, Option.isNone_iff_eq_none] at hi
  cases heq
  exact
    { id_eq := rfl
      schema_eq := h.schema_eq.symm
      capacity_eq := List.length_map _
      clean := rfl
      before := rfl
      used := hused
      row := fun i hi => by
        rw [h.isUsed_eq, Option.isSome_iff_exists] at hi
        obtain ⟨r, hr⟩ := hi
        exact ⟨r, r.stored, hr, by rw [hrows, hr]; rfl, h.placed i r hr, r.clipped_stored⟩
      vacant := fun i hi => ⟨hvacant i hi, by rw [hrows, hvacant i hi]; rfl⟩ }

/-- **Every page can be written and read back.**  However a page came about, its bytes fill a page
of the file exactly, and reading them gives a clean page with the same slots in use, the rows in
their places and in each row the same values, but for texts that are too long: these are cut to the
longest start of whole characters that fits. -/
theorem worked_read_back (h : Worked size id schema p) :
    p.encode.length = size.bytes ∧
      ∃ q, decode size id schema p.encode = .ok q ∧ p.ReadBack q := by
  obtain ⟨hf, rfl⟩ := h.formed
  exact ⟨(length_encode p).trans hf.size_eq, hf.read_back⟩

/-- A page with room for one text, into which one of 129 characters has been put. -/
def overlong : Page :=
  (Edit.insert { values := [.text (String.ofList (List.replicate 129 'x'))] }).apply
    (empty ⟨200, by decide⟩ ⟨⟨0⟩, 0⟩ ⟨[⟨.text, some "note"⟩], by decide⟩)

/-- The text is cut when the page is read back. -/
theorem worked_read_back_overlong :
    overlong.isUsed 0 = true ∧ overlong.encode.length = 200 ∧
      ∃ q, decode ⟨200, by decide⟩ ⟨⟨0⟩, 0⟩ ⟨[⟨.text, some "note"⟩], by decide⟩ overlong.encode =
        .ok q ∧ overlong.ReadBack q :=
  ⟨by decide +kernel, worked_read_back (.edited .empty _)⟩

end Page
end TableStore
