import TableStore.Proofs.Page.Formed
import TableStore.TableFile

/-!
# Pages in files

Writing one page of a file leaves all other pages as they are, and so does adding a page at the end,
even if bytes of an unfinished page lie there.

A page is added at the end as long as the file has room, that is, as long as one more page can be
counted.  The count of a file without room never gets any further.

## What is here

* `Bytes.slice_overwrite_of_disjoint` — bytes away from a patch.
* `TableFile.HasRoom` — one more page can be counted; `TableFile.pageCount_eq` — then the count is
  the number of whole pages.
* `TableFile.pageCount_writeAt`, `TableFile.readPage_writeAt` — a file after a page has been written
  in its place or at its end.
* `TableFile.growPast_induction` — what holds of a file that pages are added to where it has room
  holds when the count has got past a number; `TableFile.full_of_growPast` and
  `TableFile.appendPage_growPast` — otherwise the file is full, and stays as it is.
-/

set_option autoImplicit false
namespace TableStore

/-! ## Bytes -/

namespace Bytes

theorem getElem?_slice (b : Bytes) (start n i : Nat) :
    (b.slice start n)[i]? = if i < n then b[start + i]? else none := by
  rw [slice, List.getElem?_take, List.getElem?_drop]

theorem getElem?_overwrite {b : Bytes} {start : Nat} (h : start ≤ b.length) (patch : Bytes)
    (i : Nat) :
    (b.overwrite start patch)[i]? =
      if i < start then b[i]? else if i < start + patch.length then patch[i - start]? else b[i]? := by
  have hz : zeros (start - b.length) = [] := by
    rw [Nat.sub_eq_zero_of_le h]
    rfl
  have htake : (b.take start).length = start := List.length_take_of_le h
  rw [overwrite, resize, hz, List.append_nil, List.append_assoc]
  by_cases h₁ : i < start
  · rw [if_pos h₁, List.getElem?_append_left (by omega), List.getElem?_take, if_pos h₁]
  · rw [if_neg h₁, List.getElem?_append_right (by omega), htake]
    by_cases h₂ : i < start + patch.length
    · rw [if_pos h₂, List.getElem?_append_left (by omega)]
    · rw [if_neg h₂, List.getElem?_append_right (by omega), List.getElem?_drop]
      congr 1
      omega

/-- Bytes away from a patch are not changed by it. -/
theorem slice_overwrite_of_disjoint {b : Bytes} {start k n : Nat} (h : start ≤ b.length)
    (patch : Bytes) (hd : k + n ≤ start ∨ start + patch.length ≤ k) :
    (b.overwrite start patch).slice k n = b.slice k n := by
  refine List.ext_getElem? fun i => ?_
  rw [getElem?_slice, getElem?_slice]
  by_cases hi : i < n
  · rw [if_pos hi, if_pos hi, getElem?_overwrite h]
    rcases hd with hd | hd
    · rw [if_pos (by omega)]
    · rw [if_neg (by omega), if_neg (by omega)]
  · rw [if_neg hi, if_neg hi]

/-- A patch that is applied twice. -/
theorem overwrite_overwrite {b : Bytes} {start : Nat} (h : start ≤ b.length) (patch : Bytes) :
    (b.overwrite start patch).overwrite start patch = b.overwrite start patch := by
  have h' : start ≤ (b.overwrite start patch).length := by
    rw [length_overwrite]
    omega
  refine List.ext_getElem? fun i => ?_
  rw [getElem?_overwrite h', getElem?_overwrite h]
  split
  · rfl
  · split <;> rfl

end Bytes

/-! ## Counting pages

Pages are counted with 32 bits.  Below the limit the count is the number of whole pages, and what
needs this takes the limit as a hypothesis. -/

namespace TableFile

variable {f g : TableFile} {d d' : Disk} {size : PageSize} {n : Nat}

/-- There is room for one more page that can be counted. -/
def HasRoom (f : TableFile) (d : Disk) (size : PageSize) : Prop :=
  f.wholePages d size + 1 < pageLimit

instance (f : TableFile) (d : Disk) (size : PageSize) : Decidable (f.HasRoom d size) :=
  inferInstanceAs (Decidable (f.wholePages d size + 1 < pageLimit))

/-- The pages are counted as long as there are no more than can be counted. -/
theorem pageCount_eq (h : f.wholePages d size < pageLimit) :
    f.pageCount d size = f.wholePages d size := Nat.mod_eq_of_lt h

theorem HasRoom.pageCount_eq (h : f.HasRoom d size) : f.pageCount d size = f.wholePages d size :=
  TableFile.pageCount_eq (Nat.lt_of_succ_lt h)

/-- All pages that are counted are there. -/
theorem pageCount_le_wholePages (f : TableFile) (d : Disk) (size : PageSize) :
    f.pageCount d size ≤ f.wholePages d size := Nat.mod_le _ _

theorem pageCount_lt (f : TableFile) (d : Disk) (size : PageSize) :
    f.pageCount d size < pageLimit := Nat.mod_lt _ (by decide)

theorem wholePages_congr (h : d'.content g.path = d.content g.path) :
    g.wholePages d' size = g.wholePages d size := by
  rw [wholePages, wholePages, h]

theorem pageCount_congr (h : d'.content g.path = d.content g.path) :
    g.pageCount d' size = g.pageCount d size := by
  rw [pageCount, pageCount, wholePages_congr h]

theorem hasPage_iff {p : PageId} :
    f.hasPage d size p = true ↔ p.table = f.id ∧ p.number < f.pageCount d size := by
  rw [hasPage, Bool.and_eq_true, decide_eq_true_eq, decide_eq_true_eq]

/-! ## Pages

A page is written to the place of one that is counted, or to the place after the last of them if the
file has room. -/

/-- A page may be written to the place `n`. -/
def Takes (f : TableFile) (d : Disk) (size : PageSize) (n : Nat) : Prop :=
  n < f.pageCount d size ∨ n = f.pageCount d size ∧ f.HasRoom d size

theorem Takes.le_pageCount (h : f.Takes d size n) : n ≤ f.pageCount d size := by
  rcases h with hlt | ⟨rfl, -⟩ <;> omega

theorem Takes.le (h : f.Takes d size n) : n ≤ f.wholePages d size :=
  Nat.le_trans h.le_pageCount (f.pageCount_le_wholePages d size)

theorem wholePages_of_path (h : g.path = f.path) : g.wholePages d size = f.wholePages d size := by
  rw [wholePages, wholePages, h]

theorem pageCount_of_path (h : g.path = f.path) : g.pageCount d size = f.pageCount d size := by
  rw [pageCount, pageCount, wholePages_of_path h]

theorem Takes.of_path (h : f.Takes d size n) (hp : g.path = f.path) : g.Takes d size n := by
  rw [Takes, HasRoom, pageCount_of_path hp, wholePages_of_path hp]
  exact h

theorem Takes.start_le (h : f.Takes d size n) : n * size.bytes ≤ (d.content f.path).length :=
  (Nat.le_div_iff_mul_le size.pos).1 h.le

/-- Pages of a file that is not written to stay as they are. -/
theorem content_writeAt_of_ne (h : g.path ≠ f.path) (start : Nat) (bytes : Bytes) :
    (d.writeAt f.path start bytes).content g.path = d.content g.path := by
  rw [Disk.content_writeAt, if_neg h]

theorem readPage_congr (h : d'.content g.path = d.content g.path) (p : PageId) :
    g.readPage d' size p = g.readPage d size p := by
  rw [readPage, readPage, hasPage, hasPage, pageCount_congr h, h]

/-- A file has at least the page that has been written. -/
theorem wholePages_writeAt {bytes : Bytes} (hb : bytes.length = size.bytes) :
    f.wholePages (d.writeAt f.path (n * size.bytes) bytes) size =
      max (f.wholePages d size) (n + 1) := by
  rw [wholePages, Disk.content_writeAt, if_pos rfl, Bytes.length_overwrite, hb, ← Nat.succ_mul]
  rw [wholePages]
  rcases Nat.le_total ((d.content f.path).length) (n.succ * size.bytes) with hle | hle
  · rw [Nat.max_eq_right hle, Nat.mul_div_cancel _ size.pos]
    exact (Nat.max_eq_right (Nat.div_le_of_le_mul (Nat.mul_comm _ _ ▸ hle))).symm
  · rw [Nat.max_eq_left hle]
    exact (Nat.max_eq_left ((Nat.le_div_iff_mul_le size.pos).2 hle)).symm

/-- It is counted, and so are the pages that have been counted before. -/
theorem pageCount_writeAt {bytes : Bytes} (hb : bytes.length = size.bytes)
    (hn : f.Takes d size n) :
    f.pageCount (d.writeAt f.path (n * size.bytes) bytes) size =
      max (f.pageCount d size) (n + 1) := by
  rw [pageCount, wholePages_writeAt hb]
  rcases hn with hlt | ⟨rfl, hroom⟩
  · have := f.pageCount_le_wholePages d size
    rw [Nat.max_eq_left (by omega), Nat.max_eq_left hlt]
    rfl
  · rw [hroom.pageCount_eq, Nat.max_eq_right (Nat.le_succ _), Nat.mod_eq_of_lt hroom]

/-- A file stays as long as it is when a page is written to the place of one that is there. -/
theorem length_writeAt {bytes : Bytes} (hb : bytes.length = size.bytes)
    (hn : n < f.wholePages d size) (q : Path) :
    ((d.writeAt f.path (n * size.bytes) bytes).content q).length = (d.content q).length := by
  rw [Disk.content_writeAt]
  split
  · rename_i hq
    rw [hq, Bytes.length_overwrite, hb, ← Nat.succ_mul]
    exact Nat.max_eq_left ((Nat.le_div_iff_mul_le size.pos).1 hn)
  · rfl

/-- The page that has been written is read back, and all others are as they were. -/
theorem readPage_writeAt {bytes : Bytes} (hb : bytes.length = size.bytes)
    (hn : f.Takes d size n) (p : PageId) :
    f.readPage (d.writeAt f.path (n * size.bytes) bytes) size p =
      if p = f.page n then Page.decode size p f.schema bytes else f.readPage d size p := by
  have hcount := pageCount_writeAt hb hn
  have hcontent : (d.writeAt f.path (n * size.bytes) bytes).content f.path =
      (d.content f.path).overwrite (n * size.bytes) bytes := by
    rw [Disk.content_writeAt, if_pos rfl]
  rw [readPage, readPage, hcontent]
  by_cases hp : p = f.page n
  · subst hp
    have hhas : f.hasPage (d.writeAt f.path (n * size.bytes) bytes) size (f.page n) = true :=
      hasPage_iff.2 ⟨rfl, hcount ▸ Nat.lt_of_lt_of_le (Nat.lt_succ_self n) (Nat.le_max_right _ _)⟩
    have hslice := Bytes.slice_overwrite (d.content f.path) (n * size.bytes) bytes
    rw [hb] at hslice
    rw [if_pos hhas, if_pos rfl]
    exact congrArg _ hslice
  · have hhas : f.hasPage (d.writeAt f.path (n * size.bytes) bytes) size p =
        f.hasPage d size p := by
      rw [Bool.eq_iff_iff, hasPage_iff, hasPage_iff, hcount]
      refine and_congr_right fun ht => ?_
      have hne : p.number ≠ n := fun he => hp (by rw [page, ← he, ← ht])
      have := hn.le_pageCount
      omega
    rw [if_neg hp, hhas]
    by_cases hh : f.hasPage d size p = true
    · have hne : p.number ≠ n := fun he => hp (by rw [page, ← he, ← (hasPage_iff.1 hh).1])
      rw [if_pos hh, if_pos hh, Bytes.slice_overwrite_of_disjoint hn.start_le]
      -- two pages with different numbers do not overlap
      rcases Nat.lt_or_gt_of_ne hne with hlt | hgt
      · left
        rw [← Nat.succ_mul]
        exact Nat.mul_le_mul_right _ hlt
      · right
        rw [hb, ← Nat.succ_mul]
        exact Nat.mul_le_mul_right _ hgt
    · rw [if_neg hh, if_neg hh]

/-! ## Growing

Where a file has room the count gets one further with each page.  Where it has none, the count comes
round to zero or stays where it is, whatever is added. -/

theorem HasRoom.takes (h : f.HasRoom d size) : f.Takes d size (f.pageCount d size) :=
  Or.inr ⟨rfl, h⟩

theorem wholePages_appendPage (f : TableFile) (d : Disk) (size : PageSize) :
    f.wholePages (f.appendPage d size).2 size =
      max (f.wholePages d size) (f.pageCount d size + 1) :=
  wholePages_writeAt (by rw [Page.zeroed, Bytes.length_zeros])

theorem pageCount_appendPage (h : f.HasRoom d size) :
    f.pageCount (f.appendPage d size).2 size = f.pageCount d size + 1 := by
  rw [appendPage, pageCount_writeAt (by rw [Page.zeroed, Bytes.length_zeros]) h.takes]
  exact Nat.max_eq_right (Nat.le_succ _)

/-- No page of any file is lost. -/
theorem pageCount_le_appendPage (h : f.HasRoom d size) (g : TableFile) :
    g.pageCount d size ≤ g.pageCount (f.appendPage d size).2 size := by
  by_cases hp : g.path = f.path
  · rw [pageCount_of_path hp, pageCount_of_path hp, pageCount_appendPage h]
    exact Nat.le_succ _
  · exact Nat.le_of_eq (pageCount_congr (content_writeAt_of_ne hp _ _)).symm

theorem wholePages_le_appendPage (f : TableFile) (d : Disk) (size : PageSize) :
    f.wholePages d size ≤ f.wholePages (f.appendPage d size).2 size := by
  rw [wholePages_appendPage]
  exact Nat.le_max_left _ _

/-- A file without room is full after one more page at the latest. -/
theorem full_of_not_hasRoom (h : ¬ f.HasRoom d size) :
    pageLimit ≤ f.wholePages (f.appendPage d size).2 size := by
  rw [wholePages_appendPage]
  rcases Nat.lt_or_ge (f.wholePages d size) pageLimit with hlt | hge
  · rw [pageCount_eq hlt]
    exact Nat.le_trans (Nat.not_lt.1 h) (Nat.le_max_right _ _)
  · exact Nat.le_trans hge (Nat.le_max_left _ _)

/-- The pages of a full file are there already. -/
theorem pageCount_lt_of_full (h : pageLimit ≤ f.wholePages d size) :
    f.pageCount d size < f.wholePages d size :=
  Nat.lt_of_lt_of_le (f.pageCount_lt d size) h

/-- What is added to a full file lands on pages that are there. -/
theorem wholePages_appendPage_of_full (h : pageLimit ≤ f.wholePages d size) :
    f.wholePages (f.appendPage d size).2 size = f.wholePages d size := by
  rw [wholePages_appendPage, Nat.max_eq_left (pageCount_lt_of_full h)]

theorem pageCount_appendPage_of_full (h : pageLimit ≤ f.wholePages d size) :
    f.pageCount (f.appendPage d size).2 size = f.pageCount d size := by
  rw [pageCount, wholePages_appendPage_of_full h, pageCount]

theorem pageCount_growUpTo_of_full (h : pageLimit ≤ f.wholePages d size) (n k : Nat) :
    f.pageCount (f.growUpTo size n k d) size = f.pageCount d size := by
  induction k generalizing d with
  | zero => rfl
  | succ k ih =>
    have hcount := pageCount_appendPage_of_full h
    rw [growUpTo]
    split
    · exact hcount
    · exact (ih (wholePages_appendPage_of_full h ▸ h)).trans hcount

/-- A file whose count gets past `n` has had room, if it was no longer than when the pages up to `n`
were counted. -/
theorem hasRoom_of_growUpTo {k : Nat}
    (hn : pageLimit ≤ f.wholePages d size → f.pageCount d size ≤ n)
    (hend : n < f.pageCount (f.growUpTo size n (k + 1) d) size) : f.HasRoom d size := by
  refine Nat.lt_of_not_le fun hle => ?_
  have hfull := full_of_not_hasRoom (Nat.not_lt.2 hle)
  have hcount : n < f.pageCount (f.appendPage d size).2 size := by
    rw [growUpTo] at hend
    split at hend
    · assumption
    · rwa [pageCount_growUpTo_of_full hfull] at hend
  rcases Nat.lt_or_ge (f.wholePages d size) pageLimit with hlt | hge
  · -- the last page that can be added makes the count zero
    have hwhole := wholePages_appendPage f d size
    rw [pageCount_eq hlt, Nat.max_eq_right (Nat.le_succ _)] at hwhole
    rw [pageCount, hwhole, Nat.le_antisymm hlt hle, Nat.mod_self] at hcount
    exact Nat.not_lt_zero _ hcount
  · rw [pageCount_appendPage_of_full hge] at hcount
    exact Nat.not_lt.2 (hn hge) hcount

/-- What is kept up whenever a page is added holds in the end. -/
theorem growUpTo_induction {P : Disk → Prop} (hs : ∀ d, P d → P (f.appendPage d size).2) {k : Nat}
    (h : P d) : P (f.growUpTo size n k d) := by
  induction k generalizing d with
  | zero => exact h
  | succ k ih =>
    rw [growUpTo]
    split
    · exact hs d h
    · exact ih (hs d h)

/-- The same for what is only kept up where the file has room. -/
theorem growUpTo_induction_of_lt {P : Disk → Prop}
    (hs : ∀ d, f.HasRoom d size → P d → P (f.appendPage d size).2) {k : Nat}
    (hn : pageLimit ≤ f.wholePages d size → f.pageCount d size ≤ n)
    (hend : n < f.pageCount (f.growUpTo size n k d) size) (h : P d) :
    P (f.growUpTo size n k d) := by
  induction k generalizing d with
  | zero => exact h
  | succ k ih =>
    have hstep := hs d (hasRoom_of_growUpTo hn hend) h
    rw [growUpTo] at hend ⊢
    split
    · exact hstep
    · rename_i hnot
      rw [if_neg hnot] at hend
      exact ih (fun _ => Nat.not_lt.1 hnot) hend hstep

/-- A count that is not past `n` after `k` pages has got `k` further, or the file is full. -/
theorem pageCount_growUpTo {k : Nat} (hend : f.pageCount (f.growUpTo size n k d) size ≤ n) :
    f.pageCount (f.growUpTo size n k d) size = f.pageCount d size + k ∨
      pageLimit ≤ f.wholePages (f.growUpTo size n k d) size := by
  induction k generalizing d with
  | zero => exact Or.inl rfl
  | succ k ih =>
    rw [growUpTo] at hend ⊢
    split at hend
    · rename_i hlt
      exact absurd hlt (Nat.not_lt.2 hend)
    · rename_i hnot
      rw [if_neg hnot]
      by_cases hroom : f.HasRoom d size
      · refine (ih hend).imp_left fun he => ?_
        rw [he, pageCount_appendPage hroom]
        omega
      · exact Or.inr (growUpTo_induction (P := fun d => pageLimit ≤ f.wholePages d size)
          (fun d hd => Nat.le_trans hd (f.wholePages_le_appendPage d size))
          (full_of_not_hasRoom hroom))

/-- As long as the count is not past `n`, one more page is one more page. -/
theorem growUpTo_succ {k : Nat} (hend : f.pageCount (f.growUpTo size n (k + 1) d) size ≤ n) :
    f.growUpTo size n (k + 1) d = (f.appendPage (f.growUpTo size n k d) size).2 ∧
      (k ≠ 0 → f.pageCount (f.growUpTo size n k d) size ≤ n) := by
  induction k generalizing d with
  | zero =>
    refine ⟨?_, fun h => absurd rfl h⟩
    rw [growUpTo, growUpTo, growUpTo]
    exact ite_self _
  | succ k ih =>
    have hnot : ¬ n < f.pageCount (f.appendPage d size).2 size := fun hlt => by
      rw [growUpTo, if_pos hlt] at hend
      exact Nat.not_lt.2 hend hlt
    have hunfold : ∀ j, f.growUpTo size n (j + 1) d =
        f.growUpTo size n j (f.appendPage d size).2 := fun j => by rw [growUpTo, if_neg hnot]
    rw [hunfold] at hend
    rw [hunfold, hunfold]
    refine ⟨(ih hend).1, fun _ => ?_⟩
    by_cases hk : k = 0
    · subst hk
      exact Nat.not_lt.1 hnot
    · exact (ih hend).2 hk

/-! ### Getting past a number -/

/-- A file that has room for one more page after those up to `n` gets just this page. -/
theorem HasRoom.growPast (h : f.HasRoom d size) (hn : n ≤ f.pageCount d size) :
    f.growPast d size n = (f.appendPage d size).2 ∧
      n < f.pageCount (f.growPast d size n) size := by
  have hlt : n < f.pageCount (f.appendPage d size).2 size := by
    rw [pageCount_appendPage h]
    omega
  have he : f.growPast d size n = (f.appendPage d size).2 := by
    rw [TableFile.growPast, growUpTo, if_pos hlt]
  exact ⟨he, he.symm ▸ hlt⟩

/-- What is kept up whenever a page is added where the file has room holds when the count has got
past `n`. -/
theorem growPast_induction {P : Disk → Prop}
    (hs : ∀ d, f.HasRoom d size → P d → P (f.appendPage d size).2)
    (hn : pageLimit ≤ f.wholePages d size → f.pageCount d size ≤ n)
    (hend : n < f.pageCount (f.growPast d size n) size) (h : P d) : P (f.growPast d size n) :=
  growUpTo_induction_of_lt hs hn hend h

/-- If the count never gets past `n`, the file is full. -/
theorem full_of_growPast (h : f.pageCount (f.growPast d size n) size ≤ n) :
    pageLimit ≤ f.wholePages (f.growPast d size n) size := by
  have hcount := pageCount_growUpTo (k := n + 2) h
  rw [growPast] at h ⊢
  refine hcount.resolve_left fun he => ?_
  omega

/-- Then one more page makes no difference any more. -/
theorem appendPage_growPast (h : f.pageCount (f.growPast d size n) size ≤ n) :
    ((f.appendPage (f.growPast d size n) size).2).content f.path =
      (f.growPast d size n).content f.path := by
  obtain ⟨hlast, hle⟩ := growUpTo_succ (k := n + 1) h
  have hfull : pageLimit ≤ f.wholePages (f.growUpTo size n (n + 1) d) size :=
    (pageCount_growUpTo (hle (Nat.succ_ne_zero n))).resolve_left fun he => by
      have := hle (Nat.succ_ne_zero n)
      omega
  have hagain : f.growPast d size n = _ := hlast
  rw [hagain]
  generalize f.growUpTo size n (n + 1) d = m at hfull
  have hstart : f.pageCount m size * size.bytes ≤ (m.content f.path).length :=
    (Nat.le_div_iff_mul_le size.pos).1 (f.pageCount_le_wholePages m size)
  have hcontent : (f.appendPage m size).2.content f.path =
      (m.content f.path).overwrite (f.pageCount m size * size.bytes) (Page.zeroed size) :=
    (Disk.content_writeAt _ _ _ _ _).trans (if_pos rfl)
  rw [appendPage, pageCount_appendPage_of_full hfull, Disk.content_writeAt, if_pos rfl, hcontent,
    Bytes.overwrite_overwrite hstart]

end TableFile
end TableStore
