import TableStore.Proofs.Page.Canonical
import TableStore.Proofs.Page.RoundTrip
import TableStore.Proofs.Pool.Place

/-!
# A table file as an array of pages

A file is a string of bytes of any length, and its pages are stretches of it that are found by
counting.  To those who use it, it is an array of pages all the same: an element is replaced, or one
is added at the end, and no other changes, even if the file ends within a page.

## What is here

* `TableFile.WrittenTo`, `TableFile.GrownTo` — a file after a page has been written and after one
  has been added.
* `TableFile.Lacks` — the page ids that are refused.
* `TableFile.pages` — the array, and `TableFile.WrittenTo.pages`, `TableFile.GrownTo.pages` — what
  it becomes.
* `PageCall`, `PageCall.onFile`, `PageCall.onPages` — the calls, as a file and as an array answer
  them; `PageCall.step` says of one call, and `PageCall.run` of many, that both answer alike.
* `TableFile.page_array` — the whole.
-/

set_option autoImplicit false
namespace TableStore

namespace TableFile

variable {f : TableFile} {d d' : Disk} {size : PageSize} {p : PageId} {page : Page} {n : Nat}

/-! ## Pages that are not there -/

/-- Whether a page id names no page of the file. -/
def Lacks (f : TableFile) (d : Disk) (size : PageSize) (p : PageId) : Prop :=
  p.table ≠ f.id ∨ f.pageCount d size ≤ p.number

theorem lacks_iff : f.Lacks d size p ↔ ¬ f.hasPage d size p = true := by
  rw [hasPage_iff, Lacks, not_and_or, Nat.not_lt]

theorem readPage_eq_pageNotFound_iff :
    f.readPage d size p = .error (.pageNotFound p) ↔ f.Lacks d size p := by
  rw [lacks_iff, readPage]
  split
  · rename_i hhas
    refine iff_of_false (fun he => ?_) (not_not_intro hhas)
    obtain ⟨c, hc⟩ := Page.decode_error he
    cases hc
  · rename_i hhas
    exact iff_of_true rfl hhas

theorem writePage_eq_pageNotFound_iff :
    f.writePage d size page = .error (.pageNotFound page.id) ↔ f.Lacks d size page.id := by
  rw [lacks_iff, writePage]
  split
  · rename_i hhas
    exact iff_of_false (fun he => by cases he) (not_not_intro hhas)
  · rename_i hhas
    exact iff_of_true rfl hhas

/-! ## Writing a page -/

/-- The file `d'` is `d` with `page` written to its place. -/
structure WrittenTo (f : TableFile) (size : PageSize) (d : Disk) (page : Page) (d' : Disk) :
    Prop where
  count : f.pageCount d' size = f.pageCount d size
  length_eq : (d'.content f.path).length = (d.content f.path).length
  bytes : d'.pageAt size f.path page.id.number = page.encode
  others : ∀ k, k ≠ page.id.number → d'.pageAt size f.path k = d.pageAt size f.path k
  read : f.readPage d' size page.id = Page.decode size page.id f.schema page.encode
  elsewhere : ∀ q, q ≠ f.path → d'.content q = d.content q

theorem writtenTo_writePage (hs : page.size = size.bytes) (hp : ¬ f.Lacks d size page.id) :
    ∃ d', f.writePage d size page = .ok d' ∧ f.WrittenTo size d page d' := by
  rw [lacks_iff, not_not] at hp
  obtain ⟨htable, hlt⟩ := hasPage_iff.1 hp
  have hb : page.encode.length = size.bytes := (Page.length_encode page).trans hs
  have hwhole := Nat.lt_of_lt_of_le hlt (f.pageCount_le_wholePages d size)
  have htakes : f.Takes d size page.id.number := Or.inl hlt
  have hat := Disk.pageAt_writeAt hb htakes.start_le f.path
  have hid : page.id = f.page page.id.number := by rw [TableFile.page, ← htable]
  refine ⟨_, by rw [writePage, if_pos hp], ?_⟩
  exact
    { count := by rw [pageCount_writeAt hb htakes, Nat.max_eq_left hlt]
      length_eq := length_writeAt hb hwhole f.path
      bytes := by rw [hat, if_pos ⟨rfl, rfl⟩]
      others := fun k hk => by rw [hat, if_neg fun h => hk h.2]
      read := by rw [readPage_writeAt hb htakes, if_pos hid]
      elsewhere := fun q hq => by rw [Disk.content_writeAt, if_neg hq] }

/-! ## Adding a page -/

/-- The file `d'` is `d` with a page without rows after the last whole one, whose id is `p`. -/
structure GrownTo (f : TableFile) (size : PageSize) (d : Disk) (p : PageId) (d' : Disk) :
    Prop where
  id_eq : p = f.page (f.pageCount d size)
  count : f.pageCount d' size = f.pageCount d size + 1
  length_eq : (d'.content f.path).length = (f.pageCount d size + 1) * size.bytes
  bytes : d'.pageAt size f.path p.number = Page.zeroed size
  others : ∀ k, k < f.pageCount d size → d'.pageAt size f.path k = d.pageAt size f.path k
  read : f.readPage d' size p = .ok (Page.empty size p f.schema)
  elsewhere : ∀ q, q ≠ f.path → d'.content q = d.content q

theorem grownTo_appendPage (h : f.HasRoom d size) :
    f.GrownTo size d (f.appendPage d size).1 (f.appendPage d size).2 := by
  have hb : (Page.zeroed size).length = size.bytes := Bytes.length_zeros _
  have hat := Disk.pageAt_writeAt hb h.takes.start_le f.path
  exact
    { id_eq := rfl
      count := pageCount_appendPage h
      length_eq := by
        rw [Disk.content_appendPage h, List.length_append,
          List.length_take_of_le (Nat.div_mul_le_self _ _), Bytes.length_zeros, Nat.succ_mul,
          h.pageCount_eq, wholePages]
      bytes := (hat _).trans (if_pos ⟨rfl, rfl⟩)
      others := fun k hk => (hat k).trans (if_neg fun h => Nat.ne_of_lt hk h.2)
      read := by
        refine (readPage_writeAt hb h.takes _).trans ((if_pos rfl).trans ?_)
        exact Page.decode_zeroed_eq size _ f.schema
      elsewhere := fun q hq => Disk.content_appendPage_of_ne hq }

/-! ## The array

The array is read off the bytes, so that it is there at all times.  Bytes behind the last whole page
are in no element. -/

/-- The bytes of the whole pages of a file, one page after the other. -/
def pages (f : TableFile) (d : Disk) (size : PageSize) : List Bytes :=
  (List.range (f.pageCount d size)).map (d.pageAt size f.path)

theorem length_pages (f : TableFile) (d : Disk) (size : PageSize) :
    (f.pages d size).length = f.pageCount d size := by
  rw [pages, List.length_map, List.length_range]

theorem getElem_pages {k : Nat} (hk : k < (f.pages d size).length) :
    (f.pages d size)[k] = d.pageAt size f.path k := by
  simp only [pages, List.getElem_map, List.getElem_range]

/-- Exactly the pages of the file are found in the array. -/
theorem get?_pages (p : PageId) :
    (if p.table = f.id then (f.pages d size)[p.number]? else none) =
      if f.hasPage d size p then some (d.pageAt size f.path p.number) else none := by
  by_cases htable : p.table = f.id
  · rw [if_pos htable]
    by_cases hlt : p.number < f.pageCount d size
    · have hlt' : p.number < (f.pages d size).length := by rwa [length_pages]
      rw [if_pos (hasPage_iff.2 ⟨htable, hlt⟩), List.getElem?_eq_getElem hlt', getElem_pages]
    · rw [if_neg fun h => hlt (hasPage_iff.1 h).2,
        List.getElem?_eq_none (by rw [length_pages]; exact Nat.not_lt.1 hlt)]
  · rw [if_neg htable, if_neg fun h => htable (hasPage_iff.1 h).1]

/-- A written page replaces an element. -/
theorem WrittenTo.pages (h : f.WrittenTo size d page d') :
    f.pages d' size = (f.pages d size).set page.id.number page.encode := by
  refine List.ext_getElem (by rw [List.length_set, length_pages, length_pages, h.count])
    fun k hk _ => ?_
  rw [getElem_pages, List.getElem_set]
  by_cases hn : page.id.number = k
  · rw [if_pos hn, ← hn, h.bytes]
  · rw [if_neg hn, getElem_pages, h.others k (Ne.symm hn)]

/-- An added page is a new last element. -/
theorem GrownTo.pages (h : f.GrownTo size d p d') :
    f.pages d' size = f.pages d size ++ [Page.zeroed size] := by
  have hnumber : p.number = f.pageCount d size := by rw [h.id_eq, TableFile.page]
  refine List.ext_getElem
    (by rw [List.length_append, length_pages, length_pages, h.count, List.length_singleton])
    fun k hk _ => ?_
  rw [length_pages, h.count] at hk
  rw [getElem_pages, List.getElem_append]
  split
  · rename_i hlt
    rw [getElem_pages, h.others k (by rwa [length_pages] at hlt)]
  · rename_i hge
    rw [length_pages] at hge
    obtain rfl : k = p.number := by omega
    rw [h.bytes, List.getElem_singleton]

end TableFile

/-! ## Calls

The same calls are put to a file and to an array.  An added page needs a number that can be counted,
so a sequence of calls may not add more than there are numbers left. -/

/-- What is asked of a table file. -/
inductive PageCall where
  | count
  | read (p : PageId)
  | write (page : Page)
  | append

/-- What a table file answers. -/
inductive PageAnswer where
  | count (n : Nat)
  | page (page : Page)
  | done
  | added (p : PageId)
  | refused (e : Error)

namespace PageCall

variable {f : TableFile} {d : Disk} {size : PageSize}

/-- What a file answers, and what becomes of it. -/
def onFile (f : TableFile) (size : PageSize) (d : Disk) : PageCall → PageAnswer × Disk
  | count => (.count (f.pageCount d size), d)
  | read p =>
    match f.readPage d size p with
    | .error e => (.refused e, d)
    | .ok page => (.page page, d)
  | write page =>
    match f.writePage d size page with
    | .error e => (.refused e, d)
    | .ok d => (.done, d)
  | append => (.added (f.appendPage d size).1, (f.appendPage d size).2)

/-- What an array of pages answers, and what becomes of it. -/
def onPages (f : TableFile) (size : PageSize) (l : List Bytes) :
    PageCall → PageAnswer × List Bytes
  | count => (.count l.length, l)
  | read p =>
    match if p.table = f.id then l[p.number]? else none with
    | none => (.refused (.pageNotFound p), l)
    | some bytes =>
      match Page.decode size p f.schema bytes with
      | .error e => (.refused e, l)
      | .ok page => (.page page, l)
  | write page =>
    if page.id.table = f.id ∧ page.id.number < l.length then
      (.done, l.set page.id.number page.encode)
    else (.refused (.pageNotFound page.id), l)
  | append => (.added (f.page l.length), l ++ [Page.zeroed size])

/-- Whether a call adds a page. -/
def adds : PageCall → Bool
  | append => true
  | _ => false

/-- Whether a page to be written takes as many bytes as the pages of the file. -/
def Fits (size : PageSize) : PageCall → Prop
  | write page => page.size = size.bytes
  | _ => True

/-- The answers to calls made one after the other, and what becomes of the state in the end. -/
def all {σ : Type} (answer : σ → PageCall → PageAnswer × σ) : σ → List PageCall →
    List PageAnswer × σ
  | s, [] => ([], s)
  | s, c :: cs =>
    let (a, s) := answer s c
    let (as, s) := all answer s cs
    (a :: as, s)

/-- A file answers a call as the array of its pages does, and is that array afterwards. -/
theorem step (c : PageCall) (hc : c.Fits size) (hroom : c.adds = true → f.HasRoom d size) :
    (c.onFile f size d).1 = (c.onPages f size (f.pages d size)).1 ∧
      f.pages (c.onFile f size d).2 size = (c.onPages f size (f.pages d size)).2 := by
  cases c with
  | count =>
    rw [onFile, onPages, TableFile.length_pages]
    exact ⟨rfl, rfl⟩
  | read p =>
    rw [onFile, onPages, TableFile.get?_pages, TableFile.readPage]
    by_cases hp : f.hasPage d size p = true
    · rw [if_pos hp, if_pos hp]
      dsimp only
      rw [Disk.pageAt]
      cases Page.decode size p f.schema _ <;> exact ⟨rfl, rfl⟩
    · rw [if_neg hp, if_neg hp]
      exact ⟨rfl, rfl⟩
  | write page =>
    have hhas : (page.id.table = f.id ∧ page.id.number < (f.pages d size).length) ↔
        ¬ f.Lacks d size page.id := by
      rw [TableFile.lacks_iff, not_not, TableFile.hasPage_iff, TableFile.length_pages]
    rw [onFile, onPages]
    by_cases hp : f.Lacks d size page.id
    · rw [TableFile.writePage_eq_pageNotFound_iff.2 hp, if_neg fun h => hhas.1 h hp]
      exact ⟨rfl, rfl⟩
    · obtain ⟨d', hw, hto⟩ := TableFile.writtenTo_writePage hc hp
      rw [hw, if_pos (hhas.2 hp)]
      exact ⟨rfl, hto.pages⟩
  | append =>
    have hgrown := TableFile.grownTo_appendPage (hroom rfl)
    rw [onFile, onPages, TableFile.length_pages]
    exact ⟨congrArg PageAnswer.added hgrown.id_eq, hgrown.pages⟩

/-- A file has one more page for each that is added. -/
theorem wholePages_onFile {c : PageCall} (hc : c.Fits size)
    (hroom : c.adds = true → f.HasRoom d size) :
    f.wholePages (c.onFile f size d).2 size = f.wholePages d size + if c.adds then 1 else 0 := by
  cases c with
  | count => rfl
  | read p =>
    rw [onFile]
    cases f.readPage d size p <;> rfl
  | write page =>
    rw [onFile]
    cases hw : f.writePage d size page with
    | error e => rfl
    | ok d' =>
      obtain ⟨m, hm, hto⟩ := TableFile.writtenTo_writePage hc fun hp => by
        rw [TableFile.writePage_eq_pageNotFound_iff.2 hp] at hw
        cases hw
      cases hw.symm.trans hm
      exact congrArg (· / size.bytes) hto.length_eq
  | append =>
    refine (f.wholePages_appendPage d size).trans ?_
    rw [(hroom rfl).pageCount_eq]
    exact Nat.max_eq_right (Nat.le_succ _)

/-- A file answers calls as the array of its pages does, however many they are, as long as all pages
that are added can be counted. -/
theorem run (cs : List PageCall) (hc : ∀ c ∈ cs, c.Fits size)
    (hroom : f.wholePages d size + cs.countP adds < TableFile.pageLimit) :
    (all (onFile f size) d cs).1 = (all (onPages f size) (f.pages d size) cs).1 ∧
      f.pages (all (onFile f size) d cs).2 size =
        (all (onPages f size) (f.pages d size) cs).2 := by
  induction cs generalizing d with
  | nil => exact ⟨rfl, rfl⟩
  | cons c cs ih =>
    rw [List.countP_cons] at hroom
    have hone : c.adds = true → f.HasRoom d size := fun ha => by
      rw [if_pos ha] at hroom
      rw [TableFile.HasRoom]
      omega
    have hwhole := wholePages_onFile (f := f) (d := d) (hc c List.mem_cons_self) hone
    obtain ⟨hanswer, hpages⟩ := step (f := f) (d := d) c (hc c List.mem_cons_self) hone
    have hrest := ih (d := (c.onFile f size d).2) (fun c' hc' => hc c' (List.mem_cons_of_mem c hc'))
      (by rw [hwhole]; omega)
    rw [hpages] at hrest
    exact ⟨congrArg₂ List.cons hanswer hrest.1, hrest.2⟩

/-- A call that is refused leaves the file. -/
theorem onFile_refused {c : PageCall} {e : Error} (h : (c.onFile f size d).1 = .refused e) :
    (c.onFile f size d).2 = d := by
  cases c with
  | count => rfl
  | read p =>
    rw [onFile]
    cases f.readPage d size p <;> rfl
  | write page =>
    rw [onFile] at h ⊢
    cases hw : f.writePage d size page with
    | error e => rfl
    | ok d' =>
      rw [hw] at h
      cases h
  | append => cases h

end PageCall

/-- **A table file is an array of pages.**  Whatever its bytes are, and wherever it ends, as long as
there are fewer than 2 ^ 32 - 1 whole pages: the pages are counted; a page that is written replaces
the one with its number and leaves the number of pages and all other bytes; a page is added after
the last whole one, has no rows and leaves all that were there; exactly the ids that name no page
are refused as such, and a refusal leaves the file.  So calls are answered, one after the other, as
a list of pages answers them that is changed in the same way, as long as no page is added to a file
with more. -/
theorem TableFile.page_array {f : TableFile} {d : Disk} {size : PageSize}
    (h : f.HasRoom d size) :
    f.pageCount d size = f.wholePages d size ∧
    (∀ page : Page, page.size = size.bytes → ¬ f.Lacks d size page.id →
      ∃ d', f.writePage d size page = .ok d' ∧ f.WrittenTo size d page d') ∧
      f.GrownTo size d (f.appendPage d size).1 (f.appendPage d size).2 ∧
      (∀ p, f.readPage d size p = .error (.pageNotFound p) ↔ f.Lacks d size p) ∧
      (∀ page, f.writePage d size page = .error (.pageNotFound page.id) ↔
        f.Lacks d size page.id) ∧
      (∀ c e, (PageCall.onFile f size d c).1 = .refused e → (PageCall.onFile f size d c).2 = d) ∧
      ∀ cs : List PageCall, (∀ c ∈ cs, c.Fits size) →
        f.wholePages d size + cs.countP PageCall.adds < pageLimit →
        (PageCall.all (PageCall.onFile f size) d cs).1 =
            (PageCall.all (PageCall.onPages f size) (f.pages d size) cs).1 ∧
          f.pages (PageCall.all (PageCall.onFile f size) d cs).2 size =
            (PageCall.all (PageCall.onPages f size) (f.pages d size) cs).2 :=
  ⟨h.pageCount_eq, fun _ hs hp => writtenTo_writePage hs hp, grownTo_appendPage h,
    fun _ => readPage_eq_pageNotFound_iff, fun _ => writePage_eq_pageNotFound_iff,
    fun _ _ he => PageCall.onFile_refused he, fun cs hc hn => PageCall.run cs hc hn⟩

/-- A file of a table of numbers, which ends three bytes after its first page of ten. -/
def TableFile.ragged : TableFile × Disk :=
  let f := TableFile.ofPath ⟨[[0x6e]]⟩ ⟨[⟨.int, none⟩], fun h => by cases h⟩
  (f, Disk.empty.writeAt f.path 0 (Bytes.zeros 13))

/-- What is added to it, and written after that, is what an array of one page becomes. -/
theorem TableFile.page_array_ragged :
    let (f, d) := TableFile.ragged
    let size : PageSize := ⟨10, by decide⟩
    let full := (Page.Edit.insert { values := [.int 7] }).apply (.empty size (f.page 1) f.schema)
    let cs : List PageCall := [.append, .write full, .count]
    f.HasRoom d size ∧ f.pageCount d size = 1 ∧
      f.pages (PageCall.all (PageCall.onFile f size) d cs).2 size =
        [Bytes.zeros 10, [1, 0, 0, 0, 7, 0, 0, 0, 0, 0]] := by
  have hroom : TableFile.ragged.1.HasRoom TableFile.ragged.2 ⟨10, by decide⟩ := by decide +kernel
  refine ⟨hroom, by decide +kernel, ?_⟩
  refine ((TableFile.page_array hroom).2.2.2.2.2.2 _ ?_ (by decide +kernel)).2.trans
    (by decide +kernel)
  intro c hc
  simp only [List.mem_cons, List.not_mem_nil, or_false] at hc
  rcases hc with rfl | rfl | rfl
  · exact trivial
  · exact rfl
  · exact trivial

end TableStore
