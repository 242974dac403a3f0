import Mathlib.Data.List.Forall2
import TableStore.Proofs.Page.Stored

/-!
# What storing cuts away

`Value.stored` says how a text is cut, character by character.  Here it is said what is left of it:
of all the starts of the text that consist of whole characters and fit, the longest.

## What is here

* `Utf8.LongestFit`, `Utf8.longestFit_fit` — the longest start that fits, and that `Utf8.fit` finds
  it.  There is only one.
* `Value.Clipped`, `Row.Clipped` — a value and what is left of it; a row and what is left of it.
* `Row.Short` — a row whose texts all fit.  Nothing is cut away from it.
-/

set_option autoImplicit false
namespace TableStore

/-! ## Texts

A text is cut where a character ends, so that less may be left of it than there is room for.  What
is left is described as the longest start that fits, without any mention of how it is found. -/

namespace Utf8

theorem fitChars_prefix (limit : Nat) (cs : List Char) : fitChars limit cs <+: cs := by
  induction cs generalizing limit with
  | nil => exact List.nil_prefix
  | cons c cs ih =>
    rw [fitChars]
    split
    · exact List.cons_prefix_cons.2 ⟨rfl, ih _⟩
    · exact List.nil_prefix

theorem prefix_fitChars {limit : Nat} {cs ds : List Char} (hpre : ds <+: cs)
    (hlen : (ds.flatMap String.utf8EncodeChar).length ≤ limit) : ds <+: fitChars limit cs := by
  induction cs generalizing limit ds with
  | nil => rwa [fitChars]
  | cons c cs ih =>
    cases ds with
    | nil => exact List.nil_prefix
    | cons d ds =>
      obtain ⟨rfl, htail⟩ := List.cons_prefix_cons.1 hpre
      rw [List.flatMap_cons, List.length_append, String.length_utf8EncodeChar] at hlen
      rw [fitChars, if_pos (by omega)]
      exact List.cons_prefix_cons.2 ⟨rfl, ih htail (by omega)⟩

/-- `t` is the longest start of `s`, made of whole characters, that takes at most `limit` bytes. -/
structure LongestFit (limit : Nat) (s t : String) : Prop where
  start : t.toList <+: s.toList
  fits : (encode t).length ≤ limit
  longest : ∀ u : String, u.toList <+: s.toList → (encode u).length ≤ limit →
    u.toList <+: t.toList

/-- Cutting a text leaves the longest start that fits. -/
theorem longestFit_fit (limit : Nat) (s : String) : LongestFit limit s (fit limit s) where
  start := by
    rw [fit, String.toList_ofList]
    exact fitChars_prefix limit s.toList
  fits := length_encode_fit limit s
  longest u hu hlen := by
    rw [encode_eq_flatMap] at hlen
    rw [fit, String.toList_ofList]
    exact prefix_fitChars hu hlen

theorem LongestFit.unique {limit : Nat} {s t u : String} (ht : LongestFit limit s t)
    (hu : LongestFit limit s u) : t = u := by
  have hle := (hu.longest t ht.start ht.fits).length_le
  have hpre := ht.longest u hu.start hu.fits
  have hlist := hpre.eq_of_length (Nat.le_antisymm hpre.length_le hle)
  exact String.toList_injective hlist.symm

end Utf8

/-! ## Values -/

namespace Value

/-- `w` is what is left of `v` when it is stored: the same number, or the longest start of the text
that fits its capacity. -/
inductive Clipped : Value → Value → Prop
  | int (n : Int32) : Clipped (.int n) (.int n)
  | text {s t : String} (h : Utf8.LongestFit textCapacity s t) : Clipped (.text s) (.text t)

theorem clipped_iff {v w : Value} : v.Clipped w ↔ w = v.stored := by
  constructor
  · rintro (n | h)
    · rfl
    · exact congrArg Value.text (h.unique (Utf8.longestFit_fit _ _))
  · rintro rfl
    cases v with
    | int n => exact .int n
    | text s => exact .text (Utf8.longestFit_fit textCapacity s)

/-- Whether the value is a number or a text that fits its capacity. -/
def Short : Value → Prop
  | int _ => True
  | text s => (Utf8.encode s).length ≤ textCapacity

instance (v : Value) : Decidable v.Short :=
  match v with
  | int _ => isTrue trivial
  | text s => inferInstanceAs (Decidable ((Utf8.encode s).length ≤ textCapacity))

theorem Short.stored_eq {v : Value} (h : v.Short) : v.stored = v := by
  cases v with
  | int n => rfl
  | text s => exact congrArg Value.text (Utf8.fit_of_length_le h)

end Value

/-! ## Rows -/

namespace Row

/-- `s` is what is left of `r` when it is stored: a row at the same place, with what is left of each
value. -/
structure Clipped (r s : Row) : Prop where
  rid_eq : s.rid = r.rid
  values : List.Forall₂ Value.Clipped r.values s.values

theorem clipped_stored (r : Row) : r.Clipped r.stored where
  rid_eq := rfl
  values := by
    rw [stored, List.forall₂_map_right_iff, List.forall₂_same]
    intro v _
    exact Value.clipped_iff.2 rfl

/-- Whether all texts of the row fit their capacities. -/
def Short (r : Row) : Prop := ∀ v ∈ r.values, v.Short

instance (r : Row) : Decidable r.Short := inferInstanceAs (Decidable (∀ v ∈ r.values, v.Short))

theorem Short.stored_eq {r : Row} (h : r.Short) : r.stored = r := by
  have hvalues : r.values.map Value.stored = r.values := by
    conv_rhs => rw [← List.map_id r.values]
    exact List.map_congr_left fun v hv => (h v hv).stored_eq
  rw [stored, hvalues]

end Row
end TableStore
