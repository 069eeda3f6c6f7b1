import Mathlib.Data.List.Basic
import Mathlib.Tactic.IntervalCases

/-! The order of texts by their UTF-8 bytes. A first byte tells by its mark how many bytes follow it, and
more bytes have a greater mark; where as many bytes follow, they hold the code point six bits at a time,
the highest first. So of two characters the one with the lesser code point has the lesser bytes, whatever
follows, and texts compare as their bytes do. -/

namespace EntityClasses.Text

/-- The UTF-8 bytes of a text. -/
def bytes (s : String) : List UInt8 :=
  s.toByteArray.data.toList

theorem bytes_eq_flatMap (s : String) : bytes s = s.toList.flatMap String.utf8EncodeChar := by
  rw [bytes, ← String.utf8Encode_toList, List.utf8Encode, List.data_toByteArray]

theorem ofNat_lt_ofNat {m n : Nat} (hlt : m < n) (hn : n < 256) : UInt8.ofNat m < UInt8.ofNat n := by
  rw [UInt8.lt_iff_toNat_lt, UInt8.toNat_ofNat', UInt8.toNat_ofNat']
  omega

theorem append_lt_append_left (front : List UInt8) {s t : List UInt8} (hlt : s < t) :
    front ++ s < front ++ t := by
  induction front with
  | nil => exact hlt
  | cons byte front ih => exact List.cons_lt_cons_iff.mpr (Or.inr ⟨rfl, ih⟩)

namespace Encoding

/-- What the first byte holds of a number when `count` bytes follow it. -/
def lead : Nat → Nat → Nat
  | 0, n => n
  | count + 1, n => lead count (n / 64)

/-- The bytes of a number, of which the first bears a mark and `count` follow. -/
def marked (mark : Nat) : Nat → Nat → List UInt8
  | 0, n => [UInt8.ofNat (n + mark)]
  | count + 1, n => marked mark count (n / 64) ++ [UInt8.ofNat (n % 64 + 128)]

/-- The mark of a first byte that `count` bytes follow. -/
def mark : Nat → Nat
  | 0 => 0
  | 1 => 192
  | 2 => 224
  | _ => 240

/-- The least code point that needs `count` bytes behind the first. -/
def least : Nat → Nat
  | 0 => 0
  | 1 => 128
  | 2 => 2048
  | 3 => 65536
  | _ => 1114112

theorem exists_marked_eq_cons (mark count n : Nat) :
    ∃ rest, marked mark count n = UInt8.ofNat (lead count n + mark) :: rest := by
  induction count generalizing n with
  | zero => exact ⟨[], rfl⟩
  | succ count ih =>
      obtain ⟨rest, hrest⟩ := ih (n / 64)
      exact ⟨rest ++ [UInt8.ofNat (n % 64 + 128)], by rw [marked, hrest, lead, List.cons_append]⟩

/-- The first of the bytes that differ holds less of the lesser number. -/
theorem marked_append_lt {mark count m n : Nat} (hlt : m < n) (hfits : lead count n + mark < 256)
    (s t : List UInt8) : marked mark count m ++ s < marked mark count n ++ t := by
  induction count generalizing m n s t with
  | zero =>
      rw [lead] at hfits
      exact List.cons_lt_cons_iff.mpr (Or.inl (ofNat_lt_ofNat (by omega) hfits))
  | succ count ih =>
      rw [marked, marked, List.append_assoc, List.append_assoc]
      by_cases hfront : m / 64 < n / 64
      · exact ih hfront hfits _ _
      · have hsame : m / 64 = n / 64 := by omega
        rw [hsame]
        apply append_lt_append_left
        exact List.cons_lt_cons_iff.mpr (Or.inl (ofNat_lt_ofNat (by omega) (by omega)))

section Counts

variable {count other m n : Nat}

theorem lead_add_mark_lt (hcount : count ≤ 3) (hmost : n < least (count + 1)) :
    lead count n + mark count < 256 := by
  interval_cases count <;> simp only [least, lead, mark] at * <;> omega

theorem lead_add_mark_lt_of_lt (hlt : count < other) (hother : other ≤ 3)
    (hmost : m < least (count + 1)) : lead count m + mark count < lead other n + mark other := by
  interval_cases other <;> interval_cases count <;> simp only [least, lead, mark] at * <;> omega

theorem le_of_least (hcount : count ≤ 3) (hother : other ≤ 3) (hleast : least count ≤ m) (hlt : m < n)
    (hmost : n < least (other + 1)) : count ≤ other := by
  interval_cases other <;> interval_cases count <;> simp only [least] at * <;> omega

end Counts

theorem toNat_lt (c : Char) : c.toNat < 1114112 := by
  rcases c.valid with hbelow | ⟨-, habove⟩
  · exact Nat.lt_trans hbelow (by decide)
  · exact habove

/-- A character has as many bytes as its code point needs. -/
theorem exists_marked (c : Char) : ∃ count ≤ 3, least count ≤ c.toNat ∧ c.toNat < least (count + 1) ∧
    String.utf8EncodeChar c = marked (mark count) count c.toNat := by
  have hbound := toNat_lt c
  have hnumber : c.val.toNat = c.toNat := rfl
  simp only [String.utf8EncodeChar, hnumber]
  generalize c.toNat = n at *
  have htwice : n / 64 / 64 = n / 4096 := Nat.div_div_eq_div_mul n 64 64
  have hthrice : n / 4096 / 64 = n / 262144 := Nat.div_div_eq_div_mul n 4096 64
  split_ifs with hone htwo hthree
  · exact ⟨0, by decide, by simp only [least]; omega, by simp only [least]; omega, rfl⟩
  · refine ⟨1, by decide, by simp only [least]; omega, by simp only [least]; omega, ?_⟩
    rw [Nat.mod_eq_of_lt (show n / 64 < 32 by omega)]
    rfl
  · refine ⟨2, by decide, by simp only [least]; omega, by simp only [least]; omega, ?_⟩
    rw [Nat.mod_eq_of_lt (show n / 4096 < 16 by omega), ← htwice]
    rfl
  · refine ⟨3, by decide, by simp only [least]; omega, by simp only [least]; omega, ?_⟩
    rw [Nat.mod_eq_of_lt (show n / 262144 < 8 by omega), ← hthrice, ← htwice]
    rfl

end Encoding

open Encoding

theorem utf8EncodeChar_append_lt {a b : Char} (hlt : a < b) (s t : List UInt8) :
    String.utf8EncodeChar a ++ s < String.utf8EncodeChar b ++ t := by
  have hnumbers : a.toNat < b.toNat := hlt
  obtain ⟨count, hcount, hleast, hmost, hbytes⟩ := exists_marked a
  obtain ⟨other, hother, -, hotherMost, hotherBytes⟩ := exists_marked b
  rw [hbytes, hotherBytes]
  rcases (le_of_least hcount hother hleast hnumbers hotherMost).lt_or_eq with hfewer | rfl
  · obtain ⟨rest, hrest⟩ := exists_marked_eq_cons (mark count) count a.toNat
    obtain ⟨otherRest, hotherRest⟩ := exists_marked_eq_cons (mark other) other b.toNat
    rw [hrest, hotherRest]
    have hfirst := lead_add_mark_lt_of_lt (n := b.toNat) hfewer hother hmost
    exact List.cons_lt_cons_iff.mpr
      (Or.inl (ofNat_lt_ofNat hfirst (lead_add_mark_lt hother hotherMost)))
  · exact marked_append_lt hnumbers (lead_add_mark_lt hcount hotherMost) s t

theorem flatMap_utf8EncodeChar_lt {s t : List Char} (hlt : s < t) :
    s.flatMap String.utf8EncodeChar < t.flatMap String.utf8EncodeChar := by
  induction s generalizing t with
  | nil =>
      cases t with
      | nil => exact absurd hlt (List.lt_irrefl [])
      | cons c t =>
          rw [List.flatMap_cons]
          obtain ⟨count, -, -, -, hbytes⟩ := exists_marked c
          obtain ⟨rest, hrest⟩ := exists_marked_eq_cons (mark count) count c.toNat
          rw [hbytes, hrest]
          exact List.nil_lt_cons _ _
  | cons c s ih =>
      cases t with
      | nil => exact absurd hlt (List.not_lt_nil _)
      | cons d t =>
          rw [List.flatMap_cons, List.flatMap_cons]
          rcases List.cons_lt_cons_iff.mp hlt with hfirst | ⟨rfl, hrest⟩
          · exact utf8EncodeChar_append_lt hfirst _ _
          · exact append_lt_append_left _ (ih hrest)

theorem bytes_lt_bytes {s t : String} (hlt : s < t) : bytes s < bytes t := by
  rw [bytes_eq_flatMap, bytes_eq_flatMap]
  exact flatMap_utf8EncodeChar_lt (String.lt_iff.mp hlt)

/-- **Texts compare as their bytes do.** -/
theorem bytes_le_bytes_iff (s t : String) : bytes s ≤ bytes t ↔ s ≤ t := by
  constructor
  · intro hbytes hlt
    exact hbytes (bytes_lt_bytes hlt)
  · intro hle hbytes
    by_cases hge : t ≤ s
    · rw [String.le_antisymm hle hge] at hbytes
      exact List.lt_irrefl _ hbytes
    · exact List.lt_asymm hbytes (bytes_lt_bytes (String.not_le.mp hge))

end EntityClasses.Text
