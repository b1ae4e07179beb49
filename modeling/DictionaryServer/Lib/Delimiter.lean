/-
Delimiters: what ends a string that is written in front of them.

A string can be read back from the text it stands in when the delimiter after
it does not occur in it, and the first symbol of a delimiter occurs nowhere
else in one: then its first occurrence is where the string ends
(`delimiter_inj`). One symbol is a delimiter of strings without it
(`symbol_inj`).
-/
import Mathlib.Data.List.Infix

namespace Lib

universe u

variable {α : Type u}

/-- A string that goes on with a delimiter ends before its first symbol, or
holds all of it. -/
theorem delimiter_append {c : α} {m n : List α} (hc : c ∉ m) {t x y : List α} (h : c :: m ++ x = t ++ (c :: n ++ y)) :
    t = [] ∨ c :: m <:+: t := by
  cases t with
  | nil => exact .inl rfl
  | cons d t =>
    rw [List.cons_append, List.cons_append, List.cons.injEq] at h
    obtain ⟨rfl, h⟩ := h
    rcases List.append_eq_append_iff.mp h with ⟨a, rfl, -⟩ | ⟨a, ha, hrest⟩
    · exact .inr (List.prefix_append (c :: m) a).isInfix
    · -- The next delimiter would start inside this one.
      cases a with
      | nil => exact .inr (by simp [ha])
      | cons e a =>
        obtain ⟨rfl, -⟩ := List.cons.inj hrest
        exact absurd (by simp [ha]) hc

/-- **Strings before delimiters** can be told apart from what follows them,
when neither holds the delimiter of the other. -/
theorem delimiter_inj {c : α} {m n : List α} (hm : c ∉ m) (hn : c ∉ n) {a b x y : List α} (ha : ¬c :: n <:+: a)
    (hb : ¬c :: m <:+: b) (h : a ++ (c :: m ++ x) = b ++ (c :: n ++ y)) : a = b ∧ m ++ x = n ++ y := by
  have hab : a = b := by
    rcases List.append_eq_append_iff.mp h with ⟨t, rfl, ht⟩ | ⟨t, rfl, ht⟩
    · rcases delimiter_append hm ht with rfl | hin
      · rw [List.append_nil]
      · exact absurd (hin.trans (List.suffix_append a t).isInfix) hb
    · rcases delimiter_append hn ht with rfl | hin
      · rw [List.append_nil]
      · exact absurd (hin.trans (List.suffix_append b t).isInfix) ha
  subst hab
  exact ⟨rfl, (List.cons.inj (List.append_cancel_left h)).2⟩

theorem symbol_inj {c : α} {a b x y : List α} (ha : c ∉ a) (hb : c ∉ b) (h : a ++ c :: x = b ++ c :: y) :
    a = b ∧ x = y :=
  delimiter_inj List.not_mem_nil List.not_mem_nil (fun hin => ha (hin.subset List.mem_cons_self))
    (fun hin => hb (hin.subset List.mem_cons_self)) h

end Lib
