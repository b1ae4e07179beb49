/-
`redisvFormatCommand` of hiredis: from a format to the arguments of a command.

The format is cut at blanks, empty pieces are dropped, and it ends at the first
NUL. A `%` with another character behind it is a conversion. The proxy passes
no arguments to convert, so what a conversion other than `%%` does is left
open: it is a parameter, which may look at all of the format that is left.

A format that is `Plain` has no conversions; its arguments are its words
(`redisvFormatCommand_plain`).
-/
import DictionaryServer.Lib.Bytes
import DictionaryServer.Lib.Words

namespace DictionaryServer

open Lib

/-- What a conversion makes of the format behind its `%`: the text it appends
and how many bytes it takes after the first, or that the format is invalid. -/
abbrev Conversion := Bytes → Option (Bytes × Nat)

/-- The next byte of a C string. -/
def next (format : Bytes) : UInt8 := format.headD 0

/-- `%%` appends a percent sign. -/
def convert (conversion : Conversion) (format : Bytes) : Option (Bytes × Nat) :=
  if next format = 0x25 then some ([0x25], 0) else conversion format

/-- The arguments so far, and the open one if there is one. -/
def lastArg (curarg : Bytes) (touched : Bool) : List Bytes := if touched then [curarg] else []

/-- The loop, over what is left of the format after `skip` bytes. -/
def formatLoop (conversion : Conversion) : Nat → Bytes → Bool → Bytes → Option (List Bytes)
  | _, curarg, touched, [] => some (lastArg curarg touched)
  | skip + 1, curarg, touched, _ :: format => formatLoop conversion skip curarg touched format
  | 0, curarg, touched, c :: format =>
    if c = 0 then some (lastArg curarg touched)
    else if c ≠ 0x25 ∨ next format = 0 then
      if c = 0x20 then
        if touched then (formatLoop conversion 0 [] false format).map (curarg :: ·)
        else formatLoop conversion 0 curarg false format
      else formatLoop conversion 0 (curarg ++ [c]) true format
    else
      match convert conversion format with
      | none => none
      | some (text, more) => formatLoop conversion (more + 1) (curarg ++ text) true format

def redisvFormatCommand (conversion : Conversion) (format : Bytes) : Option (List Bytes) :=
  formatLoop conversion 0 [] false format

example (conversion : Conversion) : redisvFormatCommand conversion (ofText "get  100%%  %") =
    some [ofText "get", ofText "100%", ofText "%"] := rfl

/-! ## Formats without conversions -/

/-- No NUL, and no `%` but at the end. -/
def Plain : Bytes → Prop
  | [] => True
  | c :: format => c ≠ 0 ∧ (c = 0x25 → format = []) ∧ Plain format

theorem plain_iff (format : Bytes) : Plain format ↔ 0 ∉ format ∧ 0x25 ∉ format.dropLast := by
  induction format with
  | nil => simp [Plain]
  | cons c format ih =>
    rw [Plain, ih]
    rcases format with _ | ⟨c', format⟩
    · simp [eq_comm]
    · simp only [List.dropLast_cons_cons, List.mem_cons, not_or, reduceCtorEq, imp_false, ne_eq, eq_comm (b := c)]
      tauto

/-- What comes before a blank has no `%` at all. -/
theorem plain_append_blank (a b : Bytes) : Plain (a ++ 0x20 :: b) ↔ (0 ∉ a ∧ 0x25 ∉ a) ∧ Plain b := by
  induction a with
  | nil => simp [Plain]
  | cons c a ih =>
    have hne : a ++ 0x20 :: b ≠ [] := List.append_ne_nil_of_right_ne_nil _ (List.cons_ne_nil _ _)
    rw [List.cons_append, Plain, ih]
    simp only [hne, imp_false, List.mem_cons, not_or, ne_eq, eq_comm (b := c)]
    tauto

/-- **The arguments of a plain format are its words.** -/
theorem formatLoop_plain (conversion : Conversion) {format : Bytes} (h : Plain format) (curarg : Bytes) (touched : Bool)
    (ht : touched = true ↔ curarg ≠ []) :
    formatLoop conversion 0 curarg touched format = some (wordsFrom 0x20 curarg format) := by
  induction format generalizing curarg touched with
  | nil =>
    rw [formatLoop, wordsFrom, lastArg]
    by_cases hcur : curarg = [] <;> simp_all
  | cons c format ih =>
    obtain ⟨hnul, hpercent, hrest⟩ := h
    have hliteral : c ≠ 0x25 ∨ next format = 0 := by
      by_cases hc : c = 0x25
      · exact .inr (by rw [hpercent hc]; rfl)
      · exact .inl hc
    rw [formatLoop, if_neg hnul, if_pos hliteral, wordsFrom]
    by_cases hblank : c = 0x20
    · rw [if_pos hblank, if_pos hblank, ih hrest [] false (by simp)]
      by_cases hcur : curarg = []
      · rw [if_neg (by simp_all), if_pos hcur, hcur]
        exact ih hrest [] false (by simp)
      · rw [if_pos (ht.mpr hcur), if_neg hcur]
        rfl
    · rw [if_neg hblank, if_neg hblank]
      exact ih hrest (curarg ++ [c]) true (by simp)

theorem redisvFormatCommand_plain (conversion : Conversion) {format : Bytes} (h : Plain format) :
    redisvFormatCommand conversion format = some (words 0x20 format) :=
  formatLoop_plain conversion h [] false (by simp)

/-! ## And with them

Where every conversion is invalid, the arguments hold no more bytes than the
format has apart from its blanks, and as many only if it is plain. -/

/-- How much of a format can become part of an argument. -/
def weight (format : Bytes) : Nat := format.countP (· ≠ 0x20)

theorem weight_append (a b : Bytes) : weight (a ++ b) = weight a + weight b := List.countP_append

theorem weight_blank (format : Bytes) : weight (0x20 :: format) = weight format := List.countP_cons_of_neg (by decide)

theorem weight_cons {c : UInt8} (hc : c ≠ 0x20) (format : Bytes) : weight (c :: format) = weight format + 1 :=
  List.countP_cons_of_pos (by simpa using hc)

theorem weight_le (format : Bytes) : weight format ≤ format.length := List.countP_le_length

theorem length_lastArg (curarg : Bytes) (touched : Bool) : (lastArg curarg touched).flatten.length ≤ curarg.length := by
  unfold lastArg
  split <;> simp

/-- What the loop makes of the next character. -/
inductive Turn (curarg : Bytes) (touched : Bool) (args : List Bytes) : Bytes → Prop
  | nul {format} (hargs : args = lastArg curarg touched) : Turn curarg touched args (0 :: format)
  | cut {format args'} (hrest : formatLoop (fun _ => none) 0 [] false format = some args') (hargs : args = curarg :: args') :
      Turn curarg touched args (0x20 :: format)
  | blank {format} (hrest : formatLoop (fun _ => none) 0 curarg false format = some args) :
      Turn curarg touched args (0x20 :: format)
  | literal {c format} (hnul : c ≠ 0) (hblank : c ≠ 0x20) (hpercent : c = 0x25 → next format = 0)
      (hrest : formatLoop (fun _ => none) 0 (curarg ++ [c]) true format = some args) :
      Turn curarg touched args (c :: format)
  /-- Only `%%` gets through. -/
  | percent {format} (hrest : formatLoop (fun _ => none) 1 (curarg ++ [0x25]) true (0x25 :: format) = some args) :
      Turn curarg touched args (0x25 :: 0x25 :: format)

theorem formatLoop_turn {c : UInt8} {format curarg : Bytes} {touched : Bool} {args : List Bytes}
    (h : formatLoop (fun _ => none) 0 curarg touched (c :: format) = some args) : Turn curarg touched args (c :: format) := by
  rw [formatLoop] at h
  split at h
  · next hnul =>
    cases h
    rw [hnul]
    exact .nul rfl
  next hnul =>
  split at h
  · next hliteral =>
    split at h
    · next hblank =>
      rw [hblank]
      split at h
      · obtain ⟨args', hargs, rfl⟩ := Option.map_eq_some_iff.mp h
        exact .cut hargs rfl
      · exact .blank h
    · next hblank => exact .literal hnul hblank (fun hc => hliteral.resolve_left (not_not.mpr hc)) h
  · next hconverts =>
    obtain ⟨rfl, hnext⟩ : c = 0x25 ∧ next format ≠ 0 := by simpa [not_or] using hconverts
    rcases format with _ | ⟨c', format⟩
    · exact absurd rfl hnext
    · by_cases hc' : c' = 0x25
      · subst hc'
        exact .percent h
      · simp [convert, next, hc'] at h

theorem formatLoop_weight {format : Bytes} {skip : Nat} {curarg : Bytes} {touched : Bool} {args : List Bytes}
    (h : formatLoop (fun _ => none) skip curarg touched format = some args) :
    args.flatten.length ≤ curarg.length + weight (format.drop skip) ∧
      (skip = 0 → curarg.length + weight format ≤ args.flatten.length → Plain format) := by
  induction format generalizing skip curarg touched args with
  | nil =>
    rw [formatLoop] at h
    cases h
    exact ⟨Nat.le_add_right_of_le (length_lastArg _ _), fun _ _ => trivial⟩
  | cons c format ih =>
    cases skip with
    | succ skip =>
      rw [formatLoop] at h
      exact ⟨(ih h).1, nofun⟩
    | zero =>
      rw [List.drop_zero]
      cases formatLoop_turn h with
      | nul hargs =>
        -- The format ends here, but the NUL has a weight.
        subst hargs
        have hle := length_lastArg curarg touched
        rw [weight_cons (by decide)]
        exact ⟨by omega, fun _ hge => by omega⟩
      | cut hrest hargs =>
        obtain ⟨hle, hplain⟩ := ih hrest
        simp only [List.drop_zero, List.length_nil, Nat.zero_add] at hle hplain
        rw [hargs, weight_blank, List.flatten_cons, List.length_append]
        exact ⟨by omega, fun _ hge => ⟨by decide, nofun, hplain trivial (by omega)⟩⟩
      | blank hrest =>
        obtain ⟨hle, hplain⟩ := ih hrest
        rw [weight_blank]
        exact ⟨hle, fun _ hge => ⟨by decide, nofun, hplain rfl hge⟩⟩
      | literal hnul hblank hpercent hrest =>
        obtain ⟨hle, hplain⟩ := ih hrest
        simp only [List.drop_zero, List.length_append, List.length_singleton] at hle hplain
        rw [weight_cons hblank]
        refine ⟨by omega, ?_⟩
        intro _ hge
        have hrest := hplain trivial (by omega)
        refine ⟨hnul, fun hc => ?_, hrest⟩
        rcases format with _ | ⟨c', format⟩
        · rfl
        · exact absurd (hpercent hc) hrest.1
      | percent hrest =>
        -- One of the two is lost.
        have hle := (ih hrest).1
        simp only [List.drop_succ_cons, List.drop_zero, List.length_append, List.length_singleton] at hle
        rw [weight_cons (by decide), weight_cons (by decide)]
        exact ⟨by omega, fun _ hge => by omega⟩

/-- **A format gives certain arguments, whatever the conversions do,** exactly
when it is plain and these are its words. The arguments are to hold all of it
but blanks. -/
theorem redisvFormatCommand_iff {format : Bytes} {args : List Bytes} (hweight : weight format ≤ args.flatten.length) :
    (∀ conversion, redisvFormatCommand conversion format = some args) ↔ Plain format ∧ words 0x20 format = args := by
  constructor
  · intro h
    obtain ⟨-, hplain⟩ := formatLoop_weight (h fun _ => none)
    have hp : Plain format := hplain rfl (by rw [List.length_nil, Nat.zero_add]; exact hweight)
    have hargs := (redisvFormatCommand_plain (fun _ => none) hp).symm.trans (h _)
    exact ⟨hp, Option.some_inj.mp hargs⟩
  · intro h conversion
    obtain ⟨hplain, rfl⟩ := h
    exact redisvFormatCommand_plain conversion hplain

end DictionaryServer
