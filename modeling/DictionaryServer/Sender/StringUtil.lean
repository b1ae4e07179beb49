/-
`PUBLIC::StringUtil` (sender/src/utils/StringUtil.cc), over `std::string` as a
list of bytes.

`Split` gives the words of its string: `SplitLoop_eq` is the invariant of its
loop, and `Split_words` says where the words are and that joined words come
back. `Trim` takes the outer blanks off and nothing else (`Trim_blanks`).
-/
import DictionaryServer.Lib.Bytes
import DictionaryServer.Lib.Words
import Mathlib.Data.List.DropRight

namespace DictionaryServer

open Lib

/-! ## `std::string` -/

namespace StdString

/-- `str.find(c, pos)`; `none` is `npos`. -/
def find (str : Bytes) (c : UInt8) (pos : Nat) : Option Nat :=
  ((str.drop pos).findIdx? (· == c)).map (pos + ·)

def substr (str : Bytes) (pos len : Nat) : Bytes := (str.drop pos).take len

theorem find_none {str : Bytes} {c : UInt8} {pos : Nat} (h : find str c pos = none) : c ∉ str.drop pos := by
  intro hmem
  simp only [find, Option.map_eq_none_iff, List.findIdx?_eq_none_iff] at h
  simpa using h c hmem

theorem find_some {str : Bytes} {c : UInt8} {pos p : Nat} (h : find str c pos = some p) :
    pos ≤ p ∧ p < str.length ∧ c ∉ substr str pos (p - pos) ∧
      str.drop pos = substr str pos (p - pos) ++ c :: str.drop (p + 1) := by
  simp only [find, Option.map_eq_some_iff] at h
  obtain ⟨k, hk, rfl⟩ := h
  obtain ⟨hlt, hat, hbefore⟩ := List.findIdx?_eq_some_iff_getElem.mp hk
  have hat : (str.drop pos)[k] = c := by simpa using hat
  rw [List.length_drop] at hlt
  refine ⟨by omega, by omega, ?_, ?_⟩
  · intro hmem
    rw [substr, Nat.add_sub_cancel_left] at hmem
    obtain ⟨i, hi, hc⟩ := List.mem_take_iff_getElem.mp hmem
    simpa [hc] using hbefore i (by omega)
  · have hsplit : (str.drop pos).take k ++ (str.drop pos)[k] :: (str.drop pos).drop (k + 1) = str.drop pos := by
      rw [← List.drop_eq_getElem_cons, List.take_append_drop]
    rw [hat, List.drop_drop] at hsplit
    rw [substr, Nat.add_sub_cancel_left, Nat.add_assoc]
    exact hsplit.symm

theorem find_append {x : Bytes} {c : UInt8} (hx : c ∉ x) (y : Bytes) : find (x ++ c :: y) c 0 = some x.length := by
  have hfirst : x.findIdx? (· == c) = none := by
    rw [List.findIdx?_eq_none_iff]
    intro b hb
    simp only [beq_eq_false_iff_ne]
    rintro rfl
    exact hx hb
  simp [find, List.findIdx?_append, hfirst, List.findIdx?_cons]

def find_first_not_of (str drop : Bytes) : Option Nat := str.findIdx? fun c => !drop.contains c

def find_last_not_of (str drop : Bytes) : Option Nat :=
  (find_first_not_of str.reverse drop).map fun i => str.length - 1 - i

/-- The position after one that was found; `npos + 1` is `0`. -/
def posAfter : Option Nat → Nat
  | some pos => pos + 1
  | none => 0

/-- `str.erase(pos)` -/
def eraseFrom (str : Bytes) (pos : Nat) : Bytes := str.take pos

/-- `str.erase(0, count)`; all of it for `npos`. -/
def eraseFront (str : Bytes) : Option Nat → Bytes
  | some count => str.drop count
  | none => []

theorem eraseFront_first_not_of (str drop : Bytes) :
    eraseFront str (find_first_not_of str drop) = str.dropWhile fun c => drop.contains c := by
  rw [find_first_not_of]
  induction str with
  | nil => rfl
  | cons c str ih =>
    rw [List.findIdx?_cons, List.dropWhile_cons]
    cases drop.contains c with
    | false => simp [eraseFront]
    | true =>
      show eraseFront (c :: str) ((str.findIdx? fun c => !drop.contains c).map (· + 1)) = _
      rw [← ih]
      cases str.findIdx? fun c => !drop.contains c with
      | none => rfl
      | some k => rfl

theorem eraseFrom_last_not_of (str drop : Bytes) :
    eraseFrom str (posAfter (find_last_not_of str drop)) = str.rdropWhile fun c => drop.contains c := by
  have hfront := eraseFront_first_not_of str.reverse drop
  rw [List.rdropWhile, ← hfront, find_last_not_of, eraseFrom]
  cases hfind : find_first_not_of str.reverse drop with
  | none => rfl
  | some k =>
    have hlt : k < str.length := by
      obtain ⟨hk, -⟩ := List.findIdx?_eq_some_iff_getElem.mp hfind
      simpa using hk
    rw [eraseFront, List.reverse_drop, List.reverse_reverse, List.length_reverse]
    congr 1
    show str.length - 1 - k + 1 = str.length - k
    omega

end StdString

open StdString

namespace StringUtil

/-! ## Trim -/

def drop : Bytes := ofText " \t"

def Ltrim (str : Bytes) : Bytes := eraseFront str (find_first_not_of str drop)

def Rtrim (str : Bytes) : Bytes := eraseFrom str (posAfter (find_last_not_of str drop))

def Trim (str : Bytes) : Bytes :=
  let str := eraseFrom str (posAfter (find_last_not_of str drop))
  eraseFront str (find_first_not_of str drop)

/-- What the trims take away. -/
def isBlank (c : UInt8) : Bool := drop.contains c

def Blanks (b : Bytes) : Prop := ∀ c ∈ b, isBlank c = true

instance (b : Bytes) : Decidable (Blanks b) := decidable_of_iff (b.all isBlank = true) List.all_eq_true

theorem Blanks.not_mem {b : Bytes} (hb : Blanks b) {c : UInt8} (hc : isBlank c = false) : c ∉ b := by
  intro hmem
  rw [hb c hmem] at hc
  cases hc

/-- No blank at either end. -/
structure NoOuterBlanks (str : Bytes) : Prop where
  head : ∀ c, str.head? = some c → isBlank c = false
  last : ∀ c, str.getLast? = some c → isBlank c = false

theorem noOuterBlanks_iff (str : Bytes) :
    NoOuterBlanks str ↔ (str.head?.all fun c => !isBlank c) = true ∧ (str.getLast?.all fun c => !isBlank c) = true := by
  simp only [Option.all_eq_true, Bool.not_eq_true']
  exact ⟨fun h => ⟨h.head, h.last⟩, fun h => ⟨h.1, h.2⟩⟩

instance (str : Bytes) : Decidable (NoOuterBlanks str) := decidable_of_iff _ (noOuterBlanks_iff str).symm

theorem Ltrim_eq (str : Bytes) : Ltrim str = str.dropWhile isBlank := eraseFront_first_not_of str drop

theorem Rtrim_eq (str : Bytes) : Rtrim str = str.rdropWhile isBlank := eraseFrom_last_not_of str drop

theorem Trim_eq (str : Bytes) : Trim str = Ltrim (Rtrim str) := rfl

theorem Ltrim_append {b : Bytes} (hb : Blanks b) (str : Bytes) : Ltrim (b ++ str) = Ltrim str := by
  rw [Ltrim_eq, Ltrim_eq, List.dropWhile_append_of_pos hb]

theorem Rtrim_append {b : Bytes} (hb : Blanks b) (str : Bytes) : Rtrim (str ++ b) = Rtrim str := by
  have hb' : ∀ c ∈ b.reverse, isBlank c = true := fun c hc => hb c (List.mem_reverse.mp hc)
  simp only [Rtrim_eq, List.rdropWhile, List.reverse_append, List.dropWhile_append_of_pos hb']

/-- `Ltrim` stops at what is no blank. -/
theorem Ltrim_of_head {str : Bytes} (h : ∀ c, str.head? = some c → isBlank c = false) : Ltrim str = str := by
  rw [Ltrim_eq]
  cases str with
  | nil => rfl
  | cons c str => simp [h c rfl]

theorem Rtrim_of_last {str : Bytes} (h : ∀ c, str.getLast? = some c → isBlank c = false) : Rtrim str = str := by
  rw [Rtrim_eq, List.rdropWhile_eq_self_iff]
  intro hne
  simp [h _ (List.getLast?_eq_getLast_of_ne_nil hne)]

theorem Rtrim_append_cons {c : UInt8} (hc : isBlank c = false) (a b : Bytes) :
    Rtrim (a ++ c :: b) = a ++ c :: Rtrim b := by
  simp only [Rtrim_eq, List.rdropWhile, List.reverse_append, List.reverse_cons, List.append_assoc,
    List.dropWhile_append]
  split
  · next hnil =>
    have hnil : b.reverse.dropWhile isBlank = [] := by simpa using hnil
    simp [hnil, hc]
  · simp

theorem Rtrim_Rtrim (str : Bytes) : Rtrim (Rtrim str) = Rtrim str := by simp only [Rtrim_eq, List.rdropWhile_idempotent]

theorem Trim_Rtrim (str : Bytes) : Trim (Rtrim str) = Trim str := by rw [Trim_eq, Trim_eq, Rtrim_Rtrim]

/-- **`Trim` takes the blanks off both ends and nothing else.** -/
theorem Trim_blanks {a b str : Bytes} (ha : Blanks a) (hb : Blanks b) (h : NoOuterBlanks str) :
    Trim (a ++ str ++ b) = str := by
  rw [Trim_eq, Rtrim_append hb]
  cases str using List.reverseRecOn with
  | nil =>
    have hnil : Rtrim a = [] := by rw [Rtrim_eq, List.rdropWhile_eq_nil_iff]; exact ha
    rw [List.append_nil, hnil]
    rfl
  | append_singleton str c =>
    have hc : isBlank c = false := h.last c (by simp)
    rw [← List.append_assoc, Rtrim_append_cons hc, List.append_assoc, Ltrim_append ha]
    exact Ltrim_of_head h.head

/-! ## Split -/

/-- The loop of `Split`, and what comes after it: `pos` is `find(delim, start)`
each time it is looked at. -/
def SplitLoop (str : Bytes) (delim : UInt8) (start : Nat) (result : List Bytes) : List Bytes :=
  match _hpos : find str delim start with
  | some pos =>
    SplitLoop str delim (pos + 1) (if pos > start then result ++ [substr str start (pos - start)] else result)
  | none => if start < str.length then result ++ [str.drop start] else result
termination_by str.length - start
decreasing_by
  have hfound := find_some _hpos
  omega

def Split (str : Bytes) (delim : UInt8) : List Bytes := SplitLoop str delim 0 []

theorem SplitLoop_some {str : Bytes} {delim : UInt8} {start pos : Nat} (h : find str delim start = some pos)
    (result : List Bytes) :
    SplitLoop str delim start result =
      SplitLoop str delim (pos + 1) (if pos > start then result ++ [substr str start (pos - start)] else result) := by
  rw [SplitLoop]
  split
  · next p hp =>
    obtain rfl : pos = p := by simpa [h] using hp
    rfl
  · next hp => simp [h] at hp

theorem SplitLoop_none {str : Bytes} {delim : UInt8} {start : Nat} (h : find str delim start = none)
    (result : List Bytes) :
    SplitLoop str delim start result = if start < str.length then result ++ [str.drop start] else result := by
  rw [SplitLoop]
  split
  · next p hp => simp [h] at hp
  · rfl

/-- The invariant of the loop: what is emitted, and the words that are left. -/
theorem SplitLoop_eq (str : Bytes) (delim : UInt8) (start : Nat) (result : List Bytes) :
    SplitLoop str delim start result = result ++ words delim (str.drop start) := by
  induction start, result using SplitLoop.induct str delim with
  | case1 start result pos hpos ih =>
    obtain ⟨hle, hlt, hfree, hsplit⟩ := find_some hpos
    have hpiece : substr str start (pos - start) = [] ↔ ¬pos > start := by
      rw [substr, List.take_eq_nil_iff, List.drop_eq_nil_iff]
      omega
    rw [dite_eq_ite] at ih
    rw [SplitLoop_some hpos, ih, hsplit, words_before hfree]
    by_cases hgt : pos > start
    · simp [hgt, hpiece]
    · simp [hgt, hpiece]
  | case2 start result hpos hlt =>
    have hne : str.drop start ≠ [] := by simpa using hlt
    rw [SplitLoop_none hpos, if_pos hlt, words_self hne (find_none hpos)]
  | case3 start result hpos hlt =>
    have hnil : str.drop start = [] := by simpa using hlt
    rw [SplitLoop_none hpos, if_neg hlt, hnil, words_nil, List.append_nil]

theorem Split_eq_words (str : Bytes) (delim : UInt8) : Split str delim = words delim str := SplitLoop_eq str delim 0 []

example : Split (ofText ",a,,bc,") 0x2C = [ofText "a", ofText "bc"] := by
  rw [Split_eq_words]
  decide

/-- **`Split` loses nothing but empty pieces**: it returns the runs without a
delimiter that are not empty, from left to right, and gives back what was
joined with any number of delimiters. -/
theorem Split_words (str : Bytes) (delim : UInt8) :
    (∃ places : List (Nat × Nat), places.Pairwise (fun a b => a.1 + a.2 < b.1) ∧
      (∀ p n, (p, n) ∈ places ↔ IsWordAt delim str p n) ∧ Split str delim = places.map fun a => substr str a.1 a.2) ∧
    ∀ (lead : Nat) (pieces : List (Bytes × Nat)), (∀ piece ∈ pieces, piece.1 ≠ [] ∧ delim ∉ piece.1) →
      Split (List.replicate lead delim ++ joined delim pieces) delim = pieces.map Prod.fst := by
  refine ⟨?_, ?_⟩
  · rw [Split_eq_words]
    exact words_places delim str
  · intro lead pieces h
    rw [Split_eq_words, words_replicate_append, words_joined h]

end StringUtil

end DictionaryServer
