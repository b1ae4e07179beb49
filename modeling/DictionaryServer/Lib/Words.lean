/-
The words of a list: its maximal non-empty runs without a delimiter.

Every word is one (`mem_words`), and words with delimiters between them come
back (`words_append`, `words_joined`). `words_places` says where they are: at
the places of all such runs, from left to right.
-/
import Mathlib.Data.List.Basic

namespace Lib

universe u

variable {α : Type u} [DecidableEq α] {d : α}

/-- The words that are left when `word` has been read and not ended. -/
def wordsFrom (d : α) : List α → List α → List (List α)
  | word, [] => if word = [] then [] else [word]
  | word, c :: s =>
    if c = d then (if word = [] then wordsFrom d [] s else word :: wordsFrom d [] s) else wordsFrom d (word ++ [c]) s

def words (d : α) (s : List α) : List (List α) := wordsFrom d [] s

theorem mem_wordsFrom {word s w : List α} (hd : d ∉ word) (h : w ∈ wordsFrom d word s) : w ≠ [] ∧ d ∉ w := by
  induction s generalizing word with
  | nil =>
    rw [wordsFrom] at h
    split at h
    · cases h
    · next hne =>
      rw [List.mem_singleton.mp h]
      exact ⟨hne, hd⟩
  | cons c s ih =>
    rw [wordsFrom] at h
    split at h
    · split at h
      · exact ih List.not_mem_nil h
      · next hne =>
        rcases List.mem_cons.mp h with rfl | h
        · exact ⟨hne, hd⟩
        · exact ih List.not_mem_nil h
    · next hc =>
      refine ih ?_ h
      rw [List.mem_append, List.mem_singleton]
      intro hor
      rcases hor with hmem | rfl
      · exact hd hmem
      · exact hc rfl

/-- **A word is not empty and holds no delimiter.** -/
theorem mem_words {s w : List α} (h : w ∈ words d s) : w ≠ [] ∧ d ∉ w := mem_wordsFrom List.not_mem_nil h

theorem wordsFrom_append {word w : List α} (hd : d ∉ w) (s : List α) :
    wordsFrom d word (w ++ s) = wordsFrom d (word ++ w) s := by
  induction w generalizing word with
  | nil => rw [List.nil_append, List.append_nil]
  | cons c w ih =>
    have hc : c ≠ d := fun hc => hd (hc ▸ List.mem_cons_self)
    rw [List.cons_append, wordsFrom, if_neg hc, ih fun hmem => hd (List.mem_cons_of_mem _ hmem), List.append_assoc]
    rfl

/-- **A word, a delimiter, and the rest.** -/
theorem words_append {w : List α} (hne : w ≠ []) (hd : d ∉ w) (s : List α) : words d (w ++ d :: s) = w :: words d s := by
  rw [words, wordsFrom_append hd, List.nil_append, wordsFrom, if_pos rfl, if_neg hne]
  rfl

theorem words_self {w : List α} (hne : w ≠ []) (hd : d ∉ w) : words d w = [w] := by
  have hread : wordsFrom d [] (w ++ []) = wordsFrom d ([] ++ w) [] := wordsFrom_append hd []
  rw [List.append_nil, List.nil_append, wordsFrom, if_neg hne] at hread
  exact hread

@[simp] theorem words_nil : words d [] = [] := rfl

@[simp] theorem words_cons_self (s : List α) : words d (d :: s) = words d s := by simp [words, wordsFrom]

@[simp] theorem words_replicate_append (n : Nat) (s : List α) : words d (List.replicate n d ++ s) = words d s := by
  induction n with
  | zero => rfl
  | succ n ih => rw [List.replicate_succ, List.cons_append, words_cons_self, ih]

/-- What stands before the first delimiter is the first word, unless it is empty. -/
theorem words_before {x : List α} (hd : d ∉ x) (s : List α) :
    words d (x ++ d :: s) = (if x = [] then [] else [x]) ++ words d s := by
  split
  · next hx => simp [hx]
  · next hx => exact words_append hx hd s

/-! ## Delimiters between words -/

/-- Texts with delimiters between them: after each the given number of them,
and one more if another text follows. -/
def joined (d : α) : List (List α × Nat) → List α
  | [] => []
  | [(w, n)] => w ++ List.replicate n d
  | (w, n) :: piece :: pieces => w ++ List.replicate (n + 1) d ++ joined d (piece :: pieces)

/-- **Joined words come back**, however many delimiters join them. -/
theorem words_joined {pieces : List (List α × Nat)} (h : ∀ piece ∈ pieces, piece.1 ≠ [] ∧ d ∉ piece.1) :
    words d (joined d pieces) = pieces.map Prod.fst := by
  induction pieces with
  | nil => rfl
  | cons piece pieces ih =>
    obtain ⟨w, n⟩ := piece
    obtain ⟨hne, hd⟩ : w ≠ [] ∧ d ∉ w := h (w, n) (by simp)
    cases pieces with
    | nil =>
      cases n with
      | zero => simp [joined, words_self hne hd]
      | succ n =>
        rw [joined, List.replicate_succ, words_append hne hd]
        simpa using words_replicate_append n []
    | cons next pieces =>
      have hrest := ih fun piece hmem => h piece (List.mem_cons_of_mem _ hmem)
      rw [joined, List.append_assoc, List.replicate_succ, List.cons_append, words_append hne hd,
        words_replicate_append, hrest]
      rfl

/-! ## Where the words are -/

/-- There is a word of `s`, `n` long, at `p`: no delimiter in it, and next to
it, on both sides, a delimiter or an end of `s`. -/
structure IsWordAt (d : α) (s : List α) (p n : Nat) : Prop where
  pos : 0 < n
  le : p + n ≤ s.length
  free : ∀ i, p ≤ i → i < p + n → s[i]? ≠ some d
  before : p = 0 ∨ s[p - 1]? = some d
  after : p + n = s.length ∨ s[p + n]? = some d

omit [DecidableEq α] in
theorem getElem?_ne_of_not_mem {x : List α} (hd : d ∉ x) (i : Nat) : x[i]? ≠ some d :=
  fun h => hd (List.mem_of_getElem? h)

omit [DecidableEq α] in
/-- No word starts inside of another. -/
theorem IsWordAt.first {x t : List α} {p n : Nat} (hd : d ∉ x) (ht : t = [] ∨ t.head? = some d)
    (h : IsWordAt d (x ++ t) p n) (hp : p ≤ x.length) : p = 0 ∧ n = x.length := by
  have hinside : ∀ i, i < x.length → (x ++ t)[i]? ≠ some d := by
    intro i hi
    rw [List.getElem?_append_left hi]
    exact getElem?_ne_of_not_mem hd i
  have hzero : p = 0 := by
    rcases h.before with hp0 | hbefore
    · exact hp0
    · by_contra hp0
      exact hinside (p - 1) (by omega) hbefore
  subst hzero
  refine ⟨rfl, Nat.le_antisymm ?_ ?_⟩
  · rcases ht with rfl | ht
    · simpa using h.le
    · by_contra hlt
      have hat : (x ++ t)[x.length]? = some d := by simp [List.getElem?_append_right, ← List.head?_eq_getElem?, ht]
      exact h.free x.length (by omega) (by omega) hat
  · by_contra hlt
    rcases h.after with hend | hafter
    · rw [List.length_append] at hend
      omega
    · exact hinside (0 + n) (by omega) hafter

omit [DecidableEq α] in
theorem isWordAt_self {x : List α} (hd : d ∉ x) {p n : Nat} : IsWordAt d x p n ↔ x ≠ [] ∧ p = 0 ∧ n = x.length := by
  constructor
  · intro h
    have hle := h.le
    have hpos := h.pos
    refine ⟨?_, IsWordAt.first hd (.inl rfl) (by rwa [List.append_nil]) (by omega)⟩
    rintro rfl
    rw [List.length_nil] at hle
    omega
  · rintro ⟨hne, rfl, rfl⟩
    exact ⟨List.length_pos_iff.mpr hne, by simp, fun i _ _ => getElem?_ne_of_not_mem hd i, .inl rfl, .inl (by simp)⟩

omit [DecidableEq α] in
/-- The words of a text with a delimiter: the one before it, and those of the rest. -/
theorem isWordAt_before {x : List α} (hd : d ∉ x) (s : List α) {p n : Nat} :
    IsWordAt d (x ++ d :: s) p n ↔
      (x ≠ [] ∧ p = 0 ∧ n = x.length) ∨ ∃ q, p = x.length + 1 + q ∧ IsWordAt d s q n := by
  have hright : ∀ i, (x ++ d :: s)[x.length + 1 + i]? = s[i]? := by
    intro i
    rw [List.getElem?_append_right (by omega), show x.length + 1 + i - x.length = i + 1 by omega,
      List.getElem?_cons_succ]
  have hlen : (x ++ d :: s).length = x.length + 1 + s.length := by
    rw [List.length_append, List.length_cons]
    omega
  constructor
  · intro h
    by_cases hp : p ≤ x.length
    · obtain ⟨hp0, hn⟩ := IsWordAt.first hd (.inr rfl) h hp
      refine .inl ⟨?_, hp0, hn⟩
      rintro rfl
      exact absurd h.pos (by simp [hn])
    · obtain ⟨q, rfl⟩ : ∃ q, p = x.length + 1 + q := ⟨p - (x.length + 1), by omega⟩
      refine .inr ⟨q, rfl, h.pos, ?_, ?_, ?_, ?_⟩
      · have hle := h.le
        omega
      · intro i hi hin
        rw [← hright i]
        exact h.free _ (by omega) (by omega)
      · rcases Nat.eq_zero_or_pos q with hq | hq
        · exact .inl hq
        · rcases h.before with hp0 | hbefore
          · omega
          · rw [show x.length + 1 + q - 1 = x.length + 1 + (q - 1) by omega, hright] at hbefore
            exact .inr hbefore
      · rcases h.after with hend | hafter
        · exact .inl (by omega)
        · rw [Nat.add_assoc (x.length + 1), hright] at hafter
          exact .inr hafter
  · rintro (⟨hne, rfl, rfl⟩ | ⟨q, rfl, h⟩)
    · refine ⟨List.length_pos_iff.mpr hne, by omega, ?_, .inl rfl, .inr (by simp)⟩
      intro i _ hi
      rw [List.getElem?_append_left (by omega)]
      exact getElem?_ne_of_not_mem hd i
    · refine ⟨h.pos, ?_, ?_, .inr ?_, ?_⟩
      · have hle := h.le
        omega
      · intro i hi hin
        obtain ⟨j, rfl⟩ : ∃ j, i = x.length + 1 + j := ⟨i - (x.length + 1), by omega⟩
        rw [hright]
        exact h.free j (by omega) (by omega)
      · rcases h.before with rfl | hbefore
        · simp
        · cases q with
          | zero => simp
          | succ q => rw [show x.length + 1 + (q + 1) - 1 = x.length + 1 + q by omega, hright]; exact hbefore
      · rcases h.after with hend | hafter
        · exact .inl (by omega)
        · rw [Nat.add_assoc (x.length + 1), hright]
          exact .inr hafter

/-- **The words of a text are its runs without a delimiter, from left to right.** -/
theorem words_places (d : α) (s : List α) :
    ∃ places : List (Nat × Nat), places.Pairwise (fun a b => a.1 + a.2 < b.1) ∧
      (∀ p n, (p, n) ∈ places ↔ IsWordAt d s p n) ∧ words d s = places.map fun a => (s.drop a.1).take a.2 := by
  induction hlen : s.length using Nat.strongRecOn generalizing s with
  | ind k ih =>
    subst hlen
    by_cases hmem : d ∈ s
    · obtain ⟨x, t, rfl, hx⟩ := List.eq_append_cons_of_mem hmem
      obtain ⟨places, hsorted, hplaces, hwords⟩ := ih t.length (by simp; omega) t rfl
      -- The places in the rest move on by what was read.
      refine ⟨(if x = [] then [] else [(0, x.length)]) ++ places.map fun a => (x.length + 1 + a.1, a.2), ?_, ?_, ?_⟩
      · rw [List.pairwise_append, List.pairwise_map]
        refine ⟨by split <;> simp, hsorted.imp fun hlt => by omega, ?_⟩
        intro a ha b hb
        obtain ⟨c, -, rfl⟩ := List.mem_map.mp hb
        split at ha
        · cases ha
        · rw [List.mem_singleton.mp ha]
          show 0 + x.length < x.length + 1 + c.1
          omega
      · intro p n
        rw [isWordAt_before hx, List.mem_append, List.mem_map]
        refine or_congr ?_ ?_
        · split
          · next hnil => simp [hnil]
          · next hne => simp [hne]
        · constructor
          · rintro ⟨⟨q, m⟩, hq, heq⟩
            obtain ⟨rfl, rfl⟩ := Prod.mk.inj heq
            exact ⟨q, rfl, (hplaces _ _).mp hq⟩
          · rintro ⟨q, rfl, hq⟩
            exact ⟨(q, n), (hplaces q n).mpr hq, rfl⟩
      · rw [words_before hx, hwords, List.map_append, List.map_map]
        congr 1
        · split <;> simp
        · refine List.map_congr_left fun a _ => ?_
          have hrest : (x ++ d :: t).drop (x.length + 1 + a.1) = t.drop a.1 := by
            rw [Nat.add_assoc, List.drop_length_add_append, Nat.add_comm, List.drop_succ_cons]
          simp [hrest]
    · rcases eq_or_ne s [] with rfl | hne
      · refine ⟨[], by simp, fun p n => ?_, rfl⟩
        simp [isWordAt_self hmem]
      · refine ⟨[(0, s.length)], by simp, fun p n => ?_, ?_⟩
        · simp [isWordAt_self hmem, hne]
        · simp [words_self hne hmem]

end Lib
