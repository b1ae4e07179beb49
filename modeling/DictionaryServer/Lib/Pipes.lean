/-
FIFO pipes that end in one place.

Whoever is at the far end takes from any pipe that is not empty, so of two
tokens in different pipes either may be taken first; of two in one pipe the
first put is the first taken.

* `conserved`: what was put in a pipe is what was taken from it, then what it
  still holds.
* `before_of_same`: order within a pipe.
* `overtaken`: no order between pipes.
-/
import DictionaryServer.Lib.System
import Mathlib.Logic.Function.Basic
import Mathlib.Data.List.Nodup

namespace Lib

/-- In `l` no `y` stands before the first `x`. -/
def Before {α : Type*} (x y : α) (l : List α) : Prop := ∀ pre post, l = pre ++ y :: post → x ∈ pre

variable {α β : Type*} {x y : α} {l l' : List α}

theorem Before.of_mem (hx : x ∈ l) (hy : y ∉ l) : Before x y (l ++ l') := by
  intro pre post heq
  rcases List.append_eq_append_iff.mp heq with ⟨as, rfl, -⟩ | ⟨as, rfl, has⟩
  · exact List.mem_append_left _ hx
  · cases as with
    | nil => simpa using hx
    | cons a as =>
      cases has
      exact absurd (by simp) hy

theorem before_of_nodup {as bs cs : List α} (h : (as ++ x :: bs ++ y :: cs).Nodup) : Before x y (as ++ x :: bs ++ y :: cs) := by
  intro pre post heq
  have hsplit := List.nodup_append.mp h
  have hfirst : y ∉ as ++ x :: bs := fun hmem => hsplit.2.2 y hmem y (by simp) rfl
  have hlast : y ∉ cs := (List.nodup_cons.mp hsplit.2.1).1
  obtain ⟨rfl, -⟩ := (List.append_cons_inj_of_notMem hfirst hlast).mp heq
  simp

theorem Before.map {f : α → β} (hf : ∀ a, f a = f y → a = y) (h : Before x y l) : Before (f x) (f y) (l.map f) := by
  intro pre post heq
  obtain ⟨pre', rest, rfl, rfl, hrest⟩ := List.map_eq_append_iff.mp heq
  obtain ⟨a, post', rfl, ha, -⟩ := List.map_eq_cons_iff.mp hrest
  rw [hf a ha] at h
  exact List.mem_map_of_mem (h pre' post' rfl)

theorem Before.of_map {f : α → β} (hf : ∀ a, f a = f x → a = x) (h : Before (f x) (f y) (l.map f)) : Before x y l := by
  intro pre post heq
  have hmem := h (pre.map f) (post.map f) (by simp [heq])
  obtain ⟨a, ha, hfa⟩ := List.mem_map.mp hmem
  rw [← hf a hfa]
  exact ha

namespace Pipes

universe u v

/-- The things that happen at pipes. -/
inductive Act (P : Type u) (τ : Type v)
  | skip
  | put (p : P) (t : τ)
  | take (p : P) (t : τ)

variable {P : Type u} {τ : Type v} [DecidableEq P]

inductive Step : (P → List τ) → Act P τ → (P → List τ) → Prop
  | skip {q} : Step q .skip q
  | put {q p t} : Step q (.put p t) (Function.update q p (q p ++ [t]))
  | take {q p t ts} : q p = t :: ts → Step q (.take p t) (Function.update q p ts)

/-- Pipes start empty. -/
def pipes (P : Type u) (τ : Type v) [DecidableEq P] : System (P → List τ) (Act P τ) where
  start q := ∀ p, q p = []
  step := Step

/-- What was put in the pipe `p`, in order. -/
def puts (p : P) (acts : List (Act P τ)) : List τ :=
  acts.filterMap fun
    | .put p' t => if p' = p then some t else none
    | _ => none

/-- What was taken from it. -/
def takes (p : P) (acts : List (Act P τ)) : List τ :=
  acts.filterMap fun
    | .take p' t => if p' = p then some t else none
    | _ => none

variable {q q' : P → List τ} {acts : List (Act P τ)} {p p' : P} {t t' : τ}

@[simp] theorem puts_append (p : P) (as bs : List (Act P τ)) : puts p (as ++ bs) = puts p as ++ puts p bs := by
  simp [puts]

@[simp] theorem takes_append (p : P) (as bs : List (Act P τ)) : takes p (as ++ bs) = takes p as ++ takes p bs := by
  simp [takes]

@[simp] theorem puts_put (p : P) (t : τ) (as : List (Act P τ)) : puts p (.put p t :: as) = t :: puts p as := by
  simp [puts]

@[simp] theorem takes_take (p : P) (t : τ) (as : List (Act P τ)) : takes p (.take p t :: as) = t :: takes p as := by
  simp [takes]

theorem puts_one (p p' : P) (t : τ) : List.Sublist (puts p [.put p' t]) [t] := by
  by_cases hp : p' = p <;> simp [puts, hp]

theorem mem_takes : t ∈ takes p acts ↔ .take p t ∈ acts := by
  simp only [takes, List.mem_filterMap]
  constructor
  · intro h
    obtain ⟨a, ha, hsome⟩ := h
    rcases a with _ | _ | ⟨p', t'⟩
    · cases hsome
    · cases hsome
    · by_cases hp : p' = p
      · simp only [hp, if_true, Option.some.injEq] at hsome
        rw [← hp, ← hsome]
        exact hp ▸ ha
      · simp [hp] at hsome
  · intro h
    exact ⟨_, h, by simp⟩

/-- One step of a pipe's account. -/
theorem Step.conserved {a : Act P τ} (h : Step q a q') (p : P) : q p ++ puts p [a] = takes p [a] ++ q' p := by
  cases h with
  | skip => simp [puts, takes]
  | @put p' t =>
    by_cases hp : p = p'
    · simp [hp, puts, takes]
    · simp [puts, takes, hp, Ne.symm hp]
  | @take p' t ts hq =>
    by_cases hp : p = p'
    · simp [hp, puts, takes, hq]
    · simp [puts, takes, hp, Ne.symm hp]

/-- **A pipe's account** balances. -/
theorem conserved (h : (pipes P τ).Run q acts q') (p : P) : q p ++ puts p acts = takes p acts ++ q' p := by
  induction h with
  | nil => simp [puts, takes]
  | snoc _ hs ih =>
    simp only [puts_append, takes_append, List.append_assoc]
    rw [← List.append_assoc, ih, List.append_assoc, hs.conserved]

theorem takes_isPrefix (hq : q p = []) (h : (pipes P τ).Run q acts q') : takes p acts <+: puts p acts := by
  have hbal := conserved h p
  rw [hq, List.nil_append] at hbal
  exact ⟨q' p, hbal.symm⟩

theorem not_taken (hq : q p = []) (h : (pipes P τ).Run q acts q') (hn : t ∉ puts p acts) : .take p t ∉ acts := by
  intro hmem
  exact hn ((takes_isPrefix hq h).subset (mem_takes.mpr hmem))

/-- **Of two tokens in one pipe** the first put is the first taken. -/
theorem before_of_same {as bs cs : List (Act P τ)} (hq : q p = [])
    (h : (pipes P τ).Run q (as ++ .put p t :: bs ++ .put p t' :: cs) q')
    (hn : (puts p (as ++ .put p t :: bs ++ .put p t' :: cs)).Nodup) :
    Before (.take p t) (.take p t') (as ++ .put p t :: bs ++ .put p t' :: cs) := by
  intro pre post heq
  obtain ⟨rest, hrest⟩ := takes_isPrefix hq h
  have htakes : takes p (as ++ .put p t :: bs ++ .put p t' :: cs) = takes p pre ++ t' :: takes p post := by
    rw [heq]; simp
  simp only [puts_append, puts_put] at hrest hn
  rw [htakes] at hrest
  rw [← mem_takes]
  exact before_of_nodup hn _ _ (by simpa using hrest.symm)

/-- Whoever takes can take from one pipe only, until it is empty. -/
theorem drain (q : P → List τ) (p : P) : ∃ q', (pipes P τ).Run q ((q p).map (.take p)) q' := by
  obtain ⟨ts, hts⟩ : ∃ ts, ts = q p := ⟨_, rfl⟩
  rw [← hts]
  induction ts generalizing q with
  | nil => exact ⟨q, .nil⟩
  | cons t ts ih =>
    obtain ⟨q', hr⟩ := ih (Function.update q p ts) (by simp)
    exact ⟨q', (System.Run.single (Step.take hts.symm)).trans hr⟩

omit [DecidableEq P] in
/-- **Of two tokens in different pipes** the second may be taken first, unless
the first is gone already. -/
theorem overtaken (hp : p ≠ p') (hgone : .take p t ∉ acts) (ht' : t' ∈ q p') :
    ¬Before (.take p t) (.take p' t') (acts ++ (q p').map (.take p')) := by
  intro hbefore
  obtain ⟨as, bs, has⟩ := List.append_of_mem ht'
  have hmem := hbefore (acts ++ as.map (.take p')) (bs.map (.take p')) (by simp [has])
  rcases List.mem_append.mp hmem with h | h
  · exact hgone h
  · obtain ⟨x, -, hx⟩ := List.mem_map.mp h
    cases hx
    exact hp rfl

end Pipes
end Lib
