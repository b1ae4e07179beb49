/-
Labelled transition systems: runs with their labels in order, reachable
states, inductive invariants, runs whose every step meets a condition, and
simulations.

A label says everything a step did that a property may speak of (the event
and what was observed), so a property of a whole run is a property of its
list of labels and the state it ends in.
-/
import Mathlib.Data.List.Forall2
import Mathlib.Data.List.Induction

namespace Lib

universe u v w x

/-- Which states a system starts in, and what its steps are. -/
structure System (σ : Type u) (α : Type v) where
  start : σ → Prop
  step : σ → α → σ → Prop

namespace System

variable {σ : Type u} {α : Type v} {τ : Type w} {β : Type x}

/-- A run from `s`, with the labels of its steps in order. -/
inductive Run (S : System σ α) (s : σ) : List α → σ → Prop
  | nil : Run S s [] s
  | snoc {as t a u} : Run S s as t → S.step t a u → Run S s (as ++ [a]) u

/-- The states some run from a start state ends in. -/
def Reachable (S : System σ α) (s : σ) : Prop := ∃ s₀ as, S.start s₀ ∧ S.Run s₀ as s

theorem Reachable.of_start {S : System σ α} {s} (h : S.start s) : S.Reachable s := ⟨s, [], h, .nil⟩

theorem Reachable.step {S : System σ α} {s a t} (h : S.Reachable s) (hs : S.step s a t) : S.Reachable t := by
  obtain ⟨s₀, as, h₀, hr⟩ := h
  exact ⟨s₀, as ++ [a], h₀, .snoc hr hs⟩

theorem Run.single {S : System σ α} {s a t} (h : S.step s a t) : S.Run s [a] t := .snoc .nil h

theorem Run.trans {S : System σ α} {s as t bs u} (h₁ : S.Run s as t) (h₂ : S.Run t bs u) :
    S.Run s (as ++ bs) u := by
  induction h₂ with
  | nil => simpa using h₁
  | snoc _ hs ih => rw [← List.append_assoc]; exact .snoc ih hs

theorem Run.eq_of_nil {S : System σ α} {s t} (h : S.Run s [] t) : t = s := by
  obtain ⟨as, has⟩ : ∃ as : List α, as = [] := ⟨_, rfl⟩
  rw [← has] at h
  cases h with
  | nil => rfl
  | snoc hr hs => simp at has

theorem Run.last {S : System σ α} {s as a u} (h : S.Run s (as ++ [a]) u) : ∃ t, S.Run s as t ∧ S.step t a u := by
  obtain ⟨bs, hbs⟩ : ∃ bs, bs = as ++ [a] := ⟨_, rfl⟩
  rw [← hbs] at h
  cases h with
  | nil => simp at hbs
  | @snoc bs t b u hr hs =>
    obtain ⟨rfl, hb⟩ := List.append_inj' hbs rfl
    cases hb
    exact ⟨t, hr, hs⟩

/-- A run goes through a state wherever its labels are cut. -/
theorem Run.of_append {S : System σ α} {s as bs u} (h : S.Run s (as ++ bs) u) :
    ∃ t, S.Run s as t ∧ S.Run t bs u := by
  induction bs using List.reverseRecOn generalizing u with
  | nil => exact ⟨u, by simpa using h, .nil⟩
  | append_singleton bs b ih =>
    rw [← List.append_assoc] at h
    obtain ⟨v, hr, hs⟩ := h.last
    obtain ⟨t, hr₁, hr₂⟩ := ih hr
    exact ⟨t, hr₁, hr₂.snoc hs⟩

theorem Run.step_of_mem {S : System σ α} {s as t a} (h : S.Run s as t) (ha : a ∈ as) : ∃ u v, S.step u a v := by
  induction h with
  | nil => simp at ha
  | snoc _ hs ih =>
    rcases List.mem_append.mp ha with ha | ha
    · exact ih ha
    · rw [List.mem_singleton.mp ha]
      exact ⟨_, _, hs⟩

/-- True at the start and kept by every step. -/
structure Invariant (S : System σ α) (I : σ → Prop) : Prop where
  start : ∀ s, S.start s → I s
  step : ∀ s a t, I s → S.step s a t → I t

theorem Run.keeps {S : System σ α} {I : σ → Prop} (hstep : ∀ s a t, I s → S.step s a t → I t)
    {s as t} (h : S.Run s as t) (hs : I s) : I t := by
  induction h with
  | nil => exact hs
  | snoc _ ha ih => exact hstep _ _ _ ih ha

/-- **The invariant rule.** -/
theorem Invariant.reachable {S : System σ α} {I : σ → Prop} (h : S.Invariant I) {s} (hs : S.Reachable s) :
    I s := by
  obtain ⟨s₀, as, h₀, hr⟩ := hs
  exact hr.keeps h.step (h.start s₀ h₀)

/-! ## Runs under a condition -/

/-- The same system with only the steps that meet `C`. -/
def restrict (S : System σ α) (C : σ → α → σ → Prop) : System σ α where
  start := S.start
  step s a t := S.step s a t ∧ C s a t

theorem Run.of_restrict {S : System σ α} {C} {s as t} (h : (S.restrict C).Run s as t) : S.Run s as t := by
  induction h with
  | nil => exact .nil
  | snoc _ ha ih => exact .snoc ih ha.1

theorem Run.restrict_mono {S : System σ α} {C D} (hCD : ∀ s a t, C s a t → D s a t) {s as t}
    (h : (S.restrict C).Run s as t) : (S.restrict D).Run s as t := by
  induction h with
  | nil => exact .nil
  | snoc _ ha ih => exact .snoc ih ⟨ha.1, hCD _ _ _ ha.2⟩

/-- Conditions that agree on the steps from where `I` holds leave the same
runs, `I` being kept. -/
theorem restrict_congr_of {S : System σ α} {I : σ → Prop} (hI : ∀ s a t, I s → S.step s a t → I t)
    {C D : σ → α → σ → Prop} (h : ∀ s a t, I s → S.step s a t → (C s a t ↔ D s a t)) {s as t} (hs : I s) :
    (S.restrict C).Run s as t ↔ (S.restrict D).Run s as t := by
  constructor
  · intro hr
    induction hr with
    | nil => exact .nil
    | snoc hr ha ih => exact .snoc ih ⟨ha.1, (h _ _ _ (hr.of_restrict.keeps hI hs) ha.1).mp ha.2⟩
  · intro hr
    induction hr with
    | nil => exact .nil
    | snoc hr ha ih => exact .snoc ih ⟨ha.1, (h _ _ _ (hr.of_restrict.keeps hI hs) ha.1).mpr ha.2⟩

theorem restrict_congr {S : System σ α} {C D : σ → α → σ → Prop} (h : ∀ s a t, S.step s a t → (C s a t ↔ D s a t))
    {s as t} : (S.restrict C).Run s as t ↔ (S.restrict D).Run s as t :=
  restrict_congr_of (I := fun _ => True) (fun _ _ _ _ _ => trivial) (fun s a t _ => h s a t) trivial

/-- **The rule for a property of the states.** Where the condition on a step
says exactly whether the property survives it, the runs on which the property
holds throughout are those whose steps all meet the condition. -/
theorem restrict_states {S : System σ α} {J I : σ → Prop} (hJ : ∀ s a t, J s → S.step s a t → J t)
    {D : σ → α → σ → Prop} (h : ∀ s a t, J s → I s → S.step s a t → (I t ↔ D s a t)) {s as t} (hJs : J s)
    (hIs : I s) : (S.restrict fun _ _ t => I t).Run s as t ↔ (S.restrict D).Run s as t := by
  have hkeep : ∀ {as t}, (S.restrict fun _ _ t => I t).Run s as t → J t ∧ I t := by
    intro as t hr
    refine hr.keeps (I := fun s => J s ∧ I s) (fun s a t hs ha => ?_) ⟨hJs, hIs⟩
    exact ⟨hJ s a t hs.1 ha.1, ha.2⟩
  constructor
  · intro hr
    induction hr with
    | nil => exact .nil
    | snoc hr ha ih =>
      obtain ⟨hJt, hIt⟩ := hkeep hr
      exact .snoc ih ⟨ha.1, (h _ _ _ hJt hIt ha.1).mp ha.2⟩
  · intro hr
    induction hr with
    | nil => exact .nil
    | snoc _ ha ih =>
      obtain ⟨hJt, hIt⟩ := hkeep ih
      exact .snoc ih ⟨ha.1, (h _ _ _ hJt hIt ha.1).mpr ha.2⟩

/-! ## Simulation -/

/-- Every step of `S` from a state related by `R` is matched by one of `T`
whose label is related by `L`. -/
def Simulates (S : System σ α) (T : System τ β) (R : σ → τ → Prop) (L : α → β → Prop) : Prop :=
  ∀ s t a s', R s t → S.step s a s' → ∃ b t', T.step t b t' ∧ L a b ∧ R s' t'

/-- **The simulation rule**: a run is matched by a run, label by label. -/
theorem Simulates.run {S : System σ α} {T : System τ β} {R L} (h : Simulates S T R L) {s t as s'}
    (hR : R s t) (hr : S.Run s as s') : ∃ bs t', T.Run t bs t' ∧ List.Forall₂ L as bs ∧ R s' t' := by
  induction hr with
  | nil => exact ⟨[], t, .nil, .nil, hR⟩
  | snoc _ hs ih =>
    obtain ⟨bs, t₁, hb, hL, hR₁⟩ := ih
    obtain ⟨b, t₂, hst, hab, hR₂⟩ := h _ _ _ _ hR₁ hs
    exact ⟨bs ++ [b], t₂, .snoc hb hst, List.rel_append hL (.cons hab .nil), hR₂⟩

end System
end Lib
