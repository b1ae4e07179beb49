/-
A desk that leases resources to tickets and keeps a routing table.

A resource is down, idle, held by one ticket, or stuck (leased, but to
nothing that will ever answer). Beside the resources stands a table that
says, for each resource, whom an answer that comes back on it goes to. The
table is written when a resource is leased and never cleared, so an entry
outlives its lease. The question is whether an answer can go to a stale
entry.

* `answers_routed`: it cannot; each answer goes to its ticket's owner.
* `answers_nodup`: if no ticket is granted twice, none is answered twice.
* `answer_exclusive`: if no ticket is granted whose owner still has one out,
  then an answer leaves its owner with none.
-/
import DictionaryServer.Lib.System
import Mathlib.Logic.Function.Basic
import Mathlib.Data.List.Nodup

namespace Lib.Lease

universe u v w

/-- What a resource is doing. -/
inductive Slot (τ : Type w)
  | down
  | idle
  | held (t : τ)
  | stuck

/-- The resources `R`, leased to tickets `τ`, and the table of the owners `C`. -/
structure Desk (R : Type u) (C : Type v) (τ : Type w) where
  slot : R → Slot τ
  route : R → Option C

/-- The things that happen at a desk. -/
inductive Act (R : Type u) (C : Type v) (τ : Type w)
  | skip
  | raise (r : R)
  | grant (r : R) (t : τ)
  | waste (r : R) (c : C)
  | answer (r : R) (t : τ) (c : Option C)
  | close (r : R)

variable {R : Type u} {C : Type v} {τ : Type w} [DecidableEq R]

def Desk.setSlot (d : Desk R C τ) (r : R) (x : Slot τ) : Desk R C τ :=
  { d with slot := Function.update d.slot r x }

def Desk.setRoute (d : Desk R C τ) (r : R) (c : C) : Desk R C τ :=
  { d with route := Function.update d.route r (some c) }

/-- One step of a desk whose tickets have the owners `owner`. An answer goes
where the table says. -/
inductive Step (owner : τ → C) : Desk R C τ → Act R C τ → Desk R C τ → Prop
  | skip {d} : Step owner d .skip d
  | raise {d r} : d.slot r = .down → Step owner d (.raise r) (d.setSlot r .idle)
  | grant {d r t} : d.slot r = .idle → Step owner d (.grant r t) ((d.setSlot r (.held t)).setRoute r (owner t))
  | waste {d r c} : d.slot r = .idle → Step owner d (.waste r c) ((d.setSlot r .stuck).setRoute r c)
  | answer {d r t} : d.slot r = .held t → Step owner d (.answer r t (d.route r)) (d.setSlot r .idle)
  | close {d r} : d.slot r = .stuck → Step owner d (.close r) (d.setSlot r .down)

/-- A desk starts with nothing leased. -/
def desk (R : Type u) [DecidableEq R] (owner : τ → C) : System (Desk R C τ) (Act R C τ) where
  start d := ∀ r, d.slot r = .down
  step := Step owner

variable {owner : τ → C} {d d' : Desk R C τ} {a : Act R C τ}

@[simp] theorem setSlot_slot (d : Desk R C τ) (r : R) (x : Slot τ) :
    (d.setSlot r x).slot = Function.update d.slot r x := rfl

@[simp] theorem setSlot_route (d : Desk R C τ) (r : R) (x : Slot τ) : (d.setSlot r x).route = d.route := rfl

@[simp] theorem setSlot_self (d : Desk R C τ) (r : R) : d.setSlot r (d.slot r) = d := by
  rw [Desk.setSlot, Function.update_eq_self]

@[simp] theorem setRoute_slot (d : Desk R C τ) (r : R) (c : C) : (d.setRoute r c).slot = d.slot := rfl

@[simp] theorem setRoute_route (d : Desk R C τ) (r : R) (c : C) :
    (d.setRoute r c).route = Function.update d.route r (some c) := rfl

theorem held_update {f : R → Slot τ} {r r' : R} {x : Slot τ} {t : τ}
    (h : Function.update f r x r' = .held t) : (r' = r ∧ x = .held t) ∨ (r' ≠ r ∧ f r' = .held t) := by
  by_cases hr : r' = r
  · subst hr; exact .inl ⟨rfl, by simpa using h⟩
  · exact .inr ⟨hr, by simpa [hr] using h⟩

/-- A resource that is held after a step was granted in it or was held before. -/
theorem Step.held {r : R} {t : τ} (h : Step owner d a d') (hh : d'.slot r = .held t) :
    a = .grant r t ∨ d.slot r = .held t := by
  cases h with
  | skip => exact .inr hh
  | grant h =>
    rcases held_update hh with ⟨rfl, h'⟩ | ⟨-, h'⟩
    · cases h'; exact .inl rfl
    · exact .inr h'
  | raise h | waste h | answer h | close h =>
    rcases held_update hh with ⟨-, h'⟩ | ⟨-, h'⟩
    · cases h'
    · exact .inr h'

/-! ## Routing -/

/-- The table knows the owner of every lease that is out. -/
def Routed (owner : τ → C) (d : Desk R C τ) : Prop := ∀ r t, d.slot r = .held t → d.route r = some (owner t)

theorem Step.routed (h : Step owner d a d') (hd : Routed owner d) : Routed owner d' := by
  intro r t hr
  cases h with
  | skip => exact hd r t hr
  | raise h | answer h | close h =>
    rcases held_update hr with ⟨-, h'⟩ | ⟨-, h'⟩
    · cases h'
    · exact hd r t h'
  | grant h =>
    rcases held_update hr with ⟨rfl, h'⟩ | ⟨hne, h'⟩
    · cases h'; simp
    · simpa [hne] using hd r t h'
  | waste h =>
    rcases held_update hr with ⟨-, h'⟩ | ⟨hne, h'⟩
    · cases h'
    · simpa [hne] using hd r t h'

theorem routed_invariant (owner : τ → C) : (desk R owner).Invariant (Routed owner) where
  start d h r t hr := by rw [h r] at hr; cases hr
  step _ _ _ hd h := h.routed hd

/-- **Every answer of a run goes to its ticket's owner.** -/
theorem answers_routed {acts : List (Act R C τ)} (h : (desk R owner).Run d acts d') (hd : Routed owner d)
    {r t c} (ha : Act.answer r t c ∈ acts) : c = some (owner t) := by
  induction h with
  | nil => simp at ha
  | @snoc as e a u hr hs ih =>
    rcases List.mem_append.mp ha with ha | ha
    · exact ih ha
    · have he := hr.keeps (routed_invariant owner).step hd
      simp only [List.mem_singleton] at ha
      subst ha
      cases hs with
      | answer h => exact he _ _ h

/-! ## Answered once -/

def grantOf : Act R C τ → Option τ
  | .grant _ t => some t
  | _ => none

def answerOf : Act R C τ → Option τ
  | .answer _ t _ => some t
  | _ => none

/-- After the actions `acts`: what is held was granted and not answered, by
one resource only, and what was answered was granted, once. -/
structure Once (acts : List (Act R C τ)) (d : Desk R C τ) : Prop where
  held : ∀ r t, d.slot r = .held t → t ∈ acts.filterMap grantOf ∧ t ∉ acts.filterMap answerOf
  alone : ∀ r r' t, d.slot r = .held t → d.slot r' = .held t → r = r'
  answered : ∀ t ∈ acts.filterMap answerOf, t ∈ acts.filterMap grantOf
  nodup : (acts.filterMap answerOf).Nodup

omit [DecidableEq R] in
theorem Once.quiet {acts : List (Act R C τ)} (h : Once acts d) (hg : grantOf a = none)
    (ha : answerOf a = none) (hd : ∀ r t, d'.slot r = .held t → d.slot r = .held t) :
    Once (acts ++ [a]) d' := by
  have eg : (acts ++ [a]).filterMap grantOf = acts.filterMap grantOf := by simp [hg]
  have ea : (acts ++ [a]).filterMap answerOf = acts.filterMap answerOf := by simp [ha]
  constructor
  · intro r t hr
    rw [eg, ea]
    exact h.held r t (hd r t hr)
  · exact fun r r' t hr hr' => h.alone r r' t (hd r t hr) (hd r' t hr')
  · rw [eg, ea]
    exact h.answered
  · rw [ea]
    exact h.nodup

theorem Once.grant {acts : List (Act R C τ)} {r t} (h : Once acts d) (c : C)
    (hn : t ∉ acts.filterMap grantOf) : Once (acts ++ [.grant r t]) ((d.setSlot r (.held t)).setRoute r c) := by
  have eg : (acts ++ [Act.grant r t]).filterMap grantOf = acts.filterMap grantOf ++ [t] := by simp [grantOf]
  have ea : (acts ++ [Act.grant r t]).filterMap answerOf = acts.filterMap answerOf := by
    simp [answerOf]
  constructor
  · intro r' t' hr
    rw [eg, ea]
    rcases held_update hr with ⟨-, h'⟩ | ⟨-, h'⟩
    · cases h'
      exact ⟨by simp, fun hm => hn (h.answered _ hm)⟩
    · exact ⟨List.mem_append_left _ (h.held _ _ h').1, (h.held _ _ h').2⟩
  · intro r₁ r₂ t' h₁ h₂
    -- A fresh ticket is held nowhere else.
    rcases held_update h₁ with ⟨e₁, g₁⟩ | ⟨-, g₁⟩ <;> rcases held_update h₂ with ⟨e₂, g₂⟩ | ⟨-, g₂⟩
    · rw [e₁, e₂]
    · cases g₁; exact absurd (h.held _ _ g₂).1 hn
    · cases g₂; exact absurd (h.held _ _ g₁).1 hn
    · exact h.alone _ _ _ g₁ g₂
  · intro t' ht
    rw [ea] at ht
    rw [eg]
    exact List.mem_append_left _ (h.answered t' ht)
  · rw [ea]
    exact h.nodup

theorem Once.answer {acts : List (Act R C τ)} {r t} (h : Once acts d) (hr : d.slot r = .held t) (c : Option C) :
    Once (acts ++ [.answer r t c]) (d.setSlot r .idle) := by
  have eg : (acts ++ [Act.answer r t c]).filterMap grantOf = acts.filterMap grantOf := by simp [grantOf]
  have ea : (acts ++ [Act.answer r t c]).filterMap answerOf = acts.filterMap answerOf ++ [t] := by
    simp [answerOf]
  have ht := h.held r t hr
  constructor
  · intro r' t' hr'
    rw [eg, ea]
    rcases held_update hr' with ⟨-, h'⟩ | ⟨hne, h'⟩
    · cases h'
    · refine ⟨(h.held _ _ h').1, ?_⟩
      simp only [List.mem_append, List.mem_singleton, not_or]
      refine ⟨(h.held _ _ h').2, fun he => hne ?_⟩
      subst he
      exact h.alone _ _ _ h' hr
  · intro r₁ r₂ t' h₁ h₂
    rcases held_update h₁ with ⟨-, g₁⟩ | ⟨-, g₁⟩
    · cases g₁
    rcases held_update h₂ with ⟨-, g₂⟩ | ⟨-, g₂⟩
    · cases g₂
    exact h.alone _ _ _ g₁ g₂
  · intro t' ht'
    rw [ea] at ht'
    rw [eg]
    rcases List.mem_append.mp ht' with ht' | ht'
    · exact h.answered t' ht'
    · rw [List.mem_singleton.mp ht']; exact ht.1
  · rw [ea, List.nodup_append]
    refine ⟨h.nodup, by simp, ?_⟩
    intro x hx y hy
    rw [List.mem_singleton.mp hy]
    exact fun he => ht.2 (he ▸ hx)

theorem Once.step {acts : List (Act R C τ)} (h : Once acts d) (hs : Step owner d a d')
    (hn : ((acts ++ [a]).filterMap grantOf).Nodup) : Once (acts ++ [a]) d' := by
  have old := fun r t (hh : d'.slot r = .held t) => hs.held hh
  cases hs with
  | skip => exact h.quiet rfl rfl fun r t hr => hr
  | grant hi =>
    refine h.grant _ ?_
    intro hm
    simp only [List.filterMap_append, List.nodup_append] at hn
    exact hn.2.2 _ hm _ (by simp [grantOf]) rfl
  | answer hh => exact h.answer hh _
  | raise hi | waste hi | close hi =>
    exact h.quiet rfl rfl fun r t hr => (old r t hr).resolve_left (by simp)

/-- **No ticket is answered twice**, if none is granted twice. -/
theorem answers_nodup {acts : List (Act R C τ)} (h : (desk R owner).Run d acts d') (hd : ∀ r, d.slot r = .down)
    (hn : (acts.filterMap grantOf).Nodup) : Once acts d' := by
  induction h with
  | nil => exact ⟨fun r t hr => by simp [hd r] at hr, fun r r' t hr => by simp [hd r] at hr, by simp, by simp⟩
  | snoc _ hs ih =>
    refine (ih ?_).step hs hn
    rw [List.filterMap_append] at hn
    exact hn.of_append_left

/-! ## One lease for each owner -/

/-- No owner has two leases out. -/
def Exclusive (owner : τ → C) (d : Desk R C τ) : Prop :=
  ∀ r r' t t', d.slot r = .held t → d.slot r' = .held t' → owner t = owner t' → r = r'

/-- A ticket is granted only to an owner with no lease out. -/
def Polite (owner : τ → C) (d : Desk R C τ) (a : Act R C τ) (_ : Desk R C τ) : Prop :=
  ∀ r t, a = .grant r t → ∀ r' t', d.slot r' = .held t' → owner t' ≠ owner t

theorem Step.exclusive (h : Step owner d a d') (hp : Polite owner d a d') (hd : Exclusive owner d) :
    Exclusive owner d' := by
  intro r r' t t' hr hr' ho
  rcases h.held hr with rfl | hr₀ <;> rcases h.held hr' with he | hr₁
  · cases he; rfl
  · exact absurd ho.symm (hp r t rfl r' t' hr₁)
  · subst he; exact absurd ho (hp r' t' rfl r t hr₀)
  · exact hd r r' t t' hr₀ hr₁ ho

/-- **An answer leaves its owner with no lease out.** -/
theorem answer_exclusive {r t c} (h : Step owner d (.answer r t c) d') (hd : Exclusive owner d) :
    ∀ r' t', d'.slot r' = .held t' → owner t' ≠ owner t := by
  intro r' t' hr' ho
  cases h with
  | answer hr =>
    rcases held_update hr' with ⟨-, h'⟩ | ⟨hne, h'⟩
    · cases h'
    · exact hne (hd r' r t' t h' hr ho)

end Lib.Lease
