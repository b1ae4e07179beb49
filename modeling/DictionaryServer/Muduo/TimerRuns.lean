/-
What becomes of a timer in every run (muduo/net/TimerQueue.cc).

A timer that does not repeat is called exactly once, unless it is cancelled,
and one that repeats lives on (`timers_called`). The descriptor is always set
in time for the first timer, and a batch is what is due (`always_armed`).
-/
import DictionaryServer.Muduo.TimerSafety

namespace DictionaryServer.Muduo.TimerQueue

open Lib

variable {q q' q₀ : TimerQueue} {e : Event} {obs : Observed} {p : TimerPtr} {t : Timer} {s : Nat}
  {l : Event × Observed} {labels : List (Event × Observed)}

/-! ## What a step does to one timer -/

theorem canceled_heap (q : TimerQueue) (a : ActiveTimer) (h : (q.canceled a).heap p ≠ q.heap p) :
    a ∈ q.activeTimers ∧ a.1 = p ∧ (q.canceled a).heap p = none := by
  unfold canceled at h ⊢
  by_cases ha : a ∈ q.activeTimers
  · rw [if_pos ha] at h ⊢
    split at h
    · next t ht =>
      by_cases hp : p = a.1
      · subst hp
        exact ⟨ha, rfl, by simp [removed]⟩
      · exact absurd (Function.update_of_ne hp _ _) h
    · exact absurd rfl h
  · rw [if_neg ha] at h
    split at h <;> exact absurd rfl h

theorem heap_of_canceled {a : ActiveTimer} (h : (q.canceled a).heap p = some t) : q.heap p = some t := by
  by_cases hsame : (q.canceled a).heap p = q.heap p
  · exact hsame ▸ h
  · rw [(canceled_heap q a hsame).2.2] at h
    cases h

theorem numCreated_canceled (q : TimerQueue) (a : ActiveTimer) : (q.canceled a).numCreated = q.numCreated := by
  unfold canceled
  split
  · split <;> rfl
  · split <;> rfl

theorem Fresh.heap_alloc {p' : TimerPtr} {t' : Timer} (hf : q.Fresh p' t') (ht : q.heap p = some t) :
    (q.alloc p' t').heap p = some t := by
  have hne : p ≠ p' := by
    rintro rfl
    rw [hf.1] at ht
    cases ht
  exact (Function.update_of_ne hne _ _).trans ht

/-- **A timer stays**, unless it is cancelled, or its batch ends and it does
not repeat. -/
theorem Moves.kept (h : Inv q) (hm : Moves q e obs q') (ht : q.heap p = some t) :
    (∃ t', q'.heap p = some t' ∧ t'.sequence = t.sequence ∧ t'.repeat_ = t.repeat_) ∨
      obs = .canceled (p, t.sequence) ∧ (p, t.sequence) ∈ q.activeTimers ∨
      p ∈ q.place.ran.map Entry.timer ∧ ¬q.Restarts p t := by
  have hcancel : ∀ (q₁ : TimerQueue) (a : ActiveTimer), Inv q₁ → q₁.heap p = some t →
      (∃ t', (q₁.canceled a).heap p = some t' ∧ t'.sequence = t.sequence ∧ t'.repeat_ = t.repeat_) ∨
        a = (p, t.sequence) ∧ a ∈ q₁.activeTimers := by
    intro q₁ a h₁ ht₁
    by_cases hsame : (q₁.canceled a).heap p = q₁.heap p
    · exact .inl ⟨t, hsame.trans ht₁, rfl, rfl⟩
    · obtain ⟨ha, rfl, -⟩ := canceled_heap q₁ a hsame
      exact .inr ⟨h₁.keeps.active_eq ha ht₁, ha⟩
  cases hm with
  | new hf => exact .inl ⟨t, hf.heap_alloc ht, rfl, rfl⟩
  | addTimer hf => exact .inl ⟨t, by rw [heap_added]; exact hf.heap_alloc ht, rfl, rfl⟩
  | addFunctor => exact .inl ⟨t, by rw [heap_added]; exact ht, rfl, rfl⟩
  | queueAdd | returns | queueCancel | handleRead | run => exact .inl ⟨t, ht, rfl, rfl⟩
  | @cancel a =>
    rcases hcancel q a h ht with hkept | ⟨rfl, ha⟩
    · exact .inl hkept
    · exact .inr (.inl ⟨rfl, ha⟩)
  | @cancelFunctor a fs hplace hfunctors =>
    rcases hcancel _ a (h.functor hfunctors) ht with hkept | ⟨rfl, ha⟩
    · exact .inl hkept
    · exact .inr (.inl ⟨rfl, ha⟩)
  | reset hplace hended =>
    by_cases hp : p ∈ q.place.ran.map Entry.timer
    · by_cases hrestarts : q.Restarts p t
      · have hran := hended.batch p (by simpa [hplace, TimerPlace.ran] using hp) t ht
        rw [if_pos hrestarts] at hran
        exact .inl ⟨_, hran, rfl, rfl⟩
      · exact .inr (.inr ⟨hp, hrestarts⟩)
    · have hother := hended.others p (by simpa [hplace, TimerPlace.ran] using hp)
      exact .inl ⟨t, hother.trans ht, rfl, rfl⟩

/-- Where a timer is made. -/
def Event.created : Event → Option (TimerPtr × Timer)
  | .new p t | .addTimer p t => some (p, t)
  | .queueAdd _ | .returns _ | .queueCancel _ | .cancel _ | .functor | .handleRead _ _ | .run | .reset => none

theorem Moves.came (h : Inv q) (hm : Moves q e obs q') (ht : q'.heap p = some t) :
    (∃ t', q.heap p = some t' ∧ t.sequence = t'.sequence ∧ t.repeat_ = t'.repeat_) ∨
      e.created = some (p, t) ∧ q.Fresh p t := by
  have hfresh : ∀ {p' t'}, q.Fresh p' t' → (q.alloc p' t').heap p = some t →
      q.heap p = some t ∨ (p', t') = (p, t) ∧ q.Fresh p t := by
    intro p' t' hf hsome
    by_cases hp : p = p'
    · subst hp
      simp only [alloc, Function.update_self, Option.some_inj] at hsome
      exact .inr ⟨by rw [hsome], hsome ▸ hf⟩
    · simp only [alloc, Function.update_of_ne hp] at hsome
      exact .inl hsome
  cases hm with
  | new hf =>
    rcases hfresh hf ht with hold | ⟨heq, hf⟩
    · exact .inl ⟨t, hold, rfl, rfl⟩
    · exact .inr ⟨congrArg some heq, hf⟩
  | addTimer hf =>
    rw [heap_added] at ht
    rcases hfresh hf ht with hold | ⟨heq, hf⟩
    · exact .inl ⟨t, hold, rfl, rfl⟩
    · exact .inr ⟨congrArg some heq, hf⟩
  | addFunctor =>
    rw [heap_added] at ht
    exact .inl ⟨t, ht, rfl, rfl⟩
  | queueAdd | returns | queueCancel | handleRead | run => exact .inl ⟨t, ht, rfl, rfl⟩
  | cancel => exact .inl ⟨t, heap_of_canceled ht, rfl, rfl⟩
  | @cancelFunctor a fs =>
    have hold : ({ q with functors := fs } : TimerQueue).heap p = some t := heap_of_canceled ht
    exact .inl ⟨t, hold, rfl, rfl⟩
  | reset hplace hended =>
    rename_i now ran
    by_cases hp : p ∈ ran.map Entry.timer
    · obtain ⟨t', hold⟩ := h.allocated (owned_of_batch (by simpa [hplace, TimerPlace.batch] using hp))
      have hbatch := hended.batch p hp t' hold
      rw [ht] at hbatch
      split at hbatch
      · cases hbatch
        exact .inl ⟨t', hold, rfl, rfl⟩
      · cases hbatch
    · exact .inl ⟨t, (hended.others p hp).symm.trans ht, rfl, rfl⟩

theorem Moves.ran (hm : Moves q e obs q') :
    (∃ now ran rest f t, q.place = .calling now ran (f :: rest) ∧ q'.place = .calling now (ran ++ [f]) rest ∧
      q.heap f.timer = some t ∧ obs = .called t.sequence ∧ q'.heap = q.heap) ∨
      (∀ n, obs ≠ .called n) ∧ (q'.place.ran = q.place.ran ∨ q'.place.ran = []) := by
  cases hm with
  | run hplace ht => exact .inl ⟨_, _, _, _, _, hplace, rfl, ht, rfl, rfl⟩
  | new | queueAdd | returns | queueCancel => exact .inr ⟨by simp, .inl rfl⟩
  | addTimer | addFunctor => exact .inr ⟨by simp, .inl (congrArg TimerPlace.ran (place_added _ _ _))⟩
  | cancel => exact .inr ⟨by simp, .inl (by rw [place_canceled])⟩
  | cancelFunctor => exact .inr ⟨by simp, .inl (by rw [place_canceled])⟩
  | handleRead => exact .inr ⟨by simp, .inr rfl⟩
  | reset hplace hended => exact .inr ⟨by simp, .inr (by rw [hended.place]; rfl)⟩

/-! ## Called once -/

def created (labels : List (Event × Observed)) : List (TimerPtr × Timer) := labels.filterMap fun l => l.1.created

/-- The numbers of the timers called, in order. -/
def called (labels : List (Event × Observed)) : List Nat :=
  labels.filterMap fun l =>
    match l.2 with
    | .called s => some s
    | _ => none

/-- What `cancelInLoop` was called with. -/
def cancels (labels : List (Event × Observed)) : List ActiveTimer :=
  labels.filterMap fun l =>
    match l.2 with
    | .canceled a => some a
    | _ => none

@[simp] theorem created_append (as bs : List (Event × Observed)) : created (as ++ bs) = created as ++ created bs := by
  simp [created]

@[simp] theorem called_append (as bs : List (Event × Observed)) : called (as ++ bs) = called as ++ called bs := by
  simp [called]

@[simp] theorem cancels_append (as bs : List (Event × Observed)) : cancels (as ++ bs) = cancels as ++ cancels bs := by
  simp [cancels]

theorem called_one {n : Nat} : n ∈ called [l] ↔ l.2 = .called n := by
  cases hl : l.2 <;> simp [called, hl, eq_comm]

theorem cancels_one {a : ActiveTimer} : a ∈ cancels [l] ↔ l.2 = .canceled a := by
  cases hl : l.2 <;> simp [cancels, hl, eq_comm]

/-- The timer of this number, at this address, is there and was not called in
the batch under way. -/
def Waits (q : TimerQueue) (p : TimerPtr) (s : Nat) : Prop :=
  (∃ t, q.heap p = some t ∧ t.sequence = s) ∧ p ∉ q.place.ran.map Entry.timer

/-- What has become of the timers that were made. -/
structure Fate (labels : List (Event × Observed)) (q : TimerQueue) : Prop where
  inv : Inv q
  made : ∀ p t, q.heap p = some t → ∃ t₀, (p, t₀) ∈ created labels ∧ t₀.sequence = t.sequence ∧ t₀.repeat_ = t.repeat_
  numbered : ∀ c ∈ created labels, c.2.sequence ≤ q.numCreated
  distinct : ∀ c ∈ created labels, ∀ c' ∈ created labels, c.2.sequence = c'.2.sequence → c = c'
  ran : ∀ s ∈ called labels, s ≤ q.numCreated
  canceling : ∀ a ∈ q.cancelingTimers, a ∈ cancels labels
  atMostOnce : ∀ c ∈ created labels, c.2.repeat_ = false →
    (called labels).count c.2.sequence ≤ 1 ∧ (q.Waits c.1 c.2.sequence → c.2.sequence ∉ called labels)
  once : ∀ c ∈ created labels, c.2.repeat_ = false → (c.1, c.2.sequence) ∉ cancels labels →
    q.Waits c.1 c.2.sequence ∨ c.2.sequence ∈ called labels
  alive : ∀ c ∈ created labels, c.2.repeat_ = true → (c.1, c.2.sequence) ∉ cancels labels →
    ∃ t, q.heap c.1 = some t ∧ t.sequence = c.2.sequence

theorem Moves.cancelingTimers (hm : Moves q e obs q') {a : ActiveTimer} (ha : a ∈ q'.cancelingTimers) :
    a ∈ q.cancelingTimers ∨ obs = .canceled a := by
  have hcancel : ∀ (q₁ : TimerQueue) (b : ActiveTimer), a ∈ (q₁.canceled b).cancelingTimers →
      a ∈ q₁.cancelingTimers ∨ b = a := by
    intro q₁ b hmem
    unfold canceled at hmem
    split at hmem
    · split at hmem <;> exact .inl hmem
    · split at hmem
      · exact (Finset.mem_insert.mp hmem).symm.imp_right Eq.symm
      · exact .inl hmem
  cases hm with
  | new | queueAdd | returns | queueCancel | run => exact .inl ha
  | addTimer | addFunctor =>
    rw [cancelingTimers_added] at ha
    exact .inl ha
  | @cancel b => exact (hcancel q b ha).imp_right (congrArg Observed.canceled)
  | @cancelFunctor b fs => exact (hcancel { q with functors := fs } b ha).imp_right (congrArg Observed.canceled)
  | handleRead => cases Finset.notMem_empty a ha
  | reset hplace hended =>
    rw [hended.cancelingTimers] at ha
    exact .inl ha

theorem Moves.numCreated (hm : Moves q e obs q') : (e.created = none ∧ q'.numCreated = q.numCreated) ∨
    ∃ p t, e.created = some (p, t) ∧ q.Fresh p t ∧ q'.numCreated = t.sequence ∧ q'.heap p = some t ∧ obs = .nothing := by
  cases hm with
  | new hf => exact .inr ⟨_, _, rfl, hf, rfl, Function.update_self _ _ _, rfl⟩
  | addTimer hf =>
    refine .inr ⟨_, _, rfl, hf, by rw [numCreated_added]; rfl, ?_, rfl⟩
    rw [heap_added]
    exact Function.update_self _ _ _
  | addFunctor => exact .inl ⟨rfl, by rw [numCreated_added]⟩
  | queueAdd | returns | queueCancel | handleRead | run => exact .inl ⟨rfl, rfl⟩
  | cancel | cancelFunctor => exact .inl ⟨rfl, numCreated_canceled _ _⟩
  | reset hplace hended => exact .inl ⟨rfl, hended.numCreated⟩

/-- A timer that does not repeat does not outlive its batch. -/
theorem Moves.stays_ran (hm : Moves q e obs q') (ht : q.heap p = some t) (hrepeat : t.repeat_ = false)
    (hran : p ∈ q.place.ran.map Entry.timer) (hsome : q'.heap p ≠ none) : p ∈ q'.place.ran.map Entry.timer := by
  cases hm with
  | new | queueAdd | returns | queueCancel => exact hran
  | addTimer | addFunctor =>
    rw [place_added]
    exact hran
  | cancel | cancelFunctor =>
    rw [place_canceled]
    exact hran
  | handleRead hplace => simp [hplace, TimerPlace.ran] at hran
  | run hplace =>
    rw [hplace] at hran
    rw [TimerPlace.ran, List.map_append]
    exact List.mem_append_left _ hran
  | reset hplace hended =>
    have hbatch := hended.batch p (by simpa [hplace, TimerPlace.ran] using hran) t ht
    rw [if_neg (by simp [Restarts, hrepeat])] at hbatch
    exact absurd hbatch hsome

theorem Inv.next (h : Inv q) {now : Timestamp} {ran rest : List Entry} {f : Entry} (hplace : q.place = .calling now ran (f :: rest)) :
    f.timer ∉ ran.map Entry.timer := by
  have hnodup : (q.place.batch.map Entry.timer).Nodup :=
    (List.nodup_append.mp (List.nodup_append.mp h.keeps.nodup).2.1).2.1
  rw [hplace, TimerPlace.batch, List.map_append] at hnodup
  exact fun hmem => (List.nodup_append.mp hnodup).2.2 _ hmem _ List.mem_cons_self rfl

namespace Fate

theorem eq_of_heap (h : Fate labels q) {c : TimerPtr × Timer} (hc : c ∈ created labels) (ht : q.heap p = some t)
    (hseq : t.sequence = c.2.sequence) : p = c.1 ∧ t.repeat_ = c.2.repeat_ := by
  obtain ⟨t₀, hmem, hseq₀, hrepeat₀⟩ := h.made p t ht
  have heq := h.distinct (p, t₀) hmem c hc (hseq₀.trans hseq)
  subst heq
  exact ⟨rfl, hrepeat₀.symm⟩

theorem waits_of_called (h : Fate labels q) {c : TimerPtr × Timer} (hc : c ∈ created labels)
    {now : Timestamp} {ran rest : List Entry} {f : Entry} (hplace : q.place = .calling now ran (f :: rest))
    (ht : q.heap f.timer = some t) (hseq : t.sequence = c.2.sequence) : f.timer = c.1 ∧ q.Waits c.1 c.2.sequence := by
  obtain ⟨hp, -⟩ := h.eq_of_heap hc ht hseq
  refine ⟨hp, ⟨t, hp ▸ ht, hseq⟩, ?_⟩
  rw [hplace, ← hp]
  exact h.inv.next hplace

theorem waits_back (h : Fate labels q) (hm : Moves q e obs q') {c : TimerPtr × Timer} (hc : c ∈ created labels)
    (hrepeat : c.2.repeat_ = false) (hw : q'.Waits c.1 c.2.sequence) : q.Waits c.1 c.2.sequence := by
  obtain ⟨⟨t', ht', hseq⟩, hran⟩ := hw
  rcases hm.came h.inv ht' with ⟨t, ht, hseq', -⟩ | ⟨-, hfresh⟩
  · have hsame := h.eq_of_heap hc ht (hseq'.symm.trans hseq)
    exact ⟨⟨t, ht, hseq'.symm.trans hseq⟩, fun hmem =>
      hran (hm.stays_ran ht (hsame.2.trans hrepeat) hmem (by simp [ht']))⟩
  · have hle := h.numbered c hc
    have hlt := hfresh.2.2
    omega

theorem atMostOnce_step (h : Fate labels q) (hm : Moves q e obs q') {c : TimerPtr × Timer} (hc : c ∈ created labels)
    (hrepeat : c.2.repeat_ = false) : (called (labels ++ [(e, obs)])).count c.2.sequence ≤ 1 ∧
      (q'.Waits c.1 c.2.sequence → c.2.sequence ∉ called (labels ++ [(e, obs)])) := by
  obtain ⟨hcount, hnot⟩ := h.atMostOnce c hc hrepeat
  rw [called_append]
  by_cases hcalled : obs = .called c.2.sequence
  · subst hcalled
    rcases hm.ran with ⟨now, ran, rest, f, t, hplace, hplace', ht, hobs, -⟩ | ⟨hno, -⟩
    · obtain ⟨hp, hwaits⟩ := h.waits_of_called hc hplace ht (Observed.called.inj hobs).symm
      have hzero := List.count_eq_zero.mpr (hnot hwaits)
      have hone : (called [(e, Observed.called c.2.sequence)]).count c.2.sequence = 1 := by simp [called]
      refine ⟨by rw [List.count_append, hzero, hone], fun hw => ?_⟩
      refine absurd ?_ hw.2
      rw [hplace', ← hp]
      simp [TimerPlace.ran]
    · exact absurd rfl (hno _)
  · have hnone : c.2.sequence ∉ called [(e, obs)] := fun hmem => hcalled (called_one.mp hmem)
    rw [List.count_append, List.count_eq_zero.mpr hnone]
    refine ⟨hcount, fun hw hmem => ?_⟩
    rcases List.mem_append.mp hmem with hmem | hmem
    · exact hnot (h.waits_back hm hc hrepeat hw) hmem
    · exact hnone hmem

theorem once_step (h : Fate labels q) (hm : Moves q e obs q') {c : TimerPtr × Timer} (hc : c ∈ created labels)
    (hrepeat : c.2.repeat_ = false) (hnot : (c.1, c.2.sequence) ∉ cancels (labels ++ [(e, obs)])) :
    q'.Waits c.1 c.2.sequence ∨ c.2.sequence ∈ called (labels ++ [(e, obs)]) := by
  rw [cancels_append, List.mem_append, not_or] at hnot
  rw [called_append, List.mem_append]
  rcases h.once c hc hrepeat hnot.1 with ⟨⟨t, ht, hseq⟩, hran⟩ | hcalled
  · rcases hm.kept h.inv ht with ⟨t', ht', hseq', -⟩ | ⟨hcancel, -⟩ | ⟨hmem, -⟩
    · rcases hm.ran with ⟨now, ran, rest, f, u, hplace, hplace', hu, hobs, hheap⟩ | ⟨-, hran'⟩
      · by_cases hf : c.1 = f.timer
        · rw [← hf] at hu
          cases ht.symm.trans hu
          exact .inr (.inr (called_one.mpr (hseq ▸ hobs)))
        · refine .inl ⟨⟨t', ht', hseq'.trans hseq⟩, ?_⟩
          rw [hplace] at hran
          rw [hplace']
          simpa [TimerPlace.ran, hf] using hran
      · refine .inl ⟨⟨t', ht', hseq'.trans hseq⟩, ?_⟩
        rcases hran' with hran' | hran' <;> rw [hran']
        · exact hran
        · simp
    · exact absurd (cancels_one.mpr (hseq ▸ hcancel)) hnot.2
    · exact absurd hmem hran
  · exact .inr (.inl hcalled)

theorem alive_step (h : Fate labels q) (hm : Moves q e obs q') {c : TimerPtr × Timer} (hc : c ∈ created labels)
    (hrepeat : c.2.repeat_ = true) (hnot : (c.1, c.2.sequence) ∉ cancels (labels ++ [(e, obs)])) :
    ∃ t, q'.heap c.1 = some t ∧ t.sequence = c.2.sequence := by
  rw [cancels_append, List.mem_append, not_or] at hnot
  obtain ⟨t, ht, hseq⟩ := h.alive c hc hrepeat hnot.1
  rcases hm.kept h.inv ht with ⟨t', ht', hseq', -⟩ | ⟨hcancel, -⟩ | ⟨-, hstops⟩
  · exact ⟨t', ht', hseq'.trans hseq⟩
  · exact absurd (cancels_one.mpr (hseq ▸ hcancel)) hnot.2
  · have hrepeat' := (h.eq_of_heap hc ht hseq).2.trans hrepeat
    have hmem : (c.1, t.sequence) ∈ q.cancelingTimers := by
      by_contra hmem
      exact hstops ⟨hrepeat', hmem⟩
    exact absurd (h.canceling _ (hseq ▸ hmem)) hnot.1

theorem step (h : Fate labels q) (hm : Moves q e obs q') (hinv : Inv q') : Fate (labels ++ [(e, obs)]) q' := by
  have hran : ∀ s ∈ called (labels ++ [(e, obs)]), s ≤ q.numCreated := by
    intro s hs
    rw [called_append] at hs
    rcases List.mem_append.mp hs with hs | hs
    · exact h.ran s hs
    · rcases hm.ran with ⟨_, _, _, f, t, _, _, ht, hobs, -⟩ | ⟨hno, -⟩
      · cases (called_one.mp hs).symm.trans hobs
        exact h.inv.keeps.numbered _ _ ht
      · exact absurd (called_one.mp hs) (hno s)
  have hcanceling : ∀ a ∈ q'.cancelingTimers, a ∈ cancels (labels ++ [(e, obs)]) := by
    intro a ha
    rw [cancels_append]
    rcases hm.cancelingTimers ha with ha | ha
    · exact List.mem_append_left _ (h.canceling a ha)
    · exact List.mem_append_right _ (cancels_one.mpr ha)
  have hmade : ∀ p t, q'.heap p = some t →
      ∃ t₀, (p, t₀) ∈ created (labels ++ [(e, obs)]) ∧ t₀.sequence = t.sequence ∧ t₀.repeat_ = t.repeat_ := by
    intro p t ht
    rw [created_append]
    rcases hm.came h.inv ht with ⟨t', ht', hseq, hrepeat⟩ | ⟨hnew, -⟩
    · obtain ⟨t₀, hmem, hseq₀, hrepeat₀⟩ := h.made p t' ht'
      exact ⟨t₀, List.mem_append_left _ hmem, hseq₀.trans hseq.symm, hrepeat₀.trans hrepeat.symm⟩
    · exact ⟨t, List.mem_append_right _ (by simp [created, hnew]), rfl, rfl⟩
  rcases hm.numCreated with ⟨hnone, hnum⟩ | ⟨p, t, hnew, hfresh, hnum, ht, hobs⟩
  · have hcreated : created (labels ++ [(e, obs)]) = created labels := by simp [created, hnone]
    rw [hcreated] at hmade
    refine ⟨hinv, hcreated ▸ hmade, ?_, ?_, hnum ▸ hran, hcanceling, ?_, ?_, ?_⟩
    · rw [hcreated, hnum]
      exact h.numbered
    · rw [hcreated]
      exact h.distinct
    · intro c hc
      exact h.atMostOnce_step hm (hcreated ▸ hc)
    · intro c hc
      exact h.once_step hm (hcreated ▸ hc)
    · intro c hc
      exact h.alive_step hm (hcreated ▸ hc)
  · have hcreated : ∀ c, c ∈ created (labels ++ [(e, obs)]) ↔ c ∈ created labels ∨ c = (p, t) := by
      intro c
      simp [created, hnew, eq_comm]
    have hlt := hfresh.2.2
    have hnever : t.sequence ∉ called (labels ++ [(e, obs)]) := fun hmem => by
      have hle := hran _ hmem
      omega
    have hnotran : p ∉ q'.place.ran.map Entry.timer := by
      have hold : p ∉ q.place.ran.map Entry.timer := by
        intro hmem
        have hbatch : p ∈ q.place.batch.map Entry.timer := by
          cases hplace : q.place with
          | loop => simp [hplace, TimerPlace.ran] at hmem
          | calling now ran rest =>
            rw [hplace] at hmem
            rw [TimerPlace.batch, List.map_append]
            exact List.mem_append_left _ hmem
        obtain ⟨t', ht'⟩ := h.inv.allocated (owned_of_batch hbatch)
        cases hfresh.1.symm.trans ht'
      rcases hm.ran with ⟨_, _, _, _, _, _, _, _, hcalled, -⟩ | ⟨-, hran' | hran'⟩
      · cases hobs.symm.trans hcalled
      · rwa [hran']
      · simp [hran']
    refine ⟨hinv, hmade, ?_, ?_, ?_, hcanceling, ?_, ?_, ?_⟩
    · intro c hc
      rcases (hcreated c).mp hc with hc | rfl
      · have hle := h.numbered c hc
        omega
      · exact hnum.ge
    · intro c hc c' hc' hseq
      rcases (hcreated c).mp hc with hc | rfl <;> rcases (hcreated c').mp hc' with hc' | rfl
      · exact h.distinct c hc c' hc' hseq
      · exact absurd (hseq ▸ h.numbered c hc) (not_le.mpr hlt)
      · exact absurd (hseq ▸ h.numbered c' hc') (not_le.mpr hlt)
      · rfl
    · intro s hs
      have hle := hran s hs
      omega
    · intro c hc hrepeat
      rcases (hcreated c).mp hc with hc | rfl
      · exact h.atMostOnce_step hm hc hrepeat
      · exact ⟨by rw [List.count_eq_zero.mpr hnever]; omega, fun _ => hnever⟩
    · intro c hc hrepeat hnot
      rcases (hcreated c).mp hc with hc | rfl
      · exact h.once_step hm hc hrepeat hnot
      · exact .inl ⟨⟨t, ht, rfl⟩, hnotran⟩
    · intro c hc hrepeat hnot
      rcases (hcreated c).mp hc with hc | rfl
      · exact h.alive_step hm hc hrepeat hnot
      · exact ⟨t, ht, rfl⟩

theorem start (h₀ : system.start q) : Fate [] q := by
  have hinv := inv_start h₀
  obtain ⟨hheap, -, -, -, -, -, -, hcanceling, -⟩ := h₀
  refine ⟨hinv, ?_, ?_, ?_, ?_, ?_, ?_, ?_, ?_⟩
  · simp [hheap]
  · simp [created]
  · simp [created]
  · simp [called]
  · simp [hcanceling]
  all_goals simp [created]

end Fate

theorem fate_run (h₀ : system.start q₀) (hr : system.Run q₀ labels q) : Fate labels q := by
  induction hr with
  | nil => exact .start h₀
  | @snoc labels q₁ l q₂ hr hs ih =>
    obtain ⟨hm, hinv⟩ := Moves.of_step ih.inv hs
    exact ih.step hm hinv

/-- **A timer that does not repeat is called exactly once**, unless it is
cancelled: it waits, or was called and waits no longer. One that repeats stays
until it is cancelled with its own id; an id whose timer is gone cancels no
other, even at the same address. -/
theorem timers_called (h₀ : system.start q₀) (hr : system.Run q₀ labels q) (hc : (p, t) ∈ created labels) :
    (t.repeat_ = false → (called labels).count t.sequence ≤ 1) ∧
      ((p, t.sequence) ∉ cancels labels →
        (t.repeat_ = false → (q.Waits p t.sequence ↔ (called labels).count t.sequence = 0)) ∧
        (t.repeat_ = true → ∃ t', q.heap p = some t' ∧ t'.sequence = t.sequence)) := by
  have hfate := fate_run h₀ hr
  refine ⟨fun hrepeat => (hfate.atMostOnce _ hc hrepeat).1, fun hnot => ⟨fun hrepeat => ?_, fun hrepeat =>
    hfate.alive _ hc hrepeat hnot⟩⟩
  rw [List.count_eq_zero]
  constructor
  · exact (hfate.atMostOnce _ hc hrepeat).2
  · exact fun hzero => (hfate.once _ hc hrepeat hnot).resolve_right hzero

/-- The timer is called, and waits no longer. -/
theorem timers_called_one : ∃ labels q, system.Run made labels q ∧ ¬q.Waits 8 1 ∧ (called labels).count 1 ≠ 0 := by
  obtain ⟨q₁, hs₁, hplace, hheap⟩ := waiting_handleRead false nofun
  have hs₂ : system.step q₁ (.run, .called 1) { q₁ with place := .calling 5 [⟨3, 8⟩] [] } :=
    ⟨⟨_, _, _, _, hplace⟩, by simp only [exec, hplace, hheap]; rfl⟩
  have hr := ((System.Run.single waiting_step).snoc hs₁).snoc hs₂
  have hgone : ¬({ q₁ with place := .calling 5 [⟨3, 8⟩] [] } : TimerQueue).Waits 8 1 := by
    simp [Waits, TimerPlace.ran]
  have honce := ((timers_called made_start hr (p := 8) (t := alarm) List.mem_cons_self).2 (by simp [cancels])).1 rfl
  exact ⟨_, _, hr, hgone, honce.not.mp hgone⟩

/-! ## Set in time -/

/-- In a batch only what is due must have the descriptor set; its end sees to
the rest. -/
def Pressing (place : TimerPlace) (e : Entry) : Prop :=
  match place with
  | .loop => True
  | .calling now _ _ => e.expiration ≤ now

theorem Pressing.mono {place : TimerPlace} {f g : Entry} (h : Pressing place g) (hle : f.expiration ≤ g.expiration) :
    Pressing place f := by
  cases place with
  | loop => trivial
  | calling now ran rest => exact hle.trans h

structure Armed (q : TimerQueue) : Prop where
  covered : ∀ f ∈ q.timers, Pressing q.place f → q.Covered f
  positive : ∀ now ran rest, q.place = .calling now ran rest → 0 < now

theorem Armed.added (h : Armed q) (p : TimerPtr) (t : Timer) : Armed (q.added p t) := by
  refine ⟨fun f hf hpressing => ?_, fun now ran rest hplace => h.positive now ran rest (place_added q p t ▸ hplace)⟩
  rw [place_added] at hpressing
  rw [timers_added, Finset.mem_insert] at hf
  rcases begin_spec q.timers with ⟨hbegin, hempty⟩ | ⟨g, hg, hbegin, hfirst⟩
  · have hearlier : q.earlier t.expiration = true := by simp [earlier, hbegin]
    rw [TimerQueue.added, if_pos hearlier]
    rcases hf with rfl | hf
    · exact ⟨_, rfl, le_rfl⟩
    · rw [hempty] at hf
      cases Finset.notMem_empty f hf
  · by_cases hlt : t.expiration < g.expiration
    · have hearlier : q.earlier t.expiration = true := by simp [earlier, hbegin, hlt]
      rw [TimerQueue.added, if_pos hearlier]
      rcases hf with rfl | hf
      · exact ⟨_, rfl, le_rfl⟩
      · exact ⟨_, rfl, hlt.le.trans (Entry.expiration_le (hfirst f hf))⟩
    · have hearlier : ¬q.earlier t.expiration = true := by simp [earlier, hbegin, hlt]
      rw [TimerQueue.added, if_neg hearlier]
      rcases hf with rfl | hf
      · obtain ⟨d, hd, hle⟩ := h.covered g hg (hpressing.mono (not_lt.mp hlt))
        exact ⟨d, hd, hle.trans (not_lt.mp hlt)⟩
      · exact h.covered f hf hpressing

theorem Armed.canceled (h : Armed q) (a : ActiveTimer) : Armed (q.canceled a) := by
  have hless : (q.canceled a).timers ⊆ q.timers ∧ (q.canceled a).armed = q.armed := by
    unfold TimerQueue.canceled
    split
    · split
      · exact ⟨Finset.erase_subset _ _, rfl⟩
      · exact ⟨Finset.Subset.refl _, rfl⟩
    · split <;> exact ⟨Finset.Subset.refl _, rfl⟩
  refine ⟨fun f hf hpressing => ?_, fun now ran rest hplace => h.positive now ran rest (place_canceled q a ▸ hplace)⟩
  rw [place_canceled] at hpressing
  obtain ⟨d, hd, hle⟩ := h.covered f (hless.1 hf) hpressing
  exact ⟨d, hless.2.trans hd, hle⟩

theorem Armed.step (hinv : Inv q) (h : Armed q) (hm : Moves q e obs q') : Armed q' := by
  cases hm with
  | new | queueAdd | returns | queueCancel => exact ⟨h.covered, h.positive⟩
  | @addTimer p t =>
    have h' : Armed (q.alloc p t) := ⟨h.covered, h.positive⟩
    exact h'.added p t
  | cancel => exact h.canceled _
  | @addFunctor p fs t =>
    have h' : Armed { q with functors := fs } := ⟨h.covered, h.positive⟩
    exact h'.added p t
  | @cancelFunctor a fs =>
    have h' : Armed { q with functors := fs } := ⟨h.covered, h.positive⟩
    exact h'.canceled a
  | handleRead hplace hnow =>
    refine ⟨fun f hf hpressing => ?_, fun now ran rest hcalling => ?_⟩
    · obtain ⟨hmem, hle⟩ := Finset.mem_filter.mp hf
      exact absurd ((lt_sentry hinv.keeps hmem).mpr hpressing) hle.not_gt
    · cases hcalling
      exact hnow
  | run hplace =>
    refine ⟨fun f hf hpressing => h.covered f hf (by rw [hplace]; exact hpressing), fun now ran rest hcalling => ?_⟩
    cases hcalling
    exact h.positive _ _ _ hplace
  | @reset now ran q' hplace hended =>
    have hdue : ∀ f ∈ q.timers, f.expiration ≤ now → q.Covered f := fun f hf hle =>
      h.covered f hf (by rw [hplace]; exact hle)
    refine ⟨fun f hf _ => hended.covered (h.positive _ _ _ hplace) hdue f hf, fun now ran rest hcalling => ?_⟩
    rw [hended.place] at hcalling
    cases hcalling

theorem armed_invariant : system.Invariant fun q => Inv q ∧ Armed q where
  start q h₀ := by
    refine ⟨inv_start h₀, ?_, ?_⟩
    · intro f hf
      rw [h₀.2.2.2.2.1] at hf
      cases Finset.notMem_empty f hf
    · intro now ran rest hplace
      obtain ⟨-, -, -, -, -, -, -, -, -, hloop⟩ := h₀
      rw [hloop] at hplace
      cases hplace
  step _ _ _ h hs :=
    have hm := Moves.of_step h.1 hs
    ⟨hm.2, h.2.step h.1 hm.1⟩

/-- **No timer is forgotten.** In the loop the descriptor is set for the first
timer or for a time before it, and what `handleRead` then calls is all that is
due, each timer once, by time and then by address. -/
theorem always_armed (h : system.Reachable q) :
    (q.place = .loop → ∀ f ∈ q.timers, ∃ d, q.armed = some d ∧ d ≤ f.expiration) ∧
      ∀ now fired obs q', system.step q (.handleRead now fired, obs) q' → ∃ es, q'.place = .calling now [] es ∧
        (∀ f, f ∈ es ↔ f ∈ q.timers ∧ f.expiration ≤ now) ∧ es.Pairwise (· < ·) ∧
        q'.timers = q.timers.filter (now < ·.expiration) := by
  obtain ⟨hinv, harmed⟩ := armed_invariant.reachable h
  refine ⟨fun hplace f hf => harmed.covered f hf (by rw [hplace]; trivial), fun now fired obs q' hs => ?_⟩
  obtain ⟨hm, -⟩ := Moves.of_step hinv hs
  cases hm with
  | handleRead =>
    refine ⟨q.due now, rfl, fun f => mem_due hinv.keeps, (Finset.sortedLT_sort _).pairwise, ?_⟩
    refine Finset.filter_congr fun f hf => ?_
    rw [← not_lt, lt_sentry hinv.keeps hf, not_le]

theorem always_armed_one : ∃ q, system.Reachable q ∧ q.place = .loop ∧ ∃ d, q.armed = some d ∧ d ≤ 3 := by
  have hr : system.Reachable waiting := (System.Reachable.of_start made_start).step waiting_step
  have hmem : (⟨3, 8⟩ : Entry) ∈ waiting.timers := by rw [waiting_timers]; exact Finset.mem_singleton_self _
  exact ⟨waiting, hr, place_added _ _ _, (always_armed hr).1 (place_added _ _ _) _ hmem⟩

end DictionaryServer.Muduo.TimerQueue
