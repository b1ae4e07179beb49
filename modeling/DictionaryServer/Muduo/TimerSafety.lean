/-
What a step does to the timers (muduo/net/TimerQueue.cc), and which can fail.

The two sets, the loop's queue, the threads that add and the batch divide the
timers of the heap among them. A step of the queue keeps that, and so no
assertion fails and no freed timer is touched (`never_fails`). A thread whose
`addTimer` has queued its timer has no part in this division, and reads it once
more: that step alone can come too late (`read_too_late`).
-/
import DictionaryServer.Muduo.TimerQueue

namespace DictionaryServer.Muduo

open Lib

/-- The timer a functor holds. -/
def TimerFunctor.toAdd : TimerFunctor → Option TimerPtr
  | .addTimerInLoop timer => some timer
  | .cancelInLoop _ => none

namespace TimerPlace

/-- The expired entries. -/
def batch : TimerPlace → List Entry
  | .loop => []
  | .calling _ ran rest => ran ++ rest

/-- Those that were called. -/
def ran : TimerPlace → List Entry
  | .loop => []
  | .calling _ ran _ => ran

/-- Those still to call. -/
def rest : TimerPlace → List Entry
  | .loop => []
  | .calling _ _ rest => rest

def inHandleRead : TimerPlace → Bool
  | .loop => false
  | .calling _ _ _ => true

end TimerPlace

namespace TimerQueue

variable {q q' q₀ : TimerQueue} {ps : List TimerPtr} {p : TimerPtr} {t : Timer} {now : Timestamp}

/-! ## The end of a batch -/

/-- It is not deleted but inserted again. -/
def Restarts (q : TimerQueue) (p : TimerPtr) (t : Timer) : Prop :=
  t.repeat_ = true ∧ (p, t.sequence) ∉ q.cancelingTimers

instance (q : TimerQueue) (p : TimerPtr) (t : Timer) : Decidable (q.Restarts p t) := inferInstanceAs (Decidable (_ ∧ _))

/-- What `reset` makes of these entries. -/
structure Settled (now : Timestamp) (es : List Entry) (q q' : TimerQueue) : Prop where
  numCreated : q'.numCreated = q.numCreated
  adding : q'.adding = q.adding
  returning : q'.returning = q.returning
  functors : q'.functors = q.functors
  callingExpiredTimers : q'.callingExpiredTimers = q.callingExpiredTimers
  cancelingTimers : q'.cancelingTimers = q.cancelingTimers
  armed : q'.armed = q.armed
  others : ∀ p ∉ es.map Entry.timer, q'.heap p = q.heap p
  batch : ∀ p ∈ es.map Entry.timer, ∀ t, q.heap p = some t →
    q'.heap p = if q.Restarts p t then some (t.restart now) else none
  later : ∀ e ∈ q'.timers, e ∈ q.timers ∨ now ≤ e.expiration

theorem Settled.cons {q₁ : TimerQueue} {e : Entry} {es : List Entry} (h₁ : Settled now [e] q q₁)
    (h₂ : Settled now es q₁ q') (he : e.timer ∉ es.map Entry.timer) : Settled now (e :: es) q q' where
  numCreated := h₂.numCreated.trans h₁.numCreated
  adding := h₂.adding.trans h₁.adding
  returning := h₂.returning.trans h₁.returning
  functors := h₂.functors.trans h₁.functors
  callingExpiredTimers := h₂.callingExpiredTimers.trans h₁.callingExpiredTimers
  cancelingTimers := h₂.cancelingTimers.trans h₁.cancelingTimers
  armed := h₂.armed.trans h₁.armed
  others p hp := by
    rw [List.map_cons, List.mem_cons, not_or] at hp
    rw [h₂.others p hp.2, h₁.others p (by simpa using hp.1)]
  batch p hp t ht := by
    rw [List.map_cons, List.mem_cons] at hp
    rcases hp with rfl | hp
    · rw [h₂.others _ he, h₁.batch _ (by simp) t ht]
    · have hne : p ∉ [e].map Entry.timer := fun heq => he (List.mem_singleton.mp heq ▸ hp)
      have hiff : q₁.Restarts p t ↔ q.Restarts p t := by rw [Restarts, Restarts, h₁.cancelingTimers]
      rw [h₂.batch p hp t ((h₁.others p hne).trans ht)]
      exact if_congr hiff rfl rfl
  later f hf := by
    rcases h₂.later f hf with hf | hle
    · exact h₁.later f hf
    · exact .inr hle

theorem resetOne_settled (now : Timestamp) {e : Entry} (h : q.Keeps (e.timer :: ps)) : ∃ q', q.resetOne now e = some q' ∧
    q'.Keeps ps ∧ Settled now [e] q q' := by
  obtain ⟨t, ht⟩ := Option.isSome_iff_exists.mp ((h.owner e.timer).mpr (.inl List.mem_cons_self))
  by_cases hrestarts : q.Restarts e.timer t
  · have hmoved : ({ q with heap := Function.update q.heap e.timer (some (t.restart now)) } : TimerQueue).Keeps
        (e.timer :: ps) := h.update ht rfl
    have hat : ({ q with heap := Function.update q.heap e.timer (some (t.restart now)) } : TimerQueue).heap e.timer =
        some (t.restart now) := Function.update_self _ _ _
    refine ⟨({ q with heap := Function.update q.heap e.timer (some (t.restart now)) } : TimerQueue).inserted e.timer
      (t.restart now), ?_, hmoved.insert hat, rfl, rfl, rfl, rfl, rfl, rfl, rfl, ?_, ?_, ?_⟩
    · rw [resetOne, ht]
      refine (if_pos hrestarts).trans ?_
      rw [insert_eq hmoved hat]
      rfl
    · intro p hp
      exact Function.update_of_ne (by simpa using hp) _ _
    · intro p hp t' ht'
      obtain rfl : p = e.timer := by simpa using hp
      cases ht.symm.trans ht'
      rw [if_pos hrestarts]
      exact hat
    · intro f hf
      rcases Finset.mem_insert.mp hf with rfl | hf
      · refine .inr ?_
        have hle := t.interval_nonneg hrestarts.1
        have hexp : (t.restart now).expiration = now + t.interval := by simp [Timer.restart, hrestarts.1]
        show now ≤ (t.restart now).expiration
        rw [hexp]
        exact Int.le_add_of_nonneg_right hle
      · exact .inl hf
  · refine ⟨{ q with heap := Function.update q.heap e.timer none }, ?_, h.delete, rfl, rfl, rfl, rfl, rfl, rfl, rfl, ?_, ?_,
      fun f hf => .inl hf⟩
    · rw [resetOne, ht]
      exact (if_neg hrestarts).trans (delete_eq h)
    · intro p hp
      exact Function.update_of_ne (by simpa using hp) _ _
    · intro p hp t' ht'
      obtain rfl : p = e.timer := by simpa using hp
      cases ht.symm.trans ht'
      rw [if_neg hrestarts]
      exact Function.update_self _ _ _

theorem resetAll_settled (now : Timestamp) {es : List Entry} (h : q.Keeps (es.map Entry.timer ++ ps)) :
    ∃ q', es.foldlM (resetOne now) q = some q' ∧ q'.Keeps ps ∧ Settled now es q q' := by
  induction es generalizing q with
  | nil =>
    exact ⟨q, rfl, h, rfl, rfl, rfl, rfl, rfl, rfl, rfl, fun _ _ => rfl, by simp, fun e he => .inl he⟩
  | cons e es ih =>
    obtain ⟨q₁, hone, hkeeps₁, hsettled₁⟩ := resetOne_settled now h
    obtain ⟨q', hloop, hkeeps, hsettled⟩ := ih hkeeps₁
    have hne : e.timer ∉ es.map Entry.timer := fun hmem =>
      (List.nodup_cons.mp h.nodup).1 (List.mem_append_left _ hmem)
    exact ⟨q', by rw [List.foldlM_cons, hone]; exact hloop, hkeeps, hsettled₁.cons hsettled hne⟩

/-- Every entry has the descriptor set for its time, or for an earlier one. -/
def Covered (q : TimerQueue) (e : Entry) : Prop := ∃ d, q.armed = some d ∧ d ≤ e.expiration

theorem rearm_eq (h : q.Keeps ps) : ∃ armed, q.rearm = some { q with armed := armed } ∧
    ((∀ e ∈ q.timers, e.expiration ≤ 0 → q.Covered e) →
      ∀ e ∈ q.timers, ({ q with armed := armed } : TimerQueue).Covered e) := by
  rcases begin_spec q.timers with ⟨hbegin, hempty⟩ | ⟨e, he, hbegin, hfirst⟩
  · refine ⟨q.armed, by rw [rearm, hbegin], fun _ e he => ?_⟩
    rw [hempty] at he
    cases he
  · obtain ⟨t, ht, hexp, -⟩ := h.listed e he
    by_cases hvalid : 0 < e.expiration
    · refine ⟨some e.expiration, ?_, fun _ f hf => ⟨_, rfl, Entry.expiration_le (hfirst f hf)⟩⟩
      simp [rearm, hbegin, ht, hexp, hvalid, resetTimerfd]
    · refine ⟨q.armed, ?_, fun hcovered f hf => ?_⟩
      · simp [rearm, hbegin, ht, hexp, hvalid]
      · obtain ⟨d, hd, hle⟩ := hcovered e he (not_lt.mp hvalid)
        exact ⟨d, hd, hle.trans (Entry.expiration_le (hfirst f hf))⟩

/-- What the end of `handleRead` makes of the queue. -/
structure Ended (now : Timestamp) (ran : List Entry) (q q' : TimerQueue) : Prop where
  place : q'.place = .loop
  callingExpiredTimers : q'.callingExpiredTimers = false
  numCreated : q'.numCreated = q.numCreated
  adding : q'.adding = q.adding
  returning : q'.returning = q.returning
  functors : q'.functors = q.functors
  cancelingTimers : q'.cancelingTimers = q.cancelingTimers
  others : ∀ p ∉ ran.map Entry.timer, q'.heap p = q.heap p
  batch : ∀ p ∈ ran.map Entry.timer, ∀ t, q.heap p = some t →
    q'.heap p = if q.Restarts p t then some (t.restart now) else none
  covered : 0 < now → (∀ e ∈ q.timers, e.expiration ≤ now → q.Covered e) → ∀ e ∈ q'.timers, q'.Covered e

theorem reset_ended (now : Timestamp) {ran : List Entry} (h : q.Keeps (ran.map Entry.timer ++ ps)) :
    ∃ q', q.reset ran now = some q' ∧ q'.Keeps ps ∧ Ended now ran q q' := by
  have h' : ({ q with callingExpiredTimers := false } : TimerQueue).Keeps (ran.map Entry.timer ++ ps) := h
  obtain ⟨q₁, hloop, hkeeps, hs⟩ := resetAll_settled now h'
  obtain ⟨armed, hrearm, hcovered⟩ := rearm_eq hkeeps
  refine ⟨{ q₁ with armed := armed, place := .loop }, ?_, hkeeps, rfl, hs.callingExpiredTimers, hs.numCreated, hs.adding,
    hs.returning, hs.functors, hs.cancelingTimers, hs.others, hs.batch, ?_⟩
  · rw [reset, hloop]
    simp only [Option.bind_eq_bind, Option.bind_some, hrearm]
    rfl
  · intro hnow hdue e he
    refine hcovered (fun f hf hinvalid => ?_) e he
    rcases hs.later f hf with hf | hle
    · obtain ⟨d, hd, hle⟩ := hdue f hf (hinvalid.trans hnow.le)
      exact ⟨d, hs.armed.trans hd, hle⟩
    · exact absurd (hnow.trans_le (hle.trans hinvalid)) (lt_irrefl _)

/-! ## What a step does -/

/-- `addTimerInLoop` -/
def added (q : TimerQueue) (p : TimerPtr) (t : Timer) : TimerQueue :=
  if q.earlier t.expiration then (q.inserted p t).resetTimerfd t.expiration else q.inserted p t

/-- `cancelInLoop` -/
def canceled (q : TimerQueue) (a : ActiveTimer) : TimerQueue :=
  if a ∈ q.activeTimers then
    match q.heap a.1 with
    | some t => q.removed a.1 t
    | none => q
  else if q.callingExpiredTimers then { q with cancelingTimers := Insert.insert a q.cancelingTimers } else q

theorem added_frame (q : TimerQueue) (p : TimerPtr) (t : Timer) :
    (q.added p t).heap = q.heap ∧ (q.added p t).numCreated = q.numCreated ∧ (q.added p t).adding = q.adding ∧
      (q.added p t).functors = q.functors ∧ (q.added p t).callingExpiredTimers = q.callingExpiredTimers ∧
      (q.added p t).cancelingTimers = q.cancelingTimers ∧ (q.added p t).place = q.place ∧
      (q.added p t).timers = Insert.insert ⟨t.expiration, p⟩ q.timers ∧
      (q.added p t).activeTimers = Insert.insert (p, t.sequence) q.activeTimers := by
  unfold added
  split <;> exact ⟨rfl, rfl, rfl, rfl, rfl, rfl, rfl, rfl, rfl⟩

@[simp] theorem heap_added (q : TimerQueue) (p : TimerPtr) (t : Timer) : (q.added p t).heap = q.heap :=
  (added_frame q p t).1

@[simp] theorem numCreated_added (q : TimerQueue) (p : TimerPtr) (t : Timer) : (q.added p t).numCreated = q.numCreated :=
  (added_frame q p t).2.1

@[simp] theorem place_added (q : TimerQueue) (p : TimerPtr) (t : Timer) : (q.added p t).place = q.place :=
  (added_frame q p t).2.2.2.2.2.2.1

@[simp] theorem cancelingTimers_added (q : TimerQueue) (p : TimerPtr) (t : Timer) :
    (q.added p t).cancelingTimers = q.cancelingTimers :=
  (added_frame q p t).2.2.2.2.2.1

@[simp] theorem timers_added (q : TimerQueue) (p : TimerPtr) (t : Timer) :
    (q.added p t).timers = Insert.insert ⟨t.expiration, p⟩ q.timers :=
  (added_frame q p t).2.2.2.2.2.2.2.1

theorem added_keeps (h : q.Keeps (p :: ps)) (ht : q.heap p = some t) : (q.added p t).Keeps ps := by
  obtain ⟨hheap, hnum, -, -, -, -, -, htimers, hactive⟩ := added_frame q p t
  rw [Keeps, hheap, hnum, htimers, hactive]
  exact h.insert ht

theorem cancelInLoop_eq {a : ActiveTimer} (h : q.Keeps ps) :
    q.cancelInLoop a = some (q.canceled a) ∧ (q.canceled a).Keeps ps := by
  by_cases ha : a ∈ q.activeTimers
  · obtain ⟨t, ht, -, hcancel, hkeeps⟩ := cancelInLoop_active h (show (a.1, a.2) ∈ q.activeTimers from ha)
    have heq : q.canceled a = q.removed a.1 t := by simp [canceled, ha, ht]
    exact ⟨heq ▸ hcancel, heq ▸ hkeeps⟩
  · rw [cancelInLoop_other h ha]
    cases hcalling : q.callingExpiredTimers
    · have heq : q.canceled a = q := by simp [canceled, ha, hcalling]
      rw [heq]
      exact ⟨rfl, h⟩
    · have heq : q.canceled a = { q with cancelingTimers := Insert.insert a q.cancelingTimers } := by
        simp [canceled, ha, hcalling]
      rw [heq, if_pos rfl]
      exact ⟨by rw [hcalling], h⟩

/-- `handleRead`, up to its loop. -/
def alarmed (q : TimerQueue) (now : Timestamp) (fired : Bool) (activeTimers : Finset ActiveTimer) : TimerQueue :=
  { q with
    armed := if fired then none else q.armed
    timers := q.timers.filter (⟨now, UINTPTR_MAX⟩ ≤ ·)
    activeTimers := activeTimers
    callingExpiredTimers := true
    cancelingTimers := ∅
    place := .calling now [] (q.due now) }

/-- The timer of this id has not been deleted. -/
def Holds (q : TimerQueue) (a : ActiveTimer) : Prop := ∃ t, q.heap a.1 = some t ∧ t.sequence = a.2

theorem exec_returns (q : TimerQueue) (a : ActiveTimer) : (q.exec (.returns a)).isSome ↔ q.Holds a := by
  rcases ht : q.heap a.1 with _ | t
  · simp [exec, Holds, ht]
  · by_cases hseq : t.sequence = a.2 <;> simp [exec, Holds, guard, ht, hseq]

/-- All that a step does. -/
inductive Moves (q : TimerQueue) : Event → Observed → TimerQueue → Prop
  | new {p : TimerPtr} {t : Timer} (hfresh : q.Fresh p t) : Moves q (.new p t) .nothing { q.alloc p t with adding := p :: q.adding }
  | queueAdd {p : TimerPtr} {t : Timer} (hadding : p ∈ q.adding) (ht : q.heap p = some t) : Moves q (.queueAdd p) .nothing
      { q with
        adding := q.adding.erase p, functors := q.functors ++ [.addTimerInLoop p]
        returning := (p, t.sequence) :: q.returning }
  | returns {a : ActiveTimer} (hreturning : a ∈ q.returning) (hholds : q.Holds a) :
      Moves q (.returns a) .nothing { q with returning := q.returning.erase a }
  | addTimer {p : TimerPtr} {t : Timer} (hfresh : q.Fresh p t) (hcall : q.CanCall) : Moves q (.addTimer p t) .nothing ((q.alloc p t).added p t)
  | queueCancel {a : ActiveTimer} : Moves q (.queueCancel a) .nothing { q with functors := q.functors ++ [.cancelInLoop a] }
  | cancel {a : ActiveTimer} (hcall : q.CanCall) : Moves q (.cancel a) (.canceled a) (q.canceled a)
  | addFunctor {p : TimerPtr} {fs : List TimerFunctor} {t : Timer} (hplace : q.place = .loop) (hfunctors : q.functors = .addTimerInLoop p :: fs)
      (ht : q.heap p = some t) : Moves q .functor .nothing ({ q with functors := fs }.added p t)
  | cancelFunctor {a : ActiveTimer} {fs : List TimerFunctor} (hplace : q.place = .loop) (hfunctors : q.functors = .cancelInLoop a :: fs) :
      Moves q .functor (.canceled a) ({ q with functors := fs }.canceled a)
  | handleRead {now : Timestamp} {fired : Bool} {activeTimers : Finset ActiveTimer} (hplace : q.place = .loop) (hnow : 0 < now) :
      Moves q (.handleRead now fired) .nothing (q.alarmed now fired activeTimers)
  | run {now : Timestamp} {ran rest : List Entry} {e : Entry} {t : Timer} (hplace : q.place = .calling now ran (e :: rest)) (ht : q.heap e.timer = some t) :
      Moves q .run (.called t.sequence) { q with place := .calling now (ran ++ [e]) rest }
  | reset {now : Timestamp} {ran : List Entry} {q' : TimerQueue} (hplace : q.place = .calling now ran []) (hended : Ended now ran q q') :
      Moves q .reset .nothing q'

/-- The timers that are in neither set. -/
def owned (q : TimerQueue) : List TimerPtr :=
  q.adding ++ (q.functors.filterMap TimerFunctor.toAdd ++ q.place.batch.map Entry.timer)

theorem owned_of_batch (hp : p ∈ q.place.batch.map Entry.timer) : p ∈ q.owned :=
  List.mem_append_right _ (List.mem_append_right _ hp)

/-- The timers on the heap are those of the two sets and the owned ones, each in
one place, and `callingExpiredTimers_` says whether `handleRead` is running. -/
structure Inv (q : TimerQueue) : Prop where
  keeps : q.Keeps q.owned
  calling : q.callingExpiredTimers = q.place.inHandleRead

theorem owned_canceled (q : TimerQueue) (a : ActiveTimer) : (q.canceled a).owned = q.owned ∧
    (q.canceled a).callingExpiredTimers = q.callingExpiredTimers ∧ (q.canceled a).place = q.place := by
  unfold canceled
  split
  · split <;> exact ⟨rfl, rfl, rfl⟩
  · split <;> exact ⟨rfl, rfl, rfl⟩

theorem returning_added (q : TimerQueue) (p : TimerPtr) (t : Timer) : (q.added p t).returning = q.returning := by
  unfold added
  split <;> rfl

theorem owned_added (q : TimerQueue) (p : TimerPtr) (t : Timer) : (q.added p t).owned = q.owned := by
  obtain ⟨-, -, hadding, hfunctors, -, -, hplace, -⟩ := added_frame q p t
  rw [owned, hadding, hfunctors, hplace, owned]

@[simp] theorem place_canceled (q : TimerQueue) (a : ActiveTimer) : (q.canceled a).place = q.place :=
  (owned_canceled q a).2.2

theorem Inv.canceled (h : Inv q) (a : ActiveTimer) : q.cancelInLoop a = some (q.canceled a) ∧ Inv (q.canceled a) := by
  obtain ⟨hcancel, hkeeps⟩ := cancelInLoop_eq (a := a) h.keeps
  obtain ⟨howned, hcalling, hplace⟩ := owned_canceled q a
  exact ⟨hcancel, howned ▸ hkeeps, by rw [hcalling, hplace, h.calling]⟩

theorem Inv.functor (h : Inv q) {a : ActiveTimer} {fs : List TimerFunctor} (hfunctors : q.functors = .cancelInLoop a :: fs) :
    Inv { q with functors := fs } := by
  have howned : ({ q with functors := fs } : TimerQueue).owned = q.owned := by
    simp only [owned, hfunctors]
    rfl
  exact ⟨howned ▸ h.keeps, h.calling⟩

/-- **Every step the queue can take succeeds**, if what `addTimer` reads at its
end is still there. -/
theorem exec_moves (h : Inv q) {e : Event} (he : q.Enabled e) (hread : ∀ a, e = .returns a → q.Holds a) :
    ∃ q' obs, q.exec e = some (q', obs) ∧ Moves q e obs q' ∧ Inv q' := by
  cases e with
  | new p t =>
    have hkeeps := h.keeps.new he.1 he.2.1 he.2.2
    exact ⟨_, _, rfl, .new he, hkeeps, h.calling⟩
  | queueAdd p =>
    have hmem : p ∈ q.owned := List.mem_append_left _ he
    obtain ⟨t, ht⟩ := Option.isSome_iff_exists.mp ((h.keeps.owner p).mpr (.inl hmem))
    have hperm : q.owned.Perm ({ q with
        adding := q.adding.erase p, functors := q.functors ++ [.addTimerInLoop p]
        returning := (p, t.sequence) :: q.returning } : TimerQueue).owned := by
      simp only [owned, List.filterMap_append, List.append_assoc]
      refine ((List.perm_cons_erase he).append_right _).trans (List.perm_middle.symm.trans ?_)
      exact List.Perm.append_left _ List.perm_middle.symm
    exact ⟨_, .nothing, by simp only [exec, ht]; rfl, .queueAdd he ht, h.keeps.perm hperm, h.calling⟩
  | returns a =>
    obtain ⟨t, ht, hseq⟩ := hread a rfl
    exact ⟨_, .nothing, by simp [exec, guard, ht, hseq], .returns he ⟨t, ht, hseq⟩, h.keeps, h.calling⟩
  | addTimer p t =>
    obtain ⟨hfresh, hcall⟩ := he
    have hkeeps : (q.alloc p t).Keeps (p :: q.owned) := h.keeps.new hfresh.1 hfresh.2.1 hfresh.2.2
    have ht : (q.alloc p t).heap p = some t := Function.update_self _ _ _
    refine ⟨(q.alloc p t).added p t, .nothing, ?_, .addTimer hfresh hcall, ?_, ?_⟩
    · simp only [exec, addTimerInLoop_eq hkeeps ht]
      rfl
    · rw [owned_added]
      exact added_keeps hkeeps ht
    · obtain ⟨-, -, -, -, hcalling, -, hplace, -⟩ := added_frame (q.alloc p t) p t
      rw [hcalling, hplace]
      exact h.calling
  | queueCancel a =>
    have howned : ({ q with functors := q.functors ++ [.cancelInLoop a] } : TimerQueue).owned = q.owned := by
      simp [owned, TimerFunctor.toAdd]
    exact ⟨_, _, rfl, .queueCancel, howned ▸ h.keeps, h.calling⟩
  | cancel a =>
    obtain ⟨hcancel, hinv⟩ := h.canceled a
    exact ⟨_, _, by simp only [exec, hcancel]; rfl, .cancel he, hinv⟩
  | functor =>
    obtain ⟨hplace, hne⟩ := he
    obtain ⟨f, fs, hfunctors⟩ := List.exists_cons_of_ne_nil hne
    cases f with
    | addTimerInLoop p =>
      have hperm : q.owned.Perm (p :: ({ q with functors := fs } : TimerQueue).owned) := by
        simp only [owned, hfunctors]
        exact List.perm_middle
      have hkeeps : ({ q with functors := fs } : TimerQueue).Keeps (p :: ({ q with functors := fs } : TimerQueue).owned) :=
        h.keeps.perm hperm
      obtain ⟨t, ht⟩ := Option.isSome_iff_exists.mp ((hkeeps.owner p).mpr (.inl List.mem_cons_self))
      refine ⟨({ q with functors := fs } : TimerQueue).added p t, .nothing, ?_, .addFunctor hplace hfunctors ht, ?_, ?_⟩
      · simp only [exec, hfunctors, addTimerInLoop_eq hkeeps ht]
        rfl
      · rw [owned_added]
        exact added_keeps hkeeps ht
      · obtain ⟨-, -, -, -, hcalling, -, hplace', -⟩ := added_frame { q with functors := fs } p t
        rw [hcalling, hplace']
        exact h.calling
    | cancelInLoop a =>
      obtain ⟨hcancel, hinv⟩ := (h.functor hfunctors).canceled a
      exact ⟨_, .canceled a, by simp only [exec, hfunctors, hcancel]; rfl, .cancelFunctor hplace hfunctors, hinv⟩
  | handleRead now fired =>
    obtain ⟨hplace, hnow, -⟩ := he
    have hkeeps : ({ q with armed := if fired then none else q.armed } : TimerQueue).Keeps q.owned := h.keeps
    obtain ⟨activeTimers, hexpired, hbooks⟩ := getExpired_eq hkeeps now
    refine ⟨q.alarmed now fired activeTimers, .nothing, ?_, .handleRead hplace hnow, ?_, rfl⟩
    · simp only [exec, TimerQueue.handleRead, hexpired]
      rfl
    · refine hbooks.perm ?_
      simp only [owned, hplace, TimerPlace.batch, List.map_nil, List.append_nil]
      exact List.perm_append_comm.trans (by rw [List.append_assoc]; rfl)
  | run =>
    obtain ⟨now, ran, e, rest, hplace⟩ := he
    have hmem : e.timer ∈ q.owned := owned_of_batch (by simp [hplace, TimerPlace.batch])
    obtain ⟨t, ht⟩ := Option.isSome_iff_exists.mp ((h.keeps.owner e.timer).mpr (.inl hmem))
    have howned : ({ q with place := .calling now (ran ++ [e]) rest } : TimerQueue).owned = q.owned := by
      simp [owned, hplace, TimerPlace.batch]
    refine ⟨_, .called t.sequence, ?_, .run hplace ht, howned ▸ h.keeps, ?_⟩
    · simp only [exec, hplace, ht]
      rfl
    · rw [h.calling, hplace]
      rfl
  | reset =>
    obtain ⟨now, ran, hplace⟩ := he
    have hperm : q.owned.Perm (ran.map Entry.timer ++ (q.adding ++ q.functors.filterMap TimerFunctor.toAdd)) := by
      simp only [owned, hplace, TimerPlace.batch, List.append_nil, ← List.append_assoc]
      exact List.perm_append_comm.trans (by rw [List.append_assoc])
    obtain ⟨q', hreset, hkeeps, hended⟩ := reset_ended now (h.keeps.perm hperm)
    refine ⟨q', .nothing, ?_, .reset hplace hended, ?_, ?_⟩
    · simp only [exec, hplace, hreset]
      rfl
    · have howned : q'.owned = q.adding ++ q.functors.filterMap TimerFunctor.toAdd := by
        simp [owned, hended.adding, hended.functors, hended.place, TimerPlace.batch]
      exact howned ▸ hkeeps
    · rw [hended.callingExpiredTimers, hended.place]
      rfl

theorem Inv.allocated (h : Inv q) (hp : p ∈ q.owned) : ∃ t, q.heap p = some t :=
  Option.isSome_iff_exists.mp ((h.keeps.owner p).mpr (.inl hp))

theorem Moves.of_step (h : Inv q) {l : Event × Observed} (hs : system.step q l q') : Moves q l.1 l.2 q' ∧ Inv q' := by
  have hread : ∀ a, l.1 = .returns a → q.Holds a := by
    intro a ha
    rw [← exec_returns, ← ha, hs.2]
    rfl
  obtain ⟨q₁, obs, hexec, hmoves, hinv⟩ := exec_moves h hs.1 hread
  cases hexec.symm.trans hs.2
  exact ⟨hmoves, hinv⟩

theorem inv_start (h₀ : system.start q) : Inv q := by
  obtain ⟨hheap, hadding, -, hfunctors, htimers, hactive, hcalling, -, -, hplace⟩ := h₀
  refine ⟨⟨?_, ?_, ?_, ?_, ?_, ?_, ?_, ?_⟩, by rw [hcalling, hplace]; rfl⟩
  · simp [htimers]
  · simp [hactive]
  · simp [hheap, owned, hadding, hfunctors, hplace, TimerPlace.batch, htimers]
  · simp [owned, hadding, hfunctors, hplace, TimerPlace.batch]
  · simp [htimers]
  · simp [hheap]
  · simp [hheap]
  · simp [hheap]

theorem inv_invariant : system.Invariant Inv where
  start _ := inv_start
  step _ _ _ h hs := (Moves.of_step h hs).2

/-- **No assertion fails, and no freed timer is read or freed again**, but for
what `addTimer` reads at its end: that fails exactly if the timer it has queued
was deleted since. The two sets hold the same timers, and every timer on the
heap is in them or in exactly one other place: with a thread that has not queued
it yet, in the loop's queue, or in the batch. -/
theorem never_fails (h : system.Reachable q) :
    (∀ e, q.Enabled e → ((q.exec e).isSome ↔ ∀ a, e = .returns a → q.Holds a)) ∧
      (∀ p, (q.heap p).isSome ↔ p ∈ q.owned ∨ ∃ e ∈ q.timers, e.timer = p) ∧
      q.owned.Nodup ∧ (∀ e ∈ q.timers, e.timer ∉ q.owned) ∧
      ∀ p t, q.heap p = some t → (⟨t.expiration, p⟩ ∈ q.timers ↔ (p, t.sequence) ∈ q.activeTimers) := by
  have hinv := inv_invariant.reachable h
  refine ⟨fun e he => ⟨fun hsome a ha => ?_, fun hread => ?_⟩, hinv.keeps.owner, hinv.keeps.nodup, hinv.keeps.apart,
    fun p t ht => ⟨fun he => ?_, fun ha => ?_⟩⟩
  · exact (exec_returns q a).mp (ha ▸ hsome)
  · obtain ⟨q', obs, hexec, -⟩ := exec_moves hinv he hread
    rw [hexec]
    rfl
  · obtain ⟨t', ht', -, hactive⟩ := hinv.keeps.listed _ he
    cases ht.symm.trans ht'
    exact hactive
  · obtain ⟨t', ht', -, hlisted⟩ := hinv.keeps.active _ ha
    cases ht.symm.trans ht'
    exact hlisted

/-! ## Runs of one timer -/

/-- A queue as it is made. -/
def made : TimerQueue where
  heap _ := none
  numCreated := 0
  adding := []
  returning := []
  functors := []
  timers := ∅
  activeTimers := ∅
  callingExpiredTimers := false
  cancelingTimers := ∅
  armed := none
  place := .loop

theorem made_start : system.start made := ⟨fun _ => rfl, rfl, rfl, rfl, rfl, rfl, rfl, rfl, rfl, rfl⟩

/-- The first timer, for the time 3. -/
def alarm : Timer := ⟨3, 0, false, 1, fun h => by cases h⟩

theorem fresh_alarm : made.Fresh 8 alarm := ⟨rfl, by decide, by decide⟩

/-- The timer is at the address 8 and is inserted. -/
def waiting : TimerQueue := (made.alloc 8 alarm).added 8 alarm

theorem waiting_step : system.step made (.addTimer 8 alarm, .nothing) waiting := by
  have hkeeps : (made.alloc 8 alarm).Keeps (8 :: []) :=
    (inv_start made_start).keeps.new fresh_alarm.1 fresh_alarm.2.1 fresh_alarm.2.2
  have hheap : (made.alloc 8 alarm).heap 8 = some alarm := rfl
  refine ⟨⟨fresh_alarm, trivial⟩, ?_⟩
  simp only [exec, addTimerInLoop_eq hkeeps hheap]
  rfl

theorem waiting_inv : Inv waiting := (Moves.of_step (inv_start made_start) waiting_step).2

theorem waiting_timers : waiting.timers = {⟨3, 8⟩} := by
  rw [waiting, timers_added]
  rfl

/-- The batch with the timer in it. -/
theorem alarm_handleRead (h : Inv q) (hplace : q.place = .loop) (htimers : q.timers = {⟨3, 8⟩})
    (hheap : q.heap 8 = some alarm) (fired : Bool) (hfired : fired = true → q.armed.isSome) :
    ∃ q', system.step q (.handleRead 5 fired, .nothing) q' ∧ q'.place = .calling 5 [] [⟨3, 8⟩] ∧
      q'.heap 8 = some alarm ∧ q'.returning = q.returning := by
  have he : q.Enabled (.handleRead 5 fired) := ⟨hplace, by decide, hfired⟩
  obtain ⟨q', obs, hexec, hm, -⟩ := exec_moves h he nofun
  cases hm with
  | handleRead =>
    have hdue : q.due 5 = [⟨3, 8⟩] := by
      rw [due, htimers, Finset.filter_singleton]
      exact Finset.sort_singleton _ _
    exact ⟨_, ⟨he, hexec⟩, by rw [← hdue]; rfl, hheap, rfl⟩

theorem waiting_handleRead (fired : Bool) (hfired : fired = true → waiting.armed.isSome) :
    ∃ q, system.step waiting (.handleRead 5 fired, .nothing) q ∧ q.place = .calling 5 [] [⟨3, 8⟩] ∧
      q.heap 8 = some alarm := by
  have hheap : waiting.heap 8 = some alarm := by
    rw [waiting, heap_added]
    rfl
  obtain ⟨q, hs, hplace, hheap', -⟩ :=
    alarm_handleRead waiting_inv (place_added _ _ _) waiting_timers hheap fired hfired
  exact ⟨q, hs, hplace, hheap'⟩

theorem never_fails_one : system.Reachable waiting ∧ (waiting.heap 8).isSome ∧
    (waiting.exec (.handleRead 5 false)).isSome := by
  have hr : system.Reachable waiting := (System.Reachable.of_start made_start).step waiting_step
  refine ⟨hr, by rw [waiting, heap_added]; rfl, ?_⟩
  have he : waiting.Enabled (.handleRead 5 false) := ⟨place_added _ _ _, by decide, nofun⟩
  exact ((never_fails hr).1 _ he).mpr nofun

/-- Another thread has made the timer and queued it. -/
def queued : TimerQueue :=
  { made.alloc 8 alarm with functors := [.addTimerInLoop 8], returning := [(8, 1)] }

theorem queued_run : system.Run made [(.new 8 alarm, .nothing), (.queueAdd 8, .nothing)] queued := by
  have hs₁ : system.step made (.new 8 alarm, .nothing) { made.alloc 8 alarm with adding := [8] } := ⟨fresh_alarm, rfl⟩
  have hs₂ : system.step { made.alloc 8 alarm with adding := [8] } (.queueAdd 8, .nothing) queued :=
    ⟨List.mem_singleton_self 8, rfl⟩
  exact (System.Run.single hs₁).snoc hs₂

/-- **`addTimer` may return too late**: another thread has made the timer and
queued it, and before it reads the number the loop inserts the timer, calls it
and deletes it. -/
theorem read_too_late : ∃ q, system.Reachable q ∧ q.Enabled (.returns (8, 1)) ∧ q.exec (.returns (8, 1)) = none := by
  have hr₂ : system.Reachable queued := ⟨_, _, made_start, queued_run⟩
  have hfunctor : queued.Enabled .functor := ⟨rfl, List.cons_ne_nil _ _⟩
  -- The loop inserts it.
  obtain ⟨q₃, obs₃, hexec₃, hm₃, hinv₃⟩ := exec_moves (inv_invariant.reachable hr₂) hfunctor nofun
  obtain ⟨hplace₃, htimers₃, hheap₃, hreturning₃⟩ : q₃.place = .loop ∧ q₃.timers = {⟨3, 8⟩} ∧
      q₃.heap 8 = some alarm ∧ q₃.returning = [(8, 1)] := by
    cases hm₃ with
    | addFunctor hplace hfunctors ht =>
      cases hfunctors
      cases ht
      refine ⟨(place_added _ _ _).trans hplace, ?_, ?_, ?_⟩
      · rw [timers_added]
        rfl
      · rw [heap_added]
        rfl
      · rw [returning_added]
        rfl
    | cancelFunctor hplace hfunctors => cases hfunctors
  have hr₃ := hr₂.step (a := (.functor, obs₃)) ⟨hfunctor, hexec₃⟩
  -- It calls it.
  obtain ⟨q₄, hs₄, hplace₄, hheap₄, hreturning₄⟩ := alarm_handleRead hinv₃ hplace₃ htimers₃ hheap₃ false nofun
  have hs₅ : system.step q₄ (.run, .called 1) { q₄ with place := .calling 5 [⟨3, 8⟩] [] } :=
    ⟨⟨_, _, _, _, hplace₄⟩, by simp only [exec, hplace₄, hheap₄]; rfl⟩
  have hr₅ := (hr₃.step hs₄).step hs₅
  -- It deletes it.
  have hreset : ({ q₄ with place := .calling 5 [⟨3, 8⟩] [] } : TimerQueue).Enabled .reset := ⟨_, _, rfl⟩
  obtain ⟨q₆, obs₆, hexec₆, hm₆, -⟩ := exec_moves (inv_invariant.reachable hr₅) hreset nofun
  refine ⟨q₆, hr₅.step (a := (.reset, obs₆)) ⟨hreset, hexec₆⟩, ?_⟩
  cases hm₆ with
  | reset hplace hended =>
    cases hplace
    have hgone : q₆.heap 8 = none := hended.batch 8 List.mem_cons_self alarm hheap₄
    refine ⟨?_, by simp [exec, hgone]⟩
    show (8, 1) ∈ q₆.returning
    rw [hended.returning]
    show (8, 1) ∈ q₄.returning
    rw [hreturning₄, hreturning₃]
    exact List.mem_singleton_self _

end TimerQueue
end DictionaryServer.Muduo
