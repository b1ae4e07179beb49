/-
What a cancel does to a timer in every run (muduo/net/TimerQueue.cc).

A cancelled timer is called at most once more, in the batch it was in
(`cancel_stops`), if the cancel finds it inserted. `cancel_lost` shows what
becomes of a cancel that comes before.
-/
import DictionaryServer.Muduo.TimerRuns

namespace DictionaryServer.Muduo.TimerQueue

open Lib

variable {q q' q₀ : TimerQueue} {e : Event} {obs : Observed} {p : TimerPtr} {t : Timer} {s : Nat}
  {labels : List (Event × Observed)}

/-- No timer has this number, and none will. -/
def Gone (q : TimerQueue) (s : Nat) : Prop := s ≤ q.numCreated ∧ ∀ p t, q.heap p = some t → t.sequence ≠ s

/-- It is in the batch under way and was cancelled. -/
structure Dying (q : TimerQueue) (p : TimerPtr) (s : Nat) : Prop where
  there : ∃ t, q.heap p = some t ∧ t.sequence = s
  batch : p ∈ q.place.batch.map Entry.timer
  canceled : (p, s) ∈ q.cancelingTimers

theorem Gone.step (h : Inv q) (hg : q.Gone s) (hm : Moves q e obs q') : q'.Gone s ∧ obs ≠ .called s := by
  obtain ⟨hle, hnone⟩ := hg
  refine ⟨⟨?_, fun p t ht hseq => ?_⟩, ?_⟩
  · rcases hm.numCreated with ⟨-, hnum⟩ | ⟨_, _, -, hfresh, hnum, -⟩
    · exact hnum ▸ hle
    · exact hnum ▸ hle.trans hfresh.2.2.le
  · rcases hm.came h ht with ⟨t', ht', hseq', -⟩ | ⟨-, hfresh⟩
    · exact hnone p t' ht' (hseq'.symm.trans hseq)
    · have hlt := hfresh.2.2
      omega
  · rintro rfl
    rcases hm.ran with ⟨_, _, _, f, t, _, _, ht, hobs, -⟩ | ⟨hno, -⟩
    · exact hnone _ t ht (Observed.called.inj hobs).symm
    · exact hno s rfl

theorem Gone.run (h : Inv q) (hg : q.Gone s) (hr : system.Run q labels q') : q'.Gone s ∧ s ∉ called labels ∧ Inv q' := by
  induction hr with
  | nil => exact ⟨hg, by simp [called], h⟩
  | snoc _ hs ih =>
    obtain ⟨hg, hnot, h⟩ := ih
    obtain ⟨hm, h'⟩ := Moves.of_step h hs
    obtain ⟨hg', hobs⟩ := hg.step h hm
    rw [called_append, List.mem_append, not_or]
    exact ⟨hg', ⟨hnot, fun hmem => hobs (called_one.mp hmem)⟩, h'⟩

/-- **The end of the batch is the end of a cancelled timer.** Before it, it can
be called once. -/
theorem Dying.step (h : Inv q) (hd : q.Dying p s) (hm : Moves q e obs q') :
    (obs ≠ .called s ∧ q'.Gone s) ∨ q'.Dying p s ∧ e ≠ .reset ∧
      (obs ≠ .called s ∧ (p ∈ q'.place.rest.map Entry.timer → p ∈ q.place.rest.map Entry.timer) ∨
        p ∈ q.place.rest.map Entry.timer ∧ p ∉ q'.place.rest.map Entry.timer) := by
  obtain ⟨⟨t, ht, hseq⟩, hbatch, hcanceled⟩ := hd
  have hunlisted := h.keeps.unlisted (owned_of_batch hbatch)
  have hloop : q.place ≠ .loop := by
    intro hplace
    simp [hplace, TimerPlace.batch] at hbatch
  cases hm with
  | new hf => exact .inr ⟨⟨⟨t, hf.heap_alloc ht, hseq⟩, hbatch, hcanceled⟩, by simp, .inl ⟨by simp, id⟩⟩
  | queueAdd | returns | queueCancel => exact .inr ⟨⟨⟨t, ht, hseq⟩, hbatch, hcanceled⟩, by simp, .inl ⟨by simp, id⟩⟩
  | addTimer hf =>
    refine .inr ⟨⟨⟨t, by rw [heap_added]; exact hf.heap_alloc ht, hseq⟩, ?_, ?_⟩, by simp, .inl ⟨by simp, ?_⟩⟩
    · rw [place_added]
      exact hbatch
    · rw [cancelingTimers_added]
      exact hcanceled
    · rw [place_added]
      exact id
  | @cancel a =>
    have hheap : (q.canceled a).heap p = q.heap p := by
      by_contra hne
      obtain ⟨ha, hp, -⟩ := canceled_heap q a hne
      exact hunlisted.2 a ha hp
    have hmore : (p, s) ∈ (q.canceled a).cancelingTimers := by
      unfold TimerQueue.canceled
      split
      · split <;> exact hcanceled
      · split
        · exact Finset.mem_insert_of_mem hcanceled
        · exact hcanceled
    refine .inr ⟨⟨⟨t, hheap.trans ht, hseq⟩, ?_, hmore⟩, by simp, .inl ⟨by simp, ?_⟩⟩
    · rw [place_canceled]
      exact hbatch
    · rw [place_canceled]
      exact id
  | addFunctor hplace => exact absurd hplace hloop
  | cancelFunctor hplace => exact absurd hplace hloop
  | handleRead hplace => exact absurd hplace hloop
  | @run now ran rest f u hplace hu =>
    have hbatch' : (TimerPlace.calling now (ran ++ [f]) rest).batch = q.place.batch := by
      simp [hplace, TimerPlace.batch]
    refine .inr ⟨⟨⟨t, ht, hseq⟩, ?_, hcanceled⟩, by simp, ?_⟩
    · show p ∈ (TimerPlace.calling now (ran ++ [f]) rest).batch.map Entry.timer
      rw [hbatch']
      exact hbatch
    · by_cases hp : f.timer = p
      · refine .inr ⟨by simp [hplace, TimerPlace.rest, hp], ?_⟩
        have hnodup : (q.place.batch.map Entry.timer).Nodup :=
          (List.nodup_append.mp (List.nodup_append.mp h.keeps.nodup).2.1).2.1
        rw [hplace, TimerPlace.batch, List.map_append] at hnodup
        exact hp ▸ (List.nodup_cons.mp (List.nodup_append.mp hnodup).2.1).1
      · refine .inl ⟨fun hobs => hp ?_, fun hmem => by rw [hplace]; exact List.mem_cons_of_mem _ hmem⟩
        exact h.keeps.distinct _ _ _ _ hu ht ((Observed.called.inj hobs).trans hseq.symm)
  | @reset now ran q' hplace hended =>
    refine .inl ⟨by simp, hended.numCreated ▸ hseq ▸ h.keeps.numbered p t ht, fun p' t' ht' hseq' => ?_⟩
    have hgone : q'.heap p = none := by
      rw [hended.batch p (by simpa [hplace, TimerPlace.batch] using hbatch) t ht]
      exact if_neg fun hrestarts => hrestarts.2 (hseq ▸ hcanceled)
    rcases (Moves.reset hplace hended).came h ht' with ⟨u, hu, hsequ, -⟩ | ⟨hnew, -⟩
    · have hp := h.keeps.distinct _ _ _ _ hu ht (hsequ.symm.trans (hseq'.trans hseq.symm))
      rw [hp, hgone] at ht'
      cases ht'
    · cases hnew

theorem Dying.run (h : Inv q) (hd : q.Dying p s) (hr : system.Run q labels q') :
    Inv q' ∧ (called labels).count s ≤ 1 ∧ (s ∈ called labels → p ∈ q.place.rest.map Entry.timer) ∧
      (q'.Gone s ∨ q'.Dying p s ∧ (∀ l ∈ labels, l.1 ≠ .reset) ∧
        (p ∈ q'.place.rest.map Entry.timer → s ∉ called labels ∧ p ∈ q.place.rest.map Entry.timer)) := by
  induction hr with
  | nil => exact ⟨h, by simp [called], by simp [called], .inr ⟨hd, by simp, fun hmem => ⟨by simp [called], hmem⟩⟩⟩
  | @snoc labels q₁ l q₂ hr hs ih =>
    obtain ⟨h₁, hcount, hrest, hnow⟩ := ih
    obtain ⟨hm, h₂⟩ := Moves.of_step h₁ hs
    rw [called_append, List.count_append]
    have hquiet : l.2 ≠ .called s → (called labels).count s + (called [l]).count s ≤ 1 ∧
        (s ∈ called labels ++ called [l] → s ∈ called labels) := by
      intro hobs
      have hnone : s ∉ called [l] := fun hmem => hobs (called_one.mp hmem)
      rw [List.count_eq_zero.mpr hnone]
      exact ⟨hcount, fun hmem => (List.mem_append.mp hmem).resolve_right hnone⟩
    rcases hnow with hgone | ⟨hdying, hreset, hwaits⟩
    · obtain ⟨hgone', hobs⟩ := hgone.step h₁ hm
      exact ⟨h₂, (hquiet hobs).1, fun hmem => hrest ((hquiet hobs).2 hmem), .inl hgone'⟩
    · rcases hdying.step h₁ hm with ⟨hobs, hgone⟩ | ⟨hdying', hno, ⟨hobs, hback⟩ | ⟨hmem, hnot⟩⟩
      · exact ⟨h₂, (hquiet hobs).1, fun hmem => hrest ((hquiet hobs).2 hmem), .inl hgone⟩
      · refine ⟨h₂, (hquiet hobs).1, fun hmem => hrest ((hquiet hobs).2 hmem), .inr ⟨hdying', ?_, fun hmem => ?_⟩⟩
        · intro l' hl'
          rcases List.mem_append.mp hl' with hl' | hl'
          · exact hreset l' hl'
          · rw [List.mem_singleton.mp hl']
            exact hno
        · obtain ⟨hnever, hold⟩ := hwaits (hback hmem)
          exact ⟨fun hmem' => hnever ((hquiet hobs).2 hmem'), hold⟩
      · obtain ⟨hnever, hold⟩ := hwaits hmem
        refine ⟨h₂, ?_, fun _ => hold, .inr ⟨hdying', ?_, fun hmem' => absurd hmem' hnot⟩⟩
        · have hone : (called [l]).count s ≤ 1 := (List.count_le_length).trans (List.length_filterMap_le _ _)
          rw [List.count_eq_zero.mpr hnever]
          omega
        · intro l' hl'
          rcases List.mem_append.mp hl' with hl' | hl'
          · exact hreset l' hl'
          · rw [List.mem_singleton.mp hl']
            exact hno

/-- The timer of this number, if it is there, is past `addTimerInLoop`. -/
def Added (q : TimerQueue) (p : TimerPtr) (s : Nat) : Prop :=
  ∀ t, q.heap p = some t → t.sequence = s → p ∉ q.adding ∧ .addTimerInLoop p ∉ q.functors

theorem canceled_ends (h : Fate labels q) (hc : (p, t) ∈ created labels) (hadded : q.Added p t.sequence) :
    (q.canceled (p, t.sequence)).Gone t.sequence ∨ (q.canceled (p, t.sequence)).Dying p t.sequence := by
  have hle : t.sequence ≤ (q.canceled (p, t.sequence)).numCreated := by
    rw [numCreated_canceled]
    exact h.numbered (p, t) hc
  have hthere : ∀ p' u, (q.canceled (p, t.sequence)).heap p' = some u → u.sequence = t.sequence → p' = p := by
    intro p' u hu hseq
    exact (h.eq_of_heap hc (heap_of_canceled hu) hseq).1
  by_cases hlive : ∃ u, (q.canceled (p, t.sequence)).heap p = some u ∧ u.sequence = t.sequence
  · obtain ⟨u, hu', hseq⟩ := hlive
    have hu := heap_of_canceled hu'
    have hinactive : (p, t.sequence) ∉ q.activeTimers := by
      intro ha
      have hnone : (q.canceled (p, t.sequence)).heap p = none := by simp [canceled, ha, hu, removed]
      rw [hnone] at hu'
      cases hu'
    have hbatch : p ∈ q.place.batch.map Entry.timer := by
      obtain ⟨hadding, hfunctors⟩ := hadded u hu hseq
      rcases (h.inv.keeps.owner p).mp (by simp [hu]) with howned | ⟨f, hf, rfl⟩
      · rcases List.mem_append.mp howned with hmem | hmem
        · exact absurd hmem hadding
        · rcases List.mem_append.mp hmem with hmem | hmem
          · obtain ⟨g, hg, hadd⟩ := List.mem_filterMap.mp hmem
            cases g with
            | addTimerInLoop p' =>
              cases hadd
              exact absurd hg hfunctors
            | cancelInLoop a => cases hadd
          · exact hmem
      · obtain ⟨u', hu'', -, hactive⟩ := h.inv.keeps.listed f hf
        cases hu.symm.trans hu''
        exact absurd (hseq ▸ hactive) hinactive
    have hcalling : q.callingExpiredTimers = true := by
      rw [h.inv.calling]
      cases hplace : q.place with
      | loop => simp [hplace, TimerPlace.batch] at hbatch
      | calling => rfl
    have heq : q.canceled (p, t.sequence) = { q with cancelingTimers := Insert.insert (p, t.sequence) q.cancelingTimers } := by
      simp [canceled, hinactive, hcalling]
    exact .inr ⟨⟨u, hu', hseq⟩, by rw [place_canceled]; exact hbatch, by rw [heq]; exact Finset.mem_insert_self _ _⟩
  · exact .inl ⟨hle, fun p' u hu hseq => hlive ⟨u, hthere p' u hu hseq ▸ hu, hseq⟩⟩

/-- A step that cancels is `cancelInLoop`, at most after a functor left the
queue. -/
theorem Moves.canceled {a : ActiveTimer} (hm : Moves q e (.canceled a) q') : q' = q.canceled a ∨
    ∃ fs, q.functors = .cancelInLoop a :: fs ∧ q' = ({ q with functors := fs } : TimerQueue).canceled a := by
  cases hm with
  | cancel => exact .inl rfl
  | cancelFunctor hplace hfunctors => exact .inr ⟨_, hfunctors, rfl⟩

/-- **A cancelled timer is called at most once more**, and only if it is in the
batch under way and was not called in it; when that batch has ended it is never
called again. The cancel must find it inserted. -/
theorem cancel_stops (h₀ : system.start q₀) (hr : system.Run q₀ labels q) (hc : (p, t) ∈ created labels)
    (hadded : q.Added p t.sequence) (hs : system.step q (e, .canceled (p, t.sequence)) q')
    {labels' : List (Event × Observed)} {q'' : TimerQueue} (hr' : system.Run q' labels' q'') :
    (called labels').count t.sequence ≤ 1 ∧
      (t.sequence ∈ called labels' → p ∈ q.place.rest.map Entry.timer) ∧
      ∀ as bs obs, labels' = as ++ (.reset, obs) :: bs → t.sequence ∉ called bs := by
  have hfate := fate_run h₀ hr
  obtain ⟨hm, hinv⟩ := Moves.of_step hfate.inv hs
  have hplace : q'.place = q.place ∧ (q'.Gone t.sequence ∨ q'.Dying p t.sequence) := by
    rcases hm.canceled with rfl | ⟨fs, hfunctors, rfl⟩
    · exact ⟨place_canceled _ _, canceled_ends hfate hc hadded⟩
    · have hfate' : Fate labels { q with functors := fs } := { hfate with inv := hfate.inv.functor hfunctors }
      refine ⟨place_canceled _ _, canceled_ends hfate' hc fun u hu hseq => ?_⟩
      obtain ⟨hadding, hnot⟩ := hadded u hu hseq
      exact ⟨hadding, fun hmem => hnot (hfunctors ▸ List.mem_cons_of_mem _ hmem)⟩
  obtain ⟨hplace, hgone | hdying⟩ := hplace
  · have hnever : ∀ labels'' q₂, system.Run q' labels'' q₂ → t.sequence ∉ called labels'' :=
      fun _ _ hr => (hgone.run hinv hr).2.1
    have hzero := hnever _ _ hr'
    refine ⟨by rw [List.count_eq_zero.mpr hzero]; omega, fun hmem => absurd hmem hzero, ?_⟩
    intro as bs obs hlabels hmem
    subst hlabels
    rw [called_append] at hzero
    exact hzero (List.mem_append_right _ (List.mem_filterMap.mpr (by
      obtain ⟨l, hl, hsome⟩ := List.mem_filterMap.mp hmem
      exact ⟨l, List.mem_cons_of_mem _ hl, hsome⟩)))
  · obtain ⟨-, hcount, hrest, -⟩ := hdying.run hinv hr'
    refine ⟨hcount, fun hmem => hplace ▸ hrest hmem, ?_⟩
    intro as bs obs hlabels
    subst hlabels
    rw [List.append_cons] at hr'
    obtain ⟨q₁, hr₁, hr₂⟩ := hr'.of_append
    obtain ⟨hinv₁, -, -, hgone | ⟨-, hreset, -⟩⟩ := hdying.run hinv hr₁
    · exact (hgone.run hinv₁ hr₂).2.1
    · exact absurd rfl (hreset _ (List.mem_append_right _ (List.mem_singleton_self _)))

/-- A timer that waits is cancelled, and is never called. -/
theorem cancel_stops_one : ∃ q, system.step waiting (.cancel (8, 1), .canceled (8, 1)) q ∧
    ∀ labels q', system.Run q labels q' → 1 ∉ called labels := by
  have hplace : waiting.place = .loop := place_added _ _ _
  have hcall : waiting.Enabled (.cancel (8, 1)) := by rw [Enabled, CanCall, hplace]; trivial
  obtain ⟨q, obs, hexec, hm, -⟩ := exec_moves waiting_inv hcall nofun
  cases hm with
  | cancel =>
    have hs : system.step waiting (.cancel (8, 1), .canceled (8, 1)) (waiting.canceled (8, 1)) := ⟨hcall, hexec⟩
    refine ⟨_, hs, fun labels q' hr => ?_⟩
    have hadded : waiting.Added 8 1 := by
      intro t _ _
      obtain ⟨-, -, hadding, hfunctors, -⟩ := added_frame (made.alloc 8 alarm) 8 alarm
      rw [waiting, hadding, hfunctors]
      exact ⟨by simp [made, alloc], by simp [made, alloc]⟩
    have hstops := cancel_stops made_start (System.Run.single waiting_step) (p := 8) (t := alarm) List.mem_cons_self
      hadded hs hr
    intro hmem
    have hrest := hstops.2.1 hmem
    rw [hplace] at hrest
    cases hrest

/-- **A cancel that comes before `addTimerInLoop` is lost**: another thread has
made the timer and given its id away, the loop cancels it while its functor is in
the queue, and then it is inserted and called. -/
theorem cancel_lost : ∃ labels q, system.Run made labels q ∧ cancels labels = [(8, 1)] ∧ called labels = [1] := by
  obtain ⟨q, hq⟩ : ∃ q : TimerQueue, q = { made.alloc 8 alarm with functors := [.addTimerInLoop 8] } := ⟨_, rfl⟩
  have hs₂ : system.step queued (.returns (8, 1), .nothing) q := ⟨List.mem_singleton_self (8, 1), by rw [hq]; rfl⟩
  have hs₃ : system.step q (.cancel (8, 1), .canceled (8, 1)) q :=
    ⟨by rw [hq]; trivial, by rw [hq]; rfl⟩
  have hs₄ : system.step q (.functor, .nothing) waiting := by
    have hkeeps : (made.alloc 8 alarm).Keeps (8 :: []) :=
      (inv_start made_start).keeps.new fresh_alarm.1 fresh_alarm.2.1 fresh_alarm.2.2
    have hheap : (made.alloc 8 alarm).heap 8 = some alarm := rfl
    refine ⟨by rw [hq]; exact ⟨rfl, List.cons_ne_nil _ _⟩, ?_⟩
    have hadd : q.exec .functor = (do return (← (made.alloc 8 alarm).addTimerInLoop 8, .nothing)) := by rw [hq]; rfl
    rw [hadd, addTimerInLoop_eq hkeeps hheap]
    rfl
  obtain ⟨q₅, hs₅, hplace, hheap⟩ := waiting_handleRead false nofun
  have hs₆ : system.step q₅ (.run, .called 1) { q₅ with place := .calling 5 [⟨3, 8⟩] [] } :=
    ⟨⟨_, _, _, _, hplace⟩, by simp only [exec, hplace, hheap]; rfl⟩
  have hr := ((((queued_run.snoc hs₂).snoc hs₃).snoc hs₄).snoc hs₅).snoc hs₆
  exact ⟨_, _, hr, rfl, rfl⟩

end DictionaryServer.Muduo.TimerQueue
