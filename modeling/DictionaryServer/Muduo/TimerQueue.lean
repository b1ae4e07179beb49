/-
The timers of a loop (muduo/net/TimerQueue.cc, Timer.h, Timer.cc, TimerId.h).

A timer is an object on the heap. Other threads make one and queue a functor
that inserts it; the loop keeps it in two sets, by expiration and by address.
`handleRead` moves what has expired out of both, calls it, and inserts it again
or deletes it.

The functions fail (`none`) where an assertion of the source does, where a
freed timer is read and where one is freed twice. An address may be given out
again once it is free. A run comes there in one place only: `addTimer` in
another thread reads the number of its timer after it has queued it, when the
loop may have deleted it already (`never_fails`, `read_too_late`).

Times are in microseconds. An interval is what `addTime` adds for it.
-/
import DictionaryServer.Lib.System
import Mathlib.Data.Finset.Sort
import Mathlib.Data.Prod.Lex
import Mathlib.Logic.Function.Basic

namespace DictionaryServer.Muduo

open Lib

abbrev Timestamp := Int

/-- Where a timer is on the heap. -/
abbrev TimerPtr := Nat

/-- `TimerId`, and `TimerQueue::ActiveTimer`: the address and the sequence number. -/
abbrev ActiveTimer := TimerPtr × Nat

structure Timer where
  expiration : Timestamp
  interval : Int
  /-- The interval is more than zero seconds. -/
  repeat_ : Bool
  sequence : Nat
  interval_nonneg : repeat_ = true → 0 ≤ interval

def Timer.restart (t : Timer) (now : Timestamp) : Timer :=
  { t with expiration := if t.repeat_ then now + t.interval else 0 }

structure Entry where
  expiration : Timestamp
  timer : TimerPtr
  deriving DecidableEq

namespace Entry

/-- Entries are ordered by time, and then by address. -/
def key (e : Entry) : Timestamp ×ₗ TimerPtr := toLex (e.expiration, e.timer)

theorem key_injective : Function.Injective key := by
  intro e f h
  cases e
  cases f
  cases h
  rfl

instance : LinearOrder Entry := LinearOrder.lift' key key_injective

theorem lt_iff {e f : Entry} :
    e < f ↔ e.expiration < f.expiration ∨ e.expiration = f.expiration ∧ e.timer < f.timer :=
  Prod.Lex.lt_iff

theorem expiration_le {e f : Entry} (h : e ≤ f) : e.expiration ≤ f.expiration := by
  rcases h.eq_or_lt with rfl | hlt
  · exact le_rfl
  · rcases lt_iff.mp hlt with hlt | ⟨heq, -⟩
    · exact hlt.le
    · exact heq.le

end Entry

/-- A functor in the loop's queue. -/
inductive TimerFunctor
  | addTimerInLoop (timer : TimerPtr)
  | cancelInLoop (timerId : ActiveTimer)

/-- Where the loop is. -/
inductive TimerPlace
  /-- Not in `handleRead`. -/
  | loop
  /-- In `handleRead`: the entries called so far, and those still to call. -/
  | calling (now : Timestamp) (ran rest : List Entry)

structure TimerQueue where
  heap : TimerPtr → Option Timer
  /-- No timer has a larger sequence number. -/
  numCreated : Nat
  /-- What other threads have made and not queued yet. -/
  adding : List TimerPtr
  /-- What they have queued, where `addTimer` has still to read the number. -/
  returning : List ActiveTimer
  functors : List TimerFunctor
  timers : Finset Entry
  activeTimers : Finset ActiveTimer
  callingExpiredTimers : Bool
  cancelingTimers : Finset ActiveTimer
  /-- The expiration `timerfd_` is set for. -/
  armed : Option Timestamp
  place : TimerPlace

/-- `UINTPTR_MAX` -/
def UINTPTR_MAX : TimerPtr := 0xffffffffffffffff

namespace TimerQueue

/-- `timers_.begin()` -/
def begin (timers : Finset Entry) : Option Entry := if h : timers.Nonempty then some (timers.min' h) else none

/-- The two sets have the same size. -/
def SameSize (q : TimerQueue) : Prop := q.timers.card = q.activeTimers.card

instance (q : TimerQueue) : Decidable q.SameSize := inferInstanceAs (Decidable (_ = _))

def insert (q : TimerQueue) (timer : TimerPtr) : Option (Bool × TimerQueue) := do
  guard q.SameSize
  let t ← q.heap timer
  let when := t.expiration
  let earliestChanged := match begin q.timers with
    | none => true
    | some e => decide (when < e.expiration)
  guard (⟨when, timer⟩ ∉ q.timers)
  guard ((timer, t.sequence) ∉ q.activeTimers)
  let q' := { q with
    timers := Insert.insert ⟨when, timer⟩ q.timers
    activeTimers := Insert.insert (timer, t.sequence) q.activeTimers }
  guard q'.SameSize
  return (earliestChanged, q')

/-- `howMuchTimeFromNow` makes it 100 microseconds at least, which is left out. -/
def resetTimerfd (q : TimerQueue) (expiration : Timestamp) : TimerQueue := { q with armed := some expiration }

def addTimerInLoop (q : TimerQueue) (timer : TimerPtr) : Option TimerQueue := do
  let (earliestChanged, q) ← q.insert timer
  if earliestChanged then
    let t ← q.heap timer
    return q.resetTimerfd t.expiration
  else return q

/-- `delete timer` -/
def delete (q : TimerQueue) (timer : TimerPtr) : Option TimerQueue := do
  guard ((q.heap timer).isSome)
  return { q with heap := Function.update q.heap timer none }

def cancelInLoop (q : TimerQueue) (timer : ActiveTimer) : Option TimerQueue := do
  guard q.SameSize
  if timer ∈ q.activeTimers then
    let t ← q.heap timer.1
    guard (⟨t.expiration, timer.1⟩ ∈ q.timers)
    let q ← { q with timers := q.timers.erase ⟨t.expiration, timer.1⟩ }.delete timer.1
    let q := { q with activeTimers := q.activeTimers.erase timer }
    guard q.SameSize
    return q
  else if q.callingExpiredTimers then
    return { q with cancelingTimers := Insert.insert timer q.cancelingTimers }
  else return q

/-- Takes the expired entries out of `activeTimers_`. -/
def eraseActive (heap : TimerPtr → Option Timer) (expired : List Entry) (activeTimers : Finset ActiveTimer) :
    Option (Finset ActiveTimer) :=
  expired.foldlM (fun activeTimers e => do
    let t ← heap e.timer
    guard ((e.timer, t.sequence) ∈ activeTimers)
    return activeTimers.erase (e.timer, t.sequence)) activeTimers

def getExpired (q : TimerQueue) (now : Timestamp) : Option (List Entry × TimerQueue) := do
  guard q.SameSize
  let sentry : Entry := ⟨now, UINTPTR_MAX⟩
  let expired := (q.timers.filter (· < sentry)).sort
  let timers := q.timers.filter (sentry ≤ ·)
  -- `end` is where the rest begins.
  guard (∀ e ∈ begin timers, now < e.expiration)
  let activeTimers ← eraseActive q.heap expired q.activeTimers
  let q := { q with timers := timers, activeTimers := activeTimers }
  guard q.SameSize
  return (expired, q)

/-- `handleRead`, up to its loop. The descriptor is read; where the timer was
set anew after it fired, there is nothing to read. -/
def handleRead (q : TimerQueue) (now : Timestamp) (fired : Bool) : Option TimerQueue := do
  let (expired, q) ← { q with armed := if fired then none else q.armed }.getExpired now
  return { q with callingExpiredTimers := true, cancelingTimers := ∅, place := .calling now [] expired }

/-- What `reset` does with one timer of the batch. -/
def resetOne (now : Timestamp) (q : TimerQueue) (e : Entry) : Option TimerQueue := do
  let t ← q.heap e.timer
  if t.repeat_ ∧ (e.timer, t.sequence) ∉ q.cancelingTimers then
    let (_, q) ← { q with heap := Function.update q.heap e.timer (some (t.restart now)) }.insert e.timer
    return q
  else q.delete e.timer

/-- Sets the descriptor for the first timer. -/
def rearm (q : TimerQueue) : Option TimerQueue :=
  match begin q.timers with
  | none => some q
  | some e => do
    let t ← q.heap e.timer
    return if 0 < t.expiration then q.resetTimerfd t.expiration else q

/-- The end of `handleRead`: `callingExpiredTimers_` and `reset`. -/
def reset (q : TimerQueue) (expired : List Entry) (now : Timestamp) : Option TimerQueue := do
  let q ← expired.foldlM (resetOne now) { q with callingExpiredTimers := false }
  let q ← q.rearm
  return { q with place := .loop }

/-! ## Runs -/

inductive Event
  /-- `addTimer` in another thread: `new Timer`. -/
  | new (timer : TimerPtr) (t : Timer)
  /-- Its `runInLoop`. -/
  | queueAdd (timer : TimerPtr)
  /-- Its last line: `timer->sequence()`. -/
  | returns (timerId : ActiveTimer)
  /-- `addTimer` in the loop's thread. -/
  | addTimer (timer : TimerPtr) (t : Timer)
  /-- `cancel` in another thread. -/
  | queueCancel (timerId : ActiveTimer)
  /-- `cancel` in the loop's thread. -/
  | cancel (timerId : ActiveTimer)
  /-- The next functor of the loop's queue. -/
  | functor
  | handleRead (now : Timestamp) (fired : Bool)
  /-- The next timer of the batch. -/
  | run
  | reset

/-- What a step did that can be seen. -/
inductive Observed
  | nothing
  /-- The timer of this number was called. -/
  | called (sequence : Nat)
  /-- `cancelInLoop` was called with this. -/
  | canceled (timerId : ActiveTimer)
  deriving DecidableEq

/-- A new object is put where nothing is, and gets the next number. Other
queues number theirs from the same counter. -/
def Fresh (q : TimerQueue) (timer : TimerPtr) (t : Timer) : Prop :=
  q.heap timer = none ∧ timer < UINTPTR_MAX ∧ q.numCreated < t.sequence

/-- The loop's thread runs code of its user. -/
def CanCall (q : TimerQueue) : Prop :=
  match q.place with
  | .loop => True
  | .calling _ ran _ => ran ≠ []

def Enabled (q : TimerQueue) : Event → Prop
  | .new timer t => q.Fresh timer t
  | .queueAdd timer => timer ∈ q.adding
  | .returns timerId => timerId ∈ q.returning
  | .addTimer timer t => q.Fresh timer t ∧ q.CanCall
  | .queueCancel _ => True
  | .cancel _ => q.CanCall
  | .functor => q.place = .loop ∧ q.functors ≠ []
  | .handleRead now fired => q.place = .loop ∧ 0 < now ∧ (fired = true → q.armed.isSome)
  | .run => ∃ now ran e rest, q.place = .calling now ran (e :: rest)
  | .reset => ∃ now ran, q.place = .calling now ran []

/-- `new Timer` -/
def alloc (q : TimerQueue) (timer : TimerPtr) (t : Timer) : TimerQueue :=
  { q with heap := Function.update q.heap timer (some t), numCreated := t.sequence }

def exec (q : TimerQueue) : Event → Option (TimerQueue × Observed)
  | .new timer t => some ({ q.alloc timer t with adding := timer :: q.adding }, .nothing)
  | .queueAdd timer => do
    let t ← q.heap timer
    return ({ q with
      adding := q.adding.erase timer
      functors := q.functors ++ [.addTimerInLoop timer]
      returning := (timer, t.sequence) :: q.returning }, .nothing)
  | .returns timerId => do
    let t ← q.heap timerId.1
    -- Another timer may have its place by now.
    guard (t.sequence = timerId.2)
    return ({ q with returning := q.returning.erase timerId }, .nothing)
  | .addTimer timer t => do return (← (q.alloc timer t).addTimerInLoop timer, .nothing)
  | .queueCancel timerId => some ({ q with functors := q.functors ++ [.cancelInLoop timerId] }, .nothing)
  | .cancel timerId => do return (← q.cancelInLoop timerId, .canceled timerId)
  | .functor =>
    match q.functors with
    | [] => none
    | .addTimerInLoop timer :: fs => do return (← { q with functors := fs }.addTimerInLoop timer, .nothing)
    | .cancelInLoop timerId :: fs => do return (← { q with functors := fs }.cancelInLoop timerId, .canceled timerId)
  | .handleRead now fired => do return (← q.handleRead now fired, .nothing)
  | .run =>
    match q.place with
    | .calling now ran (e :: rest) => do
      let t ← q.heap e.timer
      return ({ q with place := .calling now (ran ++ [e]) rest }, .called t.sequence)
    | _ => none
  | .reset =>
    match q.place with
    | .calling now ran [] => do return (← q.reset ran now, .nothing)
    | _ => none

/-- A queue as its constructor leaves it. -/
def system : System TimerQueue (Event × Observed) where
  start q := (∀ timer, q.heap timer = none) ∧ q.adding = [] ∧ q.returning = [] ∧ q.functors = [] ∧ q.timers = ∅ ∧
    q.activeTimers = ∅ ∧ q.callingExpiredTimers = false ∧ q.cancelingTimers = ∅ ∧ q.armed = none ∧ q.place = .loop
  step q l q' := q.Enabled l.1 ∧ q.exec l.1 = some (q', l.2)

/-! ## Whose a timer is -/

/-- The two sets hold the same timers, and a timer is on the heap exactly while
it is in them or one of those that something else has (`owned`). -/
structure Books (heap : TimerPtr → Option Timer) (numCreated : Nat) (timers : Finset Entry)
    (activeTimers : Finset ActiveTimer) (owned : List TimerPtr) : Prop where
  listed : ∀ e ∈ timers, ∃ t, heap e.timer = some t ∧ t.expiration = e.expiration ∧ (e.timer, t.sequence) ∈ activeTimers
  active : ∀ a ∈ activeTimers, ∃ t, heap a.1 = some t ∧ t.sequence = a.2 ∧ ⟨t.expiration, a.1⟩ ∈ timers
  owner : ∀ p, (heap p).isSome ↔ p ∈ owned ∨ ∃ e ∈ timers, e.timer = p
  nodup : owned.Nodup
  apart : ∀ e ∈ timers, e.timer ∉ owned
  bounded : ∀ p, (heap p).isSome → p < UINTPTR_MAX
  numbered : ∀ p t, heap p = some t → t.sequence ≤ numCreated
  distinct : ∀ p p' t t', heap p = some t → heap p' = some t' → t.sequence = t'.sequence → p = p'

namespace Books

variable {heap : TimerPtr → Option Timer} {n : Nat} {timers : Finset Entry} {activeTimers : Finset ActiveTimer}
  {owned owned' : List TimerPtr} {p : TimerPtr} {t t' : Timer}

theorem perm (h : Books heap n timers activeTimers owned) (hp : owned.Perm owned') :
    Books heap n timers activeTimers owned' :=
  { h with
    owner := fun p => by rw [h.owner p, hp.mem_iff]
    nodup := hp.nodup_iff.mp h.nodup
    apart := fun e he hmem => h.apart e he (hp.mem_iff.mpr hmem) }

theorem entry_eq (h : Books heap n timers activeTimers owned) {e : Entry} (he : e ∈ timers) (ht : heap e.timer = some t) :
    e = ⟨t.expiration, e.timer⟩ := by
  obtain ⟨t', ht', hexp, -⟩ := h.listed e he
  cases ht.symm.trans ht'
  cases e
  cases hexp
  rfl

theorem active_eq (h : Books heap n timers activeTimers owned) {a : ActiveTimer} (ha : a ∈ activeTimers)
    (ht : heap a.1 = some t) : a = (a.1, t.sequence) := by
  obtain ⟨t', ht', hseq, -⟩ := h.active a ha
  cases ht.symm.trans ht'
  rw [hseq]

theorem card_eq (h : Books heap n timers activeTimers owned) : timers.card = activeTimers.card := by
  refine Finset.card_bij' (fun e _ => (e.timer, (heap e.timer).elim 0 Timer.sequence))
    (fun a _ => ⟨(heap a.1).elim 0 Timer.expiration, a.1⟩) ?_ ?_ ?_ ?_
  · intro e he
    obtain ⟨t, ht, -, hactive⟩ := h.listed e he
    simpa [ht] using hactive
  · intro a ha
    obtain ⟨t, ht, -, hlisted⟩ := h.active a ha
    simpa [ht] using hlisted
  · intro e he
    obtain ⟨t, ht, -⟩ := h.listed e he
    simpa [ht] using (h.entry_eq he ht).symm
  · intro a ha
    obtain ⟨t, ht, -⟩ := h.active a ha
    simpa [ht] using (h.active_eq ha ht).symm

/-- An owned timer is in neither set. -/
theorem unlisted (h : Books heap n timers activeTimers owned) (hp : p ∈ owned) :
    (∀ e ∈ timers, e.timer ≠ p) ∧ ∀ a ∈ activeTimers, a.1 ≠ p := by
  refine ⟨fun e he heq => h.apart e he (heq ▸ hp), fun a ha heq => ?_⟩
  obtain ⟨t, -, -, hlisted⟩ := h.active a ha
  exact h.apart _ hlisted (heq ▸ hp)

theorem insert (h : Books heap n timers activeTimers (p :: owned)) (ht : heap p = some t) :
    Books heap n (Insert.insert ⟨t.expiration, p⟩ timers) (Insert.insert (p, t.sequence) activeTimers) owned := by
  obtain ⟨hp, hnodup⟩ := List.nodup_cons.mp h.nodup
  refine ⟨?_, ?_, ?_, hnodup, ?_, h.bounded, h.numbered, h.distinct⟩
  · intro e he
    rcases Finset.mem_insert.mp he with rfl | he
    · exact ⟨t, ht, rfl, Finset.mem_insert_self _ _⟩
    · obtain ⟨t', ht', hexp, hactive⟩ := h.listed e he
      exact ⟨t', ht', hexp, Finset.mem_insert_of_mem hactive⟩
  · intro a ha
    rcases Finset.mem_insert.mp ha with rfl | ha
    · exact ⟨t, ht, rfl, Finset.mem_insert_self _ _⟩
    · obtain ⟨t', ht', hseq, hlisted⟩ := h.active a ha
      exact ⟨t', ht', hseq, Finset.mem_insert_of_mem hlisted⟩
  · intro p'
    rw [h.owner p', Finset.exists_mem_insert, List.mem_cons]
    constructor
    · rintro ((rfl | hmem) | hlisted)
      · exact .inr (.inl rfl)
      · exact .inl hmem
      · exact .inr (.inr hlisted)
    · rintro (hmem | rfl | hlisted)
      · exact .inl (.inr hmem)
      · exact .inl (.inl rfl)
      · exact .inr hlisted
  · intro e he hmem
    rcases Finset.mem_insert.mp he with rfl | he
    · exact hp hmem
    · exact h.apart e he (List.mem_cons_of_mem _ hmem)

theorem erase (h : Books heap n timers activeTimers owned) (ht : heap p = some t) (he : ⟨t.expiration, p⟩ ∈ timers) :
    Books heap n (timers.erase ⟨t.expiration, p⟩) (activeTimers.erase (p, t.sequence)) (p :: owned) := by
  have hother : ∀ e ∈ timers.erase ⟨t.expiration, p⟩, e.timer ≠ p := by
    intro e hmem heq
    obtain ⟨hne, hmem⟩ := Finset.mem_erase.mp hmem
    exact hne (by rw [h.entry_eq hmem (heq ▸ ht), heq])
  refine ⟨?_, ?_, ?_, List.nodup_cons.mpr ⟨h.apart _ he, h.nodup⟩, ?_, h.bounded, h.numbered, h.distinct⟩
  · intro e hmem
    obtain ⟨t', ht', hexp, hactive⟩ := h.listed e (Finset.mem_of_mem_erase hmem)
    refine ⟨t', ht', hexp, Finset.mem_erase.mpr ⟨fun heq => hother e hmem (congrArg Prod.fst heq), hactive⟩⟩
  · intro a hmem
    obtain ⟨hne, hmem⟩ := Finset.mem_erase.mp hmem
    obtain ⟨t', ht', hseq, hlisted⟩ := h.active a hmem
    refine ⟨t', ht', hseq, Finset.mem_erase.mpr ⟨fun heq => ?_, hlisted⟩⟩
    have hfst : a.1 = p := congrArg Entry.timer heq
    exact hne (hfst ▸ h.active_eq hmem (hfst ▸ ht))
  · intro p'
    rw [h.owner p', List.mem_cons]
    constructor
    · rintro (hmem | ⟨e, hmem, rfl⟩)
      · exact .inl (.inr hmem)
      · by_cases heq : e = ⟨t.expiration, p⟩
        · exact .inl (.inl (heq ▸ rfl))
        · exact .inr ⟨e, Finset.mem_erase.mpr ⟨heq, hmem⟩, rfl⟩
    · rintro ((rfl | hmem) | ⟨e, hmem, rfl⟩)
      · exact .inr ⟨_, he, rfl⟩
      · exact .inl hmem
      · exact .inr ⟨e, Finset.mem_of_mem_erase hmem, rfl⟩
  · intro e hmem hown
    rcases List.mem_cons.mp hown with heq | hown
    · exact hother e hmem heq
    · exact h.apart e (Finset.mem_of_mem_erase hmem) hown

theorem update (h : Books heap n timers activeTimers (p :: owned)) (ht : heap p = some t)
    (hseq : t'.sequence = t.sequence) :
    Books (Function.update heap p (some t')) n timers activeTimers (p :: owned) := by
  obtain ⟨hlisted, hactive⟩ := h.unlisted List.mem_cons_self
  have hat : ∀ p' u, Function.update heap p (some t') p' = some u →
      ∃ u', heap p' = some u' ∧ u.sequence = u'.sequence := by
    intro p' u hu
    by_cases hp : p' = p
    · subst hp
      rw [Function.update_self] at hu
      cases hu
      exact ⟨t, ht, hseq⟩
    · rw [Function.update_of_ne hp] at hu
      exact ⟨u, hu, rfl⟩
  have hsome : ∀ p', (Function.update heap p (some t') p').isSome = (heap p').isSome := by
    intro p'
    by_cases hp : p' = p
    · subst hp
      simp [ht]
    · rw [Function.update_of_ne hp]
  refine ⟨?_, ?_, ?_, h.nodup, h.apart, ?_, ?_, ?_⟩
  · intro e he
    rw [Function.update_of_ne (hlisted e he)]
    exact h.listed e he
  · intro a ha
    rw [Function.update_of_ne (hactive a ha)]
    exact h.active a ha
  · intro p'
    rw [hsome]
    exact h.owner p'
  · intro p' hp
    exact h.bounded p' (hsome p' ▸ hp)
  · intro p' u hu
    obtain ⟨u', hu', heq⟩ := hat p' u hu
    exact heq ▸ h.numbered p' u' hu'
  · intro p₁ p₂ u₁ u₂ hu₁ hu₂ heq
    obtain ⟨u₁', hu₁', heq₁⟩ := hat p₁ u₁ hu₁
    obtain ⟨u₂', hu₂', heq₂⟩ := hat p₂ u₂ hu₂
    exact h.distinct p₁ p₂ u₁' u₂' hu₁' hu₂' (heq₁.symm.trans (heq.trans heq₂))

theorem delete (h : Books heap n timers activeTimers (p :: owned)) :
    Books (Function.update heap p none) n timers activeTimers owned := by
  obtain ⟨hlisted, hactive⟩ := h.unlisted List.mem_cons_self
  obtain ⟨hp, hnodup⟩ := List.nodup_cons.mp h.nodup
  have hat : ∀ p' u, Function.update heap p none p' = some u → p' ≠ p ∧ heap p' = some u := by
    intro p' u hu
    by_cases hp : p' = p
    · subst hp
      rw [Function.update_self] at hu
      cases hu
    · rw [Function.update_of_ne hp] at hu
      exact ⟨hp, hu⟩
  refine ⟨?_, ?_, ?_, hnodup, fun e he hmem => h.apart e he (List.mem_cons_of_mem _ hmem), ?_, ?_, ?_⟩
  · intro e he
    rw [Function.update_of_ne (hlisted e he)]
    exact h.listed e he
  · intro a ha
    rw [Function.update_of_ne (hactive a ha)]
    exact h.active a ha
  · intro p'
    by_cases hp' : p' = p
    · subst hp'
      simp only [Function.update_self, Option.isSome_none, Bool.false_eq_true, false_iff, not_or, not_exists, not_and]
      exact ⟨hp, hlisted⟩
    · rw [Function.update_of_ne hp', h.owner p', List.mem_cons, or_iff_right hp']
  · intro p' hsome
    obtain ⟨u, hu⟩ := Option.isSome_iff_exists.mp hsome
    exact h.bounded p' (Option.isSome_iff_exists.mpr ⟨u, (hat p' u hu).2⟩)
  · intro p' u hu
    exact h.numbered p' u (hat p' u hu).2
  · intro p₁ p₂ u₁ u₂ hu₁ hu₂ heq
    exact h.distinct p₁ p₂ u₁ u₂ (hat p₁ u₁ hu₁).2 (hat p₂ u₂ hu₂).2 heq

theorem new (h : Books heap n timers activeTimers owned) (hnone : heap p = none) (hp : p < UINTPTR_MAX)
    (hn : n < t.sequence) : Books (Function.update heap p (some t)) t.sequence timers activeTimers (p :: owned) := by
  have hfree : p ∉ owned ∧ ∀ e ∈ timers, e.timer ≠ p := by
    have howner := (h.owner p).not.mp (by simp [hnone])
    exact ⟨fun hmem => howner (.inl hmem), fun e he heq => howner (.inr ⟨e, he, heq⟩)⟩
  have hactive : ∀ a ∈ activeTimers, a.1 ≠ p := by
    intro a ha heq
    obtain ⟨t', ht', -⟩ := h.active a ha
    rw [heq, hnone] at ht'
    cases ht'
  have hat : ∀ p' u, Function.update heap p (some t) p' = some u → p' = p ∧ u = t ∨ p' ≠ p ∧ heap p' = some u := by
    intro p' u hu
    by_cases hp : p' = p
    · subst hp
      rw [Function.update_self] at hu
      exact .inl ⟨rfl, (Option.some_inj.mp hu).symm⟩
    · rw [Function.update_of_ne hp] at hu
      exact .inr ⟨hp, hu⟩
  refine ⟨?_, ?_, ?_, List.nodup_cons.mpr ⟨hfree.1, h.nodup⟩, ?_, ?_, ?_, ?_⟩
  · intro e he
    rw [Function.update_of_ne (hfree.2 e he)]
    exact h.listed e he
  · intro a ha
    rw [Function.update_of_ne (hactive a ha)]
    exact h.active a ha
  · intro p'
    by_cases hp' : p' = p
    · subst hp'
      simp
    · rw [Function.update_of_ne hp', h.owner p', List.mem_cons, or_iff_right hp']
  · intro e he hmem
    rcases List.mem_cons.mp hmem with heq | hmem
    · exact hfree.2 e he heq
    · exact h.apart e he hmem
  · intro p' hsome
    obtain ⟨u, hu⟩ := Option.isSome_iff_exists.mp hsome
    rcases hat p' u hu with ⟨rfl, -⟩ | ⟨-, hu⟩
    · exact hp
    · exact h.bounded p' (Option.isSome_iff_exists.mpr ⟨u, hu⟩)
  · intro p' u hu
    rcases hat p' u hu with ⟨-, rfl⟩ | ⟨-, hu⟩
    · exact le_rfl
    · exact (h.numbered p' u hu).trans hn.le
  · intro p₁ p₂ u₁ u₂ hu₁ hu₂ heq
    rcases hat p₁ u₁ hu₁ with ⟨rfl, rfl⟩ | ⟨-, hv₁⟩ <;> rcases hat p₂ u₂ hu₂ with ⟨rfl, rfl⟩ | ⟨-, hv₂⟩
    · rfl
    · exact absurd (h.numbered p₂ u₂ hv₂) (by omega)
    · exact absurd (h.numbered p₁ u₁ hv₁) (by omega)
    · exact h.distinct p₁ p₂ u₁ u₂ hv₁ hv₂ heq

end Books

/-! ## What the functions do -/

section

variable {q : TimerQueue} {owned : List TimerPtr} {p : TimerPtr} {t : Timer} {now : Timestamp}

/-- Apart from the owned timers, the queue's books are right. -/
abbrev Keeps (q : TimerQueue) (owned : List TimerPtr) : Prop :=
  Books q.heap q.numCreated q.timers q.activeTimers owned

def inserted (q : TimerQueue) (p : TimerPtr) (t : Timer) : TimerQueue :=
  { q with
    timers := Insert.insert ⟨t.expiration, p⟩ q.timers
    activeTimers := Insert.insert (p, t.sequence) q.activeTimers }

/-- It would be the first. -/
def earlier (q : TimerQueue) (when : Timestamp) : Bool :=
  match begin q.timers with
  | none => true
  | some e => decide (when < e.expiration)

theorem insert_eq (h : q.Keeps (p :: owned)) (ht : q.heap p = some t) :
    q.insert p = some (q.earlier t.expiration, q.inserted p t) := by
  obtain ⟨hlisted, hactive⟩ := h.unlisted List.mem_cons_self
  have hsize : q.SameSize := h.card_eq
  have hsize' : (q.inserted p t).SameSize := (h.insert ht).card_eq
  have htimers : (⟨t.expiration, p⟩ : Entry) ∉ q.timers := fun he => hlisted _ he rfl
  have hactives : (p, t.sequence) ∉ q.activeTimers := fun ha => hactive _ ha rfl
  simp only [inserted] at hsize'
  simp [TimerQueue.insert, guard, hsize, ht, htimers, hactives, hsize', earlier, inserted]

theorem addTimerInLoop_eq (h : q.Keeps (p :: owned)) (ht : q.heap p = some t) :
    q.addTimerInLoop p = some (if q.earlier t.expiration then (q.inserted p t).resetTimerfd t.expiration
      else q.inserted p t) := by
  have ht' : (q.inserted p t).heap p = some t := ht
  cases hearlier : q.earlier t.expiration <;> simp [addTimerInLoop, insert_eq h ht, hearlier, ht']

theorem delete_eq (h : q.Keeps (p :: owned)) : q.delete p = some { q with heap := Function.update q.heap p none } := by
  have hsome : (q.heap p).isSome := (h.owner p).mpr (.inl List.mem_cons_self)
  simp [TimerQueue.delete, guard, hsome]

def removed (q : TimerQueue) (p : TimerPtr) (t : Timer) : TimerQueue :=
  { q with
    timers := q.timers.erase ⟨t.expiration, p⟩
    heap := Function.update q.heap p none
    activeTimers := q.activeTimers.erase (p, t.sequence) }

theorem cancelInLoop_active {sequence : Nat} (h : q.Keeps owned) (ha : (p, sequence) ∈ q.activeTimers) :
    ∃ t, q.heap p = some t ∧ t.sequence = sequence ∧ q.cancelInLoop (p, sequence) = some (q.removed p t) ∧
      (q.removed p t).Keeps owned := by
  obtain ⟨t, ht, rfl, hlisted⟩ := h.active _ ha
  have hsize : q.SameSize := h.card_eq
  have herase := h.erase ht hlisted
  have hdelete : (q.removed p t).Keeps owned := herase.delete
  have hsize' : (q.removed p t).SameSize := hdelete.card_eq
  have hgone : { q with timers := q.timers.erase ⟨t.expiration, p⟩ }.delete p =
      some { q with timers := q.timers.erase ⟨t.expiration, p⟩, heap := Function.update q.heap p none } := by
    simp [TimerQueue.delete, guard, ht]
  refine ⟨t, ht, rfl, ?_, hdelete⟩
  simp only [removed] at hsize'
  simp [cancelInLoop, guard, hsize, ha, ht, hlisted, hgone, hsize', removed]

theorem cancelInLoop_other {a : ActiveTimer} (h : q.Keeps owned) (ha : a ∉ q.activeTimers) :
    q.cancelInLoop a = some (if q.callingExpiredTimers then
      { q with cancelingTimers := Insert.insert a q.cancelingTimers } else q) := by
  have hsize : q.SameSize := h.card_eq
  cases hcalling : q.callingExpiredTimers <;> simp [cancelInLoop, guard, hsize, ha, hcalling]

/-- The entries before `sentry`. -/
def due (q : TimerQueue) (now : Timestamp) : List Entry := (q.timers.filter (· < ⟨now, UINTPTR_MAX⟩)).sort

theorem lt_sentry (h : q.Keeps owned) {e : Entry} (he : e ∈ q.timers) :
    e < ⟨now, UINTPTR_MAX⟩ ↔ e.expiration ≤ now := by
  obtain ⟨t, ht, -⟩ := h.listed e he
  have hbound : e.timer < UINTPTR_MAX := h.bounded e.timer (by simp [ht])
  rw [Entry.lt_iff]
  constructor
  · rintro (hlt | ⟨heq, -⟩)
    · exact hlt.le
    · exact heq.le
  · intro hle
    rcases hle.lt_or_eq with hlt | heq
    · exact .inl hlt
    · exact .inr ⟨heq, hbound⟩

theorem mem_due (h : q.Keeps owned) {e : Entry} : e ∈ q.due now ↔ e ∈ q.timers ∧ e.expiration ≤ now := by
  rw [due, Finset.mem_sort, Finset.mem_filter]
  exact and_congr_right fun he => lt_sentry h he

theorem eraseActive_eq {heap : TimerPtr → Option Timer} {n : Nat} {timers : Finset Entry}
    {activeTimers : Finset ActiveTimer} (expired : List Entry) (h : Books heap n timers activeTimers owned)
    (hnodup : expired.Nodup) (hmem : ∀ e ∈ expired, e ∈ timers) :
    ∃ activeTimers', eraseActive heap expired activeTimers = some activeTimers' ∧
      Books heap n (timers \ expired.toFinset) activeTimers' (expired.map Entry.timer ++ owned) := by
  induction expired generalizing timers activeTimers owned with
  | nil => exact ⟨activeTimers, rfl, by simpa using h⟩
  | cons e expired ih =>
    obtain ⟨hnot, hnodup⟩ := List.nodup_cons.mp hnodup
    have he := hmem e List.mem_cons_self
    obtain ⟨t, ht, hexp, hactive⟩ := h.listed e he
    have heq := h.entry_eq he ht
    have herase := h.erase ht (heq ▸ he)
    rw [← heq] at herase
    obtain ⟨activeTimers', hloop, hbooks⟩ := ih herase hnodup fun f hf =>
      Finset.mem_erase.mpr ⟨fun hfe => hnot (hfe ▸ hf), hmem f (List.mem_cons_of_mem _ hf)⟩
    refine ⟨activeTimers', ?_, ?_⟩
    · simpa [eraseActive, guard, ht, hactive] using hloop
    · have hset : timers.erase e \ expired.toFinset = timers \ (e :: expired).toFinset := by
        rw [List.toFinset_cons, Finset.sdiff_insert, Finset.erase_sdiff_distrib]
        simp [hnot]
      rw [hset] at hbooks
      exact hbooks.perm List.perm_middle

theorem begin_spec (timers : Finset Entry) :
    (begin timers = none ∧ timers = ∅) ∨ ∃ e ∈ timers, begin timers = some e ∧ ∀ f ∈ timers, e ≤ f := by
  by_cases hne : timers.Nonempty
  · exact .inr ⟨timers.min' hne, timers.min'_mem hne, dif_pos hne, fun f hf => timers.min'_le f hf⟩
  · exact .inl ⟨dif_neg hne, Finset.not_nonempty_iff_eq_empty.mp hne⟩

/-- **`getExpired` takes what has expired out of both sets**, and nothing else. -/
theorem getExpired_eq (h : q.Keeps owned) (now : Timestamp) : ∃ activeTimers',
    q.getExpired now = some (q.due now, { q with
      timers := q.timers.filter (⟨now, UINTPTR_MAX⟩ ≤ ·)
      activeTimers := activeTimers' }) ∧
    Books q.heap q.numCreated (q.timers.filter (⟨now, UINTPTR_MAX⟩ ≤ ·)) activeTimers'
      ((q.due now).map Entry.timer ++ owned) := by
  obtain ⟨activeTimers', hloop, hbooks⟩ := eraseActive_eq (q.due now) h (Finset.sort_nodup _ _)
    fun e he => ((mem_due h).mp he).1
  have hset : q.timers \ (q.due now).toFinset = q.timers.filter (⟨now, UINTPTR_MAX⟩ ≤ ·) := by
    ext e
    simp only [Finset.mem_sdiff, List.mem_toFinset, Finset.mem_filter]
    refine and_congr_right fun he => ?_
    rw [due, Finset.mem_sort, Finset.mem_filter, and_iff_right he, not_lt]
  rw [hset] at hbooks
  refine ⟨activeTimers', ?_, hbooks⟩
  have hend : ∀ e ∈ begin (q.timers.filter (⟨now, UINTPTR_MAX⟩ ≤ ·)), now < e.expiration := by
    intro e he
    rcases begin_spec (q.timers.filter (⟨now, UINTPTR_MAX⟩ ≤ ·)) with ⟨hnone, -⟩ | ⟨f, hf, hsome, -⟩
    · rw [hnone] at he
      cases he
    · rw [hsome] at he
      cases he
      obtain ⟨hmem, hle⟩ := Finset.mem_filter.mp hf
      exact not_le.mp ((lt_sentry h hmem).not.mp hle.not_gt)
  have hsize : q.SameSize := h.card_eq
  have hsize' : ({ q with
      timers := q.timers.filter (⟨now, UINTPTR_MAX⟩ ≤ ·), activeTimers := activeTimers' } : TimerQueue).SameSize :=
    hbooks.card_eq
  rw [due] at hloop
  simp only [getExpired, guard, hsize, if_true, Option.pure_def, Option.bind_eq_bind, Option.bind_some, hloop, hsize']
  rw [if_pos hend]
  rfl

end

end TimerQueue
end DictionaryServer.Muduo
