/-
The functors of an event loop (muduo/net/EventLoop.cc).

Any thread puts functors into `pendingFunctors_` under the mutex. The loop's
own thread polls, handles the channels that are ready and then swaps the queue
out and runs what was in it. `poll` may wait, so a thread that queues a functor
writes the event descriptor afterwards; the loop's thread does this only while
it runs functors, since after its events it swaps the queue out anyway.

The threads take turns in any order. The mutex is free again before `wakeup`,
so a thread that still has to call it is in the state (`waking`).
-/
import DictionaryServer.Lib.Pipes

namespace DictionaryServer.Muduo

open Lib

/-- Which thread it is. -/
abbrev Thread := Nat

/-- Where the loop's own thread is. -/
inductive LoopThread (φ : Type)
  | outside
  /-- At the test of the `while`. -/
  | test
  | poll
  /-- At the active channels; whether `wakeupChannel_` is one still to handle. -/
  | handle (wakeup : Bool)
  /-- In `doPendingFunctors`, with these functors still to run. -/
  | functors (rest : List φ)

namespace LoopThread

variable {φ : Type}

/-- The functors swapped out and not yet run. -/
def rest : LoopThread φ → List φ
  | .functors rest => rest
  | _ => []

/-- Code of the program can be running: the caller of `loop()`, or a callback. -/
def InCallback : LoopThread φ → Prop
  | .outside | .handle _ | .functors _ => True
  | .test | .poll => False

/-- The queue is swapped out before the next `poll`. -/
def BeforeSwap : LoopThread φ → Prop
  | .handle _ => True
  | _ => False

end LoopThread

structure EventLoop (φ : Type) where
  threadId : Thread
  quitFlag : Bool
  callingPendingFunctors : Bool
  pendingFunctors : List φ
  /-- The counter behind `wakeupFd_`. -/
  wakeupFd : Nat
  place : LoopThread φ
  /-- The threads that have still to call `wakeup`. -/
  waking : Thread → Bool

namespace EventLoop

variable {φ : Type}

def isInLoopThread (l : EventLoop φ) (t : Thread) : Bool := t = l.threadId

/-- The largest value an event descriptor takes; a write that would pass it
fails. -/
def maxCount : Nat := 0xfffffffffffffffe

def wakeup (l : EventLoop φ) (t : Thread) : EventLoop φ :=
  { l with
    wakeupFd := if l.wakeupFd + 1 ≤ maxCount then l.wakeupFd + 1 else l.wakeupFd
    waking := Function.update l.waking t false }

def queueInLoop (l : EventLoop φ) (t : Thread) (cb : φ) : EventLoop φ :=
  { l with
    pendingFunctors := l.pendingFunctors ++ [cb]
    waking := Function.update l.waking t (!l.isInLoopThread t || l.callingPendingFunctors) }

def quit (l : EventLoop φ) (t : Thread) : EventLoop φ :=
  { l with quitFlag := true, waking := Function.update l.waking t (!l.isInLoopThread t) }

/-- `loop()`, up to the first test. -/
def enter (l : EventLoop φ) : EventLoop φ := { l with quitFlag := false, place := .test }

/-- `while (!quit_)` -/
def test (l : EventLoop φ) : EventLoop φ := { l with place := if l.quitFlag then .outside else .poll }

/-- `poll` returns, at the timeout or with what is ready. -/
def poll (l : EventLoop φ) : EventLoop φ := { l with place := .handle (0 < l.wakeupFd) }

/-- `handleRead` takes the counter to zero. -/
def handleRead (l : EventLoop φ) : EventLoop φ := { l with wakeupFd := 0, place := .handle false }

/-- `doPendingFunctors`, up to the end of its critical section. -/
def swap (l : EventLoop φ) : EventLoop φ :=
  { l with callingPendingFunctors := true, pendingFunctors := [], place := .functors l.pendingFunctors }

/-- The end of `doPendingFunctors`. -/
def finish (l : EventLoop φ) : EventLoop φ := { l with callingPendingFunctors := false, place := .test }

/-! ## Runs -/

inductive Label (φ : Type)
  | enter
  | test
  | poll
  | handleRead
  | swap
  /-- A functor is called. -/
  | run (cb : φ)
  | finish
  | queueInLoop (t : Thread) (cb : φ)
  | wakeup (t : Thread)
  | quit (t : Thread)

/-- The loop's thread has no call of `wakeup` to make before it goes on. -/
def Free (l : EventLoop φ) : Prop := l.waking l.threadId = false

/-- The thread can call `queueInLoop` or `quit`. -/
def CanCall (l : EventLoop φ) (t : Thread) : Prop :=
  l.waking t = false ∧ (t = l.threadId → l.place.InCallback)

inductive Step (l : EventLoop φ) : Label φ → EventLoop φ → Prop
  | enter (hplace : l.place = .outside) (hfree : l.Free) : Step l .enter l.enter
  | test (hplace : l.place = .test) : Step l .test l.test
  | poll (hplace : l.place = .poll) : Step l .poll l.poll
  | handleRead (hplace : l.place = .handle true) (hfree : l.Free) : Step l .handleRead l.handleRead
  | swap (hplace : l.place = .handle false) (hfree : l.Free) : Step l .swap l.swap
  | run {cb rest} (hplace : l.place = .functors (cb :: rest)) (hfree : l.Free) :
      Step l (.run cb) { l with place := .functors rest }
  | finish (hplace : l.place = .functors []) (hfree : l.Free) : Step l .finish l.finish
  | queueInLoop {t cb} (hcall : l.CanCall t) : Step l (.queueInLoop t cb) (l.queueInLoop t cb)
  | wakeup {t} (hwaking : l.waking t = true) : Step l (.wakeup t) (l.wakeup t)
  | quit {t} (hcall : l.CanCall t) : Step l (.quit t) (l.quit t)

/-- A loop as its constructor leaves it. -/
def system (φ : Type) : System (EventLoop φ) (Label φ) where
  start l := l.quitFlag = false ∧ l.callingPendingFunctors = false ∧ l.pendingFunctors = [] ∧ l.wakeupFd = 0 ∧
    l.place = .outside ∧ ∀ t, l.waking t = false
  step := Step

/-- The functors queued, in order. -/
def queued (labels : List (Label φ)) : List φ :=
  labels.filterMap fun
    | .queueInLoop _ cb => some cb
    | _ => none

/-- The functors called, in order. -/
def called (labels : List (Label φ)) : List φ :=
  labels.filterMap fun
    | .run cb => some cb
    | _ => none

/-- The loop's own thread queues nothing outside of `loop()`. -/
def Within (l : EventLoop φ) (label : Label φ) (_ : EventLoop φ) : Prop :=
  ∀ cb, label = .queueInLoop l.threadId cb → l.place ≠ .outside

/-- What `poll` finds, or will find as soon as a thread has made its call. -/
def Roused (l : EventLoop φ) : Prop := 0 < l.wakeupFd ∨ ∃ t, l.waking t = true

variable {l l' l₀ : EventLoop φ} {label : Label φ} {labels : List (Label φ)}

@[simp] theorem queued_append (as bs : List (Label φ)) : queued (as ++ bs) = queued as ++ queued bs := by
  simp [queued]

@[simp] theorem called_append (as bs : List (Label φ)) : called (as ++ bs) = called as ++ called bs := by
  simp [called]

/-! ## Every functor once, in order -/

/-- The functors queued and not yet called. -/
def waiting (l : EventLoop φ) : List φ := l.place.rest ++ l.pendingFunctors

/-- What a step is at the queue. -/
def Label.act : Label φ → Pipes.Act Unit φ
  | .queueInLoop _ cb => .put () cb
  | .run cb => .take () cb
  | _ => .skip

theorem puts_act (labels : List (Label φ)) : Pipes.puts () (labels.map Label.act) = queued labels := by
  rw [Pipes.puts, queued, List.filterMap_map]
  refine List.filterMap_congr fun label _ => ?_
  cases label <;> rfl

theorem takes_act (labels : List (Label φ)) : Pipes.takes () (labels.map Label.act) = called labels := by
  rw [Pipes.takes, called, List.filterMap_map]
  refine List.filterMap_congr fun label _ => ?_
  cases label <;> rfl

theorem skip_pipe (h : l'.waiting = l.waiting) :
    Pipes.Step (fun _ : Unit => l.waiting) .skip (fun _ => l'.waiting) := h ▸ .skip

theorem put_pipe {cb : φ} (h : l'.waiting = l.waiting ++ [cb]) :
    Pipes.Step (fun _ => l.waiting) (.put () cb) (fun _ => l'.waiting) := by
  have hstep : Pipes.Step (fun _ => l.waiting) (.put () cb) (Function.update (fun _ => l.waiting) () (l.waiting ++ [cb])) := .put
  convert hstep using 1
  funext u
  simp [h]

theorem take_pipe {cb : φ} (h : l.waiting = cb :: l'.waiting) :
    Pipes.Step (fun _ => l.waiting) (.take () cb) (fun _ => l'.waiting) := by
  have hstep : Pipes.Step (fun _ => l.waiting) (.take () cb) (Function.update (fun _ => l.waiting) () l'.waiting) := .take h
  convert hstep using 1
  funext u
  simp

/-- **The queue and what is swapped out of it are one pipe.** -/
theorem Step.pipe (h : Step l label l') : Pipes.Step (fun _ => l.waiting) label.act (fun _ => l'.waiting) := by
  cases h with
  | queueInLoop => exact put_pipe (List.append_assoc _ _ _).symm
  | run hplace => exact take_pipe (by simp [waiting, hplace, LoopThread.rest])
  | wakeup | quit => exact skip_pipe rfl
  | enter hplace => exact skip_pipe (by simp [waiting, hplace, EventLoop.enter, LoopThread.rest])
  | test hplace =>
    refine skip_pipe ?_
    cases hquit : l.quitFlag <;> simp [waiting, hplace, EventLoop.test, hquit, LoopThread.rest]
  | poll hplace => exact skip_pipe (by simp [waiting, hplace, EventLoop.poll, LoopThread.rest])
  | handleRead hplace => exact skip_pipe (by simp [waiting, hplace, EventLoop.handleRead, LoopThread.rest])
  | swap hplace => exact skip_pipe (by simp [waiting, hplace, EventLoop.swap, LoopThread.rest])
  | finish hplace => exact skip_pipe (by simp [waiting, hplace, EventLoop.finish, LoopThread.rest])

theorem run_pipe (hr : (system φ).Run l labels l') :
    (Pipes.pipes Unit φ).Run (fun _ => l.waiting) (labels.map Label.act) (fun _ => l'.waiting) := by
  induction hr with
  | nil => exact .nil
  | snoc _ hs ih =>
    rw [List.map_append]
    exact ih.snoc (Step.pipe hs)

theorem queued_eq (h₀ : (system φ).start l₀) (hr : (system φ).Run l₀ labels l) :
    queued labels = called labels ++ l.waiting := by
  have hempty : l₀.waiting = [] := by
    obtain ⟨-, -, hpending, -, hplace, -⟩ := h₀
    simp [waiting, hpending, hplace, LoopThread.rest]
  have hpipe := Pipes.conserved (run_pipe hr) ()
  rwa [hempty, List.nil_append, puts_act, takes_act] at hpipe

theorem pending_suffix (hr : (system φ).Run l labels l') (hpending : l.pendingFunctors = []) :
    l'.pendingFunctors <:+ queued labels := by
  induction hr with
  | nil => simp [hpending]
  | @snoc labels l₁ label l₂ hr hs ih =>
    rw [queued_append]
    cases hs with
    | @queueInLoop t cb =>
      obtain ⟨pre, hpre⟩ := ih
      refine ⟨pre, ?_⟩
      rw [← hpre, List.append_assoc]
      rfl
    | swap => exact List.nil_suffix
    | enter | test | poll | handleRead | run | finish | wakeup | quit =>
      rw [show queued labels ++ queued [_] = queued labels from List.append_nil _]
      exact ih

/-! ## No sleep over a functor -/

/-- Whatever waits outside of the loop's events has roused it. -/
structure Awake (l : EventLoop φ) : Prop where
  calling : l.callingPendingFunctors = true ↔ ∃ rest, l.place = .functors rest
  work : ¬l.place.BeforeSwap → l.pendingFunctors ≠ [] → l.Roused
  quitting : l.place = .poll → l.quitFlag = true → l.Roused

theorem Roused.call (h : l.Roused) {t : Thread} (ht : l.waking t = false) (b : Bool) {l' : EventLoop φ}
    (hfd : l'.wakeupFd = l.wakeupFd) (hwaking : l'.waking = Function.update l.waking t b) : l'.Roused := by
  rcases h with h | ⟨t', ht'⟩
  · exact .inl (hfd ▸ h)
  · refine .inr ⟨t', ?_⟩
    have hne : t' ≠ t := fun heq => by simp [← heq, ht'] at ht
    simpa [hwaking, hne] using ht'

theorem roused_wakeup (l : EventLoop φ) (t : Thread) : (l.wakeup t).Roused := by
  refine .inl ?_
  have hmax : 0 < maxCount := by decide
  by_cases hroom : l.wakeupFd + 1 ≤ maxCount
  · simp [wakeup, hroom]
  · simp only [wakeup, hroom, if_false]
    omega

theorem Awake.step (h : l.Awake) (hs : Step l label l') (hin : Within l label l') : l'.Awake := by
  cases hs with
  | enter hplace =>
    have hcalling : l.callingPendingFunctors = false := by
      simpa [hplace] using h.calling
    exact ⟨by simp [enter, hcalling], fun _ => h.work (by simp [hplace, LoopThread.BeforeSwap]), by simp [enter]⟩
  | test hplace =>
    have hcalling : l.callingPendingFunctors = false := by
      simpa [hplace] using h.calling
    refine ⟨?_, fun _ => h.work (by simp [hplace, LoopThread.BeforeSwap]), ?_⟩
    · cases hquit : l.quitFlag <;> simp [test, hquit, hcalling]
    · cases hquit : l.quitFlag <;> simp [test, hquit]
  | poll hplace =>
    have hcalling : l.callingPendingFunctors = false := by
      simpa [hplace] using h.calling
    exact ⟨by simp [poll, hcalling], fun hswap => absurd trivial hswap, by simp [poll]⟩
  | handleRead hplace =>
    have hcalling : l.callingPendingFunctors = false := by
      simpa [hplace] using h.calling
    exact ⟨by simp [handleRead, hcalling], fun hswap => absurd trivial hswap, by simp [handleRead]⟩
  | swap hplace => exact ⟨by simp [swap], by simp [swap], by simp [swap]⟩
  | run hplace =>
    have hcalling := h.calling.mpr ⟨_, hplace⟩
    exact ⟨by simp [hcalling], fun _ => h.work (by simp [hplace, LoopThread.BeforeSwap]), by simp⟩
  | finish hplace =>
    exact ⟨by simp [finish], fun _ => h.work (by simp [hplace, LoopThread.BeforeSwap]), by simp [finish]⟩
  | wakeup => exact ⟨h.calling, fun _ _ => roused_wakeup l _, fun _ _ => roused_wakeup l _⟩
  | @queueInLoop t cb hcall =>
    refine ⟨h.calling, fun hswap _ => ?_, fun hplace hquit => (h.quitting hplace hquit).call hcall.1 _ rfl rfl⟩
    -- Only in its own events may a thread queue without a call of `wakeup`.
    refine .inr ⟨t, ?_⟩
    by_cases ht : t = l.threadId
    · have hcallback := hcall.2 ht
      have houtside := hin cb (ht ▸ rfl)
      have hplace : ∃ rest, l.place = .functors rest := by
        change ¬l.place.BeforeSwap at hswap
        cases hl : l.place <;> simp_all [LoopThread.BeforeSwap, LoopThread.InCallback]
      simp [queueInLoop, h.calling.mpr hplace]
    · simp [queueInLoop, isInLoopThread, ht]
  | @quit t hcall =>
    refine ⟨h.calling, fun hswap hne => (h.work hswap hne).call hcall.1 _ rfl rfl, fun hplace _ => .inr ⟨t, ?_⟩⟩
    have ht : t ≠ l.threadId := by
      intro ht
      have hcallback := hcall.2 ht
      rw [show l.place = .poll from hplace] at hcallback
      exact hcallback
    simp [quit, isInLoopThread, ht]

theorem awake_start (h₀ : (system φ).start l) : l.Awake := by
  obtain ⟨hquit, hcalling, hpending, -, hplace, -⟩ := h₀
  exact ⟨by simp [hcalling, hplace], by simp [hpending], by simp [hplace]⟩

theorem awake_invariant (φ : Type) : ((system φ).restrict Within).Invariant Awake where
  start _ := awake_start
  step _ _ _ h hs := h.step hs.1 hs.2

/-- **Every functor is called once and in order, and the loop does not sleep on
it.** When `poll` is entered everything is called that was queued before the
last swap; what was queued since, or a call of `quit`, makes `poll` return. -/
theorem functors_called (h₀ : (system φ).start l₀) (hr : ((system φ).restrict Within).Run l₀ labels l) :
    queued labels = called labels ++ l.waiting ∧
      (l.place = .poll → (l.waiting ≠ [] ∨ l.quitFlag = true) → l.Roused) ∧
      ∀ as bs, labels = as ++ .swap :: bs → l.place = .poll → queued as <+: called labels := by
  refine ⟨queued_eq h₀ hr.of_restrict, ?_, ?_⟩
  · intro hplace hwork
    have hawake := (awake_invariant φ).reachable ⟨l₀, labels, h₀, hr⟩
    rcases hwork with hne | hquit
    · refine hawake.work (by simp [hplace, LoopThread.BeforeSwap]) ?_
      simpa [waiting, hplace, LoopThread.rest] using hne
    · exact hawake.quitting hplace hquit
  · intro as bs hlabels hplace
    subst hlabels
    have hall := queued_eq h₀ hr.of_restrict
    obtain ⟨l₁, hr₁, hr₂⟩ := (List.append_cons as .swap bs ▸ hr.of_restrict).of_append
    have hpending : l₁.pendingFunctors = [] := by
      obtain ⟨l₂, -, hs⟩ := hr₁.last
      cases hs with
      | swap => rfl
    obtain ⟨since, hsince⟩ := pending_suffix hr₂ hpending
    have hwaiting : l.waiting = l.pendingFunctors := by simp [waiting, hplace, LoopThread.rest]
    rw [hwaiting, queued_append, show queued (.swap :: bs) = queued bs from rfl, ← hsince, ← List.append_assoc] at hall
    exact ⟨since, List.append_cancel_right hall⟩

/-! ## Before the loop -/

/-- The loop of thread 0, as it is made. -/
def made : EventLoop Nat where
  threadId := 0
  quitFlag := false
  callingPendingFunctors := false
  pendingFunctors := []
  wakeupFd := 0
  place := .outside
  waking _ := false

theorem made_start : (system Nat).start made := ⟨rfl, rfl, rfl, rfl, rfl, fun _ => rfl⟩

theorem within_enter (l l' : EventLoop Nat) : Within l .enter l' := by intro cb heq; cases heq

theorem within_test (l l' : EventLoop Nat) : Within l .test l' := by intro cb heq; cases heq

/-- Another thread queues a functor while `poll` waits. -/
theorem functors_called_one : ∃ labels l, ((system Nat).restrict Within).Run made labels l ∧
    l.place = .poll ∧ l.waiting = [7] ∧ l.Roused := by
  have hpoll : made.enter.test.CanCall 1 := ⟨rfl, fun heq => absurd heq (by decide)⟩
  have hother : Within made.enter.test (.queueInLoop 1 7) (made.enter.test.queueInLoop 1 7) := by
    intro cb heq
    cases heq
  have h₁ : ((system Nat).restrict Within).step made .enter made.enter := ⟨Step.enter rfl rfl, within_enter _ _⟩
  have h₂ : ((system Nat).restrict Within).step made.enter .test made.enter.test := ⟨Step.test rfl, within_test _ _⟩
  have h₃ : ((system Nat).restrict Within).step made.enter.test (.queueInLoop 1 7) (made.enter.test.queueInLoop 1 7) :=
    ⟨Step.queueInLoop hpoll, hother⟩
  have hr := ((System.Run.single h₁).snoc h₂).snoc h₃
  exact ⟨_, _, hr, rfl, rfl, (functors_called made_start hr).2.1 rfl (.inl (List.cons_ne_nil _ _))⟩

/-- **What its own thread queues before `loop()` rouses nobody**: the first
`poll` waits with a functor in the queue. -/
theorem sleeps_before_loop : ∃ labels l, (system Nat).Run made labels l ∧
    l.place = .poll ∧ l.waiting = [7] ∧ ¬l.Roused := by
  have h₁ : (system Nat).step made (.queueInLoop 0 7) (made.queueInLoop 0 7) :=
    Step.queueInLoop ⟨rfl, fun _ => trivial⟩
  have h₂ : (system Nat).step (made.queueInLoop 0 7) .enter (made.queueInLoop 0 7).enter := Step.enter rfl rfl
  have h₃ : (system Nat).step (made.queueInLoop 0 7).enter .test (made.queueInLoop 0 7).enter.test := Step.test rfl
  have hr := ((System.Run.single h₁).snoc h₂).snoc h₃
  refine ⟨_, _, hr, rfl, rfl, ?_⟩
  intro hroused
  rcases hroused with hfd | ⟨t, ht⟩
  · exact absurd hfd (Nat.lt_irrefl 0)
  · by_cases hzero : t = 0
    · subst hzero
      exact absurd ht (by decide)
    · simp [EventLoop.test, enter, queueInLoop, made, hzero] at ht

end EventLoop
end DictionaryServer.Muduo
