/-
What the peers of `DispatchServer` are given.

Each loop is given every message, in the order in which `OnStringMessage` had
the lock: the lock covers the queueing in all loops, and a loop's tasks are a
pipe of `Lib.Pipes`. Each peer is given what its loop runs from the time it is
in `LocalPeers`. Three accounts say so, one for each place a message waits in
(`queued_step`, `Lib.Pipes.conserved`, `sentTo_step`), and a fourth follows a
message from `SendData` to the lock when one thread drains (`drained_step`).
-/
import DictionaryServer.Lib.Pipes
import DictionaryServer.Sender.DispatchServer

namespace DictionaryServer.DispatchServer

open Lib Sender

variable {n : Nat} {owner : PeerPtr → Fin n} {s s' s₀ : DispatchServer n} {l : Label n}

@[simp] theorem setLoop_drainer (s : DispatchServer n) (i : Fin n) (loop : EventLoop) :
    (s.setLoop i loop).drainer = s.drainer := rfl

@[simp] theorem setLoop_mutex (s : DispatchServer n) (i : Fin n) (loop : EventLoop) :
    (s.setLoop i loop).mutex = s.mutex := rfl

@[simp] theorem setLoop_datas (s : DispatchServer n) (i : Fin n) (loop : EventLoop) :
    (s.setLoop i loop).datas = s.datas := rfl

@[simp] theorem setLoop_loop (s : DispatchServer n) (i : Fin n) (loop : EventLoop) :
    (s.setLoop i loop).loop = Function.update s.loop i loop := rfl

@[simp] theorem setDrainer_loop (s : DispatchServer n) (t : Thread) (d : Drainer n) : (s.setDrainer t d).loop = s.loop := rfl

@[simp] theorem setDrainer_mutex (s : DispatchServer n) (t : Thread) (d : Drainer n) :
    (s.setDrainer t d).mutex = s.mutex := rfl

@[simp] theorem setDrainer_datas (s : DispatchServer n) (t : Thread) (d : Drainer n) :
    (s.setDrainer t d).datas = s.datas := rfl

@[simp] theorem setDrainer_drainer (s : DispatchServer n) (t : Thread) (d : Drainer n) :
    (s.setDrainer t d).drainer = Function.update s.drainer t d := rfl

/-! ## The tasks of a loop -/

def pending (s : DispatchServer n) (i : Fin n) : List Bytes := (s.loop i).pendingFunctors

/-- What a step is at the loops' queues. -/
def Label.act : Label n → Pipes.Act (Fin n) Bytes
  | .queueInPeer _ i message => .put i message
  | .run i message => .take i message
  | _ => .skip

theorem pending_setLoop (s : DispatchServer n) (i : Fin n) (loop : EventLoop) :
    (s.setLoop i loop).pending = Function.update s.pending i loop.pendingFunctors := by
  funext j
  by_cases hj : j = i
  · subst hj; simp [pending]
  · simp [pending, hj]

theorem pending_setLoop_same {i : Fin n} {loop : EventLoop} (h : loop.pendingFunctors = s.pending i) :
    (s.setLoop i loop).pending = s.pending := by
  rw [pending_setLoop, h, Function.update_eq_self]

@[simp] theorem pending_setDrainer (s : DispatchServer n) (t : Thread) (d : Drainer n) :
    (s.setDrainer t d).pending = s.pending := rfl

/-- **The loops' queues are pipes.** -/
theorem Step.pipes (h : Step owner s l s') : Pipes.Step s.pending l.act s'.pending := by
  cases h with
  | Start | SendData | test | take | lock | unlock => exact .skip
  | @queueInPeer t i message loops =>
    rw [pending_setDrainer, pending_setLoop]
    exact .put
  | OnConnection | Send | finish =>
    rw [pending_setLoop_same (by rfl)]
    exact .skip
  | run _ hpending =>
    rw [pending_setLoop]
    exact .take hpending

theorem run_pipes {labels : List (Label n)} (hr : (system owner).Run s labels s') :
    (Pipes.pipes (Fin n) Bytes).Run s.pending (labels.map Label.act) s'.pending := by
  induction hr with
  | nil => exact .nil
  | snoc _ hs ih =>
    rw [List.map_append]
    exact ih.snoc hs.pipes

/-- The messages a loop has begun to send. -/
def begun (i : Fin n) (labels : List (Label n)) : List Bytes := Pipes.takes i (labels.map Label.act)

@[simp] theorem begun_append (i : Fin n) (as bs : List (Label n)) : begun i (as ++ bs) = begun i as ++ begun i bs := by
  simp [begun]

@[simp] theorem dispatched_append (as bs : List (Label n)) : dispatched (as ++ bs) = dispatched as ++ dispatched bs := by
  simp [dispatched]

@[simp] theorem accepted_append (as bs : List (Label n)) : accepted (as ++ bs) = accepted as ++ accepted bs := by
  simp [accepted]

@[simp] theorem sentTo_append (peer : PeerPtr) (as bs : List (Label n)) :
    sentTo peer (as ++ bs) = sentTo peer as ++ sentTo peer bs := by
  simp [sentTo]

/-! ## Under the lock -/

/-- Who has the lock is queueing, in loops that differ. -/
structure Locked (s : DispatchServer n) : Prop where
  holder : ∀ t, s.mutex = some t ↔ ∃ message loops, s.drainer t = .queueing message loops
  nodup : ∀ t message loops, s.drainer t = .queueing message loops → loops.Nodup

/-- The message still to be queued in a loop by who has the lock. -/
def inflight (s : DispatchServer n) (i : Fin n) : List Bytes :=
  match s.mutex with
  | none => []
  | some t =>
    match s.drainer t with
    | .queueing message loops => if i ∈ loops then [message] else []
    | _ => []

theorem inflight_free (h : s.mutex = none) (i : Fin n) : s.inflight i = [] := by simp [inflight, h]

theorem inflight_queueing {t : Thread} {message : Bytes} {loops : List (Fin n)} (hmutex : s.mutex = some t)
    (h : s.drainer t = .queueing message loops) (i : Fin n) : s.inflight i = if i ∈ loops then [message] else [] := by
  simp [inflight, hmutex, h]

@[simp] theorem inflight_setLoop (s : DispatchServer n) (i j : Fin n) (loop : EventLoop) :
    (s.setLoop i loop).inflight j = s.inflight j := rfl

theorem inflight_setDrainer {t : Thread} (h : s.mutex ≠ some t) (d : Drainer n) (i : Fin n) :
    (s.setDrainer t d).inflight i = s.inflight i := by
  rcases hmutex : s.mutex with _ | t'
  · simp [inflight, hmutex]
  · have hne : t' ≠ t := fun heq => h (heq ▸ hmutex)
    simp [inflight, hmutex, hne]

theorem Locked.not_holder (h : s.Locked) {t : Thread} (hd : ∀ message loops, s.drainer t ≠ .queueing message loops) :
    s.mutex ≠ some t := by
  intro hmutex
  obtain ⟨message, loops, hqueueing⟩ := (h.holder t).mp hmutex
  exact hd message loops hqueueing

/-- One thread goes on: it has the lock if it is queueing then, and the others
have it as before. -/
theorem Locked.update (h : s.Locked) {t : Thread} {d : Drainer n} (hdrainer : s'.drainer = Function.update s.drainer t d)
    (hself : s'.mutex = some t ↔ ∃ message loops, d = .queueing message loops)
    (hother : ∀ t' ≠ t, s'.mutex = some t' ↔ s.mutex = some t')
    (hd : ∀ message loops, d = .queueing message loops → loops.Nodup) : s'.Locked := by
  constructor
  · intro t'
    rw [hdrainer]
    by_cases ht : t' = t
    · subst ht
      simpa using hself
    · simpa [ht] using (hother t' ht).trans (h.holder t')
  · intro t' message loops hqueueing
    rw [hdrainer] at hqueueing
    by_cases ht : t' = t
    · subst ht
      exact hd message loops (by simpa using hqueueing)
    · exact h.nodup t' message loops (by simpa [ht] using hqueueing)

theorem Locked.setDrainer (h : s.Locked) {t : Thread} {d : Drainer n} (hs : ∀ message loops, s.drainer t ≠ .queueing message loops)
    (hd : ∀ message loops, d ≠ .queueing message loops) : (s.setDrainer t d).Locked := by
  refine h.update rfl ?_ (fun _ _ => Iff.rfl) (fun message loops hqueueing => absurd hqueueing (hd message loops))
  exact iff_of_false (h.not_holder hs) (by simp [hd])

theorem Locked.step (h : s.Locked) (hs : Step owner s l s') : s'.Locked := by
  cases hs with
  | Start | SendData | OnConnection | run | Send | finish => exact ⟨h.holder, h.nodup⟩
  | test hidle => exact h.setDrainer (by simp [hidle]) nofun
  | @take t message datas htaking =>
    have h' : Locked { s with datas := datas } := ⟨h.holder, h.nodup⟩
    exact h'.setDrainer (by simp [htaking]) nofun
  | @lock t message hwaiting hmutex =>
    refine h.update rfl (by simp) ?_ ?_
    · intro t' ht
      simp [hmutex, Ne.symm ht]
    · intro message' loops hqueueing
      cases hqueueing
      exact List.nodup_finRange n
  | @queueInPeer t i message loops hqueueing =>
    have hmutex := (h.holder t).mpr ⟨_, _, hqueueing⟩
    refine h.update rfl (by simp [hmutex]) (fun _ _ => Iff.rfl) ?_
    intro message' loops' hqueueing'
    cases hqueueing'
    exact (h.nodup t message _ hqueueing).of_cons
  | @unlock t message hqueueing =>
    have hmutex := (h.holder t).mpr ⟨_, _, hqueueing⟩
    refine h.update rfl (by simp) ?_ nofun
    intro t' ht
    simp [hmutex, Ne.symm ht]

/-- **What is dispatched is queued in every loop**, or about to be. -/
theorem queued_step (h : s.Locked) (hs : Step owner s l s') (i : Fin n) :
    Pipes.puts i [l.act] ++ s'.inflight i = s.inflight i ++ dispatched [l] := by
  cases hs with
  | Start | SendData | OnConnection | run | Send | finish => simp [Label.act, Pipes.puts, dispatched, inflight]
  | test hidle =>
    rw [inflight_setDrainer (h.not_holder (by simp [hidle]))]
    simp [Label.act, Pipes.puts, dispatched]
  | @take t message datas htaking =>
    rw [inflight_setDrainer (s := { s with datas := datas }) (h.not_holder (by simp [htaking]))]
    simp [Label.act, Pipes.puts, dispatched, inflight]
  | @lock t message hwaiting hmutex =>
    rw [inflight_free hmutex, inflight_queueing rfl (Function.update_self t _ _), if_pos (List.mem_finRange i)]
    simp [Label.act, Pipes.puts, dispatched]
  | @queueInPeer t j message loops hqueueing =>
    have hmutex := (h.holder t).mpr ⟨_, _, hqueueing⟩
    have hnodup := List.nodup_cons.mp (h.nodup t message _ hqueueing)
    rw [inflight_queueing hmutex hqueueing, inflight_queueing (by simpa using hmutex) (Function.update_self t _ _)]
    by_cases hi : i = j
    · subst hi
      simp [Label.act, Pipes.puts, dispatched, hnodup.1]
    · simp [Label.act, Pipes.puts, dispatched, hi, Ne.symm hi]
  | @unlock t message hqueueing =>
    have hmutex := (h.holder t).mpr ⟨_, _, hqueueing⟩
    rw [inflight_queueing hmutex hqueueing, inflight_free rfl]
    simp [Label.act, Pipes.puts, dispatched]

theorem locked_start (h₀ : (system owner).start s) : s.Locked := by
  obtain ⟨-, -, hmutex, hidle, -⟩ := h₀
  exact ⟨fun t => by simp [hmutex, hidle], fun t message loops hqueueing => by simp [hidle] at hqueueing⟩

theorem locked_invariant (owner : PeerPtr → Fin n) : (system owner).Invariant Locked where
  start _ := locked_start
  step _ _ _ h hs := h.step hs

/-- **What was dispatched**, from where a loop is. -/
theorem dispatched_eq (h₀ : (system owner).start s₀) {labels : List (Label n)} (hr : (system owner).Run s₀ labels s)
    (i : Fin n) : begun i labels ++ (s.pending i ++ s.inflight i) = dispatched labels := by
  have hempty : s₀.pending i = [] := by
    obtain ⟨-, -, -, -, hloop⟩ := h₀
    simp [pending, hloop]
  have hqueued : Pipes.puts i (labels.map Label.act) ++ s.inflight i = dispatched labels := by
    induction hr with
    | nil =>
      obtain ⟨-, -, hmutex, -⟩ := h₀
      simp [Pipes.puts, dispatched, inflight_free hmutex]
    | @snoc labels s₁ l s₂ hr hs ih =>
      have hlocked := hr.keeps (locked_invariant owner).step (locked_start h₀)
      simp only [List.map_append, List.map_cons, List.map_nil, Pipes.puts_append, dispatched_append, List.append_assoc]
      rw [queued_step hlocked hs, ← List.append_assoc, ih]
  have hpipe := Pipes.conserved (run_pipes hr) i
  rw [hempty, List.nil_append] at hpipe
  rw [← hqueued, hpipe, begun, List.append_assoc]

/-! ## The peers of a loop -/

theorem mem_insertPeer {peer peer' : PeerPtr} {peers : List PeerPtr} :
    peer' ∈ insertPeer peer peers ↔ peer' = peer ∨ peer' ∈ peers := by
  unfold insertPeer
  split
  · next hmem =>
    constructor
    · exact .inr
    · intro h
      rcases h with rfl | h
      · exact hmem
      · exact h
  · exact List.mem_orderedInsert _

theorem nodup_insertPeer {peer : PeerPtr} {peers : List PeerPtr} (h : peers.Nodup) : (insertPeer peer peers).Nodup := by
  unfold insertPeer
  split
  · exact h
  · next hmem => exact (List.perm_orderedInsert _ peer peers).nodup_iff.mpr (List.nodup_cons.mpr ⟨hmem, h⟩)

/-- A loop's peers are its own, and the running task sends to each once. -/
structure Homed (owner : PeerPtr → Fin n) (i : Fin n) (loop : EventLoop) : Prop where
  own : ∀ peer ∈ loop.localPeers, owner peer = i
  nodup : loop.localPeers.Nodup
  running : ∀ message peers, loop.running = some (message, peers) → peers.Nodup ∧ peers ⊆ loop.localPeers

/-- What a step is in one loop. -/
inductive LoopStep (owner : PeerPtr → Fin n) (i : Fin n) (loop : EventLoop) : Label n → EventLoop → Prop
  | other {label : Label n} (hrun : ∀ message, label ≠ .run i message)
      (hsend : ∀ peer sent, label = .Send peer sent → owner peer ≠ i) : LoopStep owner i loop label loop
  | queueInPeer {t message} :
      LoopStep owner i loop (.queueInPeer t i message)
        { loop with pendingFunctors := loop.pendingFunctors ++ [message] }
  | OnConnection {peer} (howner : owner peer = i) (hrunning : loop.running = none) :
      LoopStep owner i loop (.OnConnection peer) { loop with localPeers := insertPeer peer loop.localPeers }
  | run {message pendingFunctors} (hrunning : loop.running = none) :
      LoopStep owner i loop (.run i message)
        { loop with pendingFunctors := pendingFunctors, running := some (message, loop.localPeers) }
  | Send {message peer peers} (howner : owner peer = i) (hrunning : loop.running = some (message, peer :: peers)) :
      LoopStep owner i loop (.Send peer message) { loop with running := some (message, peers) }
  | finish {message} (hrunning : loop.running = some (message, [])) :
      LoopStep owner i loop (.finish i) { loop with running := none }

theorem LoopStep.update {i j : Fin n} {loop : EventLoop} (hi : LoopStep owner i (s.loop i) l loop)
    (hother : ∀ j ≠ i, LoopStep owner j (s.loop j) l (s.loop j)) :
    LoopStep owner j (s.loop j) l ((s.setLoop i loop).loop j) := by
  by_cases hj : j = i
  · subst hj; simpa using hi
  · simpa [hj] using hother j hj

theorem Step.loop (h : ∀ i, Homed owner i (s.loop i)) (hs : Step owner s l s') (i : Fin n) :
    LoopStep owner i (s.loop i) l (s'.loop i) := by
  cases hs with
  | Start | SendData | test | take | lock | unlock => exact .other nofun nofun
  | queueInPeer => exact LoopStep.update .queueInPeer fun _ _ => .other nofun nofun
  | OnConnection hloop => exact LoopStep.update (.OnConnection rfl hloop) fun _ _ => .other nofun nofun
  | run hloop =>
    refine LoopStep.update (.run hloop) ?_
    intro j hj
    refine .other ?_ nofun
    intro message heq
    cases heq
    exact hj rfl
  | @Send j message peer peers sent hloop hsent =>
    rw [Send_eq, Option.some_inj] at hsent
    subst hsent
    have hown := (h j).own peer (((h j).running message _ hloop).2 List.mem_cons_self)
    refine LoopStep.update (.Send hown hloop) ?_
    intro k hk
    refine .other nofun ?_
    intro peer' sent' heq
    cases heq
    exact fun heq => hk (heq.symm.trans hown)
  | finish hloop => exact LoopStep.update (.finish hloop) fun _ _ => .other nofun nofun

variable {i : Fin n} {loop loop' : EventLoop} {peer : PeerPtr}

theorem LoopStep.homed (hs : LoopStep owner i loop l loop') (h : Homed owner i loop) : Homed owner i loop' := by
  cases hs with
  | other => exact h
  | queueInPeer => exact ⟨h.own, h.nodup, h.running⟩
  | OnConnection howner hrunning =>
    refine ⟨?_, nodup_insertPeer h.nodup, ?_⟩
    · intro peer hmem
      rcases mem_insertPeer.mp hmem with rfl | hmem
      · exact howner
      · exact h.own peer hmem
    · intro message peers hrunning'
      cases hrunning.symm.trans hrunning'
  | run =>
    refine ⟨h.own, h.nodup, ?_⟩
    intro message peers hrunning
    cases hrunning
    exact ⟨h.nodup, fun _ hmem => hmem⟩
  | Send howner hrunning =>
    obtain ⟨hnodup, hsubset⟩ := h.running _ _ hrunning
    refine ⟨h.own, h.nodup, ?_⟩
    intro message peers hrunning'
    cases hrunning'
    exact ⟨hnodup.of_cons, fun _ hmem => hsubset (List.mem_cons_of_mem _ hmem)⟩
  | finish =>
    refine ⟨h.own, h.nodup, ?_⟩
    intro message peers hrunning
    cases hrunning

theorem homed_invariant (owner : PeerPtr → Fin n) :
    (system owner).Invariant fun s => ∀ i, Homed owner i (s.loop i) where
  start s h₀ i := by
    obtain ⟨-, -, -, -, hloop⟩ := h₀
    rw [hloop]
    exact ⟨nofun, List.nodup_nil, nofun⟩
  step _ _ _ h hs i := (hs.loop h i).homed (h i)

/-- The message the running task still has to give to a peer. -/
def due (loop : EventLoop) (peer : PeerPtr) : List Bytes :=
  match loop.running with
  | none => []
  | some (message, peers) => if peer ∈ peers then [message] else []

theorem LoopStep.stays (hs : LoopStep owner i loop l loop') (hpeer : peer ∈ loop.localPeers) :
    peer ∈ loop'.localPeers := by
  cases hs with
  | OnConnection => exact mem_insertPeer.mpr (.inr hpeer)
  | other | queueInPeer | run | Send | finish => exact hpeer

theorem sentTo_other (h : ∀ peer' sent, l = .Send peer' sent → owner peer' ≠ owner peer) : sentTo peer [l] = [] := by
  cases l with
  | Send peer' sent =>
    have hp : peer' ≠ peer := fun heq => h peer' sent rfl (congrArg owner heq)
    simp [sentTo, hp]
  | _ => rfl

/-- **What its loop begins to send, a peer in it is given**, or about to be. -/
theorem LoopStep.sentTo (hs : LoopStep owner (owner peer) loop l loop') (h : Homed owner (owner peer) loop)
    (hpeer : peer ∈ loop.localPeers) :
    sentTo peer [l] ++ due loop' peer = due loop peer ++ begun (owner peer) [l] := by
  cases hs with
  | other hrun hsend =>
    have hbegun : begun (owner peer) [l] = [] := by
      cases l with
      | run j message =>
        have hj : j ≠ owner peer := fun heq => hrun message (heq ▸ rfl)
        simp [begun, Pipes.takes, Label.act, hj]
      | _ => rfl
    rw [hbegun, sentTo_other hsend, List.nil_append, List.append_nil]
  | queueInPeer => simp [DispatchServer.sentTo, begun, Pipes.takes, Label.act, due]
  | OnConnection howner hrunning => simp [DispatchServer.sentTo, begun, Pipes.takes, Label.act, due, hrunning]
  | run hrunning => simp [DispatchServer.sentTo, begun, Pipes.takes, Label.act, due, hrunning, hpeer]
  | @Send message peer' peers howner hrunning =>
    have hnot := (List.nodup_cons.mp (h.running _ _ hrunning).1).1
    by_cases hp : peer = peer'
    · subst hp
      simp [DispatchServer.sentTo, begun, Pipes.takes, Label.act, due, hrunning, hnot]
    · simp [DispatchServer.sentTo, begun, Pipes.takes, Label.act, due, hrunning, hp, Ne.symm hp]
  | finish hrunning => simp [DispatchServer.sentTo, begun, Pipes.takes, Label.act, due, hrunning]

theorem LoopStep.absent (hs : LoopStep owner (owner peer) loop l loop') (h : Homed owner (owner peer) loop)
    (hpeer : peer ∉ loop.localPeers) :
    DispatchServer.sentTo peer [l] = [] ∧ (peer ∈ loop'.localPeers → due loop' peer = [] ∧ begun (owner peer) [l] = []) := by
  cases hs with
  | other hrun hsend => exact ⟨sentTo_other hsend, fun hmem => absurd hmem hpeer⟩
  | OnConnection howner hrunning => exact ⟨rfl, fun _ => ⟨by simp [due, hrunning], rfl⟩⟩
  | @Send message peer' peers howner hrunning =>
    refine ⟨?_, fun hmem => absurd hmem hpeer⟩
    have hmem := (h.running _ _ hrunning).2 List.mem_cons_self
    have hp : peer' ≠ peer := fun heq => hpeer (heq ▸ hmem)
    simp [DispatchServer.sentTo, hp]
  | queueInPeer | run | finish => exact ⟨rfl, fun hmem => absurd hmem hpeer⟩

/-- A peer in its loop was given what the loop began to send, but for the
first `k` messages. -/
def Joined (owner : PeerPtr → Fin n) (labels : List (Label n)) (s : DispatchServer n) (peer : PeerPtr) (k : Nat) : Prop :=
  peer ∈ (s.loop (owner peer)).localPeers ∧ k ≤ (begun (owner peer) labels).length ∧
    sentTo peer labels ++ due (s.loop (owner peer)) peer = (begun (owner peer) labels).drop k

theorem Joined.step {labels : List (Label n)} {k : Nat} (hj : Joined owner labels s peer k)
    (h : ∀ i, Homed owner i (s.loop i)) (hs : Step owner s l s') : Joined owner (labels ++ [l]) s' peer k := by
  obtain ⟨hpeer, hk, hsent⟩ := hj
  have hloop := hs.loop h (owner peer)
  refine ⟨hloop.stays hpeer, ?_, ?_⟩
  · rw [begun_append, List.length_append]
    exact Nat.le_add_right_of_le hk
  · rw [begun_append, sentTo_append, List.append_assoc, hloop.sentTo (h _) hpeer, ← List.append_assoc, hsent,
      List.drop_append_of_le_length hk]

/-- Before it is in its loop it was given nothing. -/
def Absent (owner : PeerPtr → Fin n) (labels : List (Label n)) (s : DispatchServer n) (peer : PeerPtr) : Prop :=
  peer ∉ (s.loop (owner peer)).localPeers ∧ sentTo peer labels = []

theorem Absent.step {labels : List (Label n)} (ha : Absent owner labels s peer) (h : ∀ i, Homed owner i (s.loop i))
    (hs : Step owner s l s') : Absent owner (labels ++ [l]) s' peer ∨ ∃ k, Joined owner (labels ++ [l]) s' peer k := by
  obtain ⟨hpeer, hsent⟩ := ha
  obtain ⟨hnone, hjoins⟩ := (hs.loop h (owner peer)).absent (h _) hpeer
  have hsent' : sentTo peer (labels ++ [l]) = [] := by rw [sentTo_append, hsent, hnone]; rfl
  by_cases hmem : peer ∈ (s'.loop (owner peer)).localPeers
  · obtain ⟨hdue, hbegun⟩ := hjoins hmem
    refine .inr ⟨(begun (owner peer) labels).length, hmem, ?_, ?_⟩
    · rw [begun_append, hbegun, List.append_nil]
    · rw [begun_append, hbegun, List.append_nil, hsent', hdue, List.drop_length]
      rfl
  · exact .inl ⟨hmem, hsent'⟩

theorem absent_or_joined (h₀ : (system owner).start s₀) {labels : List (Label n)} (hr : (system owner).Run s₀ labels s)
    (peer : PeerPtr) : Absent owner labels s peer ∨ ∃ k, Joined owner labels s peer k := by
  have hhome := homed_invariant owner
  induction hr with
  | nil =>
    obtain ⟨-, -, -, -, hloop⟩ := h₀
    exact .inl ⟨by simp [hloop], rfl⟩
  | snoc hr hs ih =>
    have h := hr.keeps hhome.step (hhome.start _ h₀)
    rcases ih with habsent | ⟨k, hjoined⟩
    · exact habsent.step h hs
    · exact .inr ⟨k, hjoined.step h hs⟩

theorem Joined.run {labels labels' : List (Label n)} {k : Nat} (hj : Joined owner labels s peer k)
    (h : ∀ i, Homed owner i (s.loop i)) (hr : (system owner).Run s labels' s') :
    Joined owner (labels ++ labels') s' peer k := by
  induction hr with
  | nil => simpa using hj
  | snoc hr hs ih =>
    rw [← List.append_assoc]
    exact ih.step (hr.keeps (homed_invariant owner).step h) hs

/-! ## One drainer -/

def Label.thread : Label n → Option Thread
  | .test t | .take t _ | .lock t _ | .queueInPeer t _ _ | .unlock t => some t
  | _ => none

/-- The message a thread has taken and has no lock for yet. -/
def held (s : DispatchServer n) (t : Thread) : List Bytes :=
  match s.drainer t with
  | .waiting message => [message]
  | _ => []

/-- **What is accepted is dispatched in turn**, if only `t` drains. -/
theorem drained_step {t : Thread} (hs : Step owner s l s') (hl : ∀ t', l.thread = some t' → t' = t) :
    dispatched [l] ++ (s'.held t ++ s'.datas) = s.held t ++ (s.datas ++ accepted [l]) := by
  cases hs with
  | @SendData data =>
    cases hrunning : s.running <;> simp [dispatched, accepted, held]
  | test hidle =>
    cases hl _ rfl
    simp [dispatched, accepted, held, hidle]
  | take htaking hdatas =>
    cases hl _ rfl
    simp [dispatched, accepted, held, htaking, hdatas]
  | lock hwaiting =>
    cases hl _ rfl
    simp [dispatched, accepted, held, hwaiting]
  | queueInPeer hqueueing =>
    cases hl _ rfl
    simp [dispatched, accepted, held, hqueueing]
  | unlock hqueueing =>
    cases hl _ rfl
    simp [dispatched, accepted, held, hqueueing]
  | Start | OnConnection | run | Send | finish => simp [dispatched, accepted, held]

theorem drained {labels : List (Label n)} {t : Thread} (h₀ : (system owner).start s₀)
    (hr : (system owner).Run s₀ labels s) (ht : ∀ l ∈ labels, ∀ t', l.thread = some t' → t' = t) :
    dispatched labels ++ (s.held t ++ s.datas) = accepted labels := by
  induction hr with
  | nil =>
    obtain ⟨-, hdatas, -, hidle, -⟩ := h₀
    simp [dispatched, accepted, held, hdatas, hidle]
  | @snoc labels s₁ l s₂ hr hs ih =>
    have hstep := drained_step hs (ht l (by simp))
    rw [dispatched_append, accepted_append, List.append_assoc, hstep, ← ih fun l hl => ht l (by simp [hl])]
    simp

/-! ## A loop gets through -/

theorem setLoop_setLoop (s : DispatchServer n) (i : Fin n) (loop loop' : EventLoop) :
    (s.setLoop i loop).setLoop i loop' = s.setLoop i loop' := by
  simp [setLoop]

theorem setLoop_eq {i : Fin n} {loop : EventLoop} (h : loop = s.loop i) : s.setLoop i loop = s := by
  rw [h, setLoop, Function.update_eq_self]

/-- The task that is running can be finished, whatever the others do. -/
theorem task_finishes (owner : PeerPtr → Fin n) (s : DispatchServer n) (i : Fin n) : ∃ labels,
    (system owner).Run s labels (s.setLoop i ⟨(s.loop i).pendingFunctors, none, (s.loop i).localPeers⟩) ∧
      dispatched labels = [] := by
  rcases hrunning : (s.loop i).running with _ | ⟨message, peers⟩
  · refine ⟨[], ?_, rfl⟩
    rw [setLoop_eq (by rw [← hrunning])]
    exact .nil
  · induction peers generalizing s with
    | nil => exact ⟨[.finish i], .single (Step.finish hrunning), rfl⟩
    | cons peer peers ih =>
      have hsend : (system owner).step s (.Send peer message) _ := Step.Send hrunning (Send_eq message)
      obtain ⟨labels, hrun, hnone⟩ := ih (s.setLoop i { s.loop i with running := some (message, peers) }) (by simp)
      rw [setLoop_setLoop, setLoop_loop, Function.update_self] at hrun
      exact ⟨_, (System.Run.single hsend).trans hrun, by rw [dispatched_append, hnone]; rfl⟩

/-- **A loop can always run all its tasks.** -/
theorem tasks_finish (owner : PeerPtr → Fin n) (s : DispatchServer n) (i : Fin n) :
    ∃ labels, (system owner).Run s labels (s.setLoop i ⟨[], none, (s.loop i).localPeers⟩) ∧
      dispatched labels = [] := by
  obtain ⟨labels₁, hrun₁, hnone₁⟩ := task_finishes owner s i
  rcases hpending : (s.loop i).pendingFunctors with _ | ⟨message, pendingFunctors⟩
  · rw [hpending] at hrun₁
    exact ⟨labels₁, hrun₁, hnone₁⟩
  · -- Then it begins the next one.
    obtain ⟨s₁, hs₁⟩ : ∃ s₁, s₁ = s.setLoop i ⟨(s.loop i).pendingFunctors, none, (s.loop i).localPeers⟩ := ⟨_, rfl⟩
    have hloop : s₁.loop i = ⟨message :: pendingFunctors, none, (s.loop i).localPeers⟩ := by simp [hs₁, hpending]
    have hbegin : Step owner s₁ (.run i message) _ :=
      Step.run (congrArg EventLoop.running hloop) (congrArg EventLoop.pendingFunctors hloop)
    obtain ⟨labels₂, hrun₂, hnone₂⟩ := tasks_finish owner (s₁.setLoop i
      { s₁.loop i with pendingFunctors := pendingFunctors, running := some (message, (s₁.loop i).localPeers) }) i
    have hend := ((hs₁ ▸ hrun₁).snoc hbegin).trans hrun₂
    simp only [setLoop_setLoop, setLoop_loop, Function.update_self, hloop] at hend
    rw [hs₁, setLoop_setLoop] at hend
    refine ⟨_, hend, ?_⟩
    rw [dispatched_append, dispatched_append, hnone₁, hnone₂]
    rfl
termination_by (s.loop i).pendingFunctors.length
decreasing_by simp [hpending]

/-! ## Agreement -/

/-- **Every peer is given a segment of what was dispatched**, in that order.
With one drainer that is the order of `SendData`. A peer that was in its loop
before is given all that is dispatched, up to what is being queued now, once
the loop has run its tasks. -/
theorem broadcast_agreement {labels : List (Label n)} (h₀ : (system owner).start s₀)
    (hr : (system owner).Run s₀ labels s) :
    (∀ peer, sentTo peer labels <:+: dispatched labels) ∧
    (∀ t, (∀ l ∈ labels, ∀ t', l.thread = some t' → t' = t) → dispatched labels <+: accepted labels) ∧
    ∀ labels₁ labels₂ s₁ peer, labels = labels₁ ++ labels₂ → (system owner).Run s₀ labels₁ s₁ →
      (system owner).Run s₁ labels₂ s → peer ∈ (s₁.loop (owner peer)).localPeers →
      (s.loop (owner peer)).running = none → (s.loop (owner peer)).pendingFunctors = [] →
      ∃ k ≤ (dispatched labels₁).length,
        sentTo peer labels ++ s.inflight (owner peer) = (dispatched labels).drop k := by
  refine ⟨?_, ?_, ?_⟩
  · intro peer
    have hdispatched := dispatched_eq h₀ hr (owner peer)
    rcases absent_or_joined h₀ hr peer with ⟨-, hnone⟩ | ⟨k, -, -, hsent⟩
    · rw [hnone]
      exact List.nil_infix
    · have hprefix : sentTo peer labels <+: (begun (owner peer) labels).drop k := ⟨_, hsent⟩
      have hbegun : begun (owner peer) labels <+: dispatched labels := ⟨_, hdispatched⟩
      exact hprefix.isInfix.trans ((List.drop_suffix _ _).isInfix.trans hbegun.isInfix)
  · intro t ht
    exact ⟨_, drained h₀ hr ht⟩
  · intro labels₁ labels₂ s₁ peer hlabels hr₁ hr₂ hpeer hrunning hpending
    subst hlabels
    have hhome := homed_invariant owner
    obtain ⟨k, hjoined⟩ := (absent_or_joined h₀ hr₁ peer).resolve_left fun habsent => habsent.1 hpeer
    have hk : k ≤ (dispatched labels₁).length := by
      rw [← dispatched_eq h₀ hr₁ (owner peer), List.length_append]
      exact Nat.le_add_right_of_le hjoined.2.1
    obtain ⟨-, hk', hsent⟩ := hjoined.run (hr₁.keeps hhome.step (hhome.start _ h₀)) hr₂
    have hdue : due (s.loop (owner peer)) peer = [] := by simp [due, hrunning]
    have hdispatched := dispatched_eq h₀ hr (owner peer)
    rw [pending, hpending, List.nil_append] at hdispatched
    rw [hdue, List.append_nil] at hsent
    exact ⟨k, hk, by rw [hsent, ← hdispatched, List.drop_append_of_le_length hk']⟩

/-- A server as `ThreadInit` leaves it. -/
def created (n : Nat) : DispatchServer n where
  running := false
  datas := []
  mutex := none
  drainer _ := .idle
  loop _ := { pendingFunctors := [], running := none, localPeers := [] }

/-- The owner of peers when there is one loop. -/
def onlyLoop : PeerPtr → Fin 1 := fun _ => 0

/-- It is started, and a peer has joined. -/
def withPeer : DispatchServer 1 :=
  { created 1 with running := true }.setLoop 0 { pendingFunctors := [], running := none, localPeers := [5] }

/-- A message is accepted and dispatched, and the peer is given it. -/
theorem broadcast_agreement_one : ∃ (labels₁ labels₂ : List (Label 1)) (s : DispatchServer 1),
    (system onlyLoop).Run (created 1) labels₁ withPeer ∧ (system onlyLoop).Run withPeer labels₂ s ∧
    dispatched labels₁ = [] ∧ dispatched (labels₁ ++ labels₂) = [ofText "dict"] ∧
    sentTo 5 (labels₁ ++ labels₂) <:+: dispatched (labels₁ ++ labels₂) ∧
    dispatched (labels₁ ++ labels₂) <+: accepted (labels₁ ++ labels₂) ∧
    sentTo 5 (labels₁ ++ labels₂) = [ofText "dict"] := by
  have hstart : (system onlyLoop).start (created 1) := ⟨rfl, rfl, rfl, fun _ => rfl, fun _ => rfl⟩
  have hadd : Step onlyLoop { created 1 with running := true } (.OnConnection 5) withPeer := .OnConnection rfl
  have hjoin : (system onlyLoop).Run (created 1) [.Start, .OnConnection 5] withPeer :=
    (System.Run.single (S := system onlyLoop) (Step.Start (s := created 1))).snoc hadd
  have hsend : Step onlyLoop withPeer (.SendData (ofText "dict") true) { withPeer with datas := [ofText "dict"] } := .SendData
  have hdispatch := ((((System.Run.single (S := system onlyLoop) hsend).snoc
    (Step.test (t := 0) rfl rfl (List.cons_ne_nil _ _))).snoc (Step.take (t := 0) rfl rfl)).snoc
    (Step.lock (t := 0) rfl rfl)).snoc (Step.queueInPeer (t := 0) (i := 0) rfl)
  have hrun := (((hdispatch.snoc (Step.unlock (t := 0) rfl)).snoc (Step.run (i := 0) rfl rfl)).snoc
    (Step.Send (i := 0) rfl (Send_eq _))).snoc (Step.finish (i := 0) rfl)
  obtain ⟨hsegment, hprefix, hlater⟩ := broadcast_agreement hstart (hjoin.trans hrun)
  refine ⟨_, _, _, hjoin, hrun, rfl, rfl, hsegment 5, hprefix 0 (by simp [Label.thread]), ?_⟩
  -- It had joined before anything was dispatched, and nothing is on its way.
  obtain ⟨k, hk, hsent⟩ := hlater _ _ _ 5 rfl hjoin hrun (List.mem_singleton_self 5) rfl rfl
  rw [Nat.le_zero.mp hk, inflight_free rfl, List.append_nil] at hsent
  exact hsent

end DictionaryServer.DispatchServer
