/-
The peers of `DispatchServer` as they connect and are destroyed
(sender/src/frame/Peer.cc).

`ConnectEstablished` and `ConnectDestroyed` both call the connection callback,
and `OnConnection` only inserts. So a peer that goes down is put back in
`LocalPeers`, where it was, and nothing takes it out: its loop gives it every
message it begins from then on (`destroyed_sent`). `LocalPeers` holds
connected peers only, and no destroyed peer is given anything, in exactly the
runs in which no connected peer is destroyed (`connected_iff`).
-/
import DictionaryServer.Sender.Broadcast

namespace DictionaryServer

open Lib

namespace Sender

inductive StateE
  | kDisconnected
  | kConnecting
  | kConnected
  | kDisconnecting
  deriving DecidableEq, Repr

/-- The server, and `state_` of each peer. -/
structure Connections (n : Nat) where
  server : DispatchServer n
  state : PeerPtr → StateE

namespace Connections

variable {n : Nat}

def setState (s : Connections n) (peer : PeerPtr) (state : StateE) : Connections n :=
  { s with state := Function.update s.state peer state }

@[simp] theorem setState_server (s : Connections n) (peer : PeerPtr) (state : StateE) :
    (s.setState peer state).server = s.server := rfl

@[simp] theorem setState_state (s : Connections n) (peer : PeerPtr) (state : StateE) :
    (s.setState peer state).state = Function.update s.state peer state := rfl

inductive Label (n : Nat)
  | dispatch (l : DispatchServer.Label n)
  | ConnectEstablished (peer : PeerPtr)
  /-- And whether it called the connection callback. -/
  | ConnectDestroyed (peer : PeerPtr) (called : Bool)

/-- `OnConnection` is called as the connection callback only. -/
inductive Step (owner : PeerPtr → Fin n) (s : Connections n) : Label n → Connections n → Prop
  | dispatch {l server} (hstep : DispatchServer.Step owner s.server l server) (hl : ∀ peer, l ≠ .OnConnection peer) :
      Step owner s (.dispatch l) { s with server := server }
  /-- It asserts that the peer is connecting. -/
  | ConnectEstablished {peer server} (hstate : s.state peer = .kConnecting)
      (hcall : DispatchServer.Step owner s.server (.OnConnection peer) server) :
      Step owner s (.ConnectEstablished peer) ({ s with server := server }.setState peer .kConnected)
  | ConnectDestroyed {peer server} (hstate : s.state peer = .kConnected)
      (hcall : DispatchServer.Step owner s.server (.OnConnection peer) server) :
      Step owner s (.ConnectDestroyed peer true) ({ s with server := server }.setState peer .kDisconnected)
  | ConnectDestroyed_down {peer} (hstate : s.state peer ≠ .kConnected)
      (hloop : (s.server.loop (owner peer)).running = none) : Step owner s (.ConnectDestroyed peer false) s

/-- The constructor of a peer leaves `state_` as it is. -/
def system (owner : PeerPtr → Fin n) : System (Connections n) (Label n) where
  start s := (DispatchServer.system owner).start s.server
  step := Step owner

/-- What the server does. -/
def Label.server : Label n → Option (DispatchServer.Label n)
  | .dispatch l => some l
  | .ConnectEstablished peer | .ConnectDestroyed peer true => some (.OnConnection peer)
  | .ConnectDestroyed _ false => none

def serverLabels (labels : List (Label n)) : List (DispatchServer.Label n) := labels.filterMap Label.server

/-- `LocalPeers` of every loop holds connected peers only. -/
def OnlyConnected (s : Connections n) : Prop :=
  ∀ i, ∀ peer ∈ (s.server.loop i).localPeers, s.state peer = .kConnected

/-- Once `ConnectDestroyed` has run for a peer, it is given nothing. -/
def NothingAfter (labels : List (Label n)) : Prop :=
  ∀ as bs peer, labels = as ++ .ConnectDestroyed peer true :: bs →
    DispatchServer.sentTo peer (serverLabels bs) = []

/-- A step that destroys no peer that is connected. -/
def Spares (s : Connections n) (l : Label n) : Prop :=
  ∀ peer called, l = .ConnectDestroyed peer called → s.state peer ≠ .kConnected

variable {owner : PeerPtr → Fin n} {s s' s₀ s₁ : Connections n} {l : Label n}

/-! ## The server's runs -/

theorem run_server {labels : List (Label n)} (hr : (system owner).Run s labels s') :
    (DispatchServer.system owner).Run s.server (serverLabels labels) s'.server := by
  induction hr with
  | nil => exact .nil
  | @snoc labels t l u _ hs ih =>
    rw [serverLabels, List.filterMap_append]
    cases hs with
    | dispatch hstep _ => exact ih.snoc hstep
    | ConnectEstablished _ hcall => exact ih.snoc hcall
    | ConnectDestroyed _ hcall => exact ih.snoc hcall
    | ConnectDestroyed_down =>
      show (DispatchServer.system owner).Run s.server (serverLabels labels ++ []) t.server
      simpa using ih

/-- A callback puts its peer in the set of the peer's loop, and that is all. -/
theorem mem_localPeers {server server' : DispatchServer n} {peer peer' : PeerPtr} {i : Fin n}
    (hcall : DispatchServer.Step owner server (.OnConnection peer) server') :
    peer' ∈ (server'.loop i).localPeers ↔ i = owner peer ∧ peer' = peer ∨ peer' ∈ (server.loop i).localPeers := by
  cases hcall with
  | OnConnection hloop =>
    by_cases hi : i = owner peer
    · subst hi
      simp [DispatchServer.mem_insertPeer]
    · simp [hi]

theorem localPeers_eq {server server' : DispatchServer n} {l : DispatchServer.Label n}
    (hs : DispatchServer.Step owner server l server') (hl : ∀ peer, l ≠ .OnConnection peer) (i : Fin n) :
    (server'.loop i).localPeers = (server.loop i).localPeers := by
  cases hs with
  | Start | SendData | test | take | lock | unlock => rfl
  | OnConnection => exact absurd rfl (hl _)
  | @queueInPeer t j message loops => by_cases hi : i = j <;> simp [hi]
  | @run j message pendingFunctors => by_cases hi : i = j <;> simp [hi]
  | @Send j message peer peers sent => by_cases hi : i = j <;> simp [hi]
  | @finish j message => by_cases hi : i = j <;> simp [hi]

/-! ## One step -/

/-- **The sets keep to connected peers** over a step exactly when it destroys none. -/
theorem Step.onlyConnected (hs : Step owner s l s') (h : s.OnlyConnected) : s'.OnlyConnected ↔ s.Spares l := by
  cases hs with
  | @dispatch l server hstep hl =>
    refine iff_of_true ?_ (by simp [Spares])
    intro i peer hmem
    rw [localPeers_eq hstep hl i] at hmem
    exact h i peer hmem
  | @ConnectEstablished peer server hstate hcall =>
    refine iff_of_true ?_ (by simp [Spares])
    intro i peer' hmem
    by_cases hpeer : peer' = peer
    · simp [hpeer]
    · have hold := (mem_localPeers hcall).mp hmem
      simpa [hpeer] using h i peer' (by simpa [hpeer] using hold)
  | @ConnectDestroyed peer server hstate hcall =>
    refine iff_of_false ?_ (by simp [Spares, hstate])
    intro h'
    have hdown := h' (owner peer) peer ((mem_localPeers hcall).mpr (.inl ⟨rfl, rfl⟩))
    simp at hdown
  | ConnectDestroyed_down hstate => simpa [Spares, h] using hstate

/-! ## Whole runs -/

/-- **A destroyed peer is given all that its loop begins** from then on. -/
theorem destroyed_sent {peer : PeerPtr} {labels : List (Label n)} (h₀ : (system owner).start s₀)
    {as : List (Label n)} (hr : (system owner).Run s₀ (as ++ [.ConnectDestroyed peer true]) s₁)
    (hr' : (system owner).Run s₁ labels s) :
    DispatchServer.sentTo peer (serverLabels labels) ++ DispatchServer.due (s.server.loop (owner peer)) peer =
      DispatchServer.begun (owner peer) (serverLabels labels) := by
  have hhome := DispatchServer.homed_invariant owner
  have h := (run_server hr).keeps hhome.step (hhome.start _ h₀)
  have hjoined : DispatchServer.Joined owner [] s₁.server peer 0 := by
    obtain ⟨t, -, hs⟩ := hr.last
    cases hs with
    | @ConnectDestroyed _ server hstate hcall =>
      have hmem : peer ∈ (server.loop (owner peer)).localPeers := (mem_localPeers hcall).mpr (.inl ⟨rfl, rfl⟩)
      cases hcall with
      | OnConnection hloop =>
        refine ⟨hmem, Nat.zero_le _, ?_⟩
        simp [DispatchServer.sentTo, DispatchServer.due, DispatchServer.begun, Pipes.takes, hloop]
  obtain ⟨-, -, hsent⟩ := hjoined.run h (run_server hr')
  simpa using hsent

/-- **No data for a dead peer** in exactly the runs that destroy no connected one. -/
theorem connected_iff (h₀ : (system owner).start s₀) (labels : List (Label n)) (s : Connections n) :
    NothingAfter labels ∧ ((system owner).restrict fun _ _ (s' : Connections n) => s'.OnlyConnected).Run s₀ labels s ↔
      ((system owner).restrict fun (s : Connections n) l _ => s.Spares l).Run s₀ labels s := by
  have hstart : s₀.OnlyConnected := by
    obtain ⟨-, -, -, -, hloop⟩ := h₀
    simp [OnlyConnected, hloop]
  have hstates : ((system owner).restrict fun _ _ (s' : Connections n) => s'.OnlyConnected).Run s₀ labels s ↔
      ((system owner).restrict fun (s : Connections n) l _ => s.Spares l).Run s₀ labels s :=
    System.restrict_states (J := fun _ => True) (fun _ _ _ _ _ => trivial)
      (fun _ _ _ _ h hs => Step.onlyConnected hs h) trivial hstart
  rw [hstates, and_iff_right_iff_imp]
  intro hr as bs peer hlabels
  obtain ⟨t, u, hs, hspares⟩ := hr.step_of_mem (a := .ConnectDestroyed peer true) (by simp [hlabels])
  cases hs with
  | ConnectDestroyed hstate => exact absurd hstate (hspares peer true rfl)

/-- A server as `ThreadInit` leaves it, and peers that are being connected. -/
def created (n : Nat) : Connections n := { server := DispatchServer.created n, state := fun _ => .kConnecting }

/-- A peer has come up. -/
theorem connected_iff_one : ∃ s, (system DispatchServer.onlyLoop).Run (created 1) [.ConnectEstablished 5] s ∧
    s.OnlyConnected ∧ 5 ∈ (s.server.loop 0).localPeers ∧
    NothingAfter [Label.ConnectEstablished (n := 1) 5] ∧
    ((system DispatchServer.onlyLoop).restrict fun _ _ (s' : Connections 1) => s'.OnlyConnected).Run (created 1)
      [.ConnectEstablished 5] s := by
  have hstart : (system DispatchServer.onlyLoop).start (created 1) := ⟨rfl, rfl, rfl, fun _ => rfl, fun _ => rfl⟩
  have hstep : Step DispatchServer.onlyLoop (created 1) (.ConnectEstablished 5) _ := .ConnectEstablished rfl (.OnConnection rfl)
  have hrun : ((system DispatchServer.onlyLoop).restrict fun (s : Connections 1) l _ => s.Spares l).Run (created 1)
      [.ConnectEstablished 5] _ := .single ⟨hstep, by simp [Spares]⟩
  obtain ⟨hnothing, hconnected⟩ := (connected_iff hstart _ _).mpr hrun
  refine ⟨_, hrun.of_restrict, ?_, ?_, hnothing, hconnected⟩
  · refine (Step.onlyConnected hstep ?_).mpr (by simp [Spares])
    simp [OnlyConnected, created, DispatchServer.created]
  · decide

theorem run_dispatch {server : DispatchServer n} {labels : List (DispatchServer.Label n)}
    (hr : (DispatchServer.system owner).Run s.server labels server) (hl : ∀ l ∈ labels, ∀ peer, l ≠ .OnConnection peer) :
    (system owner).Run s (labels.map .dispatch) { s with server := server } := by
  induction hr with
  | nil => exact .nil
  | @snoc labels t l u _ hs ih =>
    rw [List.map_append]
    exact (ih fun l' hl' => hl l' (by simp [hl'])).snoc (.dispatch hs (hl l (by simp)))

/-- A peer comes up and is destroyed; then a message is dispatched, and the
peer is given it. -/
theorem destroyed_given : ∃ (bs : List (Label 1)) (s₀ s₁ s : Connections 1),
    (system DispatchServer.onlyLoop).start s₀ ∧
    (system DispatchServer.onlyLoop).Run s₀ [.ConnectEstablished 5, .ConnectDestroyed 5 true] s₁ ∧
    (system DispatchServer.onlyLoop).Run s₁ bs s ∧
    s₁.state 5 = .kDisconnected ∧ 5 ∈ (s₁.server.loop 0).localPeers ∧
    DispatchServer.sentTo 5 (serverLabels bs) = [ofText "dict"] ∧
    ¬(NothingAfter ([.ConnectEstablished 5, .ConnectDestroyed 5 true] ++ bs) ∧ s₁.OnlyConnected) := by
  obtain ⟨s₁, hdown, hloop, hstate⟩ : ∃ s₁ : Connections 1,
      (system DispatchServer.onlyLoop).Run (created 1) [.ConnectEstablished 5, .ConnectDestroyed 5 true] s₁ ∧
        s₁.server = (DispatchServer.created 1).setLoop 0 { pendingFunctors := [], running := none, localPeers := [5] } ∧
        s₁.state 5 = .kDisconnected := by
    have hup : Step DispatchServer.onlyLoop (created 1) (.ConnectEstablished 5) _ := .ConnectEstablished rfl (.OnConnection rfl)
    refine ⟨_, (System.Run.single hup).snoc (.ConnectDestroyed rfl (.OnConnection rfl)), ?_, rfl⟩
    simp [created, DispatchServer.setLoop, DispatchServer.onlyLoop, DispatchServer.created, DispatchServer.insertPeer]
  have hstart : DispatchServer.Step DispatchServer.onlyLoop s₁.server .Start { s₁.server with running := true } := .Start
  have hsend : ∀ {s : DispatchServer 1}, DispatchServer.Step DispatchServer.onlyLoop s
      (.SendData (ofText "dict") s.running) _ := .SendData
  rw [hloop] at hstart
  have hdispatch := (((((System.Run.single (S := DispatchServer.system DispatchServer.onlyLoop) hstart).snoc
    hsend).snoc (.test (t := 0) rfl rfl (List.cons_ne_nil _ _))).snoc
    (.take (t := 0) rfl rfl)).snoc (.lock (t := 0) rfl rfl)).snoc (.queueInPeer (t := 0) (i := 0) rfl)
  have hgiven := (hdispatch.snoc (.run (i := 0) rfl rfl)).snoc (.Send (i := 0) rfl (Send_eq _))
  rw [← hloop] at hgiven
  have hrun := run_dispatch (s := s₁) hgiven (by simp)
  refine ⟨_, created 1, s₁, _, ⟨rfl, rfl, rfl, fun _ => rfl, fun _ => rfl⟩, hdown, hrun, hstate, by simp [hloop], rfl, ?_⟩
  intro h
  have hnothing := h.1 [.ConnectEstablished 5] _ 5 rfl
  cases hnothing

end Connections
end Sender
end DictionaryServer
