/-
The event channels of the connections of a `Hiredis` object.

`handleWrite` removes the channel of a connection that is not up before
hiredis says how the attempt stands. Nothing else keeps that channel, so it is
destroyed while its own `handleEvent` runs. With muduo's assertions the process
stops there; without them the event ends in freed memory. Either way no attempt
to connect ends well, and a pool of no connections is the only one whose
channels are safe (`channels_iff`).

Apart from that, only the connect callback sets the channel again. An attempt
still in progress is left without one, and nothing will ever look at its socket
again (`channels_kept_iff`).
-/
import DictionaryServer.DAL.HiredisRuns

namespace DictionaryServer.Hiredis

open Lib

variable {κ : Type} {h h' : Hiredis κ} {p : Nat}

/-- Every connection that hiredis has not freed has its channel. -/
def Channels (h : Hiredis κ) : Prop := ∀ p < h.allocated, (h.sconns p).link ≠ .freed → (h.sconns p).channel = true

/-- What the event loop does for a connection: the callbacks of hiredis have a
channel to work on, and an attempt to connect can still succeed. -/
structure Attended (h : Hiredis κ) (p : Nat) : Prop where
  channel : (h.sconns p).channel = true
  callbacks : h.useChannel p = .ok ()
  completes : (h.sconns p).link = .connecting →
    ∃ h', h.exec (.write p (some .REDIS_OK)) = .ok (h', []) ∧ (h'.sconns p).link = .connected ∧
      (h'.sconns p).channel = true ∧ (h'.sconns p).misused = false

/-- No connection loses its channel: none was destroyed in use, hiredis can work
on all it has not freed, and no event meets a null channel. -/
structure Channelled (h : Hiredis κ) : Prop where
  intact : ∀ p < h.allocated, (h.sconns p).misused = false
  attended : ∀ p < h.allocated, (h.sconns p).link ≠ .freed → h.Attended p
  exec : ∀ e, h.Enabled e → h.exec e ≠ .error .nullChannel

/-- A writable event ends the attempt to connect it finds pending, if any. -/
def Ends (h : Hiredis κ) : Event κ → Prop
  | .write p outcome => (h.sconns p).link = .connecting → outcome ≠ none
  | _ => True

/-! ## One event -/

/-- An event on one connection leaves the channels of the others. -/
theorem Moved.channels (m : Moved h h' p) (hp : p < h.allocated) (hc : h.Channels) :
    h'.Channels ↔ ((h'.sconns p).link ≠ .freed → (h'.sconns p).channel = true) := by
  constructor
  · intro hc'
    exact hc' p (by rw [m.allocated]; exact hp)
  · intro hchannel q hq hlive
    by_cases hqp : q = p
    · subst hqp
      exact hchannel hlive
    · rw [m.sconns q hqp] at hlive ⊢
      exact hc q (by rwa [m.allocated] at hq) hlive

/-- **Every connection keeps its channel** over an event exactly when the
event ends the attempt it finds pending. -/
theorem exec_channels (hi : h.Inv) (hc : h.Channels) {e : Event κ} (he : h.Enabled e) {upcalls : List (Upcall κ)}
    (hx : h.exec e = .ok (h', upcalls)) : h'.Channels ↔ h.Ends e := by
  cases e with
  | write p outcome =>
    obtain ⟨hp, hchannel, hlive⟩ := he
    rcases hlink : (h.sconns p).link with _ | _ | _
    · obtain ⟨h'', w, hcall, m, -, -, hsettled, -⟩ := handleWrite_spec hi hp hchannel outcome
      cases (exec_write hcall).symm.trans hx
      rw [m.channels hp hc, hsettled hlink]
      rcases outcome with _ | (_ | _) <;> simp [settled, Ends, hlink]
    · cases (exec_write (handleWrite_connected hchannel hlink outcome)).symm.trans hx
      simp [hc, Ends, hlink]
    · exact absurd hlink hlive
  | command cb text accepted =>
    rcases command_spec hi cb text accepted with ⟨-, hcall⟩ | ⟨-, p, h'', hp, -, hcall, m, -, hfits, -⟩
    · rw [exec, hcall] at hx
      cases hx
      simp [hc, Ends]
    · rw [exec, hcall] at hx
      cases hx
      rw [m.channels hp hc]
      simp [hfits.2.2, Ends]
  | reply p reply =>
    obtain ⟨hp, -, hne⟩ := he
    obtain ⟨h'', c, -, -, hcall, m, -, hfits⟩ := handleReply_spec hi hp hne reply
    cases hcall.symm.trans hx
    rw [m.channels hp hc]
    simp [hfits.2.2, Ends]
  | disconnect p =>
    obtain ⟨hp, hlink⟩ := he
    by_cases hstuck : h.At .busy p ∧ (h.sconns p).replies = []
    · obtain ⟨h'', hcall, m, -, -, hfreed⟩ := handleDisconnect_stuck hi hp hstuck.1 hstuck.2
      cases hcall.symm.trans hx
      rw [m.channels hp hc]
      simp [hfreed, Ends]
    · cases (handleDisconnect_fault hi hp hlink hstuck).symm.trans hx

/-- No event meets a null channel: hiredis writes only where there is one. -/
theorem exec_not_null (hi : h.Inv) {e : Event κ} (he : h.Enabled e) : h.exec e ≠ .error .nullChannel := by
  by_cases hd : ∃ p, e = .disconnect p
  · obtain ⟨p, rfl⟩ := hd
    obtain ⟨hp, hlink⟩ := he
    by_cases hstuck : h.At .busy p ∧ (h.sconns p).replies = []
    · obtain ⟨h', hcall, -⟩ := handleDisconnect_stuck hi hp hstuck.1 hstuck.2
      simp [exec, hcall]
    · simp [exec, handleDisconnect_fault hi hp hlink hstuck]
  · obtain ⟨h', upcalls, hcall, -⟩ := exec_ok hi he fun p hp => hd ⟨p, hp⟩
    simp [hcall]

/-! ## Connecting -/

/-- No connection is up: each has the channel `connect` gave it. -/
structure Unopened (h : Hiredis κ) : Prop where
  pending : ∀ p < h.allocated, (h.sconns p).link = .connecting ∧ (h.sconns p).channel = true
  connected : h.connected = false

theorem Unopened.afterConnectOne (hu : h.Unopened) : h.afterConnectOne.Unopened where
  pending p hp := by
    by_cases hlast : p = h.allocated
    · simp [Hiredis.afterConnectOne, hlast]
    · have hlt : p < h.allocated := Nat.lt_of_le_of_ne (Nat.le_of_lt_succ hp) hlast
      simp only [Hiredis.afterConnectOne, Function.update_of_ne hlast]
      exact hu.pending p hlt
  connected := hu.connected

theorem connectLoop_unopened (hu : h.Unopened) (k : Nat)
    (hcall : h.connectLoop ((List.range' h.allocated k).map Int32.ofNat) = .ok h') :
    h'.Unopened ∧ h'.allocated = h.allocated + k ∧ h'.muduo = h.muduo := by
  induction k generalizing h with
  | zero =>
    cases hcall
    exact ⟨hu, rfl, rfl⟩
  | succ k ih =>
    rw [List.range'_succ, List.map_cons, connectLoop_cons] at hcall
    obtain ⟨hu', hallocated, hmuduo⟩ := ih (h := h.afterConnectOne) hu.afterConnectOne hcall
    refine ⟨hu', ?_, hmuduo⟩
    rw [hallocated]
    show h.allocated + 1 + k = h.allocated + (k + 1)
    omega

/-- **`connect` gives every connection its channel**, in either build. -/
theorem connect_unopened (muduo : Muduo) {s n : Int32} (hstart : (createIn muduo s n : Hiredis κ).connect = .ok h) :
    h.Unopened ∧ h.allocated = n.toInt.toNat ∧ h.muduo = muduo := by
  have hu : (createIn muduo s n : Hiredis κ).Unopened := ⟨nofun, rfl⟩
  rw [connect, if_pos (show (createIn muduo s n : Hiredis κ).inactiveConns.isEmpty = true from rfl), ids,
    List.range_eq_range'] at hstart
  obtain ⟨hu', hallocated, hmuduo⟩ := connectLoop_unopened hu n.toInt.toNat hstart
  exact ⟨hu', hallocated.trans (Nat.zero_add _), hmuduo⟩

/-! ## With assertions -/

/-- **The first writable event is the last**: any other event finds no
connection up, and changes nothing. -/
theorem Unopened.exec (hu : h.Unopened) (hm : h.muduo = .Debug) {e : Event κ} (he : h.Enabled e) :
    h.exec e = .error (.assertion "!eventHandling_") ∨ ∃ upcalls, h.exec e = .ok (h, upcalls) := by
  cases e with
  | write p outcome =>
    obtain ⟨hp, hchannel, -⟩ := he
    have hlink : (h.sconns p).link ≠ .connected := by simp [(hu.pending p hp).1]
    left
    simp only [Hiredis.exec, handleWrite, if_neg hlink, removeChannel_debug hm hchannel]
    rfl
  | command cb text accepted =>
    right
    refine ⟨[], ?_⟩
    simp only [Hiredis.exec, command, hu.connected]
    rfl
  | reply p reply =>
    obtain ⟨hp, hlink, -⟩ := he
    cases (hu.pending p hp).1.symm.trans hlink
  | disconnect p =>
    obtain ⟨hp, hlink⟩ := he
    cases (hu.pending p hp).1.symm.trans hlink

/-- So nothing ever changes. -/
theorem unopened_invariant (s n : Int32) : (systemIn .Debug s n : System (Hiredis κ) _).Invariant
    fun h => h.Unopened ∧ h.allocated = n.toInt.toNat ∧ h.muduo = .Debug where
  start _ hstart := connect_unopened .Debug hstart
  step h a h' hh hs := by
    obtain ⟨he, hx⟩ := hs
    rcases hh.1.exec hh.2.2 he with hfault | ⟨upcalls, hsame⟩
    · cases hfault.symm.trans hx
    · cases hsame.symm.trans hx
      exact hh

/-! ## Without assertions -/

/-- Whatever has become of an attempt to connect, its channel was destroyed in use. -/
def Tried (h : Hiredis κ) : Prop := ∀ p < h.allocated, (h.sconns p).link ≠ .connecting → (h.sconns p).misused = true

/-- A connection that was not connecting before the event was misused already. -/
theorem Moved.tried (m : Moved h h' p) (hp : p < h.allocated) (ht : h.Tried)
    (hown : (h.sconns p).link = .connecting → (h'.sconns p).misused = true) : h'.Tried := by
  intro q hq hlink
  rw [m.allocated] at hq
  by_cases hqp : q = p
  · rw [hqp]
    by_cases hbefore : (h.sconns p).link = .connecting
    · exact hown hbefore
    · exact m.misused (ht p hp hbefore)
  · rw [m.sconns q hqp] at hlink ⊢
    exact ht q hq hlink

theorem Tried.exec (ht : h.Tried) (hi : h.Inv) {e : Event κ} (he : h.Enabled e) {upcalls : List (Upcall κ)}
    (hx : h.exec e = .ok (h', upcalls)) : h'.Tried := by
  cases e with
  | write p outcome =>
    obtain ⟨hp, hchannel, -⟩ := he
    obtain ⟨h'', w, hcall, m, -, -, hsettled, -⟩ := handleWrite_spec hi hp hchannel outcome
    cases (exec_write hcall).symm.trans hx
    refine m.tried hp ht fun hlink => ?_
    rw [hsettled hlink]
    rcases outcome with _ | (_ | _) <;> rfl
  | command cb text accepted =>
    rcases command_spec hi cb text accepted with ⟨-, hcall⟩ | ⟨-, p, h'', hp, hfree, hcall, m, -⟩
    · rw [Hiredis.exec, hcall] at hx
      cases hx
      exact ht
    · rw [Hiredis.exec, hcall] at hx
      cases hx
      refine m.tried hp ht fun hlink => ?_
      cases (hfree.fits hi hp).2.1.symm.trans hlink
  | reply p reply =>
    obtain ⟨hp, hlink, hne⟩ := he
    obtain ⟨h'', c, -, -, hcall, m, -⟩ := handleReply_spec hi hp hne reply
    cases hcall.symm.trans hx
    refine m.tried hp ht fun hconnecting => ?_
    cases hlink.symm.trans hconnecting
  | disconnect p =>
    obtain ⟨hp, hlink⟩ := he
    by_cases hstuck : h.At .busy p ∧ (h.sconns p).replies = []
    · obtain ⟨h'', hcall, m, -⟩ := handleDisconnect_stuck hi hp hstuck.1 hstuck.2
      cases hcall.symm.trans hx
      refine m.tried hp ht fun hconnecting => ?_
      cases hlink.symm.trans hconnecting
    · cases (handleDisconnect_fault hi hp hlink hstuck).symm.trans hx

theorem tried_invariant (s n : Int32) :
    (systemIn .Release s n : System (Hiredis κ) _).Invariant fun h => Kept s n h ∧ h.Tried where
  start h hstart := by
    obtain ⟨hu, -⟩ := connect_unopened .Release hstart
    exact ⟨(kept_invariant s n).start h hstart, fun p hp hlink => absurd (hu.pending p hp).1 hlink⟩
  step _ _ _ hh hs := ⟨hh.1.exec hs.1 hs.2, hh.2.exec hh.1.inv hs.1 hs.2⟩

/-! ## Whole runs -/

/-- Where there is a connection, its channel was destroyed in use or its attempt
to connect cannot succeed. -/
theorem not_channelled {muduo : Muduo} {s n : Int32} (hr : (systemIn muduo s n).Reachable h)
    (hp : p < h.allocated) : ¬h.Channelled := by
  intro hc
  cases muduo with
  | Debug =>
    obtain ⟨hu, -, hm⟩ := (unopened_invariant s n).reachable hr
    obtain ⟨hlink, hchannel⟩ := hu.pending p hp
    obtain ⟨h', hcall, hup, -⟩ := (hc.attended p hp (by simp [hlink])).completes hlink
    rcases hu.exec hm (e := .write p (some .REDIS_OK)) ⟨hp, hchannel, by simp [hlink]⟩ with hfault | ⟨upcalls, hsame⟩
    · cases hfault.symm.trans hcall
    · cases hsame.symm.trans hcall
      cases hlink.symm.trans hup
  | Release =>
    obtain ⟨hk, ht⟩ := (tried_invariant s n).reachable hr
    by_cases hlink : (h.sconns p).link = .connecting
    · have hattended := hc.attended p hp (by simp [hlink])
      obtain ⟨h', hcall, -, -, hmisused⟩ := hattended.completes hlink
      obtain ⟨h'', w, hwrite, -, -, -, hsettled, -⟩ := handleWrite_spec hk.inv hp hattended.channel (some .REDIS_OK)
      cases (exec_write hwrite).symm.trans hcall
      rw [hsettled hlink] at hmisused
      cases hmisused
    · cases (ht p hp hlink).symm.trans (hc.intact p hp)

/-- The number of connections is that of the configuration, and a null channel
is never met. -/
theorem reachable_exec {muduo : Muduo} {s n : Int32} (hr : (systemIn muduo s n).Reachable h) :
    h.allocated = n.toInt.toNat ∧ ∀ e, h.Enabled e → h.exec e ≠ .error .nullChannel := by
  cases muduo with
  | Debug =>
    obtain ⟨hu, hallocated, hm⟩ := (unopened_invariant s n).reachable hr
    refine ⟨hallocated, fun e he => ?_⟩
    rcases hu.exec hm he with hfault | ⟨upcalls, hsame⟩
    · simp [hfault]
    · simp [hsame]
  | Release =>
    obtain ⟨hk, -⟩ := (tried_invariant s n).reachable hr
    exact ⟨hk.allocated, fun e he => exec_not_null hk.inv he⟩

/-- **Connections keep their channels** only where there are none: in no
reachable state of either build has one been kept that can still be used. -/
theorem channels_iff (muduo : Muduo) {s n : Int32} (hr : (systemIn muduo s n).Reachable h) : h.Channelled ↔ n ≤ 0 := by
  obtain ⟨hallocated, hnull⟩ := reachable_exec hr
  have hzero : n ≤ 0 ↔ h.allocated = 0 := by
    rw [Int32.le_iff_toInt_le, hallocated]
    exact Int.toNat_eq_zero.symm
  rw [hzero]
  constructor
  · intro hc
    by_contra hne
    exact not_channelled hr (Nat.pos_of_ne_zero hne) hc
  · intro hnone
    refine ⟨fun p hp => ?_, fun p hp => ?_, hnull⟩
    · rw [hnone] at hp
      cases hp
    · rw [hnone] at hp
      cases hp

/-- A pool of no connections, and one of a single connection as `connect` leaves it. -/
theorem channels_iff_one : (∃ h : Hiredis Unit, (systemIn .Debug 0 0).Reachable h ∧ h.Channelled) ∧
    ∃ h : Hiredis Unit, (systemIn .Release 0 1).Reachable h ∧ h.Channels ∧ ¬h.Channelled := by
  constructor
  · have hr : (systemIn .Debug 0 0).Reachable (createIn .Debug 0 0 : Hiredis Unit) := .of_start rfl
    exact ⟨_, hr, (channels_iff .Debug hr).mpr (by decide)⟩
  · have hstart := connect_one Unit 0
    refine ⟨_, .of_start hstart, fun p hp hlive => ((connect_unopened .Release hstart).1.pending p hp).2, ?_⟩
    intro hc
    exact absurd ((channels_iff .Release (.of_start hstart)).mp hc) (by decide)

/-- The only connection, at its first writable event: the process stops, or the
connection comes up while its old channel is still in use, or the attempt is
still in progress and has no channel any more. -/
theorem channels_lost :
    (∃ h₀ : Hiredis Unit, (systemIn .Debug 0 1).Reachable h₀ ∧
      h₀.exec (.write 0 (some .REDIS_OK)) = .error (.assertion "!eventHandling_") ∧ ¬h₀.Channelled) ∧
    (∃ h : Hiredis Unit, (systemIn .Release 0 1).Reachable h ∧ 0 < h.allocated ∧
      (h.sconns 0).link = .connected ∧ (h.sconns 0).misused = true ∧ ¬h.Channelled) ∧
    ∃ h : Hiredis Unit, (systemIn .Release 0 1).Reachable h ∧ 0 < h.allocated ∧
      (h.sconns 0).link = .connecting ∧ h.useChannel 0 = .error .nullChannel ∧ ¬h.Channelled := by
  refine ⟨?_, ?_, ?_⟩
  · obtain ⟨h₀, hstart, hfault, hp, hlink⟩ :
        ∃ h₀ : Hiredis Unit, (createIn .Debug 0 1).connect = .ok h₀ ∧
          h₀.exec (.write 0 (some .REDIS_OK)) = .error (.assertion "!eventHandling_") ∧ 0 < h₀.allocated ∧
          (h₀.sconns 0).link = .connecting := ⟨_, rfl, rfl, Nat.zero_lt_one, rfl⟩
    refine ⟨h₀, .of_start hstart, hfault, ?_⟩
    intro hc
    obtain ⟨h, hcall, -⟩ := (hc.attended 0 hp (by simp [hlink])).completes hlink
    cases hfault.symm.trans hcall
  · obtain ⟨h, hcall, hp, hlink, hmisused⟩ :
        ∃ h, (create 0 1 : Hiredis Unit).afterConnectOne.exec (.write 0 (some .REDIS_OK)) = .ok (h, []) ∧
          0 < h.allocated ∧ (h.sconns 0).link = .connected ∧ (h.sconns 0).misused = true :=
      ⟨_, rfl, Nat.zero_lt_one, rfl, rfl⟩
    refine ⟨h, write_reachable hcall, hp, hlink, hmisused, ?_⟩
    intro hc
    cases hmisused.symm.trans (hc.intact 0 hp)
  · obtain ⟨h, hcall, hp, hlink, hnull⟩ :
        ∃ h, (create 0 1 : Hiredis Unit).afterConnectOne.exec (.write 0 none) = .ok (h, []) ∧ 0 < h.allocated ∧
          (h.sconns 0).link = .connecting ∧ h.useChannel 0 = .error .nullChannel :=
      ⟨_, rfl, Nat.zero_lt_one, rfl, rfl⟩
    refine ⟨h, write_reachable hcall, hp, hlink, hnull, ?_⟩
    intro hc
    cases hnull.symm.trans (hc.attended 0 hp (by simp [hlink])).callbacks

/-- **What the object itself does to the channels**, wherever a destroyed one
does no harm: they are kept in exactly the runs where no writable event leaves
an attempt to connect in progress. -/
theorem channels_kept_iff {s n : Int32} {h₀ : Hiredis κ} (hstart : (create s n).connect = .ok h₀)
    (as : List (Event κ × List (Upcall κ))) (h : Hiredis κ) :
    ((system s n).restrict fun _ _ (h' : Hiredis κ) => h'.Channels).Run h₀ as h ↔
      ((system s n).restrict fun (h : Hiredis κ) a _ => h.Ends a.1).Run h₀ as h := by
  have hk := (kept_invariant (κ := κ) s n).start h₀ hstart
  obtain ⟨hu, -⟩ := connect_unopened .Release hstart
  refine System.restrict_states (kept_invariant s n).step ?_ hk fun p hp _ => (hu.pending p hp).2
  intro h a h' hk hc hs
  exact exec_channels hk.inv hc hs.1 hs.2

end DictionaryServer.Hiredis
