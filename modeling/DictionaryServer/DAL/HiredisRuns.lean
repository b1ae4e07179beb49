/-
What holds of a `Hiredis` object over its runs.

Every event keeps the invariant (`Inv.exec`), so the maps partition the
connections in every reachable state and no callback fails an assertion
(`pool_invariant`), with one exception: a connection that is lost is handled
only while it sits in the busy map with nothing outstanding, which is where a
refused command leaves it (`disconnect_iff`).
-/
import DictionaryServer.DAL.HiredisFacts

namespace DictionaryServer.Hiredis

open Lib Lib.Lease

variable {κ : Type} {h h' : Hiredis κ} {p : Nat}

/-- An event worked on the connection `p` alone, which hiredis had not freed. -/
structure Touched (h h' : Hiredis κ) (p : Nat) : Prop where
  lt : p < h.allocated
  live : (h.sconns p).link ≠ .freed
  moved : Moved h h' p
  fits : ∃ w, h'.At w p ∧ Fits (h'.sconns p) w

/-- **No event but a lost connection stops the process.** -/
theorem exec_ok (hi : h.Inv) {e : Event κ} (he : h.Enabled e) (hd : ∀ p, e ≠ .disconnect p) :
    ∃ h' upcalls, h.exec e = .ok (h', upcalls) ∧ (h' = h ∨ ∃ p, Touched h h' p) := by
  cases e with
  | write p outcome =>
    obtain ⟨hp, hc, hlive⟩ := he
    obtain ⟨h', w, hcall, m, hat, hfits, -⟩ := handleWrite_spec hi hp hc outcome
    exact ⟨h', [], exec_write hcall, .inr ⟨p, hp, hlive, m, w, hat, hfits⟩⟩
  | command cb text accepted =>
    rcases command_spec hi cb text accepted with ⟨-, hcall⟩ | ⟨-, p, h', hp, hat₀, hcall, m, hat, hfits, -⟩
    · refine ⟨h, [], ?_, .inl rfl⟩
      rw [exec, hcall]
      rfl
    · refine ⟨h', [], ?_, .inr ⟨p, hp, ?_, m, .busy, hat, hfits⟩⟩
      · rw [exec, hcall]
        rfl
      · simp [(hat₀.fits hi hp).2.1]
  | reply p reply =>
    obtain ⟨hp, hlink, hne⟩ := he
    obtain ⟨h', c, -, -, hcall, m, hat, hfits⟩ := handleReply_spec hi hp hne reply
    exact ⟨h', _, hcall, .inr ⟨p, hp, by simp [hlink], m, .free, hat, hfits⟩⟩
  | disconnect p => exact absurd rfl (hd p)

/-- What any event does that does not stop the process. -/
theorem exec_touched (hi : h.Inv) {e : Event κ} (he : h.Enabled e) {upcalls : List (Upcall κ)}
    (hx : h.exec e = .ok (h', upcalls)) : h' = h ∨ ∃ p, Touched h h' p := by
  by_cases hd : ∃ p, e = .disconnect p
  · obtain ⟨p, rfl⟩ := hd
    obtain ⟨hp, hlink⟩ := he
    by_cases hstuck : h.At .busy p ∧ (h.sconns p).replies = []
    · obtain ⟨h'', hcall, m, hat, hfits, -⟩ := handleDisconnect_stuck hi hp hstuck.1 hstuck.2
      cases hcall.symm.trans hx
      exact .inr ⟨p, hp, by simp [hlink], m, .inactive, hat, hfits⟩
    · cases (handleDisconnect_fault hi hp hlink hstuck).symm.trans hx
  · obtain ⟨h'', upcalls', hcall, ht⟩ := exec_ok hi he fun p hp => hd ⟨p, hp⟩
    cases hcall.symm.trans hx
    exact ht

/-- The invariant, and what is never renumbered. -/
structure Kept (s n : Int32) (h : Hiredis κ) : Prop where
  inv : h.Inv
  serverId : h.serverId = s
  nconns : h.nconns = n
  allocated : h.allocated = n.toInt.toNat

theorem Touched.kept {s n : Int32} (t : Touched h h' p) (hk : Kept s n h) : Kept s n h' := by
  obtain ⟨w, hat, hfits⟩ := t.fits
  exact ⟨hk.inv.moved t.lt t.moved hat hfits, t.moved.serverId.trans hk.serverId, t.moved.nconns.trans hk.nconns,
    t.moved.allocated.trans hk.allocated⟩

theorem Kept.exec {s n : Int32} (hk : Kept s n h) {e : Event κ} (he : h.Enabled e) {upcalls : List (Upcall κ)}
    (hx : h.exec e = .ok (h', upcalls)) : Kept s n h' := by
  rcases exec_touched hk.inv he hx with rfl | ⟨p, t⟩
  · exact hk
  · exact t.kept hk

/-- **Every run keeps it.** -/
theorem kept_invariant (s n : Int32) : (system s n : System (Hiredis κ) _).Invariant (Kept s n) where
  start h hstart := by
    obtain ⟨h', hcall, ho⟩ := connect_spec (κ := κ) s n
    cases hcall.symm.trans hstart
    exact ⟨ho.inv, ho.serverId, ho.nconns, ho.allocated⟩
  step _ _ _ hk hstep := hk.exec hstep.1 hstep.2

/-! ## The partition -/

/-- The connection `i` is in the map `w` and in no other, and maps there to
its own `ServerConn`, which has as many commands outstanding as `w` allows. -/
structure InOne (h : Hiredis κ) (i : Int32) (w : Place) (p : Nat) : Prop where
  here : (h.map w)[i]? = some p
  nowhere : ∀ w', w' ≠ w → (h.map w')[i]? = none
  own : (h.sconns p).connId = i
  outstanding : (h.sconns p).replies.length ≤ if w = .busy then 1 else 0

theorem id_of_range {i n : Int32} (h₀ : 0 ≤ i) (hn : i < n) : ∃ p < n.toInt.toNat, Int32.ofNat p = i := by
  rw [Int32.le_iff_toInt_le] at h₀
  rw [Int32.lt_iff_toInt_lt] at hn
  have hzero : (0 : Int32).toInt = 0 := rfl
  have hlt := n.toInt_lt
  refine ⟨i.toInt.toNat, by omega, Int32.toInt_inj.mp ?_⟩
  rw [Int32.toInt_ofNat_of_lt (by omega)]
  omega

/-- **The pool invariant.** In every reachable state each connection id is in
exactly one of the three maps, with its own `ServerConn` and no command
outstanding unless it is busy, and then one at most; and no connect callback,
command or command callback fails an assertion or meets a null channel. -/
theorem pool_invariant {s n : Int32} (hr : (system s n).Reachable h) :
    (∀ i : Int32, 0 ≤ i → i < n → ∃ w p, h.InOne i w p) ∧
    ∀ e, h.Enabled e → (∀ p, e ≠ .disconnect p) → ∃ h' upcalls, h.exec e = .ok (h', upcalls) := by
  obtain ⟨hi, -, -, ha⟩ := (kept_invariant s n).reachable hr
  refine ⟨fun i hi₀ hin => ?_, fun e he hd => ?_⟩
  · obtain ⟨p, hp, rfl⟩ := id_of_range hi₀ hin
    rw [← ha] at hp
    obtain ⟨w, hat, hfits⟩ := hi.place p hp
    refine ⟨w, p, (hat w).trans (if_pos rfl), fun w' hw => (hat w').trans (if_neg hw), hi.own p hp, ?_⟩
    cases w with
    | busy => exact hfits.1
    | inactive | free => rw [hfits.1]; exact Nat.zero_le _
  · obtain ⟨h', upcalls, hcall, -⟩ := exec_ok hi he hd
    exact ⟨h', upcalls, hcall⟩

/-- An object with one connection, after `connect`. -/
theorem connect_one (κ : Type) (s : Int32) : (create s 1 : Hiredis κ).connect = .ok (create s 1).afterConnectOne := by
  rw [connect, if_pos (show (create s 1 : Hiredis κ).inactiveConns.isEmpty = true from rfl)]
  exact connectLoop_cons (create s 1) []

/-- And after its first writable event. -/
theorem write_reachable {outcome : Option Status} {h : Hiredis Unit}
    (hcall : (create 0 1).afterConnectOne.exec (.write 0 outcome) = .ok (h, [])) : (system 0 1).Reachable h := by
  have he : (create 0 1 : Hiredis Unit).afterConnectOne.Enabled (.write 0 outcome) := ⟨Nat.zero_lt_one, rfl, nofun⟩
  have hstep : (system 0 1).step _ (.write 0 outcome, []) h := ⟨he, hcall⟩
  exact (System.Reachable.of_start (connect_one Unit 0)).step hstep

/-- And when its connection has come up. -/
theorem idle_reachable : ∃ h : Hiredis Unit, (system 0 1).Reachable h ∧ h.Enabled (.disconnect 0) ∧ h.At .free 0 := by
  obtain ⟨h, hcall, hlink, hfree⟩ : ∃ h, (create 0 1 : Hiredis Unit).afterConnectOne.exec (.write 0 (some .REDIS_OK)) =
      .ok (h, []) ∧ (h.sconns 0).link = .connected ∧ h.activeFreeConns[(0 : Int32)]? = some 0 :=
    ⟨_, rfl, rfl, by decide⟩
  have hr := write_reachable hcall
  obtain ⟨hp, -, hat⟩ := ((kept_invariant 0 1).reachable hr).inv.at_entry (w := .free) hfree
  exact ⟨h, hr, ⟨hp, hlink⟩, hat⟩

theorem pool_invariant_one : ∃ h : Hiredis Unit, (system 0 1).Reachable h ∧
    (∀ i : Int32, 0 ≤ i → i < 1 → ∃ w p, h.InOne i w p) ∧
    ∀ e, h.Enabled e → (∀ p, e ≠ .disconnect p) → ∃ h' upcalls, h.exec e = .ok (h', upcalls) := by
  obtain ⟨h, hr, -⟩ := idle_reachable
  exact ⟨h, hr, pool_invariant hr⟩

/-! ## Lost connections -/

/-- A connection that was lost. -/
structure Gone (h : Hiredis κ) (p : Nat) : Prop where
  lt : p < h.allocated
  inactive : h.At .inactive p
  freed : (h.sconns p).link = .freed

theorem Gone.exec (hg : h.Gone p) (hi : h.Inv) {e : Event κ} (he : h.Enabled e) {upcalls : List (Upcall κ)}
    (hx : h.exec e = .ok (h', upcalls)) : h'.Gone p := by
  rcases exec_touched hi he hx with rfl | ⟨q, t⟩
  · exact hg
  · have hne : p ≠ q := fun hpq => t.live (hpq ▸ hg.freed)
    refine ⟨by rw [t.moved.allocated]; exact hg.lt, ?_, by rw [t.moved.sconns p hne]; exact hg.freed⟩
    intro w
    rw [t.moved.map w _ (hi.id_ne t.lt hg.lt hne)]
    exact hg.inactive w

theorem Gone.run {s n : Int32} (hg : h.Gone p) (hk : Kept s n h) {as : List (Event κ × List (Upcall κ))}
    (hr : (system s n).Run h as h') : h'.Gone p ∧ Kept s n h' :=
  hr.keeps (I := fun h => h.Gone p ∧ Kept s n h)
    (fun _ _ _ ⟨hg, hk⟩ ⟨he, hx⟩ => ⟨hg.exec hk.inv he hx, hk.exec he hx⟩) ⟨hg, hk⟩

theorem Gone.not_selected (hg : h.Gone p) (hi : h.Inv) {cb : κ} {text : Bytes} {accepted : Bool} {ret : Status}
    {i : Int32} (hcall : h.command (-1) cb text accepted = .ok (ret, i, h')) : i ≠ Int32.ofNat p := by
  rcases command_spec hi cb text accepted with ⟨-, hnone⟩ | ⟨-, q, h'', hq, hat, hsome, -⟩
  · cases hnone.symm.trans hcall
    intro heq
    have hint := congrArg Int32.toInt heq
    rw [Int32.toInt_ofNat_of_lt (hi.lt hg.lt)] at hint
    have hneg : (-1 : Int32).toInt = -1 := rfl
    omega
  · cases hsome.symm.trans hcall
    refine hi.id_ne hg.lt hq ?_
    intro hqp
    subst hqp
    have hplace := (placeOf_at hat).symm.trans (placeOf_at hg.inactive)
    cases hplace

/-- A lost connection is handled: the assertions hold, the connection is in
the inactive map and in no other, stays there, and is selected by no later
command. -/
def HandlesLoss (s n : Int32) (h : Hiredis κ) (p : Nat) : Prop :=
  ∃ h' upcalls, h.handleDisconnect p = .ok (h', upcalls) ∧
    ∀ as h'', (system s n).Run h' as h'' → h''.At .inactive p ∧
      ∀ cb text accepted ret i h₃, h''.command (-1) cb text accepted = .ok (ret, i, h₃) → i ≠ Int32.ofNat p

/-- **A lost connection is handled** exactly when it sits in the busy map with
no command outstanding, that is, when its last command was refused. -/
theorem disconnect_iff {s n : Int32} (hr : (system s n).Reachable h) (he : h.Enabled (.disconnect p)) :
    HandlesLoss s n h p ↔ h.activeBusyConn[Int32.ofNat p]? = some p ∧ (h.sconns p).replies = [] := by
  have hk := (kept_invariant s n).reachable hr
  have hp : p < h.allocated := he.1
  have hlink : (h.sconns p).link = .connected := he.2
  constructor
  · intro hhandled
    obtain ⟨h', upcalls, hcall, -⟩ := hhandled
    by_contra hnot
    have hnot' : ¬(h.At .busy p ∧ (h.sconns p).replies = []) := fun ⟨hat, hreplies⟩ => hnot ⟨hat .busy, hreplies⟩
    cases (handleDisconnect_fault hk.inv hp hlink hnot').symm.trans hcall
  · intro hentry
    obtain ⟨hbusy, hreplies⟩ := hentry
    obtain ⟨-, -, hat⟩ := hk.inv.at_entry (w := .busy) hbusy
    obtain ⟨h', hcall, m, hat', hfits, hfreed⟩ := handleDisconnect_stuck hk.inv hp hat hreplies
    have hg : h'.Gone p := ⟨m.allocated ▸ hp, hat', hfreed⟩
    have hk' : Kept s n h' := hk.exec he hcall
    refine ⟨h', [], hcall, ?_⟩
    intro as h'' hrun
    obtain ⟨hg'', hk''⟩ := hg.run hk' hrun
    exact ⟨hg''.inactive, fun cb text accepted ret i h₃ hcmd => hg''.not_selected hk''.inv hcmd⟩

/-- The only connection, idle, is lost: the first assertion fails. -/
theorem disconnect_idle : ∃ h : Hiredis Unit, (system 0 1).Reachable h ∧ h.Enabled (.disconnect 0) ∧
    h.handleDisconnect 0 = .error (.assertion "it != activeBusyConn_.end()") ∧ ¬HandlesLoss 0 1 h 0 := by
  obtain ⟨h, hr, he, hat⟩ := idle_reachable
  have hi := ((kept_invariant 0 1).reachable hr).inv
  have hfault : h.handleDisconnect 0 = .error (.assertion "it != activeBusyConn_.end()") := by
    refine handleDisconnect_fault hi he.1 he.2 fun ⟨hbusy, _⟩ => ?_
    cases (placeOf_at hbusy).symm.trans (placeOf_at hat)
  refine ⟨h, hr, he, hfault, ?_⟩
  intro hhandled
  obtain ⟨h', upcalls, hcall, -⟩ := hhandled
  cases hfault.symm.trans hcall

/-- After a refused command its loss is handled. -/
theorem disconnect_refused : ∃ h : Hiredis Unit, (system 0 1).Reachable h ∧ h.Enabled (.disconnect 0) ∧
    (HandlesLoss 0 1 h 0 ↔ h.activeBusyConn[Int32.ofNat 0]? = some 0 ∧ (h.sconns 0).replies = []) ∧
    h.activeBusyConn[Int32.ofNat 0]? = some 0 ∧ (h.sconns 0).replies = [] := by
  obtain ⟨h, hup, h', hrefused, hlink, hbusy, hreplies⟩ :
      ∃ h, (create 0 1 : Hiredis Unit).afterConnectOne.exec (.write 0 (some .REDIS_OK)) = .ok (h, []) ∧
        ∃ h', h.exec (.command () [] false) = .ok (h', []) ∧ (h'.sconns 0).link = .connected ∧
          h'.activeBusyConn[Int32.ofNat 0]? = some 0 ∧ (h'.sconns 0).replies = [] :=
    ⟨_, rfl, _, rfl, rfl, by decide, rfl⟩
  have hstep' : (system 0 1).step h (.command () [] false, []) h' := ⟨trivial, hrefused⟩
  have hr := (write_reachable hup).step hstep'
  have hk := (kept_invariant 0 1).reachable hr
  have he' : h'.Enabled (.disconnect 0) := ⟨hk.allocated ▸ by decide, hlink⟩
  exact ⟨h', hr, he', disconnect_iff hr he', hbusy, hreplies⟩

end DictionaryServer.Hiredis
