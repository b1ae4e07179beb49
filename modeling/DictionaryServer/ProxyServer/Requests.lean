/-
What becomes of a request.

A request is taken up when some connection of its server is free and hiredis
accepts the command. Otherwise nothing carries it and nobody is told:
`setInLoop` and `queryInLoop` ignore what `command` returns
(`request_served_iff`).
-/
import DictionaryServer.ProxyServer.Routing

namespace DictionaryServer.ProxyServer

open Lib

variable {conf : Configure} {charSigned : Bool} {s s' : ProxyServer conf} {e : Event conf} {effect : Effect}

/-- What a request asks: for whom, the key that selects the server, the
command, and whether hiredis is going to accept it. -/
structure Asked where
  conn : TcpConnectionPtr
  key : Bytes
  cmd : Bytes
  accepted : Bool

def Event.asked : Event conf → Option Asked
  | .set conn msg accepted => some ⟨conn, msg.key, setCommand msg, accepted⟩
  | .query conn msg accepted => some ⟨conn, msg.key, getCommand msg, accepted⟩
  | .redis _ _ => none

/-- The accepted commands of a connection whose callbacks have not run. -/
def outstanding (s : ProxyServer conf) (c : Conn conf) : List (Command Request) := ((s.backend c.1).sconns c.2).replies

theorem slot_outstanding (hI : s.Inv) {c : Conn conf} (hp : c.2 < (s.backend c.1).allocated)
    {command : Command Request} (hmem : command ∈ s.outstanding c) : s.desk.slot c = .held command.cb := by
  obtain ⟨w, hat, hfits⟩ := (hI.inv c.1).place c.2 hp
  have hreplies : command ∈ ((s.backend c.1).sconns c.2).replies := hmem
  rw [slot_of_at hp hat]
  cases w with
  | inactive | free => rw [hfits.1] at hreplies; cases hreplies
  | busy =>
    have hlen := hfits.1
    rcases hlist : ((s.backend c.1).sconns c.2).replies with _ | ⟨command', _ | ⟨command'', replies⟩⟩
    · rw [hlist] at hreplies; cases hreplies
    · rw [hlist, List.mem_singleton] at hreplies
      rw [Hiredis.slotOf, hlist, hreplies]
    · rw [hlist] at hlen
      exact absurd hlen (by simp)

/-- The lease of a connection is of the only command outstanding on it. -/
theorem held_outstanding (hI : s.Inv) {c : Conn conf} {q : Request} (hheld : s.desk.slot c = .held q) :
    c.2 < (s.backend c.1).allocated ∧ ∃ text, s.outstanding c = [⟨text, q⟩] := by
  have hp : c.2 < (s.backend c.1).allocated := by
    by_contra hp
    have hdown : s.desk.slot c = .down := if_neg hp
    rw [hdown] at hheld
    cases hheld
  refine ⟨hp, ?_⟩
  obtain ⟨w, hat, hfits⟩ := (hI.inv c.1).place c.2 hp
  rw [slot_of_at hp hat] at hheld
  cases w with
  | inactive | free => cases hheld
  | busy =>
    have hlen := hfits.1
    rw [Hiredis.slotOf] at hheld
    split at hheld
    · cases hheld
    · next command replies hlist =>
      cases hheld
      rw [hlist] at hlen
      have hnil : replies = [] := by simpa using hlen
      rw [outstanding, hlist, hnil]
      exact ⟨_, rfl⟩

/-- One connection, and no other, has accepted one command, which carries the
request, and its unique id leads to the client. -/
def TakenUp (s s' : ProxyServer conf) (q : Asked) : Prop :=
  ∃ c : Conn conf, s'.outstanding c = s.outstanding c ++ [⟨q.cmd, ⟨s.requests, q.conn⟩⟩] ∧
    (∀ c' ≠ c, s'.outstanding c' = s.outstanding c') ∧ s'.clientConns[uniqueId c]? = some q.conn

/-- The client a server's action is about. -/
def Output.client : Output → TcpConnectionPtr
  | .send conn _ => conn
  | .shutdown conn => conn

/-- The client was sent a reply, or shut down. -/
def Told (effect : Effect) (conn : TcpConnectionPtr) : Prop :=
  ∃ callback ∈ effect.callbacks, ∃ output ∈ callback.2, Output.client output = conn

/-- Some connection of the server the key selects is up and has nothing
outstanding. -/
def HasFree (charSigned : Bool) (s : ProxyServer conf) (key : Bytes) : Prop :=
  (s.backend (HiredisPool.getHiredis conf charSigned key)).activeFreeConns.isEmpty = false

theorem exec_asked {q : Asked} (ha : e.asked = some q) :
    s.exec charSigned e =
      (s.commandInLoop charSigned q.conn q.key q.cmd q.accepted >>= fun r => .ok (r.2, s.requested q.conn r.1)) := by
  cases e with
  | set conn msg accepted | query conn msg accepted => cases ha; rfl
  | redis i e => cases ha

theorem not_takenUp {q : Asked} (h : ∀ c, s'.outstanding c = s.outstanding c) : ¬TakenUp s s' q := by
  intro htaken
  obtain ⟨c, hmore, -⟩ := htaken
  rw [h c] at hmore
  exact absurd hmore (by simp)

theorem outstanding_update {i : Fin conf.poolSize} {p : Nat} {h : Hiredis Request}
    (m : Hiredis.Moved (s.backend i) h p) (hb : s'.backend = Function.update s.backend i h) :
    s'.outstanding (i, p) = (h.sconns p).replies ∧ ∀ c ≠ (i, p), s'.outstanding c = s.outstanding c := by
  refine ⟨by rw [outstanding, hb, Function.update_self], fun ⟨j, q⟩ hne => ?_⟩
  simp only [outstanding, hb]
  by_cases hj : j = i
  · subst hj
    rw [Function.update_self, m.sconns q (by simpa using hne)]
  · rw [Function.update_of_ne hj]

/-- A request is taken up exactly when a connection is free and hiredis
accepts. -/
theorem takenUp_iff (hI : s.Inv) {q : Asked} (ha : e.asked = some q) :
    ∃ s' effect, s.exec charSigned e = .ok (s', effect) ∧ effect.callbacks = [] ∧
      (TakenUp s s' q ↔ HasFree charSigned s q.key ∧ q.accepted = true) := by
  rw [exec_asked ha, HasFree]
  obtain ⟨i, hi⟩ : ∃ i, i = HiredisPool.getHiredis conf charSigned q.key := ⟨_, rfl⟩
  rcases commandInLoop_spec hI q.conn q.key q.cmd q.accepted hi with
    ⟨hempty, s', hcall, hb, -⟩ | ⟨hfree, p, h, s', hp, hat, m, hat', -, hreplies, hcall, hb, hclient, -⟩
  · rw [hcall, ← hi, hempty]
    exact ⟨s', _, rfl, rfl, iff_of_false (not_takenUp fun c => by rw [outstanding, hb, outstanding]) (by simp)⟩
  · obtain ⟨hhere, helsewhere⟩ := outstanding_update m hb
    -- A free connection has nothing outstanding.
    have hnone : s.outstanding (i, p) = [] := by
      obtain ⟨w, hat₀, hfits⟩ := (hI.inv i).place p hp
      cases (Hiredis.placeOf_at hat₀).symm.trans (Hiredis.placeOf_at hat)
      exact hfits.1
    rw [hreplies] at hhere
    rw [hcall, ← hi, hfree]
    refine ⟨s', _, rfl, rfl, ?_⟩
    cases haccepted : q.accepted
    · refine iff_of_false (not_takenUp ?_) (by simp)
      intro c
      by_cases hc : c = (i, p)
      · rw [hc, hhere, hnone, haccepted]; rfl
      · exact helsewhere c hc
    · refine iff_of_true ⟨(i, p), ?_, helsewhere, ?_⟩ ⟨rfl, rfl⟩
      · rw [hhere, hnone, haccepted]; rfl
      · rw [hclient, getElem?_insert_uid, if_pos rfl]

/-- **A request is taken up, or its client told,** exactly when its server has
a free connection and hiredis accepts the command. -/
theorem request_served_iff (hr : (system conf charSigned).Reachable s) {q : Asked} (ha : e.asked = some q) :
    ∃ s' effect, s.exec charSigned e = .ok (s', effect) ∧
      (TakenUp s s' q ∨ Told effect q.conn ↔ HasFree charSigned s q.key ∧ q.accepted = true) := by
  obtain ⟨s', effect, hx, hquiet, htaken⟩ := takenUp_iff ((inv_invariant conf charSigned).reachable hr) ha
  refine ⟨s', effect, hx, ?_⟩
  have hnot : ¬Told effect q.conn := by
    intro htold
    obtain ⟨callback, hmem, -⟩ := htold
    rw [hquiet] at hmem
    cases hmem
  rw [or_iff_left hnot]
  exact htaken

/-- **What an event changes** of the backend: one connection at most. -/
theorem exec_moved (hI : s.Inv) (he : s.Enabled e) (hx : s.exec charSigned e = .ok (s', effect)) :
    s'.backend = s.backend ∨ ∃ i p h, p < (s.backend i).allocated ∧ Hiredis.Moved (s.backend i) h p ∧
      s'.backend = Function.update s.backend i h := by
  rcases hasked : e.asked with _ | q
  · cases e with
    | set conn msg accepted | query conn msg accepted => cases hasked
    | redis i e =>
      obtain ⟨⟨h, upcalls⟩, hcall, heq⟩ := bind_ok hx
      cases heq
      obtain ⟨he, hne⟩ := he
      refine .inr ⟨i, ?_⟩
      cases e with
      | command cb text accepted => exact absurd rfl (hne cb text accepted)
      | write p outcome =>
        obtain ⟨hp, hc, -⟩ := he
        obtain ⟨h', w, hcall', m, -⟩ := Hiredis.handleWrite_spec (hI.inv i) hp hc outcome
        cases (Hiredis.exec_write hcall').symm.trans hcall
        exact ⟨p, _, hp, m, rfl⟩
      | reply p reply =>
        obtain ⟨hp, -, hreplies⟩ := he
        obtain ⟨h', c, -, -, hcall', m, -⟩ := Hiredis.handleReply_spec (hI.inv i) hp hreplies reply
        cases hcall'.symm.trans hcall
        exact ⟨p, _, hp, m, rfl⟩
      | disconnect p =>
        obtain ⟨hp, hlink⟩ := he
        by_cases hstuck : (s.backend i).At .busy p ∧ ((s.backend i).sconns p).replies = []
        · obtain ⟨h', hcall', m, -⟩ := Hiredis.handleDisconnect_stuck (hI.inv i) hp hstuck.1 hstuck.2
          cases hcall'.symm.trans hcall
          exact ⟨p, _, hp, m, rfl⟩
        · cases (Hiredis.handleDisconnect_fault (hI.inv i) hp hlink hstuck).symm.trans hcall
  · rw [exec_asked hasked] at hx
    obtain ⟨⟨ret, s''⟩, hcall, heq⟩ := bind_ok hx
    cases heq
    obtain ⟨i, hi⟩ : ∃ i, i = HiredisPool.getHiredis conf charSigned q.key := ⟨_, rfl⟩
    rcases commandInLoop_spec hI q.conn q.key q.cmd q.accepted hi with
      ⟨-, s'', hcall', hb, -⟩ | ⟨-, p, h, s'', hp, -, m, -, -, -, hcall', hb, -⟩
    · cases hcall'.symm.trans hcall
      exact .inl hb
    · cases hcall'.symm.trans hcall
      exact .inr ⟨i, p, h, hp, m, hb⟩

theorem exec_allocated (hI : s.Inv) (he : s.Enabled e) (hx : s.exec charSigned e = .ok (s', effect))
    (i : Fin conf.poolSize) : (s'.backend i).allocated = (s.backend i).allocated := by
  rcases exec_moved hI he hx with hb | ⟨j, p, h, -, m, hb⟩ <;> rw [hb]
  by_cases hij : i = j
  · rw [hij, Function.update_self, m.allocated]
  · rw [Function.update_of_ne hij]

/-- The only connection comes up, and takes a query. -/
theorem busy_reachable : ∃ s₁ s₂ : ProxyServer oneServer, (system oneServer true).Reachable s₁ ∧
    (system oneServer true).Reachable s₂ ∧ HasFree true s₁ (ofText "k") ∧ ¬HasFree true s₂ (ofText "k") := by
  obtain ⟨s₁, f₁, hup, hfree, s₂, f₂, hquery, hbusy⟩ :
      ∃ s₁ f₁, opened.exec true (.redis server (.write 0 (some .REDIS_OK))) = .ok (s₁, f₁) ∧
        HasFree true s₁ (ofText "k") ∧
      ∃ s₂ f₂, s₁.exec true (.query 7 { key := ofText "k" } true) = .ok (s₂, f₂) ∧
        (s₂.backend server).activeFreeConns.isEmpty = true :=
    ⟨_, _, rfl, rfl, _, _, rfl, rfl⟩
  have hstep₁ : (system oneServer true).step opened (_, f₁) s₁ := ⟨opened_up_enabled, hup⟩
  have hstep₂ : (system oneServer true).step s₁ (.query 7 { key := ofText "k" } true, f₂) s₂ := ⟨trivial, hquery⟩
  have hr₁ := (System.Reachable.of_start (opened_start true)).step hstep₁
  refine ⟨s₁, s₂, hr₁, hr₁.step hstep₂, hfree, ?_⟩
  intro hfree'
  have hsame : HiredisPool.getHiredis oneServer true (ofText "k") = server := rfl
  rw [HasFree, hsame, hbusy] at hfree'
  cases hfree'

/-- Another client asks while the only connection is busy: its query is
dropped, and it is not told. -/
theorem request_dropped : ∃ (s s' : ProxyServer oneServer) (effect : Effect), (system oneServer true).Reachable s ∧
    s.exec true (.query 8 { key := ofText "k" } true) = .ok (s', effect) ∧
    ¬(TakenUp s s' ⟨8, ofText "k", ofText "get k", true⟩ ∨ Told effect 8) := by
  obtain ⟨-, s, -, hr, -, hbusy⟩ := busy_reachable
  obtain ⟨s', effect, hx, hquiet, htaken⟩ := takenUp_iff (e := .query 8 { key := ofText "k" } true)
    ((inv_invariant oneServer true).reachable hr) rfl
  refine ⟨s, s', effect, hr, hx, ?_⟩
  intro hserved
  rcases hserved with htaken' | ⟨callback, hmem, -⟩
  · exact hbusy (htaken.mp htaken').1
  · rw [hquiet] at hmem; cases hmem

/-- A query that finds the connection free. -/
theorem request_served_one : ∃ (s s' : ProxyServer oneServer) (effect : Effect), (system oneServer true).Reachable s ∧
    s.exec true (.query 7 { key := ofText "k" } true) = .ok (s', effect) ∧
    HasFree true s (ofText "k") ∧ (TakenUp s s' ⟨7, ofText "k", ofText "get k", true⟩ ∨ Told effect 7 ↔
      HasFree true s (ofText "k") ∧ true = true) := by
  obtain ⟨s, -, hr, -, hfree, -⟩ := busy_reachable
  obtain ⟨s', effect, hx, hserved⟩ := request_served_iff (e := .query 7 { key := ofText "k" } true) hr rfl
  exact ⟨s, s', effect, hr, hx, hfree, hserved⟩

end DictionaryServer.ProxyServer
