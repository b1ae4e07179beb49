/-
Whether a client is cut off while an answer is owed to it.

`commandCallback` shuts the client down after its reply, and the codec after a
malformed frame; neither looks for other commands of that client. No command is
outstanding at a shutdown in runs where none is issued for a client that still
has one outstanding, and where a malformed frame is met only on the connection
of a client that has none (`shutdown_clean`): the rule of `Lib.Lease` for one
lease per owner.
-/
import DictionaryServer.ProxyServer.HandOver

namespace DictionaryServer

open Lib Lib.Lease

namespace ProxyServer

variable {conf : Configure} {charSigned : Bool} {s s' : ProxyServer conf} {e : Event conf} {effect : Effect}

/-- A command issued for the client is outstanding. -/
def Owes (s : ProxyServer conf) (conn : TcpConnectionPtr) : Prop :=
  ∃ c : Conn conf, c.2 < (s.backend c.1).allocated ∧ ∃ command ∈ s.outstanding c, command.cb.conn = conn

/-- That is, at the desk it has a connection. -/
theorem owes_iff (hI : s.Inv) {conn : TcpConnectionPtr} :
    s.Owes conn ↔ ∃ c t, s.desk.slot c = .held t ∧ t.conn = conn := by
  constructor
  · intro howes
    obtain ⟨⟨i, p⟩, hp, command, hmem, hconn⟩ := howes
    exact ⟨(i, p), command.cb, slot_outstanding hI hp hmem, hconn⟩
  · intro hheld
    obtain ⟨c, t, hslot, hconn⟩ := hheld
    obtain ⟨hp, text, hlist⟩ := held_outstanding hI hslot
    exact ⟨c, hp, _, hlist ▸ List.mem_singleton_self _, hconn⟩

/-- A command is issued for the client that asked, on a free connection, and
is accepted. -/
theorem issued_asked (hI : s.Inv) (hx : s.exec charSigned e = .ok (s', effect)) {r : Request} (hr : r ∈ effect.issued) :
    ∃ q, e.asked = some q ∧ r.conn = q.conn ∧ HasFree charSigned s q.key ∧ q.accepted = true := by
  have hwho : ∀ q, e.asked = some q → r.conn = q.conn ∧ HasFree charSigned s q.key ∧ q.accepted = true := by
    intro q hq
    rw [exec_asked hq, HasFree] at *
    obtain ⟨i, hi⟩ : ∃ i, i = HiredisPool.getHiredis conf charSigned q.key := ⟨_, rfl⟩
    rcases commandInLoop_spec hI q.conn q.key q.cmd q.accepted hi with
      ⟨-, s'', hcall, -⟩ | ⟨hfree, p, h, s'', -, -, -, -, -, -, hcall, -⟩
    · rw [hcall] at hx
      cases hx
      cases hr
    · rw [hcall] at hx
      cases hx
      rw [← hi]
      cases haccepted : q.accepted
      · rw [haccepted] at hr
        cases hr
      · rw [haccepted] at hr
        rw [List.mem_singleton.mp hr]
        exact ⟨rfl, hfree, rfl⟩
  cases e with
  | set conn msg accepted | query conn msg accepted => exact ⟨_, rfl, hwho _ rfl⟩
  | redis i e =>
    obtain ⟨⟨h, upcalls⟩, -, heq⟩ := bind_ok hx
    cases heq
    cases hr

/-- Who is shut down was sent a reply. -/
theorem shutdown_replied (hx : s.exec charSigned e = .ok (s', effect)) {conn : TcpConnectionPtr}
    (hconn : conn ∈ effect.shutdowns) : ∃ r ∈ effect.replies, r.2 = conn := by
  have hreplied : ∀ upcall, Output.shutdown conn ∈ s.commandCallback upcall →
      ∃ answer, Output.send conn answer ∈ s.commandCallback upcall := by
    intro upcall hmem
    unfold commandCallback at hmem ⊢
    split at hmem
    · rcases List.mem_pair.mp hmem with heq | heq
      · cases heq
      · cases heq
        exact ⟨_, List.mem_cons_self⟩
    · cases hmem
  cases e with
  | set conn msg accepted | query conn msg accepted =>
    obtain ⟨⟨ret, s''⟩, -, heq⟩ := bind_ok hx
    cases heq
    cases hconn
  | redis i e =>
    obtain ⟨⟨h, upcalls⟩, -, heq⟩ := bind_ok hx
    cases heq
    simp only [Effect.shutdowns, List.mem_flatMap, List.mem_map, List.mem_filterMap] at hconn
    obtain ⟨-, ⟨upcall, hupcall, rfl⟩, output, houtput, hshut⟩ := hconn
    cases output with
    | send conn' answer => cases hshut
    | shutdown conn' =>
      cases hshut
      obtain ⟨answer, hsend⟩ := hreplied upcall houtput
      refine ⟨(upcall.command.cb, conn), ?_, rfl⟩
      simp only [Effect.replies, List.mem_flatMap, List.mem_map, List.mem_filterMap]
      exact ⟨_, ⟨upcall, hupcall, rfl⟩, _, hsend, rfl⟩

/-- Answers find their clients, and no client has two commands outstanding. -/
structure OneEach (s : ProxyServer conf) : Prop where
  inv : s.Inv
  routed : Routed Request.conn s.desk
  exclusive : Exclusive Request.conn s.desk

/-- **An event that issues no second command for a client** keeps it so, and
whom it shuts down it owes nothing. -/
theorem OneEach.exec (h : s.OneEach) (he : s.Enabled e) (hx : s.exec charSigned e = .ok (s', effect))
    (hpolite : ∀ q, e.asked = some q → HasFree charSigned s q.key → q.accepted = true → ¬s.Owes q.conn) :
    s'.OneEach ∧ ∀ conn ∈ effect.shutdowns, ¬s'.Owes conn := by
  obtain ⟨hI', a, hstep, hmatch⟩ := exec_desk h.inv he hx
  have hp : Polite Request.conn s.desk a s'.desk := by
    intro c r ha c' r' hheld howner
    subst ha
    have hr : r ∈ effect.issued := by
      rw [hmatch.issued]
      exact List.mem_singleton_self r
    obtain ⟨q, hq, hconn, hfree, haccepted⟩ := issued_asked h.inv hx hr
    exact hpolite q hq hfree haccepted ((owes_iff h.inv).mpr ⟨c', r', hheld, howner.trans hconn⟩)
  refine ⟨⟨hI', hstep.routed h.routed, hstep.exclusive hp h.exclusive⟩, ?_⟩
  intro conn hconn howes
  obtain ⟨r, hr, rfl⟩ := shutdown_replied hx hconn
  rw [hmatch.replies, Option.mem_toList] at hr
  obtain ⟨c, rfl⟩ := replyOf_answer hr
  obtain ⟨c', r', hheld, howner⟩ := (owes_iff hI').mp howes
  have hclient : some r.2 = some r.1.conn :=
    answers_routed (System.Run.single hstep) h.routed (List.mem_singleton_self _)
  exact answer_exclusive hstep h.exclusive c' r' hheld (howner.trans (Option.some_inj.mp hclient))

theorem OneEach.of_start (h : (system conf charSigned).start s) : s.OneEach := by
  obtain ⟨hI, hdown⟩ := start_inv h
  refine ⟨hI, fun c r hheld => ?_, fun c c' r r' hheld => ?_⟩
  · rw [hdown c] at hheld; cases hheld
  · rw [hdown c] at hheld; cases hheld

end ProxyServer

namespace Threads

open ProxyServer (HasFree oneServer opened server opened_up_enabled)

variable {W : WireFormatLite} {conf : Configure} {charSigned : Bool} {t t' : Threads conf}

/-- One Redis server with two connections. -/
def twoConns : Configure := { oneServer with perServerConn := fun _ => 2 }

/-- The proxy at its start, with two connections to its only Redis server. -/
def openedTwo : ProxyServer twoConns where
  clientConns := ∅
  backend i := (Hiredis.create (Int32.ofNat i) 2).afterConnectOne.afterConnectOne
  requests := 0

def onlyServer : Fin twoConns.poolSize := ⟨0, Nat.zero_lt_one⟩

theorem openedTwo_start : (system wireFormat twoConns true).start (started openedTwo) := by
  refine ⟨⟨rfl, rfl, ?_⟩, fun _ => rfl, rfl, fun _ => rfl, rfl, rfl⟩
  intro i
  obtain ⟨h, hh⟩ : ∃ h : Hiredis Request, h = Hiredis.create (Int32.ofNat i) 2 := ⟨_, rfl⟩
  show (Hiredis.create (Int32.ofNat i) 2).connect = .ok (Hiredis.create (Int32.ofNat i) 2).afterConnectOne.afterConnectOne
  rw [Hiredis.connect, if_pos (show (Hiredis.create (Int32.ofNat i) 2 : Hiredis Request).inactiveConns.isEmpty = true from rfl)]
  exact (Hiredis.connectLoop_cons _ [1]).trans (Hiredis.connectLoop_cons _ [])

end Threads
end DictionaryServer
