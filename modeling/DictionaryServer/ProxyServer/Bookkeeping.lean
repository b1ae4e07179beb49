/-
What `clientConns_` holds.

The requests write an entry under the id of the connection they were handed,
and nothing erases one. So the entry of a connection is the client of the
command outstanding on it, and stays that client's after the reply, until a
request takes the connection again (`clientConns_entries`).
-/
import DictionaryServer.ProxyServer.Requests

namespace DictionaryServer.ProxyServer

open Lib Lib.Lease

variable {conf : Configure} {charSigned : Bool} {s s' : ProxyServer conf}

/-- A request takes the connection: it goes from the free to the busy map. -/
def Took (s s' : ProxyServer conf) (c : Conn conf) : Prop :=
  (s.backend c.1).activeFreeConns[Int32.ofNat c.2]? = some c.2 ∧
    (s'.backend c.1).activeBusyConn[Int32.ofNat c.2]? = some c.2

/-- An entry for each connection with a command outstanding, its client, and
no other entry. -/
def Exact (s : ProxyServer conf) : Prop :=
  ∀ u conn, s.clientConns[u]? = some conn ↔
    ∃ c : Conn conf, c.2 < (s.backend c.1).allocated ∧ uniqueId c = u ∧
      ∃ command ∈ s.outstanding c, command.cb.conn = conn

/-- What a step writes: nothing, an entry of no connection, or one of the
connection a request takes. -/
theorem entry_written (hI : s.Inv) {l : Event conf × Effect} (hstep : (system conf charSigned).step s l s') :
    s'.clientConns = s.clientConns ∨ ∃ conn,
      (∃ i : Fin conf.poolSize, s'.clientConns = s.clientConns.insert (genUniqueConId (Int32.ofNat i) (-1)) conn) ∨
      ∃ c : Conn conf, c.2 < (s.backend c.1).allocated ∧ Took s s' c ∧
        s'.clientConns = s.clientConns.insert (uniqueId c) conn := by
  obtain ⟨e, effect⟩ := l
  obtain ⟨-, hx⟩ := hstep
  rcases hasked : e.asked with _ | q
  · cases e with
    | set conn msg accepted | query conn msg accepted => cases hasked
    | redis i e =>
      obtain ⟨⟨h, upcalls⟩, -, heq⟩ := bind_ok hx
      cases heq
      exact .inl rfl
  · rw [exec_asked hasked] at hx
    obtain ⟨⟨ret, s''⟩, hcall, heq⟩ := bind_ok hx
    cases heq
    refine .inr ⟨q.conn, ?_⟩
    obtain ⟨i, hi⟩ : ∃ i, i = HiredisPool.getHiredis conf charSigned q.key := ⟨_, rfl⟩
    rcases commandInLoop_spec hI q.conn q.key q.cmd q.accepted hi with
      ⟨-, s'', hcall', -, hclient, -⟩ | ⟨-, p, h, s'', hp, hat, m, hat', -, -, hcall', hb, hclient, -⟩
    · cases hcall'.symm.trans hcall
      exact .inl ⟨i, hclient⟩
    · cases hcall'.symm.trans hcall
      refine .inr ⟨(i, p), hp, ⟨hat .free, ?_⟩, hclient⟩
      rw [hb, Function.update_self]
      exact hat' .busy

/-- **Only a request that takes a connection writes its entry.** -/
theorem entry_kept (hI : s.Inv) {l : Event conf × Effect} (hstep : (system conf charSigned).step s l s') {c : Conn conf}
    (hc : c.2 < 2 ^ 31) (htook : ¬Took s s' c) : s'.clientConns[uniqueId c]? = s.clientConns[uniqueId c]? := by
  rcases entry_written hI hstep with hsame | ⟨conn, ⟨i, hclient⟩ | ⟨c', hp, htook', hclient⟩⟩
  · rw [hsame]
  · rw [hclient, getElem?_insert_uid, if_neg]
    exact fun heq => genUniqueConId_ne_none hc _ _ heq.symm
  · rw [hclient, getElem?_insert_uid, if_neg]
    intro heq
    cases uniqueId_inj ((hI.inv c'.1).lt hp) hc heq
    exact htook htook'

/-- A key of `clientConns_` is the id of a connection, or of none. -/
def Keyed (s : ProxyServer conf) : Prop :=
  ∀ u conn, s.clientConns[u]? = some conn →
    (∃ i : Fin conf.poolSize, u = genUniqueConId (Int32.ofNat i) (-1)) ∨
      ∃ c : Conn conf, c.2 < (s.backend c.1).allocated ∧ uniqueId c = u

theorem Keyed.step (hI : s.Inv) (hk : Keyed s) {l : Event conf × Effect} (hstep : (system conf charSigned).step s l s') :
    Keyed s' := by
  intro u conn hentry
  have hallocated := exec_allocated hI hstep.1 hstep.2
  have hold : s.clientConns[u]? = some conn → (∃ i : Fin conf.poolSize, u = genUniqueConId (Int32.ofNat i) (-1)) ∨
      ∃ c : Conn conf, c.2 < (s'.backend c.1).allocated ∧ uniqueId c = u := by
    intro hentry
    rcases hk u conn hentry with hnone | ⟨c, hp, huid⟩
    · exact .inl hnone
    · exact .inr ⟨c, (hallocated c.1).symm ▸ hp, huid⟩
  rcases entry_written hI hstep with hsame | ⟨conn', ⟨i, hclient⟩ | ⟨c, hp, -, hclient⟩⟩
  · exact hold (hsame ▸ hentry)
  · rw [hclient, getElem?_insert_uid] at hentry
    split at hentry
    · next heq => exact .inl ⟨i, heq.symm⟩
    · exact hold hentry
  · rw [hclient, getElem?_insert_uid] at hentry
    split at hentry
    · next heq => exact .inr ⟨c, (hallocated c.1).symm ▸ hp, heq⟩
    · exact hold hentry

theorem keyed_reachable (hr : (system conf charSigned).Reachable s) : Keyed s := by
  have hinv : (system conf charSigned).Invariant fun s => s.Inv ∧ Keyed s :=
    { start := fun s h => by
        refine ⟨(start_inv h).1, ?_⟩
        intro u conn hentry
        rw [h.1, Std.ExtTreeMap.getElem?_empty] at hentry
        cases hentry
      step := fun s l s' h hstep => ⟨(exec_desk h.1 hstep.1 hstep.2).1, h.2.step h.1 hstep⟩ }
  exact (hinv.reachable hr).2

theorem routed_reachable (hr : (system conf charSigned).Reachable s) : s.Inv ∧ Routed Request.conn s.desk := by
  have hinv : (system conf charSigned).Invariant fun s => s.Inv ∧ Routed Request.conn s.desk :=
    { start := fun s h => by
        obtain ⟨hI, hdown⟩ := start_inv h
        exact ⟨hI, fun c t hheld => by rw [hdown c] at hheld; cases hheld⟩
      step := fun s l s' h hstep => by
        obtain ⟨hI', a, hdesk, -⟩ := exec_desk h.1 hstep.1 hstep.2
        exact ⟨hI', hdesk.routed h.2⟩ }
  exact hinv.reachable hr

theorem entry_outstanding (hr : (system conf charSigned).Reachable s) {c : Conn conf}
    (hp : c.2 < (s.backend c.1).allocated) {command : Command Request} (hmem : command ∈ s.outstanding c) :
    s.clientConns[uniqueId c]? = some command.cb.conn := by
  obtain ⟨hI, hrouted⟩ := routed_reachable hr
  have hroute : s.desk.route c = s.clientConns[uniqueId c]? := if_pos ((hI.inv c.1).lt hp)
  rw [← hroute]
  exact hrouted c _ (slot_outstanding hI hp hmem)

theorem entry_run (hI : s.Inv) {c : Conn conf} (hc : c.2 < 2 ^ 31) {labels : List (Event conf × Effect)}
    (hr : ((system conf charSigned).restrict fun s _ s' => ¬Took s s' c).Run s labels s') :
    s'.Inv ∧ s'.clientConns[uniqueId c]? = s.clientConns[uniqueId c]? := by
  induction hr with
  | nil => exact ⟨hI, rfl⟩
  | snoc _ hstep ih =>
    obtain ⟨hI₁, hsame⟩ := ih
    exact ⟨(exec_desk hI₁ hstep.1.1 hstep.1.2).1, (entry_kept hI₁ hstep.1 hc hstep.2).trans hsame⟩

/-- **The entries of `clientConns_`.** A connection with a command outstanding
has the entry of that command's client, and keeps it, whatever is answered,
until a request takes the connection; before one first does it has none. Any
other entry is of no connection. -/
theorem clientConns_entries (conf : Configure) (charSigned : Bool) :
    (∀ s, (system conf charSigned).Reachable s → ∀ c : Conn conf, c.2 < (s.backend c.1).allocated →
      ∀ command ∈ s.outstanding c, s.clientConns[uniqueId c]? = some command.cb.conn ∧
        ∀ labels s', ((system conf charSigned).restrict fun s _ s' => ¬Took s s' c).Run s labels s' →
          s'.clientConns[uniqueId c]? = some command.cb.conn) ∧
    (∀ s₀, (system conf charSigned).start s₀ → ∀ c : Conn conf, c.2 < 2 ^ 31 →
      ∀ labels s, ((system conf charSigned).restrict fun s _ s' => ¬Took s s' c).Run s₀ labels s →
        s.clientConns[uniqueId c]? = none) ∧
    ∀ s, (system conf charSigned).Reachable s → ∀ u conn, s.clientConns[u]? = some conn →
      (∀ i : Fin conf.poolSize, u ≠ genUniqueConId (Int32.ofNat i) (-1)) →
        ∃ c : Conn conf, c.2 < (s.backend c.1).allocated ∧ uniqueId c = u := by
  refine ⟨?_, ?_, ?_⟩
  · intro s hr c hp command hmem
    have hentry := entry_outstanding hr hp hmem
    refine ⟨hentry, ?_⟩
    intro labels s' hrun
    have hI := (routed_reachable hr).1
    exact (entry_run hI ((hI.inv c.1).lt hp) hrun).2.trans hentry
  · intro s₀ h₀ c hc labels s hrun
    rw [(entry_run (start_inv h₀).1 hc hrun).2, h₀.1]
    exact Std.ExtTreeMap.getElem?_empty
  · intro s hr u conn hentry hnone
    rcases keyed_reachable hr u conn hentry with ⟨i, hi⟩ | hconn
    · exact absurd hi (hnone i)
    · exact hconn

/-- The client that asked, and was answered, is still the one connection's. -/
theorem clientConns_entries_one : ∃ (s₁ s₂ s₃ : ProxyServer oneServer) (f₂ f₃ : Effect),
    (system oneServer true).Reachable s₁ ∧ s₁.clientConns[uniqueId (server, 0)]? = none ∧
    (system oneServer true).step s₁ (.query 7 { key := ofText "k" } true, f₂) s₂ ∧
    (system oneServer true).step s₂ (.redis server (.reply 0 (some .nil)), f₃) s₃ ∧
    s₃.outstanding (server, 0) = [] ∧ s₃.clientConns[uniqueId (server, 0)]? = some 7 := by
  obtain ⟨s₁, s₂, s₃, f₁, f₂, f₃, h⟩ := exists_answered
  have hr₁ := (System.Reachable.of_start (opened_start true)).step h.up
  obtain ⟨hkept, hnone, -⟩ := clientConns_entries oneServer true
  have hup : ((system oneServer true).restrict fun s _ s' => ¬Took s s' (server, 0)).Run opened
      [(.redis server (.write 0 (some .REDIS_OK)), f₁)] s₁ := by
    refine .single ⟨h.up, ?_⟩
    intro htook
    cases h.idle.symm.trans htook.2
  have hreply : ((system oneServer true).restrict fun s _ s' => ¬Took s s' (server, 0)).Run s₂
      [(.redis server (.reply 0 (some .nil)), f₃)] s₃ := by
    refine .single ⟨h.reply, ?_⟩
    intro htook
    cases h.busy.symm.trans htook.1
  have hout : s₂.outstanding (server, 0) = [⟨ofText "get k", ⟨0, 7⟩⟩] := h.outstanding
  refine ⟨s₁, s₂, s₃, f₂, f₃, hr₁, hnone _ (opened_start true) (server, 0) (by decide) _ _ hup, h.query, h.reply,
    h.done, ?_⟩
  exact (hkept s₂ (hr₁.step h.query) (server, 0) h.allocated _ (hout ▸ List.mem_singleton_self _)).2 _ _ hreply

/-- After a query and its reply nothing is outstanding, and the entry of the
client is still there. -/
theorem clientConns_stale : ∃ s : ProxyServer oneServer, (system oneServer true).Reachable s ∧ ¬Exact s := by
  obtain ⟨s₁, s₂, s₃, f₁, f₂, f₃, h⟩ := exists_answered
  refine ⟨s₃, (((System.Reachable.of_start (opened_start true)).step h.up).step h.query).step h.reply, ?_⟩
  intro hexact
  obtain ⟨⟨i, p⟩, hp, -, command, hmem, -⟩ := (hexact _ 7).mp h.entry
  have hi : i = server := Fin.ext (Nat.lt_one_iff.mp i.isLt)
  subst hi
  have hzero : p = 0 := Nat.lt_one_iff.mp (h.only ▸ hp)
  subst hzero
  have hdone : s₃.outstanding (server, 0) = [] := h.done
  rw [hdone] at hmem
  cases hmem

end DictionaryServer.ProxyServer
