/-
Where replies go.

A server is a desk of `Lib.Lease`: its resources are the connections of all
Redis servers, its tickets the requests, and its routing table is
`clientConns_`, read at the unique ids of connections (`desk`). Every event is
one step at the desk (`step_desk`), so the rules of that library hold of every
run: replies go to the client that asked, and no request is answered twice.
-/
import DictionaryServer.ProxyServer

namespace DictionaryServer.ProxyServer

open Lib Lib.Lease

variable {conf : Configure} {charSigned : Bool} {s s' : ProxyServer conf}

/-- The connection `p` of the server `i`. -/
abbrev Conn (conf : Configure) := Fin conf.poolSize × Nat

/-- Its key in `clientConns_`. -/
def uniqueId (c : Conn conf) : Int64 := genUniqueConId (Int32.ofNat c.1) (Int32.ofNat c.2)

/-- What the connections are doing, and whom the table would answer on each. -/
def desk (s : ProxyServer conf) : Desk (Conn conf) TcpConnectionPtr Request where
  slot c := (s.backend c.1).slot c.2
  route c := if c.2 < 2 ^ 31 then s.clientConns[uniqueId c]? else none

/-- What every run keeps of the backend. -/
structure Inv (s : ProxyServer conf) : Prop where
  inv : ∀ i, (s.backend i).Inv
  serverId : ∀ i, (s.backend i).serverId = Int32.ofNat i

theorem uniqueId_inj {c c' : Conn conf} (hc : c.2 < 2 ^ 31) (hc' : c'.2 < 2 ^ 31) (h : uniqueId c = uniqueId c') :
    c = c' := by
  have hsize := conf.poolSize_lt
  obtain ⟨h₁, h₂⟩ := genUniqueConId_inj (lt_trans c.1.2 hsize) (lt_trans c'.1.2 hsize) hc hc' h
  exact Prod.ext (Fin.ext h₁) h₂

theorem getElem?_insert_uid {m : Std.ExtTreeMap Int64 TcpConnectionPtr} {k u : Int64} {conn : TcpConnectionPtr} :
    (m.insert k conn)[u]? = if k = u then some conn else m[u]? := by
  rw [Std.ExtTreeMap.getElem?_insert]
  exact if_congr Std.compare_eq_iff_eq rfl rfl

theorem route_insert (s : ProxyServer conf) {c : Conn conf} (hc : c.2 < 2 ^ 31) (conn : TcpConnectionPtr)
    (hclient : s'.clientConns = s.clientConns.insert (uniqueId c) conn) :
    s'.desk.route = Function.update s.desk.route c (some conn) := by
  funext c'
  by_cases hcc : c' = c
  · rw [hcc, Function.update_self]
    simp only [desk, if_pos hc, hclient, getElem?_insert_uid, if_true]
  · rw [Function.update_of_ne hcc]
    simp only [desk, hclient, getElem?_insert_uid]
    split
    · next hc' => exact if_neg fun heq => hcc (uniqueId_inj hc hc' heq).symm
    · rfl

/-- The entry of no connection is written. -/
theorem route_insert_none (s : ProxyServer conf) (i : Int32) (conn : TcpConnectionPtr)
    (hclient : s'.clientConns = s.clientConns.insert (genUniqueConId i (-1)) conn) :
    s'.desk.route = s.desk.route := by
  funext c
  simp only [desk, hclient, getElem?_insert_uid]
  split
  · next hc => exact if_neg fun heq => genUniqueConId_ne_none hc _ _ heq.symm
  · rfl

theorem slot_moved {i : Fin conf.poolSize} {p : Nat} {h : Hiredis Request} (hi : (s.backend i).Inv)
    (hp : p < (s.backend i).allocated) (m : Hiredis.Moved (s.backend i) h p)
    (hb : s'.backend = Function.update s.backend i h) :
    s'.desk.slot = Function.update s.desk.slot (i, p) (h.slot p) := by
  funext ⟨j, q⟩
  by_cases hj : j = i
  · subst hj
    have hslot := congrFun (m.slot hi hp) q
    by_cases hq : q = p
    · subst hq
      simp only [desk, hb, Function.update_self]
    · rw [Function.update_of_ne hq] at hslot
      rw [Function.update_of_ne (by simpa using hq)]
      simp only [desk, hb, Function.update_self, hslot]
  · rw [Function.update_of_ne (by simp [hj])]
    simp only [desk, hb, Function.update_of_ne hj]

theorem Inv.update (hI : s.Inv) {i : Fin conf.poolSize} {h : Hiredis Request} (hi : h.Inv)
    (hserver : h.serverId = (s.backend i).serverId) (hb : s'.backend = Function.update s.backend i h) : s'.Inv := by
  constructor <;> intro j <;> rw [hb] <;> by_cases hj : j = i
  · rw [hj, Function.update_self]
    exact hi
  · rw [Function.update_of_ne hj]
    exact hI.inv j
  · rw [hj, Function.update_self, hserver]
    exact hI.serverId i
  · rw [Function.update_of_ne hj]
    exact hI.serverId j

/-! ## One event, one step at the desk -/

/-- **A request** gets no connection, and leaves an entry under no connection's
id, or gets a free one of its server, and leaves the client's entry under it. -/
theorem commandInLoop_spec (hI : s.Inv) (conn : TcpConnectionPtr) (key cmd : Bytes) (accepted : Bool)
    {i : Fin conf.poolSize} (hi : i = HiredisPool.getHiredis conf charSigned key) :
    ((s.backend i).activeFreeConns.isEmpty = true ∧
      ∃ s', s.commandInLoop charSigned conn key cmd accepted = .ok (.REDIS_ERR, s') ∧ s'.backend = s.backend ∧
        s'.clientConns = s.clientConns.insert (genUniqueConId (Int32.ofNat i) (-1)) conn ∧
        s'.requests = s.requests + 1) ∨
    ((s.backend i).activeFreeConns.isEmpty = false ∧ ∃ p h s', p < (s.backend i).allocated ∧
      (s.backend i).At .free p ∧ Hiredis.Moved (s.backend i) h p ∧ h.At .busy p ∧ Hiredis.Fits (h.sconns p) .busy ∧
      (h.sconns p).replies = (if accepted then [⟨cmd, ⟨s.requests, conn⟩⟩] else []) ∧
      s.commandInLoop charSigned conn key cmd accepted = .ok (if accepted then .REDIS_OK else .REDIS_ERR, s') ∧
      s'.backend = Function.update s.backend i h ∧
      s'.clientConns = s.clientConns.insert (uniqueId (i, p)) conn ∧ s'.requests = s.requests + 1) := by
  subst hi
  unfold commandInLoop
  rcases Hiredis.command_spec (hI.inv (HiredisPool.getHiredis conf charSigned key)) ⟨s.requests, conn⟩ cmd accepted with
    ⟨hempty, hcall⟩ | ⟨hfree, p, h, hp, hat, hcall, m, hat', hfits, hreplies⟩
  · refine .inl ⟨hempty, ?_⟩
    simp only [hcall, ok_bind, hI.serverId]
    exact ⟨_, rfl, Function.update_eq_self _ _, rfl, rfl⟩
  · refine .inr ⟨hfree, p, h, ?_⟩
    simp only [hcall, ok_bind, hI.serverId]
    exact ⟨_, hp, hat, m, hat', hfits, hreplies, rfl, rfl, rfl, rfl⟩

/-- The reply an action at the desk sends. -/
def replyOf : Act (Conn conf) TcpConnectionPtr Request → Option (Request × TcpConnectionPtr)
  | .answer _ t (some conn) => some (t, conn)
  | _ => none

/-- An effect and an action are of the same requests and replies. -/
structure Matches (effect : Effect) (a : Act (Conn conf) TcpConnectionPtr Request) : Prop where
  issued : effect.issued = (grantOf a).toList
  replies : effect.replies = (replyOf a).toList

theorem desk_ext {d : Desk (Conn conf) TcpConnectionPtr Request} (hslot : s.desk.slot = d.slot)
    (hroute : s.desk.route = d.route) : s.desk = d := by
  cases hd : s.desk
  cases d
  simp_all

theorem slot_of_at {i : Fin conf.poolSize} {p : Nat} {w : Hiredis.Place} (hp : p < (s.backend i).allocated)
    (hat : (s.backend i).At w p) : s.desk.slot (i, p) = Hiredis.slotOf ((s.backend i).sconns p) w :=
  Hiredis.slot_at hp hat

theorem request_desk (hI : s.Inv) {conn : TcpConnectionPtr} {key cmd : Bytes} {accepted : Bool} {ret : Status}
    (hcall : s.commandInLoop charSigned conn key cmd accepted = .ok (ret, s')) :
    s'.Inv ∧ s'.requests = s.requests + 1 ∧
      ∃ a, Step Request.conn s.desk a s'.desk ∧ Matches (s.requested conn ret) a := by
  obtain ⟨i, hi⟩ : ∃ i, i = HiredisPool.getHiredis conf charSigned key := ⟨_, rfl⟩
  rcases commandInLoop_spec hI conn key cmd accepted hi with
    ⟨-, s'', hcall', hb, hclient, hrequests⟩ |
    ⟨-, p, h, s'', hp, hat, m, hat', hfits, hreplies, hcall', hb, hclient, hrequests⟩
  · cases hcall'.symm.trans hcall
    refine ⟨⟨hb ▸ hI.inv, hb ▸ hI.serverId⟩, hrequests, .skip, ?_, rfl, rfl⟩
    have hdesk : s'.desk = s.desk :=
      desk_ext (by simp only [desk, hb]) (route_insert_none s _ conn hclient)
    rw [hdesk]
    exact .skip
  · cases hcall'.symm.trans hcall
    have hI' : s'.Inv := hI.update ((hI.inv _).moved hp m hat' hfits) m.serverId hb
    refine ⟨hI', hrequests, ?_⟩
    have hidle := slot_of_at hp hat
    have hslot := slot_moved (hI.inv _) hp m hb
    have hroute := route_insert s (c := (i, p)) ((hI.inv i).lt hp) conn hclient
    rw [Hiredis.slot_at (m.allocated ▸ hp) hat', Hiredis.slotOf, hreplies] at hslot
    cases accepted
    · refine ⟨.waste (i, p) conn, ?_, rfl, rfl⟩
      rw [desk_ext (d := (s.desk.setSlot (i, p) .stuck).setRoute (i, p) conn) hslot hroute]
      exact .waste hidle
    · refine ⟨.grant (i, p) ⟨s.requests, conn⟩, ?_, rfl, rfl⟩
      rw [desk_ext (d := (s.desk.setSlot (i, p) (.held ⟨s.requests, conn⟩)).setRoute (i, p) conn) hslot hroute]
      exact .grant hidle

/-- One connection changed and no table: its slot at the desk is another. -/
theorem desk_moved {i : Fin conf.poolSize} {p : Nat} {h : Hiredis Request} (hI : s.Inv)
    (hp : p < (s.backend i).allocated) (m : Hiredis.Moved (s.backend i) h p)
    (hs : s' = { s with backend := Function.update s.backend i h }) : s'.desk = s.desk.setSlot (i, p) (h.slot p) := by
  have hb : s'.backend = Function.update s.backend i h := by rw [hs]
  have hroute : s'.desk.route = s.desk.route := by rw [hs]; rfl
  exact desk_ext (slot_moved (hI.inv i) hp m hb) hroute

/-- **An event at a Redis server**, seen at the desk. -/
theorem redis_desk (hI : s.Inv) {i : Fin conf.poolSize} {e : Hiredis.Event Request} {h : Hiredis Request}
    {upcalls : List (Upcall Request)} (he : s.Enabled (.redis i e)) (hx : (s.backend i).exec e = .ok (h, upcalls))
    (hs : s' = { s with backend := Function.update s.backend i h }) :
    s'.Inv ∧ ∃ a, Step Request.conn s.desk a s'.desk ∧
      Matches { issued := [], callbacks := upcalls.map fun upcall => (upcall, s.commandCallback upcall) } a := by
  obtain ⟨he, hne⟩ := he
  have hb : s'.backend = Function.update s.backend i h := by rw [hs]
  cases e with
  | command cb text accepted => exact absurd rfl (hne cb text accepted)
  | write p outcome =>
    obtain ⟨hp, hc, -⟩ := he
    obtain ⟨h', w, hcall, m, hat, hfits, -, hslot⟩ := Hiredis.handleWrite_spec (hI.inv i) hp hc outcome
    cases (Hiredis.exec_write hcall).symm.trans hx
    refine ⟨hI.update ((hI.inv i).moved hp m hat hfits) m.serverId hb, ?_⟩
    rw [desk_moved hI hp m hs]
    rcases hslot with hsame | ⟨hdown, hup⟩
    · refine ⟨.skip, ?_, rfl, rfl⟩
      rw [hsame, show (s.backend i).slot p = s.desk.slot (i, p) from rfl, setSlot_self]
      exact .skip
    · refine ⟨.raise (i, p), ?_, rfl, rfl⟩
      rw [hup]
      exact .raise hdown
  | reply p reply =>
    obtain ⟨hp, -, hreplies⟩ := he
    obtain ⟨h', c, hc, hat, hcall, m, hat', hfits⟩ := Hiredis.handleReply_spec (hI.inv i) hp hreplies reply
    cases hcall.symm.trans hx
    refine ⟨hI.update ((hI.inv i).moved hp m hat' hfits) m.serverId hb, ?_⟩
    have hheld := slot_of_at hp hat
    rw [Hiredis.slotOf, hc] at hheld
    refine ⟨.answer (i, p) c.cb (s.desk.route (i, p)), ?_, rfl, ?_⟩
    · rw [desk_moved hI hp m hs, Hiredis.slot_at (m.allocated ▸ hp) hat']
      exact .answer hheld
    · -- The callback looks where the desk's table does.
      have hlook : s.desk.route (i, p) = s.clientConns[genUniqueConId (s.backend i).serverId (Int32.ofNat p)]? := by
        rw [hI.serverId]
        exact if_pos ((hI.inv i).lt hp)
      simp only [Effect.replies, List.map_cons, List.map_nil, commandCallback, hlook]
      rcases s.clientConns[genUniqueConId (s.backend i).serverId (Int32.ofNat p)]? with _ | conn <;> rfl
  | disconnect p =>
    obtain ⟨hp, hlink⟩ := he
    by_cases hstuck : (s.backend i).At .busy p ∧ ((s.backend i).sconns p).replies = []
    · obtain ⟨h', hcall, m, hat, hfits, -⟩ := Hiredis.handleDisconnect_stuck (hI.inv i) hp hstuck.1 hstuck.2
      cases hcall.symm.trans hx
      refine ⟨hI.update ((hI.inv i).moved hp m hat hfits) m.serverId hb, .close (i, p), ?_, rfl, rfl⟩
      have hslot := slot_of_at hp hstuck.1
      rw [Hiredis.slotOf, hstuck.2] at hslot
      rw [desk_moved hI hp m hs, Hiredis.slot_at (m.allocated ▸ hp) hat]
      exact .close hslot
    · cases (Hiredis.handleDisconnect_fault (hI.inv i) hp hlink hstuck).symm.trans hx

/-- **Every event is one step at the desk.** -/
theorem exec_desk (hI : s.Inv) {e : Event conf} {effect : Effect} (he : s.Enabled e)
    (hx : s.exec charSigned e = .ok (s', effect)) :
    s'.Inv ∧ ∃ a, Step Request.conn s.desk a s'.desk ∧ Matches effect a := by
  cases e with
  | set conn msg accepted | query conn msg accepted =>
    obtain ⟨⟨ret, s''⟩, hcall, heq⟩ := bind_ok hx
    cases heq
    obtain ⟨hI', -, hstep⟩ := request_desk hI hcall
    exact ⟨hI', hstep⟩
  | redis i e =>
    obtain ⟨⟨h, upcalls⟩, hcall, heq⟩ := bind_ok hx
    cases heq
    exact redis_desk hI he hcall rfl

/-! ## Runs -/

theorem start_inv (h : (system conf charSigned).start s) : s.Inv ∧ ∀ c, s.desk.slot c = .down := by
  obtain ⟨-, -, hconn⟩ := h
  unfold HiredisPool.Connected at hconn
  split at hconn
  · have hopen : ∀ i : Fin conf.poolSize, Hiredis.Opened (Int32.ofNat i) (conf.perServerConn i) (s.backend i) := fun i => by
      obtain ⟨h', hcall, ho⟩ := Hiredis.connect_spec (κ := Request) (Int32.ofNat i) (conf.perServerConn i)
      cases hcall.symm.trans (hconn i)
      exact ho
    exact ⟨⟨fun i => (hopen i).inv, fun i => (hopen i).serverId⟩,
      fun c => Hiredis.slot_down (hopen c.1).free (hopen c.1).busy c.2⟩
  · refine ⟨⟨fun i => ?_, fun i => ?_⟩, fun c => ?_⟩
    · rw [hconn]; exact Hiredis.inv_create _ _
    · rw [hconn]; rfl
    · show (s.backend c.1).slot c.2 = .down
      rw [hconn]; exact Hiredis.slot_down rfl rfl c.2

theorem inv_invariant (conf : Configure) (charSigned : Bool) : (system conf charSigned).Invariant Inv where
  start _ h := (start_inv h).1
  step _ _ _ hI hstep := (exec_desk hI hstep.1 hstep.2).1

/-- **The server implements the desk.** -/
theorem simulates_desk (conf : Configure) (charSigned : Bool) :
    System.Simulates (system conf charSigned) (Lease.desk (Conn conf) Request.conn)
      (fun s d => s.Inv ∧ d = s.desk) (fun label a => Matches label.2 a) := by
  intro s d label s' hrel hstep
  obtain ⟨hI, rfl⟩ := hrel
  obtain ⟨he, hx⟩ := hstep
  obtain ⟨hI', a, hdesk, hmatch⟩ := exec_desk hI he hx
  exact ⟨a, s'.desk, hdesk, hmatch, hI', rfl⟩

/-- The client a request came from. -/
def Event.client : Event conf → Option TcpConnectionPtr
  | .set conn _ _ => some conn
  | .query conn _ _ => some conn
  | .redis _ _ => none

theorem exec_issued (hI : s.Inv) {e : Event conf} {effect : Effect} (hx : s.exec charSigned e = .ok (s', effect)) :
    s.requests ≤ s'.requests ∧ (effect.issued = [] ∨
      ∃ conn, effect.issued = [⟨s.requests, conn⟩] ∧ s'.requests = s.requests + 1 ∧ e.client = some conn) := by
  cases e with
  | set conn msg accepted | query conn msg accepted =>
    obtain ⟨⟨ret, s''⟩, hcall, heq⟩ := bind_ok hx
    cases heq
    obtain ⟨-, hrequests, -⟩ := request_desk hI hcall
    refine ⟨by omega, ?_⟩
    unfold requested
    split
    · exact .inr ⟨conn, rfl, hrequests, rfl⟩
    · exact .inl rfl
  | redis i e =>
    obtain ⟨⟨h, upcalls⟩, -, heq⟩ := bind_ok hx
    cases heq
    exact ⟨Nat.le_refl _, .inl rfl⟩

/-- The requests issued in a run, and the replies sent. -/
def issued (labels : List (Event conf × Effect)) : List Request := labels.flatMap fun l => l.2.issued

def replies (labels : List (Event conf × Effect)) : List (Request × TcpConnectionPtr) :=
  labels.flatMap fun l => l.2.replies

/-- What is known of the requests issued in a run that ends in `s`. -/
structure Numbered (labels : List (Event conf × Effect)) (s : ProxyServer conf) : Prop where
  inv : s.Inv
  lt : ∀ q ∈ issued labels, q.id < s.requests
  nodup : (issued labels).Nodup
  client : ∀ l ∈ labels, ∀ q ∈ l.2.issued, l.1.client = some q.conn

theorem Numbered.of_run {s₀ : ProxyServer conf} {labels : List (Event conf × Effect)} (hI : s₀.Inv)
    (hr : (system conf charSigned).Run s₀ labels s) : Numbered labels s := by
  induction hr with
  | nil => exact ⟨hI, nofun, List.nodup_nil, nofun⟩
  | @snoc labels s l s' hr hstep ih =>
    obtain ⟨e, effect⟩ := l
    obtain ⟨hle, hissued⟩ := exec_issued ih.inv hstep.2
    have hsplit : issued (labels ++ [(e, effect)]) = issued labels ++ effect.issued := by
      simp [issued]
    refine ⟨(exec_desk ih.inv hstep.1 hstep.2).1, ?_, ?_, ?_⟩
    · intro q hq
      rw [hsplit] at hq
      rcases List.mem_append.mp hq with hq | hq
      · exact lt_of_lt_of_le (ih.lt q hq) hle
      · rcases hissued with hnone | ⟨conn, hone, hnext, -⟩
        · rw [hnone] at hq; cases hq
        · rw [hone, List.mem_singleton] at hq
          rw [hq, hnext]; exact Nat.lt_succ_self _
    · rw [hsplit]
      rcases hissued with hnone | ⟨conn, hone, -, -⟩
      · rw [hnone, List.append_nil]; exact ih.nodup
      · rw [hone]
        refine ih.nodup.append (List.nodup_singleton _) ?_
        intro q hq hq'
        rw [List.mem_singleton] at hq'
        have := ih.lt q hq
        rw [hq'] at this
        exact lt_irrefl _ this
    · intro l hl q hq
      rcases List.mem_append.mp hl with hl | hl
      · exact ih.client l hl q hq
      · rw [List.mem_singleton] at hl
        subst hl
        rcases hissued with hnone | ⟨conn, hone, -, hclient⟩
        · rw [hnone] at hq; cases hq
        · rw [hone, List.mem_singleton] at hq
          rw [hq, hclient]

theorem issued_eq {labels : List (Event conf × Effect)} {acts : List (Act (Conn conf) TcpConnectionPtr Request)}
    (h : List.Forall₂ (fun l a => Matches l.2 a) labels acts) : issued labels = acts.filterMap grantOf := by
  induction h with
  | nil => rfl
  | @cons l a labels acts hm _ ih =>
    rw [issued, List.flatMap_cons, ← issued, ih, hm.issued, List.filterMap_cons]
    cases grantOf a <;> rfl

theorem replies_eq {labels : List (Event conf × Effect)} {acts : List (Act (Conn conf) TcpConnectionPtr Request)}
    (h : List.Forall₂ (fun l a => Matches l.2 a) labels acts) : replies labels = acts.filterMap replyOf := by
  induction h with
  | nil => rfl
  | @cons l a labels acts hm _ ih =>
    rw [replies, List.flatMap_cons, ← replies, ih, hm.replies, List.filterMap_cons]
    cases replyOf a <;> rfl

theorem replyOf_answer {a : Act (Conn conf) TcpConnectionPtr Request} {r : Request × TcpConnectionPtr}
    (h : replyOf a = some r) : ∃ c, a = .answer c r.1 (some r.2) := by
  rcases a with _ | _ | _ | _ | ⟨c, t, _ | conn⟩ | _ <;> cases h
  exact ⟨c, rfl⟩

theorem replies_sublist (acts : List (Act (Conn conf) TcpConnectionPtr Request)) :
    List.Sublist ((acts.filterMap replyOf).map Prod.fst) (acts.filterMap answerOf) := by
  induction acts with
  | nil => exact List.Sublist.slnil
  | cons a acts ih =>
    rcases ha : replyOf a with _ | r
    · rw [List.filterMap_cons_none ha, List.filterMap_cons]
      cases answerOf a with
      | none => exact ih
      | some t => exact ih.cons t
    · obtain ⟨c, rfl⟩ := replyOf_answer ha
      rw [List.filterMap_cons_some ha]
      exact ih.cons_cons r.1

/-- **Replies are routed.** In every run each reply goes to the client whose
request issued the command it answers, and an issued command is answered once
at most. -/
theorem replies_routed {s₀ : ProxyServer conf} {labels : List (Event conf × Effect)}
    (h₀ : (system conf charSigned).start s₀) (hr : (system conf charSigned).Run s₀ labels s) :
    (∀ r ∈ replies labels, r.2 = r.1.conn) ∧
    (∀ l ∈ labels, ∀ q ∈ l.2.issued, l.1.client = some q.conn) ∧ (issued labels).Nodup ∧
    (∀ r ∈ replies labels, r.1 ∈ issued labels) ∧ ((replies labels).map Prod.fst).Nodup := by
  obtain ⟨hI, hdown⟩ := start_inv h₀
  have hnum := Numbered.of_run hI hr
  obtain ⟨acts, d, hrun, hmatch, -⟩ := (simulates_desk conf charSigned).run ⟨hI, rfl⟩ hr
  have hgrants := issued_eq hmatch
  have hreplies := replies_eq hmatch
  have hrouted : Routed Request.conn s₀.desk := fun c t hheld => by rw [hdown c] at hheld; cases hheld
  have honce := answers_nodup hrun hdown (hgrants ▸ hnum.nodup)
  refine ⟨fun r hmem => ?_, hnum.client, hnum.nodup, fun r hmem => ?_, ?_⟩
  · rw [hreplies] at hmem
    obtain ⟨a, ha, hreply⟩ := List.mem_filterMap.mp hmem
    obtain ⟨c, rfl⟩ := replyOf_answer hreply
    exact Option.some_inj.mp (answers_routed hrun hrouted ha)
  · rw [hreplies] at hmem
    rw [hgrants]
    exact honce.answered _ ((replies_sublist acts).subset (List.mem_map_of_mem hmem))
  · rw [hreplies]
    exact honce.nodup.sublist (replies_sublist acts)

/-- One Redis server with one connection. -/
def oneServer : Configure where
  poolSize := 1
  serverAddrs_ne := Nat.zero_lt_one
  poolSize_lt := by decide
  perServerConn _ := 1
  preConnect := true

/-- The server at its start. -/
def opened : ProxyServer oneServer where
  clientConns := ∅
  backend i := (Hiredis.create (Int32.ofNat i) 1).afterConnectOne
  requests := 0

theorem opened_start (charSigned : Bool) : (system oneServer charSigned).start opened :=
  ⟨rfl, rfl, fun i => Hiredis.connect_one Request (Int32.ofNat i)⟩

/-- Its only Redis server. -/
def server : Fin oneServer.poolSize := ⟨0, Nat.zero_lt_one⟩

theorem opened_up_enabled : opened.Enabled (.redis server (.write 0 (some .REDIS_OK))) :=
  ⟨⟨Nat.zero_lt_one, rfl, nofun⟩, nofun⟩

/-- A client asks and is answered: the three steps, and what they leave. -/
structure Answered (s₁ s₂ s₃ : ProxyServer oneServer) (f₁ f₂ f₃ : Effect) : Prop where
  up : (system oneServer true).step opened (.redis server (.write 0 (some .REDIS_OK)), f₁) s₁
  query : (system oneServer true).step s₁ (.query 7 { key := ofText "k" } true, f₂) s₂
  reply : (system oneServer true).step s₂ (.redis server (.reply 0 (some .nil)), f₃) s₃
  replies : f₁.replies ++ (f₂.replies ++ f₃.replies) = [(⟨0, 7⟩, 7)]
  idle : (s₁.backend server).activeBusyConn[Int32.ofNat 0]? = none
  allocated : 0 < (s₂.backend server).allocated
  outstanding : ((s₂.backend server).sconns 0).replies = [⟨ofText "get k", ⟨0, 7⟩⟩]
  busy : (s₂.backend server).activeFreeConns[Int32.ofNat 0]? = none
  only : (s₃.backend server).allocated = 1
  done : ((s₃.backend server).sconns 0).replies = []
  entry : s₃.clientConns[uniqueId (server, 0)]? = some 7

theorem exists_answered : ∃ (s₁ s₂ s₃ : ProxyServer oneServer) (f₁ f₂ f₃ : Effect), Answered s₁ s₂ s₃ f₁ f₂ f₃ := by
  obtain ⟨s₁, f₁, hup, hidle, s₂, f₂, hquery, halloc, hlink, hout, hbusy, s₃, f₃, hreply, hreplies, honly, hdone, hentry⟩ :
      ∃ s₁ f₁, opened.exec true (.redis server (.write 0 (some .REDIS_OK))) = .ok (s₁, f₁) ∧
        (s₁.backend server).activeBusyConn[Int32.ofNat 0]? = none ∧
      ∃ s₂ f₂, s₁.exec true (.query 7 { key := ofText "k" } true) = .ok (s₂, f₂) ∧
        0 < (s₂.backend server).allocated ∧ ((s₂.backend server).sconns 0).link = .connected ∧
        ((s₂.backend server).sconns 0).replies = [⟨ofText "get k", ⟨0, 7⟩⟩] ∧
        (s₂.backend server).activeFreeConns[Int32.ofNat 0]? = none ∧
      ∃ s₃ f₃, s₂.exec true (.redis server (.reply 0 (some .nil))) = .ok (s₃, f₃) ∧
        f₁.replies ++ (f₂.replies ++ f₃.replies) = [(⟨0, 7⟩, 7)] ∧
        (s₃.backend server).allocated = 1 ∧ ((s₃.backend server).sconns 0).replies = [] ∧
        s₃.clientConns[uniqueId (server, 0)]? = some 7 :=
    ⟨_, _, rfl, rfl, _, _, rfl, Nat.zero_lt_one, rfl, rfl, rfl, _, _, rfl, rfl, rfl, rfl, rfl⟩
  have howed : ((s₂.backend server).sconns 0).replies ≠ [] := by simp [hout]
  exact ⟨s₁, s₂, s₃, f₁, f₂, f₃, ⟨opened_up_enabled, hup⟩, ⟨trivial, hquery⟩, ⟨⟨⟨halloc, hlink, howed⟩, nofun⟩, hreply⟩,
    hreplies, hidle, halloc, hout, hbusy, honly, hdone, hentry⟩

/-- A client asks, and is answered. -/
theorem replies_routed_one : ∃ (labels : List (Event oneServer × Effect)) (s : ProxyServer oneServer),
    (system oneServer true).Run opened labels s ∧ replies labels = [(⟨0, 7⟩, 7)] ∧
    (∀ r ∈ replies labels, r.2 = r.1.conn) ∧
    (∀ l ∈ labels, ∀ q ∈ l.2.issued, l.1.client = some q.conn) ∧ (issued labels).Nodup ∧
    (∀ r ∈ replies labels, r.1 ∈ issued labels) ∧ ((replies labels).map Prod.fst).Nodup := by
  obtain ⟨s₁, s₂, s₃, f₁, f₂, f₃, h⟩ := exists_answered
  have hr := ((System.Run.single h.up).snoc h.query).snoc h.reply
  exact ⟨_, s₃, hr, by simpa [replies] using h.replies, replies_routed (opened_start true) hr⟩

end DictionaryServer.ProxyServer
