/-
In which order Redis executes the commands for one key.

All commands for a key go to one server, each on whichever of its connections
is free. A connection is a pipe of `Lib.Pipes`: Redis executes its commands in
the order they were written, and takes from different connections in any order.
So it executes two commands for a key in the order they were issued if they
were written to one connection, or if it executed the first before the second
was issued; otherwise it may not (`key_order`).
-/
import DictionaryServer.Lib.Pipes
import DictionaryServer.ProxyServer.Cutoff

namespace DictionaryServer

open Lib

namespace ProxyServer

variable {conf : Configure} {charSigned : Bool} {s s' : ProxyServer conf} {e : Event conf} {effect : Effect}

theorem exec_nconns (hI : s.Inv) (he : s.Enabled e) (hx : s.exec charSigned e = .ok (s', effect))
    (i : Fin conf.poolSize) : (s'.backend i).nconns = (s.backend i).nconns := by
  rcases exec_moved hI he hx with hb | ⟨j, p, h, -, m, hb⟩ <;> rw [hb]
  by_cases hij : i = j
  · rw [hij, Function.update_self, m.nconns]
  · rw [Function.update_of_ne hij]

/-- The numbers of connections are those configured. -/
structure Sized (s : ProxyServer conf) : Prop where
  inv : s.Inv
  nconns : ∀ i, (s.backend i).nconns = conf.perServerConn i

theorem sized_invariant (conf : Configure) (charSigned : Bool) : (system conf charSigned).Invariant Sized where
  start s h := by
    refine ⟨(start_inv h).1, ?_⟩
    intro i
    have hconn := h.2.2
    unfold HiredisPool.Connected at hconn
    split at hconn
    · obtain ⟨h', hcall, ho⟩ := Hiredis.connect_spec (κ := Request) (Int32.ofNat i) (conf.perServerConn i)
      cases hcall.symm.trans (hconn i)
      exact ho.nconns
    · rw [hconn]; rfl
  step s l s' h hstep := by
    refine ⟨(exec_desk h.inv hstep.1 hstep.2).1, ?_⟩
    intro i
    rw [exec_nconns h.inv hstep.1 hstep.2, h.nconns]

theorem Sized.only (h : s.Sized) {c : Conn conf} (hc : c.2 < (s.backend c.1).allocated)
    (hone : conf.perServerConn c.1 = 1) : c.2 = 0 := by
  have hle := (h.inv.inv c.1).allocated_le
  rw [h.nconns, hone] at hle
  exact Nat.lt_one_iff.mp (lt_of_lt_of_le hc hle)

/-- The command a connection accepted in a step, if one did. -/
def Wrote (s s' : ProxyServer conf) : Option (Conn conf × Request) → Prop
  | some (c, q) => c.2 < (s.backend c.1).allocated ∧ ∃ text, s'.outstanding c = s.outstanding c ++ [⟨text, q⟩]
  | none => ∀ c, c.2 < (s.backend c.1).allocated → (s'.outstanding c).length ≤ (s.outstanding c).length

theorem exists_wrote (hI : s.Inv) (he : s.Enabled e) (hx : s.exec charSigned e = .ok (s', effect)) :
    ∃ wrote, Wrote s s' wrote := by
  by_cases hnone : Wrote s s' none
  · exact ⟨none, hnone⟩
  · unfold Wrote at hnone
    push Not at hnone
    obtain ⟨c, hc, hlt⟩ := hnone
    have hI' := (exec_desk hI he hx).1
    have hc' : c.2 < (s'.backend c.1).allocated := by rwa [exec_allocated hI he hx]
    obtain ⟨command, hmem⟩ := List.exists_mem_of_length_pos (Nat.zero_lt_of_lt hlt)
    obtain ⟨-, text, hout⟩ := held_outstanding hI' (slot_outstanding hI' hc' hmem)
    have hempty : s.outstanding c = [] := by simpa [hout] using hlt
    exact ⟨some (c, command.cb), hc, text, by rw [hout, hempty]; rfl⟩

/-- The command written is the request issued, and its connection one of the
server its key selects. -/
theorem wrote_issued (hI : s.Inv) (he : s.Enabled e) (hx : s.exec charSigned e = .ok (s', effect)) {c : Conn conf}
    {q : Request} (hw : Wrote s s' (some (c, q))) :
    effect.issued = [q] ∧ ∀ r, e.asked = some r → c.1 = HiredisPool.getHiredis conf charSigned r.key := by
  obtain ⟨hc, text, hmore⟩ := hw
  obtain ⟨hI', a, hdesk, hmatch⟩ := exec_desk hI he hx
  have hc' : c.2 < (s'.backend c.1).allocated := by rwa [exec_allocated hI he hx]
  have hadded : (⟨text, q⟩ : Command Request) ∈ s'.outstanding c := by simp [hmore]
  have hheld := slot_outstanding hI' hc' hadded
  constructor
  · rcases hdesk.held hheld with rfl | hbefore
    · exact hmatch.issued
    · obtain ⟨-, _, hone⟩ := held_outstanding hI hbefore
      obtain ⟨-, _, hone'⟩ := held_outstanding hI' hheld
      rw [hmore, hone] at hone'
      cases hone'
  · intro r hr
    have hchanged : s'.outstanding c ≠ s.outstanding c := by simp [hmore]
    rw [exec_asked hr] at hx
    obtain ⟨⟨ret, s''⟩, hcall, heq⟩ := bind_ok hx
    cases heq
    obtain ⟨i, hi⟩ : ∃ i, i = HiredisPool.getHiredis conf charSigned r.key := ⟨_, rfl⟩
    rcases commandInLoop_spec hI r.conn r.key r.cmd r.accepted hi with
      ⟨-, s'', hcall', hb, -⟩ | ⟨-, p, h, s'', hp, -, m, -, -, -, hcall', hb, -⟩
    · cases hcall'.symm.trans hcall
      exact absurd (by rw [outstanding, hb, outstanding]) hchanged
    · cases hcall'.symm.trans hcall
      have hcp : c = (i, p) := by
        by_contra hne
        exact hchanged ((outstanding_update m hb).2 c hne)
      rw [hcp, hi]

theorem wrote_none (hI : s.Inv) (he : s.Enabled e) (hx : s.exec charSigned e = .ok (s', effect))
    (hquiet : effect.issued = []) : Wrote s s' none := by
  obtain ⟨wrote, hw⟩ := exists_wrote hI he hx
  rcases wrote with _ | ⟨c, q⟩
  · exact hw
  · cases hquiet.symm.trans (wrote_issued hI he hx hw).1

end ProxyServer

open ProxyServer (Conn)

/-- The proxy, and the commands of each connection that its server has not
executed. -/
structure Wire (conf : Configure) where
  proxy : ProxyServer conf
  sent : Conn conf → List Request

namespace Wire

inductive Label (conf : Configure)
  /-- An event at the proxy, with the command it wrote. -/
  | proxy (e : ProxyServer.Event conf) (effect : ProxyServer.Effect) (wrote : Option (Conn conf × Request))
  /-- A server executes the next command of a connection. -/
  | execute (c : Conn conf) (q : Request)

/-- What that is at the pipes. -/
def Label.act {conf : Configure} : Label conf → Pipes.Act (Conn conf) Request
  | .proxy _ _ (some (c, q)) => .put c q
  | .proxy _ _ none => .skip
  | .execute c q => .take c q

variable {conf : Configure} {charSigned : Bool} {w w' w₀ : Wire conf}

/-- A reply, unless it is NULL, is to a command that was executed. -/
def Answerable (w : Wire conf) (e : ProxyServer.Event conf) : Prop :=
  ∀ i p reply, e = .redis i (.reply p (some reply)) →
    ∀ command ∈ (w.proxy.outstanding (i, p)).head?, command.cb ∉ w.sent (i, p)

inductive Step (charSigned : Bool) (w : Wire conf) : Label conf → Wire conf → Prop
  | proxy {e effect wrote s' sent'} (hstep : (ProxyServer.system conf charSigned).step w.proxy (e, effect) s')
      (hanswer : w.Answerable e) (hwrote : ProxyServer.Wrote w.proxy s' wrote)
      (hsent : Pipes.Step w.sent (Label.proxy e effect wrote).act sent') :
      Step charSigned w (.proxy e effect wrote) { proxy := s', sent := sent' }
  | execute {c q sent'} (hsent : Pipes.Step w.sent (.take c q) sent') :
      Step charSigned w (.execute c q) { w with sent := sent' }

def system (conf : Configure) (charSigned : Bool) : System (Wire conf) (Label conf) where
  start w := (ProxyServer.system conf charSigned).start w.proxy ∧ ∀ c, w.sent c = []
  step := Step charSigned

/-- Every event of the proxy is a step here, if its reply can have come. -/
theorem exists_step (hI : w.proxy.Inv) {e : ProxyServer.Event conf} {effect : ProxyServer.Effect} {s' : ProxyServer conf}
    (hstep : (ProxyServer.system conf charSigned).step w.proxy (e, effect) s') (hanswer : w.Answerable e) :
    ∃ wrote w', (system conf charSigned).step w (.proxy e effect wrote) w' ∧ w'.proxy = s' := by
  obtain ⟨wrote, hwrote⟩ := ProxyServer.exists_wrote hI hstep.1 hstep.2
  rcases wrote with _ | ⟨c, q⟩
  · exact ⟨none, _, .proxy hstep hanswer hwrote .skip, rfl⟩
  · exact ⟨some (c, q), _, .proxy hstep hanswer hwrote .put, rfl⟩

/-- The steps of the proxy among the labels. -/
def Label.event : Label conf → Option (ProxyServer.Event conf × ProxyServer.Effect)
  | .proxy e effect _ => some (e, effect)
  | .execute _ _ => none

theorem run_proxy {labels : List (Label conf)} (hr : (system conf charSigned).Run w labels w') :
    (ProxyServer.system conf charSigned).Run w.proxy (labels.filterMap Label.event) w'.proxy := by
  induction hr with
  | nil => exact .nil
  | snoc _ hs ih =>
    rw [List.filterMap_append]
    cases hs with
    | proxy hstep => exact ih.snoc hstep
    | execute =>
      rw [show List.filterMap Label.event [Label.execute _ _] = [] from rfl, List.append_nil]
      exact ih

/-- **The connections are pipes.** -/
theorem run_pipes {labels : List (Label conf)} (hr : (system conf charSigned).Run w labels w') :
    (Pipes.pipes (Conn conf) Request).Run w.sent (labels.map Label.act) w'.sent := by
  induction hr with
  | nil => exact .nil
  | snoc _ hs ih =>
    rw [List.map_append]
    cases hs with
    | proxy _ _ _ hsent => exact ih.snoc hsent
    | execute hsent => exact ih.snoc hsent

theorem puts_sublist (hI : w.proxy.Inv) {labels : List (Label conf)} (hr : (system conf charSigned).Run w labels w')
    (c : Conn conf) :
    List.Sublist (Pipes.puts c (labels.map Label.act)) (ProxyServer.issued (labels.filterMap Label.event)) := by
  induction hr with
  | nil => exact .slnil
  | @snoc labels w₁ l w₂ hr hs ih =>
    simp only [List.map_append, Pipes.puts_append, List.filterMap_append, ProxyServer.issued, List.flatMap_append] at ih ⊢
    refine ih.append ?_
    cases hs with
    | execute => exact .slnil
    | @proxy e effect wrote s' sent' hstep hanswer hwrote =>
      rcases wrote with _ | ⟨c', q⟩
      · exact List.nil_sublist _
      · have hI₁ := (run_proxy hr).keeps (ProxyServer.inv_invariant conf charSigned).step hI
        have hissued : effect.issued = [q] := (ProxyServer.wrote_issued hI₁ hstep.1 hstep.2 hwrote).1
        simpa [Label.event, Label.act, hissued] using Pipes.puts_one c c' q

theorem puts_nodup {labels : List (Label conf)} (h₀ : (system conf charSigned).start w₀)
    (hr : (system conf charSigned).Run w₀ labels w) (c : Conn conf) : (Pipes.puts c (labels.map Label.act)).Nodup := by
  have hI := (ProxyServer.start_inv h₀.1).1
  exact (ProxyServer.Numbered.of_run hI (run_proxy hr)).nodup.sublist (puts_sublist hI hr c)

/-- What the servers can do with what was sent. -/
theorem executes {c : Conn conf} {qs : List Request} {sent' : Conn conf → List Request}
    (hr : (Pipes.pipes (Conn conf) Request).Run w.sent (qs.map (.take c)) sent') :
    (system conf charSigned).Run w (qs.map (.execute c)) { w with sent := sent' } := by
  induction qs using List.reverseRecOn generalizing sent' with
  | nil =>
    rw [hr.eq_of_nil]
    exact .nil
  | append_singleton qs q ih =>
    rw [List.map_append] at hr ⊢
    obtain ⟨sent₁, hr₁, hs⟩ := hr.last
    exact (ih hr₁).snoc (.execute hs)

/-- The connection a command for a key is written to. -/
theorem written_to (h₀ : (system conf charSigned).start w₀) {labels : List (Label conf)}
    {e : ProxyServer.Event conf} {effect : ProxyServer.Effect} {c : Conn conf} {q : Request} {r : ProxyServer.Asked}
    (hr : (system conf charSigned).Run w₀ (labels ++ [.proxy e effect (some (c, q))]) w) (hr' : e.asked = some r) :
    c.1 = HiredisPool.getHiredis conf charSigned r.key ∧ (conf.perServerConn c.1 = 1 → c.2 = 0) ∧ q ∈ w.sent c := by
  obtain ⟨w₁, hr₁, hs⟩ := hr.last
  have hsized := (ProxyServer.sized_invariant conf charSigned).reachable ⟨_, _, h₀.1, run_proxy hr₁⟩
  cases hs with
  | proxy hstep hanswer hwrote hsent =>
    refine ⟨(ProxyServer.wrote_issued hsized.inv hstep.1 hstep.2 hwrote).2 r hr', hsized.only hwrote.1, ?_⟩
    cases hsent with
    | put => simp

theorem act_execute {c : Conn conf} {q : Request} (l : Label conf) (h : l.act = (Label.execute c q).act) :
    l = .execute c q := by
  rcases l with ⟨e, effect, _ | ⟨c', q'⟩⟩ | ⟨c', q'⟩ <;> cases h
  rfl

theorem mem_execute {c : Conn conf} {q : Request} {labels : List (Label conf)} :
    Pipes.Act.take c q ∈ labels.map Label.act ↔ .execute c q ∈ labels := by
  rw [List.mem_map]
  constructor
  · intro h
    obtain ⟨l, hl, hact⟩ := h
    rw [← act_execute l hact]
    exact hl
  · exact fun h => ⟨_, h, rfl⟩

theorem not_executed (h₀ : (system conf charSigned).start w₀) {labels : List (Label conf)}
    {e : ProxyServer.Event conf} {effect : ProxyServer.Effect} {c : Conn conf} {q : Request}
    (hr : (system conf charSigned).Run w₀ (labels ++ [.proxy e effect (some (c, q))]) w) :
    .execute c q ∉ labels ++ [.proxy e effect (some (c, q))] := by
  obtain ⟨w₁, hr₁, -⟩ := hr.last
  have hnodup := puts_nodup h₀ hr c
  have hfresh : q ∉ Pipes.puts c (labels.map Label.act) := by
    simp only [List.map_append, List.map_cons, List.map_nil, Label.act, Pipes.puts_append, Pipes.puts_put] at hnodup
    exact fun hmem => (List.nodup_append.mp hnodup).2.2 q hmem q (by simp) rfl
  have hnot := Pipes.not_taken (h₀.2 c) (run_pipes hr₁) hfresh
  simp only [List.mem_append, List.mem_singleton, not_or]
  exact ⟨fun hmem => hnot (mem_execute.mpr hmem), by simp⟩

/-- **The commands for a key** are written to one server, with one connection
for it to that connection. After the second is written the servers execute them
in order, whatever they do, exactly when they were written to one connection or
the first is executed already. -/
theorem key_order {e₁ e₂ : ProxyServer.Event conf} {f₁ f₂ : ProxyServer.Effect} {c₁ c₂ : Conn conf} {q₁ q₂ : Request}
    {r₁ r₂ : ProxyServer.Asked} {l₁ l₂ : List (Label conf)} (h₀ : (system conf charSigned).start w₀)
    (hr : (system conf charSigned).Run w₀
      (l₁ ++ .proxy e₁ f₁ (some (c₁, q₁)) :: l₂ ++ [.proxy e₂ f₂ (some (c₂, q₂))]) w)
    (hr₁ : e₁.asked = some r₁) (hr₂ : e₂.asked = some r₂) (hkey : r₁.key = r₂.key) :
    c₁.1 = c₂.1 ∧ (conf.perServerConn c₁.1 = 1 → c₁ = c₂) ∧
    ((∀ l w', (system conf charSigned).Run w l w' → Before (.execute c₁ q₁) (.execute c₂ q₂)
        (l₁ ++ .proxy e₁ f₁ (some (c₁, q₁)) :: l₂ ++ [.proxy e₂ f₂ (some (c₂, q₂))] ++ l)) ↔
      c₁ = c₂ ∨ .execute c₁ q₁ ∈ l₂) := by
  obtain ⟨w₁, hfirst, hrest⟩ : ∃ w₁, (system conf charSigned).Run w₀ (l₁ ++ [.proxy e₁ f₁ (some (c₁, q₁))]) w₁ ∧
      (system conf charSigned).Run w₁ (l₂ ++ [.proxy e₂ f₂ (some (c₂, q₂))]) w :=
    System.Run.of_append (by simpa using hr)
  obtain ⟨hserver₁, hzero₁, -⟩ := written_to h₀ hfirst hr₁
  obtain ⟨hserver₂, hzero₂, hsent⟩ := written_to h₀ hr hr₂
  have hserver : c₁.1 = c₂.1 := by rw [hserver₁, hserver₂, hkey]
  have hnot₁ := not_executed h₀ hfirst
  have hnot₂ := not_executed h₀ hr
  refine ⟨hserver, fun hone => Prod.ext hserver ((hzero₁ hone).trans (hzero₂ (hserver ▸ hone)).symm), ?_, ?_⟩
  · intro hordered
    by_contra hneither
    obtain ⟨hne, hnot⟩ := not_or.mp hneither
    obtain ⟨sent', hdrain⟩ := Pipes.drain w.sent c₂
    have hbefore := (hordered _ _ (executes hdrain)).map (f := Label.act) fun l hl => act_execute l hl
    rw [List.map_append, List.map_map] at hbefore
    refine Pipes.overtaken hne ?_ hsent hbefore
    rw [mem_execute]
    simp only [List.mem_append, List.mem_cons, List.not_mem_nil, reduceCtorEq, or_false, false_or, not_or] at hnot₁ ⊢
    exact ⟨hnot₁, hnot⟩
  · intro hor l w' hr'
    rcases hor with rfl | hmem
    · have hall := hr.trans hr'
      refine .of_map (f := Label.act) (fun l hl => act_execute l hl) ?_
      have hnodup := puts_nodup h₀ hall c₁
      have hpipes := run_pipes hall
      have hsplit : (l₁ ++ Label.proxy e₁ f₁ (some (c₁, q₁)) :: l₂ ++ [Label.proxy e₂ f₂ (some (c₁, q₂))] ++ l).map Label.act =
          l₁.map Label.act ++ .put c₁ q₁ :: l₂.map Label.act ++ .put c₁ q₂ :: l.map Label.act := by
        simp [Label.act]
      rw [hsplit] at hnodup hpipes ⊢
      exact Pipes.before_of_same (h₀.2 c₁) hpipes hnodup
    · exact .of_mem (by simp [hmem]) hnot₂

open Threads (twoConns openedTwo openedTwo_start onlyServer)

/-- Two clients set one key, each on a connection of its own. -/
theorem two_sets : ∃ (l₁ : List (Label twoConns)) (f₁ f₂ : ProxyServer.Effect) (w : Wire twoConns),
    (system twoConns true).Run ⟨openedTwo, fun _ => []⟩
      (l₁ ++ .proxy (.set 7 { key := ofText "k", value := ofText "1" } true) f₁ (some ((onlyServer, 0), ⟨0, 7⟩)) :: [] ++
        [.proxy (.set 8 { key := ofText "k", value := ofText "2" } true) f₂ (some ((onlyServer, 1), ⟨1, 8⟩))]) w ∧
      (∀ l ∈ l₁, ∀ c q, l ≠ .execute c q) ∧ w.sent (onlyServer, 1) = [⟨1, 8⟩] := by
  obtain ⟨p₁, f₁, hup₁, hq₁, halloc₁, hchannel₁, hlink₁, p₂, f₂, hup₂, hq₂, halloc₂, p₃, f₃, hset₁, hw₁, halloc₃,
      p₄, f₄, hset₂, hw₂⟩ :
      ∃ p₁ f₁, openedTwo.exec true (.redis onlyServer (.write 0 (some .REDIS_OK))) = .ok (p₁, f₁) ∧ f₁.issued = [] ∧
        1 < (p₁.backend onlyServer).allocated ∧ ((p₁.backend onlyServer).sconns 1).channel = true ∧
        ((p₁.backend onlyServer).sconns 1).link = .connecting ∧
      ∃ p₂ f₂, p₁.exec true (.redis onlyServer (.write 1 (some .REDIS_OK))) = .ok (p₂, f₂) ∧ f₂.issued = [] ∧
        0 < (p₂.backend onlyServer).allocated ∧
      ∃ p₃ f₃, p₂.exec true (.set 7 { key := ofText "k", value := ofText "1" } true) = .ok (p₃, f₃) ∧
        p₃.outstanding (onlyServer, 0) = p₂.outstanding (onlyServer, 0) ++ [⟨ofText "set k 1", ⟨0, 7⟩⟩] ∧
        1 < (p₃.backend onlyServer).allocated ∧
      ∃ p₄ f₄, p₃.exec true (.set 8 { key := ofText "k", value := ofText "2" } true) = .ok (p₄, f₄) ∧
        p₄.outstanding (onlyServer, 1) = p₃.outstanding (onlyServer, 1) ++ [⟨ofText "set k 2", ⟨1, 8⟩⟩] :=
    ⟨_, _, rfl, rfl, Nat.one_lt_two, rfl, rfl, _, _, rfl, rfl, Nat.zero_lt_two, _, _, rfl, rfl, Nat.one_lt_two, _, _, rfl,
      rfl⟩
  have he₁ : openedTwo.Enabled (.redis onlyServer (.write 0 (some .REDIS_OK))) := ⟨⟨Nat.zero_lt_two, rfl, nofun⟩, nofun⟩
  have he₂ : p₁.Enabled (.redis onlyServer (.write 1 (some .REDIS_OK))) :=
    ⟨⟨halloc₁, hchannel₁, by rw [hlink₁]; exact nofun⟩, nofun⟩
  have hI₀ : openedTwo.Inv := (ProxyServer.start_inv openedTwo_start.1).1
  have hI₁ := (ProxyServer.exec_desk hI₀ he₁ hup₁).1
  have he₃ : p₂.Enabled (.set 7 { key := ofText "k", value := ofText "1" } true) := trivial
  have he₄ : p₃.Enabled (.set 8 { key := ofText "k", value := ofText "2" } true) := trivial
  have hwrote₁ : ProxyServer.Wrote p₂ p₃ (some ((onlyServer, 0), ⟨0, 7⟩)) := ⟨halloc₂, _, hw₁⟩
  have hwrote₂ : ProxyServer.Wrote p₃ p₄ (some ((onlyServer, 1), ⟨1, 8⟩)) := ⟨halloc₃, _, hw₂⟩
  have hr := ((((System.Run.single (S := system twoConns true)
    (.proxy (w := ⟨openedTwo, fun _ => []⟩) ⟨he₁, hup₁⟩ nofun (ProxyServer.wrote_none hI₀ he₁ hup₁ hq₁) .skip)).snoc
    (.proxy ⟨he₂, hup₂⟩ nofun (ProxyServer.wrote_none hI₁ he₂ hup₂ hq₂) .skip)).snoc
    (.proxy ⟨he₃, hset₁⟩ nofun hwrote₁ .put)).snoc
    (.proxy ⟨he₄, hset₂⟩ nofun hwrote₂ .put))
  refine ⟨[_, _], f₃, f₄, _, hr, ?_, rfl⟩
  simp

/-- The second is executed before the first. -/
theorem key_order_fails : ∃ (w₀ w : Wire twoConns) (e₁ e₂ : ProxyServer.Event twoConns) (f₁ f₂ : ProxyServer.Effect)
    (c₁ c₂ : Conn twoConns) (q₁ q₂ : Request) (r₁ r₂ : ProxyServer.Asked) (l₁ l₂ l₃ : List (Label twoConns)),
    (system twoConns true).start w₀ ∧ (system twoConns true).Run w₀
      (l₁ ++ .proxy e₁ f₁ (some (c₁, q₁)) :: l₂ ++ [.proxy e₂ f₂ (some (c₂, q₂))] ++ l₃) w ∧
    e₁.asked = some r₁ ∧ e₂.asked = some r₂ ∧ r₁.key = r₂.key ∧ .execute c₂ q₂ ∈ l₃ ∧
    ¬Before (.execute c₁ q₁) (.execute c₂ q₂)
      (l₁ ++ .proxy e₁ f₁ (some (c₁, q₁)) :: l₂ ++ [.proxy e₂ f₂ (some (c₂, q₂))] ++ l₃) := by
  obtain ⟨l₁, f₁, f₂, w, hr, hnone, hsent⟩ := two_sets
  refine ⟨_, _, _, _, f₁, f₂, _, _, _, _, _, _, l₁, [], [.execute (onlyServer, 1) ⟨1, 8⟩],
    ⟨openedTwo_start.1, fun _ => rfl⟩, hr.snoc (.execute (.take hsent)), rfl, rfl, rfl, by simp, ?_⟩
  intro hbefore
  have hmem := hbefore _ [] rfl
  simp only [List.mem_append, List.mem_cons, List.not_mem_nil, reduceCtorEq, or_false] at hmem
  exact hnone _ hmem _ _ rfl

/-- The order of these two is not settled when they are written. -/
theorem key_order_two : ∃ (l₁ : List (Label twoConns)) (f₁ f₂ : ProxyServer.Effect) (w : Wire twoConns),
    (∀ l w', (system twoConns true).Run w l w' →
      Before (.execute (onlyServer, 0) ⟨0, 7⟩) (.execute (onlyServer, 1) ⟨1, 8⟩)
        (l₁ ++ .proxy (.set 7 { key := ofText "k", value := ofText "1" } true) f₁ (some ((onlyServer, 0), ⟨0, 7⟩)) :: [] ++
          [.proxy (.set 8 { key := ofText "k", value := ofText "2" } true) f₂ (some ((onlyServer, 1), ⟨1, 8⟩))] ++ l)) ↔
      ((onlyServer, 0) : Conn twoConns) = (onlyServer, 1) ∨ .execute (onlyServer, 0) ⟨0, 7⟩ ∈ ([] : List (Label twoConns)) := by
  obtain ⟨l₁, f₁, f₂, w, hr, -⟩ := two_sets
  exact ⟨l₁, f₁, f₂, w, (key_order ⟨openedTwo_start.1, fun _ => rfl⟩ hr rfl rfl rfl).2.2⟩

end Wire
end DictionaryServer
