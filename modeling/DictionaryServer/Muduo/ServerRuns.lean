/-
The runs of a server.

Whatever the order of its loops, nothing that a loop or a poller holds is a
connection that has gone, no assertion fails, every connection calls the program
back in its own loop, up first, down last and once each, and what has closed is
forgotten as soon as the functors have run.
-/
import DictionaryServer.Muduo.ServerSteps

namespace DictionaryServer.Muduo.TcpServer

open Lib Registry EPollPoller

variable {o : ServerOptions} {s s' : TcpServer} {c c' : ConnId} {l : LoopId} {t : ServerConnection}
  {phase phase' : ConnId → Phase} {ph ph' : Phase}

/-- From this number on names repeat, or the number is no `int`. -/
def connLimit (o : ServerOptions) : Nat := min (10 ^ (29 - o.hostport.length)) 2147483647

/-! ## A new connection -/

/-- The loops take turns. -/
theorem getNextLoop_eq {n next : Nat} (hfirst : 1 ≤ n) (hnext : next = if o.numThreads = 0 then 0 else (n - 1) % o.numThreads) :
    getNextLoop o.numThreads next = (loopOf o n, if o.numThreads = 0 then 0 else n % o.numThreads) := by
  by_cases hzero : o.numThreads = 0
  · rw [hnext]
    simp [getNextLoop, loopOf, hzero]
  · have hpos : 0 < o.numThreads := Nat.pos_of_ne_zero hzero
    have hlt := Nat.mod_lt (n - 1) hpos
    have hmod : n % o.numThreads = ((n - 1) % o.numThreads + 1) % o.numThreads := by
      rw [Nat.mod_add_mod, Nat.sub_add_cancel hfirst]
    rw [hnext]
    simp only [getNextLoop, loopOf, if_neg hzero, hmod, Prod.mk.injEq, true_and]
    split
    · have heq : (n - 1) % o.numThreads + 1 = o.numThreads := by omega
      rw [heq, Nat.mod_self]
    · exact (Nat.mod_eq_of_lt (by omega)).symm

namespace Inv

theorem fresh_name (h : Inv o s phase) (hlimit : s.nextConnId < connLimit o) (hc : c ≠ s.nextConnId)
    (hname : connName o c = connName o s.nextConnId) : s.connections (connName o c) ≠ some c := by
  intro hmapped
  have hlt : c < s.nextConnId := by
    by_contra hle
    have hph := (h.good c).mapped.mp hmapped
    rw [(h.born c).mpr (.inr (not_lt.mp hle))] at hph
    cases hph
  have hinj := (connName_injOn o (s.nextConnId + 1)).mpr (by rw [connLimit] at hlimit; omega)
  exact hc (hinj (Nat.lt_succ_of_lt hlt) (Nat.lt_succ_self _) hname)

/-- **A connection is made.** -/
theorem birth (h : Inv o s phase) (hlimit : s.nextConnId < connLimit o) {next : Nat}
    (hnext : next = if o.numThreads = 0 then 0 else s.nextConnId % o.numThreads) (ht : t.name = connName o s.nextConnId)
    (hfree : ∀ c t', s.conns c = some t' → t'.channel.fd ≠ t.channel.fd)
    (hgood : Good o s' s.nextConnId ph) (hph : ph ≠ .unborn) (hcount : s'.nextConnId = s.nextConnId + 1) (hnext' : s'.next = next)
    (hconnections : s'.connections = Function.update s.connections t.name (some s.nextConnId))
    (hconns : ∃ t', s'.conns = Function.update s.conns s.nextConnId (some t') ∧ t'.channel.fd = t.channel.fd)
    (hsame : ∀ c ≠ s.nextConnId, s'.tasks c = s.tasks c ∧ s'.activeOf c = s.activeOf c ∧ s'.handlingOf c = s.handlingOf c)
    (hheld : s'.held = s.held) (hmidway : s'.midway = s.midway) (hidle : ∀ l, s'.calling l ≠ [] → s'.active l = [] ∧ s'.handling l = none)
    (hpollers : Pollers s'.conns (Function.update phase s.nextConnId ph) s'.poller) :
    Inv o s' (Function.update phase s.nextConnId ph) := by
  obtain ⟨t', hconns, hfd⟩ := hconns
  have hself : s'.conns s.nextConnId = some t' := by rw [hconns, Function.update_self]
  have hother : ∀ c ≠ s.nextConnId, s'.conns c = s.conns c := fun c hc => by rw [hconns, Function.update_of_ne hc]
  refine
    { good := fun c => ?_, born := fun c => ?_, named := fun name c hc => ?_, first := by rw [hcount]; exact Nat.le_add_left 1 _, next := ?_,
      fds := fun c₁ c₂ t₁ t₂ h₁ h₂ heq => ?_, idle := hidle, pollers := hpollers }
  · by_cases hc : c = s.nextConnId
    · rw [hc, Function.update_self]
      exact hgood
    · rw [Function.update_of_ne hc]
      refine (h.good c).frame ⟨hother c hc, ?_, (hsame c hc).1, (hsame c hc).2.1, (hsame c hc).2.2, by rw [hheld],
        by rw [hmidway]⟩
      rw [hconnections]
      by_cases hname : connName o c = t.name
      · rw [hname, Function.update_self]
        refine iff_of_false (fun heq => hc (Option.some.inj heq).symm) ?_
        rw [← hname]
        exact h.fresh_name hlimit hc (hname.trans ht)
      · rw [Function.update_of_ne hname]
  · rw [hcount]
    have hfirst := h.first
    by_cases hc : c = s.nextConnId
    · rw [hc, Function.update_self]
      exact iff_of_false hph (by omega)
    · rw [Function.update_of_ne hc, h.born]
      omega
  · rw [hconnections] at hc
    by_cases hname : name = t.name
    · rw [hname, Function.update_self] at hc
      rw [hname, ht, Option.some.inj hc]
    · rw [Function.update_of_ne hname] at hc
      exact h.named name c hc
  · rw [hnext', hnext, hcount, Nat.add_sub_cancel]
  · by_cases hc₁ : c₁ = s.nextConnId
    · by_cases hc₂ : c₂ = s.nextConnId
      · rw [hc₁, hc₂]
      · rw [hc₁, hself] at h₁
        cases h₁
        rw [hother c₂ hc₂] at h₂
        exact absurd (heq.symm.trans hfd) (hfree c₂ t₂ h₂)
    · rw [hother c₁ hc₁] at h₁
      by_cases hc₂ : c₂ = s.nextConnId
      · rw [hc₂, hself] at h₂
        cases h₂
        exact absurd (heq.trans hfd) (hfree c₁ t₁ h₁)
      · rw [hother c₂ hc₂] at h₂
        exact h.fds c₁ c₂ t₁ t₂ h₁ h₂ heq

theorem newConnection (h : Inv o s phase) (hlimit : s.nextConnId < connLimit o) {sockfd : Nat}
    (hfree : ∀ c t, s.conns c = some t → t.channel.fd ≠ sockfd) :
    ∃ s' called, s.newConnection o sockfd = some (s', called) ∧
      (called = [] ∧ Inv o s' (Function.update phase s.nextConnId .connecting) ∨
        called = [⟨loopOf o s.nextConnId, s.nextConnId, .connection true⟩] ∧
          Inv o s' (Function.update phase s.nextConnId .up)) := by
  have hgood := h.good s.nextConnId
  have hunborn : phase s.nextConnId = .unborn := (h.born _).mpr (.inr le_rfl)
  have hnone : s.conns s.nextConnId = none := hgood.dead (by rw [hunborn]; rfl)
  have htasks : ∀ l, s.tasks s.nextConnId l = [] := by
    have hnil := hgood.tasks
    rwa [hunborn] at hnil
  have hactive := hgood.activeOf_nil (by rw [hunborn]; decide)
  have hhandling := hgood.handlingOf_none (by rw [hunborn]; decide) (by rw [hunborn]; decide) (by rw [hunborn]; decide)
  have hmidway := hgood.midway_nil (by rw [hunborn]; decide)
  have hint : s.nextConnId < 2147483647 := lt_of_lt_of_le hlimit (Nat.min_le_right _ _)
  obtain ⟨t, ht⟩ : ∃ t : ServerConnection, t = ⟨loopOf o s.nextConnId, connName o s.nextConnId, .kConnecting,
    ⟨sockfd, Events.kNoneEvent, kNew⟩⟩ := ⟨_, rfl⟩
  have hname : t.name = connName o s.nextConnId := by rw [ht]
  have hloop : t.loop = loopOf o s.nextConnId := by rw [ht]
  have hstate : t.state = .kConnecting := by rw [ht]
  have hfd : ∀ c t', s.conns c = some t' → t'.channel.fd ≠ t.channel.fd := by
    rw [ht]
    exact hfree
  have hnoPoller : Pollers (Function.update s.conns s.nextConnId (some t)) (Function.update phase s.nextConnId .connecting) s.poller := by
    refine h.pollers.absent (fun l => ?_) fun t' ht' => ?_
    · rw [reg, hnone]
      rfl
    · rw [← Option.some.inj ht', ht]
      exact ⟨rfl, rfl⟩
  obtain ⟨next, hnext⟩ : ∃ next, next = if o.numThreads = 0 then 0 else s.nextConnId % o.numThreads := ⟨_, rfl⟩
  have heq : s.newConnection o sockfd =
      if loopOf o s.nextConnId = 0 then (s.addConnection next t).connectEstablished (loopOf o s.nextConnId) s.nextConnId
      else some ((s.addConnection next t).queueInLoop (loopOf o s.nextConnId) ⟨s.nextConnId, .connectEstablished⟩, []) := by
    simp only [TcpServer.newConnection, getNextLoop_eq h.first h.next, guard_pos hint, ← hnext, ← ht,
      Option.bind_eq_bind, Option.bind_some, Option.pure_def]
  have hself : (s.addConnection next t).conns s.nextConnId = some t := Function.update_self _ _ _
  have hmapped : (s.addConnection next t).connections (connName o s.nextConnId) = some s.nextConnId := by
    rw [← hname]
    exact Function.update_self _ _ _
  rw [heq]
  by_cases hbase : loopOf o s.nextConnId = 0
  · rw [if_pos hbase]
    have hsome : ({ t.channel.events with read := true } : Events) ≠ Events.kNoneEvent := by
      intro hev
      cases congrArg Events.read hev
    have hunique : ∀ c' t', (s.addConnection next t).conns c' = some t' → t'.channel.fd = t.channel.fd → c' = s.nextConnId := by
      intro c' t' ht' hfd'
      by_contra hc
      rw [addConnection] at ht'
      simp only [Function.update_of_ne hc] at ht'
      exact hfd c' t' ht' hfd'
    have hadded : Pollers (s.addConnection next t).conns (Function.update phase s.nextConnId .connecting) s.poller := hnoPoller
    obtain ⟨p, channel, hupdate, hfd', hevents, hpollers⟩ :=
      hadded.enable hself (Function.update_self _ _ _) hunique hsome
    refine ⟨_, _, connectEstablished_eq (s := s.addConnection next t) hself hloop hstate hupdate, .inr ⟨rfl, ?_⟩⟩
    have hafter := hpollers { t with state := .kConnected, channel := channel } rfl rfl
    rw [Function.update_idem] at hafter
    refine h.birth hlimit hnext hname hfd (Good.of_quiet (fun hdead => absurd hdead (by decide))
        (fun _ => ⟨_, conns_install _ _ _ _, hloop, hname, .inl rfl, fun _ => congrArg Events.read hevents⟩)
        (iff_of_true hmapped rfl) ⟨fun k hk => ?_, fun l' _ => htasks l'⟩ hactive hhandling (fun _ => rfl)
        hmidway)
      (by decide) rfl rfl rfl ⟨{ t with state := .kConnected, channel := channel }, ?_, hfd'⟩ (fun c' _ => ⟨rfl, rfl, rfl⟩) rfl
      rfl h.idle hafter
    · have hnil : k ∈ ([] : List ServerCall) := htasks _ ▸ hk
      cases hnil
    · rw [install, addConnection]
      exact Function.update_idem _ _ _
  · rw [if_neg hbase]
    refine ⟨_, _, rfl, .inl ⟨rfl, ?_⟩⟩
    refine h.birth hlimit hnext hname hfd (Good.of_quiet (fun hdead => absurd hdead (by decide))
        (fun _ => ⟨t, hself, hloop, hname, hstate, fun hup => absurd hup (by decide)⟩)
        (iff_of_true hmapped rfl) ⟨hbase, ?_, fun l' hl' => ?_⟩ hactive hhandling (fun _ => rfl) hmidway)
      (by decide) rfl rfl rfl ⟨t, rfl, rfl⟩ (fun c' hc => ⟨?_, rfl, rfl⟩) rfl rfl h.idle hnoPoller
    · rw [tasks_queueInLoop, if_pos ⟨rfl, rfl⟩]
      exact congrArg (· ++ [ServerCall.connectEstablished]) (htasks _)
    · rw [tasks_queueInLoop, if_neg fun heq => hl' heq.2, List.append_nil]
      exact htasks l'
    · funext l'
      rw [tasks_queueInLoop, if_neg fun heq => hc heq.1.symm, List.append_nil]
      rfl

/-! ## The loop -/

theorem unchanged (h : Inv o s phase) (hsame : ∀ c, Same o s s' c) (hcount : s'.nextConnId = s.nextConnId ∧ s'.next = s.next)
    (hconnections : s'.connections = s.connections) (hconns : s'.conns = s.conns) (hpoller : s'.poller = s.poller)
    (hidle : ∀ l, s'.calling l ≠ [] → s'.active l = [] ∧ s'.handling l = none) : Inv o s' phase where
  good c := (h.good c).frame (hsame c)
  born := by rw [hcount.1]; exact h.born
  named := by rw [hconnections]; exact h.named
  first := by rw [hcount.1]; exact h.first
  next := by rw [hcount.1, hcount.2]; exact h.next
  fds := by rw [hconns]; exact h.fds
  idle := hidle
  pollers := by rw [hconns, hpoller]; exact h.pollers

end Inv

theorem length_activeOf (ready : List Ready) (c : ConnId) :
    (ready.filterMap (eventOf c)).length = (ready.filterMap readyConn).count c := by
  induction ready with
  | nil => rfl
  | cons r ready ih =>
    cases r with
    | acceptor => exact ih
    | connection c' revents =>
      by_cases hc : c' = c
      · subst hc
        simp [eventOf, readyConn, ih]
      · simp [eventOf, readyConn, hc, ih]

theorem mem_activeOf {r : Revents} : r ∈ s.activeOf c l ↔ .connection c r ∈ s.active l := by
  rw [activeOf, List.mem_filterMap]
  constructor
  · rintro ⟨x, hx, hr⟩
    cases x with
    | acceptor => cases hr
    | connection c' r' =>
      simp only [eventOf] at hr
      split at hr
      · cases hr
        subst_vars
        exact hx
      · cases hr
  · intro h
    exact ⟨.connection c r, h, if_pos rfl⟩

/-- A sound event closes at most once. -/
theorem countP_handlers {r : Revents} (h : r.Sound) : r.handlers.countP closing ≤ 1 := by
  have hcount : r.handlers.countP closing =
      (if r.hup ∧ ¬r.pollin then 1 else 0) + if r.pollin ∨ r.pri ∨ r.rdhup then 1 else 0 := by
    have hread : [Handler.read].countP closing = 1 ∧ [Handler.write].countP closing = 0 := by decide
    have hclose : [Handler.close].countP closing = 1 ∧ [Handler.error].countP closing = 0 := by decide
    simp only [Revents.handlers, List.countP_append, apply_ite (List.countP closing), List.countP_nil, hread.1, hread.2,
      hclose.1, hclose.2, ite_self, Nat.add_zero]
  rw [hcount]
  by_cases hclose : r.hup ∧ ¬r.pollin
  · have hread : ¬(r.pollin ∨ r.pri ∨ r.rdhup) := by
      rintro (hin | hrest)
      · exact hclose.2 hin
      · exact h ⟨hclose.1, Bool.eq_false_iff.mpr hclose.2, hrest⟩
    rw [if_pos hclose, if_neg hread]
  · rw [if_neg hclose]
    split <;> decide

theorem activeOf_setActive (s : TcpServer) (l : LoopId) (ready : List Ready) (c : ConnId) (l' : LoopId) (hl : l' ≠ l) :
    (s.setActive l ready).activeOf c l' = s.activeOf c l' := by
  simp only [activeOf, setActive, Function.update_of_ne hl]

namespace Inv

/-- **`poll`** finds every channel registered, of a connection that is up. -/
theorem poll (h : Inv o s phase) (hidle : s.Idle l) {ready : List Ready} (hready : s.CanPoll l ready) :
    s.poll l ready = some (s.setActive l ready) ∧ Inv o (s.setActive l ready) phase := by
  obtain ⟨hnodup, hready⟩ := hready
  have hreported : ∀ c r, .connection c r ∈ ready → r.Sound ∧ ∃ t, s.conns c = some t ∧ t.loop = l ∧ phase c = .up := by
    intro c r hr
    obtain ⟨hsound, fd, events, hinterest⟩ := hready _ hr
    obtain ⟨t, ht, hl, hph, -⟩ := h.pollers.reported hinterest
    exact ⟨hsound, t, ht, hl, hph⟩
  have hregistered : ready.all (s.registered l) = true := by
    rw [List.all_eq_true]
    intro r hr
    cases r with
    | acceptor => rfl
    | connection c r =>
      obtain ⟨-, t, ht, hl, hph⟩ := hreported c r hr
      have hfound := h.pollers.found ht hph
      rw [hl] at hfound
      simp only [TcpServer.registered, ht, hfound, decide_true]
  refine ⟨?_, ?_⟩
  · simp only [TcpServer.poll, guard_pos hregistered, Option.bind_eq_bind, Option.bind_some, Option.pure_def]
  · have hself : (s.setActive l ready).active l = ready := Function.update_self _ _ _
    refine
      { good := fun c => ?_, born := h.born, named := h.named, first := h.first, next := h.next, fds := h.fds,
        idle := fun l' hl' => ?_, pollers := h.pollers }
    · have hgood := h.good c
      refine ⟨hgood.dead, hgood.conn, hgood.mapped, hgood.tasks, fun l' r hr => ?_, fun l' => ?_, fun l' hs hh => ?_, hgood.held,
        hgood.midway⟩
      · by_cases hl : l' = l
        · rw [hl] at hr ⊢
          rw [mem_activeOf, hself] at hr
          obtain ⟨hsound, t, ht, hloop, hph⟩ := hreported c r hr
          exact ⟨hloop.symm.trans (hgood.of_conn ht).2.1, hph, hsound⟩
        · rw [activeOf_setActive _ _ _ _ _ hl] at hr
          exact hgood.active l' r hr
      · by_cases hl : l' = l
        · rw [hl, activeOf, hself, length_activeOf]
          exact List.nodup_iff_count_le_one.mp hnodup c
        · rw [activeOf_setActive _ _ _ _ _ hl]
          exact hgood.once l'
      · have hl : l' ≠ l := by
          rintro rfl
          have hnone : s.handlingOf c l' = some hs := hh
          rw [handlingOf, hidle.2.1] at hnone
          cases hnone
        rw [activeOf_setActive _ _ _ _ _ hl]
        exact hgood.handling l' hs hh
    · by_cases hl : l' = l
      · rw [hl] at hl'
        exact absurd hidle.2.2 hl'
      · rw [setActive]
        simp only [Function.update_of_ne hl]
        exact h.idle l' hl'

/-- **`handleEvent`** finds its connection. -/
theorem handleEvent (h : Inv o s phase) {r : Revents} {rest : List Ready} (hactive : s.active l = .connection c r :: rest)
    (hhandling : s.handling l = none) :
    ∃ s', (s.setActive l rest).handleEvent l c r = some s' ∧ Inv o s' phase := by
  have hgood := h.good c
  have hmem : r ∈ s.activeOf c l := mem_activeOf.mpr (by rw [hactive]; exact List.mem_cons_self)
  obtain ⟨hl, hph, hsound⟩ := hgood.active l r hmem
  obtain ⟨t, ht, -⟩ := hgood.conn (by rw [hph]; rfl)
  have hborn : phase c ≠ .unborn := by rw [hph]; decide
  -- The connection is there once only.
  have hnil : ∀ l', ((s.setActive l rest).setHandling l (some (c, r.handlers))).activeOf c l' = [] := by
    intro l'
    by_cases hll : l' = l
    · have honce := hgood.once l
      rw [activeOf, hactive] at honce
      have hrest : ((s.setActive l rest).setHandling l (some (c, r.handlers))).active l = rest := Function.update_self _ _ _
      rw [hll, activeOf, hrest]
      simp only [List.filterMap_cons, eventOf, if_true, List.length_cons] at honce
      exact List.length_eq_zero_iff.mp (Nat.le_zero.mp (Nat.le_of_succ_le_succ honce))
    · refine (activeOf_setActive s l rest c l' hll).trans (List.eq_nil_iff_forall_not_mem.mpr fun r' hr' => hll ?_)
      exact (hgood.active l' r' hr').1.trans hl.symm
  refine ⟨(s.setActive l rest).setHandling l (some (c, r.handlers)), ?_, ?_⟩
  · have ht' : (s.setActive l rest).conns c = some t := ht
    simp only [TcpServer.handleEvent, ht', Option.bind_eq_bind, Option.bind_some, Option.pure_def]
  · have hinv : Inv o ((s.setActive l rest).setHandling l (some (c, r.handlers))) (Function.update phase c (phase c)) := by
      refine h.step ⟨hgood.dead, hgood.conn, hgood.mapped, hgood.tasks, fun l' r' hr' => ?_, fun l' => ?_, fun l' hs hh => ?_,
          hgood.held, hgood.midway⟩
        (fun c' hc => (Same.popActive hactive (fun heq => hc (Option.some.inj heq).symm)).trans (Same.handle ?_ ?_))
        ⟨hborn, hborn⟩ ⟨rfl, rfl⟩ (fun _ _ hc' => hc') (fun c' t' ht' => ⟨t', ht', rfl⟩) (fun l' hl' => ?_)
        (by rw [Function.update_eq_self]; exact h.pollers)
      · rw [hnil l'] at hr'
        cases hr'
      · rw [hnil l']
        exact Nat.zero_le _
      · rw [hnil l']
        by_cases hll : l' = l
        · rw [hll, handlingOf_self (Function.update_self _ _ _)] at hh
          cases hh
          exact ⟨hll.trans hl, rfl, .inl ⟨hph, countP_handlers hsound⟩⟩
        · have hh' : s.handlingOf c l' = some hs := by
            simpa only [handlingOf, setHandling, setActive, Function.update_of_ne hll] using hh
          exact absurd ((hgood.handling l' hs hh').1.trans hl.symm) hll
      · intro hs heq
        rw [show (s.setActive l rest).handling l = s.handling l from rfl, hhandling] at heq
        cases heq
      · intro hs heq
        exact hc (congrArg Prod.fst (Option.some.inj heq)).symm
      · obtain ⟨hempty, hnone⟩ := h.idle l' hl'
        have hll : l' ≠ l := by
          rintro rfl
          rw [hactive] at hempty
          cases hempty
        rw [setHandling, setActive]
        simp only [Function.update_of_ne hll]
        exact ⟨hempty, hnone⟩
    rwa [Function.update_eq_self] at hinv

theorem handled (h : Inv o s phase) (hhandling : s.handling l = some (c, [])) : Inv o (s.setHandling l none) phase := by
  have hgood := h.good c
  have hborn : phase c ≠ .unborn := by
    rcases (hgood.handling l [] (handlingOf_self hhandling)).2.2 with ⟨hph, -⟩ | ⟨hph | hph, -⟩ <;> rw [hph] <;> decide
  have hinv : Inv o (s.setHandling l none) (Function.update phase c (phase c)) := by
    refine h.step ⟨hgood.dead, hgood.conn, hgood.mapped, hgood.tasks, hgood.active, hgood.once, fun l' hs hh => ?_, hgood.held,
        hgood.midway⟩
      (fun c' hc => Same.handle (fun hs heq => ?_) nofun) ⟨hborn, hborn⟩ ⟨rfl, rfl⟩ (fun _ _ hc' => hc')
      (fun c' t' ht' => ⟨t', ht', rfl⟩) (fun l' hl' => ?_) (by rw [Function.update_eq_self]; exact h.pollers)
    · by_cases hll : l' = l
      · rw [hll] at hh
        simp only [handlingOf, setHandling, Function.update_self, Option.bind_none] at hh
        cases hh
      · simp only [handlingOf, setHandling, Function.update_of_ne hll] at hh
        exact hgood.handling l' hs hh
    · rw [hhandling] at heq
      exact hc (congrArg Prod.fst (Option.some.inj heq)).symm
    · obtain ⟨hempty, hnone⟩ := h.idle l' hl'
      refine ⟨hempty, ?_⟩
      by_cases hll : l' = l
      · rw [hll]
        exact Function.update_self _ _ _
      · exact (Function.update_of_ne hll _ _).trans hnone
  rwa [Function.update_eq_self] at hinv

theorem swapFunctors (h : Inv o s phase) (hidle : s.Idle l) : Inv o (s.swapFunctors l) phase := by
  refine h.unchanged (fun c => ⟨rfl, Iff.rfl, ?_, rfl, rfl, rfl, rfl⟩) ⟨rfl, rfl⟩ rfl rfl rfl fun l' hl' => ?_
  · rw [tasks_swap hidle.2.2]
  · by_cases hll : l' = l
    · rw [hll]
      exact ⟨hidle.1, hidle.2.1⟩
    · simp only [TcpServer.swapFunctors, Function.update_of_ne hll] at hl'
      exact h.idle l' hl'

theorem acceptFails (h : Inv o s phase) {rest : List Ready} (hactive : s.active 0 = .acceptor :: rest) :
    Inv o (s.setActive 0 rest) phase := by
  refine h.unchanged (fun c => Same.popActive hactive nofun) ⟨rfl, rfl⟩ rfl rfl rfl fun l' hl' => ?_
  obtain ⟨hempty, hnone⟩ := h.idle l' hl'
  have hll : l' ≠ 0 := by
    rintro rfl
    rw [hactive] at hempty
    cases hempty
  exact ⟨(Function.update_of_ne hll _ _).trans hempty, hnone⟩

/-! ## Who owns a connection -/

theorem alive_of_referenced (h : Inv o s phase) (hreferenced : s.Referenced c) : (phase c).alive = true := by
  have hgood := h.good c
  rcases hreferenced with ⟨name, hname⟩ | hheld | ⟨l, hs, hhandling⟩ | ⟨l, f, hf, hc, howns⟩ | hmidway
  · have hmapped := hgood.mapped.mp (by rw [← h.named name c hname]; exact hname)
    cases hph : phase c with
    | connecting | up | closed | removed | unregistered => rfl
    | unborn | destroyed =>
      rw [hph] at hmapped
      cases hmapped
  · exact hgood.held hheld
  · rcases (hgood.handling l hs (handlingOf_self hhandling)).2.2 with ⟨hph, -⟩ | ⟨hph | hph, -⟩ <;> rw [hph] <;> rfl
  · have hmem : f.call ∈ s.tasks c l := mem_tasks.mpr (by rw [← hc]; exact hf)
    cases hph : phase c with
    | connecting | up | closed | removed | unregistered => rfl
    | unborn | destroyed =>
      rw [hgood.tasks.not_owns (by rw [hph]; simp) l _ hmem] at howns
      cases howns
  · rw [hgood.midway hmidway]
    rfl

/-- A connection that nothing owns is in no poller any more. -/
theorem unregistered_of_not_referenced (h : Inv o s phase) (ht : s.conns c = some t) (hreferenced : ¬s.Referenced c) :
    phase c = .unregistered := by
  have hgood := h.good c
  have hnot : (phase c).mapped = false := by
    by_contra hmapped
    exact hreferenced (.inl ⟨_, h.connections_eq (by simpa using hmapped)⟩)
  have halive := (hgood.of_conn ht).1
  cases hph : phase c with
  | unregistered => rfl
  | connecting | up | closed =>
    rw [hph] at hnot
    cases hnot
  | unborn | destroyed =>
    rw [hph] at halive
    cases halive
  | removed =>
    have htasks := hgood.tasks
    rw [hph] at htasks
    obtain ⟨⟨raws, -, hown⟩, -⟩ := htasks
    have hmem : ServerCall.connectDestroyed ∈ s.tasks c (loopOf o c) := by
      rw [hown]
      exact List.mem_append_right _ (List.mem_singleton_self _)
    exact absurd (.inr (.inr (.inr (.inl ⟨loopOf o c, _, mem_tasks.mp hmem, rfl, rfl⟩)))) hreferenced

theorem hold (h : Inv o s phase) (b : Bool) (hb : b = true → (phase c).alive = true) :
    Inv o { s with held := Function.update s.held c b } phase where
  good c' := by
    by_cases hc : c' = c
    · subst hc
      have hgood := h.good c'
      refine ⟨hgood.dead, hgood.conn, hgood.mapped, hgood.tasks, hgood.active, hgood.once, hgood.handling, fun hheld => hb ?_,
        hgood.midway⟩
      simpa only [Function.update_self] using hheld
    · exact (h.good c').frame (Same.hold hc)
  born := h.born
  named := h.named
  first := h.first
  next := h.next
  fds := h.fds
  idle := h.idle
  pollers := h.pollers

/-- **The destructor**, with nothing left to clean up but the descriptor. -/
theorem destroy (h : Inv o s phase) (ht : s.conns c = some t) (hreferenced : ¬s.Referenced c) :
    ∃ s', s.destroy c = some s' ∧ phase c = .unregistered ∧ Inv o s' (Function.update phase c .destroyed) := by
  have hgood := h.good c
  have hph := h.unregistered_of_not_referenced ht hreferenced
  have htasks := hgood.tasks
  rw [hph] at htasks
  -- No poller watches the descriptor.
  have hsame : (fun l => { s.poller l with interest := Function.update (s.poller l).interest t.channel.fd none }) = s.poller := by
    funext l
    have hnone : (s.poller l).interest t.channel.fd = none := by
      cases hinterest : (s.poller l).interest t.channel.fd with
      | none => rfl
      | some x =>
        have hpair : (s.poller l).interest t.channel.fd = some (x.1, x.2) := hinterest
        obtain ⟨t', ht', -, hup, hfd, -⟩ := h.pollers.reported hpair
        rw [h.fds _ _ _ _ ht' ht hfd, hph] at hup
        cases hup
    rw [Function.update_eq_self_iff.mpr hnone.symm]
  refine ⟨_, by simp only [TcpServer.destroy, ht, Option.bind_eq_bind, Option.bind_some, Option.pure_def]; rfl, hph, ?_⟩
  refine h.step (Good.of_quiet (fun _ => Function.update_self _ _ _) nofun (hgood.mapped.trans (by rw [hph]; rfl)) htasks
      (hgood.activeOf_nil (by rw [hph]; decide))
      (hgood.handlingOf_none (by rw [hph]; decide) (by rw [hph]; decide) (by rw [hph]; decide))
      (fun hheld => absurd (.inr (.inl hheld)) hreferenced) (hgood.midway_nil (by rw [hph]; decide)))
    (fun c' hc => ⟨Function.update_of_ne hc _ _, Iff.rfl, rfl, rfl, rfl, rfl, rfl⟩) ⟨by rw [hph]; decide, by decide⟩ ⟨rfl, rfl⟩
    (fun _ _ hc' => hc') (fun c' t' ht' => ?_) h.idle ?_
  · by_cases hc : c' = c
    · subst hc
      simp only [Function.update_self] at ht'
      cases ht'
    · simp only [Function.update_of_ne hc] at ht'
      exact ⟨t', ht', rfl⟩
  · rw [hsame]
    refine h.pollers.absent (fun l => ?_) nofun
    rw [reg, ht]
    simp only [hph]
    split <;> rfl

end Inv

/-! ## The callbacks of a connection -/

/-- How a phase goes on, and what the program is called back with. -/
inductive Moves : Phase → List Callback → Phase → Prop
  | stay {p : Phase} : Moves p [] p
  | born : Moves .unborn [] .connecting
  /-- In a server without a pool. -/
  | bornUp : Moves .unborn [.connection true] .up
  | established : Moves .connecting [.connection true] .up
  | message : Moves .up [.message] .up
  | closed : Moves .up [.connection false] .closed
  /-- In the base loop. -/
  | closedRemoved : Moves .up [.connection false] .removed
  | removed : Moves .closed [] .removed
  | unregistered : Moves .removed [] .unregistered
  | destroyed : Moves .unregistered [] .destroyed

/-- What the program has been told of a connection in this phase. -/
def Phase.Tells (callbacks : List Callback) : Phase → Prop
  | .unborn | .connecting => callbacks = []
  | .up => ∃ n, callbacks = .connection true :: List.replicate n .message
  | .closed | .removed | .unregistered | .destroyed =>
    ∃ n, callbacks = .connection true :: List.replicate n .message ++ [.connection false]

theorem Moves.tells {callbacks called : List Callback} (h : Moves ph called ph') (htold : ph.Tells callbacks) :
    ph'.Tells (callbacks ++ called) := by
  cases h with
  | stay => rwa [List.append_nil]
  | born =>
    rw [List.append_nil]
    exact htold
  | bornUp | established =>
    rw [show callbacks = [] from htold]
    exact ⟨0, rfl⟩
  | message =>
    obtain ⟨n, hn⟩ := htold
    exact ⟨n + 1, by rw [hn, List.cons_append, ← List.replicate_succ']⟩
  | closed | closedRemoved =>
    obtain ⟨n, hn⟩ := htold
    exact ⟨n, by rw [hn]⟩
  | removed | unregistered | destroyed =>
    rw [List.append_nil]
    exact htold

/-- One connection goes on, and calls back in its loop. -/
def Progress (o : ServerOptions) (phase : ConnId → Phase) (called : List Called) (phase' : ConnId → Phase) : Prop :=
  ∃ c, (∀ c' ≠ c, phase' c' = phase c') ∧ (∀ x ∈ called, x.conn = c ∧ x.loop = loopOf o c) ∧
    Moves (phase c) (called.map Called.callback) (phase' c)

theorem Progress.refl (o : ServerOptions) (phase : ConnId → Phase) : Progress o phase [] phase :=
  ⟨0, fun _ _ => rfl, nofun, .stay⟩

theorem Progress.update {called : List Called} (hcalled : ∀ x ∈ called, x.conn = c ∧ x.loop = loopOf o c)
    (hmoves : Moves (phase c) (called.map Called.callback) ph) : Progress o phase called (Function.update phase c ph) := by
  refine ⟨c, fun c' hc => Function.update_of_ne hc _ _, hcalled, ?_⟩
  rwa [Function.update_self]

/-- No other thread is in a call on a connection that closes. -/
def Calm (s : TcpServer) (called : List Called) : Prop :=
  ∀ x ∈ called, x.callback = .connection false → s.midway x.conn = []

/-- A step succeeds, and what it keeps. -/
def Succeeds (o : ServerOptions) (s : TcpServer) (phase : ConnId → Phase) (r : Option (TcpServer × List Called)) : Prop :=
  ∃ s' called phase', r = some (s', called) ∧ (Calm s called → Inv o s' phase') ∧ Progress o phase called phase'

theorem Succeeds.quiet {r : Option (TcpServer × List Called)} (hr : r = some (s', [])) (hinv : Inv o s' phase) :
    Succeeds o s phase r :=
  ⟨s', [], phase, hr, fun _ => hinv, .refl o phase⟩

namespace Inv

theorem handle (h : Inv o s phase) {io : Io} {x : Handler} {hs : List Handler} (hhandling : s.handling l = some (c, x :: hs)) :
    Succeeds o s phase ((s.setHandling l (some (c, hs))).handle l c io x) := by
  obtain ⟨h₁, hl, hactive, halive, hclosing, hphase⟩ := h.popHandler hhandling
  obtain ⟨t, ht, hloop, -⟩ := (h₁.good c).conn halive
  have hclose : closing x = true → Succeeds o s phase ((s.setHandling l (some (c, hs))).handleClose l c) := by
    intro hx
    obtain ⟨hph, hzero⟩ := hclosing hx
    obtain ⟨s', ph, hclose, hph', hinv⟩ := h₁.handleClose hph hl hactive fun hs' hh => by
      rw [handlingOf_self (Function.update_self _ _ _)] at hh
      rw [← Option.some.inj hh, hzero]
    refine ⟨s', _, _, hclose, fun hcalm => hinv (hcalm _ (List.mem_singleton_self _) rfl),
      Progress.update (by simpa using hl) ?_⟩
    rw [hph]
    rcases hph' with rfl | rfl
    · exact .closed
    · exact .closedRemoved
  cases x with
  | close => exact hclose rfl
  | error =>
    refine .quiet ?_ h₁
    simp only [TcpServer.handle, ht, Option.bind_eq_bind, Option.bind_some, Option.pure_def]
  | read =>
    simp only [TcpServer.handle, handleRead, ht, guard_pos (hloop.trans hl.symm), Option.bind_eq_bind, Option.bind_some,
      Option.pure_def]
    cases io with
    | data =>
      refine ⟨_, _, phase, rfl, fun _ => h₁, c, fun _ _ => rfl, by simpa using hl, ?_⟩
      rw [(hclosing rfl).1]
      exact .message
    | eof => exact hclose rfl
    | failed | drained => exact .quiet rfl h₁
  | write =>
    simp only [TcpServer.handle, handleWrite, ht, guard_pos (hloop.trans hl.symm), Option.bind_eq_bind, Option.bind_some,
      Option.pure_def]
    cases io with
    | data | eof | failed => exact .quiet rfl h₁
    | drained =>
      by_cases hwriting : t.channel.events.write = true
      · have hup : phase c = .up := by
          refine hphase.resolve_right fun hclosed => ?_
          rw [h₁.pollers.silent ht hclosed] at hwriting
          cases hwriting
        obtain ⟨s', hupdate, hinv⟩ := h₁.setWriting hup ht false
        rw [if_pos hwriting]
        exact .quiet (by simp only [hupdate, Option.bind_some]) hinv
      · rw [if_neg hwriting]
        exact .quiet rfl h₁

theorem run (h : Inv o s phase) {stays : Bool} {f : ServerFunctor} {fs : List ServerFunctor}
    (hcalling : s.calling l = f :: fs) : Succeeds o s phase ((s.setCalling l fs).run l stays f) := by
  obtain ⟨c, k⟩ := f
  have hpop := (h.good c).tasks.pop fun l' => by
    have hself := tasks_pop hcalling c l'
    simpa only [true_and] using hself
  rcases hpop with ⟨howns, hl, hph, htasks⟩ | ⟨rfl, hl, -, hph, hnil⟩ | ⟨rfl, hl, -, hph, hraw, hnil⟩ | ⟨rfl, hl, hph, hnil⟩
  · have h₁ := h.popRaw hcalling hph htasks
    subst hl
    cases k with
    | connectEstablished | removeConnectionInLoop | connectDestroyed => cases howns
    | sendInLoop =>
      obtain ⟨s', hsend, hinv⟩ := h₁.sendInLoop hph stays
      refine .quiet ?_ hinv
      simp only [TcpServer.run, hsend, Option.bind_eq_bind, Option.bind_some, Option.pure_def]
    | shutdownInLoop =>
      have halive : (phase c).alive = true := by rcases hph with hph | hph | hph <;> rw [hph] <;> rfl
      have hshutdown := h₁.shutdownInLoop halive
      refine .quiet ?_ h₁
      simp only [TcpServer.run, hshutdown, Option.bind_eq_bind, Option.bind_some, Option.pure_def]
  · obtain ⟨s', hestablished, hinv⟩ := h.connectEstablished hcalling hph hl hnil
    refine ⟨s', _, _, hestablished, fun _ => hinv, Progress.update (by simpa using hl) ?_⟩
    rw [hph]
    exact .established
  · subst hl
    obtain ⟨s', hremove, hinv⟩ := h.removeConnectionInLoop hcalling hph hraw hnil
    refine ⟨s', [], _, ?_, fun _ => hinv, Progress.update nofun ?_⟩
    · simp only [TcpServer.run, hremove, Option.bind_eq_bind, Option.bind_some, Option.pure_def]
    · rw [hph]
      exact .removed
  · obtain ⟨s', hdestroyed, hinv⟩ := h.connectDestroyed hcalling hph hl hnil
    refine ⟨s', [], _, hdestroyed, fun _ => hinv, Progress.update nofun ?_⟩
    rw [hph]
    exact .unregistered

/-- Who has its pointer finds a connection. -/
theorem alive_of_held (h : Inv o s phase) (hheld : s.held c = true) : (phase c).alive = true := (h.good c).held hheld

theorem up_of_midway (h : Inv o s phase) {m : Midway} (hm : m ∈ s.midway c) : phase c = .up :=
  (h.good c).midway (List.ne_nil_of_mem hm)

/-- **Whatever happens, the code gets through it.** -/
theorem succeeds (h : Inv o s phase) (hlimit : s.nextConnId < connLimit o) {a : Action}
    {r : Option (TcpServer × List Called)} (hdoes : Does o s a r) : Succeeds o s phase r := by
  cases hdoes with
  | poll hidle hready =>
    obtain ⟨hpoll, hinv⟩ := h.poll hidle hready
    exact .quiet (by rw [hpoll]; rfl) hinv
  | accept hactive hhandling hfree =>
    have hfails := h.acceptFails hactive
    obtain ⟨s', called, hnew, ⟨rfl, hinv⟩ | ⟨rfl, hinv⟩⟩ := hfails.newConnection hlimit hfree
    all_goals
      have hunborn : phase s.nextConnId = .unborn := (h.born _).mpr (.inr le_rfl)
      refine ⟨s', _, _, hnew, fun _ => hinv, Progress.update ?_ ?_⟩
    · exact nofun
    · rw [show (s.setActive 0 _).nextConnId = s.nextConnId from rfl, hunborn]
      exact .born
    · intro x hx
      rw [List.mem_singleton.mp hx]
      exact ⟨rfl, rfl⟩
    · rw [show (s.setActive 0 _).nextConnId = s.nextConnId from rfl, hunborn]
      exact .bornUp
  | acceptFails hactive hhandling => exact .quiet rfl (h.acceptFails hactive)
  | handleEvent hactive hhandling =>
    obtain ⟨s', hevent, hinv⟩ := h.handleEvent hactive hhandling
    exact .quiet (by rw [hevent]; rfl) hinv
  | handle hhandling => exact h.handle hhandling
  | handled hhandling => exact .quiet rfl (h.handled hhandling)
  | doPendingFunctors hidle => exact .quiet rfl (h.swapFunctors hidle)
  | call hcalling => exact h.run hcalling
  | @request c r hheld =>
    obtain ⟨s', hrequest, hinv⟩ := h.request (h.alive_of_held hheld) r
    exact .quiet (by rw [hrequest]; rfl) hinv
  | @test c m hheld =>
    obtain ⟨s', htest, hinv⟩ := h.test (h.alive_of_held hheld) m
    exact .quiet (by rw [htest]; rfl) hinv
  | setDisconnecting hmidway =>
    obtain ⟨s', hset, hinv⟩ := h.setDisconnecting (h.up_of_midway hmidway)
    exact .quiet (by rw [hset]; rfl) hinv
  | queue hmidway hcall =>
    obtain ⟨s', hqueue, hinv⟩ := h.queue (h.up_of_midway hmidway) hcall
    exact .quiet (by rw [hqueue]; rfl) hinv
  | hold hreferenced => exact .quiet rfl (h.hold true fun _ => h.alive_of_referenced hreferenced)
  | drop => exact .quiet rfl (h.hold false nofun)
  | destroy hconn hreferenced =>
    obtain ⟨s', hdestroy, hph, hinv⟩ := h.destroy hconn hreferenced
    refine ⟨s', [], _, by rw [hdestroy]; rfl, fun _ => hinv, Progress.update nofun ?_⟩
    rw [hph]
    exact .destroyed

end Inv

/-! ## Runs -/

theorem inv_start (o : ServerOptions) : Inv o start fun _ => .unborn where
  good c := Good.of_quiet (fun _ => rfl) nofun (iff_of_false nofun nofun) (fun _ => rfl) (fun _ => rfl) (fun _ => rfl) nofun rfl
  born c := by
    simp only [start, true_iff]
    omega
  named _ _ := nofun
  first := le_rfl
  next := by simp [start]
  fds _ _ _ _ := nofun
  idle _ h := absurd rfl h
  pollers _ := tracks_start _

/-- As long as the numbers last, and no thread is between the test of the state
and the end of `send` or `shutdown` on a connection that closes. -/
def bounded (o : ServerOptions) : System TcpServer (Action × List Called) :=
  (system o).restrict fun s a _ => s.nextConnId < connLimit o ∧ s.Calm a.2

/-- What the program is told of a connection along a run. -/
def callbacks (c : ConnId) (labels : List (Action × List Called)) : List Called :=
  (labels.flatMap Prod.snd).filter fun x => x.conn = c

variable {labels : List (Action × List Called)}

theorem callbacks_append (c : ConnId) (labels labels' : List (Action × List Called)) :
    callbacks c (labels ++ labels') = callbacks c labels ++ callbacks c labels' := by
  simp [callbacks]

theorem callbacks_single (c : ConnId) (a : Action × List Called) :
    callbacks c [a] = a.2.filter fun x => x.conn = c := by
  simp [callbacks]

/-- The run lemma: what a step keeps and tells is kept and told along the run. -/
theorem run_inv (hrun : (bounded o).Run start labels s) : ∃ phase, Inv o s phase ∧
    ∀ c, (∀ x ∈ callbacks c labels, x.loop = loopOf o c) ∧ (phase c).Tells ((callbacks c labels).map Called.callback) := by
  induction hrun with
  | nil => exact ⟨_, inv_start o, fun _ => ⟨nofun, rfl⟩⟩
  | @snoc labels s a s' hrun hstep ih =>
    obtain ⟨phase, hinv, htold⟩ := ih
    obtain ⟨s'', called, phase', hr, hinv', c, hothers, hcalled, hmoves⟩ := hinv.succeeds hstep.2.1 hstep.1
    obtain ⟨rfl, ha⟩ := Prod.mk.inj (Option.some.inj hr)
    refine ⟨phase', hinv' (ha ▸ hstep.2.2), fun c' => ?_⟩
    rw [callbacks_append, callbacks_single, ha]
    by_cases hc : c' = c
    · subst hc
      have hall : called.filter (fun x => x.conn = c') = called :=
        List.filter_eq_self.mpr fun x hx => decide_eq_true (hcalled x hx).1
      rw [hall, List.map_append]
      refine ⟨fun x hx => ?_, hmoves.tells (htold c').2⟩
      rcases List.mem_append.mp hx with hx | hx
      · exact (htold c').1 x hx
      · exact (hcalled x hx).2
    · have hnil : called.filter (fun x => x.conn = c') = [] :=
        List.filter_eq_nil_iff.mpr fun x hx => by simpa [(hcalled x hx).1] using Ne.symm hc
      rw [hnil, List.append_nil, hothers c' hc]
      exact htold c'

/-- **No run fails** that tears no call. Whatever the order of the loops, the
sockets and the program, what can happen next finds its connection and every
assertion holds. -/
theorem no_run_fails (hrun : (bounded o).Run start labels s) (hlimit : s.nextConnId < connLimit o) {a : Action}
    {r : Option (TcpServer × List Called)} (hdoes : Does o s a r) : ∃ s' called, r = some (s', called) := by
  obtain ⟨phase, hinv, -⟩ := run_inv hrun
  obtain ⟨s', called, -, hr, -⟩ := hinv.succeeds hlimit hdoes
  exact ⟨s', called, hr⟩

/-- A server without a pool. -/
def single : ServerOptions := ⟨['s'], ['h'], 0, by decide⟩

/-- It is told of a first connection. -/
theorem run_poll : (bounded single).Run start [(.poll 0 [.acceptor], [])] (start.setActive 0 [.acceptor]) :=
  .single ⟨Does.poll ⟨rfl, rfl, rfl⟩ ⟨List.nodup_nil, by simp⟩, by decide, nofun⟩

/-- And accepts it. -/
theorem no_run_fails_accept : ∃ s' called,
    ((start.setActive 0 [.acceptor]).setActive 0 []).newConnection single 5 = some (s', called) :=
  no_run_fails run_poll (by decide) (Does.accept rfl rfl nofun)

/-- What it is then. -/
def accepted : Option (TcpServer × List Called) := ((start.setActive 0 [.acceptor]).setActive 0 []).newConnection single 5

theorem run_accept : (bounded single).Run start
    [(.poll 0 [.acceptor], []), (.accept (some 5), [⟨0, 1, .connection true⟩])] (accepted.get rfl).1 := by
  have haccept : Does single (start.setActive 0 [.acceptor]) (.accept (some 5)) accepted := .accept rfl rfl nofun
  exact run_poll.snoc ⟨haccept, by decide, by simp [Calm]⟩

/-- **What a connection tells the program**, all of it in its own loop: that it
is up, its messages, that it is down. -/
theorem called_in_order (hrun : (bounded o).Run start labels s) (c : ConnId) :
    (∀ x ∈ callbacks c labels, x.loop = loopOf o c) ∧
    (∃ n, (callbacks c labels).map Called.callback <+: .connection true :: List.replicate n .message ++ [.connection false]) ∧
    ∀ t, s.conns c = some t →
      (.connection true ∈ (callbacks c labels).map Called.callback ↔ t.state ≠ .kConnecting) ∧
      (.connection false ∈ (callbacks c labels).map Called.callback ↔ t.state = .kDisconnected) := by
  obtain ⟨phase, hinv, htold⟩ := run_inv hrun
  obtain ⟨hloop, htells⟩ := htold c
  refine ⟨hloop, ?_, fun t ht => ?_⟩
  · cases hph : phase c with
    | unborn | connecting =>
      rw [hph] at htells
      exact ⟨0, by rw [show _ = [] from htells]; exact List.nil_prefix⟩
    | up =>
      rw [hph] at htells
      obtain ⟨n, hn⟩ := htells
      exact ⟨n, by rw [hn]; exact List.prefix_append _ _⟩
    | closed | removed | unregistered | destroyed =>
      rw [hph] at htells
      obtain ⟨n, hn⟩ := htells
      exact ⟨n, hn ▸ List.prefix_rfl⟩
  · have hstate := ((hinv.good c).of_conn ht).2.2.2.1
    cases hph : phase c with
    | unborn | destroyed =>
      rw [hph] at hstate
      exact hstate.elim
    | connecting =>
      rw [hph] at hstate htells
      rw [show _ = [] from htells, show t.state = .kConnecting from hstate]
      simp
    | up =>
      rw [hph] at hstate htells
      obtain ⟨n, hn⟩ := htells
      rw [hn]
      rcases hstate with hstate | hstate <;> simp [hstate]
    | closed | removed | unregistered =>
      rw [hph] at hstate htells
      obtain ⟨n, hn⟩ := htells
      rw [hn, show t.state = .kDisconnected from hstate]
      simp

/-- It has told that it is up, and not that it is down. -/
theorem called_in_order_accept : ∃ t, (accepted.get rfl).1.conns 1 = some t ∧ t.state ≠ .kConnecting ∧
    t.state ≠ .kDisconnected ∧ loopOf single 1 = 0 ∧
    ∃ n, [Callback.connection true] <+: .connection true :: List.replicate n .message ++ [.connection false] := by
  obtain ⟨hloop, hprefix, hstate⟩ := called_in_order run_accept 1
  obtain ⟨hup, hdown⟩ := hstate _ rfl
  refine ⟨_, rfl, hup.mp (List.mem_singleton_self _), ?_, ?_, hprefix⟩
  · intro hdisconnected
    exact absurd (hdown.mpr hdisconnected) (by decide)
  · exact (hloop ⟨0, 1, .connection true⟩ (List.mem_singleton_self _)).symm

/-- **What has closed is forgotten.** Of a connection for which no functor
waits, either it is up, in the map, and watched by its loop; or it has closed,
no map and no poller knows it, and only the program can still have it. -/
theorem settled (hrun : (bounded o).Run start labels s) (ht : s.conns c = some t)
    (hnone : ∀ l, ∀ f ∈ s.calling l ++ s.pendingFunctors l, f.conn ≠ c) :
    ((t.state = .kConnected ∨ t.state = .kDisconnecting) ∧ s.connections t.name = some c ∧
      (s.poller t.loop).interest t.channel.fd = some (c, t.channel.events)) ∨
    (t.state = .kDisconnected ∧ (∀ name, s.connections name ≠ some c) ∧
      (∀ l fd events, (s.poller l).interest fd ≠ some (c, events)) ∧ (∀ l fd, (s.poller l).channels_ fd ≠ some c) ∧
      (s.Referenced c ↔ s.held c = true)) := by
  obtain ⟨phase, hinv, -⟩ := run_inv hrun
  have hgood := hinv.good c
  obtain ⟨halive, hloop, hname, hstate, hread⟩ := hgood.of_conn ht
  have htasks : ∀ l, s.tasks c l = [] := fun l =>
    List.eq_nil_iff_forall_not_mem.mpr fun k hk => hnone l _ (mem_tasks.mp hk) rfl
  have hphase := hgood.tasks
  cases hph : phase c with
  | unborn | destroyed =>
    rw [hph] at halive
    cases halive
  | connecting =>
    rw [hph] at hphase
    have hestablish := hphase.2.1
    rw [htasks] at hestablish
    cases hestablish
  | closed =>
    rw [hph] at hphase
    have hremove := hphase.2.2.1
    rw [htasks] at hremove
    cases hremove
  | removed =>
    rw [hph] at hphase
    obtain ⟨⟨raws, -, hown⟩, -⟩ := hphase
    rw [htasks] at hown
    exact absurd hown.symm (List.append_ne_nil_of_right_ne_nil _ (List.cons_ne_nil _ _))
  | up =>
    rw [hph] at hstate
    refine .inl ⟨hstate, ?_, ?_⟩
    · rw [hname]
      exact hinv.connections_eq (by rw [hph]; rfl)
    · have hsome : t.channel.events ≠ Events.kNoneEvent := by
        intro hev
        have hfalse := hread hph
        rw [hev] at hfalse
        cases hfalse
      refine ((hinv.pollers t.loop).interest _ _ _).mpr ⟨?_, by rw [fdOf, ht]⟩
      rw [reg_self ht, hph, Phase.standing, watched, if_neg hsome]
  | unregistered =>
    rw [hph] at hstate
    have hmap : ∀ name, s.connections name ≠ some c := by
      intro name hmapped
      have hfalse := hgood.mapped.mp (by rw [← hinv.named name c hmapped]; exact hmapped)
      rw [hph] at hfalse
      cases hfalse
    refine .inr ⟨hstate, hmap, fun l fd events hinterest => ?_, fun l fd hchannel => ?_, fun hreferenced => ?_, fun h => .inr (.inl h)⟩
    · obtain ⟨t', -, -, hup, -⟩ := hinv.pollers.reported hinterest
      rw [hph] at hup
      cases hup
    · have hpresent := ((hinv.pollers l).channels fd c).mp hchannel
      rw [reg, ht] at hpresent
      simp only [hph] at hpresent
      split at hpresent
      · cases hpresent.1
      · cases hpresent.1
    · rcases hreferenced with ⟨name, hmapped⟩ | hheld | ⟨l, hs, hhandling⟩ | ⟨l, f, hf, hc, -⟩ | hmidway
      · exact absurd hmapped (hmap name)
      · exact hheld
      · have hsome := Inv.handlingOf_self hhandling
        rw [hgood.handlingOf_none (by rw [hph]; decide) (by rw [hph]; decide) (by rw [hph]; decide)] at hsome
        cases hsome
      · exact absurd hc (hnone l f hf)
      · rw [hgood.midway hmidway] at hph
        cases hph

theorem settled_accept : (accepted.get rfl).1.connections (connName single 1) = some 1 := by
  have hsettled := settled run_accept (c := 1) (t := ((accepted.get rfl).1.conns 1).get rfl) rfl nofun
  rcases hsettled with ⟨-, hmapped, -⟩ | ⟨hstate, -⟩
  · exact hmapped
  · cases hstate

/-! ## Torn calls -/

theorem reach {called : List Called} (hr : (system o).Reachable s) (a : Action) {r : Option (TcpServer × List Called)}
    (hdoes : Does o s a r) (hsome : r = some (s', called)) : (system o).Reachable s' := by
  have hstep : (system o).step s (a, called) s' := by
    rw [hsome] at hdoes
    exact hdoes
  exact hr.step hstep

theorem call_gone {fs : List ServerFunctor} (hcalling : s.calling l = ⟨c, .sendInLoop⟩ :: fs)
    (hnone : s.conns c = none) : Does o s (.call l false) none := by
  have hcall : Does o s (.call l false) ((s.setCalling l fs).run l false ⟨c, .sendInLoop⟩) := .call hcalling
  have hrun : (s.setCalling l fs).run l false ⟨c, .sendInLoop⟩ = none := by
    have hnone' : (s.setCalling l fs).conns c = none := hnone
    simp [TcpServer.run, TcpServer.sendInLoop, hnone']
  rwa [hrun] at hcall

/-- The peer has hung up. -/
def hangup : Revents := ⟨false, false, false, false, false, true, false⟩

/-- **A torn call comes too late.** A thread has found the connection connected
in `send`; it closes and is taken out of the map and the poller; the thread
queues its functor, returns and drops its pointer. The functor runs on a
connection that is no more. -/
theorem torn_send : ∃ s, (system single).Reachable s ∧ Does single s (.call 0 false) none := by
  have hr₁ : (system single).Reachable (accepted.get rfl).1 := ⟨_, _, rfl, run_accept.of_restrict⟩
  have hr₂ := reach hr₁ (.hold 1) (.hold (.inl ⟨connName single 1, rfl⟩)) rfl
  have hr₃ := reach hr₂ (.test 1 .sending) (.test rfl (by decide)) rfl
  -- It closes in the base loop.
  have hr₄ := reach hr₃ (.poll 0 [.connection 1 hangup]) (.poll ⟨rfl, rfl, rfl⟩ ⟨List.nodup_singleton 1, by
    intro r hr
    rw [List.mem_singleton.mp hr]
    exact ⟨by simp [Revents.Sound, hangup], 5, _, rfl⟩⟩) rfl
  have hr₅ := reach hr₄ (.handleEvent 0) (.handleEvent rfl rfl) rfl
  have hr₆ := reach hr₅ (.handle 0 .eof) (.handle rfl) rfl
  have hr₇ := reach hr₆ (.handled 0) (.handled rfl) rfl
  have hr₈ := reach hr₇ (.doPendingFunctors 0) (.doPendingFunctors ⟨rfl, rfl, rfl⟩) rfl
  have hr₉ := reach hr₈ (.call 0 false) (.call rfl) rfl
  -- The thread goes on.
  have hr₁₀ := reach hr₉ (.queue 1 .sending) (.queue (by decide) rfl) rfl
  have hr₁₁ := reach hr₁₀ (.drop 1) .drop rfl
  have hr₁₂ := reach hr₁₁ (.destroy 1) (.destroy rfl (by
    rintro (⟨name, hname⟩ | hheld | ⟨l, hs, hhandling⟩ | ⟨l, f, hf, -, howns⟩ | hmidway)
    · have herased : Function.update (Function.update (fun _ => none) (connName single 1) (some 1))
          (connName single 1) none name = some 1 := hname
      rw [Function.update_idem] at herased
      by_cases heq : name = connName single 1
      · rw [heq, Function.update_self] at herased
        cases herased
      · rw [Function.update_of_ne heq] at herased
        cases herased
    · cases hheld
    · cases l with
      | zero => cases hhandling
      | succ l => cases hhandling
    · cases l with
      | zero =>
        cases List.mem_singleton.mp hf
        cases howns
      | succ l => cases hf
    · exact hmidway rfl)) rfl
  have hr₁₃ := reach hr₁₂ (.doPendingFunctors 0) (.doPendingFunctors ⟨rfl, rfl, rfl⟩) rfl
  exact ⟨_, hr₁₃, call_gone rfl rfl⟩

end DictionaryServer.Muduo.TcpServer
