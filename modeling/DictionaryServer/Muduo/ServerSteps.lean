/-
What one step of a server keeps: its connections stay in their phases, but for
one at most, which goes on to a later phase.
-/
import DictionaryServer.Muduo.ServerLife

namespace DictionaryServer.Muduo.TcpServer

open Registry EPollPoller

variable {o : ServerOptions} {s s' s'' : TcpServer} {c c' : ConnId} {l : LoopId} {t : ServerConnection}
  {phase : ConnId → Phase} {ph : Phase} {f : ServerFunctor} {fs : List ServerFunctor}

/-- Each connection is in its phase, the pollers know what the phases say, and
no loop that runs functors has events left. -/
structure Inv (o : ServerOptions) (s : TcpServer) (phase : ConnId → Phase) : Prop where
  good : ∀ c, Good o s c (phase c)
  born : ∀ c : Nat, phase c = .unborn ↔ c = 0 ∨ s.nextConnId ≤ c
  named : ∀ name c, s.connections name = some c → name = connName o c
  first : 1 ≤ s.nextConnId
  next : s.next = if o.numThreads = 0 then 0 else (s.nextConnId - 1) % o.numThreads
  fds : ∀ c c' t t', s.conns c = some t → s.conns c' = some t' → t.channel.fd = t'.channel.fd → c = c'
  idle : ∀ l, s.calling l ≠ [] → s.active l = [] ∧ s.handling l = none
  pollers : Pollers s.conns phase s.poller

/-! ## What stays the same -/

namespace Same

theorem trans (h₁ : Same o s s' c) (h₂ : Same o s' s'' c) : Same o s s'' c where
  conn := h₂.conn.trans h₁.conn
  mapped := h₂.mapped.trans h₁.mapped
  tasks := h₂.tasks.trans h₁.tasks
  active := h₂.active.trans h₁.active
  handling := h₂.handling.trans h₁.handling
  held := h₂.held.trans h₁.held
  midway := h₂.midway.trans h₁.midway

theorem install (s : TcpServer) (t : ServerConnection) (p : EPollPoller ConnId) (hc : c' ≠ c) :
    Same o s (s.install c t p) c' :=
  ⟨Function.update_of_ne hc _ _, Iff.rfl, rfl, rfl, rfl, rfl, rfl⟩

theorem queueInLoop (s : TcpServer) (l : LoopId) (hc : f.conn ≠ c) : Same o s (s.queueInLoop l f) c := by
  refine ⟨rfl, Iff.rfl, ?_, rfl, rfl, rfl, rfl⟩
  funext l'
  rw [tasks_queueInLoop, if_neg fun h => hc h.1, List.append_nil]

theorem pop (hcalling : s.calling l = f :: fs) (hc : f.conn ≠ c) :
    Same o s (s.setCalling l fs) c := by
  refine ⟨rfl, Iff.rfl, ?_, rfl, rfl, rfl, rfl⟩
  funext l'
  rw [tasks_pop hcalling c l', if_neg fun h => hc h.1, List.nil_append]

theorem handle {next : Option (ConnId × List Handler)} (hbefore : ∀ hs, s.handling l ≠ some (c, hs))
    (hafter : ∀ hs, next ≠ some (c, hs)) : Same o s (s.setHandling l next) c := by
  refine ⟨rfl, Iff.rfl, rfl, rfl, ?_, rfl, rfl⟩
  have hnone : ∀ {p : Option (ConnId × List Handler)}, (∀ hs, p ≠ some (c, hs)) →
      (p.bind fun p => if p.1 = c then some p.2 else none) = none := by
    intro p hp
    cases p with
    | none => rfl
    | some p =>
      refine if_neg fun hc => hp p.2 ?_
      rw [← hc]
  funext l'
  by_cases hl : l' = l
  · subst hl
    simp only [handlingOf, setHandling, Function.update_self, hnone hbefore, hnone hafter]
  · simp only [handlingOf, setHandling, Function.update_of_ne hl]

theorem popActive {r : Ready} {rest : List Ready} (hactive : s.active l = r :: rest) (hc : readyConn r ≠ some c) :
    Same o s (s.setActive l rest) c := by
  refine ⟨rfl, Iff.rfl, rfl, ?_, rfl, rfl, rfl⟩
  funext l'
  by_cases hl : l' = l
  · subst hl
    simp only [activeOf, setActive, Function.update_self, hactive]
    cases r with
    | acceptor => rfl
    | connection c' r =>
      have hne : ¬c' = c := fun h => hc (congrArg some h)
      simp [eventOf, hne]
  · simp only [activeOf, setActive, Function.update_of_ne hl]

theorem erase {name : List Char} (hbefore : s.connections name ≠ some c) : Same o s (s.erase name) c := by
  refine ⟨rfl, ?_, rfl, rfl, rfl, rfl, rfl⟩
  by_cases hname : connName o c = name
  · rw [hname]
    simp only [TcpServer.erase, Function.update_self]
    exact iff_of_false nofun hbefore
  · simp only [TcpServer.erase, Function.update_of_ne hname]

theorem hold {b : Bool} (hc : c' ≠ c) : Same o s { s with held := Function.update s.held c b } c' :=
  ⟨rfl, Iff.rfl, rfl, rfl, rfl, Function.update_of_ne hc _ _, rfl⟩

theorem setMidway (s : TcpServer) (calls : List Midway) (hc : c' ≠ c) : Same o s (s.setMidway c calls) c' :=
  ⟨rfl, Iff.rfl, rfl, rfl, rfl, rfl, Function.update_of_ne hc _ _⟩

end Same

/-! ## What a phase says -/

namespace Good

theorem of_conn (h : Good o s c ph) (ht : s.conns c = some t) : ph.alive = true ∧ t.loop = loopOf o c ∧
    t.name = connName o c ∧ ph.HasState t.state ∧ (ph = .up → t.channel.events.read = true) := by
  have halive : ph.alive = true := by
    by_contra hdead
    rw [h.dead (by simpa using hdead)] at ht
    cases ht
  obtain ⟨t', ht', hconn⟩ := h.conn halive
  rw [ht] at ht'
  cases ht'
  exact ⟨halive, hconn⟩

theorem activeOf_nil (h : Good o s c ph) (hph : ph ≠ .up) (l : LoopId) : s.activeOf c l = [] :=
  List.eq_nil_iff_forall_not_mem.mpr fun r hr => hph (h.active l r hr).2.1

theorem handlingOf_none (h : Good o s c ph) (hph : ph ≠ .up) (hph' : ph ≠ .closed) (hph'' : ph ≠ .removed) (l : LoopId) :
    s.handlingOf c l = none := by
  cases hh : s.handlingOf c l with
  | none => rfl
  | some hs =>
    rcases (h.handling l hs hh).2.2 with ⟨hup, -⟩ | ⟨hclosed | hremoved, -⟩
    · exact absurd hup hph
    · exact absurd hclosed hph'
    · exact absurd hremoved hph''

theorem midway_nil (h : Good o s c ph) (hph : ph ≠ .up) : s.midway c = [] := by
  by_contra hne
  exact hph (h.midway hne)

theorem up_of_connected (h : Good o s c ph) (ht : s.conns c = some t) (hstate : t.state = .kConnected) : ph = .up := by
  have hhas := (h.of_conn ht).2.2.2.1
  rw [hstate] at hhas
  cases ph with
  | up => rfl
  | connecting | closed | removed | unregistered => cases hhas
  | unborn | destroyed => exact hhas.elim

/-- A connection no loop is at. -/
theorem of_quiet (hdead : ph.alive = false → s.conns c = none)
    (hconn : ph.alive = true → ∃ t, s.conns c = some t ∧ t.loop = loopOf o c ∧ t.name = connName o c ∧
      ph.HasState t.state ∧ (ph = .up → t.channel.events.read = true))
    (hmapped : s.connections (connName o c) = some c ↔ ph.mapped = true) (htasks : ph.Tasks (loopOf o c) (s.tasks c))
    (hactive : ∀ l, s.activeOf c l = []) (hhandling : ∀ l, s.handlingOf c l = none)
    (hheld : s.held c = true → ph.alive = true) (hmidway : s.midway c = []) : Good o s c ph where
  dead := hdead
  conn := hconn
  mapped := hmapped
  tasks := htasks
  active l r hr := by
    rw [hactive l] at hr
    cases hr
  once l := by
    rw [hactive l]
    exact Nat.zero_le _
  handling l hs hh := by
    rw [hhandling l] at hh
    cases hh
  held := hheld
  midway hne := absurd hmidway hne

/-- A connection that closed, or whose removal goes on. -/
theorem of_closed (h : Good o s c ph) {ph' : Phase} (hph' : ph' = .closed ∨ ph' = .removed) (hnil : ∀ l, s.activeOf c l = [])
    (hcount : ∀ l hs, s.handlingOf c l = some hs → hs.countP closing = 0)
    (hconn : ∃ t, s'.conns c = some t ∧ t.loop = loopOf o c ∧ t.name = connName o c ∧ t.state = .kDisconnected)
    (hmapped : s'.connections (connName o c) = some c ↔ ph'.mapped = true) (htasks : ph'.Tasks (loopOf o c) (s'.tasks c))
    (hactive : s'.activeOf c = s.activeOf c) (hhandling : s'.handlingOf c = s.handlingOf c)
    (hmidway : s'.midway c = []) : Good o s' c ph' where
  dead hdead := by
    rcases hph' with rfl | rfl <;> cases hdead
  conn _ := by
    obtain ⟨t, ht, hloop, hname, hstate⟩ := hconn
    refine ⟨t, ht, hloop, hname, ?_, ?_⟩
    · rcases hph' with rfl | rfl <;> exact hstate
    · rintro rfl
      rcases hph' with hph' | hph' <;> cases hph'
  mapped := hmapped
  tasks := htasks
  active l r hr := by
    rw [hactive, hnil l] at hr
    cases hr
  once l := by
    rw [hactive, hnil l]
    exact Nat.zero_le _
  handling l hs hh := by
    rw [hhandling] at hh
    rw [hactive]
    exact ⟨(h.handling l hs hh).1, hnil l, .inr ⟨hph', hcount l hs hh⟩⟩
  held _ := by
    rcases hph' with rfl | rfl <;> rfl
  midway hne := absurd hmidway hne

end Good

theorem idle_pop (hidle : ∀ l, s.calling l ≠ [] → s.active l = [] ∧ s.handling l = none) (hcalling : s.calling l = f :: fs)
    (l' : LoopId) (hl' : Function.update s.calling l fs l' ≠ []) : s.active l' = [] ∧ s.handling l' = none := by
  by_cases hll : l' = l
  · rw [hll]
    exact hidle l (by rw [hcalling]; exact List.cons_ne_nil _ _)
  · rw [Function.update_of_ne hll] at hl'
    exact hidle l' hl'

namespace Inv

/-- **A step changes one connection.** -/
theorem step (h : Inv o s phase) (hgood : Good o s' c ph) (hsame : ∀ c' ≠ c, Same o s s' c')
    (hborn : phase c ≠ .unborn ∧ ph ≠ .unborn) (hcount : s'.nextConnId = s.nextConnId ∧ s'.next = s.next)
    (hnamed : ∀ name c', s'.connections name = some c' → s.connections name = some c')
    (hfds : ∀ c' t', s'.conns c' = some t' → ∃ t, s.conns c' = some t ∧ t'.channel.fd = t.channel.fd)
    (hidle : ∀ l, s'.calling l ≠ [] → s'.active l = [] ∧ s'.handling l = none)
    (hpollers : Pollers s'.conns (Function.update phase c ph) s'.poller) : Inv o s' (Function.update phase c ph) where
  good c' := by
    by_cases hc : c' = c
    · rw [hc, Function.update_self]
      exact hgood
    · rw [Function.update_of_ne hc]
      exact (h.good c').frame (hsame c' hc)
  born c' := by
    rw [hcount.1]
    by_cases hc : c' = c
    · rw [hc, Function.update_self, ← h.born]
      exact iff_of_false hborn.2 hborn.1
    · rw [Function.update_of_ne hc, h.born]
  named name c' hc' := h.named name c' (hnamed name c' hc')
  first := by rw [hcount.1]; exact h.first
  next := by rw [hcount.1, hcount.2]; exact h.next
  fds c₁ c₂ t₁ t₂ h₁ h₂ heq := by
    obtain ⟨u₁, hu₁, hfd₁⟩ := hfds c₁ t₁ h₁
    obtain ⟨u₂, hu₂, hfd₂⟩ := hfds c₂ t₂ h₂
    exact h.fds c₁ c₂ u₁ u₂ hu₁ hu₂ (by rw [← hfd₁, ← hfd₂, heq])
  idle := hidle
  pollers := hpollers

theorem not_unborn (h : Inv o s phase) (ht : s.conns c = some t) : phase c ≠ .unborn := by
  intro hunborn
  have halive := ((h.good c).of_conn ht).1
  rw [hunborn] at halive
  cases halive

theorem fd_unique (h : Inv o s phase) (ht : s.conns c = some t) :
    ∀ c' t', s.conns c' = some t' → t'.channel.fd = t.channel.fd → c' = c :=
  fun c' t' ht' heq => h.fds c' c t' t ht' ht heq

theorem connections_eq (h : Inv o s phase) (hph : (phase c).mapped = true) : s.connections (connName o c) = some c :=
  (h.good c).mapped.mpr hph

/-! ## Handling an event -/

theorem handlingOf_self {hs : List Handler} (hhandling : s.handling l = some (c, hs)) : s.handlingOf c l = some hs := by
  rw [handlingOf, hhandling]
  exact if_pos rfl

theorem popHandler (h : Inv o s phase) {x : Handler} {hs : List Handler} (hhandling : s.handling l = some (c, x :: hs)) :
    Inv o (s.setHandling l (some (c, hs))) phase ∧ l = loopOf o c ∧
    s.activeOf c l = [] ∧ (phase c).alive = true ∧ (closing x = true → phase c = .up ∧ hs.countP closing = 0) ∧
    (phase c = .up ∨ phase c = .closed ∨ phase c = .removed) := by
  obtain ⟨hl, hactive, hcount⟩ := (h.good c).handling l _ (handlingOf_self hhandling)
  have hphase : phase c = .up ∨ phase c = .closed ∨ phase c = .removed := hcount.imp And.left And.left
  have hborn : phase c ≠ .unborn := by rcases hphase with hph | hph | hph <;> rw [hph] <;> decide
  have halive : (phase c).alive = true := by rcases hphase with hph | hph | hph <;> rw [hph] <;> rfl
  have hafter : phase c = .up ∧ hs.countP closing ≤ 1 ∨ (phase c = .closed ∨ phase c = .removed) ∧ hs.countP closing = 0 := by
    rw [List.countP_cons] at hcount
    rcases hcount with ⟨hph, hle⟩ | ⟨hph, hzero⟩
    · exact .inl ⟨hph, by omega⟩
    · exact .inr ⟨hph, by omega⟩
  have hgood := h.good c
  have hinv : Inv o (s.setHandling l (some (c, hs)))
      (Function.update phase c (phase c)) := by
    refine h.step (c := c) ⟨hgood.dead, hgood.conn, hgood.mapped, hgood.tasks, hgood.active, hgood.once, ?_, hgood.held, hgood.midway⟩
      (fun c' hc => Same.handle ?_ ?_) ⟨hborn, hborn⟩ ⟨rfl, rfl⟩ (fun _ _ hc' => hc') (fun c' t' ht' => ⟨t', ht', rfl⟩)
      (fun l' hl' => ?_) (by rw [Function.update_eq_self]; exact h.pollers)
    · intro l' hs' hh
      by_cases hl' : l' = l
      · subst hl'
        simp only [handlingOf, setHandling, Function.update_self, Option.bind_some, if_true, Option.some.injEq] at hh
        subst hh
        exact ⟨hl, hactive, hafter⟩
      · simp only [handlingOf, setHandling, Function.update_of_ne hl'] at hh
        exact hgood.handling l' hs' hh
    · intro hs' heq
      rw [hhandling] at heq
      cases heq
      exact hc rfl
    · intro hs' heq
      cases heq
      exact hc rfl
    · obtain ⟨hnil, hnone⟩ := h.idle l' hl'
      refine ⟨hnil, ?_⟩
      by_cases hll : l' = l
      · rw [hll, hhandling] at hnone
        cases hnone
      · simp only [setHandling, Function.update_of_ne hll]
        exact hnone
  rw [Function.update_eq_self] at hinv
  refine ⟨hinv, hl, hactive, halive, fun hx => ?_, hphase⟩
  rw [List.countP_cons, if_pos hx] at hcount
  rcases hcount with ⟨hph, hle⟩ | ⟨-, hzero⟩
  · exact ⟨hph, by omega⟩
  · omega

/-! ## The connection in its loop -/

theorem updateChannel_eq {events : Events} {p : EPollPoller ConnId} {channel : Channel} (ht : s.conns c = some t)
    (hupdate : (s.poller t.loop).updateChannel c { t.channel with events := events } = some (p, channel)) :
    s.updateChannel c events = some (s.install c { t with channel := channel } p) := by
  simp only [updateChannel, ht, hupdate, Option.bind_eq_bind, Option.bind_some, Option.pure_def]

/-- The connection has another state, and then its channel is updated. -/
theorem setState_updateChannel {events : Events} (state : StateE) {p : EPollPoller ConnId} {channel : Channel}
    (ht : s.conns c = some t)
    (hupdate : (s.poller t.loop).updateChannel c { t.channel with events := events } = some (p, channel)) :
    ((s.setState c state).bind fun s => s.updateChannel c events) =
      some (s.install c { t with state := state, channel := channel } p) := by
  have hput : (s.put c { t with state := state }).conns c = some { t with state := state } := Function.update_self _ _ _
  simp only [setState, ht, Option.bind_eq_bind, Option.bind_some, Option.pure_def]
  rw [updateChannel_eq hput hupdate]
  simp only [install, put, Function.update_idem]

theorem conns_install (s : TcpServer) (c : ConnId) (t : ServerConnection) (p : EPollPoller ConnId) :
    (s.install c t p).conns c = some t := Function.update_self _ _ _

theorem fds_install (ht : s.conns c = some t) {u : ServerConnection} (p : EPollPoller ConnId)
    (hfd : u.channel.fd = t.channel.fd) :
    ∀ c' t', (s.install c u p).conns c' = some t' → ∃ t, s.conns c' = some t ∧ t'.channel.fd = t.channel.fd := by
  intro c' t' ht'
  by_cases hc : c' = c
  · subst hc
    rw [conns_install] at ht'
    cases ht'
    exact ⟨t, ht, hfd⟩
  · rw [install] at ht'
    simp only [Function.update_of_ne hc] at ht'
    exact ⟨t', ht', rfl⟩

/-- A connection that is up watches for room to write, or no more. -/
theorem setWriting (h : Inv o s phase) (hph : phase c = .up) (ht : s.conns c = some t) (b : Bool) :
    ∃ s', s.updateChannel c { t.channel.events with write := b } = some s' ∧ Inv o s' phase := by
  have hgood := h.good c
  obtain ⟨-, hloop, hname, hstate, hread⟩ := hgood.of_conn ht
  have hsome : ({ t.channel.events with write := b } : Events) ≠ Events.kNoneEvent := by
    intro hnone
    have hfalse := congrArg Events.read hnone
    rw [show ({ t.channel.events with write := b } : Events).read = t.channel.events.read from rfl, hread hph] at hfalse
    cases hfalse
  obtain ⟨p, channel, hupdate, hfd, hevents, hpollers⟩ :=
    h.pollers.change ht hph (hread hph) (.inl ⟨hph, hsome⟩)
  refine ⟨_, updateChannel_eq ht hupdate, ?_⟩
  have hborn := h.not_unborn ht
  have hinv : Inv o (s.install c { t with channel := channel } p) (Function.update phase c (phase c)) := by
    refine h.step ⟨fun hdead => ?_, fun _ => ⟨_, conns_install _ _ _ _, hloop, hname, hstate, fun _ => ?_⟩, hgood.mapped,
        hgood.tasks, hgood.active, hgood.once, hgood.handling, hgood.held, hgood.midway⟩
      (fun c' hc => Same.install _ _ _ hc) ⟨hborn, hborn⟩ ⟨rfl, rfl⟩ (fun _ _ hc' => hc')
      (fds_install ht p hfd) h.idle (hpollers _ rfl rfl)
    · rw [hph] at hdead
      cases hdead
    · rw [show channel.events = _ from hevents]
      exact hread hph
  rwa [Function.update_eq_self] at hinv

theorem sendInLoop (h : Inv o s phase) (hph : phase c = .up ∨ phase c = .closed ∨ phase c = .removed) (stays : Bool) :
    ∃ s', s.sendInLoop (loopOf o c) c stays = some s' ∧ Inv o s' phase := by
  have hgood := h.good c
  have halive : (phase c).alive = true := by rcases hph with hph | hph | hph <;> rw [hph] <;> rfl
  obtain ⟨t, ht, hloop, -, hstate, -⟩ := hgood.conn halive
  simp only [TcpServer.sendInLoop, ht, guard_pos hloop, Option.bind_eq_bind, Option.bind_some, Option.pure_def]
  by_cases hdisconnected : t.state = .kDisconnected
  · exact ⟨s, if_pos hdisconnected, h⟩
  · have hup : phase c = .up := by
      refine hph.resolve_right fun hph => hdisconnected ?_
      rcases hph with hph | hph <;> rwa [hph] at hstate
    rw [if_neg hdisconnected]
    split
    · exact h.setWriting hup ht true
    · exact ⟨s, rfl, h⟩

theorem shutdownInLoop (h : Inv o s phase) (halive : (phase c).alive = true) :
    s.shutdownInLoop (loopOf o c) c = some s := by
  obtain ⟨t, ht, hloop, -⟩ := (h.good c).conn halive
  simp only [TcpServer.shutdownInLoop, ht, guard_pos hloop, Option.bind_eq_bind, Option.bind_some, Option.pure_def]

theorem connectEstablished_eq {p : EPollPoller ConnId} {channel : Channel} (ht : s.conns c = some t) (hl : t.loop = l)
    (hstate : t.state = .kConnecting) (hupdate : (s.poller t.loop).updateChannel c
      { t.channel with events := { t.channel.events with read := true } } = some (p, channel)) :
    s.connectEstablished l c =
      some (s.install c { t with state := .kConnected, channel := channel } p, [⟨l, c, .connection true⟩]) := by
  have hset := setState_updateChannel .kConnected ht hupdate
  simp only [TcpServer.connectEstablished, ht, guard_pos hl, guard_pos hstate, Option.bind_eq_bind, Option.bind_some,
    Option.pure_def]
  rw [← Option.bind_assoc, hset]
  simp only [Option.bind_some, connectionCallback, conns_install, Option.bind_eq_bind, Option.pure_def, decide_true]

theorem connectDestroyed_eq {p : EPollPoller ConnId} {channel : Channel} (ht : s.conns c = some t) (hl : t.loop = l)
    (hstate : t.state = .kDisconnected) (hnone : t.channel.isNoneEvent = true)
    (hremove : (s.poller t.loop).removeChannel c t.channel = some (p, channel)) :
    s.connectDestroyed l c = some (s.install c { t with channel := channel } p, []) := by
  have hdisconnected : t.state ≠ .kConnected := by
    rw [hstate]
    decide
  simp only [TcpServer.connectDestroyed, ht, guard_pos hl, if_neg hdisconnected, TcpServer.removeChannel, guard_pos hnone,
    hremove, Option.bind_eq_bind, Option.bind_some, Option.pure_def]

/-- `handleClose`, up to the callback that removes the connection. -/
theorem handleClose_eq {p : EPollPoller ConnId} {channel : Channel} (ht : s.conns c = some t) (hl : t.loop = l)
    (hstate : t.state = .kConnected ∨ t.state = .kDisconnecting)
    (hupdate : (s.poller t.loop).updateChannel c { t.channel with events := Events.kNoneEvent } = some (p, channel)) :
    s.handleClose l c =
      ((s.install c { t with state := .kDisconnected, channel := channel } p).removeConnection l c).map
        (·, [⟨l, c, .connection false⟩]) := by
  have hset := setState_updateChannel .kDisconnected ht hupdate
  simp only [TcpServer.handleClose, ht, guard_pos hl, guard_pos hstate, Option.bind_eq_bind, Option.bind_some,
    Option.pure_def]
  rw [← Option.bind_assoc, hset]
  simp only [Option.bind_some, connectionCallback, conns_install, Option.bind_eq_bind, Option.pure_def,
    show ¬(StateE.kDisconnected = StateE.kConnected) by decide, decide_false]
  rw [Option.map_eq_bind]
  rfl

theorem connectEstablished (h : Inv o s phase) (hcalling : s.calling l = ⟨c, .connectEstablished⟩ :: fs)
    (hph : phase c = .connecting) (hl : l = loopOf o c) (htasks : ∀ l',
      (s.setCalling l fs).tasks c l' = []) :
    ∃ s', (s.setCalling l fs).connectEstablished l c =
      some (s', [⟨l, c, .connection true⟩]) ∧ Inv o s' (Function.update phase c .up) := by
  have hgood := h.good c
  obtain ⟨t, ht, hloop, hname, hstate, -⟩ := hgood.conn (by rw [hph]; rfl)
  rw [hph] at hstate
  have hsome : ({ t.channel.events with read := true } : Events) ≠ Events.kNoneEvent := by
    intro hnone
    cases congrArg Events.read hnone
  obtain ⟨p, channel, hupdate, hfd, hevents, hpollers⟩ := h.pollers.enable ht hph (h.fd_unique ht) hsome
  refine ⟨(s.setCalling l fs).install c { t with state := .kConnected, channel := channel } p,
    ?_, ?_⟩
  · exact connectEstablished_eq (s := s.setCalling l fs) ht (hloop.trans hl.symm) hstate hupdate
  · have hquiet : phase c ≠ .up ∧ phase c ≠ .closed ∧ phase c ≠ .removed := by
      rw [hph]
      decide
    refine h.step (Good.of_quiet nofun
        (fun _ => ⟨_, conns_install _ _ _ _, hloop, hname, .inl rfl, fun _ => congrArg Events.read hevents⟩)
        (hgood.mapped.trans (by rw [hph]; rfl)) ⟨fun k hk => ?_, fun l' _ => htasks l'⟩
        (hgood.activeOf_nil hquiet.1) (hgood.handlingOf_none hquiet.1 hquiet.2.1 hquiet.2.2) (fun _ => rfl) (hgood.midway_nil hquiet.1))
      (fun c' hc => (Same.pop hcalling (Ne.symm hc)).trans (Same.install _ _ _ hc)) ⟨by rw [hph]; decide, by decide⟩
      ⟨rfl, rfl⟩ (fun _ _ hc' => hc') (fds_install ht p hfd) (idle_pop h.idle hcalling) (hpollers _ rfl rfl)
    have hnil : k ∈ ([] : List ServerCall) := htasks (loopOf o c) ▸ hk
    cases hnil

theorem removeConnectionInLoop_eq (ht : s.conns c = some t) (hmapped : s.connections t.name = some c) :
    s.removeConnectionInLoop 0 c = some
      ((s.erase t.name).queueInLoop t.loop ⟨c, .connectDestroyed⟩) := by
  have hsome : (s.connections t.name).isSome = true := by rw [hmapped]; rfl
  simp only [TcpServer.removeConnectionInLoop, guard, if_true, ht, hsome, Option.bind_eq_bind, Option.bind_some,
    Option.pure_def]

/-- Erasing the name erases this connection only. -/
theorem named_erase (name : List Char) (name' : List Char) (c' : ConnId)
    (h : Function.update s.connections name none name' = some c') : s.connections name' = some c' := by
  by_cases hname : name' = name
  · rw [hname, Function.update_self] at h
    cases h
  · rwa [Function.update_of_ne hname] at h

theorem removeConnectionInLoop (h : Inv o s phase) (hcalling : s.calling 0 = ⟨c, .removeConnectionInLoop⟩ :: fs)
    (hph : phase c = .closed) (hraw : Phase.Raw ((s.setCalling 0 fs).tasks c (loopOf o c)))
    (hnil : ∀ l' ≠ loopOf o c, (s.setCalling 0 fs).tasks c l' = []) :
    ∃ s', (s.setCalling 0 fs).removeConnectionInLoop 0 c = some s' ∧
      Inv o s' (Function.update phase c .removed) := by
  have hgood := h.good c
  obtain ⟨t, ht, hloop, hname, hstate, -⟩ := hgood.conn (by rw [hph]; rfl)
  rw [hph] at hstate
  have hmapped := h.connections_eq (c := c) (by rw [hph]; rfl)
  rw [← hname] at hmapped
  refine ⟨_, removeConnectionInLoop_eq (s := (s.setCalling 0 fs)) ht hmapped, ?_⟩
  refine h.step (hgood.of_closed (.inr rfl) (hgood.activeOf_nil (by rw [hph]; decide)) (fun l hs hh => ?_)
      ⟨t, ht, hloop, hname, hstate⟩ ?_ ⟨⟨_, hraw, ?_⟩, fun l' hl' => ?_⟩ rfl rfl
      (hgood.midway_nil (by rw [hph]; decide)))
    (fun c' hc => ?_) ⟨by rw [hph]; decide, by decide⟩ ⟨rfl, rfl⟩ (named_erase t.name) (fun c' t' ht' => ⟨t', ht', rfl⟩)
    (idle_pop h.idle hcalling) (h.pollers.rephase ht (by rw [hph]; rfl))
  · rcases ((hgood.handling l hs hh).2.2) with ⟨hup, -⟩ | ⟨-, hzero⟩
    · rw [hph] at hup
      cases hup
    · exact hzero
  · rw [← hname]
    refine iff_of_false (fun heq => ?_) nofun
    have hself : Function.update s.connections t.name none t.name = some c := heq
    rw [Function.update_self] at hself
    cases hself
  · rw [tasks_queueInLoop, if_pos ⟨rfl, hloop.symm⟩]
    rfl
  · rw [tasks_queueInLoop, if_neg fun heq => hl' (heq.2.trans hloop), List.append_nil]
    exact hnil l' hl'
  · refine ((Same.pop hcalling (Ne.symm hc)).trans (Same.erase fun heq => ?_)).trans (Same.queueInLoop _ _ (Ne.symm hc))
    exact hc (Option.some.inj (hmapped.symm.trans heq)).symm

theorem connectDestroyed (h : Inv o s phase) (hcalling : s.calling l = ⟨c, .connectDestroyed⟩ :: fs)
    (hph : phase c = .removed) (hl : l = loopOf o c) (htasks : ∀ l',
      (s.setCalling l fs).tasks c l' = []) :
    ∃ s', (s.setCalling l fs).connectDestroyed l c = some (s', []) ∧
      Inv o s' (Function.update phase c .unregistered) := by
  have hgood := h.good c
  obtain ⟨t, ht, hloop, hname, hstate, -⟩ := hgood.conn (by rw [hph]; rfl)
  rw [hph] at hstate
  obtain ⟨hnone, p, channel, hremove, hfd, hpollers⟩ := h.pollers.removeChannel ht hph
  have hidle := h.idle l (by rw [hcalling]; exact List.cons_ne_nil _ _)
  refine ⟨(s.setCalling l fs).install c { t with channel := channel } p, ?_, ?_⟩
  · exact connectDestroyed_eq (s := s.setCalling l fs) ht (hloop.trans hl.symm) hstate hnone hremove
  · refine h.step (Good.of_quiet nofun (fun _ => ⟨_, conns_install _ _ _ _, hloop, hname, hstate, nofun⟩)
        (hgood.mapped.trans (by rw [hph]; rfl)) htasks (hgood.activeOf_nil (by rw [hph]; decide)) (fun l' => ?_) (fun _ => rfl)
        (hgood.midway_nil (by rw [hph]; decide)))
      (fun c' hc => (Same.pop hcalling (Ne.symm hc)).trans (Same.install _ _ _ hc)) ⟨by rw [hph]; decide, by decide⟩
      ⟨rfl, rfl⟩ (fun _ _ hc' => hc') (fds_install ht p hfd) (idle_pop h.idle hcalling) (hpollers _ rfl rfl)
    -- Its loop is not handling an event of it: it is running this functor.
    cases hh : s.handlingOf c l' with
    | none => exact hh
    | some hs =>
      rw [(hgood.handling l' hs hh).1, ← hl, handlingOf, hidle.2] at hh
      cases hh

/-- `handleClose`, while no other event of the connection waits, and nobody else
is calling it. -/
theorem handleClose (h : Inv o s phase) (hph : phase c = .up) (hl : l = loopOf o c) (hnil : s.activeOf c l = [])
    (hcount : ∀ hs, s.handlingOf c l = some hs → hs.countP closing = 0) :
    ∃ s' ph, s.handleClose l c = some (s', [⟨l, c, .connection false⟩]) ∧ (ph = .closed ∨ ph = .removed) ∧
      (s.midway c = [] → Inv o s' (Function.update phase c ph)) := by
  have hgood := h.good c
  obtain ⟨t, ht, hloop, hname, hstate, hread⟩ := hgood.conn (by rw [hph]; rfl)
  rw [hph] at hstate
  have hactive : ∀ l', s.activeOf c l' = [] := by
    intro l'
    by_cases hll : l' = l
    · rw [hll, hnil]
    · exact List.eq_nil_iff_forall_not_mem.mpr fun r hr => hll ((hgood.active l' r hr).1.trans hl.symm)
  have hhandling : ∀ l' hs, s.handlingOf c l' = some hs → hs.countP closing = 0 := by
    intro l' hs hh
    rw [(hgood.handling l' hs hh).1, ← hl] at hh
    exact hcount hs hh
  have htasks := hgood.tasks
  rw [hph] at htasks
  obtain ⟨hraw, hothers⟩ := htasks
  have hmapped := h.connections_eq (c := c) (by rw [hph]; rfl)
  have hafter : ∀ ph', ph' = .closed ∨ ph' = .removed → ∃ p channel,
      (s.poller t.loop).updateChannel c { t.channel with events := Events.kNoneEvent } = some (p, channel) ∧
        channel.fd = t.channel.fd ∧ Pollers (s.install c { t with state := .kDisconnected, channel := channel } p).conns
          (Function.update phase c ph') (s.install c { t with state := .kDisconnected, channel := channel } p).poller := by
    intro ph' hph'
    obtain ⟨p, channel, hupdate, hfd, -, hpollers⟩ := h.pollers.change ht hph (hread hph) (.inr ⟨hph', rfl⟩)
    exact ⟨p, channel, hupdate, hfd, hpollers _ rfl rfl⟩
  have hself := fun p channel => conns_install s c { t with state := .kDisconnected, channel := channel } p
  by_cases hbase : l = 0
  · -- In the base loop the connection is removed at once.
    obtain ⟨p, channel, hupdate, hfd, hpollers⟩ := hafter .removed (.inr rfl)
    have hmapped' : (s.install c { t with state := .kDisconnected, channel := channel } p).connections t.name = some c := by
      rw [hname]
      exact hmapped
    refine ⟨((s.install c { t with state := .kDisconnected, channel := channel } p).erase t.name).queueInLoop t.loop
      ⟨c, .connectDestroyed⟩, .removed, ?_, .inr rfl, fun hmidway => ?_⟩
    · rw [handleClose_eq ht (hloop.trans hl.symm) hstate hupdate, removeConnection, if_pos hbase, hbase,
        removeConnectionInLoop_eq (hself p channel) hmapped']
      rfl
    · refine h.step (hgood.of_closed (.inr rfl) hactive hhandling ⟨_, hself p channel, hloop, hname, rfl⟩ ?_
          ⟨⟨_, hraw, ?_⟩, fun l' hl' => ?_⟩ rfl rfl hmidway)
        (fun c' hc => ?_) ⟨by rw [hph]; decide, by decide⟩ ⟨rfl, rfl⟩ (named_erase t.name) (fds_install ht p hfd) h.idle hpollers
      · refine iff_of_false (fun heq => ?_) nofun
        have herased : Function.update s.connections t.name none (connName o c) = some c := heq
        rw [← hname, Function.update_self] at herased
        cases herased
      · rw [tasks_queueInLoop, if_pos ⟨rfl, hloop.symm⟩]
        rfl
      · rw [tasks_queueInLoop, if_neg fun heq => hl' (heq.2.trans hloop), List.append_nil]
        exact hothers l' hl'
      · refine ((Same.install _ _ _ hc).trans (Same.erase fun heq => ?_)).trans (Same.queueInLoop _ _ (Ne.symm hc))
        exact hc (Option.some.inj (hmapped'.symm.trans heq)).symm
  · obtain ⟨p, channel, hupdate, hfd, hpollers⟩ := hafter .closed (.inl rfl)
    refine ⟨(s.install c { t with state := .kDisconnected, channel := channel } p).queueInLoop 0
      ⟨c, .removeConnectionInLoop⟩, .closed, ?_, .inl rfl, fun hmidway => ?_⟩
    · rw [handleClose_eq ht (hloop.trans hl.symm) hstate hupdate, removeConnection, if_neg hbase]
      rfl
    · have hown : loopOf o c ≠ 0 := fun hzero => hbase (hl.trans hzero)
      refine h.step (hgood.of_closed (.inl rfl) hactive hhandling ⟨_, hself p channel, hloop, hname, rfl⟩
          (iff_of_true hmapped rfl) ⟨hown, ?_, ?_, fun l' hl' hl0 => ?_⟩ rfl rfl hmidway)
        (fun c' hc => (Same.install _ _ _ hc).trans (Same.queueInLoop _ _ (Ne.symm hc))) ⟨by rw [hph]; decide, by decide⟩
        ⟨rfl, rfl⟩ (fun _ _ hc' => hc') (fds_install ht p hfd) h.idle hpollers
      · rw [tasks_queueInLoop, if_neg fun heq => hown heq.2, List.append_nil]
        exact hraw
      · rw [tasks_queueInLoop, if_pos ⟨rfl, rfl⟩]
        exact congrArg (· ++ [ServerCall.removeConnectionInLoop]) (hothers 0 (Ne.symm hown))
      · rw [tasks_queueInLoop, if_neg fun heq => hl0 heq.2, List.append_nil]
        exact hothers l' hl'

/-! ## Functors that have `this` alone -/

theorem popRaw (h : Inv o s phase) (hcalling : s.calling l = f :: fs)
    (hph : phase f.conn = .up ∨ phase f.conn = .closed ∨ phase f.conn = .removed)
    (htasks : (phase f.conn).Tasks (loopOf o f.conn) ((s.setCalling l fs).tasks f.conn)) : Inv o (s.setCalling l fs) phase := by
  have hgood := h.good f.conn
  have hborn : phase f.conn ≠ .unborn := by rcases hph with hph | hph | hph <;> rw [hph] <;> decide
  have hinv : Inv o (s.setCalling l fs) (Function.update phase f.conn (phase f.conn)) :=
    h.step ⟨hgood.dead, hgood.conn, hgood.mapped, htasks, hgood.active, hgood.once, hgood.handling, hgood.held, hgood.midway⟩
      (fun c' hc => Same.pop hcalling (Ne.symm hc)) ⟨hborn, hborn⟩ ⟨rfl, rfl⟩ (fun _ _ hc' => hc')
      (fun c' t' ht' => ⟨t', ht', rfl⟩) (idle_pop h.idle hcalling) (by rw [Function.update_eq_self]; exact h.pollers)
  rwa [Function.update_eq_self] at hinv

theorem queueRaw (h : Inv o s phase) (hph : phase c = .up) {k : ServerCall} (hk : k.owns = false) :
    Inv o (s.queueInLoop (loopOf o c) ⟨c, k⟩) phase := by
  have hgood := h.good c
  have htasks := hgood.tasks
  rw [hph] at htasks
  have hqueue : Phase.up.Tasks (loopOf o c) ((s.queueInLoop (loopOf o c) ⟨c, k⟩).tasks c) :=
    htasks.queueRaw hk fun l' => by simp only [tasks_queueInLoop, true_and]
  have hborn : phase c ≠ .unborn := by rw [hph]; decide
  have hinv : Inv o (s.queueInLoop (loopOf o c) ⟨c, k⟩) (Function.update phase c (phase c)) :=
    h.step ⟨hgood.dead, hgood.conn, hgood.mapped, by rw [hph]; exact hqueue, hgood.active, hgood.once, hgood.handling,
        hgood.held, hgood.midway⟩
      (fun c' hc => Same.queueInLoop _ _ (Ne.symm hc)) ⟨hborn, hborn⟩ ⟨rfl, rfl⟩ (fun _ _ hc' => hc')
      (fun c' t' ht' => ⟨t', ht', rfl⟩) h.idle (by rw [Function.update_eq_self]; exact h.pollers)
  rwa [Function.update_eq_self] at hinv

theorem setState (h : Inv o s phase) (hph : phase c = .up) :
    ∃ s', s.setState c .kDisconnecting = some s' ∧ Inv o s' phase := by
  have hgood := h.good c
  obtain ⟨t, ht, hloop, hname, -, hread⟩ := hgood.conn (by rw [hph]; rfl)
  have hborn : phase c ≠ .unborn := by rw [hph]; decide
  have hself : (s.put c { t with state := .kDisconnecting }).conns c = some { t with state := .kDisconnecting } :=
    Function.update_self _ _ _
  refine ⟨s.put c { t with state := .kDisconnecting }, ?_, ?_⟩
  · simp only [TcpServer.setState, ht, Option.bind_eq_bind, Option.bind_some, Option.pure_def]
  · have hinv : Inv o (s.put c { t with state := .kDisconnecting }) (Function.update phase c (phase c)) := by
      refine h.step ⟨fun hdead => ?_, fun _ => ⟨_, hself, hloop, hname, ?_, hread⟩, hgood.mapped, hgood.tasks,
          hgood.active, hgood.once, hgood.handling, hgood.held, hgood.midway⟩
        (fun c' hc => ⟨Function.update_of_ne hc _ _, Iff.rfl, rfl, rfl, rfl, rfl, rfl⟩) ⟨hborn, hborn⟩ ⟨rfl, rfl⟩
        (fun _ _ hc' => hc') (fun c' t' ht' => ?_) h.idle (h.pollers.keep ht rfl rfl rfl)
      · rw [hph] at hdead
        cases hdead
      · rw [hph]
        exact .inr rfl
      · by_cases hc : c' = c
        · subst hc
          rw [hself] at ht'
          cases ht'
          exact ⟨t, ht, rfl⟩
        · rw [put] at ht'
          simp only [Function.update_of_ne hc] at ht'
          exact ⟨t', ht', rfl⟩
    rwa [Function.update_eq_self] at hinv

/-- **`send` and `shutdown`** in the connection's own loop. -/
theorem request (h : Inv o s phase) (halive : (phase c).alive = true) (r : Request) :
    ∃ s', s.request c r = some s' ∧ Inv o s' phase := by
  have hgood := h.good c
  obtain ⟨t, ht, hloop, -⟩ := hgood.conn halive
  simp only [TcpServer.request, ht, hloop, Option.bind_eq_bind, Option.bind_some, Option.pure_def]
  by_cases hconnected : t.state = .kConnected
  · have hup := hgood.up_of_connected ht hconnected
    rw [if_pos hconnected]
    cases r with
    | send stays => exact h.sendInLoop (.inl hup) stays
    | shutdown =>
      obtain ⟨s₁, hset, h₁⟩ := h.setState hup
      simp only [hset, Option.bind_some]
      exact ⟨s₁, h₁.shutdownInLoop halive, h₁⟩
  · rw [if_neg hconnected]
    exact ⟨s, rfl, h⟩

/-! ## Calls of other threads -/

theorem setMidway (h : Inv o s phase) (hph : phase c = .up) (calls : List Midway) : Inv o (s.setMidway c calls) phase := by
  have hgood := h.good c
  have hborn : phase c ≠ .unborn := by rw [hph]; decide
  have hinv : Inv o (s.setMidway c calls) (Function.update phase c (phase c)) :=
    h.step ⟨hgood.dead, hgood.conn, hgood.mapped, hgood.tasks, hgood.active, hgood.once, hgood.handling, hgood.held,
        fun _ => hph⟩
      (fun c' hc => Same.setMidway _ _ hc) ⟨hborn, hborn⟩ ⟨rfl, rfl⟩ (fun _ _ hc' => hc')
      (fun c' t' ht' => ⟨t', ht', rfl⟩) h.idle (by rw [Function.update_eq_self]; exact h.pollers)
  rwa [Function.update_eq_self] at hinv

theorem test (h : Inv o s phase) (halive : (phase c).alive = true) (m : Midway) :
    ∃ s', s.test c m = some s' ∧ Inv o s' phase := by
  obtain ⟨t, ht, -⟩ := (h.good c).conn halive
  simp only [TcpServer.test, ht, Option.bind_eq_bind, Option.bind_some, Option.pure_def]
  by_cases hconnected : t.state = .kConnected
  · rw [if_pos hconnected]
    exact ⟨_, rfl, h.setMidway ((h.good c).up_of_connected ht hconnected) _⟩
  · rw [if_neg hconnected]
    exact ⟨s, rfl, h⟩

theorem setDisconnecting (h : Inv o s phase) (hph : phase c = .up) :
    ∃ s', s.setDisconnecting c = some s' ∧ Inv o s' phase := by
  obtain ⟨s₁, hset, h₁⟩ := h.setState hph
  refine ⟨_, ?_, h₁.setMidway hph (.closing :: (s₁.midway c).erase .shutting)⟩
  simp only [TcpServer.setDisconnecting, hset, Option.bind_eq_bind, Option.bind_some, Option.pure_def]

theorem queue (h : Inv o s phase) (hph : phase c = .up) {m : Midway} {call : ServerCall} (hcall : m.queues = some call) :
    ∃ s', s.queue c m call = some s' ∧ Inv o s' phase := by
  obtain ⟨t, ht, hloop, -⟩ := (h.good c).conn (by rw [hph]; rfl)
  have howns : call.owns = false := by
    cases m <;> cases hcall <;> rfl
  refine ⟨_, ?_, (h.setMidway hph ((s.midway c).erase m)).queueRaw hph howns⟩
  simp only [TcpServer.queue, ht, hloop, Option.bind_eq_bind, Option.bind_some, Option.pure_def]

end Inv

end DictionaryServer.Muduo.TcpServer
