/-
The life of a server's connections: what holds between any two steps.

Each connection is in one phase at a time. The phase says which state it has,
whether the server's map has it, what its poller knows of it, and which functors
wait for it. What wakes up a connection is used up by it: at any time one functor
at most will move it on.
-/
import DictionaryServer.Muduo.TcpServer

namespace DictionaryServer.Muduo

namespace EPollPoller

open Registry

variable {κ : Type} [DecidableEq κ] {fd : κ → Nat} {reg : Registry κ} {p : EPollPoller κ} {channel : κ → Channel} {k : κ}

/-- What a channel is that the poller does not know does not matter. -/
theorem Tracks.absent (h : Tracks fd reg p channel) (hk : present (reg k) = false) {f : Nat} {r : Registered} {c : Channel}
    (hr : present r = false) (hdesc : c.fd = f) (hindex : c.index = kNew) :
    Tracks (Function.update fd k f) (Function.update reg k r) p (Function.update channel k c) where
  desc k' := by
    by_cases hkk : k' = k
    · rw [hkk, Function.update_self, Function.update_self, hdesc]
    · rw [Function.update_of_ne hkk, Function.update_of_ne hkk, h.desc]
  index k' := by
    by_cases hkk : k' = k
    · rw [hkk, Function.update_self, Function.update_self, hindex]
      cases r with
      | «with» e m => cases hr
      | no | gone => rfl
    · rw [Function.update_of_ne hkk, Function.update_of_ne hkk, h.index]
  events k' e m hk' := by
    by_cases hkk : k' = k
    · rw [hkk, Function.update_self] at hk'
      rw [hk'] at hr
      cases hr
    · rw [Function.update_of_ne hkk] at hk' ⊢
      exact h.events k' e m hk'
  channels f' k' := by
    by_cases hkk : k' = k
    · rw [hkk, Function.update_self, Function.update_self, h.channels]
      simp [hk, hr]
    · rw [Function.update_of_ne hkk, Function.update_of_ne hkk, h.channels]
  interest f' k' e := by
    by_cases hkk : k' = k
    · rw [hkk, Function.update_self, Function.update_self, h.interest]
      have hnone : watched (reg k) ≠ some e := fun hw => by rw [present_of_watched hw] at hk; cases hk
      have hnone' : watched r ≠ some e := fun hw => by rw [present_of_watched hw] at hr; cases hr
      simp [hnone, hnone']
    · rw [Function.update_of_ne hkk, Function.update_of_ne hkk, h.interest]

/-- What `updateChannel` does for a channel, the others being as they are. -/
theorem Tracks.updateChannel (h : Tracks fd reg p channel) {events : Events} (hallows : Allows fd reg (.update k events)) :
    ∃ p' c, p.updateChannel k { channel k with events := events } = some (p', c) ∧
      Tracks fd (reg.apply (.update k events)) p' (Function.update channel k c) := by
  obtain ⟨s', hexec, htracks⟩ := exec_tracks h hallows
  obtain ⟨⟨p', c⟩, hupdate, hs'⟩ := Option.bind_eq_some_iff.mp hexec
  cases hs'
  exact ⟨p', c, hupdate, htracks⟩

theorem Tracks.removeChannel (h : Tracks fd reg p channel) (hallows : Allows fd reg (.remove k)) :
    ∃ p' c, p.removeChannel k (channel k) = some (p', c) ∧
      Tracks fd (reg.apply (.remove k)) p' (Function.update channel k c) := by
  obtain ⟨s', hexec, htracks⟩ := exec_tracks h hallows
  obtain ⟨⟨p', c⟩, hremove, hs'⟩ := Option.bind_eq_some_iff.mp hexec
  cases hs'
  exact ⟨p', c, hremove, htracks⟩

end EPollPoller

namespace TcpServer

open Registry EPollPoller

inductive Phase
  | unborn
  /-- `connectEstablished` is queued. -/
  | connecting
  | up
  /-- `removeConnectionInLoop` is queued. -/
  | closed
  /-- `connectDestroyed` is queued. -/
  | removed
  | unregistered
  | destroyed
  deriving DecidableEq

namespace Phase

def alive : Phase → Bool
  | .unborn | .destroyed => false
  | .connecting | .up | .closed | .removed | .unregistered => true

/-- In `connections_`. -/
def mapped : Phase → Bool
  | .connecting | .up | .closed => true
  | .unborn | .removed | .unregistered | .destroyed => false

def HasState (state : StateE) : Phase → Prop
  | .connecting => state = .kConnecting
  | .up => state = .kConnected ∨ state = .kDisconnecting
  | .closed | .removed | .unregistered => state = .kDisconnected
  | .unborn | .destroyed => False

/-- What the poller knows. -/
def standing (events : Events) : Phase → Registered
  | .up => .with events false
  | .closed | .removed => .with Events.kNoneEvent true
  | .unregistered => .gone
  | .unborn | .connecting | .destroyed => .no

/-- Functors that have `this` alone. -/
def Raw (calls : List ServerCall) : Prop := ∀ k ∈ calls, k.owns = false

/-- The calls queued for a connection of the loop `own`, by loop. -/
def Tasks (own : LoopId) (tasks : LoopId → List ServerCall) : Phase → Prop
  | .connecting => own ≠ 0 ∧ tasks own = [.connectEstablished] ∧ ∀ l ≠ own, tasks l = []
  | .up => Raw (tasks own) ∧ ∀ l ≠ own, tasks l = []
  | .closed => own ≠ 0 ∧ Raw (tasks own) ∧ tasks 0 = [.removeConnectionInLoop] ∧ ∀ l ≠ own, l ≠ 0 → tasks l = []
  | .removed => (∃ raws, Raw raws ∧ tasks own = raws ++ [.connectDestroyed]) ∧ ∀ l ≠ own, tasks l = []
  | .unborn | .unregistered | .destroyed => ∀ l, tasks l = []

end Phase

/-- The calls queued for a connection in a loop. -/
def tasks (s : TcpServer) (c : ConnId) (l : LoopId) : List ServerCall :=
  (s.calling l ++ s.pendingFunctors l).filterMap fun f => if f.conn = c then some f.call else none

def eventOf (c : ConnId) : Ready → Option Revents
  | .acceptor => none
  | .connection c' r => if c' = c then some r else none

/-- Its events still to be handled. -/
def activeOf (s : TcpServer) (c : ConnId) (l : LoopId) : List Revents := (s.active l).filterMap (eventOf c)

/-- Its callbacks still to come. -/
def handlingOf (s : TcpServer) (c : ConnId) (l : LoopId) : Option (List Handler) :=
  (s.handling l).bind fun p => if p.1 = c then some p.2 else none

/-- Callbacks that can close. -/
def closing (h : Handler) : Bool := h = .close ∨ h = .read

/-- The loops of the pool, in turn. -/
def loopOf (o : ServerOptions) (c : ConnId) : LoopId :=
  if o.numThreads = 0 then 0 else (c - 1) % o.numThreads + 1

/-- A connection, in its phase. -/
structure Good (o : ServerOptions) (s : TcpServer) (c : ConnId) (ph : Phase) : Prop where
  dead : ph.alive = false → s.conns c = none
  conn : ph.alive = true → ∃ t, s.conns c = some t ∧ t.loop = loopOf o c ∧ t.name = connName o c ∧ ph.HasState t.state ∧
    (ph = .up → t.channel.events.read = true)
  mapped : s.connections (connName o c) = some c ↔ ph.mapped = true
  tasks : ph.Tasks (loopOf o c) (s.tasks c)
  active : ∀ l, ∀ r ∈ s.activeOf c l, l = loopOf o c ∧ ph = .up ∧ r.Sound
  once : ∀ l, (s.activeOf c l).length ≤ 1
  handling : ∀ l hs, s.handlingOf c l = some hs → l = loopOf o c ∧ s.activeOf c l = [] ∧
    (ph = .up ∧ hs.countP closing ≤ 1 ∨ (ph = .closed ∨ ph = .removed) ∧ hs.countP closing = 0)
  held : s.held c = true → ph.alive = true
  midway : s.midway c ≠ [] → ph = .up

/-- Nothing about the connection is changed. -/
structure Same (o : ServerOptions) (s s' : TcpServer) (c : ConnId) : Prop where
  conn : s'.conns c = s.conns c
  mapped : s'.connections (connName o c) = some c ↔ s.connections (connName o c) = some c
  tasks : s'.tasks c = s.tasks c
  active : s'.activeOf c = s.activeOf c
  handling : s'.handlingOf c = s.handlingOf c
  held : s'.held c = s.held c
  midway : s'.midway c = s.midway c

theorem Good.frame {o : ServerOptions} {s s' : TcpServer} {c : ConnId} {ph : Phase} (h : Good o s c ph) (hsame : Same o s s' c) :
    Good o s' c ph where
  dead := by rw [hsame.conn]; exact h.dead
  conn := by rw [hsame.conn]; exact h.conn
  mapped := hsame.mapped.trans h.mapped
  tasks := by rw [hsame.tasks]; exact h.tasks
  active := by rw [hsame.active]; exact h.active
  once := by rw [hsame.active]; exact h.once
  handling := by rw [hsame.handling, hsame.active]; exact h.handling
  held := by rw [hsame.held]; exact h.held
  midway := by rw [hsame.midway]; exact h.midway

/-! ## The pollers -/

section Pollers

variable (conns : ConnId → Option ServerConnection)

def fdOf (c : ConnId) : Nat :=
  match conns c with
  | some t => t.channel.fd
  | none => 0

/-- The channel, as the poller of a loop sees it. -/
def chan (l : LoopId) (c : ConnId) : Channel :=
  match conns c with
  | some t => if t.loop = l then t.channel else ⟨t.channel.fd, Events.kNoneEvent, kNew⟩
  | none => ⟨0, Events.kNoneEvent, kNew⟩

def reg (phase : ConnId → Phase) (l : LoopId) : Registry ConnId := fun c =>
  match conns c with
  | some t => if t.loop = l then (phase c).standing t.channel.events else .no
  | none => .no

/-- Every poller knows what the phases say. -/
def Pollers (phase : ConnId → Phase) (poller : LoopId → EPollPoller ConnId) : Prop :=
  ∀ l, Tracks (fdOf conns) (reg conns phase l) (poller l) (chan conns l)

variable {conns} {c : ConnId} {t t' : ServerConnection} {phase : ConnId → Phase} {poller : LoopId → EPollPoller ConnId}
  {ph : Phase} {l : LoopId}

theorem fdOf_put (ht : conns c = some t) (hfd : t'.channel.fd = t.channel.fd) :
    fdOf (Function.update conns c (some t')) = fdOf conns := by
  funext c'
  by_cases hc : c' = c
  · subst hc
    simp [fdOf, ht, hfd]
  · simp [fdOf, hc]

theorem chan_put : chan (Function.update conns c (some t')) t'.loop = Function.update (chan conns t'.loop) c t'.channel := by
  funext c'
  by_cases hc : c' = c
  · subst hc
    simp [chan]
  · simp [chan, hc]

theorem chan_put_other (ht : conns c = some t) (hfd : t'.channel.fd = t.channel.fd) (hl : t.loop ≠ l) (hl' : t'.loop ≠ l) :
    chan (Function.update conns c (some t')) l = chan conns l := by
  funext c'
  by_cases hc : c' = c
  · subst hc
    simp [chan, ht, hl, hl', hfd]
  · simp [chan, hc]

theorem reg_put : reg (Function.update conns c (some t')) (Function.update phase c ph) t'.loop =
    Function.update (reg conns phase t'.loop) c (ph.standing t'.channel.events) := by
  funext c'
  by_cases hc : c' = c
  · subst hc
    simp [reg]
  · simp [reg, hc]

theorem reg_put_other (ht : conns c = some t) (hl : t.loop ≠ l) (hl' : t'.loop ≠ l) :
    reg (Function.update conns c (some t')) (Function.update phase c ph) l = reg conns phase l := by
  funext c'
  by_cases hc : c' = c
  · subst hc
    simp [reg, ht, hl, hl']
  · simp [reg, hc]

theorem Pollers.put (h : Pollers conns phase poller) (ht : conns c = some t) (hloop : t'.loop = t.loop)
    (hfd : t'.channel.fd = t.channel.fd) {p : EPollPoller ConnId}
    (htracks : Tracks (fdOf conns) (Function.update (reg conns phase t.loop) c (ph.standing t'.channel.events)) p
      (Function.update (chan conns t.loop) c t'.channel)) :
    Pollers (Function.update conns c (some t')) (Function.update phase c ph) (Function.update poller t.loop p) := by
  intro l
  rw [fdOf_put ht hfd]
  by_cases hl : l = t.loop
  · rw [hl, Function.update_self, ← hloop, reg_put, chan_put, hloop]
    exact htracks
  · rw [Function.update_of_ne hl, reg_put_other ht (Ne.symm hl) (by rw [hloop]; exact Ne.symm hl),
      chan_put_other ht hfd (Ne.symm hl) (by rw [hloop]; exact Ne.symm hl)]
    exact h l

/-- One connection changes in what no poller sees. -/
theorem Pollers.keep (h : Pollers conns phase poller) (ht : conns c = some t) (hloop : t'.loop = t.loop)
    (hchannel : t'.channel = t.channel) (hstanding : ph.standing t.channel.events = (phase c).standing t.channel.events) :
    Pollers (Function.update conns c (some t')) (Function.update phase c ph) poller := by
  have htracks : Tracks (fdOf conns) (Function.update (reg conns phase t.loop) c (ph.standing t'.channel.events)) (poller t.loop)
      (Function.update (chan conns t.loop) c t'.channel) := by
    have hreg : reg conns phase t.loop c = ph.standing t'.channel.events := by
      simp [reg, ht, hchannel, hstanding]
    have hchan : chan conns t.loop c = t'.channel := by
      simp [chan, ht, hchannel]
    rw [← hreg, ← hchan, Function.update_eq_self, Function.update_eq_self]
    exact h t.loop
  have hput := h.put ht hloop (by rw [hchannel]) htracks
  rwa [Function.update_eq_self] at hput

/-- The poller does not see the phase change. -/
theorem Pollers.rephase (h : Pollers conns phase poller) (ht : conns c = some t)
    (hstanding : ph.standing t.channel.events = (phase c).standing t.channel.events) :
    Pollers conns (Function.update phase c ph) poller := by
  have hsame : Function.update conns c (some t) = conns := Function.update_eq_self_iff.mpr ht.symm
  have hkeep := h.keep ht rfl rfl hstanding
  rwa [hsame] at hkeep

/-- A connection nobody knows comes or goes. -/
theorem Pollers.absent (h : Pollers conns phase poller) (hreg : ∀ l, present (reg conns phase l c) = false)
    {r : Option ServerConnection}
    (hr : ∀ t, r = some t → present (ph.standing t.channel.events) = false ∧ t.channel.index = kNew) :
    Pollers (Function.update conns c r) (Function.update phase c ph) poller := by
  intro l
  have hfd : fdOf (Function.update conns c r) = Function.update (fdOf conns) c (fdOf (fun _ => r) c) := by
    funext c'
    by_cases hc : c' = c
    · subst hc
      simp [fdOf]
    · simp [fdOf, hc]
  have hchan : chan (Function.update conns c r) l = Function.update (chan conns l) c (chan (fun _ => r) l c) := by
    funext c'
    by_cases hc : c' = c
    · subst hc
      simp [chan]
    · simp [chan, hc]
  have hreg' : reg (Function.update conns c r) (Function.update phase c ph) l =
      Function.update (reg conns phase l) c (reg (fun _ => r) (fun _ => ph) l c) := by
    funext c'
    by_cases hc : c' = c
    · subst hc
      simp [reg]
    · simp [reg, hc]
  rw [hfd, hchan, hreg']
  refine (h l).absent (hreg l) ?_ ?_ ?_
  · cases r with
    | none => rfl
    | some t =>
      simp only [reg]
      split
      · exact (hr t rfl).1
      · rfl
  · cases r with
    | none => rfl
    | some t =>
      simp only [chan, fdOf]
      split <;> rfl
  · cases r with
    | none => rfl
    | some t =>
      simp only [chan]
      split
      · exact (hr t rfl).2
      · rfl

theorem reg_self (ht : conns c = some t) : reg conns phase t.loop c = (phase c).standing t.channel.events := by
  simp [reg, ht]

theorem chan_self (ht : conns c = some t) : chan conns t.loop c = t.channel := by
  simp [chan, ht]

/-- The channel is updated, as its owner may. -/
theorem Pollers.updateChannel (h : Pollers conns phase poller) (ht : conns c = some t) {events : Events} {muted : Bool}
    (hallows : Allows (fdOf conns) (reg conns phase t.loop) (.update c events))
    (happly : (reg conns phase t.loop).apply (.update c events) = Function.update (reg conns phase t.loop) c (ph.standing events))
    (hstanding : ph.standing events = .with events muted) :
    ∃ p ch, (poller t.loop).updateChannel c { t.channel with events := events } = some (p, ch) ∧
      ch.fd = t.channel.fd ∧ ch.events = events ∧
      ∀ t', t'.loop = t.loop → t'.channel = ch →
        Pollers (Function.update conns c (some t')) (Function.update phase c ph) (Function.update poller t.loop p) := by
  obtain ⟨p, ch, hupdate, htracks⟩ := (h t.loop).updateChannel hallows
  rw [chan_self ht] at hupdate
  rw [happly] at htracks
  have hfd : ch.fd = t.channel.fd := by
    have hdesc := htracks.desc c
    rw [Function.update_self] at hdesc
    rw [hdesc, fdOf, ht]
  have hevents : ch.events = events := by
    have hself := htracks.events c events muted (by rw [Function.update_self, hstanding])
    rwa [Function.update_self] at hself
  refine ⟨p, ch, hupdate, hfd, hevents, fun t' hloop hchannel => h.put ht hloop (by rw [hchannel, hfd]) ?_⟩
  rw [hchannel, hevents]
  exact htracks

theorem Pollers.enable (h : Pollers conns phase poller) (ht : conns c = some t) (hph : phase c = .connecting)
    (hfds : ∀ c' t', conns c' = some t' → t'.channel.fd = t.channel.fd → c' = c) {events : Events}
    (hsome : events ≠ Events.kNoneEvent) :
    ∃ p ch, (poller t.loop).updateChannel c { t.channel with events := events } = some (p, ch) ∧
      ch.fd = t.channel.fd ∧ ch.events = events ∧
      ∀ t', t'.loop = t.loop → t'.channel = ch →
        Pollers (Function.update conns c (some t')) (Function.update phase c .up) (Function.update poller t.loop p) := by
  have hreg : reg conns phase t.loop c = .no := by
    rw [reg_self ht, hph]
    rfl
  refine h.updateChannel ht ?_ (by rw [Registry.apply, hreg]; rfl) rfl
  simp only [Allows, hreg]
  refine ⟨hsome, fun c' hc' heq => ?_⟩
  cases ht' : conns c' with
  | none =>
    rw [reg, ht'] at hc'
    cases hc'
  | some t' =>
    have hc : c' = c := hfds c' t' ht' (by rw [fdOf, ht', fdOf, ht] at heq; exact heq)
    rw [hc, hreg] at hc'
    cases hc'

theorem Pollers.change (h : Pollers conns phase poller) (ht : conns c = some t) (hph : phase c = .up)
    (hread : t.channel.events.read = true) {events : Events}
    (hafter : ph = .up ∧ events ≠ Events.kNoneEvent ∨ (ph = .closed ∨ ph = .removed) ∧ events = Events.kNoneEvent) :
    ∃ p ch, (poller t.loop).updateChannel c { t.channel with events := events } = some (p, ch) ∧
      ch.fd = t.channel.fd ∧ ch.events = events ∧
      ∀ t', t'.loop = t.loop → t'.channel = ch →
        Pollers (Function.update conns c (some t')) (Function.update phase c ph) (Function.update poller t.loop p) := by
  have hreg : reg conns phase t.loop c = .with t.channel.events false := by
    rw [reg_self ht, hph]
    rfl
  have hbefore : t.channel.events ≠ Events.kNoneEvent := by
    intro hnone
    rw [hnone] at hread
    cases hread
  have hallows : Allows (fdOf conns) (reg conns phase t.loop) (.update c events) := by
    simp only [Allows, hreg]
    exact .inl hbefore
  rcases hafter with ⟨rfl, hsome⟩ | ⟨rfl | rfl, rfl⟩
  · refine h.updateChannel ht hallows ?_ rfl
    rw [Registry.apply, hreg]
    simp [hsome, Phase.standing]
  all_goals
    refine h.updateChannel ht hallows ?_ rfl
    rw [Registry.apply, hreg]
    simp [Phase.standing]

/-- A connection that has closed has no events. -/
theorem Pollers.silent (h : Pollers conns phase poller) (ht : conns c = some t) (hph : phase c = .closed ∨ phase c = .removed) :
    t.channel.events = Events.kNoneEvent := by
  have hreg : reg conns phase t.loop c = .with Events.kNoneEvent true := by
    rw [reg_self ht]
    rcases hph with hph | hph <;> rw [hph] <;> rfl
  have hevents := (h t.loop).events c _ _ hreg
  rwa [chan_self ht] at hevents

theorem Pollers.removeChannel (h : Pollers conns phase poller) (ht : conns c = some t) (hph : phase c = .removed) :
    t.channel.isNoneEvent = true ∧
    ∃ p ch, (poller t.loop).removeChannel c t.channel = some (p, ch) ∧ ch.fd = t.channel.fd ∧
      ∀ t', t'.loop = t.loop → t'.channel = ch →
        Pollers (Function.update conns c (some t')) (Function.update phase c .unregistered) (Function.update poller t.loop p) := by
  have hreg : reg conns phase t.loop c = .with Events.kNoneEvent true := by
    rw [reg_self ht, hph]
    rfl
  have hnone := h.silent ht (.inr hph)
  obtain ⟨p, ch, hremove, htracks⟩ := (h t.loop).removeChannel (k := c) ⟨true, hreg⟩
  rw [chan_self ht] at hremove
  have hfd : ch.fd = t.channel.fd := by
    have hdesc := htracks.desc c
    rw [Function.update_self] at hdesc
    rw [hdesc, fdOf, ht]
  refine ⟨decide_eq_true hnone, p, ch, hremove, hfd, fun t' hloop hchannel => h.put ht hloop (by rw [hchannel, hfd]) ?_⟩
  rw [hchannel]
  exact htracks

theorem Pollers.found (h : Pollers conns phase poller) (ht : conns c = some t) (hph : phase c = .up) :
    (poller t.loop).channels_ t.channel.fd = some c := by
  have hself := (h t.loop).channels.self (k := c) (by rw [reg_self ht, hph]; rfl)
  rwa [fdOf, ht] at hself

/-- What a poller reports is a connection of its loop that is up. -/
theorem Pollers.reported (h : Pollers conns phase poller) {fd : Nat} {events : Events}
    (hinterest : (poller l).interest fd = some (c, events)) :
    ∃ t, conns c = some t ∧ t.loop = l ∧ phase c = .up ∧ t.channel.fd = fd ∧ t.channel.events = events := by
  obtain ⟨hwatched, hfd⟩ := ((h l).interest fd c events).mp hinterest
  cases ht : conns c with
  | none =>
    rw [reg, ht] at hwatched
    cases hwatched
  | some t =>
    rw [reg, ht] at hwatched
    rw [fdOf, ht] at hfd
    by_cases hl : t.loop = l
    · simp only [hl, if_true] at hwatched
      cases hph : phase c with
      | up =>
        rw [hph, Phase.standing, watched] at hwatched
        split at hwatched
        · cases hwatched
        · exact ⟨t, rfl, hl, rfl, hfd, Option.some.inj hwatched⟩
      | closed =>
        rw [hph] at hwatched
        cases hwatched
      | removed =>
        rw [hph] at hwatched
        cases hwatched
      | unborn | connecting | unregistered | destroyed =>
        rw [hph] at hwatched
        cases hwatched
    · simp only [hl, if_false] at hwatched
      cases hwatched

end Pollers

/-! ## The functors -/

section Tasks

variable {s : TcpServer} {c : ConnId} {l : LoopId}

theorem tasks_queueInLoop (s : TcpServer) (l : LoopId) (f : ServerFunctor) (c : ConnId) (l' : LoopId) :
    (s.queueInLoop l f).tasks c l' = s.tasks c l' ++ if f.conn = c ∧ l' = l then [f.call] else [] := by
  by_cases hl : l' = l
  · subst hl
    simp only [tasks, queueInLoop, Function.update_self, ← List.append_assoc, List.filterMap_append, and_true]
    by_cases hf : f.conn = c <;> simp [hf]
  · simp [tasks, queueInLoop, hl]

theorem tasks_pop {f : ServerFunctor} {fs : List ServerFunctor} (hcalling : s.calling l = f :: fs) (c : ConnId) (l' : LoopId) :
    s.tasks c l' = (if f.conn = c ∧ l' = l then [f.call] else []) ++
      (s.setCalling l fs).tasks c l' := by
  by_cases hl : l' = l
  · subst hl
    simp only [tasks, setCalling, hcalling, Function.update_self, and_true]
    by_cases hf : f.conn = c <;> simp [hf]
  · simp [tasks, setCalling, hl]

theorem tasks_swap (hcalling : s.calling l = []) : (s.swapFunctors l).tasks = s.tasks := by
  funext c l'
  by_cases hl : l' = l
  · subst hl
    simp [tasks, swapFunctors, hcalling]
  · simp [tasks, swapFunctors, hl]

theorem mem_tasks {k : ServerCall} : k ∈ s.tasks c l ↔ ⟨c, k⟩ ∈ s.calling l ++ s.pendingFunctors l := by
  rw [tasks, List.mem_filterMap]
  constructor
  · rintro ⟨f, hf, hk⟩
    split at hk
    · cases hk
      subst_vars
      exact hf
    · cases hk
  · intro h
    exact ⟨⟨c, k⟩, h, if_pos rfl⟩

namespace Phase

variable {own : LoopId} {T T' : LoopId → List ServerCall} {ph : Phase} {k : ServerCall}

theorem Tasks.queueRaw (h : Phase.up.Tasks own T) (hk : k.owns = false)
    (hT : ∀ l, T' l = T l ++ if l = own then [k] else []) : Phase.up.Tasks own T' := by
  refine ⟨?_, fun l hl => ?_⟩
  · rw [hT, if_pos rfl]
    intro k' hk'
    rcases List.mem_append.mp hk' with hk' | hk'
    · exact h.1 k' hk'
    · rw [List.mem_singleton.mp hk', hk]
  · rw [hT, if_neg hl, h.2 l hl]
    rfl

/-- **What the next functor of a connection is** tells the phase. -/
theorem Tasks.pop (h : ph.Tasks own T) (hT : ∀ l', T l' = (if l' = l then [k] else []) ++ T' l') :
    (k.owns = false ∧ l = own ∧ (ph = .up ∨ ph = .closed ∨ ph = .removed) ∧ ph.Tasks own T') ∨
    (k = .connectEstablished ∧ l = own ∧ own ≠ 0 ∧ ph = .connecting ∧ ∀ l', T' l' = []) ∨
    (k = .removeConnectionInLoop ∧ l = 0 ∧ own ≠ 0 ∧ ph = .closed ∧ Raw (T' own) ∧ ∀ l' ≠ own, T' l' = []) ∨
    (k = .connectDestroyed ∧ l = own ∧ ph = .removed ∧ ∀ l', T' l' = []) := by
  have hself : T l = k :: T' l := by rw [hT, if_pos rfl]; rfl
  have hother : ∀ l' ≠ l, T l' = T' l' := fun l' hl' => by rw [hT, if_neg hl']; rfl
  have howner : ∀ {own}, (∀ l' ≠ own, T l' = []) → l = own := by
    intro own hnil
    by_contra hl
    rw [hnil l hl] at hself
    cases hself
  cases ph with
  | unborn | unregistered | destroyed =>
    rw [h l] at hself
    cases hself
  | connecting =>
    obtain ⟨hne, hest, hnil⟩ := h
    have hl := howner hnil
    subst hl
    rw [hest] at hself
    obtain ⟨hk, hrest⟩ := List.cons.inj hself
    refine .inr (.inl ⟨hk.symm, rfl, hne, rfl, fun l' => ?_⟩)
    by_cases hl' : l' = l
    · rw [hl', ← hrest]
    · rw [← hother l' hl', hnil l' hl']
  | up =>
    obtain ⟨hraw, hnil⟩ := h
    have hl := howner hnil
    subst hl
    rw [hself] at hraw
    refine .inl ⟨hraw k List.mem_cons_self, rfl, .inl rfl, fun k' hk' => hraw k' (List.mem_cons_of_mem _ hk'), fun l' hl' => ?_⟩
    rw [← hother l' hl', hnil l' hl']
  | closed =>
    obtain ⟨hne, hraw, hrem, hnil⟩ := h
    by_cases hl : l = own
    · subst hl
      rw [hself] at hraw
      refine .inl ⟨hraw k List.mem_cons_self, rfl, .inr (.inl rfl), hne, fun k' hk' => hraw k' (List.mem_cons_of_mem _ hk'), ?_,
        fun l' hl' hl0 => ?_⟩
      · rw [← hother 0 (Ne.symm hne), hrem]
      · rw [← hother l' hl', hnil l' hl' hl0]
    · have hl0 : l = 0 := by
        by_contra hl0
        rw [hnil l hl hl0] at hself
        cases hself
      subst hl0
      rw [hrem] at hself
      obtain ⟨hk, hrest⟩ := List.cons.inj hself
      refine .inr (.inr (.inl ⟨hk.symm, rfl, hne, rfl, ?_, fun l' hl' => ?_⟩))
      · rwa [← hother own (Ne.symm hl)]
      · by_cases hl0 : l' = 0
        · rw [hl0, ← hrest]
        · rw [← hother l' hl0, hnil l' hl' hl0]
  | removed =>
    obtain ⟨⟨raws, hraw, hown⟩, hnil⟩ := h
    have hl := howner hnil
    subst hl
    have hnil' : ∀ l' ≠ l, T' l' = [] := fun l' hl' => by rw [← hother l' hl', hnil l' hl']
    rw [hown] at hself
    cases raws with
    | nil =>
      obtain ⟨hk, hrest⟩ := List.cons.inj hself
      refine .inr (.inr (.inr ⟨hk.symm, rfl, rfl, fun l' => ?_⟩))
      by_cases hl' : l' = l
      · rw [hl', ← hrest]
      · exact hnil' l' hl'
    | cons k' raws =>
      obtain ⟨hk, hrest⟩ := List.cons.inj hself
      rw [← hk]
      exact .inl ⟨hraw k' List.mem_cons_self, rfl, .inr (.inr rfl),
        ⟨raws, fun k'' hk'' => hraw k'' (List.mem_cons_of_mem _ hk''), hrest.symm⟩, hnil'⟩

/-- Nothing waits that owns a connection that is up, or done. -/
theorem Tasks.not_owns (h : ph.Tasks own T) (hph : ph = .up ∨ ph = .unborn ∨ ph = .unregistered ∨ ph = .destroyed) (l : LoopId) :
    ∀ k ∈ T l, k.owns = false := by
  intro k hk
  rcases hph with rfl | rfl | rfl | rfl
  · by_cases hl : l = own
    · rw [hl] at hk
      exact h.1 k hk
    · rw [h.2 l hl] at hk
      cases hk
  all_goals
    rw [h l] at hk
    cases hk

end Phase

end Tasks

end TcpServer

end DictionaryServer.Muduo
