/-
The two pollers of an event loop (muduo/net/poller/EPollPoller.cc and
PollPoller.cc), and the registry of channels they both stand for.

`EPollPoller` keeps its interest in the kernel, by file descriptor, and marks
each channel as new, added or deleted. `PollPoller` keeps an array, and in each
channel its place there; it takes one out by putting the last into its place.
What either asserts is `none` where it fails.

Used as the registry allows, neither fails (`pollers_watch`). They do not watch
the same channels, though: where a channel that had no events gets some again
`EPollPoller` adds it anew, and `PollPoller` leaves the descriptor negative, so
that it is never polled again. Nor can a removed channel come back to
`PollPoller`, which does not reset its index.
-/
import Mathlib.Data.List.Basic
import Mathlib.Data.Option.Basic
import Mathlib.Logic.Function.Basic

namespace DictionaryServer.Muduo

/-- `events_` -/
structure Events where
  read : Bool
  write : Bool
  deriving DecidableEq

/-- `kNoneEvent` -/
def Events.kNoneEvent : Events := ⟨false, false⟩

structure Channel where
  fd : Nat
  events : Events
  index : Int

namespace Channel

def isNoneEvent (c : Channel) : Bool := c.events = Events.kNoneEvent

end Channel

theorem guard_pos {p : Prop} [Decidable p] (h : p) : (guard p : Option Unit) = some () := if_pos h

/-! ## The registry -/

/-- What a poller knows of a channel. -/
inductive Registered
  | no
  /-- With these events; `muted` if it once had none. -/
  | with (events : Events) (muted : Bool)
  /-- Removed. -/
  | gone
  deriving DecidableEq

variable {κ : Type} [DecidableEq κ]

/-- What the owners of channels ask for. -/
inductive Request (κ : Type)
  | update (k : κ) (events : Events)
  | remove (k : κ)

/-- The channels of a loop, as their owners know them; `fd` is that of each. -/
abbrev Registry (κ : Type) := κ → Registered

namespace Registry

def present : Registered → Bool
  | .with _ _ => true
  | .no | .gone => false

def apply (reg : Registry κ) : Request κ → Registry κ
  | .update k events =>
    Function.update reg k <|
      match reg k with
      | .with _ muted => .with events (muted || events = Events.kNoneEvent)
      | .no | .gone => .with events false
  | .remove k => Function.update reg k .gone

/-- A channel is first registered with some event and while no other has its
descriptor; it is not disabled twice, and is removed when it has no events. -/
def Allows (fd : κ → Nat) (reg : Registry κ) : Request κ → Prop
  | .update k events =>
    match reg k with
    | .with before _ => before ≠ Events.kNoneEvent ∨ events ≠ Events.kNoneEvent
    | .no => events ≠ Events.kNoneEvent ∧ ∀ k', present (reg k') = true → fd k' ≠ fd k
    | .gone => False
  | .remove k => ∃ muted, reg k = .with Events.kNoneEvent muted

/-- The requests of a run, each allowed where it is made. -/
inductive Run (fd : κ → Nat) : List (Request κ) → Registry κ → Prop
  | nil : Run fd [] fun _ => .no
  | snoc {requests : List (Request κ)} {reg : Registry κ} {r : Request κ} (hrun : Run fd requests reg)
      (hallows : Allows fd reg r) : Run fd (requests ++ [r]) (reg.apply r)

/-- The events a channel is watched for. -/
def watched : Registered → Option Events
  | .with events _ => if events = Events.kNoneEvent then none else some events
  | .no | .gone => none

/-- The descriptors of the channels that are present, by descriptor. -/
def Maps (fd : κ → Nat) (reg : Registry κ) (channels : Nat → Option κ) : Prop :=
  ∀ f k, channels f = some k ↔ present (reg k) = true ∧ fd k = f

/-- A channel whose descriptor is no other's. -/
def Own (fd : κ → Nat) (reg : Registry κ) (k : κ) : Prop :=
  ∀ k', k' ≠ k → present (reg k') = true → fd k' ≠ fd k

section Maps

variable {fd : κ → Nat} {reg : Registry κ} {channels : Nat → Option κ} {k : κ}

omit [DecidableEq κ] in
theorem exists_of_present {r : Registered} (h : present r = true) : ∃ events muted, r = .with events muted := by
  cases r with
  | «with» e m => exact ⟨e, m, rfl⟩
  | no => cases h
  | gone => cases h

theorem present_of_watched {r : Registered} {events : Events} (h : watched r = some events) : present r = true := by
  cases r with
  | «with» e m => rfl
  | no => cases h
  | gone => cases h

omit [DecidableEq κ] in
theorem Maps.self (h : Maps fd reg channels) (hk : present (reg k) = true) : channels (fd k) = some k :=
  (h (fd k) k).mpr ⟨hk, rfl⟩

omit [DecidableEq κ] in
/-- Channels that are present have descriptors of their own. -/
theorem Maps.unique (h : Maps fd reg channels) {k k' : κ} (hk : present (reg k) = true)
    (hk' : present (reg k') = true) (heq : fd k = fd k') : k = k' := by
  have h₁ := h.self hk
  rw [heq, h.self hk'] at h₁
  exact (Option.some.inj h₁).symm

omit [DecidableEq κ] in
theorem Maps.own (h : Maps fd reg channels) (hk : present (reg k) = true) : Own fd reg k :=
  fun _ hne hk' heq => hne (h.unique hk' hk heq)

omit [DecidableEq κ] in
theorem Maps.free (h : Maps fd reg channels) (hfree : ∀ k', present (reg k') = true → fd k' ≠ fd k) :
    channels (fd k) = none := by
  cases hf : channels (fd k) with
  | none => rfl
  | some k' =>
    obtain ⟨hk', hfd⟩ := (h _ _).mp hf
    exact absurd hfd (hfree k' hk')

theorem Maps.change (h : Maps fd reg channels) (hown : Own fd reg k) (r : Registered) :
    Maps fd (Function.update reg k r) (Function.update channels (fd k) (if present r = true then some k else none)) := by
  intro f k'
  by_cases hf : f = fd k
  · subst hf
    rw [Function.update_self]
    by_cases hk : k' = k
    · subst hk
      rw [Function.update_self]
      cases present r <;> simp
    · rw [Function.update_of_ne hk]
      refine iff_of_false (fun heq => ?_) fun hr => hown k' hk hr.1 hr.2
      split at heq
      · exact hk (Option.some.inj heq).symm
      · cases heq
  · rw [Function.update_of_ne hf]
    by_cases hk : k' = k
    · subst hk
      exact iff_of_false (fun heq => hf ((h f k').mp heq).2.symm) fun hr => hf hr.2.symm
    · rw [Function.update_of_ne hk, h f k']

theorem Maps.keep (h : Maps fd reg channels) (hk : present (reg k) = true) {r : Registered} (hr : present r = true) :
    Maps fd (Function.update reg k r) channels := by
  have hsame : Function.update channels (fd k) (some k) = channels := Function.update_eq_self_iff.mpr (h.self hk).symm
  have hchange := h.change (h.own hk) r
  rwa [if_pos hr, hsame] at hchange

end Maps

end Registry

/-! ## EPollPoller -/

/-- Its own map, and the interest of `epollfd_` in the kernel. -/
structure EPollPoller (κ : Type) where
  channels_ : Nat → Option κ
  interest : Nat → Option (κ × Events)

namespace EPollPoller

def kNew : Int := -1

def kAdded : Int := 1

def kDeleted : Int := 2

inductive Operation
  | ADD | MOD | DEL

/-- `epoll_ctl`, where it does not fail. The source stops the process when `ADD`
or `MOD` fails, and only logs it of `DEL`. -/
def update (p : EPollPoller κ) (op : Operation) (k : κ) (c : Channel) : Option (EPollPoller κ) :=
  match op with
  | .ADD => do
    guard (p.interest c.fd = none)
    return { p with interest := Function.update p.interest c.fd (some (k, c.events)) }
  | .MOD => do
    guard (p.interest c.fd ≠ none)
    return { p with interest := Function.update p.interest c.fd (some (k, c.events)) }
  | .DEL => do
    guard (p.interest c.fd ≠ none)
    return { p with interest := Function.update p.interest c.fd none }

def updateChannel (p : EPollPoller κ) (k : κ) (c : Channel) : Option (EPollPoller κ × Channel) :=
  if c.index = kNew then do
    guard (p.channels_ c.fd = none)
    let p ← update { p with channels_ := Function.update p.channels_ c.fd (some k) } .ADD k c
    return (p, { c with index := kAdded })
  else if c.index = kDeleted then do
    guard (p.channels_ c.fd = some k)
    let p ← p.update .ADD k c
    return (p, { c with index := kAdded })
  else do
    guard (p.channels_ c.fd = some k)
    guard (c.index = kAdded)
    if c.isNoneEvent then
      let p ← p.update .DEL k c
      return (p, { c with index := kDeleted })
    else
      let p ← p.update .MOD k c
      return (p, c)

def removeChannel (p : EPollPoller κ) (k : κ) (c : Channel) : Option (EPollPoller κ × Channel) := do
  guard (p.channels_ c.fd = some k)
  guard (c.isNoneEvent = true ∧ (c.index = kAdded ∨ c.index = kDeleted))
  let p := { p with channels_ := Function.update p.channels_ c.fd none }
  if c.index = kAdded then
    let p ← p.update .DEL k c
    return (p, { c with index := kNew })
  else return (p, { c with index := kNew })

/-- No channel is registered. -/
def start (fd : κ → Nat) : EPollPoller κ × (κ → Channel) :=
  (⟨fun _ => none, fun _ => none⟩, fun k => ⟨fd k, Events.kNoneEvent, -1⟩)

/-- A request, with the change of the channel's events that comes before it. -/
def exec (s : EPollPoller κ × (κ → Channel)) : Request κ → Option (EPollPoller κ × (κ → Channel))
  | .update k events => do
    let (p, c) ← s.1.updateChannel k { s.2 k with events := events }
    return (p, Function.update s.2 k c)
  | .remove k => do
    let (p, c) ← s.1.removeChannel k (s.2 k)
    return (p, Function.update s.2 k c)

end EPollPoller

/-! ## PollPoller -/

structure PollFd where
  fd : Int
  events : Events
  deriving DecidableEq

structure PollPoller (κ : Type) where
  channels_ : Nat → Option κ
  pollfds_ : List PollFd

namespace PollPoller

/-- A descriptor that `poll` passes over. -/
def ignored (fd : Nat) : Int := -fd - 1

def updateChannel (p : PollPoller κ) (k : κ) (c : Channel) : Option (PollPoller κ × Channel) :=
  if c.index < 0 then do
    guard (p.channels_ c.fd = none)
    return ({ channels_ := Function.update p.channels_ c.fd (some k), pollfds_ := p.pollfds_ ++ [⟨c.fd, c.events⟩] },
      { c with index := p.pollfds_.length })
  else do
    guard (p.channels_ c.fd = some k)
    let pfd ← p.pollfds_[c.index.toNat]?
    guard (pfd.fd = c.fd ∨ pfd.fd = ignored c.fd)
    let fd := if c.isNoneEvent then ignored c.fd else pfd.fd
    return ({ p with pollfds_ := p.pollfds_.set c.index.toNat ⟨fd, c.events⟩ }, c)

/-- The channels are those the descriptors' owners hold; the one that is moved
gets a new index. -/
def removeChannel (p : PollPoller κ) (channel : κ → Channel) (k : κ) : Option (PollPoller κ × (κ → Channel)) := do
  let c := channel k
  guard (p.channels_ c.fd = some k)
  guard (c.isNoneEvent = true ∧ 0 ≤ c.index)
  let pfd ← p.pollfds_[c.index.toNat]?
  guard (pfd.fd = ignored c.fd ∧ pfd.events = c.events)
  let channels := Function.update p.channels_ c.fd none
  if c.index.toNat = p.pollfds_.length - 1 then
    return ({ channels_ := channels, pollfds_ := p.pollfds_.dropLast }, channel)
  else
    let back ← p.pollfds_.getLast?
    let channelAtEnd := if back.fd < 0 then -back.fd - 1 else back.fd
    let k' ← channels channelAtEnd.toNat
    return ({ channels_ := channels, pollfds_ := (p.pollfds_.set c.index.toNat back).dropLast },
      Function.update channel k' { channel k' with index := c.index })

def start (fd : κ → Nat) : PollPoller κ × (κ → Channel) :=
  (⟨fun _ => none, []⟩, fun k => ⟨fd k, Events.kNoneEvent, -1⟩)

def exec (s : PollPoller κ × (κ → Channel)) : Request κ → Option (PollPoller κ × (κ → Channel))
  | .update k events => do
    let (p, c) ← s.1.updateChannel k { s.2 k with events := events }
    return (p, Function.update s.2 k c)
  | .remove k => s.1.removeChannel s.2 k

end PollPoller

/-! ## EPollPoller keeps the registry -/

namespace EPollPoller

open Registry

/-- The index of a channel. -/
def indexOf : Registered → Int
  | .with events _ => if events = Events.kNoneEvent then kDeleted else kAdded
  | .no | .gone => kNew

/-- The poller and the channels are as the registry says: each channel has the
index of its standing, and `epoll` is interested in those that have events. -/
structure Tracks (fd : κ → Nat) (reg : Registry κ) (p : EPollPoller κ) (channel : κ → Channel) : Prop where
  desc : ∀ k, (channel k).fd = fd k
  index : ∀ k, (channel k).index = indexOf (reg k)
  events : ∀ k events muted, reg k = .with events muted → (channel k).events = events
  channels : Maps fd reg p.channels_
  interest : ∀ f k events, p.interest f = some (k, events) ↔ watched (reg k) = some events ∧ fd k = f

variable {fd : κ → Nat} {reg : Registry κ} {p : EPollPoller κ} {channel : κ → Channel} {k : κ}

/-- One channel changes its standing, and the poller follows. -/
theorem Tracks.change (h : Tracks fd reg p channel) {r : Registered} {p' : EPollPoller κ} {c : Channel} (hdesc : c.fd = fd k)
    (hindex : c.index = indexOf r) (hevents : ∀ events muted, r = .with events muted → c.events = events)
    (hown : Own fd reg k)
    (hchannels : p'.channels_ = Function.update p.channels_ (fd k) (if present r = true then some k else none))
    (hinterest : p'.interest = Function.update p.interest (fd k) ((watched r).map fun events => (k, events))) :
    Tracks fd (Function.update reg k r) p' (Function.update channel k c) where
  desc k' := by
    by_cases hk : k' = k
    · rw [hk, Function.update_self, hdesc]
    · rw [Function.update_of_ne hk, h.desc]
  index k' := by
    by_cases hk : k' = k
    · rw [hk, Function.update_self, Function.update_self, hindex]
    · rw [Function.update_of_ne hk, Function.update_of_ne hk, h.index]
  events k' events muted hr := by
    by_cases hk : k' = k
    · subst hk
      rw [Function.update_self] at hr
      rw [Function.update_self, hevents events muted hr]
    · rw [Function.update_of_ne hk] at hr
      rw [Function.update_of_ne hk, h.events k' events muted hr]
  channels := by
    rw [hchannels]
    exact h.channels.change hown r
  interest f k' events := by
    rw [hinterest]
    by_cases hf : f = fd k
    · subst hf
      rw [Function.update_self]
      by_cases hk : k' = k
      · subst hk
        rw [Function.update_self]
        cases watched r <;> simp
      · rw [Function.update_of_ne hk]
        refine iff_of_false (fun heq => ?_) fun hr => hown k' hk (present_of_watched hr.1) hr.2
        cases hw : watched r with
        | none => rw [hw] at heq; cases heq
        | some e =>
          rw [hw] at heq
          exact hk (congrArg Prod.fst (Option.some.inj heq)).symm
    · rw [Function.update_of_ne hf]
      by_cases hk : k' = k
      · subst hk
        exact iff_of_false (fun heq => hf ((h.interest f k' events).mp heq).2.symm) fun hr => hf hr.2.symm
      · rw [Function.update_of_ne hk, h.interest]

omit [DecidableEq κ] in
theorem tracks_start (fd : κ → Nat) : Tracks fd (fun _ => .no) (start fd).1 (start fd).2 where
  desc _ := rfl
  index _ := rfl
  events _ _ _ h := by cases h
  channels _ _ := by simp [start, present]
  interest _ _ _ := by simp [start, watched]

/-- Nothing is watched at the descriptor of a channel that is not. -/
theorem Tracks.interest_none (h : Tracks fd reg p channel) (hown : Own fd reg k) (hk : watched (reg k) = none) :
    p.interest (fd k) = none := by
  cases hf : p.interest (fd k) with
  | none => rfl
  | some ke =>
    obtain ⟨hw, hfd⟩ := (h.interest _ ke.1 ke.2).mp hf
    by_cases hne : ke.1 = k
    · rw [hne, hk] at hw
      cases hw
    · exact absurd hfd (hown _ hne (present_of_watched hw))

/-- **EPollPoller follows the registry**, and does not fail. -/
theorem exec_tracks (h : Tracks fd reg p channel) {r : Request κ} (hallows : Allows fd reg r) :
    ∃ s', exec (p, channel) r = some s' ∧ Tracks fd (reg.apply r) s'.1 s'.2 := by
  cases r with
  | update k events =>
    have hdesc := h.desc k
    have hindex := h.index k
    rw [Registry.apply]
    cases hreg : reg k with
    | gone =>
      simp only [Allows, hreg] at hallows
    | no =>
      simp only [Allows, hreg] at hallows
      obtain ⟨hsome, hfree⟩ := hallows
      have hown : Own fd reg k := fun k' _ hk' => hfree k' hk'
      have hnone := h.channels.free hfree
      have hinterest := h.interest_none hown (by rw [hreg]; rfl)
      rw [hreg] at hindex
      refine ⟨(⟨Function.update p.channels_ (fd k) (some k), Function.update p.interest (fd k) (some (k, events))⟩,
        Function.update channel k ⟨fd k, events, kAdded⟩), ?_, ?_⟩
      · simp only [exec, updateChannel, hindex, indexOf, hdesc, if_true, guard_pos hnone, update, guard_pos hinterest,
          Option.bind_eq_bind, Option.bind_some, Option.pure_def]
      · refine h.change rfl ?_ ?_ hown ?_ ?_
        · simp [indexOf, hsome]
        · intro e m he
          cases he
          rfl
        · rfl
        · simp [watched, hsome]
    | «with» before muted =>
      have hown := h.channels.own (k := k) (by rw [hreg]; rfl)
      have hchannel := h.channels.self (k := k) (by rw [hreg]; rfl)
      have hfollows : ∀ {p' : EPollPoller κ} {c : Channel}, c.fd = fd k →
          c.index = indexOf (.with events (muted || events = Events.kNoneEvent)) → c.events = events →
          p'.channels_ = p.channels_ →
          p'.interest = Function.update p.interest (fd k)
            (if events = Events.kNoneEvent then none else some (k, events)) →
          Tracks fd (Function.update reg k (.with events (muted || events = Events.kNoneEvent))) p'
            (Function.update channel k c) := by
        intro p' c hc hci hce hpc hpi
        refine h.change hc hci ?_ hown ?_ ?_
        · intro e m he
          cases he
          exact hce
        · rw [hpc]
          exact (Function.update_eq_self_iff.mpr hchannel.symm).symm
        · rw [hpi, watched]
          split <;> rfl
      rw [hreg] at hindex
      by_cases hbefore : before = Events.kNoneEvent
      · -- A deleted channel is added again.
        have hsome : events ≠ Events.kNoneEvent := by
          simp only [Allows, hreg] at hallows
          exact hallows.resolve_left fun hne => hne hbefore
        have hinterest := h.interest_none hown (by rw [hreg, watched, if_pos hbefore])
        rw [indexOf, if_pos hbefore] at hindex
        refine ⟨(⟨p.channels_, Function.update p.interest (fd k) (some (k, events))⟩,
          Function.update channel k ⟨fd k, events, kAdded⟩), ?_, ?_⟩
        · simp only [exec, updateChannel, hindex, hdesc, show kDeleted ≠ kNew by decide, if_true, if_false,
            guard_pos hchannel, update, guard_pos hinterest, Option.bind_eq_bind, Option.bind_some, Option.pure_def]
        · exact hfollows rfl (by simp [indexOf, hsome]) rfl rfl (by rw [if_neg hsome])
      · have hinterest : p.interest (fd k) = some (k, before) :=
          (h.interest _ _ _).mpr ⟨by rw [hreg, watched, if_neg hbefore], rfl⟩
        have hwatched : p.interest (fd k) ≠ none := by
          rw [hinterest]
          exact Option.some_ne_none _
        rw [indexOf, if_neg hbefore] at hindex
        by_cases hsome : events = Events.kNoneEvent
        · refine ⟨(⟨p.channels_, Function.update p.interest (fd k) none⟩,
            Function.update channel k ⟨fd k, events, kDeleted⟩), ?_, ?_⟩
          · simp only [exec, updateChannel, hindex, hdesc, show kAdded ≠ kNew by decide, show kAdded ≠ kDeleted by decide,
              if_true, if_false, guard, hchannel, update, Channel.isNoneEvent, hsome, decide_true, if_pos hwatched,
              Option.bind_eq_bind, Option.bind_some, Option.pure_def]
          · exact hfollows rfl (by simp [indexOf, hsome]) rfl rfl (by rw [if_pos hsome])
        · refine ⟨(⟨p.channels_, Function.update p.interest (fd k) (some (k, events))⟩,
            Function.update channel k ⟨fd k, events, kAdded⟩), ?_, ?_⟩
          · simp only [exec, updateChannel, hindex, hdesc, show kAdded ≠ kNew by decide, show kAdded ≠ kDeleted by decide,
              if_true, if_false, guard, hchannel, update, Channel.isNoneEvent, hsome, decide_false, Bool.false_eq_true,
              if_pos hwatched, Option.bind_eq_bind, Option.bind_some, Option.pure_def]
          · exact hfollows rfl (by simp [indexOf, hsome]) rfl rfl (by rw [if_neg hsome])
  | remove k =>
    obtain ⟨muted, hreg⟩ := hallows
    have hown := h.channels.own (k := k) (by rw [hreg]; rfl)
    have hchannel := h.channels.self (k := k) (by rw [hreg]; rfl)
    have hevents := h.events k _ _ hreg
    have hindex : (channel k).index = kDeleted := by
      rw [h.index k, hreg]
      rfl
    have hnone : (channel k).isNoneEvent = true := by
      rw [Channel.isNoneEvent, hevents]
      exact decide_eq_true rfl
    refine ⟨(⟨Function.update p.channels_ (fd k) none, p.interest⟩,
      Function.update channel k { channel k with index := kNew }), ?_, ?_⟩
    · simp only [exec, removeChannel, h.desc, hindex, guard, hchannel, hnone, show kDeleted ≠ kAdded by decide, or_true,
        and_self, if_true, if_false, Option.bind_eq_bind, Option.bind_some, Option.pure_def]
    · refine h.change (h.desc k) rfl (fun _ _ he => by cases he) hown rfl ?_
      have hinterest := h.interest_none hown (by rw [hreg]; rfl)
      exact (Function.update_eq_self_iff.mpr hinterest.symm).symm

end EPollPoller

/-! ## PollPoller keeps less -/

namespace PollPoller

open Registry

/-- What stands for a channel in the array. -/
def entry (fd : Nat) (events : Events) (muted : Bool) : PollFd := ⟨if muted then ignored fd else fd, events⟩

theorem entry_fd (fd : Nat) (events : Events) (muted : Bool) :
    (if (entry fd events muted).fd < 0 then -(entry fd events muted).fd - 1 else (entry fd events muted).fd) = fd := by
  cases muted with
  | false =>
    have hpos : ¬(fd : Int) < 0 := by omega
    exact if_neg hpos
  | true =>
    have hneg : -(fd : Int) - 1 < 0 := by omega
    have hback : -(-(fd : Int) - 1) - 1 = fd := by omega
    exact (if_pos hneg).trans hback

/-- The same of `PollPoller`: each channel that is present has one place in the
array, the one its index says. -/
structure Holds (fd : κ → Nat) (reg : Registry κ) (p : PollPoller κ) (channel : κ → Channel) : Prop where
  desc : ∀ k, (channel k).fd = fd k
  fresh : ∀ k, reg k = .no → (channel k).index = -1
  channels : Maps fd reg p.channels_
  place : ∀ k events muted, reg k = .with events muted →
    (channel k).events = events ∧ ∃ i : Nat, (channel k).index = i ∧ p.pollfds_[i]? = some (entry (fd k) events muted)
  owner : ∀ i < p.pollfds_.length, ∃ k, present (reg k) = true ∧ (channel k).index = i
  muted : ∀ k events muted, reg k = .with events muted → events = Events.kNoneEvent → muted = true

variable {fd : κ → Nat} {reg : Registry κ} {p : PollPoller κ} {channel : κ → Channel} {k : κ}

omit [DecidableEq κ] in
theorem Holds.index_inj (h : Holds fd reg p channel) {k k' : κ} (hk : present (reg k) = true)
    (hk' : present (reg k') = true) (heq : (channel k).index = (channel k').index) : k = k' := by
  obtain ⟨e, m, hr⟩ := exists_of_present hk
  obtain ⟨e', m', hr'⟩ := exists_of_present hk'
  obtain ⟨-, i, hi, hget⟩ := h.place k e m hr
  obtain ⟨-, i', hi', hget'⟩ := h.place k' e' m' hr'
  have hii : i = i' := by omega
  subst hii
  have hentry : entry (fd k) e m = entry (fd k') e' m' := Option.some.inj (hget.symm.trans hget')
  have hfd := entry_fd (fd k) e m
  rw [hentry, entry_fd] at hfd
  exact h.channels.unique hk hk' (by omega)

omit [DecidableEq κ] in
theorem holds_start (fd : κ → Nat) : Holds fd (fun _ => .no) (start fd).1 (start fd).2 where
  desc _ := rfl
  fresh _ _ := rfl
  channels _ _ := by simp [start, present]
  place _ _ _ h := by cases h
  owner _ h := by simp [start] at h
  muted _ _ _ h := by cases h

/-- Taking an entry out: the last one comes into its place. -/
theorem getElem?_swapped {l : List PollFd} {i j : Nat} {back : PollFd} (hj : j < l.length - 1) :
    (l.set i back).dropLast[j]? = if j = i then some back else l[j]? := by
  rw [List.getElem?_dropLast, List.length_set, if_pos hj, List.getElem?_set]
  by_cases h : i = j
  · rw [if_pos h, if_pos h.symm, if_pos (by omega)]
  · rw [if_neg h, if_neg (Ne.symm h)]

/-- One channel changes its standing and its place; the others keep theirs. -/
theorem Holds.change (h : Holds fd reg p channel) {r : Registered} {p' : PollPoller κ} {c : Channel} (hr : r ≠ .no)
    (hdesc : c.fd = fd k) (hchannels : Maps fd (Function.update reg k r) p'.channels_)
    (hself : ∀ events muted, r = .with events muted → c.events = events ∧ (events = Events.kNoneEvent → muted = true) ∧
      ∃ i : Nat, c.index = i ∧ p'.pollfds_[i]? = some (entry (fd k) events muted))
    (hothers : ∀ k' ≠ k, present (reg k') = true → ∀ i : Nat, (channel k').index = i → i < p.pollfds_.length →
      p'.pollfds_[i]? = p.pollfds_[i]?)
    (howner : ∀ i < p'.pollfds_.length,
      (present r = true ∧ c.index = i) ∨ ∃ k' ≠ k, present (reg k') = true ∧ (channel k').index = i) :
    Holds fd (Function.update reg k r) p' (Function.update channel k c) where
  desc := (Function.forall_update_iff channel fun k' c => c.fd = fd k').mpr ⟨hdesc, fun k' _ => h.desc k'⟩
  fresh k' hk' := by
    by_cases hk : k' = k
    · rw [hk, Function.update_self] at hk'
      exact absurd hk' hr
    · rw [Function.update_of_ne hk] at hk' ⊢
      exact h.fresh k' hk'
  channels := hchannels
  place k' e m hk' := by
    by_cases hk : k' = k
    · subst hk
      rw [Function.update_self] at hk' ⊢
      exact ⟨(hself e m hk').1, (hself e m hk').2.2⟩
    · rw [Function.update_of_ne hk] at hk' ⊢
      obtain ⟨he, i, hi, hget⟩ := h.place k' e m hk'
      have hsame := hothers k' hk (by rw [hk']; rfl) i hi (List.getElem?_eq_some_iff.mp hget).1
      exact ⟨he, i, hi, hsame.trans hget⟩
  owner i hi := by
    rcases howner i hi with ⟨hpresent, hindex⟩ | ⟨k', hk, hpresent, hindex⟩
    · exact ⟨k, by rwa [Function.update_self], by rwa [Function.update_self]⟩
    · exact ⟨k', by rwa [Function.update_of_ne hk], by rwa [Function.update_of_ne hk]⟩
  muted k' e m hk' he := by
    by_cases hk : k' = k
    · subst hk
      rw [Function.update_self] at hk'
      exact (hself e m hk').2.1 he
    · rw [Function.update_of_ne hk] at hk'
      exact h.muted k' e m hk' he

theorem Holds.add (h : Holds fd reg p channel) {events : Events} (hreg : reg k = .no) (hsome : events ≠ Events.kNoneEvent)
    (hfree : ∀ k', present (reg k') = true → fd k' ≠ fd k) :
    Holds fd (Function.update reg k (.with events false))
      ⟨Function.update p.channels_ (fd k) (some k), p.pollfds_ ++ [⟨fd k, events⟩]⟩
      (Function.update channel k ⟨fd k, events, p.pollfds_.length⟩) := by
  refine h.change (nofun) rfl (h.channels.change (fun k' _ hk' => hfree k' hk') _) ?_ ?_ ?_
  · intro e m he
    cases he
    exact ⟨rfl, fun hnone => absurd hnone hsome, p.pollfds_.length, rfl, List.getElem?_concat_length⟩
  · intro k' _ _ i _ hlt
    exact List.getElem?_append_left hlt
  · intro i hi
    rw [List.length_append, List.length_singleton] at hi
    by_cases hlast : i = p.pollfds_.length
    · exact .inl ⟨rfl, by rw [hlast]⟩
    · obtain ⟨k', hk', hki⟩ := h.owner i (by omega)
      refine .inr ⟨k', ?_, hk', hki⟩
      rintro rfl
      rw [hreg] at hk'
      cases hk'

theorem Holds.set (h : Holds fd reg p channel) (events : Events) {before : Events} {muted : Bool} {i : Nat}
    (hreg : reg k = .with before muted) (hi : (channel k).index = i) (hlt : i < p.pollfds_.length) :
    Holds fd (Function.update reg k (.with events (muted || events = Events.kNoneEvent)))
      ⟨p.channels_, p.pollfds_.set i (entry (fd k) events (muted || events = Events.kNoneEvent))⟩
      (Function.update channel k ⟨fd k, events, i⟩) := by
  have hpresent : present (reg k) = true := by
    rw [hreg]
    rfl
  refine h.change (nofun) rfl (h.channels.keep hpresent rfl) ?_ ?_ ?_
  · intro e m he
    cases he
    exact ⟨rfl, fun hnone => by simp [hnone], i, rfl, List.getElem?_set_self hlt⟩
  · intro k' hk hk' j hj _
    refine List.getElem?_set_ne ?_
    rintro rfl
    exact hk (h.index_inj hk' hpresent (hj.trans hi.symm))
  · intro j hj
    rw [List.length_set] at hj
    obtain ⟨k', hk', hkj⟩ := h.owner j hj
    by_cases hk : k' = k
    · subst hk
      exact .inl ⟨rfl, hi.symm.trans hkj⟩
    · exact .inr ⟨k', hk, hk', hkj⟩

theorem Holds.removeLast (h : Holds fd reg p channel) {i : Nat} (hpresent : present (reg k) = true)
    (hi : (channel k).index = i) (hlt : i < p.pollfds_.length) (hlast : i = p.pollfds_.length - 1) :
    Holds fd (Function.update reg k .gone) ⟨Function.update p.channels_ (fd k) none, p.pollfds_.dropLast⟩ channel := by
  have hchange : Holds fd (Function.update reg k .gone) ⟨Function.update p.channels_ (fd k) none, p.pollfds_.dropLast⟩
      (Function.update channel k (channel k)) := by
    refine h.change (nofun) (h.desc k) (h.channels.change (h.channels.own hpresent) _) (nofun) ?_ ?_
    · intro k' hk hk' j hj hltj
      have hne : j ≠ i := by
        rintro rfl
        exact hk (h.index_inj hk' hpresent (hj.trans hi.symm))
      rw [List.getElem?_dropLast, if_pos (by omega)]
    · intro j hj
      rw [List.length_dropLast] at hj
      obtain ⟨k', hk', hkj⟩ := h.owner j (by omega)
      refine .inr ⟨k', ?_, hk', hkj⟩
      rintro rfl
      omega
  rwa [Function.update_eq_self] at hchange

/-- One that is not the last goes, and the last one takes its place. -/
theorem Holds.removeSwap (h : Holds fd reg p channel) {i : Nat} {k' : κ} {back : PollFd} (hpresent : present (reg k) = true)
    (hi : (channel k).index = i) (hlt : i < p.pollfds_.length - 1) (hpresent' : present (reg k') = true)
    (hi' : (channel k').index = (p.pollfds_.length - 1 : Nat)) (hback : p.pollfds_[p.pollfds_.length - 1]? = some back) :
    Holds fd (Function.update reg k .gone)
      ⟨Function.update p.channels_ (fd k) none, (p.pollfds_.set i back).dropLast⟩
      (Function.update channel k' { channel k' with index := i }) where
  desc := (Function.forall_update_iff channel fun k' c => c.fd = fd k').mpr ⟨h.desc k', fun k'' _ => h.desc k''⟩
  fresh k'' hk'' := by
    by_cases hk : k'' = k
    · rw [hk, Function.update_self] at hk''
      cases hk''
    · rw [Function.update_of_ne hk] at hk''
      have hne : k'' ≠ k' := by
        rintro rfl
        rw [hk''] at hpresent'
        cases hpresent'
      rw [Function.update_of_ne hne]
      exact h.fresh k'' hk''
  channels := h.channels.change (h.channels.own hpresent) .gone
  place k'' e m hk'' := by
    have hk : k'' ≠ k := by
      rintro rfl
      rw [Function.update_self] at hk''
      cases hk''
    rw [Function.update_of_ne hk] at hk''
    obtain ⟨he, j, hj, hget⟩ := h.place k'' e m hk''
    by_cases hk' : k'' = k'
    · subst hk'
      have hjl : j = p.pollfds_.length - 1 := by omega
      have hentry : back = entry (fd k'') e m := by
        rw [hjl, hback] at hget
        exact Option.some.inj hget
      rw [Function.update_self]
      refine ⟨he, i, rfl, ?_⟩
      rw [getElem?_swapped hlt, if_pos rfl, hentry]
    · have hpresent'' : present (reg k'') = true := by
        rw [hk'']
        rfl
      have hji : j ≠ i := by
        rintro rfl
        exact hk (h.index_inj hpresent'' hpresent (hj.trans hi.symm))
      have hjl : j ≠ p.pollfds_.length - 1 := by
        rintro rfl
        exact hk' (h.index_inj hpresent'' hpresent' (hj.trans hi'.symm))
      have hltj : j < p.pollfds_.length := (List.getElem?_eq_some_iff.mp hget).1
      rw [Function.update_of_ne hk']
      refine ⟨he, j, hj, ?_⟩
      rw [getElem?_swapped (by omega), if_neg hji, hget]
  owner j hj := by
    have hlen : j < p.pollfds_.length - 1 := by
      rwa [List.length_dropLast, List.length_set] at hj
    by_cases hji : j = i
    · have hne : k' ≠ k := by
        rintro rfl
        omega
      exact ⟨k', by rwa [Function.update_of_ne hne], by rw [Function.update_self, hji]⟩
    · obtain ⟨k'', hk'', hkj⟩ := h.owner j (by omega)
      have hne : k'' ≠ k := by
        rintro rfl
        omega
      have hne' : k'' ≠ k' := by
        rintro rfl
        omega
      exact ⟨k'', by rwa [Function.update_of_ne hne], by rwa [Function.update_of_ne hne']⟩
  muted k'' e m hk'' he := by
    by_cases hk : k'' = k
    · rw [hk, Function.update_self] at hk''
      cases hk''
    · rw [Function.update_of_ne hk] at hk''
      exact h.muted k'' e m hk'' he

/-- **PollPoller follows the registry**, and does not fail, but an entry that was
ignored once stays so. -/
theorem exec_holds (h : Holds fd reg p channel) {r : Request κ} (hallows : Allows fd reg r) :
    ∃ s', exec (p, channel) r = some s' ∧ Holds fd (reg.apply r) s'.1 s'.2 := by
  cases r with
  | update k events =>
    have hdesc := h.desc k
    rw [Registry.apply]
    cases hreg : reg k with
    | gone =>
      simp only [Allows, hreg] at hallows
    | no =>
      simp only [Allows, hreg] at hallows
      obtain ⟨hsome, hfree⟩ := hallows
      have hnone := h.channels.free hfree
      have hindex := h.fresh k hreg
      have hexec : exec (p, channel) (.update k events) =
          some (⟨Function.update p.channels_ (fd k) (some k), p.pollfds_ ++ [⟨fd k, events⟩]⟩,
            Function.update channel k ⟨fd k, events, p.pollfds_.length⟩) := by
        simp only [exec, updateChannel, hindex, hdesc, show (-1 : Int) < 0 by decide, if_true, guard_pos hnone,
          Option.bind_eq_bind, Option.bind_some, Option.pure_def]
      exact ⟨_, hexec, h.add hreg hsome hfree⟩
    | «with» before muted =>
      have hchannel := h.channels.self (k := k) (by rw [hreg]; rfl)
      obtain ⟨-, i, hi, hget⟩ := h.place k before muted hreg
      have hlt : i < p.pollfds_.length := (List.getElem?_eq_some_iff.mp hget).1
      have hfd : (entry (fd k) before muted).fd = (fd k : Int) ∨ (entry (fd k) before muted).fd = ignored (fd k) := by
        rw [entry]
        cases muted with
        | false => exact .inl rfl
        | true => exact .inr rfl
      have hentry : (⟨if events = Events.kNoneEvent then ignored (fd k) else (entry (fd k) before muted).fd, events⟩ : PollFd) =
          entry (fd k) events (muted || events = Events.kNoneEvent) := by
        rw [entry, entry]
        by_cases he : events = Events.kNoneEvent <;> simp [he]
      have hexec : exec (p, channel) (.update k events) =
          some (⟨p.channels_, p.pollfds_.set i (entry (fd k) events (muted || events = Events.kNoneEvent))⟩,
            Function.update channel k ⟨fd k, events, i⟩) := by
        simp only [exec, updateChannel, hi, hdesc, show ¬((i : Int) < 0) by omega, if_false, guard_pos hchannel, hget,
          Int.toNat_natCast, guard_pos hfd, Channel.isNoneEvent, decide_eq_true_eq, hentry,
          Option.bind_eq_bind, Option.bind_some, Option.pure_def]
      exact ⟨_, hexec, h.set events hreg hi hlt⟩
  | remove k =>
    obtain ⟨muted, hreg⟩ := hallows
    have hpresent : present (reg k) = true := by
      rw [hreg]
      rfl
    have hdesc := h.desc k
    have hchannel := h.channels.self hpresent
    obtain ⟨hevents, i, hi, hget⟩ := h.place k _ muted hreg
    rw [h.muted k _ muted hreg rfl] at hget
    have hlt : i < p.pollfds_.length := (List.getElem?_eq_some_iff.mp hget).1
    have hnone : (channel k).isNoneEvent = true ∧ (0 : Int) ≤ i := by
      rw [Channel.isNoneEvent, hevents]
      exact ⟨decide_eq_true rfl, by omega⟩
    have hignored : (entry (fd k) Events.kNoneEvent true).fd = ignored (fd k) ∧
        (entry (fd k) Events.kNoneEvent true).events = (channel k).events := ⟨rfl, hevents.symm⟩
    rw [Registry.apply]
    by_cases hlast : i = p.pollfds_.length - 1
    · have hexec : exec (p, channel) (.remove k) =
          some (⟨Function.update p.channels_ (fd k) none, p.pollfds_.dropLast⟩, channel) := by
        simp only [exec, removeChannel, hi, hdesc, guard_pos hchannel, guard_pos hnone, Int.toNat_natCast, hget,
          guard_pos hignored, if_pos hlast, Option.bind_eq_bind, Option.bind_some, Option.pure_def]
      exact ⟨_, hexec, h.removeLast hpresent hi hlt hlast⟩
    · -- The channel of the last entry is found by its descriptor, ignored or not.
      obtain ⟨k', hpresent', hi'⟩ := h.owner (p.pollfds_.length - 1) (by omega)
      obtain ⟨e', m', hreg'⟩ := exists_of_present hpresent'
      obtain ⟨-, j, hj, hback⟩ := h.place k' e' m' hreg'
      have hjl : j = p.pollfds_.length - 1 := by omega
      rw [hjl] at hback
      have hne : fd k' ≠ fd k := by
        intro heq
        have hk := h.channels.unique hpresent' hpresent heq
        subst hk
        omega
      have hfound : Function.update p.channels_ (fd k) none (fd k') = some k' := by
        rw [Function.update_of_ne hne, h.channels.self hpresent']
      have hexec : exec (p, channel) (.remove k) =
          some (⟨Function.update p.channels_ (fd k) none, (p.pollfds_.set i (entry (fd k') e' m')).dropLast⟩,
            Function.update channel k' { channel k' with index := i }) := by
        simp only [exec, removeChannel, hi, hdesc, guard_pos hchannel, guard_pos hnone, Int.toNat_natCast, hget,
          guard_pos hignored, if_neg hlast, List.getLast?_eq_getElem?, hback, entry_fd, hfound,
          Option.bind_eq_bind, Option.bind_some, Option.pure_def]
      exact ⟨_, hexec, h.removeSwap hpresent hi (by omega) hpresent' hi' hback⟩

omit [DecidableEq κ] in
theorem Holds.mem_pollfds (h : Holds fd reg p channel) (f : Nat) (events : Events) :
    ⟨f, events⟩ ∈ p.pollfds_ ↔ ∃ k, reg k = .with events false ∧ fd k = f := by
  constructor
  · intro hmem
    obtain ⟨i, hi⟩ := List.mem_iff_getElem?.mp hmem
    obtain ⟨k, hk, hki⟩ := h.owner i (List.getElem?_eq_some_iff.mp hi).1
    obtain ⟨e, m, hreg⟩ := exists_of_present hk
    obtain ⟨-, j, hj, hget⟩ := h.place k e m hreg
    have hji : j = i := by omega
    rw [hji, hi] at hget
    have hentry : (⟨f, events⟩ : PollFd) = entry (fd k) e m := Option.some.inj hget
    cases m with
    | false =>
      obtain ⟨hf, rfl⟩ := PollFd.mk.inj hentry
      have hfd : (f : Int) = fd k := hf
      exact ⟨k, hreg, by omega⟩
    | true =>
      have hf : (f : Int) = -(fd k : Int) - 1 := (PollFd.mk.inj hentry).1
      omega
  · rintro ⟨k, hreg, rfl⟩
    obtain ⟨-, i, -, hget⟩ := h.place k events false hreg
    exact List.mem_of_getElem? hget

end PollPoller

/-! ## The two, over a run -/

namespace Registry

variable {fd : κ → Nat} {requests : List (Request κ)} {reg : Registry κ}

theorem Run.follows (hrun : Run fd requests reg) :
    (∃ s, requests.foldlM EPollPoller.exec (EPollPoller.start fd) = some s ∧ EPollPoller.Tracks fd reg s.1 s.2) ∧
    ∃ s, requests.foldlM PollPoller.exec (PollPoller.start fd) = some s ∧ PollPoller.Holds fd reg s.1 s.2 := by
  induction hrun with
  | nil => exact ⟨⟨_, rfl, EPollPoller.tracks_start fd⟩, ⟨_, rfl, PollPoller.holds_start fd⟩⟩
  | snoc _ hallows ih =>
    obtain ⟨⟨s, hs, htracks⟩, t, ht, hholds⟩ := ih
    obtain ⟨s', hs', htracks'⟩ := EPollPoller.exec_tracks htracks hallows
    obtain ⟨t', ht', hholds'⟩ := PollPoller.exec_holds hholds hallows
    refine ⟨⟨s', ?_, htracks'⟩, t', ?_, hholds'⟩
    · rw [List.foldlM_append, hs]
      simpa using hs'
    · rw [List.foldlM_append, ht]
      simpa using ht'

/-- **What the pollers watch.** However channels come, change and go, neither
poller fails; `EPollPoller` is interested in every channel that has events,
`PollPoller` polls those that were never without. So they watch the same
exactly as long as no channel that had no events has some again. -/
theorem pollers_watch (hrun : Run fd requests reg) :
    ∃ s t, requests.foldlM EPollPoller.exec (EPollPoller.start fd) = some s ∧
      requests.foldlM PollPoller.exec (PollPoller.start fd) = some t ∧
      (∀ f k events, s.1.interest f = some (k, events) ↔ watched (reg k) = some events ∧ fd k = f) ∧
      (∀ (f : Nat) events, ⟨f, events⟩ ∈ t.1.pollfds_ ↔ ∃ k, reg k = .with events false ∧ fd k = f) ∧
      ((∀ (f : Nat) events, events ≠ Events.kNoneEvent →
          (⟨f, events⟩ ∈ t.1.pollfds_ ↔ ∃ k, s.1.interest f = some (k, events))) ↔
        ∀ k events, reg k = .with events true → events = Events.kNoneEvent) := by
  obtain ⟨⟨s, hs, htracks⟩, t, ht, hholds⟩ := hrun.follows
  refine ⟨s, t, hs, ht, htracks.interest, hholds.mem_pollfds, ?_, ?_⟩
  · intro hsame k events hreg
    by_contra hsome
    have hinterest := (htracks.interest (fd k) k events).mpr ⟨by rw [hreg, watched, if_neg hsome], rfl⟩
    obtain ⟨k', hreg', hfd⟩ := (hholds.mem_pollfds _ _).mp ((hsame (fd k) events hsome).mpr ⟨k, hinterest⟩)
    have hk : k' = k := htracks.channels.unique (by rw [hreg']; rfl) (by rw [hreg]; rfl) hfd
    rw [hk, hreg] at hreg'
    cases hreg'
  · intro hnone f events hsome
    rw [hholds.mem_pollfds]
    refine exists_congr fun k => ?_
    rw [htracks.interest]
    refine and_congr_left' ⟨fun hreg => by rw [hreg, watched, if_neg hsome], fun hw => ?_⟩
    obtain ⟨e, m, hreg⟩ := exists_of_present (present_of_watched hw)
    rw [hreg, watched] at hw
    split at hw
    · cases hw
    · cases hw
      cases m with
      | false => exact hreg
      | true => exact absurd (hnone k events hreg) hsome

/-- A channel that stops reading, and later writes. -/
theorem pollers_watch_again :
    ∃ s t, [.update () ⟨true, false⟩, .update () Events.kNoneEvent, .update () ⟨false, true⟩].foldlM
        EPollPoller.exec (EPollPoller.start fun _ => 5) = some s ∧
      [.update () ⟨true, false⟩, .update () Events.kNoneEvent, .update () ⟨false, true⟩].foldlM
        PollPoller.exec (PollPoller.start fun _ => 5) = some t ∧
      s.1.interest 5 = some ((), ⟨false, true⟩) ∧ (⟨5, ⟨false, true⟩⟩ : PollFd) ∉ t.1.pollfds_ := by
  have hread : Run (fun _ : Unit => 5) [.update () ⟨true, false⟩] _ :=
    Run.snoc (r := .update () ⟨true, false⟩) .nil ⟨by decide, nofun⟩
  have hnone := Run.snoc (r := .update () Events.kNoneEvent) hread (.inl (by decide))
  have hwrite := Run.snoc (r := .update () ⟨false, true⟩) hnone (.inr (by decide))
  obtain ⟨s, t, hs, ht, hinterest, hpolled, -⟩ := pollers_watch hwrite
  refine ⟨s, t, hs, ht, (hinterest 5 () _).mpr ⟨rfl, rfl⟩, fun hmem => ?_⟩
  obtain ⟨k, hk, -⟩ := (hpolled 5 _).mp hmem
  cases hk

end Registry

end DictionaryServer.Muduo
