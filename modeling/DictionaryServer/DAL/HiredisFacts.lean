/-
The three maps of a `Hiredis` object, over whole runs.

`Inv` says that each connection is in exactly one of the maps, under its own
id, and that its `ServerConn` fits the map it is in (`Fits`). There is one
spec lemma for each operation, and each changes a single connection
(`Moved`), so `Inv.moved` keeps the invariant for all of them. What a
connection is doing is its `slot`; an operation updates one slot, which is
how the object implements the desk of `Lib.Lease`.
-/
import DictionaryServer.DAL.Hiredis
import DictionaryServer.Lib.Except
import DictionaryServer.Lib.Lease

namespace DictionaryServer

open Lib Lib.Lease

/-! ## Connection ids -/

theorem ofNat_inj {p q : Nat} (hp : p < 2 ^ 31) (hq : q < 2 ^ 31) (h : Int32.ofNat p = Int32.ofNat q) : p = q := by
  have h' := congrArg Int32.toInt h
  rw [Int32.toInt_ofNat_of_lt hp, Int32.toInt_ofNat_of_lt hq] at h'
  exact Int.ofNat_inj.mp h'

section Maps

variable {m : Std.ExtTreeMap Int32 Nat} {i k : Int32} {v : Nat}

@[simp] theorem getElem?_insert_same : (m.insert k v)[k]? = some v := Std.ExtTreeMap.getElem?_insert_self

@[simp] theorem getElem?_erase_same : (m.erase k)[k]? = none := Std.ExtTreeMap.getElem?_erase_self

theorem getElem?_insert_ne (h : i ≠ k) : (m.insert k v)[i]? = m[i]? := by
  rw [Std.ExtTreeMap.getElem?_insert, if_neg (mt Std.compare_eq_iff_eq.mp h.symm)]

theorem getElem?_erase_ne (h : i ≠ k) : (m.erase k)[i]? = m[i]? := by
  rw [Std.ExtTreeMap.getElem?_erase, if_neg (mt Std.compare_eq_iff_eq.mp h.symm)]

theorem head_toList (m : Std.ExtTreeMap Int32 Nat) :
    (m.toList.head? = none ∧ m.isEmpty = true) ∨
      ∃ i v, m.toList.head? = some (i, v) ∧ m[i]? = some v ∧ m.isEmpty = false := by
  rw [← Std.ExtTreeMap.isEmpty_toList]
  rcases hl : m.toList with _ | ⟨⟨i, v⟩, l⟩
  · exact .inl ⟨rfl, rfl⟩
  · refine .inr ⟨i, v, rfl, ?_, rfl⟩
    rw [← Std.ExtTreeMap.mem_toList_iff_getElem?_eq_some, hl]
    exact List.mem_cons_self

end Maps

namespace Hiredis

variable {κ : Type} {h h' : Hiredis κ} {p : Nat}

/-! ## The invariant -/

/-- The map a connection is in. -/
inductive Place
  | inactive
  | free
  | busy
  deriving DecidableEq

def map (h : Hiredis κ) : Place → Std.ExtTreeMap Int32 Nat
  | .inactive => h.inactiveConns
  | .free => h.activeFreeConns
  | .busy => h.activeBusyConn

/-- The connection is in this map under its own id, and in no other. -/
def At (h : Hiredis κ) (w : Place) (p : Nat) : Prop :=
  ∀ w', (h.map w')[Int32.ofNat p]? = if w' = w then some p else none

/-- What a `ServerConn` in a map looks like. -/
def Fits (scon : ServerConn κ) : Place → Prop
  | .inactive => scon.replies = [] ∧ scon.link ≠ .connected
  | .free => scon.replies = [] ∧ scon.link = .connected ∧ scon.channel = true
  | .busy => scon.replies.length ≤ 1 ∧ scon.link = .connected ∧ scon.channel = true

/-- The connections are numbered in order, each is in one map and looks as
that map says, and no map has anything else. muduo is built without assertions. -/
structure Inv (h : Hiredis κ) : Prop where
  muduo : h.muduo = .Release
  allocated_le : h.allocated ≤ h.nconns.toInt.toNat
  own : ∀ p < h.allocated, (h.sconns p).connId = Int32.ofNat p
  place : ∀ p < h.allocated, ∃ w, h.At w p ∧ Fits (h.sconns p) w
  entry : ∀ w i p, (h.map w)[i]? = some p → p < h.allocated ∧ i = Int32.ofNat p

theorem Inv.lt (hi : h.Inv) (hp : p < h.allocated) : p < 2 ^ 31 := by
  have hn := h.nconns.toInt_lt
  have ha := hi.allocated_le
  omega

theorem Inv.id_ne (hi : h.Inv) {q : Nat} (hp : p < h.allocated) (hq : q < h.allocated) (hne : q ≠ p) :
    Int32.ofNat q ≠ Int32.ofNat p :=
  fun heq => hne (ofNat_inj (hi.lt hq) (hi.lt hp) heq)

theorem Inv.at_entry (hi : h.Inv) {w : Place} {i : Int32} (he : (h.map w)[i]? = some p) :
    p < h.allocated ∧ i = Int32.ofNat p ∧ h.At w p := by
  obtain ⟨hp, rfl⟩ := hi.entry w i p he
  obtain ⟨w', hat, -⟩ := hi.place p hp
  by_cases hw : w = w'
  · exact ⟨hp, rfl, hw ▸ hat⟩
  · cases he.symm.trans ((hat w).trans (if_neg hw))

/-- Nothing but the connection `p` differs. -/
structure Moved (h h' : Hiredis κ) (p : Nat) : Prop where
  muduo : h'.muduo = h.muduo
  serverId : h'.serverId = h.serverId
  nconns : h'.nconns = h.nconns
  allocated : h'.allocated = h.allocated
  connId : (h'.sconns p).connId = (h.sconns p).connId
  misused : (h.sconns p).misused = true → (h'.sconns p).misused = true
  sconns : ∀ q, q ≠ p → h'.sconns q = h.sconns q
  map : ∀ w i, i ≠ Int32.ofNat p → (h'.map w)[i]? = (h.map w)[i]?

theorem Moved.refl (h : Hiredis κ) (p : Nat) : Moved h h p :=
  ⟨rfl, rfl, rfl, rfl, rfl, id, fun _ _ => rfl, fun _ _ _ => rfl⟩

theorem Moved.trans {h'' : Hiredis κ} (m : Moved h h' p) (m' : Moved h' h'' p) : Moved h h'' p where
  muduo := m'.muduo.trans m.muduo
  serverId := m'.serverId.trans m.serverId
  nconns := m'.nconns.trans m.nconns
  allocated := m'.allocated.trans m.allocated
  connId := m'.connId.trans m.connId
  misused hm := m'.misused (m.misused hm)
  sconns q hq := (m'.sconns q hq).trans (m.sconns q hq)
  map w i hi := (m'.map w i hi).trans (m.map w i hi)

/-- **A move that leaves its connection in some map, fitting it, keeps the invariant.** -/
theorem Inv.moved (hi : h.Inv) (hp : p < h.allocated) (m : Moved h h' p) {w : Place} (hat : h'.At w p)
    (hfits : Fits (h'.sconns p) w) : h'.Inv where
  muduo := m.muduo.trans hi.muduo
  allocated_le := by rw [m.allocated, m.nconns]; exact hi.allocated_le
  own q hq := by
    rw [m.allocated] at hq
    by_cases hqp : q = p
    · rw [hqp, m.connId]
      exact hi.own p hp
    · rw [m.sconns q hqp]
      exact hi.own q hq
  place q hq := by
    rw [m.allocated] at hq
    by_cases hqp : q = p
    · rw [hqp]
      exact ⟨w, hat, hfits⟩
    · obtain ⟨w', hat', hfits'⟩ := hi.place q hq
      refine ⟨w', fun w'' => ?_, ?_⟩
      · rw [m.map w'' _ (hi.id_ne hp hq hqp)]
        exact hat' w''
      · rw [m.sconns q hqp]
        exact hfits'
  entry w' i q hq := by
    rw [m.allocated]
    by_cases hip : i = Int32.ofNat p
    · rw [hip, hat w'] at hq
      split at hq <;> cases hq
      exact ⟨hp, hip⟩
    · rw [m.map w' i hip] at hq
      exact hi.entry w' i q hq

/-! ## What a connection is doing -/

/-- What a `ServerConn` in a map is doing. -/
def slotOf (scon : ServerConn κ) : Place → Slot κ
  | .inactive => .down
  | .free => .idle
  | .busy =>
    match scon.replies with
    | [] => .stuck
    | c :: _ => .held c.cb

def placeOf (h : Hiredis κ) (p : Nat) : Place :=
  if (h.map .free)[Int32.ofNat p]?.isSome then .free
  else if (h.map .busy)[Int32.ofNat p]?.isSome then .busy
  else .inactive

def slot (h : Hiredis κ) (p : Nat) : Slot κ :=
  if p < h.allocated then slotOf (h.sconns p) (h.placeOf p) else .down

theorem placeOf_at {w : Place} (hat : h.At w p) : h.placeOf p = w := by
  unfold placeOf
  rw [hat .free, hat .busy]
  cases w <;> rfl

theorem slot_at {w : Place} (hp : p < h.allocated) (hat : h.At w p) : h.slot p = slotOf (h.sconns p) w := by
  rw [slot, if_pos hp, placeOf_at hat]

/-- **A move updates one slot.** -/
theorem Moved.slot (hi : h.Inv) (hp : p < h.allocated) (m : Moved h h' p) :
    h'.slot = Function.update h.slot p (h'.slot p) := by
  funext q
  by_cases hqp : q = p
  · rw [hqp, Function.update_self]
  · rw [Function.update_of_ne hqp, Hiredis.slot, Hiredis.slot, m.allocated]
    split
    · next hq =>
      have hid := hi.id_ne hp hq hqp
      rw [m.sconns q hqp, placeOf, placeOf, m.map .free _ hid, m.map .busy _ hid]
    · rfl

/-! ## The operations -/

@[simp] theorem setScon_sconns_same (h : Hiredis κ) (p : Nat) (scon : ServerConn κ) :
    (h.setScon p scon).sconns p = scon := Function.update_self _ _ _

@[simp] theorem setScon_map (h : Hiredis κ) (p : Nat) (scon : ServerConn κ) (w : Place) :
    (h.setScon p scon).map w = h.map w := by cases w <;> rfl

theorem Moved.setScon {scon : ServerConn κ} (hid : scon.connId = (h.sconns p).connId)
    (hm : (h.sconns p).misused = true → scon.misused = true) : Moved h (h.setScon p scon) p where
  muduo := rfl
  serverId := rfl
  nconns := rfl
  allocated := rfl
  connId := by rw [setScon_sconns_same, hid]
  misused h := by rw [setScon_sconns_same, hm h]
  sconns q hq := Function.update_of_ne hq _ _
  map w i _ := by rw [setScon_map]

theorem At.setScon {w : Place} (hat : h.At w p) (scon : ServerConn κ) : (h.setScon p scon).At w p := by
  intro w'
  rw [setScon_map]
  exact hat w'

/-- The entry of a connection goes from one map to another. -/
structure Transfer (h h' : Hiredis κ) (p : Nat) (w w' : Place) : Prop where
  ne : w ≠ w'
  muduo : h'.muduo = h.muduo
  serverId : h'.serverId = h.serverId
  nconns : h'.nconns = h.nconns
  allocated : h'.allocated = h.allocated
  sconns : h'.sconns = h.sconns
  out : h'.map w = (h.map w).erase (Int32.ofNat p)
  into : h'.map w' = (h.map w').insert (Int32.ofNat p) p
  rest : ∀ w'', w'' ≠ w → w'' ≠ w' → h'.map w'' = h.map w''

theorem Transfer.moved {w w' : Place} (t : Transfer h h' p w w') : Moved h h' p where
  muduo := t.muduo
  serverId := t.serverId
  nconns := t.nconns
  allocated := t.allocated
  connId := by rw [t.sconns]
  misused hm := by rw [t.sconns, hm]
  sconns q _ := by rw [t.sconns]
  map w'' i hi := by
    by_cases hw : w'' = w
    · rw [hw, t.out, getElem?_erase_ne hi]
    · by_cases hw' : w'' = w'
      · rw [hw', t.into, getElem?_insert_ne hi]
      · rw [t.rest w'' hw hw']

theorem Transfer.at {w w' : Place} (t : Transfer h h' p w w') (hat : h.At w p) : h'.At w' p := by
  intro w''
  by_cases hw : w'' = w
  · rw [hw, t.out, getElem?_erase_same, if_neg t.ne]
  · by_cases hw' : w'' = w'
    · rw [hw', t.into, getElem?_insert_same, if_pos rfl]
    · rw [t.rest w'' hw hw', hat w'', if_neg hw, if_neg hw']

theorem removeChannel_ok (hm : h.muduo = .Release) (hc : (h.sconns p).channel = true) :
    h.removeChannel p = .ok (h.setScon p { h.sconns p with channel := false, misused := true }) := by
  rw [removeChannel, if_pos hc, hm]

/-- With muduo's assertions it is the end. -/
theorem removeChannel_debug (hm : h.muduo = .Debug) (hc : (h.sconns p).channel = true) :
    h.removeChannel p = .error (.assertion "!eventHandling_") := by
  rw [removeChannel, if_pos hc, hm]

theorem useChannel_ok (hc : (h.sconns p).channel = true) : h.useChannel p = .ok () := by
  rw [useChannel, if_pos hc]

theorem userConnectCallback_ok (hown : (h.sconns p).connId = Int32.ofNat p) (hat : h.At .inactive p)
    (hc : (h.sconns p).channel = false) :
    ∃ h', h.userConnectCallback p .REDIS_OK = .ok h' ∧ Moved h h' p ∧ h'.At .free p ∧
      h'.sconns p = { h.sconns p with channel := true } := by
  have hentry : h.inactiveConns[(h.sconns p).connId]? = some p := by
    rw [hown]
    exact hat .inactive
  obtain ⟨h₁, hh₁⟩ : ∃ h₁, h₁ =
    { h with
      activeFreeConns := h.activeFreeConns.insert (h.sconns p).connId p
      inactiveConns := h.inactiveConns.erase (h.sconns p).connId } := ⟨_, rfl⟩
  have t : Transfer h h₁ p .inactive .free := by
    subst hh₁
    refine ⟨by decide, rfl, rfl, rfl, rfl, rfl, ?_, ?_, ?_⟩
    · rw [← hown]; rfl
    · rw [← hown]; rfl
    · intro w hw hw'
      cases w
      · exact absurd rfl hw
      · exact absurd rfl hw'
      · rfl
  have hscon : h₁.sconns p = h.sconns p := by rw [t.sconns]
  refine ⟨h₁.setScon p { h₁.sconns p with channel := true }, ?_, t.moved.trans (.setScon rfl id),
    (t.at hat).setScon _, ?_⟩
  · rw [userConnectCallback, if_neg (by decide)]
    simp only [hentry]
    rw [← hh₁, setChannel, hscon, if_neg (by rw [hc]; decide)]
  · rw [setScon_sconns_same, hscon]

theorem handleWrite_connected (hc : (h.sconns p).channel = true) (hl : (h.sconns p).link = .connected)
    (outcome : Option Status) : h.handleWrite p outcome = .ok h := by
  simp only [handleWrite, redisAsyncHandleWrite, hl, if_true, pure_bind, useChannel_ok hc]
  rfl

/-- Before it is connected the channel is removed first. -/
theorem handleWrite_connecting (hm : h.muduo = .Release) (hc : (h.sconns p).channel = true)
    (hl : (h.sconns p).link ≠ .connected) (outcome : Option Status) : h.handleWrite p outcome =
      (h.setScon p { h.sconns p with channel := false, misused := true }).redisAsyncHandleWrite p outcome := by
  simp only [handleWrite, if_neg hl, removeChannel_ok hm hc]
  rfl

/-- What a writable event leaves of a connection still connecting. -/
def settled (scon : ServerConn κ) : Option Status → ServerConn κ
  | some .REDIS_OK => { scon with channel := true, link := .connected, misused := true }
  | some .REDIS_ERR => { scon with channel := false, link := .freed, misused := true }
  | none => { scon with channel := false, misused := true }

/-- hiredis on a connection that is not up and whose channel was removed. -/
theorem redisAsyncHandleWrite_spec (hown : (h.sconns p).connId = Int32.ofNat p) (hat : h.At .inactive p)
    (hc : (h.sconns p).channel = false) (hm : (h.sconns p).misused = true) (hfits : Fits (h.sconns p) .inactive)
    (outcome : Option Status) :
    ∃ h' w, h.redisAsyncHandleWrite p outcome = .ok h' ∧ Moved h h' p ∧ h'.At w p ∧ Fits (h'.sconns p) w ∧
      ((h.sconns p).link = .connecting → h'.sconns p = settled (h.sconns p) outcome) ∧ (w = .inactive ∨ w = .free) := by
  rcases hlink : (h.sconns p).link with _ | _ | _
  · rcases outcome with _ | (_ | _)
    · refine ⟨h, .inactive, ?_, .refl h p, hat, hfits, fun _ => ?_, .inl rfl⟩
      · simp only [redisAsyncHandleWrite, hlink]
      · rw [settled, ← hc, ← hm]
    · -- The attempt succeeded, and the callback sets the channel again.
      obtain ⟨h₁, hh₁⟩ : ∃ h₁, h₁ = h.setScon p { h.sconns p with link := .connected } := ⟨_, rfl⟩
      have hscon₁ : h₁.sconns p = { h.sconns p with link := .connected } := by rw [hh₁, setScon_sconns_same]
      obtain ⟨h₂, hcall, m, hat₂, hscon₂⟩ := userConnectCallback_ok (h := h₁) (p := p) (by rw [hscon₁]; exact hown)
        (hh₁ ▸ hat.setScon _) (by rw [hscon₁]; exact hc)
      refine ⟨h₂, .free, ?_, .trans (hh₁ ▸ .setScon rfl id) m, hat₂, ?_, fun _ => ?_, .inr rfl⟩
      · simp only [redisAsyncHandleWrite, hlink]
        rw [hh₁] at hcall
        simp only [hcall, ok_bind, useChannel_ok (h := h₂) (p := p) (by rw [hscon₂])]
        rfl
      · rw [hscon₂, hscon₁]
        exact ⟨hfits.1, rfl, rfl⟩
      · rw [hscon₂, hscon₁, settled, ← hm]
    · -- It failed: the callback only logs.
      refine ⟨h.setScon p { h.sconns p with link := .freed }, .inactive, ?_, .setScon rfl id, hat.setScon _, ?_,
        fun _ => ?_, .inl rfl⟩
      · simp only [redisAsyncHandleWrite, hlink]
        rfl
      · rw [setScon_sconns_same]
        exact ⟨hfits.1, nofun⟩
      · rw [setScon_sconns_same, settled, ← hc, ← hm]
  · exact absurd hlink hfits.2
  · refine ⟨h, .inactive, ?_, .refl h p, hat, hfits, nofun, .inl rfl⟩
    simp only [redisAsyncHandleWrite, hlink]

/-- A writable socket: the connection stays what it was, or comes up. -/
theorem handleWrite_spec (hi : h.Inv) (hp : p < h.allocated) (hc : (h.sconns p).channel = true)
    (outcome : Option Status) :
    ∃ h' w, h.handleWrite p outcome = .ok h' ∧ Moved h h' p ∧ h'.At w p ∧ Fits (h'.sconns p) w ∧
      ((h.sconns p).link = .connecting → h'.sconns p = settled (h.sconns p) outcome) ∧
      (h'.slot p = h.slot p ∨ (h.slot p = .down ∧ h'.slot p = .idle)) := by
  obtain ⟨w, hat, hfits⟩ := hi.place p hp
  by_cases hl : (h.sconns p).link = .connected
  · refine ⟨h, w, handleWrite_connected hc hl outcome, .refl h p, hat, hfits, ?_, .inl rfl⟩
    simp [hl]
  have hw : w = .inactive := by
    cases w with
    | inactive => rfl
    | free => exact absurd hfits.2.1 hl
    | busy => exact absurd hfits.2.1 hl
  subst hw
  have hdown : h.slot p = .down := slot_at hp hat
  obtain ⟨h₁, hh₁⟩ : ∃ h₁, h₁ = h.setScon p { h.sconns p with channel := false, misused := true } := ⟨_, rfl⟩
  have hscon₁ : h₁.sconns p = { h.sconns p with channel := false, misused := true } := by rw [hh₁, setScon_sconns_same]
  have m₁ : Moved h h₁ p := hh₁ ▸ .setScon rfl fun _ => rfl
  obtain ⟨h₂, w, hwrite, m₂, hat₂, hfits₂, hsettled, hw⟩ := redisAsyncHandleWrite_spec (h := h₁) (p := p)
    (by rw [hscon₁]; exact hi.own p hp) (hh₁ ▸ hat.setScon _) (by rw [hscon₁]) (by rw [hscon₁])
    (by rw [hscon₁]; exact hfits) outcome
  have hslot : h₂.slot p = slotOf (h₂.sconns p) w := slot_at (by rw [m₂.allocated, m₁.allocated]; exact hp) hat₂
  refine ⟨h₂, w, ?_, m₁.trans m₂, hat₂, hfits₂, fun hconnecting => ?_, ?_⟩
  · rw [handleWrite_connecting hi.muduo hc hl, ← hh₁, hwrite]
  · rw [hsettled (by rw [hscon₁]; exact hconnecting), hscon₁]
    rcases outcome with _ | (_ | _) <;> rfl
  · rcases hw with rfl | rfl
    · exact .inl (hslot.trans hdown.symm)
    · exact .inr ⟨hdown, hslot⟩

theorem exec_write {outcome : Option Status} (hcall : h.handleWrite p outcome = .ok h') :
    h.exec (.write p outcome) = .ok (h', []) := by
  rw [exec, hcall]
  rfl

theorem At.fits (hi : h.Inv) (hp : p < h.allocated) {w : Place} (hat : h.At w p) : Fits (h.sconns p) w := by
  obtain ⟨w', hat', hfits⟩ := hi.place p hp
  rw [← placeOf_at hat, placeOf_at hat']
  exact hfits

theorem redisvAsyncCommand_ok (hc : (h.sconns p).channel = true) (cb : κ) (text : Bytes) (accepted : Bool) :
    h.redisvAsyncCommand p cb text accepted =
      .ok (if accepted then (.REDIS_OK, h.setScon p { h.sconns p with replies := (h.sconns p).replies ++ [⟨text, cb⟩] })
        else (.REDIS_ERR, h)) := by
  unfold redisvAsyncCommand
  cases accepted
  · rfl
  · simp only [if_true, useChannel_ok hc, ok_bind]
    rfl

/-- **`command`** either finds no free connection and changes nothing, or
takes one to the busy map, with the command outstanding if it was accepted. -/
theorem command_spec (hi : h.Inv) (cb : κ) (text : Bytes) (accepted : Bool) :
    (h.activeFreeConns.isEmpty = true ∧ h.command (-1) cb text accepted = .ok (.REDIS_ERR, -1, h)) ∨
    (h.activeFreeConns.isEmpty = false ∧ ∃ p h', p < h.allocated ∧ h.At .free p ∧
      h.command (-1) cb text accepted =
        .ok (if accepted then .REDIS_OK else .REDIS_ERR, Int32.ofNat p, h') ∧
      Moved h h' p ∧ h'.At .busy p ∧ Fits (h'.sconns p) .busy ∧
      (h'.sconns p).replies = if accepted then [⟨text, cb⟩] else []) := by
  rcases head_toList h.activeFreeConns with ⟨hhead, hempty⟩ | ⟨i, p, hhead, hentry, hempty⟩
  · refine .inl ⟨hempty, ?_⟩
    unfold command
    split
    · rfl
    · rw [hhead]
  · obtain ⟨hp, rfl, hat⟩ := hi.at_entry (w := .free) hentry
    obtain ⟨hreplies, hlink, hchannel⟩ := hat.fits hi hp
    have hconn : h.connected = true := by rw [connected, hempty, Bool.and_false]; rfl
    obtain ⟨h₁, hh₁⟩ : ∃ h₁, h₁ =
      { h with
        activeFreeConns := h.activeFreeConns.erase (Int32.ofNat p)
        activeBusyConn := h.activeBusyConn.insert (h.sconns p).connId p } := ⟨_, rfl⟩
    have t : Transfer h h₁ p .free .busy := by
      subst hh₁
      refine ⟨by decide, rfl, rfl, rfl, rfl, rfl, rfl, ?_, ?_⟩
      · rw [← hi.own p hp]; rfl
      · intro w hw hw'
        cases w
        · rfl
        · exact absurd rfl hw
        · exact absurd rfl hw'
    have hscon : h₁.sconns p = h.sconns p := by rw [t.sconns]
    have hcall : h.command (-1) cb text accepted =
        (h₁.redisvAsyncCommand p cb text accepted >>= fun r => .ok (r.1, (h.sconns p).connId, r.2)) := by
      unfold command
      rw [hconn, hhead, hh₁]
      rfl
    rw [redisvAsyncCommand_ok (by rw [hscon]; exact hchannel), ok_bind, hi.own p hp] at hcall
    refine .inr ⟨hempty, p, ?_⟩
    cases accepted
    · refine ⟨h₁, hp, hat, hcall, t.moved, t.at hat, ?_, ?_⟩
      · rw [hscon]
        exact ⟨by rw [hreplies]; exact Nat.zero_le _, hlink, hchannel⟩
      · rw [hscon, hreplies]
        rfl
    · refine ⟨h₁.setScon p { h₁.sconns p with replies := (h₁.sconns p).replies ++ [⟨text, cb⟩] }, hp, hat, hcall,
        t.moved.trans (.setScon rfl id), (t.at hat).setScon _, ?_, ?_⟩
      · rw [setScon_sconns_same, hscon, hreplies]
        exact ⟨Nat.le_refl _, hlink, hchannel⟩
      · rw [setScon_sconns_same, hscon, hreplies]
        rfl

theorem commandCallback_busy (hown : (h.sconns p).connId = Int32.ofNat p) (hat : h.At .busy p) (c : Command κ)
    (reply : Option RedisReply) :
    ∃ h', h.commandCallback p c reply = .ok (h', ⟨c, reply, genUniqueConId h.serverId (Int32.ofNat p)⟩) ∧
      Transfer h h' p .busy .free := by
  have hbusy : h.activeBusyConn[(h.sconns p).connId]? = some p := by rw [hown]; exact hat .busy
  have hfree : h.activeFreeConns.contains (h.sconns p).connId = false := by
    rw [hown, Std.ExtTreeMap.contains_eq_isSome_getElem?]
    exact congrArg Option.isSome (hat .free)
  refine ⟨{ h with
    activeFreeConns := h.activeFreeConns.insert (Int32.ofNat p) p
    activeBusyConn := h.activeBusyConn.erase (Int32.ofNat p) }, ?_, ?_⟩
  · unfold commandCallback
    simp only [hbusy, hfree]
    rw [hown]
    rfl
  · refine ⟨by decide, rfl, rfl, rfl, rfl, rfl, rfl, rfl, ?_⟩
    intro w hw hw'
    cases w
    · rfl
    · exact absurd rfl hw'
    · exact absurd rfl hw

/-- **A reply** answers the one command outstanding and frees its connection. -/
theorem handleReply_spec (hi : h.Inv) (hp : p < h.allocated) (hne : (h.sconns p).replies ≠ [])
    (reply : Option RedisReply) :
    ∃ h' c, (h.sconns p).replies = [c] ∧ h.At .busy p ∧
      h.handleReply p reply = .ok (h', [⟨c, reply, genUniqueConId h.serverId (Int32.ofNat p)⟩]) ∧
      Moved h h' p ∧ h'.At .free p ∧ Fits (h'.sconns p) .free := by
  obtain ⟨w, hat, hfits⟩ := hi.place p hp
  have hw : w = .busy := by
    cases w with
    | busy => rfl
    | inactive => exact absurd hfits.1 hne
    | free => exact absurd hfits.1 hne
  subst hw
  obtain ⟨hle, hlink, hchannel⟩ := hfits
  obtain ⟨c, hc⟩ : ∃ c, (h.sconns p).replies = [c] := by
    refine List.length_eq_one_iff.mp ?_
    have := List.length_pos_of_ne_nil hne
    omega
  obtain ⟨h₁, hh₁⟩ : ∃ h₁, h₁ = h.setScon p { h.sconns p with replies := [] } := ⟨_, rfl⟩
  have hscon : h₁.sconns p = { h.sconns p with replies := [] } := by rw [hh₁, setScon_sconns_same]
  have hat₁ : h₁.At .busy p := hh₁ ▸ hat.setScon _
  obtain ⟨h₂, hcall, t⟩ := commandCallback_busy (by rw [hscon]; exact hi.own p hp) hat₁ c reply
  have hserver : h₁.serverId = h.serverId := by rw [hh₁]; rfl
  refine ⟨h₂, c, hc, hat, ?_, .trans (hh₁ ▸ .setScon rfl id) t.moved, t.at hat₁, ?_⟩
  · unfold handleReply
    simp only [hc]
    rw [hh₁] at hcall hserver
    rw [hcall, hserver]
    rfl
  · rw [t.sconns, hscon]
    exact ⟨rfl, hlink, hchannel⟩

theorem userDisconnectCallback_busy (hm : h.muduo = .Release) (hown : (h.sconns p).connId = Int32.ofNat p)
    (hat : h.At .busy p) (hc : (h.sconns p).channel = true) :
    ∃ h', h.userDisconnectCallback p = .ok h' ∧ Moved h h' p ∧ h'.At .inactive p ∧
      h'.sconns p = { h.sconns p with channel := false, misused := true } := by
  obtain ⟨h₁, hh₁⟩ : ∃ h₁, h₁ = h.setScon p { h.sconns p with channel := false, misused := true } := ⟨_, rfl⟩
  have hscon : h₁.sconns p = { h.sconns p with channel := false, misused := true } := by rw [hh₁, setScon_sconns_same]
  have hown₁ : (h₁.sconns p).connId = Int32.ofNat p := by rw [hscon]; exact hown
  have hat₁ : h₁.At .busy p := hh₁ ▸ hat.setScon _
  have hbusy : h₁.activeBusyConn[Int32.ofNat p]? = some p := hat₁ .busy
  have hinactive : h₁.inactiveConns.contains (Int32.ofNat p) = false := by
    rw [Std.ExtTreeMap.contains_eq_isSome_getElem?]
    exact congrArg Option.isSome (hat₁ .inactive)
  obtain ⟨h₂, hh₂⟩ : ∃ h₂, h₂ =
    { h₁ with
      inactiveConns := h₁.inactiveConns.insert (Int32.ofNat p) p
      activeBusyConn := h₁.activeBusyConn.erase (Int32.ofNat p) } := ⟨_, rfl⟩
  have t : Transfer h₁ h₂ p .busy .inactive := by
    subst hh₂
    refine ⟨by decide, rfl, rfl, rfl, rfl, rfl, rfl, rfl, ?_⟩
    intro w hw hw'
    cases w
    · exact absurd rfl hw'
    · rfl
    · exact absurd rfl hw
  refine ⟨h₂, ?_, .trans (hh₁ ▸ .setScon rfl fun _ => rfl) t.moved, t.at hat₁, by rw [t.sconns, hscon]⟩
  unfold userDisconnectCallback
  rw [removeChannel_ok hm hc, ← hh₁]
  simp only [ok_bind, hown₁, hbusy, hinactive]
  rw [hh₂]
  rfl

theorem userDisconnectCallback_fault (hm : h.muduo = .Release) (hown : (h.sconns p).connId = Int32.ofNat p)
    {w : Place} (hat : h.At w p) (hw : w ≠ .busy) (hc : (h.sconns p).channel = true) :
    h.userDisconnectCallback p = .error (.assertion "it != activeBusyConn_.end()") := by
  obtain ⟨h₁, hh₁⟩ : ∃ h₁, h₁ = h.setScon p { h.sconns p with channel := false, misused := true } := ⟨_, rfl⟩
  have hscon : h₁.sconns p = { h.sconns p with channel := false, misused := true } := by rw [hh₁, setScon_sconns_same]
  have hown₁ : (h₁.sconns p).connId = Int32.ofNat p := by rw [hscon]; exact hown
  have hbusy : h₁.activeBusyConn[Int32.ofNat p]? = none := by
    rw [hh₁]
    exact (hat.setScon _ .busy).trans (if_neg hw.symm)
  unfold userDisconnectCallback
  rw [removeChannel_ok hm hc, ← hh₁]
  simp only [ok_bind, hown₁, hbusy]

/-- **A lost connection** in the busy map with no command outstanding goes to
the inactive map. -/
theorem handleDisconnect_stuck (hi : h.Inv) (hp : p < h.allocated) (hat : h.At .busy p)
    (hreplies : (h.sconns p).replies = []) :
    ∃ h', h.handleDisconnect p = .ok (h', []) ∧ Moved h h' p ∧ h'.At .inactive p ∧ Fits (h'.sconns p) .inactive ∧
      (h'.sconns p).link = .freed := by
  obtain ⟨-, hlink, hchannel⟩ := hat.fits hi hp
  obtain ⟨h₁, hh₁⟩ : ∃ h₁, h₁ = h.setScon p { h.sconns p with replies := [] } := ⟨_, rfl⟩
  have hscon : h₁.sconns p = { h.sconns p with replies := [] } := by rw [hh₁, setScon_sconns_same]
  obtain ⟨h₂, hcall, m, hat₂, hscon₂⟩ := userDisconnectCallback_busy (h := h₁) (p := p)
    (by rw [hh₁]; exact hi.muduo) (by rw [hscon]; exact hi.own p hp) (hh₁ ▸ hat.setScon _) (by rw [hscon]; exact hchannel)
  refine ⟨h₂.setScon p { h₂.sconns p with link := .freed }, ?_,
    .trans (.trans (hh₁ ▸ .setScon rfl id) m) (.setScon rfl id), hat₂.setScon _, ?_, ?_⟩
  · unfold handleDisconnect
    simp only [hreplies, nullReplies, ok_bind]
    rw [← hh₁, hcall]
    rfl
  · rw [setScon_sconns_same, hscon₂, hscon]
    exact ⟨rfl, nofun⟩
  · rw [setScon_sconns_same]

/-- **Any other** fails an assertion: the callback of an outstanding command
has moved its connection to the free map by then. -/
theorem handleDisconnect_fault (hi : h.Inv) (hp : p < h.allocated) (hlink : (h.sconns p).link = .connected)
    (hnot : ¬(h.At .busy p ∧ (h.sconns p).replies = [])) :
    h.handleDisconnect p = .error (.assertion "it != activeBusyConn_.end()") := by
  obtain ⟨w, hat, hfits⟩ := hi.place p hp
  obtain ⟨h₁, hh₁⟩ : ∃ h₁, h₁ = h.setScon p { h.sconns p with replies := [] } := ⟨_, rfl⟩
  have hscon : h₁.sconns p = { h.sconns p with replies := [] } := by rw [hh₁, setScon_sconns_same]
  have hown₁ : (h₁.sconns p).connId = Int32.ofNat p := by rw [hscon]; exact hi.own p hp
  have hat₁ : h₁.At w p := hh₁ ▸ hat.setScon _
  have hm₁ : h₁.muduo = .Release := by rw [hh₁]; exact hi.muduo
  unfold handleDisconnect
  dsimp only
  rw [← hh₁]
  cases w with
  | inactive => exact absurd hlink hfits.2
  | free =>
    obtain ⟨hreplies, -, hchannel⟩ := hfits
    rw [hreplies]
    simp only [nullReplies, ok_bind]
    rw [userDisconnectCallback_fault hm₁ hown₁ hat₁ (by decide) (by rw [hscon]; exact hchannel)]
    rfl
  | busy =>
    obtain ⟨hle, -, hchannel⟩ := hfits
    rcases hreplies : (h.sconns p).replies with _ | ⟨c, _ | ⟨c', replies⟩⟩
    · exact absurd ⟨hat, hreplies⟩ hnot
    · obtain ⟨h₂, hcall, t⟩ := commandCallback_busy hown₁ hat₁ c none
      have hfault := userDisconnectCallback_fault (h := h₂) (p := p) (t.muduo.trans hm₁)
        (by rw [t.sconns]; exact hown₁) (t.at hat₁) (by decide) (by rw [t.sconns, hscon]; exact hchannel)
      simp only [nullReplies, hcall, ok_bind, pure_bind, hfault]
      rfl
    · rw [hreplies] at hle
      simp at hle

/-! ## Connecting -/

/-- The object after one turn of the loop in `connect`. -/
def afterConnectOne (h : Hiredis κ) : Hiredis κ :=
  { h with
    allocated := h.allocated + 1
    sconns := Function.update h.sconns h.allocated
      { connId := Int32.ofNat h.allocated, channel := true, link := .connecting, replies := [], misused := false }
    inactiveConns := h.inactiveConns.insert (Int32.ofNat h.allocated) h.allocated }

theorem connectOne_eq (h : Hiredis κ) : h.connectOne (Int32.ofNat h.allocated) = .ok h.afterConnectOne := by
  unfold connectOne setChannel useChannel
  simp only [setScon, Function.update_self, ok_bind, Bool.false_eq_true, if_false, if_true, Function.update_idem]
  rfl

theorem connectLoop_cons (h : Hiredis κ) (is : List Int32) :
    h.connectLoop (Int32.ofNat h.allocated :: is) = h.afterConnectOne.connectLoop is := by
  rw [connectLoop, connectOne_eq, ok_bind]

theorem Inv.fresh (hi : h.Inv) (hlt : h.allocated < h.nconns.toInt.toNat) (w : Place) :
    (h.map w)[Int32.ofNat h.allocated]? = none := by
  rcases hentry : (h.map w)[Int32.ofNat h.allocated]? with _ | q
  · rfl
  · obtain ⟨hq, hid⟩ := hi.entry w _ q hentry
    have hn := h.nconns.toInt_lt
    have := ofNat_inj (by omega) (hi.lt hq) hid
    omega

theorem Inv.afterConnectOne (hi : h.Inv) (hlt : h.allocated < h.nconns.toInt.toNat) : h.afterConnectOne.Inv := by
  have hn := h.nconns.toInt_lt
  have hne : ∀ q, q < h.allocated → Int32.ofNat q ≠ Int32.ofNat h.allocated := fun q hq heq => by
    have := ofNat_inj (hi.lt hq) (by omega) heq
    omega
  have hmap : ∀ w i, i ≠ Int32.ofNat h.allocated → (h.afterConnectOne.map w)[i]? = (h.map w)[i]? := by
    intro w i hi
    cases w
    · exact getElem?_insert_ne hi
    · rfl
    · rfl
  have hlast : h.afterConnectOne.At .inactive h.allocated := by
    intro w
    cases w
    · exact getElem?_insert_same
    · exact hi.fresh hlt .free
    · exact hi.fresh hlt .busy
  constructor
  · exact hi.muduo
  · exact hlt
  · intro q hq
    rcases Nat.lt_succ_iff_lt_or_eq.mp hq with hq | rfl
    · show (Function.update h.sconns h.allocated _ q).connId = _
      rw [Function.update_of_ne (Nat.ne_of_lt hq)]
      exact hi.own q hq
    · show (Function.update h.sconns h.allocated _ h.allocated).connId = _
      rw [Function.update_self]
  · intro q hq
    rcases Nat.lt_succ_iff_lt_or_eq.mp hq with hq | rfl
    · obtain ⟨w, hat, hfits⟩ := hi.place q hq
      refine ⟨w, fun w' => (hmap w' _ (hne q hq)).trans (hat w'), ?_⟩
      show Fits (Function.update h.sconns h.allocated _ q) w
      rw [Function.update_of_ne (Nat.ne_of_lt hq)]
      exact hfits
    · refine ⟨.inactive, hlast, ?_⟩
      show Fits (Function.update h.sconns h.allocated _ h.allocated) .inactive
      rw [Function.update_self]
      exact ⟨rfl, nofun⟩
  · intro w i q hq
    by_cases hid : i = Int32.ofNat h.allocated
    · rw [hid, hlast w] at hq
      split at hq <;> cases hq
      exact ⟨Nat.lt_succ_self _, hid⟩
    · rw [hmap w i hid] at hq
      obtain ⟨hlt', hid'⟩ := hi.entry w i q hq
      exact ⟨Nat.lt_succ_of_lt hlt', hid'⟩

/-- What `connect` leaves: every connection inactive. -/
structure Opened (s n : Int32) (h : Hiredis κ) : Prop where
  inv : h.Inv
  serverId : h.serverId = s
  nconns : h.nconns = n
  allocated : h.allocated = n.toInt.toNat
  free : h.activeFreeConns = ∅
  busy : h.activeBusyConn = ∅

theorem connectLoop_spec (hi : h.Inv) (hfree : h.activeFreeConns = ∅) (hbusy : h.activeBusyConn = ∅) (k : Nat)
    (hk : h.allocated + k = h.nconns.toInt.toNat) :
    ∃ h', h.connectLoop ((List.range' h.allocated k).map Int32.ofNat) = .ok h' ∧ Opened h.serverId h.nconns h' := by
  induction k generalizing h with
  | zero => exact ⟨h, rfl, hi, rfl, rfl, hk, hfree, hbusy⟩
  | succ k ih =>
    obtain ⟨h', hloop, hc⟩ := ih (hi.afterConnectOne (by omega)) hfree hbusy
      (show h.allocated + 1 + k = h.nconns.toInt.toNat by omega)
    refine ⟨h', ?_, hc⟩
    rw [List.range'_succ, List.map_cons, connectLoop_cons]
    exact hloop

theorem inv_create (serverId nconns : Int32) : (create serverId nconns : Hiredis κ).Inv := by
  refine ⟨rfl, Nat.zero_le _, nofun, nofun, ?_⟩
  intro w i p hp
  cases w <;> exact absurd hp (by simp [Hiredis.map, create])

/-- **`connect` opens all connections.** -/
theorem connect_spec (serverId nconns : Int32) :
    ∃ h : Hiredis κ, (create serverId nconns).connect = .ok h ∧ Opened serverId nconns h := by
  obtain ⟨h, hloop, hc⟩ := connectLoop_spec (inv_create serverId nconns) rfl rfl nconns.toInt.toNat (Nat.zero_add _)
  refine ⟨h, ?_, hc⟩
  rw [connect, if_pos (show (create serverId nconns : Hiredis κ).inactiveConns.isEmpty = true from rfl), ids,
    List.range_eq_range']
  exact hloop

/-- With nothing in the active maps nothing is being done. -/
theorem slot_down (hfree : h.activeFreeConns = ∅) (hbusy : h.activeBusyConn = ∅) (p : Nat) : h.slot p = .down := by
  have hplace : h.placeOf p = .inactive := by
    unfold placeOf map
    rw [hfree, hbusy]
    simp
  rw [slot, hplace]
  exact ite_self _

end Hiredis
end DictionaryServer
