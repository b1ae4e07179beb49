/-
The end of the stream (`TcpConnection::shutdown`, muduo/net/TcpConnection.cc).

`shutdown` sets the state at once and queues the rest, and `handleWrite` ends
the stream as soon as it has written all it was given and finds that state.
What another thread sent may still be in the loop's queue then, and is lost
(`last_message_lost`). Where one thread makes the calls and sends only when
nothing is under way, everything it sent goes out before the stream ends
(`closed_whole`).
-/
import DictionaryServer.Muduo.TcpConnection

namespace DictionaryServer.Muduo

open Lib

/-- The messages in the queue. -/
def sends (functors : List Functor) : List Bytes :=
  functors.filterMap fun
    | .sendInLoop message => some message
    | .shutdownInLoop => none

@[simp] theorem sends_append (fs gs : List Functor) : sends (fs ++ gs) = sends fs ++ sends gs := by
  simp [sends]

@[simp] theorem sends_nil : sends [] = [] := rfl

@[simp] theorem sends_sendInLoop (message : Bytes) (fs : List Functor) :
    sends (.sendInLoop message :: fs) = message :: sends fs := rfl

@[simp] theorem sends_shutdownInLoop (fs : List Functor) : sends (.shutdownInLoop :: fs) = sends fs := rfl

/-- The message a thread has been told it may queue. -/
def Inside.message : Inside → List Bytes
  | .sending message => [message]
  | .outside | .shutting | .closing => []

namespace TcpConnection

variable {base : Thread} {c c' c₀ : TcpConnection} {l : Label} {labels : List Label}

/-- Everything that was sent is written. -/
def Idle (c : TcpConnection) : Prop := c.outputBuffer.peek = [] ∧ sends c.pendingFunctors = []

/-- Only `base` calls, it sends when nothing is under way, and the connection
stays open. -/
def OneAtATime (base : Thread) (c : TcpConnection) (l : Label) (_ : TcpConnection) : Prop :=
  match l with
  | .test t call connected => t = base ∧ ∀ message, call = .send message → connected = true → c.Idle
  | .sendHere _ _ | .shutdownHere | .handleClose => False
  | .queueSend _ _ | .setState _ | .queueShutdown _ | .sendInLoop _ _ | .shutdownInLoop | .handleWrite _ => True

/-- A message is partly written. -/
def halfway (b : Buffer) : Nat := if b.peek = [] then 0 else 1

theorem halfway_eq_zero {b : Buffer} : halfway b = 0 ↔ b.peek = [] := by
  by_cases h : b.peek = [] <;> simp [halfway, h]

theorem halfway_le (b : Buffer) : halfway b ≤ 1 := by
  by_cases h : b.peek = [] <;> simp [halfway, h]

/-- How many messages are under way. -/
def load (base : Thread) (c : TcpConnection) : Nat :=
  halfway c.outputBuffer + (sends c.pendingFunctors).length + (c.inside base).message.length

structure Closing (base : Thread) (c : TcpConnection) (messages : List Bytes) : Prop where
  others : ∀ t ≠ base, c.inside t = .outside
  opened : c.state = .kConnected ∨ c.state = .kDisconnecting
  watched : c.Watched
  account : c.socket.broken = false →
    messages.flatten = c.output ++ (sends c.pendingFunctors).flatten ++ (c.inside base).message.flatten
  alone : c.load base ≤ 1
  order : ∀ fs gs, c.pendingFunctors = fs ++ .shutdownInLoop :: gs → sends gs = []
  asked : .shutdownInLoop ∈ c.pendingFunctors ∨ c.socket.shutdownWrite = true ∨ c.inside base = .closing →
    c.state = .kDisconnecting
  settled : c.state = .kDisconnecting → c.inside base = .outside ∨ c.inside base = .closing
  ended : c.socket.shutdownWrite = true → c.load base = 0
  ends : c.state = .kDisconnecting → c.inside base ≠ .closing → .shutdownInLoop ∉ c.pendingFunctors →
    c.writing = true ∨ c.socket.shutdownWrite = true

namespace Closing

variable {messages : List Bytes}

theorem base_of_inside (h : Closing base c messages) {t : Thread} {i : Inside} (hi : i ≠ .outside)
    (hinside : c.inside t = i) : t = base := by
  by_contra ht
  exact hi (hinside ▸ h.others t ht)

theorem others_update (h : Closing base c messages) (i : Inside) :
    ∀ t ≠ base, Function.update c.inside base i t = .outside := by
  intro t ht
  simpa [ht] using h.others t ht

theorem not_asked (h : Closing base c messages) (hstate : c.state = .kConnected) :
    .shutdownInLoop ∉ c.pendingFunctors ∧ c.socket.shutdownWrite ≠ true ∧ c.inside base ≠ .closing := by
  have hne : c.state ≠ .kDisconnecting := by simp [hstate]
  exact ⟨fun hmem => hne (h.asked (.inl hmem)), fun hend => hne (h.asked (.inr (.inl hend))),
    fun hclosing => hne (h.asked (.inr (.inr hclosing)))⟩

theorem connected_of_sending (h : Closing base c messages) {i : Inside} (hinside : c.inside base = i)
    (hi : i ≠ .outside ∧ i ≠ .closing) : c.state = .kConnected := by
  rcases h.opened with hstate | hstate
  · exact hstate
  · rcases h.settled hstate with hin | hin
    · exact absurd (hinside.symm.trans hin) hi.1
    · exact absurd (hinside.symm.trans hin) hi.2

theorem queueSend (h : Closing base c messages) {message : Bytes} (hinside : c.inside base = .sending message) :
    Closing base (c.queueInLoop base (.sendInLoop message)) messages := by
  have hstate := h.connected_of_sending hinside ⟨by simp, by simp⟩
  obtain ⟨hpending, hend, -⟩ := h.not_asked hstate
  have hload : (c.queueInLoop base (.sendInLoop message)).load base = c.load base := by
    simp [load, queueInLoop, hinside, Inside.message, Nat.add_assoc]
  refine ⟨h.others_update _, h.opened, h.watched, ?_, hload ▸ h.alone, ?_, ?_, ?_, ?_, ?_⟩
  · intro hb
    rw [h.account hb]
    simp [queueInLoop, output, hinside, Inside.message]
  · intro fs gs hfs
    have hmem : Functor.shutdownInLoop ∈ c.pendingFunctors ++ [.sendInLoop message] := by
      rw [show c.pendingFunctors ++ [.sendInLoop message] = fs ++ .shutdownInLoop :: gs from hfs]
      simp
    exact absurd (by simpa using hmem) hpending
  · intro hasked
    simp only [queueInLoop, List.mem_append, List.mem_singleton, Function.update_self] at hasked
    simp [hpending, hend] at hasked
  · exact fun hclosing => absurd (hstate.symm.trans hclosing) (by simp)
  · exact fun hshut => absurd hshut hend
  · exact fun hclosing => absurd (hstate.symm.trans hclosing) (by simp)

theorem setState (h : Closing base c messages) (hinside : c.inside base = .shutting) :
    Closing base (c.setState base) messages := by
  have hstate := h.connected_of_sending hinside ⟨by simp, by simp⟩
  obtain ⟨-, hend, -⟩ := h.not_asked hstate
  have hload : (c.setState base).load base = c.load base := by
    simp [load, TcpConnection.setState, hinside, Inside.message]
  refine ⟨h.others_update _, .inr rfl, h.watched, ?_, hload ▸ h.alone, h.order, fun _ => rfl, ?_, ?_, ?_⟩
  · intro hb
    rw [h.account hb]
    simp [TcpConnection.setState, output, hinside, Inside.message]
  · exact fun _ => .inr (Function.update_self _ _ _)
  · exact fun hshut => absurd hshut hend
  · exact fun _ hclosing => absurd (Function.update_self _ _ _) hclosing

theorem queueShutdown (h : Closing base c messages) (hinside : c.inside base = .closing) :
    Closing base (c.queueInLoop base .shutdownInLoop) messages := by
  have hstate := h.asked (.inr (.inr hinside))
  have hload : (c.queueInLoop base .shutdownInLoop).load base = c.load base := by
    simp [load, queueInLoop, hinside, Inside.message]
  refine ⟨h.others_update _, h.opened, h.watched, ?_, hload ▸ h.alone, ?_, fun _ => hstate, ?_, hload ▸ h.ended, ?_⟩
  · intro hb
    rw [h.account hb]
    simp [queueInLoop, output, hinside, Inside.message]
  · intro fs gs hfs
    change c.pendingFunctors ++ [.shutdownInLoop] = fs ++ .shutdownInLoop :: gs at hfs
    rcases List.eq_nil_or_concat gs with rfl | ⟨gs', g, rfl⟩
    · rfl
    · rw [List.concat_eq_append, ← List.cons_append, ← List.append_assoc] at hfs
      obtain ⟨hold, hlast⟩ := List.append_inj' hfs rfl
      rw [← List.singleton_inj.mp hlast, List.concat_eq_append, sends_append, h.order fs gs' hold]
      rfl
  · exact fun _ => .inl (Function.update_self _ _ _)
  · exact fun _ _ hpending => absurd (List.mem_append_right _ (List.mem_singleton_self _)) hpending

theorem test (h : Closing base c messages) {call : Call} {calls : List Call} (hinside : c.inside base = .outside)
    (hidle : ∀ message, call = .send message → c.state = .kConnected → c.Idle) :
    Closing base (c.test base call calls) (messages ++ accepted [.test base call (c.state = .kConnected)]) := by
  rcases h.opened with hstate | hstate
  · obtain ⟨hpending, hend, -⟩ := h.not_asked hstate
    have hasked : .shutdownInLoop ∈ c.pendingFunctors ∨ c.socket.shutdownWrite = true ∨
        (c.test base call calls).inside base = .closing → c.state = .kDisconnecting := by
      intro hasked
      rcases hasked with hmem | hshut | hclosing
      · exact absurd hmem hpending
      · exact absurd hshut hend
      · cases call <;> simp [TcpConnection.test, hstate] at hclosing
    cases call with
    | send message =>
      obtain ⟨hpeek, hsends⟩ := hidle message rfl hstate
      refine ⟨h.others_update _, h.opened, h.watched, ?_, ?_, h.order, hasked,
        fun hclosing => absurd (hstate.symm.trans hclosing) (by simp), fun hshut => absurd hshut hend,
        fun hclosing => absurd (hstate.symm.trans hclosing) (by simp)⟩
      · intro hb
        simp [h.account hb, TcpConnection.test, hstate, hinside, Inside.message, accepted, output]
      · simp [load, TcpConnection.test, hstate, halfway_eq_zero.mpr hpeek, hsends, Inside.message]
    | shutdown =>
      have hload : (c.test base .shutdown calls).load base = c.load base := by
        simp [load, TcpConnection.test, hstate, hinside, Inside.message]
      refine ⟨h.others_update _, h.opened, h.watched, ?_, hload ▸ h.alone, h.order, hasked,
        fun hclosing => absurd (hstate.symm.trans hclosing) (by simp), fun hshut => absurd hshut hend,
        fun hclosing => absurd (hstate.symm.trans hclosing) (by simp)⟩
      intro hb
      simp [h.account hb, TcpConnection.test, hstate, hinside, Inside.message, accepted, output]
  · have hsame : (c.test base call calls).inside = c.inside := by
      have hupdate : (c.test base call calls).inside = Function.update c.inside base .outside := by
        cases call <;> simp [TcpConnection.test, hstate]
      rw [hupdate, ← hinside, Function.update_eq_self]
    have hload : (c.test base call calls).load base = c.load base := by
      rw [load, hsame]
      rfl
    have hnone : accepted [.test base call (decide (c.state = .kConnected))] = [] := by simp [accepted, hstate]
    rw [hnone, List.append_nil]
    refine ⟨fun t ht => hsame ▸ h.others t ht, h.opened, h.watched, fun hb => hsame ▸ h.account hb, hload ▸ h.alone,
      h.order, ?_, fun hclosing => hsame ▸ h.settled hclosing, hload ▸ h.ended, ?_⟩
    · exact fun _ => hstate
    · exact fun hclosing hne => h.ends hclosing (hsame ▸ hne)

theorem sent (h : Closing base c messages) {message : Bytes} {w : Written} {pendingFunctors : List Functor}
    (hpending : c.pendingFunctors = .sendInLoop message :: pendingFunctors) (hw : c.socket.Allows message.length w) :
    Closing base ({ c with pendingFunctors := pendingFunctors }.sendInLoop message w) messages := by
  have hopen : c.state ≠ .kDisconnected := by rcases h.opened with hstate | hstate <;> simp [hstate]
  have hs := sendInLoop_sent (c := { c with pendingFunctors := pendingFunctors }) (w := w) hopen h.watched hw
  obtain ⟨c', hc'⟩ : ∃ c', c' = { c with pendingFunctors := pendingFunctors }.sendInLoop message w := ⟨_, rfl⟩
  rw [← hc'] at hs ⊢
  have halone := h.alone
  simp only [load, hpending, sends_sendInLoop, List.length_cons] at halone
  have hpeek : c.outputBuffer.peek = [] := halfway_eq_zero.mp (by omega)
  have hsends : sends pendingFunctors = [] := List.length_eq_zero_iff.mp (by omega)
  have hinside : (c.inside base).message = [] := List.length_eq_zero_iff.mp (by omega)
  have hnotended : c.socket.shutdownWrite ≠ true := by
    intro hend
    have hload := h.ended hend
    simp only [load, hpending, sends_sendInLoop, List.length_cons] at hload
    omega
  refine ⟨fun t ht => hs.inside ▸ h.others t ht, hs.state ▸ h.opened, hs.watched, ?_, ?_, ?_, ?_, ?_, ?_, ?_⟩
  · intro hb
    rw [h.account (hs.unbroken hb), hs.output hb, hs.pendingFunctors, hs.inside, hpending]
    simp [hsends, hinside, output]
  · have := halfway_le c'.outputBuffer
    simp only [load, hs.pendingFunctors, hs.inside, hsends, hinside]
    simpa using this
  · intro fs gs hfs
    have hrest : pendingFunctors = fs ++ .shutdownInLoop :: gs := hs.pendingFunctors.symm.trans hfs
    exact h.order (.sendInLoop message :: fs) gs (by rw [hpending, hrest]; rfl)
  · intro hasked
    rw [hs.state]
    refine h.asked ?_
    rw [hs.pendingFunctors, hs.shutdownWrite, hs.inside] at hasked
    exact hasked.imp (fun hmem => hpending ▸ List.mem_cons_of_mem _ hmem) id
  · exact fun hclosing => hs.inside ▸ h.settled (hs.state ▸ hclosing)
  · exact fun hend => absurd (hs.shutdownWrite ▸ hend) hnotended
  · intro hclosing hne hmem
    rw [hs.state] at hclosing
    rw [hs.inside] at hne
    rw [hs.pendingFunctors] at hmem
    rcases h.ends hclosing hne (by simp [hpending]; exact hmem) with hwriting | hend
    · exact absurd hpeek (h.watched.mp hwriting)
    · exact absurd hend hnotended

theorem shutdown (h : Closing base c messages) {pendingFunctors : List Functor}
    (hpending : c.pendingFunctors = .shutdownInLoop :: pendingFunctors) :
    Closing base { c with pendingFunctors := pendingFunctors }.shutdownInLoop messages := by
  have hsends : sends pendingFunctors = [] := h.order [] pendingFunctors hpending
  have hstate := h.asked (.inl (hpending ▸ List.mem_cons_self))
  have hinside : (c.inside base).message = [] := by
    rcases h.settled hstate with hin | hin <;> rw [hin] <;> rfl
  have horder : ∀ fs gs, pendingFunctors = fs ++ .shutdownInLoop :: gs → sends gs = [] :=
    fun fs gs hfs => h.order (.shutdownInLoop :: fs) gs (by rw [hpending, hfs]; rfl)
  rcases shutdownInLoop_eq { c with pendingFunctors := pendingFunctors } with ⟨hwriting, heq⟩ | ⟨hwriting, heq⟩ <;>
    rw [heq]
  · refine ⟨h.others, h.opened, h.watched, ?_, ?_, horder, fun _ => hstate, h.settled, ?_, fun _ _ _ => .inl hwriting⟩
    · intro hb
      rw [h.account hb, hpending]
      rfl
    · have halone := h.alone
      rwa [load, hpending] at halone
    · intro hend
      have hload := h.ended hend
      rwa [load, hpending] at hload
  · have hpeek : c.outputBuffer.peek = [] := by
      by_contra hne
      exact absurd (hwriting.symm.trans (h.watched.mpr hne)) (by simp)
    refine ⟨h.others, h.opened, h.watched, ?_, ?_, horder, fun _ => hstate, h.settled, ?_, fun _ _ _ => .inr rfl⟩
    · intro hb
      rw [h.account hb, hpending]
      rfl
    · simp [load, halfway_eq_zero.mpr hpeek, hsends, hinside]
    · intro _
      simp [load, halfway_eq_zero.mpr hpeek, hsends, hinside]

theorem flushed (h : Closing base c messages) {w : Written}
    (hw : c.socket.Allows c.outputBuffer.readableBytes w) : Closing base (c.handleWrite w) messages := by
  cases hwriting : c.writing with
  | false =>
    rw [TcpConnection.handleWrite, if_pos hwriting]
    exact h
  | true =>
    have hf := handleWrite_flushed h.watched hw
    obtain ⟨c', hc'⟩ : ∃ c', c' = c.handleWrite w := ⟨_, rfl⟩
    rw [← hc'] at hf ⊢
    have hpeek := h.watched.mp hwriting
    have halone := h.alone
    simp only [load, halfway, hpeek, if_false] at halone
    have hsends : sends c.pendingFunctors = [] := List.length_eq_zero_iff.mp (by omega)
    have hinside : (c.inside base).message = [] := List.length_eq_zero_iff.mp (by omega)
    have hload : c'.load base = halfway c'.outputBuffer := by
      simp [load, hf.pendingFunctors, hf.inside, hsends, hinside]
    have hnotended : c.socket.shutdownWrite ≠ true := by
      intro hend
      have hzero := h.ended hend
      simp only [load, halfway, hpeek, if_false] at hzero
      omega
    refine ⟨fun t ht => hf.inside ▸ h.others t ht, hf.state ▸ h.opened, hf.watched, ?_, ?_, ?_, ?_, ?_, ?_, ?_⟩
    · intro hb
      rw [h.account (hf.unbroken hb), hf.output hb, hf.pendingFunctors, hf.inside]
    · rw [hload]
      exact halfway_le _
    · exact fun fs gs hfs => h.order fs gs (hf.pendingFunctors ▸ hfs)
    · intro hasked
      rw [hf.state]
      rw [hf.pendingFunctors, hf.inside] at hasked
      rcases hasked with hmem | hend | hclosing
      · exact h.asked (.inl hmem)
      · rcases hf.ends hend with hend | ⟨hstate, -⟩
        · exact h.asked (.inr (.inl hend))
        · exact hstate
      · exact h.asked (.inr (.inr hclosing))
    · exact fun hclosing => hf.inside ▸ h.settled (hf.state ▸ hclosing)
    · intro hend
      rcases hf.ends hend with hend | ⟨-, -, hempty⟩
      · exact absurd hend hnotended
      · rw [hload]
        exact halfway_eq_zero.mpr hempty
    · intro hclosing _ _
      cases hstopped : c'.writing with
      | true => exact .inl rfl
      | false => exact .inr (hf.emptied hwriting hstopped (hf.state ▸ hclosing))

theorem step (h : Closing base c messages) (hs : Step c l c') (ho : OneAtATime base c l c') :
    Closing base c' (messages ++ accepted [l]) := by
  cases hs with
  | @test t call calls hinside hcalls =>
    obtain ⟨rfl, hidle⟩ := ho
    exact h.test hinside fun message hcall hstate => hidle message hcall (by simp [hstate])
  | @queueSend t message hinside =>
    obtain rfl := h.base_of_inside (by simp) hinside
    rw [show accepted [Label.queueSend t message] = [] from rfl, List.append_nil]
    exact h.queueSend hinside
  | @setState t hinside =>
    obtain rfl := h.base_of_inside (by simp) hinside
    rw [show accepted [Label.setState t] = [] from rfl, List.append_nil]
    exact h.setState hinside
  | @queueShutdown t hinside =>
    obtain rfl := h.base_of_inside (by simp) hinside
    rw [show accepted [Label.queueShutdown t] = [] from rfl, List.append_nil]
    exact h.queueShutdown hinside
  | @sendInLoop message w pendingFunctors hpending hw =>
    rw [show accepted [Label.sendInLoop message w] = [] from rfl, List.append_nil]
    exact h.sent hpending hw
  | shutdownInLoop hpending =>
    rw [show accepted [Label.shutdownInLoop] = [] from rfl, List.append_nil]
    exact h.shutdown hpending
  | @handleWrite w hw =>
    rw [show accepted [Label.handleWrite w] = [] from rfl, List.append_nil]
    exact h.flushed hw
  | sendHere | shutdownHere | handleClose => exact ho.elim

theorem start (h₀ : system.start c) : Closing base c [] := by
  obtain ⟨hstate, hbuffer, hwriting, hsocket, hpending, hinside⟩ := h₀
  have hload : c.load base = 0 := by
    simp [load, halfway, hbuffer, hpending, hinside, Inside.message]
  refine ⟨fun t _ => hinside t, .inl hstate, ?_, ?_, by omega, ?_, ?_, ?_, fun _ => hload, ?_⟩
  · simp [Watched, hwriting, hbuffer]
  · simp [output, hsocket, hbuffer, hpending, hinside, Inside.message]
  · simp [hpending]
  · simp [hpending, hsocket, hinside]
  · simp [hstate]
  · simp [hstate]

theorem begun (h : Closing base c messages) (hb : c.socket.broken = false) : c.socket.wire <+: messages.flatten := by
  rw [h.account hb, output, List.append_assoc, List.append_assoc]
  exact List.prefix_append _ _

/-- When the stream has ended all of it is written. -/
theorem whole (h : Closing base c messages) (hend : c.socket.shutdownWrite = true) (hb : c.socket.broken = false) :
    c.socket.wire = messages.flatten := by
  have hload := h.ended hend
  simp only [load, Nat.add_eq_zero_iff, halfway_eq_zero, List.length_eq_zero_iff] at hload
  obtain ⟨⟨hpeek, hsends⟩, hinside⟩ := hload
  rw [h.account hb, output, hpeek, hsends, hinside]
  simp

/-- When nothing is left to do about `shutdown`, the stream has ended or waits
for room. -/
theorem finishes (h : Closing base c messages) (hstate : c.state = .kDisconnecting) (hinside : c.inside base = .outside)
    (hpending : c.pendingFunctors = []) : c.writing = true ∨ c.socket.shutdownWrite = true :=
  h.ends hstate (by simp [hinside]) (by simp [hpending])

end Closing

theorem closing_run (h₀ : system.start c₀) (hr : (system.restrict (OneAtATime base)).Run c₀ labels c) :
    Closing base c (accepted labels) := by
  induction hr with
  | nil => exact .start h₀
  | snoc _ hs ih =>
    rw [accepted_append]
    exact ih.step hs.1 hs.2

/-- **The stream ends after the last byte that was sent**, if messages are sent
one at a time. And it does end: once `shutdown` has set the state and the queue
is empty, the stream has ended or the poller watches for room. -/
theorem closed_whole (h₀ : system.start c₀) (hr : (system.restrict (OneAtATime base)).Run c₀ labels c) :
    (c.socket.shutdownWrite = true → c.socket.broken = false → c.socket.wire = (accepted labels).flatten) ∧
      (c.state = .kDisconnecting → c.inside base = .outside → c.pendingFunctors = [] →
        c.writing = true ∨ c.socket.shutdownWrite = true) :=
  have h := closing_run h₀ hr
  ⟨h.whole, h.finishes⟩

/-! ## Runs of one caller -/

theorem Step.kept {message : Bytes} {fs : List Functor} (hpending : c.pendingFunctors = .sendInLoop message :: fs)
    (hstate : c.state = .kConnected) (hwriting : c.writing = false) (hpeek : c.outputBuffer.peek = [])
    (hne : message ≠ []) :
    system.step c (.sendInLoop message .EWOULDBLOCK) ({ c with pendingFunctors := fs }.keep message) := by
  have hkept : { c with pendingFunctors := fs }.sendInLoop message .EWOULDBLOCK =
      { c with pendingFunctors := fs }.keep message := by
    have hlen : ¬message.length ≤ 0 := by simpa using hne
    rw [TcpConnection.sendInLoop, if_neg (by simp [hstate]), if_pos ⟨hwriting, readableBytes_eq_zero.mpr hpeek⟩]
    simp [Written.nwrote, Socket.write, hne]
  exact hkept ▸ Step.sendInLoop hpending trivial

theorem Step.emptied {n : Nat} (hwriting : c.writing = true) (hpos : 0 < n) (hall : c.outputBuffer.peek.length = n)
    (hend : c.socket.shutdownWrite = false) (hbroken : c.socket.broken = false) :
    system.step c (.handleWrite (.wrote n)) { c with
      socket := c.socket.write c.outputBuffer.peek (.wrote n)
      outputBuffer := c.outputBuffer.retrieve n }.drained := by
  have hempty : (c.outputBuffer.retrieve n).readableBytes = 0 := by
    rw [readableBytes_eq_zero, Buffer.peek_retrieve, List.drop_of_length_le hall.le]
  have hflush : c.handleWrite (.wrote n) = { c with
      socket := c.socket.write c.outputBuffer.peek (.wrote n)
      outputBuffer := c.outputBuffer.retrieve n }.drained := by
    simp [TcpConnection.handleWrite, TcpConnection.retrieve, hwriting, Written.nwrote, hempty, hpos.ne']
  exact hflush ▸ Step.handleWrite ⟨by rw [← Buffer.length_peek, hall], hend, hbroken⟩

/-- Thread 1 has these calls to make. -/
def caller (b : Buffer) (calls : List Call) : TcpConnection :=
  { established (Function.update (fun _ => []) 1 calls) with outputBuffer := b }

/-- A caller that sends one byte and closes has it sent. -/
theorem closed_whole_one : ∃ labels c, (system.restrict (OneAtATime 1)).Run (caller .empty [.send [1], .shutdown]) labels c ∧
    c.socket.shutdownWrite = true ∧ c.socket.wire = [1] := by
  obtain ⟨b, hb⟩ : ∃ b, b = Buffer.empty := ⟨_, rfl⟩
  have hpeek : b.peek = [] := by rw [hb, Buffer.peek_empty]
  have h₀ : system.start (caller b [.send [1], .shutdown]) := ⟨rfl, hb, rfl, rfl, rfl, fun _ => rfl⟩
  rw [← hb]
  have h₁ : (system.restrict (OneAtATime 1)).step (caller b [.send [1], .shutdown]) (.test 1 (.send [1]) true) _ :=
    ⟨Step.test rfl rfl, rfl, fun _ _ _ => ⟨hpeek, rfl⟩⟩
  have hr₂ := (System.Run.single h₁).snoc ⟨Step.queueSend (t := 1) rfl, trivial⟩
  have hr₃ := hr₂.snoc ⟨Step.kept rfl rfl rfl hpeek (List.cons_ne_nil _ _), trivial⟩
  have hr₄ := hr₃.snoc ⟨Step.test (t := 1) rfl rfl, rfl, by intro _ heq; cases heq⟩
  have hr₆ := (hr₄.snoc ⟨Step.setState (t := 1) rfl, trivial⟩).snoc ⟨Step.queueShutdown (t := 1) rfl, trivial⟩
  have hkept : (b.append [1]).peek = [1] := by rw [Buffer.peek_append, hpeek, List.nil_append]
  have hr₇ := hr₆.snoc ⟨Step.emptied (n := 1) rfl (by decide) (congrArg List.length hkept) rfl rfl, trivial⟩
  exact ⟨_, _, hr₇, rfl, (closed_whole h₀ hr₇).1 rfl rfl⟩

/-- **A message that was accepted is lost** when `handleWrite` finishes the one
before it between the two halves of `shutdown`. -/
theorem last_message_lost : ∃ labels c, system.Run (caller .empty [.send [1], .send [2], .shutdown]) labels c ∧
    accepted labels = [[1], [2]] ∧ c.socket.shutdownWrite = true ∧ c.socket.broken = false ∧ c.socket.wire = [1] := by
  obtain ⟨b, hb⟩ : ∃ b, b = Buffer.empty := ⟨_, rfl⟩
  have hpeek : b.peek = [] := by rw [hb, Buffer.peek_empty]
  rw [← hb]
  have h₁ : system.step (caller b [.send [1], .send [2], .shutdown]) (.test 1 (.send [1]) true) _ := Step.test rfl rfl
  have hr₂ := (System.Run.single h₁).snoc (Step.queueSend (t := 1) rfl)
  have hr₃ := hr₂.snoc (Step.kept rfl rfl rfl hpeek (List.cons_ne_nil _ _))
  have hr₅ := (hr₃.snoc (Step.test (t := 1) rfl rfl)).snoc (Step.queueSend (t := 1) rfl)
  have hr₇ := (hr₅.snoc (Step.test (t := 1) rfl rfl)).snoc (Step.setState (t := 1) rfl)
  have hkept : (b.append [1]).peek = [1] := by rw [Buffer.peek_append, hpeek, List.nil_append]
  have hr₈ := hr₇.snoc (Step.emptied (n := 1) rfl (by decide) (congrArg List.length hkept) rfl rfl)
  exact ⟨_, _, hr₈, rfl, rfl, rfl, congrArg (List.take 1) hkept⟩

end TcpConnection
end DictionaryServer.Muduo
