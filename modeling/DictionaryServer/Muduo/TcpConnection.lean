/-
What a connection writes (muduo/net/TcpConnection.cc: `send`, `sendInLoop`,
`handleWrite`, `shutdown`, `shutdownInLoop`, `handleClose`).

`sendInLoop` gives the socket what it takes and keeps the rest in
`outputBuffer_`, which `handleWrite` empties as the socket takes more. Other
threads only test the state, and queue a functor.

Each thread goes through its calls one after the other. The test of the state,
its change and the queueing of the functor are steps of their own: the comments
in the source say that nothing makes them one. The connection is as
`connectEstablished` leaves it. The callbacks that this program never sets, of
a finished write and of the high water mark, are left out.
-/
import DictionaryServer.Muduo.Buffer
import DictionaryServer.Muduo.EventLoop
import DictionaryServer.ProxyServer.Threads

namespace DictionaryServer.Muduo

open Lib

/-- What `write` returns. -/
inductive Written
  | wrote (n : Nat)
  | EWOULDBLOCK
  | EPIPE
  | other
  deriving DecidableEq

/-- How much of the data is gone. -/
def Written.nwrote : Written → Nat
  | .wrote n => n
  | .EWOULDBLOCK | .EPIPE | .other => 0

/-- The sending half of a socket. -/
structure Socket where
  /-- The bytes it took. -/
  wire : Bytes
  shutdownWrite : Bool
  /-- It has said `EPIPE`. -/
  broken : Bool

namespace Socket

def write (s : Socket) (data : Bytes) : Written → Socket
  | .wrote n => { s with wire := s.wire ++ data.take n }
  | .EPIPE => { s with broken := true }
  | .EWOULDBLOCK | .other => s

/-- What a `write` of `len` bytes can return. Nothing is taken after the end
of the stream, nor once the peer is gone. -/
def Allows (s : Socket) (len : Nat) : Written → Prop
  | .wrote n => n ≤ len ∧ s.shutdownWrite = false ∧ s.broken = false
  | .EWOULDBLOCK | .EPIPE | .other => True

end Socket

/-- A functor of the connection in its loop's queue. -/
inductive Functor
  | sendInLoop (message : Bytes)
  | shutdownInLoop
  deriving DecidableEq

/-- What another thread calls. -/
inductive Call
  | send (message : Bytes)
  | shutdown
  deriving DecidableEq

/-- Where such a thread is. -/
inductive Inside
  | outside
  /-- In `send`, which found the connection connected. -/
  | sending (message : Bytes)
  /-- In `shutdown`, which found it connected. -/
  | shutting
  /-- In `shutdown`, with the functor still to queue. -/
  | closing
  deriving DecidableEq

structure TcpConnection where
  state : StateE
  outputBuffer : Buffer
  /-- `channel_->isWriting()` -/
  writing : Bool
  socket : Socket
  pendingFunctors : List Functor
  calls : Thread → List Call
  inside : Thread → Inside

namespace TcpConnection

/-- The rest goes into the output buffer. -/
def keep (c : TcpConnection) (rest : Bytes) : TcpConnection :=
  { c with outputBuffer := c.outputBuffer.append rest, writing := true }

def sendInLoop (c : TcpConnection) (data : Bytes) (w : Written) : TcpConnection :=
  if c.state = .kDisconnected then c
  else if c.writing = false ∧ c.outputBuffer.readableBytes = 0 then
    let c' := { c with socket := c.socket.write data w }
    if w = .EPIPE ∨ data.length ≤ w.nwrote then c' else c'.keep (data.drop w.nwrote)
  else if data = [] then c
  else c.keep data

def shutdownInLoop (c : TcpConnection) : TcpConnection :=
  if c.writing then c else { c with socket := { c.socket with shutdownWrite := true } }

/-- The output buffer is empty: `disableWriting`, and the end of the stream if
it was asked for. -/
def drained (c : TcpConnection) : TcpConnection :=
  if c.state = .kDisconnecting then { c with writing := false }.shutdownInLoop else { c with writing := false }

/-- `outputBuffer_.retrieve(n)` and what follows. -/
def retrieve (c : TcpConnection) (n : Nat) : TcpConnection :=
  if (c.outputBuffer.retrieve n).readableBytes = 0 then { c with outputBuffer := c.outputBuffer.retrieve n }.drained
  else { c with outputBuffer := c.outputBuffer.retrieve n }

def handleWrite (c : TcpConnection) (w : Written) : TcpConnection :=
  if c.writing = false then c
  else if w.nwrote = 0 then { c with socket := c.socket.write c.outputBuffer.peek w }
  else { c with socket := c.socket.write c.outputBuffer.peek w }.retrieve w.nwrote

/-- `handleClose`, and what `connectDestroyed` does when it comes first. -/
def handleClose (c : TcpConnection) : TcpConnection := { c with state := .kDisconnected, writing := false }

/-- A thread goes into its next call, as far as the test of the state. -/
def test (c : TcpConnection) (t : Thread) (call : Call) (calls : List Call) : TcpConnection :=
  { c with
    calls := Function.update c.calls t calls
    inside := Function.update c.inside t <|
      match call, decide (c.state = .kConnected) with
      | .send message, true => .sending message
      | .shutdown, true => .shutting
      | _, false => .outside }

def queueInLoop (c : TcpConnection) (t : Thread) (f : Functor) : TcpConnection :=
  { c with pendingFunctors := c.pendingFunctors ++ [f], inside := Function.update c.inside t .outside }

def setState (c : TcpConnection) (t : Thread) : TcpConnection :=
  { c with state := .kDisconnecting, inside := Function.update c.inside t .closing }

/-! ## Runs -/

inductive Label
  /-- A thread makes a call; whether it found the connection connected. -/
  | test (t : Thread) (call : Call) (connected : Bool)
  | queueSend (t : Thread) (message : Bytes)
  | setState (t : Thread)
  | queueShutdown (t : Thread)
  | sendInLoop (message : Bytes) (w : Written)
  | shutdownInLoop
  /-- `send` in the loop's own thread. -/
  | sendHere (message : Bytes) (w : Written)
  | shutdownHere
  | handleWrite (w : Written)
  | handleClose

inductive Step (c : TcpConnection) : Label → TcpConnection → Prop
  | test {t call calls} (hinside : c.inside t = .outside) (hcalls : c.calls t = call :: calls) :
      Step c (.test t call (c.state = .kConnected)) (c.test t call calls)
  | queueSend {t message} (hinside : c.inside t = .sending message) :
      Step c (.queueSend t message) (c.queueInLoop t (.sendInLoop message))
  | setState {t} (hinside : c.inside t = .shutting) : Step c (.setState t) (c.setState t)
  | queueShutdown {t} (hinside : c.inside t = .closing) : Step c (.queueShutdown t) (c.queueInLoop t .shutdownInLoop)
  | sendInLoop {message w pendingFunctors} (hpending : c.pendingFunctors = .sendInLoop message :: pendingFunctors)
      (hw : c.socket.Allows message.length w) :
      Step c (.sendInLoop message w) ({ c with pendingFunctors := pendingFunctors }.sendInLoop message w)
  | shutdownInLoop {pendingFunctors} (hpending : c.pendingFunctors = .shutdownInLoop :: pendingFunctors) :
      Step c .shutdownInLoop { c with pendingFunctors := pendingFunctors }.shutdownInLoop
  | sendHere {message w} (hstate : c.state = .kConnected) (hw : c.socket.Allows message.length w) :
      Step c (.sendHere message w) (c.sendInLoop message w)
  | shutdownHere (hstate : c.state = .kConnected) :
      Step c .shutdownHere { c with state := .kDisconnecting }.shutdownInLoop
  | handleWrite {w} (hw : c.socket.Allows c.outputBuffer.readableBytes w) : Step c (.handleWrite w) (c.handleWrite w)
  | handleClose (hstate : c.state = .kConnected ∨ c.state = .kDisconnecting) : Step c .handleClose c.handleClose

/-- A connection as `connectEstablished` leaves it, and any program of the
other threads. -/
def system : System TcpConnection Label where
  start c := c.state = .kConnected ∧ c.outputBuffer = .empty ∧ c.writing = false ∧
    c.socket = { wire := [], shutdownWrite := false, broken := false } ∧ c.pendingFunctors = [] ∧
    ∀ t, c.inside t = .outside
  step := Step

/-- The messages `send` took, in order. -/
def accepted (labels : List Label) : List Bytes :=
  labels.filterMap fun
    | .test _ (.send message) true => some message
    | .sendHere message _ => some message
    | _ => none

/-- The messages `sendInLoop` was called with, in order. -/
def ran (labels : List Label) : List Bytes :=
  labels.filterMap fun
    | .sendInLoop message _ => some message
    | .sendHere message _ => some message
    | _ => none

@[simp] theorem accepted_append (as bs : List Label) : accepted (as ++ bs) = accepted as ++ accepted bs := by
  simp [accepted]

@[simp] theorem ran_append (as bs : List Label) : ran (as ++ bs) = ran as ++ ran bs := by
  simp [ran]

variable {c c' c₀ : TcpConnection} {l : Label} {labels : List Label} {message : Bytes} {w : Written}

/-! ## What a write does -/

/-- What was taken and what waits to be written. -/
def output (c : TcpConnection) : Bytes := c.socket.wire ++ c.outputBuffer.peek

/-- The poller watches for room exactly while something waits. -/
def Watched (c : TcpConnection) : Prop := c.writing = true ↔ c.outputBuffer.peek ≠ []

theorem readableBytes_eq_zero {b : Buffer} : b.readableBytes = 0 ↔ b.peek = [] := by
  rw [← Buffer.length_peek, List.length_eq_zero_iff]

theorem Socket.write_broken {s : Socket} (hb : s.broken = true) {data : Bytes} (h : s.Allows data.length w) :
    s.write data w = s := by
  cases w with
  | wrote n => exact absurd hb (by simp [h.2.2])
  | EPIPE => cases s; cases hb; rfl
  | EWOULDBLOCK | other => rfl

theorem Socket.write_wire {s : Socket} {data : Bytes} (hb : (s.write data w).broken = false) :
    (s.write data w).wire = s.wire ++ data.take w.nwrote := by
  cases w with
  | wrote n => rfl
  | EPIPE => cases hb
  | EWOULDBLOCK | other => simp [Socket.write, Written.nwrote]

theorem Socket.write_shutdownWrite (s : Socket) (data : Bytes) (w : Written) :
    (s.write data w).shutdownWrite = s.shutdownWrite := by
  cases w <;> rfl

theorem Socket.write_mono {s : Socket} {data : Bytes} (hb : (s.write data w).broken = false) : s.broken = false := by
  cases w with
  | EPIPE => cases hb
  | wrote | EWOULDBLOCK | other => exact hb

/-- What one call of `sendInLoop` makes of a connection that is not closed. -/
structure Sent (c : TcpConnection) (message : Bytes) (c' : TcpConnection) : Prop where
  state : c'.state = c.state
  pendingFunctors : c'.pendingFunctors = c.pendingFunctors
  calls : c'.calls = c.calls
  inside : c'.inside = c.inside
  shutdownWrite : c'.socket.shutdownWrite = c.socket.shutdownWrite
  watched : c'.Watched
  broken : c.socket.broken = true → c'.socket = c.socket
  unbroken : c'.socket.broken = false → c.socket.broken = false
  wire : c'.socket.wire = c.socket.wire ∨ c'.socket.broken = false
  output : c'.socket.broken = false → c'.output = c.output ++ message

theorem Socket.write_or {s : Socket} {data : Bytes} (h : s.Allows data.length w) :
    (s.write data w).wire = s.wire ∨ (s.write data w).broken = false := by
  cases w with
  | wrote n => exact .inr h.2.2
  | EWOULDBLOCK | EPIPE | other => exact .inl rfl

theorem keep_watched {rest : Bytes} (h : rest ≠ []) : (c.keep rest).Watched := by
  refine iff_of_true rfl ?_
  show (c.outputBuffer.append rest).peek ≠ []
  rw [Buffer.peek_append]
  exact List.append_ne_nil_of_right_ne_nil _ h

theorem sendInLoop_sent (hopen : c.state ≠ .kDisconnected) (hwatched : c.Watched)
    (hw : c.socket.Allows message.length w) : Sent c message (c.sendInLoop message w) := by
  unfold sendInLoop
  rw [if_neg hopen]
  split
  · next hdirect =>
    have hpeek := readableBytes_eq_zero.mp hdirect.2
    split
    · next hdone =>
      refine ⟨rfl, rfl, rfl, rfl, Socket.write_shutdownWrite _ _ _, hwatched, fun hb => Socket.write_broken hb hw,
        Socket.write_mono, Socket.write_or hw, ?_⟩
      intro hb
      have hall : message.length ≤ w.nwrote := by
        rcases hdone with rfl | hall
        · cases hb
        · exact hall
      simp only [output, Socket.write_wire hb, hpeek, List.append_nil, List.take_of_length_le hall]
    · next hrest =>
      have hne : message.drop w.nwrote ≠ [] := by
        have hlt := not_le.mp (not_or.mp hrest).2
        simpa using hlt
      refine ⟨rfl, rfl, rfl, rfl, Socket.write_shutdownWrite _ _ _, keep_watched hne, fun hb => Socket.write_broken hb hw,
        Socket.write_mono, Socket.write_or hw, ?_⟩
      intro hb
      simp only [output, keep, Buffer.peek_append, Socket.write_wire hb, hpeek, List.append_nil, List.nil_append,
        List.append_assoc, List.take_append_drop]
  · split
    · next hnil =>
      subst hnil
      exact ⟨rfl, rfl, rfl, rfl, rfl, hwatched, fun _ => rfl, id, .inl rfl, fun _ => (List.append_nil _).symm⟩
    · next hne =>
      refine ⟨rfl, rfl, rfl, rfl, rfl, keep_watched hne, fun _ => rfl, id, .inl rfl, fun _ => ?_⟩
      simp only [output, keep, Buffer.peek_append, List.append_assoc]

/-- After `shutdownInLoop` the stream has ended, or there is still something
to write. -/
theorem shutdownInLoop_eq (c : TcpConnection) :
    (c.writing = true ∧ c.shutdownInLoop = c) ∨
      (c.writing = false ∧ c.shutdownInLoop = { c with socket := { c.socket with shutdownWrite := true } }) := by
  cases hwriting : c.writing <;> simp [shutdownInLoop, hwriting]

/-- What `handleWrite` makes of a connection. -/
structure Flushed (c c' : TcpConnection) : Prop where
  state : c'.state = c.state
  pendingFunctors : c'.pendingFunctors = c.pendingFunctors
  calls : c'.calls = c.calls
  inside : c'.inside = c.inside
  watched : c'.Watched
  broken : c.socket.broken = true → c'.socket.wire = c.socket.wire ∧ c'.socket.broken = true
  unbroken : c'.socket.broken = false → c.socket.broken = false
  wire : c'.socket.wire = c.socket.wire ∨ c'.socket.broken = false
  output : c'.socket.broken = false → c'.output = c.output
  /-- It ends the stream when it has written everything, and only if someone
  asked for it. -/
  ends : c'.socket.shutdownWrite = true → c.socket.shutdownWrite = true ∨
    c.state = .kDisconnecting ∧ c.outputBuffer.peek ≠ [] ∧ c'.outputBuffer.peek = []
  ended : c.socket.shutdownWrite = true → c'.socket.shutdownWrite = true
  emptied : c.writing = true → c'.writing = false → c.state = .kDisconnecting → c'.socket.shutdownWrite = true

theorem drained_eq (c : TcpConnection) : c.drained =
    { c with
      writing := false
      socket := { c.socket with shutdownWrite := c.socket.shutdownWrite || decide (c.state = .kDisconnecting) } } := by
  by_cases hstate : c.state = .kDisconnecting <;> simp [drained, shutdownInLoop, hstate]

/-- It is not retrieved before it was taken. -/
theorem output_retrieve {s : Socket} (hs : s = c.socket.write c.outputBuffer.peek w) (hb : s.broken = false) :
    s.wire ++ (c.outputBuffer.retrieve w.nwrote).peek = c.output := by
  rw [hs] at hb ⊢
  rw [Socket.write_wire hb, Buffer.peek_retrieve, List.append_assoc, List.take_append_drop, output]

theorem handleWrite_flushed (hwatched : c.Watched) (hw : c.socket.Allows c.outputBuffer.readableBytes w) :
    Flushed c (c.handleWrite w) := by
  have hw' : c.socket.Allows c.outputBuffer.peek.length w := by rwa [Buffer.length_peek]
  have hbroken : c.socket.broken = true → (c.socket.write c.outputBuffer.peek w).wire = c.socket.wire ∧
      (c.socket.write c.outputBuffer.peek w).broken = true := by
    intro hb
    rw [Socket.write_broken hb hw']
    exact ⟨rfl, hb⟩
  have hshut := Socket.write_shutdownWrite c.socket c.outputBuffer.peek w
  cases hwriting : c.writing with
  | false =>
    rw [handleWrite, if_pos hwriting]
    exact ⟨rfl, rfl, rfl, rfl, hwatched, fun hb => ⟨rfl, hb⟩, id, .inl rfl, fun _ => rfl, .inl, id,
      fun htrue => absurd (hwriting.symm.trans htrue) (by simp)⟩
  | true =>
    have hne := hwatched.mp hwriting
    rw [handleWrite, if_neg (by simp [hwriting])]
    split
    · next hzero =>
      refine ⟨rfl, rfl, rfl, rfl, hwatched, hbroken, Socket.write_mono, Socket.write_or hw', ?_, fun hend => .inl (hshut.symm.trans hend), hshut.trans, ?_⟩
      · intro hb
        simp only [output, Socket.write_wire hb, hzero, List.take_zero, List.append_nil]
      · exact fun _ hstopped => absurd (hwriting.symm.trans hstopped) (by simp)
    · rw [retrieve]
      split
      · next hempty =>
        have hpeek := readableBytes_eq_zero.mp hempty
        rw [drained_eq]
        refine ⟨rfl, rfl, rfl, rfl, iff_of_false Bool.false_ne_true (by simpa using hpeek),
          hbroken, Socket.write_mono, Socket.write_or hw', fun hb => output_retrieve rfl hb, ?_, ?_, ?_⟩
        · intro hend
          simp only [hshut, Bool.or_eq_true, decide_eq_true_eq] at hend
          exact hend.imp id fun hstate => ⟨hstate, hne, hpeek⟩
        · intro hend
          simp [hshut, hend]
        · intro _ _ hstate
          simp [hstate]
      · next hrest =>
        have hpeek := fun h => hrest (readableBytes_eq_zero.mpr h)
        refine ⟨rfl, rfl, rfl, rfl, iff_of_true hwriting hpeek, hbroken, Socket.write_mono, Socket.write_or hw',
          fun hb => output_retrieve rfl hb, fun hend => .inl (hshut.symm.trans hend), hshut.trans, ?_⟩
        exact fun _ hstopped => absurd (hwriting.symm.trans hstopped) (by simp)

/-! ## What the peer gets -/

/-- Nobody is between the two halves of `shutdown` when the connection closes. -/
def Untorn (c : TcpConnection) (l : Label) (_ : TcpConnection) : Prop := l = .handleClose → ∀ t, c.inside t ≠ .shutting

/-- Where the messages `sendInLoop` was called with are. -/
structure Account (c : TcpConnection) (messages : List Bytes) : Prop where
  sent : c.socket.wire <+: messages.flatten
  whole : c.state ≠ .kDisconnected → c.socket.broken = false → c.output = messages.flatten
  watched : c.state ≠ .kDisconnected → c.Watched
  closed : c.state = .kDisconnected → c.writing = false ∧ ∀ t, c.inside t ≠ .shutting

theorem wire_of_output {messages : Bytes} (h : c.output = messages) : c.socket.wire <+: messages := by
  rw [← h, output]
  exact List.prefix_append _ _

theorem Account.sent_more {messages : List Bytes} (h : Account c messages) (hopen : c.state ≠ .kDisconnected)
    (hs : Sent c message c') : Account c' (messages ++ [message]) := by
  have hopen' : c'.state ≠ .kDisconnected := hs.state ▸ hopen
  have hwhole : c'.socket.broken = false → c'.output = (messages ++ [message]).flatten := by
    intro hb
    rw [hs.output hb, h.whole hopen (hs.unbroken hb)]
    simp
  refine ⟨?_, fun _ => hwhole, fun _ => hs.watched, fun hclosed => absurd hclosed hopen'⟩
  rcases hs.wire with hwire | hb
  · rw [hwire, List.flatten_append]
    exact h.sent.trans (List.prefix_append _ _)
  · exact wire_of_output (hwhole hb)

theorem Account.flushed {messages : List Bytes} (h : Account c messages) (hopen : c.state ≠ .kDisconnected)
    (hf : Flushed c c') : Account c' messages := by
  have hopen' : c'.state ≠ .kDisconnected := hf.state ▸ hopen
  have hwhole : c'.socket.broken = false → c'.output = messages.flatten := by
    intro hb
    rw [hf.output hb, h.whole hopen (hf.unbroken hb)]
  refine ⟨?_, fun _ => hwhole, fun _ => hf.watched, fun hclosed => absurd hclosed hopen'⟩
  rcases hf.wire with hwire | hb
  · rw [hwire]
    exact h.sent
  · exact wire_of_output (hwhole hb)

theorem Account.drop {messages : List Bytes} (h : Account c messages) (hclosed : c.state = .kDisconnected)
    (more : List Bytes) : Account c (messages ++ more) := by
  refine ⟨?_, fun hopen => absurd hclosed hopen, fun hopen => absurd hclosed hopen, h.closed⟩
  rw [List.flatten_append]
  exact h.sent.trans (List.prefix_append _ _)

theorem Account.shutdown {messages : List Bytes} (h : Account c messages) : Account c.shutdownInLoop messages := by
  rcases shutdownInLoop_eq c with ⟨-, heq⟩ | ⟨-, heq⟩ <;> rw [heq]
  · exact h
  · exact ⟨h.sent, h.whole, h.watched, h.closed⟩

theorem inside_update_ne {c : TcpConnection} {t : Thread} {i : Inside} (h : ∀ t, c.inside t ≠ .shutting)
    (hi : i ≠ .shutting) (t' : Thread) : Function.update c.inside t i t' ≠ .shutting := by
  by_cases ht : t' = t
  · subst ht
    simpa using hi
  · simpa [ht] using h t'

theorem Account.step {messages : List Bytes} (h : Account c messages) (hs : Step c l c') (hu : Untorn c l c') :
    Account c' (messages ++ ran [l]) := by
  cases hs with
  | @test t call calls =>
    rw [show ran [Label.test t call _] = [] from rfl, List.append_nil]
    refine ⟨h.sent, h.whole, h.watched, fun hclosed => ?_⟩
    have hstate : c.state = .kDisconnected := hclosed
    obtain ⟨hwriting, hinside⟩ := h.closed hstate
    refine ⟨hwriting, inside_update_ne hinside ?_⟩
    cases call <;> simp [hstate]
  | queueSend | queueShutdown =>
    exact (List.append_nil messages).symm ▸
      ⟨h.sent, h.whole, h.watched, fun hclosed => ⟨(h.closed hclosed).1, inside_update_ne (h.closed hclosed).2 (by simp)⟩⟩
  | @setState t hinside =>
    have hopen : c.state ≠ .kDisconnected := fun hclosed => (h.closed hclosed).2 t hinside
    rw [show ran [Label.setState t] = [] from rfl, List.append_nil]
    exact ⟨h.sent, fun _ => h.whole hopen, fun _ => h.watched hopen, nofun⟩
  | @sendInLoop message w pendingFunctors hpending hw =>
    rw [show ran [Label.sendInLoop message w] = [message] from rfl]
    have h' : Account { c with pendingFunctors := pendingFunctors } messages := ⟨h.sent, h.whole, h.watched, h.closed⟩
    by_cases hstate : c.state = .kDisconnected
    · rw [TcpConnection.sendInLoop, if_pos hstate]
      exact h'.drop hstate _
    · exact h'.sent_more hstate (sendInLoop_sent hstate (h.watched hstate) hw)
  | @shutdownInLoop pendingFunctors hpending =>
    rw [show ran [Label.shutdownInLoop] = [] from rfl, List.append_nil]
    have h' : Account { c with pendingFunctors := pendingFunctors } messages := ⟨h.sent, h.whole, h.watched, h.closed⟩
    exact h'.shutdown
  | @sendHere message w hstate hw =>
    have hopen : c.state ≠ .kDisconnected := by simp [hstate]
    exact h.sent_more hopen (sendInLoop_sent hopen (h.watched hopen) hw)
  | shutdownHere hstate =>
    have hopen : c.state ≠ .kDisconnected := by simp [hstate]
    rw [show ran [Label.shutdownHere] = [] from rfl, List.append_nil]
    have h' : Account { c with state := .kDisconnecting } messages :=
      ⟨h.sent, fun _ => h.whole hopen, fun _ => h.watched hopen, nofun⟩
    exact h'.shutdown
  | @handleWrite w hw =>
    rw [show ran [Label.handleWrite w] = [] from rfl, List.append_nil]
    by_cases hstate : c.state = .kDisconnected
    · rw [TcpConnection.handleWrite, if_pos (h.closed hstate).1]
      exact h
    · exact h.flushed hstate (handleWrite_flushed (h.watched hstate) hw)
  | handleClose =>
    rw [show ran [Label.handleClose] = [] from rfl, List.append_nil]
    exact ⟨h.sent, fun hopen => absurd rfl hopen, fun hopen => absurd rfl hopen, fun _ => ⟨rfl, hu rfl⟩⟩

theorem account_start (h₀ : system.start c) : Account c [] := by
  obtain ⟨hstate, hbuffer, hwriting, hsocket, -, hinside⟩ := h₀
  refine ⟨by simp [hsocket], fun _ _ => ?_, fun _ => ?_, fun hclosed => absurd hclosed (by simp [hstate])⟩
  · simp [output, hsocket, hbuffer]
  · simp [Watched, hwriting, hbuffer]

/-- **Nothing is lost, repeated or reordered**, however the socket cuts what it
is given. The peer has a prefix of the messages, and until the connection is
closed or broken the output buffer has the rest, which the poller watches for
room to write. -/
theorem wire_account (h₀ : system.start c₀) (hr : (system.restrict Untorn).Run c₀ labels c) :
    c.socket.wire <+: (ran labels).flatten ∧
      (c.state ≠ .kDisconnected → c.socket.broken = false →
        c.socket.wire ++ c.outputBuffer.peek = (ran labels).flatten ∧ (c.writing = true ↔ c.outputBuffer.peek ≠ [])) := by
  have haccount : Account c (ran labels) := by
    induction hr with
    | nil => exact account_start h₀
    | snoc _ hs ih =>
      rw [ran_append]
      exact ih.step hs.1 hs.2
  exact ⟨haccount.sent, fun hopen hb => ⟨haccount.whole hopen hb, haccount.watched hopen⟩⟩

/-- A connection as it starts, where the threads have this to call. -/
def established (calls : Thread → List Call) : TcpConnection where
  state := .kConnected
  outputBuffer := .empty
  writing := false
  socket := { wire := [], shutdownWrite := false, broken := false }
  pendingFunctors := []
  calls := calls
  inside _ := .outside

theorem established_start (calls : Thread → List Call) : system.start (established calls) :=
  ⟨rfl, rfl, rfl, rfl, rfl, fun _ => rfl⟩

/-- The socket takes one of two bytes. -/
def halfSent : TcpConnection :=
  keep { established (fun _ => []) with socket := { wire := [1], shutdownWrite := false, broken := false } } [2]

theorem sendInLoop_halfSent : (established fun _ => []).sendInLoop [1, 2] (.wrote 1) = halfSent := by
  simp [sendInLoop, established, halfSent, readableBytes_eq_zero, Written.nwrote, Socket.write]

theorem wire_account_one : ∃ labels c, (system.restrict Untorn).Run (established fun _ => []) labels c ∧
    c.socket.wire = [1] ∧ c.outputBuffer.peek = [2] := by
  have h₁ : (system.restrict Untorn).step (established fun _ => []) (.sendHere [1, 2] (.wrote 1)) halfSent := by
    rw [← sendInLoop_halfSent]
    exact ⟨Step.sendHere rfl ⟨by decide, rfl, rfl⟩, fun heq => by cases heq⟩
  have hr := System.Run.single h₁
  have hrest := ((wire_account (established_start _) hr).2 nofun rfl).1
  have hwire : halfSent.socket.wire = [1] := rfl
  have hran : (ran [.sendHere [1, 2] (.wrote 1)]).flatten = [1, 2] := rfl
  rw [hwire, hran] at hrest
  exact ⟨_, _, hr, hwire, by simpa using hrest⟩

end TcpConnection
end DictionaryServer.Muduo
