/-
Requests handed from the I/O thread to the base loop.

The functor a dispatching call queues finds the message it was queued for as
long as that call has not returned. In runs where every functor is run in that
time, what runs is what was handed over, in order (`ran_prefix`). The base loop
does nothing to keep to it: the call may return, and the next frame may have
its message at the same address (`ran_next`).
-/
import DictionaryServer.Message.WireFormat
import DictionaryServer.ProxyServer.Threads

namespace DictionaryServer.Threads

open Lib
open ProxyServer (oneServer opened opened_start)

variable {W : WireFormatLite} {conf : Configure} {charSigned : Bool} {t t' : Threads conf}

theorem output_eq (t : Threads conf) (shutdowns : List TcpConnectionPtr) :
    ∃ conns, t.output shutdowns = { t with conns := conns } := by
  induction shutdowns generalizing t with
  | nil => exact ⟨t.conns, rfl⟩
  | cons conn shutdowns ih =>
    obtain ⟨conns, hconns⟩ := ih (t.shutdown conn)
    exact ⟨conns, hconns⟩

/-- What the base loop does changes the proxy and the connections only. -/
theorem proxyEvent_eq {e : ProxyServer.Event conf} {ran : List (TcpConnectionPtr × Message)} {observed : Observed}
    (h : t.proxyEvent charSigned e ran = .ok (t', observed)) :
    ∃ proxy effect conns, t.proxy.exec charSigned e = .ok (proxy, effect) ∧
      t' = { t with proxy := proxy, conns := conns } ∧ observed = { ran := ran, shutdowns := effect.shutdowns } := by
  obtain ⟨⟨proxy, effect⟩, hcall, heq⟩ := bind_ok h
  obtain ⟨conns, hconns⟩ := output_eq { t with proxy := proxy } effect.shutdowns
  cases heq
  exact ⟨proxy, effect, conns, hcall, hconns, rfl⟩

theorem event_takes {f : PendingFunctor} {seen : Message} (h : f.takes seen) (accepted : Bool) :
    ∃ e : ProxyServer.Event conf, f.event seen accepted = some e ∧ e.client = some f.conn := by
  cases seen with
  | query m =>
    have htask : f.task = .queryInLoop := h
    exact ⟨.query f.conn m accepted, by simp only [PendingFunctor.event, htask], rfl⟩
  | set m =>
    have htask : f.task = .setInLoop := h
    exact ⟨.set f.conn m accepted, by simp only [PendingFunctor.event, htask], rfl⟩
  | reply m | empty m => cases h

theorem runFunctor_eq {seen : Message} {accepted : Bool} {observed : Observed} (he : t.Enabled (.run seen accepted))
    (h : t.runFunctor charSigned seen accepted = .ok (t', observed)) :
    ∃ f pendingFunctors e, t.pendingFunctors = f :: pendingFunctors ∧ t.Finds f seen ∧
      f.event seen accepted = some e ∧ e.client = some f.conn ∧
      { t with pendingFunctors := pendingFunctors }.proxyEvent charSigned e [(f.conn, seen)] = .ok (t', observed) := by
  obtain ⟨f, pendingFunctors, hpending, hfinds⟩ := he
  obtain ⟨e, hevent, hclient⟩ : ∃ e : ProxyServer.Event conf, f.event seen accepted = some e ∧ e.client = some f.conn :=
    event_takes hfinds.1 accepted
  refine ⟨f, pendingFunctors, e, hpending, hfinds, hevent, hclient, ?_⟩
  rw [runFunctor, hpending] at h
  simp only [hevent] at h
  exact h

theorem onProtobufMessage_eq {conn : TcpConnectionPtr} {message : Message} {a : Addr}
    (h : t.onProtobufMessage conn message a = some t') : ∃ f : PendingFunctor,
      f.conn = conn ∧ f.message = a ∧ f.call = t.calls ∧ f.takes message ∧
      t' = { t with
        concrete := Function.update t.concrete a (some message)
        pendingFunctors := t.pendingFunctors ++ [f]
        calls := t.calls + 1 } := by
  cases message with
  | query m => cases h; exact ⟨⟨.queryInLoop, conn, a, t.calls⟩, rfl, rfl, rfl, rfl, rfl⟩
  | set m => cases h; exact ⟨⟨.setInLoop, conn, a, t.calls⟩, rfl, rfl, rfl, rfl, rfl⟩
  | reply m | empty m => cases h

/-! ## What waits in the queue -/

/-- A functor was queued for `w`, and as long as the call that queued it has
not returned it finds it. -/
structure Waits (t : Threads conf) (f : PendingFunctor) (w : TcpConnectionPtr × Message) : Prop where
  conn : f.conn = w.1
  takes : f.takes w.2
  call : f.call < t.calls
  lives : ∀ conn a n, t.io = .dispatch conn a n f.call → t.concrete f.message = some w.2

def handed (labels : List (Event conf × Observed)) : List (TcpConnectionPtr × Message) :=
  labels.flatMap fun l => l.2.handed

def ran (labels : List (Event conf × Observed)) : List (TcpConnectionPtr × Message) :=
  labels.flatMap fun l => l.2.ran

/-- What was handed over was run, or waits. -/
def HandedOver (handed ran : List (TcpConnectionPtr × Message)) (t : Threads conf) : Prop :=
  ∃ waiting, handed = ran ++ waiting ∧ List.Forall₂ (Waits t) t.pendingFunctors waiting

/-- A functor is run before the call that queued it has returned. -/
def InTime (t : Threads conf) (l : Event conf × Observed) (_ : Threads conf) : Prop :=
  ∀ seen accepted, l.1 = .run seen accepted →
    ∃ f pendingFunctors conn a n, t.pendingFunctors = f :: pendingFunctors ∧ t.io = .dispatch conn a n f.call

variable {h r : List (TcpConnectionPtr × Message)}

theorem HandedOver.quiet (hw : HandedOver h r t) (hpending : t'.pendingFunctors = t.pendingFunctors)
    (hcalls : t'.calls = t.calls)
    (hio : ∀ conn a n call, t'.io = .dispatch conn a n call → t'.io = t.io ∧ t'.concrete = t.concrete) :
    HandedOver h r t' := by
  obtain ⟨waiting, heq, hall⟩ := hw
  refine ⟨waiting, heq, ?_⟩
  rw [hpending]
  refine hall.imp fun f w hf => ⟨hf.conn, hf.takes, hcalls ▸ hf.call, fun conn a n hdispatch => ?_⟩
  obtain ⟨hsame, hconcrete⟩ := hio conn a n f.call hdispatch
  rw [hconcrete]
  exact hf.lives conn a n (hsame ▸ hdispatch)

theorem HandedOver.silent (hw : HandedOver h r t) {observed : Observed} (hhanded : observed.handed = [])
    (hran : observed.ran = []) (hpending : t'.pendingFunctors = t.pendingFunctors) (hcalls : t'.calls = t.calls)
    (hio : ∀ conn a n call, t'.io = .dispatch conn a n call → t'.io = t.io ∧ t'.concrete = t.concrete) :
    HandedOver (h ++ observed.handed) (r ++ observed.ran) t' := by
  simp only [hhanded, hran, List.append_nil]
  exact hw.quiet hpending hcalls hio

theorem HandedOver.dispatch (hw : HandedOver h r t) {conn : TcpConnectionPtr} {message : Message} {a : Addr} {n : Nat}
    (hcall : t.onProtobufMessage conn message a = some t') :
    HandedOver (h ++ [(conn, message)]) r { t' with io := .dispatch conn a n t.calls } := by
  obtain ⟨waiting, heq, hall⟩ := hw
  obtain ⟨f, hconn, hmessage, hf, htakes, rfl⟩ := onProtobufMessage_eq hcall
  refine ⟨waiting ++ [(conn, message)], by rw [heq, List.append_assoc], List.rel_append ?_ (.cons ?_ .nil)⟩
  · -- The functors of earlier calls have smaller numbers.
    refine hall.imp fun f' w hf' => ⟨hf'.conn, hf'.takes, Nat.lt_succ_of_lt hf'.call, fun _ _ _ hdispatch => ?_⟩
    obtain ⟨-, -, -, hcalls⟩ := IoThread.dispatch.inj hdispatch
    exact absurd hf'.call (hcalls ▸ lt_irrefl _)
  · refine ⟨hconn, htakes, hf ▸ Nat.lt_succ_self _, ?_⟩
    intro _ _ _ _
    show Function.update t.concrete a (some message) f.message = _
    rw [hmessage, Function.update_self]

theorem HandedOver.run (hw : HandedOver h r t) {f : PendingFunctor} {pendingFunctors : List PendingFunctor}
    (hpending : t.pendingFunctors = f :: pendingFunctors) {seen : Message} (hfinds : t.Finds f seen)
    {conn : TcpConnectionPtr} {a : Addr} {n : Nat} (hio : t.io = .dispatch conn a n f.call) :
    HandedOver h (r ++ [(f.conn, seen)]) { t with pendingFunctors := pendingFunctors } := by
  obtain ⟨waiting, heq, hall⟩ := hw
  rw [hpending] at hall
  cases hall with
  | @cons _ w _ waiting hf hall =>
    have hseen : seen = w.2 := hfinds.2 w.2 (hf.lives conn a n hio) hf.takes
    have hpair : (f.conn, seen) = w := Prod.ext hf.conn hseen
    refine ⟨waiting, by rw [heq, hpair, List.append_assoc]; rfl, ?_⟩
    exact hall.imp fun f w hf => ⟨hf.conn, hf.takes, hf.call, hf.lives⟩

/-- **A step in time keeps it.** -/
theorem HandedOver.exec (hw : HandedOver h r t) {e : Event conf} {observed : Observed} (he : t.Enabled e)
    (hx : t.exec W charSigned e = .ok (t', observed)) (hin : InTime t (e, observed) t') :
    HandedOver (h ++ observed.handed) (r ++ observed.ran) t' := by
  cases e with
  | up conn | down conn =>
    cases hx
    exact hw.silent rfl rfl rfl rfl fun _ _ _ _ _ => ⟨rfl, rfl⟩
  | read conn chunk =>
    cases hx
    exact hw.silent rfl rfl rfl rfl nofun
  | decode a =>
    obtain ⟨⟨conn, hio⟩, -⟩ := he
    rw [Threads.exec, hio] at hx
    simp only [Except.ok.injEq, onMessage] at hx
    split at hx
    · cases hx
      exact hw.silent rfl rfl rfl rfl nofun
    · unfold defaultErrorCallback at hx
      split at hx <;> cases hx <;> exact hw.silent rfl rfl rfl rfl nofun
    · split at hx
      · next hcall =>
        cases hx
        simp only [List.append_nil]
        exact hw.dispatch hcall
      · cases hx
        exact hw.silent rfl rfl rfl rfl fun _ _ _ _ _ => ⟨rfl, rfl⟩
  | returned =>
    obtain ⟨conn, a, n, call, hio⟩ := he
    rw [Threads.exec, hio] at hx
    cases hx
    exact hw.silent rfl rfl rfl rfl nofun
  | run seen accepted =>
    obtain ⟨f, pendingFunctors, e, hpending, hfinds, -, -, hcall⟩ := runFunctor_eq he hx
    obtain ⟨f', _, conn, a, n, hpending', hio⟩ := hin seen accepted rfl
    cases hpending.symm.trans hpending'
    obtain ⟨proxy, effect, conns, -, rfl, rfl⟩ := proxyEvent_eq hcall
    simp only [List.append_nil]
    exact (hw.run hpending hfinds hio).quiet rfl rfl fun _ _ _ _ _ => ⟨rfl, rfl⟩
  | redis i e =>
    obtain ⟨proxy, effect, conns, -, rfl, rfl⟩ := proxyEvent_eq hx
    exact hw.silent rfl rfl rfl rfl fun _ _ _ _ _ => ⟨rfl, rfl⟩

/-- **Requests survive the hand-over** in runs where every functor is run
before the call that queued it has returned: the functors run have the client
and the message of the calls of `onQuery` and `onSet`, in order. -/
theorem ran_prefix {t₀ : Threads conf} {labels : List (Event conf × Observed)}
    (h₀ : (system W conf charSigned).start t₀) (hr : ((system W conf charSigned).restrict InTime).Run t₀ labels t) :
    ran labels <+: handed labels := by
  have hover : HandedOver (handed labels) (ran labels) t := by
    induction hr with
    | nil => exact ⟨[], rfl, by rw [h₀.2.2.2.2.1]; exact .nil⟩
    | snoc _ hstep ih =>
      obtain ⟨⟨he, hx⟩, hin⟩ := hstep
      have hnext := ih.exec he hx hin
      simpa [handed, ran] using hnext
  obtain ⟨waiting, heq, -⟩ := hover
  exact ⟨waiting, heq.symm⟩

/-! ## Two requests in one buffer -/

/-- The first request of a client, and its second. -/
def firstSet : Message := .set { key := ofText "k", value := ofText "1" }
def secondSet : Message := .set { key := ofText "k", value := ofText "2" }

theorem encodable_set (msg : Message.Set) (hutf8 : ValidUtf8 msg.key ∧ ValidUtf8 msg.value) (hknown : msg.unknown_fields = [])
    (hfits : (4 + 9 + 1 + (msg.serializeWithCachedSizesToArray wireFormat).length + 4 : Int) ≤ ProtobufCodec.kMaxMessageLen) :
    ProtobufCodec.Encodable (queryProto wireFormat) (Message.set msg) :=
  encodable wireFormat_lawful (m := .set msg) ⟨by simpa [Message.strings] using hutf8, hknown, trivial⟩ hfits

theorem firstSet_encodable : ProtobufCodec.Encodable (queryProto wireFormat) firstSet :=
  encodable_set _ ⟨validUtf8_ofText _, validUtf8_ofText _⟩ rfl (by decide)

theorem secondSet_encodable : ProtobufCodec.Encodable (queryProto wireFormat) secondSet :=
  encodable_set _ ⟨validUtf8_ofText _, validUtf8_ofText _⟩ rfl (by decide)

/-- The frame of a message. -/
def wire (x : Message) : Bytes := ProtobufCodec.frame (queryProto wireFormat) x

theorem wire_ne (x : Message) : wire x ≠ [] := by
  refine List.ne_nil_of_length_pos ?_
  have hlen : (wire x).length = _ := ProtobufCodec.length_frame (P := queryProto wireFormat) x
  omega

theorem front_frame {x : Message} (h : ProtobufCodec.Encodable (queryProto wireFormat) x) {c : TcpConnection} {rest : Bytes}
    (hpeek : c.inputBuffer.peek = wire x ++ rest) : front wireFormat c = .frame x (wire x).length :=
  (ProtobufCodec.turn_congr (hpeek.trans (ProtobufCodec.peek_ofBytes _).symm)).trans
    ((ProtobufCodec.frame_encodes h).frame rest)

theorem peek_returned (t : Threads conf) (conn : TcpConnectionPtr) (a : Addr) (n : Nat) :
    ((t.returned conn a n).conns conn).inputBuffer.peek = (t.conns conn).inputBuffer.peek.drop n := by
  simp [returned, retrieve, setConn, Buffer.peek_retrieve]

/-- A turn that delivers a message. -/
theorem exec_decode {conn : TcpConnectionPtr} {a : Addr} {message : Message} {n : Nat} (hio : t.io = .decode conn)
    (hfront : front W (t.conns conn) = .frame message n) (hcall : t.onProtobufMessage conn message a = some t') :
    t.exec W charSigned (.decode a) =
      .ok ({ t' with io := .dispatch conn a n t.calls }, { handed := [(conn, message)] }) := by
  simp only [exec, hio, onMessage, hfront, hcall]

/-- The program before a client has come. -/
def started (proxy : ProxyServer conf) : Threads conf where
  proxy := proxy
  conns _ := { state := .kConnecting, inputBuffer := .empty }
  io := .poll
  concrete _ := none
  pendingFunctors := []
  calls := 0

theorem started_start : (system wireFormat oneServer true).start (started opened) :=
  ⟨opened_start true, fun _ => rfl, rfl, fun _ => rfl, rfl, rfl⟩

/-- The frames of both requests. -/
def frames : Bytes := wire firstSet ++ wire secondSet

/-- A client is up. -/
def connected (proxy : ProxyServer conf) : Threads conf :=
  (started proxy).setConn 7 { state := .kConnected, inputBuffer := .empty }

/-- Its two requests have been read. -/
def received (proxy : ProxyServer conf) : Threads conf :=
  { connected proxy with io := .decode 7 }.setConn 7 { state := .kConnected, inputBuffer := Buffer.empty.append frames }

/-- The call for the first of them runs, and these functors are in the queue. -/
def queued (proxy : ProxyServer conf) (pendingFunctors : List PendingFunctor) : Threads conf :=
  { received proxy with
    io := .dispatch 7 0 (wire firstSet).length 0
    concrete := Function.update (received proxy).concrete 0 (some firstSet)
    pendingFunctors := pendingFunctors
    calls := 1 }

/-- A step that runs no functor and meets no malformed frame. -/
def Calm (W : WireFormatLite) (t : Threads conf) (l : Event conf × Observed) (_ : Threads conf) : Prop :=
  (∀ seen accepted, l.1 ≠ .run seen accepted) ∧ ∀ conn error, t.io = .decode conn → front W (t.conns conn) ≠ .bad error

theorem Calm.inTime {l : Event conf × Observed} (h : Calm W t l t') : InTime t l t' :=
  fun seen accepted hrun => absurd hrun (h.1 seen accepted)

/-- Where a whole frame is in front. -/
theorem calm_decode {conn : TcpConnectionPtr} {message : Message} {n : Nat} (hio : t.io = .decode conn)
    (hfront : front W (t.conns conn) = .frame message n) (a : Addr) (observed : Observed) :
    Calm W t (.decode a, observed) t' := by
  refine ⟨nofun, ?_⟩
  intro conn' error hio' hbad
  cases hio.symm.trans hio'
  cases hfront.symm.trans hbad

theorem queued_run (charSigned : Bool) (proxy : ProxyServer conf) :
    ((system wireFormat conf charSigned).restrict (Calm wireFormat)).Run (started proxy)
      [(.up 7, {}), (.read 7 frames, {}), (.decode 0, { handed := [(7, firstSet)] })]
      (queued proxy [⟨.setInLoop, 7, 0, 0⟩]) := by
  have hne : frames ≠ [] := List.append_ne_nil_of_left_ne_nil (wire_ne firstSet) _
  have hfront : front wireFormat ((received proxy).conns 7) = .frame firstSet (wire firstSet).length :=
    front_frame firstSet_encodable (Buffer.peek_append _ _)
  have hup : (started proxy).Enabled (.up 7) := ⟨rfl, rfl⟩
  have hread : (connected proxy).Enabled (.read 7 frames) := ⟨rfl, .inl rfl, hne⟩
  have hdecode : (received proxy).Enabled (.decode 0) := ⟨⟨7, rfl⟩, rfl⟩
  have hstep₁ : ((system wireFormat conf charSigned).restrict (Calm wireFormat)).step (started proxy) (.up 7, {})
      (connected proxy) := ⟨⟨hup, rfl⟩, nofun, nofun⟩
  have hstep₂ : ((system wireFormat conf charSigned).restrict (Calm wireFormat)).step (connected proxy)
      (.read 7 frames, {}) (received proxy) := ⟨⟨hread, rfl⟩, nofun, nofun⟩
  have hstep₃ : ((system wireFormat conf charSigned).restrict (Calm wireFormat)).step (received proxy)
      (.decode 0, { handed := [(7, firstSet)] }) (queued proxy [⟨.setInLoop, 7, 0, 0⟩]) :=
    ⟨⟨hdecode, exec_decode rfl hfront rfl⟩, calm_decode rfl hfront _ _⟩
  exact ((System.Run.single hstep₁).snoc hstep₂).snoc hstep₃

/-- The call has returned, and that for the second has its message in the same
place. -/
def requeued (proxy : ProxyServer conf) (pendingFunctors : List PendingFunctor) : Threads conf :=
  { (queued proxy pendingFunctors).returned 7 0 (wire firstSet).length with
    io := .dispatch 7 0 (wire secondSet).length 1
    concrete := Function.update ((queued proxy pendingFunctors).returned 7 0 0).concrete 0 (some secondSet)
    pendingFunctors := pendingFunctors ++ [⟨.setInLoop, 7, 0, 1⟩]
    calls := 2 }

theorem requeued_run (charSigned : Bool) (proxy : ProxyServer conf) (pendingFunctors : List PendingFunctor) :
    ((system wireFormat conf charSigned).restrict (Calm wireFormat)).Run (queued proxy pendingFunctors)
      [(.returned, {}), (.decode 0, { handed := [(7, secondSet)] })] (requeued proxy pendingFunctors) := by
  have hpeek : ((queued proxy pendingFunctors).conns 7).inputBuffer.peek = frames := Buffer.peek_append _ _
  have hfront : front wireFormat (((queued proxy pendingFunctors).returned 7 0 (wire firstSet).length).conns 7) =
      .frame secondSet (wire secondSet).length := by
    have hrest : (((queued proxy pendingFunctors).returned 7 0 (wire firstSet).length).conns 7).inputBuffer.peek =
        wire secondSet ++ [] := by
      rw [peek_returned, hpeek, frames, List.drop_left, List.append_nil]
    exact front_frame secondSet_encodable hrest
  have hreturned : (queued proxy pendingFunctors).Enabled .returned := ⟨7, 0, _, 0, rfl⟩
  have hdecode : ((queued proxy pendingFunctors).returned 7 0 (wire firstSet).length).Enabled (.decode 0) :=
    ⟨⟨7, rfl⟩, rfl⟩
  have hstep₁ : ((system wireFormat conf charSigned).restrict (Calm wireFormat)).step (queued proxy pendingFunctors)
      (.returned, {}) _ := ⟨⟨hreturned, rfl⟩, nofun, nofun⟩
  have hstep₂ : ((system wireFormat conf charSigned).restrict (Calm wireFormat)).step _
      (.decode 0, { handed := [(7, secondSet)] }) (requeued proxy pendingFunctors) :=
    ⟨⟨hdecode, exec_decode rfl hfront rfl⟩, calm_decode rfl hfront _ _⟩
  exact (System.Run.single hstep₁).snoc hstep₂

/-- A functor of the second call finds the second request, and so does one of
the first call that was left. -/
theorem requeued_finds (proxy : ProxyServer conf) (pendingFunctors : List PendingFunctor) (call : Nat) :
    (requeued proxy pendingFunctors).Finds ⟨.setInLoop, 7, 0, call⟩ secondSet :=
  ⟨rfl, fun _ hmessage _ => Option.some_inj.mp hmessage⟩

theorem queued_finds (proxy : ProxyServer conf) (pendingFunctors : List PendingFunctor) :
    (queued proxy pendingFunctors).Finds ⟨.setInLoop, 7, 0, 0⟩ firstSet :=
  ⟨rfl, fun _ hmessage _ => Option.some_inj.mp hmessage⟩

/-- The first functor is run at once. -/
theorem ran_prefix_set : ∃ (labels : List (Event oneServer × Observed)) (t : Threads oneServer),
    ((system wireFormat oneServer true).restrict InTime).Run (started opened) labels t ∧
      ran labels = [(7, firstSet)] ∧ ran labels <+: handed labels := by
  obtain ⟨t, hx⟩ : ∃ t, (queued opened [⟨.setInLoop, 7, 0, 0⟩]).exec wireFormat true (.run firstSet false) =
      .ok (t, { ran := [(7, firstSet)] }) := ⟨_, rfl⟩
  have he : (queued opened [⟨.setInLoop, 7, 0, 0⟩]).Enabled (.run firstSet false) :=
    ⟨_, [], rfl, queued_finds opened _⟩
  have hin : InTime (queued opened [⟨.setInLoop, 7, 0, 0⟩]) (.run firstSet false, { ran := [(7, firstSet)] }) t :=
    fun _ _ _ => ⟨_, [], 7, 0, _, rfl, rfl⟩
  have hcalm := (queued_run true opened).restrict_mono fun _ _ _ => Calm.inTime
  have hr := hcalm.snoc (a := (.run firstSet false, { ran := [(7, firstSet)] })) ⟨⟨he, hx⟩, hin⟩
  exact ⟨_, t, hr, rfl, ran_prefix started_start hr⟩

/-- **The second request runs for the first**: its functor is run when the call
of the first has returned and that of the second is under way. -/
theorem ran_next : ∃ (labels : List (Event oneServer × Observed)) (t : Threads oneServer),
    (system wireFormat oneServer true).start (started opened) ∧
      (system wireFormat oneServer true).Run (started opened) labels t ∧
      handed labels = [(7, firstSet), (7, secondSet)] ∧ ran labels = [(7, secondSet)] ∧
        ¬ran labels <+: handed labels := by
  obtain ⟨t, hx⟩ : ∃ t, (requeued opened [⟨.setInLoop, 7, 0, 0⟩]).exec wireFormat true (.run secondSet false) =
      .ok (t, { ran := [(7, secondSet)] }) := ⟨_, rfl⟩
  have he : (requeued opened [⟨.setInLoop, 7, 0, 0⟩]).Enabled (.run secondSet false) :=
    ⟨_, _, rfl, requeued_finds opened _ 0⟩
  have hstep : (system wireFormat oneServer true).step (requeued opened [⟨.setInLoop, 7, 0, 0⟩])
      (.run secondSet false, { ran := [(7, secondSet)] }) t := ⟨he, hx⟩
  have hr := ((queued_run true opened).trans (requeued_run true opened _)).of_restrict.snoc hstep
  refine ⟨_, t, started_start, hr, rfl, rfl, ?_⟩
  intro hprefix
  have hhead : (7, secondSet) = ((7, firstSet) : TcpConnectionPtr × Message) := (List.cons_prefix_cons.mp hprefix).1
  exact absurd (Prod.ext_iff.mp hhead).2 (by decide)

end DictionaryServer.Threads
