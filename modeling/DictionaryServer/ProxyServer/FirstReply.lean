/-
What a client gets of its answers (`ProxyServer::commandCallback` over
muduo/net/TcpConnection.cc).

`commandCallback` runs in the base loop and calls `send` and then `shutdown`;
the connection is written in the I/O thread. It answers a client once for each
reply that names it. The first answer goes out whole, however the two threads
take turns and the socket cuts it, and what is sent after `shutdown` goes
nowhere (`first_reply_whole`).
-/
import DictionaryServer.Muduo.Shutdown
import DictionaryServer.ProxyServer.Delivery

namespace DictionaryServer

open Lib

namespace Muduo

/-- Each message is sent, and the connection shut down after it. -/
def pairs (messages : List Bytes) : List Call := messages.flatMap fun message => [.send message, .shutdown]

@[simp] theorem pairs_nil : pairs [] = [] := rfl

@[simp] theorem pairs_cons (message : Bytes) (messages : List Bytes) :
    pairs (message :: messages) = .send message :: .shutdown :: pairs messages := rfl

namespace TcpConnection

variable {base : Thread} {c c' c₀ : TcpConnection} {l : Label} {labels : List Label}

/-- The peer is there, and nobody shuts the connection down in its own thread. -/
def Open (_ : TcpConnection) (l : Label) (_ : TcpConnection) : Prop :=
  match l with
  | .sendHere _ _ | .shutdownHere | .handleClose => False
  | .test _ _ _ | .queueSend _ _ | .setState _ | .queueShutdown _ | .sendInLoop _ _ | .shutdownInLoop | .handleWrite _ => True

theorem sendInLoop_frame (c : TcpConnection) (message : Bytes) (w : Written) :
    (c.sendInLoop message w).state = c.state ∧ (c.sendInLoop message w).calls = c.calls ∧
      (c.sendInLoop message w).inside = c.inside := by
  unfold sendInLoop
  split
  · exact ⟨rfl, rfl, rfl⟩
  · split
    · split <;> exact ⟨rfl, rfl, rfl⟩
    · split <;> exact ⟨rfl, rfl, rfl⟩

theorem shutdownInLoop_frame (c : TcpConnection) :
    c.shutdownInLoop.state = c.state ∧ c.shutdownInLoop.calls = c.calls ∧ c.shutdownInLoop.inside = c.inside := by
  unfold shutdownInLoop
  split <;> exact ⟨rfl, rfl, rfl⟩

theorem handleWrite_frame (c : TcpConnection) (w : Written) :
    (c.handleWrite w).state = c.state ∧ (c.handleWrite w).calls = c.calls ∧ (c.handleWrite w).inside = c.inside := by
  unfold handleWrite
  split
  · exact ⟨rfl, rfl, rfl⟩
  · split
    · exact ⟨rfl, rfl, rfl⟩
    · unfold retrieve
      split
      · rw [drained_eq]
        exact ⟨rfl, rfl, rfl⟩
      · exact ⟨rfl, rfl, rfl⟩

/-- How far `base` is with its pairs of calls, and what it had accepted. -/
inductive Turn (base : Thread) (c : TcpConnection) : List Bytes → List Bytes → Prop
  | first {messages} (hstate : c.state = .kConnected) (hinside : c.inside base = .outside)
      (hcalls : c.calls base = pairs messages) (hpending : c.pendingFunctors = []) (hpeek : c.outputBuffer.peek = [])
      (hwriting : c.writing = false) : Turn base c messages []
  | sent {message messages} (hstate : c.state = .kConnected)
      (hinside : c.inside base = .sending message ∨ c.inside base = .outside)
      (hcalls : c.calls base = .shutdown :: pairs messages) : Turn base c (message :: messages) [message]
  | shutting {message messages} (hstate : c.state = .kConnected) (hinside : c.inside base = .shutting) :
      Turn base c (message :: messages) [message]
  | closed {message messages} (hstate : c.state = .kDisconnecting) : Turn base c (message :: messages) [message]

/-- Nobody but `base` calls. -/
def Alone (base : Thread) (c : TcpConnection) : Prop := ∀ t ≠ base, c.calls t = [] ∧ c.inside t = .outside

variable {messages accepted' : List Bytes}

theorem Alone.base_of_calls (h : Alone base c) {t : Thread} {call : Call} {calls : List Call}
    (hcalls : c.calls t = call :: calls) : t = base := by
  by_contra ht
  rw [(h t ht).1] at hcalls
  cases hcalls

theorem Alone.base_of_inside (h : Alone base c) {t : Thread} {i : Inside} (hi : i ≠ .outside)
    (hinside : c.inside t = i) : t = base := by
  by_contra ht
  exact hi (hinside ▸ (h t ht).2)

theorem Alone.update (h : Alone base c) {i : Inside} (calls : List Call)
    (hcalls : c'.calls = c.calls ∨ c'.calls = Function.update c.calls base calls)
    (hinside : c'.inside = Function.update c.inside base i) : Alone base c' := by
  intro t ht
  rcases hcalls with hcalls | hcalls <;> simpa [hcalls, hinside, ht] using h t ht

theorem Alone.frame (h : Alone base c) (hcalls : c'.calls = c.calls) (hinside : c'.inside = c.inside) : Alone base c' := by
  intro t ht
  rw [hcalls, hinside]
  exact h t ht

/-- What the loop does leaves the turn, once something is accepted. -/
theorem Turn.loop (h : Turn base c messages accepted') (hpending : accepted' = [] → c' = c)
    (hframe : c'.state = c.state ∧ c'.calls = c.calls ∧ c'.inside = c.inside) : Turn base c' messages accepted' := by
  obtain ⟨hstate', hcalls', hinside'⟩ := hframe
  cases h with
  | first hstate hinside hcalls hpending' hpeek hwriting =>
    rw [hpending rfl]
    exact .first hstate hinside hcalls hpending' hpeek hwriting
  | sent hstate hinside hcalls =>
    exact .sent (hstate'.trans hstate) (hinside' ▸ hinside) (hcalls' ▸ hcalls)
  | shutting hstate hinside => exact .shutting (hstate'.trans hstate) (hinside' ▸ hinside)
  | closed hstate => exact .closed (hstate'.trans hstate)

theorem Turn.test (h : Turn base c messages accepted') {call : Call} {calls : List Call}
    (hinside : c.inside base = .outside) (hcalls : c.calls base = call :: calls) :
    OneAtATime base c (.test base call (c.state = .kConnected)) (c.test base call calls) ∧
      Turn base (c.test base call calls) messages (accepted' ++ accepted [.test base call (c.state = .kConnected)]) := by
  cases h with
  | first hstate _ hpairs hpending hpeek hwriting =>
    rw [hcalls] at hpairs
    cases messages with
    | nil => cases hpairs
    | cons message messages =>
      rw [pairs_cons] at hpairs
      cases hpairs
      refine ⟨⟨rfl, fun _ _ _ => ⟨hpeek, by rw [hpending]; rfl⟩⟩, ?_⟩
      simp only [hstate, decide_true]
      exact .sent hstate (.inl (by simp [TcpConnection.test, hstate])) (by simp [TcpConnection.test])
  | sent hstate _ hpairs =>
    rw [hcalls] at hpairs
    cases hpairs
    refine ⟨⟨rfl, fun _ heq => by cases heq⟩, ?_⟩
    simp only [hstate, decide_true]
    exact .shutting hstate (by simp [TcpConnection.test, hstate])
  | shutting hstate hshutting => rw [hinside] at hshutting; cases hshutting
  | closed hstate =>
    have hnone : accepted [.test base call (decide (c.state = .kConnected))] = [] := by simp [accepted, hstate]
    rw [hnone, List.append_nil]
    refine ⟨⟨rfl, fun _ _ hconnected => ?_⟩, .closed hstate⟩
    simp [hstate] at hconnected

/-- **A caller of pairs sends one at a time**, and only its first message is
accepted. -/
theorem Turn.step (h : Turn base c messages accepted') (ha : Alone base c) (hs : Step c l c') (ho : Open c l c') :
    OneAtATime base c l c' ∧ Turn base c' messages (accepted' ++ accepted [l]) ∧ Alone base c' := by
  cases hs with
  | @test t call calls hinside hcalls =>
    obtain rfl := ha.base_of_calls hcalls
    obtain ⟨hone, hturn⟩ := h.test hinside hcalls
    exact ⟨hone, hturn, ha.update calls (.inr rfl) rfl⟩
  | @queueSend t message hinside =>
    obtain rfl := ha.base_of_inside (by simp) hinside
    refine ⟨trivial, ?_, ha.update [] (.inl rfl) rfl⟩
    rw [show accepted [Label.queueSend t message] = [] from rfl, List.append_nil]
    cases h with
    | first _ hin => rw [hinside] at hin; cases hin
    | sent hstate _ hcalls => exact .sent hstate (.inr (Function.update_self _ _ _)) hcalls
    | shutting _ hin => rw [hinside] at hin; cases hin
    | closed hstate => exact .closed hstate
  | @setState t hinside =>
    obtain rfl := ha.base_of_inside (by simp) hinside
    refine ⟨trivial, ?_, ha.update [] (.inl rfl) rfl⟩
    rw [show accepted [Label.setState t] = [] from rfl, List.append_nil]
    cases h with
    | first _ hin => rw [hinside] at hin; cases hin
    | sent _ hin => rw [hinside] at hin; simp at hin
    | shutting => exact .closed rfl
    | closed => exact .closed rfl
  | @queueShutdown t hinside =>
    obtain rfl := ha.base_of_inside (by simp) hinside
    refine ⟨trivial, ?_, ha.update [] (.inl rfl) rfl⟩
    rw [show accepted [Label.queueShutdown t] = [] from rfl, List.append_nil]
    cases h with
    | first _ hin => rw [hinside] at hin; cases hin
    | sent _ hin => rw [hinside] at hin; simp at hin
    | shutting _ hin => rw [hinside] at hin; cases hin
    | closed hstate => exact .closed hstate
  | @sendInLoop message w pendingFunctors hpending hw =>
    have hframe := sendInLoop_frame { c with pendingFunctors := pendingFunctors } message w
    rw [show accepted [Label.sendInLoop message w] = [] from rfl, List.append_nil]
    refine ⟨trivial, h.loop (fun hnone => ?_) hframe, ha.frame hframe.2.1 hframe.2.2⟩
    subst hnone
    cases h with
    | first _ _ _ hempty => rw [hpending] at hempty; cases hempty
  | @shutdownInLoop pendingFunctors hpending =>
    have hframe := shutdownInLoop_frame { c with pendingFunctors := pendingFunctors }
    rw [show accepted [Label.shutdownInLoop] = [] from rfl, List.append_nil]
    refine ⟨trivial, h.loop (fun hnone => ?_) hframe, ha.frame hframe.2.1 hframe.2.2⟩
    subst hnone
    cases h with
    | first _ _ _ hempty => rw [hpending] at hempty; cases hempty
  | @handleWrite w hw =>
    have hframe := handleWrite_frame c w
    rw [show accepted [Label.handleWrite w] = [] from rfl, List.append_nil]
    refine ⟨trivial, h.loop (fun hnone => ?_) hframe, ha.frame hframe.2.1 hframe.2.2⟩
    subst hnone
    cases h with
    | first _ _ _ _ _ hwriting => rw [TcpConnection.handleWrite, if_pos hwriting]
  | sendHere | shutdownHere | handleClose => exact ho.elim

theorem turn_run (h₀ : system.start c₀) (hcalls : c₀.calls = Function.update (fun _ => []) base (pairs messages))
    (hr : (system.restrict Open).Run c₀ labels c) :
    (system.restrict (OneAtATime base)).Run c₀ labels c ∧ Turn base c messages (accepted labels) ∧ Alone base c := by
  induction hr with
  | nil =>
    obtain ⟨hstate, hbuffer, hwriting, -, hpending, hinside⟩ := h₀
    refine ⟨.nil, .first hstate (hinside base) (by simp [hcalls]) hpending (by rw [hbuffer, Buffer.peek_empty]) hwriting, ?_⟩
    exact fun t ht => ⟨by simp [hcalls, ht], hinside t⟩
  | snoc _ hs ih =>
    obtain ⟨hr', hturn, halone⟩ := ih
    obtain ⟨hone, hturn', halone'⟩ := hturn.step halone hs.1 hs.2
    rw [accepted_append]
    exact ⟨hr'.snoc ⟨hs.1, hone⟩, hturn', halone'⟩

end TcpConnection
end Muduo

/-! ## The answers -/

namespace Output

/-- Whom it is for. -/
def conn : Output → TcpConnectionPtr
  | .send conn _ => conn
  | .shutdown conn => conn

/-- What is called on the connection. `none` is a stop of the process in
`codec_.send`. -/
def call (W : WireFormatLite) : Output → Option Muduo.Call
  | .send _ answer => (ProtobufCodec.send (queryProto W) (Message.reply answer)).map .send
  | .shutdown _ => some .shutdown

end Output

namespace ProxyServer

open Muduo (pairs)

variable {conf : Configure} {charSigned : Bool} {W : WireFormatLite}

/-- What the server did to its clients. -/
def outputs (labels : List (Event conf × Effect)) : List Output :=
  labels.flatMap fun l => l.2.callbacks.flatMap Prod.snd

/-- The calls on a client's connection. -/
def callsOn (W : WireFormatLite) (conn : TcpConnectionPtr) (outputs : List Output) : Option (List Muduo.Call) :=
  (outputs.filter fun output => output.conn = conn).mapM (Output.call W)

/-- The answers a client was sent. -/
def answersTo (conn : TcpConnectionPtr) (outputs : List Output) : List Message.Reply :=
  outputs.filterMap fun
    | .send conn' answer => if conn' = conn then some answer else none
    | .shutdown _ => none

/-- Answers, each with the shutdown that goes with it. -/
inductive Answers : List Output → Prop
  | nil : Answers []
  | cons {conn answer outputs} (h : Answers outputs) : Answers (.send conn answer :: .shutdown conn :: outputs)

theorem Answers.append {as bs : List Output} (ha : Answers as) (hb : Answers bs) : Answers (as ++ bs) := by
  induction ha with
  | nil => exact hb
  | cons _ ih => exact .cons ih

theorem Answers.flatMap {α : Type} {f : α → List Output} {as : List α} (h : ∀ a ∈ as, Answers (f a)) :
    Answers (as.flatMap f) := by
  induction as with
  | nil => exact .nil
  | cons a as ih =>
    rw [List.flatMap_cons]
    exact (h a List.mem_cons_self).append (ih fun b hb => h b (List.mem_cons_of_mem _ hb))

theorem answers_commandCallback (s : ProxyServer conf) (upcall : Upcall Request) : Answers (s.commandCallback upcall) := by
  unfold commandCallback
  split
  · exact .cons .nil
  · exact .nil

theorem answers_exec {s s' : ProxyServer conf} {e : Event conf} {effect : Effect}
    (hx : s.exec charSigned e = .ok (s', effect)) : Answers (effect.callbacks.flatMap Prod.snd) := by
  cases e with
  | set conn msg accepted | query conn msg accepted =>
    obtain ⟨⟨ret, s''⟩, -, heq⟩ := bind_ok hx
    cases heq
    exact .nil
  | redis i e =>
    obtain ⟨⟨h, upcalls⟩, -, heq⟩ := bind_ok hx
    cases heq
    refine Answers.flatMap fun a ha => ?_
    obtain ⟨upcall, -, rfl⟩ := List.mem_map.mp ha
    exact answers_commandCallback s upcall

theorem answers_run {s₀ s : ProxyServer conf} {labels : List (Event conf × Effect)}
    (hr : (system conf charSigned).Run s₀ labels s) : Answers (outputs labels) := by
  refine Answers.flatMap fun l hl => ?_
  obtain ⟨u, v, -, hx⟩ := hr.step_of_mem hl
  exact answers_exec hx

/-- The frames of the answers. -/
def frames (W : WireFormatLite) (answers : List Message.Reply) : Option (List Bytes) :=
  answers.mapM fun answer => ProtobufCodec.send (queryProto W) (Message.reply answer)

theorem Answers.pairs {outputs : List Output} (h : Answers outputs) (conn : TcpConnectionPtr) {calls : List Muduo.Call}
    (hcalls : callsOn W conn outputs = some calls) :
    ∃ messages, frames W (answersTo conn outputs) = some messages ∧ calls = pairs messages := by
  induction h generalizing calls with
  | nil =>
    cases hcalls
    exact ⟨[], rfl, rfl⟩
  | @cons conn' answer outputs h ih =>
    by_cases hconn : conn' = conn
    · subst hconn
      simp only [callsOn, List.filter_cons, Output.conn, decide_true, if_true, List.mapM_cons, Output.call,
        Option.bind_eq_bind, Option.pure_def, Option.bind_eq_some_iff, Option.map_eq_some_iff, Option.some.injEq] at hcalls
      obtain ⟨_, ⟨bytes, hbytes, rfl⟩, _, ⟨_, rfl, rest, hrest, rfl⟩, rfl⟩ := hcalls
      obtain ⟨messages, hmessages, rfl⟩ := ih hrest
      refine ⟨bytes :: messages, ?_, rfl⟩
      have hfirst : answersTo conn' (.send conn' answer :: .shutdown conn' :: outputs) = answer :: answersTo conn' outputs := by
        simp [answersTo]
      rw [frames] at hmessages
      simp [hfirst, frames, hbytes, hmessages]
    · have hskip : answersTo conn (.send conn' answer :: .shutdown conn' :: outputs) = answersTo conn outputs := by
        simp [answersTo, hconn]
      have hrest : callsOn W conn outputs = some calls := by
        rw [← hcalls]
        simp [callsOn, Output.conn, hconn]
      rw [hskip]
      exact ih hrest

theorem frames_head {answers : List Message.Reply} {message : Bytes} {messages : List Bytes}
    (h : frames W answers = some (message :: messages)) : ∃ answer rest, answers = answer :: rest ∧
      ProtobufCodec.send (queryProto W) (Message.reply answer) = some message := by
  cases answers with
  | nil => cases h
  | cons answer rest =>
    simp only [frames, List.mapM_cons, Option.bind_eq_bind, Option.pure_def, Option.bind_eq_some_iff, Option.some.injEq] at h
    obtain ⟨bytes, hbytes, _, _, heq⟩ := h
    cases heq
    exact ⟨answer, rest, rfl, hbytes⟩

theorem frames_nil {answers : List Message.Reply} (h : frames W answers = some []) : answers = [] := by
  cases answers with
  | nil => rfl
  | cons answer rest => simp [frames, Option.bind_eq_some_iff] at h

/-- **A client gets the first of its answers, whole, and then the end of the
stream**, whatever the server sends it later. What has arrived is always the
beginning of that answer's frame; and once the base loop has made its calls and
the I/O thread has run them, the stream has ended or waits for room. -/
theorem first_reply_whole {s₀ s : ProxyServer conf} {ls : List (Event conf × Effect)}
    (hs : (system conf charSigned).Run s₀ ls s) {conn : TcpConnectionPtr} {calls : List Muduo.Call}
    (hcalls : callsOn W conn (outputs ls) = some calls) {base : Muduo.Thread} {c₀ c : Muduo.TcpConnection}
    {labels : List Muduo.TcpConnection.Label} (h₀ : Muduo.TcpConnection.system.start c₀)
    (hprogram : c₀.calls = Function.update (fun _ => []) base calls)
    (hr : (Muduo.TcpConnection.system.restrict Muduo.TcpConnection.Open).Run c₀ labels c) :
    (c.socket.broken = false → c.socket.wire ≠ [] ∨ c.socket.shutdownWrite = true → ∃ answer rest frame,
        answersTo conn (outputs ls) = answer :: rest ∧
          ProtobufCodec.send (queryProto W) (Message.reply answer) = some frame ∧
          c.socket.wire <+: frame ∧ (c.socket.shutdownWrite = true → c.socket.wire = frame)) ∧
      (answersTo conn (outputs ls) ≠ [] → c.calls base = [] → c.inside base = .outside → c.pendingFunctors = [] →
        c.writing = true ∨ c.socket.shutdownWrite = true) := by
  obtain ⟨messages, hframes, rfl⟩ := (answers_run hs).pairs conn hcalls
  obtain ⟨hr', hturn, -⟩ := Muduo.TcpConnection.turn_run h₀ hprogram hr
  have hclosing := Muduo.TcpConnection.closing_run h₀ hr'
  obtain ⟨as, has⟩ : ∃ as, as = Muduo.TcpConnection.accepted labels := ⟨_, rfl⟩
  rw [← has] at hturn hclosing
  constructor
  · intro hb hsome
    have hbegun := hclosing.begun hb
    have hwhole := fun hend => hclosing.whole hend hb
    cases hturn with
    | first hstate =>
      rcases hsome with hne | hend
      · exact absurd (List.prefix_nil.mp hbegun) hne
      · exact absurd (hclosing.asked (.inr (.inl hend))) (by simp [hstate])
    | sent | shutting | closed =>
      rw [List.flatten_singleton] at hbegun hwhole
      obtain ⟨answer, rest, hanswers, hsend⟩ := frames_head hframes
      exact ⟨answer, rest, _, hanswers, hsend, hbegun, hwhole⟩
  · intro hne hdone hinside hpending
    cases hturn with
    | first _ _ hpairs =>
      cases messages with
      | nil => exact absurd (frames_nil hframes) hne
      | cons message messages =>
        rw [hdone] at hpairs
        cases hpairs
    | sent _ _ hpairs => rw [hdone] at hpairs; cases hpairs
    | shutting _ hin => rw [hinside] at hin; cases hin
    | closed hstate => exact hclosing.finishes hstate hinside hpending

theorem frame_ne {answer : Message.Reply} {frame : Bytes}
    (h : ProtobufCodec.send (queryProto W) (Message.reply answer) = some frame) : frame ≠ [] := by
  obtain ⟨buf, hfill, heq⟩ := Option.bind_eq_some_iff.mp h
  cases heq
  have hname : ((queryProto W).getTypeName (Message.reply answer)).length + 1 < 2 ^ 30 := show 11 + 1 < 2 ^ 30 by decide
  rw [ProtobufCodec.fillEmptyBuffer_some hname hfill]
  have hlen := ProtobufCodec.length_frame (P := queryProto W) (Message.reply answer)
  exact List.ne_nil_of_length_pos (hlen ▸ by omega)

open Muduo.TcpConnection in
/-- A client is answered that it has no value, and its stream ends. -/
theorem first_reply_whole_one : ∃ (ls : List (Event oneServer × Effect)) (c : Muduo.TcpConnection),
    c.socket.shutdownWrite = true ∧ ∃ answer rest frame, answersTo 7 (outputs ls) = answer :: rest ∧
      ProtobufCodec.send (queryProto wireFormat) (Message.reply answer) = some frame ∧
      c.socket.wire <+: frame ∧ (c.socket.shutdownWrite = true → c.socket.wire = frame) := by
  obtain ⟨answer, hanswer⟩ : ∃ answer : Message.Reply, answer = { reply := redisReplyToString (some .nil) } := ⟨_, rfl⟩
  obtain ⟨s₁, f₁, hup, s₂, f₂, hquery, halloc, hlink, hout, s₃, f₃, hreply, houtputs⟩ :
      ∃ s₁ f₁, opened.exec true (.redis server (.write 0 (some .REDIS_OK))) = .ok (s₁, f₁) ∧
      ∃ s₂ f₂, s₁.exec true (.query 7 { key := ofText "k" } true) = .ok (s₂, f₂) ∧
        0 < (s₂.backend server).allocated ∧ ((s₂.backend server).sconns 0).link = .connected ∧
        ((s₂.backend server).sconns 0).replies ≠ [] ∧
      ∃ s₃ f₃, s₂.exec true (.redis server (.reply 0 (some .nil))) = .ok (s₃, f₃) ∧
        f₁.callbacks.flatMap Prod.snd ++ (f₂.callbacks.flatMap Prod.snd ++ f₃.callbacks.flatMap Prod.snd) =
          [.send 7 answer, .shutdown 7] := by
    subst hanswer
    exact ⟨_, _, rfl, _, _, rfl, Nat.zero_lt_one, rfl, List.cons_ne_nil _ _, _, _, rfl, rfl⟩
  have hup' : (system oneServer true).step opened (_, f₁) s₁ := ⟨opened_up_enabled, hup⟩
  have hquery' : (system oneServer true).step s₁ (.query 7 { key := ofText "k" } true, f₂) s₂ := ⟨trivial, hquery⟩
  have hreply' : (system oneServer true).step s₂ (.redis server (.reply 0 (some .nil)), f₃) s₃ :=
    ⟨⟨⟨halloc, hlink, hout⟩, nofun⟩, hreply⟩
  have hs := ((System.Run.single hup').snoc hquery').snoc hreply'
  have hlabels : outputs [(.redis server (.write 0 (some .REDIS_OK)), f₁), (.query 7 { key := ofText "k" } true, f₂),
      (.redis server (.reply 0 (some .nil)), f₃)] = [.send 7 answer, .shutdown 7] := by
    simpa [outputs] using houtputs
  obtain ⟨frame, hsend, -⟩ := (received_text_iff wireFormat_lawful .nil).mpr ⟨by simp [RedisReply.payloads], by decide⟩
  have hsend' : ProtobufCodec.send (queryProto wireFormat) (Message.reply answer) = some frame := hanswer ▸ hsend
  have hne : frame ≠ [] := frame_ne hsend'
  have hcalls : callsOn wireFormat 7 [.send 7 answer, .shutdown 7] = some [.send frame, .shutdown] := by
    simp [callsOn, Output.conn, Output.call, hsend']
  obtain ⟨b, hb⟩ : ∃ b, b = Buffer.empty := ⟨_, rfl⟩
  have hpeek : b.peek = [] := by rw [hb, Buffer.peek_empty]
  have h₀ : Muduo.TcpConnection.system.start (caller b [.send frame, .shutdown]) := ⟨rfl, hb, rfl, rfl, rfl, fun _ => rfl⟩
  have h₁ : (Muduo.TcpConnection.system.restrict Open).step (caller b [.send frame, .shutdown])
      (.test 1 (.send frame) true) _ := ⟨Step.test rfl rfl, trivial⟩
  have hr₂ := (System.Run.single h₁).snoc ⟨Step.queueSend (t := 1) rfl, trivial⟩
  have hr₃ := hr₂.snoc ⟨Step.kept rfl rfl rfl hpeek hne, trivial⟩
  have hr₄ := hr₃.snoc ⟨Step.test (t := 1) rfl rfl, trivial⟩
  have hr₆ := (hr₄.snoc ⟨Step.setState (t := 1) rfl, trivial⟩).snoc ⟨Step.queueShutdown (t := 1) rfl, trivial⟩
  have hkept : (b.append frame).peek = frame := by rw [Buffer.peek_append, hpeek, List.nil_append]
  have hr₇ := hr₆.snoc ⟨Step.emptied rfl (List.length_pos_of_ne_nil hne) (congrArg List.length hkept) rfl rfl, trivial⟩
  exact ⟨_, _, rfl, (first_reply_whole hs (hlabels ▸ hcalls) h₀ rfl hr₇).1 rfl (.inr rfl)⟩

end ProxyServer
end DictionaryServer
