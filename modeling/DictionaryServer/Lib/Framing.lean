/-
Decoders of a stream of frames.

A decoder looks at the front of its buffer and either takes a frame off it,
or finds it beyond repair, or waits. What it has decided it decides again
when more input arrives (`frame_append`, `bad_append`), and a frame is never
empty. From these alone:

* `drain_append`: draining a buffer and then what was left of it with more
  input is draining all of it at once;
* `calls_spec`: so however the input is cut into chunks, the same frames are
  delivered, the same bytes are left and the last call reports the same
  error;
* `drain_encoded`: if each frame decodes to what was encoded and its proper
  prefixes only wait, a stream of frames followed by an unfinished one
  decodes to the list of what was encoded, and leaves the unfinished one;
* `calls_cut`: so input that breaks off anywhere in a stream of frames gives
  what its whole frames encode, and leaves what there is of the next.
-/
import Mathlib.Algebra.GroupWithZero.Nat
import Mathlib.Data.List.Basic
import Mathlib.Data.List.Forall2

namespace Lib.Framing

universe u v w

variable {β : Type u} {μ : Type v} {ε : Type w}

/-- What a decoder finds at the front of its buffer. -/
inductive Head (μ : Type v) (ε : Type w)
  /-- No whole frame yet. -/
  | wait
  /-- A frame of `n` symbols carrying `m`. -/
  | frame (m : μ) (n : Nat)
  /-- Nothing that further input could turn into a frame. -/
  | bad (e : ε)

/-- A decoder whose decisions stand when the buffer grows. -/
structure Decoder (β : Type u) (μ : Type v) (ε : Type w) where
  head : List β → Head μ ε
  frame_pos : ∀ {b m n}, head b = .frame m n → 0 < n ∧ n ≤ b.length
  frame_append : ∀ {b m n} (c), head b = .frame m n → head (b ++ c) = .frame m n
  bad_append : ∀ {b e} (c), head b = .bad e → head (b ++ c) = .bad e

/-- What one call of a decoder did: the frames it delivered in order, the
error it reported, and the buffer it left. -/
@[ext] structure Outcome (β : Type u) (μ : Type v) (ε : Type w) where
  delivered : List μ
  error : Option ε
  rest : List β

namespace Outcome

/-- One more frame delivered before the others. -/
def deliver (m : μ) (o : Outcome β μ ε) : Outcome β μ ε := { o with delivered := m :: o.delivered }

@[simp] theorem deliver_delivered (m : μ) (o : Outcome β μ ε) : (o.deliver m).delivered = m :: o.delivered := rfl
@[simp] theorem deliver_error (m : μ) (o : Outcome β μ ε) : (o.deliver m).error = o.error := rfl
@[simp] theorem deliver_rest (m : μ) (o : Outcome β μ ε) : (o.deliver m).rest = o.rest := rfl

end Outcome

namespace Decoder

variable (D : Decoder β μ ε)

/-- Frames are taken off the front until there is none. -/
def drain (b : List β) : Outcome β μ ε :=
  match _h : D.head b with
  | .wait => ⟨[], none, b⟩
  | .frame m n => (drain (b.drop n)).deliver m
  | .bad e => ⟨[], some e, b⟩
termination_by b.length
decreasing_by
  have := D.frame_pos _h
  simp only [List.length_drop]
  omega

variable {D}

theorem drain_wait {b : List β} (h : D.head b = .wait) : D.drain b = ⟨[], none, b⟩ := by
  rw [drain]; split <;> simp_all

theorem drain_frame {b : List β} {m n} (h : D.head b = .frame m n) :
    D.drain b = (D.drain (b.drop n)).deliver m := by
  rw [drain]; split <;> simp_all

theorem drain_bad {b : List β} {e} (h : D.head b = .bad e) : D.drain b = ⟨[], some e, b⟩ := by
  rw [drain]; split <;> simp_all

variable (D) in
/-- Induction along the frames of a buffer. -/
theorem drain_induction {P : List β → Prop} (wait : ∀ b, D.head b = .wait → P b)
    (bad : ∀ b e, D.head b = .bad e → P b)
    (frame : ∀ b m n, D.head b = .frame m n → P (b.drop n) → P b) (b : List β) : P b := by
  rcases h : D.head b with _ | ⟨m, n⟩ | e
  · exact wait b h
  · exact frame b m n h (drain_induction wait bad frame (b.drop n))
  · exact bad b e h
termination_by b.length
decreasing_by
  have := D.frame_pos h
  simp only [List.length_drop]
  omega

/-- **Draining in two goes is draining at once.** -/
theorem drain_append (a b : List β) :
    D.drain (a ++ b) =
      let o := D.drain (((D.drain a).rest) ++ b)
      ⟨(D.drain a).delivered ++ o.delivered, o.error, o.rest⟩ := by
  induction a using drain_induction D with
  | wait a h => simp [drain_wait h]
  | bad a e h => simp [drain_bad h]
  | frame a m n h ih =>
    have hn : n ≤ a.length := (D.frame_pos h).2
    rw [drain_frame (D.frame_append b h), drain_frame h, List.drop_append_of_le_length hn, ih]
    simp [Outcome.deliver]

theorem drain_rest (a : List β) : D.drain (D.drain a).rest = ⟨[], (D.drain a).error, (D.drain a).rest⟩ := by
  induction a using drain_induction D with
  | wait a h => simp [drain_wait h]
  | bad a e h => simp [drain_bad h]
  | frame a m n h ih => simp [drain_frame h, ih]

/-- The front of a buffer left with an error is beyond repair. -/
theorem head_of_error {a : List β} {e} (h : (D.drain a).error = some e) : D.head (D.drain a).rest = .bad e := by
  induction a using drain_induction D with
  | wait a hh => simp [drain_wait hh] at h
  | bad a e' hh =>
    simp only [drain_bad hh, Option.some.injEq] at h ⊢
    rw [hh, h]
  | frame a m n hh ih => simpa [drain_frame hh] using ih (by simpa [drain_frame hh] using h)

/-- Frames carry no more than they take from the buffer. -/
theorem drain_weight {w : μ → Nat} (hw : ∀ {b m n}, D.head b = .frame m n → w m ≤ n) (a : List β) :
    ((D.drain a).delivered.map w).sum + (D.drain a).rest.length ≤ a.length := by
  induction a using drain_induction D with
  | wait a h =>
    rw [drain_wait h]
    exact Nat.le_of_eq (Nat.zero_add a.length)
  | bad a e h =>
    rw [drain_bad h]
    exact Nat.le_of_eq (Nat.zero_add a.length)
  | frame a m n h ih =>
    have hn := (D.frame_pos h).2
    have hm := hw h
    rw [List.length_drop] at ih
    simp only [drain_frame h, Outcome.deliver_delivered, Outcome.deliver_rest, List.map_cons, List.sum_cons]
    omega

/-! ## Input in chunks -/

/-- Each chunk is appended to the buffer and the buffer drained. -/
def calls (D : Decoder β μ ε) : List β → List (List β) → List (Outcome β μ ε)
  | _, [] => []
  | b, c :: cs => let o := D.drain (b ++ c); o :: D.calls o.rest cs

/-- **However the input is cut**, the calls deliver what draining it at once
delivers, and the last one leaves and reports what that leaves and reports. -/
theorem calls_spec {b : List β} (hb : (D.drain b).rest = b ∧ (D.drain b).delivered = []) (cs : List (List β))
    (hcs : cs ≠ []) : ∃ os o, D.calls b cs = os ++ [o] ∧
      (D.calls b cs).flatMap (·.delivered) = (D.drain (b ++ cs.flatten)).delivered ∧
      o.rest = (D.drain (b ++ cs.flatten)).rest ∧ o.error = (D.drain (b ++ cs.flatten)).error := by
  induction cs generalizing b with
  | nil => exact absurd rfl hcs
  | cons c cs ih =>
    simp only [calls, List.flatten_cons, ← List.append_assoc]
    rw [drain_append (b ++ c) cs.flatten]
    by_cases hc : cs = []
    · subst hc
      refine ⟨[], D.drain (b ++ c), rfl, ?_, ?_, ?_⟩ <;> simp [calls, drain_rest]
    · have hq : (D.drain (D.drain (b ++ c)).rest).rest = (D.drain (b ++ c)).rest ∧
          (D.drain (D.drain (b ++ c)).rest).delivered = [] := by simp [drain_rest]
      obtain ⟨os, o, ho, hd, hr, he⟩ := ih hq hc
      refine ⟨D.drain (b ++ c) :: os, o, by simp [ho], ?_, hr, he⟩
      simp only [List.flatMap_cons, hd]

/-- **Once an error is reported no later call delivers**, and each reports it again. -/
theorem calls_after_error {b : List β} {e} (h : D.head b = .bad e) :
    ∀ (cs : List (List β)), ∀ o ∈ D.calls b cs, o.delivered = [] ∧ o.error = some e
  | [], o, ho => by simp [calls] at ho
  | c :: cs, o, ho => by
    have hc := D.bad_append c h
    simp only [calls, drain_bad hc, List.mem_cons] at ho
    rcases ho with rfl | ho
    · exact ⟨rfl, rfl⟩
    · exact calls_after_error hc cs o ho

/-- The same from a call somewhere in the middle. -/
theorem calls_error_split {b : List β} {cs : List (List β)} {os os' : List (Outcome β μ ε)} {o e}
    (h : D.calls b cs = os ++ o :: os') (he : o.error = some e) :
    ∀ o' ∈ os', o'.delivered = [] ∧ o'.error = some e := by
  induction cs generalizing b os with
  | nil => simp [calls] at h
  | cons c cs ih =>
    cases os with
    | nil =>
      simp only [calls, List.nil_append, List.cons.injEq] at h
      obtain ⟨rfl, rfl⟩ := h
      exact calls_after_error (head_of_error he) cs
    | cons o₁ os =>
      simp only [calls, List.cons_append, List.cons.injEq] at h
      exact ih h.2

theorem calls_error_none {b : List β} {cs : List (List β)} {os : List (Outcome β μ ε)} {last}
    (h : D.calls b cs = os ++ [last]) (hlast : last.error = none) : ∀ o ∈ D.calls b cs, o.error = none := by
  intro o ho
  rw [h, List.mem_append, List.mem_singleton] at ho
  rcases ho with ho | rfl
  · by_contra he
    obtain ⟨e, he⟩ := Option.ne_none_iff_exists'.mp he
    obtain ⟨before, after, rfl⟩ := List.append_of_mem ho
    rw [List.append_assoc, List.cons_append] at h
    cases hlast.symm.trans (calls_error_split h he last (by simp)).2
  · exact hlast

/-! ## Encoded streams -/

/-- What an encoder owes a decoder: frames that decode to what was encoded
whatever follows, and whose proper prefixes wait. -/
structure Encodes (D : Decoder β μ ε) (enc : List β) (m : μ) : Prop where
  frame : ∀ c, D.head (enc ++ c) = .frame m enc.length
  wait : ∀ p q, enc = p ++ q → q ≠ [] → D.head p = .wait

/-- **The round trip of a stream**: frames, then an unfinished one. -/
theorem drain_encoded {encs : List (List β)} {ms : List μ} (h : List.Forall₂ (Encodes D) encs ms)
    {p : List β} (hp : D.head p = .wait) : D.drain (encs.flatten ++ p) = ⟨ms, none, p⟩ := by
  induction h with
  | nil => simpa using drain_wait hp
  | @cons enc m encs ms he _ ih =>
    rw [List.flatten_cons, List.append_assoc, drain_frame (he.frame _), List.drop_left, ih]
    rfl

/-- **However a stream of frames is cut**, the calls deliver what was encoded
and report nothing. -/
theorem calls_encoded {encs : List (List β)} {ms : List μ} (h : List.Forall₂ (Encodes D) encs ms)
    (hnil : D.head [] = .wait) {cs : List (List β)} (hcs : cs.flatten = encs.flatten) :
    (D.calls [] cs).flatMap (·.delivered) = ms ∧ ∀ o ∈ D.calls [] cs, o.error = none := by
  have hdrain : D.drain ([] ++ cs.flatten) = ⟨ms, none, []⟩ := by
    rw [List.nil_append, hcs]
    simpa using drain_encoded h hnil
  by_cases hne : cs = []
  · subst hne
    rw [List.flatten_nil, List.append_nil, drain_wait hnil] at hdrain
    cases hdrain
    exact ⟨rfl, nofun⟩
  · have hquiet : (D.drain []).rest = [] ∧ (D.drain []).delivered = [] := by simp [drain_wait hnil]
    obtain ⟨os, last, hcalls, hdelivered, -, herror⟩ := calls_spec hquiet cs hne
    rw [hdrain] at hdelivered herror
    exact ⟨hdelivered, calls_error_none hcalls herror⟩

/-! ## Streams that break off -/

/-- Where `b` breaks off in a stream of frames: `n` of them are complete, and
`rest` is what there is of the next. -/
structure Cut (encs : List (List β)) (b : List β) (n : Nat) (rest : List β) : Prop where
  split : b = (encs.take n).flatten ++ rest
  next : n = encs.length ∧ rest = [] ∨ ∃ enc tail, encs[n]? = some enc ∧ enc = rest ++ tail ∧ tail ≠ []

theorem Cut.cons {encs : List (List β)} {b rest : List β} {n : Nat} (h : Cut encs b n rest) (enc : List β) :
    Cut (enc :: encs) (enc ++ b) (n + 1) rest := by
  refine ⟨by simp [h.split], ?_⟩
  rcases h.next with ⟨hn, hrest⟩ | ⟨next, tail, hnext, hsplit, htail⟩
  · exact .inl ⟨by simp [hn], hrest⟩
  · exact .inr ⟨next, tail, by simpa using hnext, hsplit, htail⟩

/-- A stream breaks off between two frames or inside one. -/
theorem exists_cut {encs : List (List β)} {b : List β} (h : b <+: encs.flatten) : ∃ n rest, Cut encs b n rest := by
  induction encs generalizing b with
  | nil => exact ⟨0, [], by simpa using h, .inl ⟨rfl, rfl⟩⟩
  | cons enc encs ih =>
    rw [List.flatten_cons] at h
    by_cases hlen : enc.length ≤ b.length
    · -- The first frame is there, and the rest of `b` breaks off in the others.
      obtain ⟨after, rfl⟩ := List.prefix_of_prefix_length_le (List.prefix_append enc _) h hlen
      obtain ⟨n, rest, hcut⟩ := ih ((List.prefix_append_right_inj enc).mp h)
      exact ⟨n + 1, rest, hcut.cons enc⟩
    · obtain ⟨tail, htail⟩ := List.prefix_of_prefix_length_le h (List.prefix_append enc _) (by omega)
      refine ⟨0, b, by simp, .inr ⟨enc, tail, rfl, htail.symm, ?_⟩⟩
      intro hnil
      rw [hnil, List.append_nil] at htail
      exact hlen (Nat.le_of_eq (congrArg List.length htail.symm))

/-- The bytes a list of calls leaves in the buffer. -/
def leftover (b : List β) (os : List (Outcome β μ ε)) : List β := (os.getLast?.map Outcome.rest).getD b

/-- **Input that breaks off in a stream of frames** gives what its complete
frames encode, and leaves the rest. -/
theorem calls_cut {encs : List (List β)} {ms : List μ} (h : List.Forall₂ (Encodes D) encs ms)
    (hnil : D.head [] = .wait) {cs : List (List β)} {n : Nat} {rest : List β} (hcut : Cut encs cs.flatten n rest) :
    (D.calls [] cs).flatMap (·.delivered) = ms.take n ∧ leftover [] (D.calls [] cs) = rest ∧
      ∀ o ∈ D.calls [] cs, o.error = none := by
  have hwait : D.head rest = .wait := by
    rcases hcut.next with ⟨-, rfl⟩ | ⟨enc, tail, henc, hsplit, htail⟩
    · exact hnil
    · obtain ⟨hn, rfl⟩ := List.getElem?_eq_some_iff.mp henc
      exact (h.get hn (h.length_eq ▸ hn)).wait rest tail hsplit htail
  have hdrain : D.drain ([] ++ cs.flatten) = ⟨ms.take n, none, rest⟩ := by
    rw [List.nil_append, hcut.split]
    exact drain_encoded (List.forall₂_take n h) hwait
  by_cases hne : cs = []
  · subst hne
    rw [List.flatten_nil, List.append_nil, drain_wait hnil, Outcome.mk.injEq] at hdrain
    exact ⟨hdrain.1, hdrain.2.2, by simp [calls]⟩
  · have hquiet : (D.drain []).rest = [] ∧ (D.drain []).delivered = [] := by simp [drain_wait hnil]
    obtain ⟨os, last, hcalls, hdelivered, hrest, herror⟩ := calls_spec hquiet cs hne
    rw [hdrain] at hdelivered hrest herror
    refine ⟨hdelivered, ?_, calls_error_none hcalls herror⟩
    rw [leftover, hcalls, List.getLast?_concat]
    exact hrest

end Decoder
end Lib.Framing
