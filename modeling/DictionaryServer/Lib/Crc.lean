/-
Cyclic redundancy checks in registers of any width.

The reflected register is shifted towards its least significant bit. A shift
respects exclusive or (`shift_xor`), so eight of them are a move by an octet
and a look into a table (`octet_eq`). If the polynomial ends in a one a shift
loses nothing (`shift_injective`); then no burst that fits into the register
stays unseen, wherever it stands (`feed_burst`).

`shiftMsb` is the register that is shifted the other way.
-/
import DictionaryServer.Lib.Bytes
import Mathlib.Data.List.GetD
import Mathlib.Logic.Function.Iterate

namespace Lib.Crc

variable {w : Nat} (poly : BitVec w)

/-! ## Shifts -/

/-- The register after one shift. -/
def shift (r : BitVec w) : BitVec w :=
  if r.getLsbD 0 then (r >>> 1) ^^^ poly else r >>> 1

def shifts (n : Nat) (r : BitVec w) : BitVec w := (shift poly)^[n] r

theorem fed_xor (x y : BitVec w) (a b : Bool) :
    (x ^^^ y) ^^^ (if (a ^^ b) = true then poly else 0) =
      (x ^^^ if a = true then poly else 0) ^^^ (y ^^^ if b = true then poly else 0) := by
  cases a <;> cases b <;> simp
  · ac_rfl
  · ac_rfl
  · rw [BitVec.xor_comm y, BitVec.xor_assoc, ← BitVec.xor_assoc poly, BitVec.xor_self, BitVec.zero_xor]

theorem shift_eq (r : BitVec w) : shift poly r = (r >>> 1) ^^^ if r.getLsbD 0 = true then poly else 0 := by
  rw [shift]
  split <;> simp

theorem shift_xor (a b : BitVec w) : shift poly (a ^^^ b) = shift poly a ^^^ shift poly b := by
  simp only [shift_eq, BitVec.getLsbD_xor, BitVec.ushiftRight_xor_distrib]
  exact fed_xor poly _ _ _ _

theorem shifts_xor (n : Nat) (a b : BitVec w) : shifts poly n (a ^^^ b) = shifts poly n a ^^^ shifts poly n b :=
  Function.Semiconj₂.iterate (shift_xor poly) n a b

theorem shifts_add (m n : Nat) (r : BitVec w) : shifts poly (m + n) r = shifts poly n (shifts poly m r) := by
  rw [shifts, Nat.add_comm, Function.iterate_add_apply]
  rfl

/-- Where the low bits are zero nothing is fed back. -/
theorem shifts_of_low {n : Nat} {r : BitVec w} (h : ∀ i < n, r.getLsbD i = false) : shifts poly n r = r >>> n := by
  induction n with
  | zero => rw [BitVec.ushiftRight_zero]; rfl
  | succ n ih =>
    have hbit : (r >>> n).getLsbD 0 = false := by
      rw [BitVec.getLsbD_ushiftRight]
      exact h n (by omega)
    rw [shifts_add, ih fun i hi => h i (by omega)]
    rw [shifts, Function.iterate_one, shift, hbit, BitVec.shiftRight_add]
    rfl

theorem shifts_shiftLeft {n : Nat} {r : BitVec w} (h : ∀ i, w ≤ i + n → r.getLsbD i = false) :
    shifts poly n (r <<< n) = r := by
  rw [shifts_of_low poly fun i hi => by simp [hi]]
  refine BitVec.eq_of_getLsbD_eq fun i hi => ?_
  rw [BitVec.getLsbD_ushiftRight, BitVec.getLsbD_shiftLeft]
  by_cases hw : n + i < w
  · simp [hw]
  · simp [hw, h i (by omega)]

/-- A shift by an octet: the register moves, its low octet picks what is fed back. -/
theorem shifts_eq (n : Nat) (r : BitVec w) :
    shifts poly n r = (r >>> n) ^^^ shifts poly n ((r.setWidth n).setWidth w) := by
  have hsplit : r = ((r >>> n) <<< n) ^^^ (r.setWidth n).setWidth w := by
    refine BitVec.eq_of_getLsbD_eq fun i hi => ?_
    by_cases hn : i < n
    · simp [hn, hi]
    · have hback : n + (i - n) = i := by omega
      simp [hn, hi, hback]
  have hhigh : shifts poly n ((r >>> n) <<< n) = r >>> n :=
    shifts_shiftLeft poly fun i hi => by
      rw [BitVec.getLsbD_ushiftRight]
      exact BitVec.getLsbD_of_ge r _ (by omega)
  conv => lhs; rw [hsplit]
  rw [shifts_xor, hhigh]

variable {poly}

/-- **A shift loses nothing** if the polynomial ends in a one. -/
theorem shift_injective (hpoly : poly.msb = true) : Function.Injective (shift poly) := by
  have hmsb : ∀ r, (shift poly r).msb = r.getLsbD 0 := by
    intro r
    have hzero : (r >>> 1).msb = false := by simp
    rw [shift]
    cases hbit : r.getLsbD 0 with
    | false => rw [if_neg (by simp), hzero]
    | true => rw [if_pos rfl, BitVec.msb_xor, hzero, hpoly]; rfl
  intro a b hab
  have hbit : a.getLsbD 0 = b.getLsbD 0 := by rw [← hmsb, ← hmsb, hab]
  have hhigh : a >>> 1 = b >>> 1 := by
    rw [shift, shift, ← hbit] at hab
    split at hab
    · exact (BitVec.xor_left_inj _).mp hab
    · exact hab
  refine BitVec.eq_of_getLsbD_eq fun i hi => ?_
  cases i with
  | zero => exact hbit
  | succ i =>
    have hi := congrArg (fun r => r.getLsbD i) hhigh
    simpa [BitVec.getLsbD_ushiftRight, Nat.add_comm] using hi

theorem shifts_injective (hpoly : poly.msb = true) (n : Nat) : Function.Injective (shifts poly n) :=
  (shift_injective hpoly).iterate n

variable (poly)

/-! ## Messages -/

/-- The bits of a message, first to last, from the low end of a word. -/
def word : List Bool → BitVec w
  | [] => 0
  | b :: u => (BitVec.ofBool b).setWidth w ^^^ (word u <<< 1)

theorem getLsbD_word (u : List Bool) (i : Nat) : (word u : BitVec w).getLsbD i = (decide (i < w) && u.getD i false) := by
  induction u generalizing i with
  | nil => simp [word]
  | cons b u ih =>
    rw [word, BitVec.getLsbD_xor, BitVec.getLsbD_shiftLeft, ih]
    cases i with
    | zero => cases b <;> simp
    | succ i =>
      have hlt : i + 1 < w → i < w := Nat.lt_of_succ_lt
      by_cases hi : i + 1 < w
      · simp [hi, hlt hi]
      · simp [hi]

theorem word_injective {u v : List Bool} (hlen : u.length = v.length) (hw : u.length ≤ w)
    (h : (word u : BitVec w) = word v) : u = v := by
  refine List.ext_getElem hlen fun i hu hv => ?_
  have hi := congrArg (fun r => r.getLsbD i) h
  have hiw : i < w := by omega
  simp only [getLsbD_word, hiw, decide_true, Bool.true_and] at hi
  rwa [List.getD_eq_getElem _ _ hu, List.getD_eq_getElem _ _ hv] at hi

/-- One bit of the message. -/
def feedBit (r : BitVec w) (b : Bool) : BitVec w := shift poly (r ^^^ (BitVec.ofBool b).setWidth w)

def feed (r : BitVec w) (u : List Bool) : BitVec w := u.foldl (feedBit poly) r

/-- A message that fits into the register may be put there at once. -/
theorem feed_eq {u : List Bool} (hu : u.length ≤ w) (r : BitVec w) : feed poly r u = shifts poly u.length (r ^^^ word u) := by
  induction u generalizing r with
  | nil => simp [feed, word, shifts]
  | cons b u ih =>
    rw [List.length_cons] at hu
    have hword : shifts poly 1 (word u <<< 1) = (word u : BitVec w) :=
      shifts_shiftLeft poly fun i hi => by
        rw [getLsbD_word, List.getD_eq_default _ _ (by omega), Bool.and_false]
    have hstep : feedBit poly r b ^^^ word u = shifts poly 1 (r ^^^ word (b :: u)) := by
      rw [word, ← BitVec.xor_assoc, shifts_xor, hword]
      rfl
    calc feed poly r (b :: u) = feed poly (feedBit poly r b) u := rfl
      _ = shifts poly u.length (feedBit poly r b ^^^ word u) := ih (by omega) _
      _ = shifts poly (1 + u.length) (r ^^^ word (b :: u)) := by rw [hstep, shifts_add]
      _ = shifts poly (b :: u).length (r ^^^ word (b :: u)) := by rw [List.length_cons, Nat.add_comm]

theorem feed_append (r : BitVec w) (u v : List Bool) : feed poly r (u ++ v) = feed poly (feed poly r u) v :=
  List.foldl_append

theorem feed_injective (hpoly : poly.msb = true) (u : List Bool) : Function.Injective fun r => feed poly r u := by
  induction u with
  | nil => exact fun a b h => h
  | cons b u ih =>
    intro a a' h
    exact (BitVec.xor_left_inj _).mp (shift_injective hpoly (ih h))

/-- **No burst that fits into the register stays unseen.** -/
theorem feed_burst (hpoly : poly.msb = true) {u v : List Bool} (hlen : u.length = v.length) (hw : u.length ≤ w)
    (hne : u ≠ v) (r : BitVec w) (a z : List Bool) : feed poly r (a ++ u ++ z) ≠ feed poly r (a ++ v ++ z) := by
  intro heq
  simp only [feed_append] at heq
  have hmid := feed_injective poly hpoly z heq
  have hv : v.length ≤ w := hlen ▸ hw
  rw [feed_eq poly hw (feed poly r a), feed_eq poly hv, ← hlen] at hmid
  exact hne (word_injective hlen hw ((BitVec.xor_right_inj _).mp (shifts_injective hpoly _ hmid)))

/-! ## Octets -/

/-- The bits of an octet, the least significant first. -/
def bits (c : UInt8) : List Bool := (List.range 8).map c.toBitVec.getLsbD

@[simp] theorem bits_length (c : UInt8) : (bits c).length = 8 := by simp [bits]

theorem word_bits (c : UInt8) : (word (bits c) : BitVec w) = c.toBitVec.setWidth w := by
  refine BitVec.eq_of_getLsbD_eq fun i hi => ?_
  rw [getLsbD_word, BitVec.getLsbD_setWidth]
  by_cases h : i < 8
  · rw [List.getD_eq_getElem _ _ (by simpa using h)]
    simp only [bits, List.getElem_map, List.getElem_range]
  · rw [List.getD_eq_default _ _ (by simpa using h), BitVec.getLsbD_of_ge c.toBitVec i (by omega)]

/-- What the table holds for an octet. -/
def table (c : UInt8) : BitVec w := shifts poly 8 (c.toBitVec.setWidth w)

/-- **An octet at a time**: the eight bits of an octet, by one look into the table. -/
theorem octet_eq (hw : 8 ≤ w) (r : BitVec w) (c : UInt8) :
    feed poly r (bits c) = (r >>> 8) ^^^ table poly ⟨(r ^^^ c.toBitVec.setWidth w).setWidth 8⟩ := by
  have hhigh : (c.toBitVec.setWidth w) >>> 8 = 0#w := BitVec.eq_of_getLsbD_eq fun i hi => by simp
  rw [feed_eq poly (by simpa using hw), bits_length, word_bits, shifts_eq, BitVec.ushiftRight_xor_distrib, hhigh,
    BitVec.xor_zero]
  rfl

/-- The bits of a message in octets. -/
def stream (key : Bytes) : List Bool := key.flatMap bits

theorem bits_injective : Function.Injective bits := by
  intro c d h
  have hword := word_bits (w := 8) c
  rw [h, word_bits, BitVec.setWidth_eq, BitVec.setWidth_eq] at hword
  exact UInt8.toBitVec_inj.mp hword.symm

theorem stream_ne_nil (c : UInt8) (key : Bytes) : stream (c :: key) ≠ [] := by
  intro h
  have hlen := congrArg List.length h
  rw [stream, List.flatMap_cons, List.length_append, bits_length, List.length_nil] at hlen
  omega

theorem stream_injective : Function.Injective stream := by
  intro key
  induction key with
  | nil =>
    intro key' h
    cases key' with
    | nil => rfl
    | cons d key' => exact absurd h.symm (stream_ne_nil d key')
  | cons c key ih =>
    intro key' h
    cases key' with
    | nil => exact absurd h (stream_ne_nil c key)
    | cons d key' =>
      obtain ⟨hbits, hrest⟩ := List.append_inj h (by simp)
      rw [bits_injective hbits, ih hrest]

theorem feed_stream (r : BitVec w) (key : Bytes) :
    feed poly r (stream key) = key.foldl (fun r c => feed poly r (bits c)) r := by
  induction key generalizing r with
  | nil => rfl
  | cons c key ih => rw [stream, List.flatMap_cons, feed_append, List.foldl_cons, ← ih]; rfl

/-! ## The most significant bit first -/

/-- The register after one shift towards its most significant bit. -/
def shiftMsb (r : BitVec w) : BitVec w :=
  if r.msb then (r <<< 1) ^^^ poly else r <<< 1

theorem shiftMsb_eq (r : BitVec w) : shiftMsb poly r = (r <<< 1) ^^^ if r.msb = true then poly else 0 := by
  rw [shiftMsb]
  split <;> simp

theorem shiftMsb_xor (a b : BitVec w) : shiftMsb poly (a ^^^ b) = shiftMsb poly a ^^^ shiftMsb poly b := by
  simp only [shiftMsb_eq, BitVec.msb_xor, BitVec.shiftLeft_xor_distrib]
  exact fed_xor poly _ _ _ _

theorem shiftsMsb_xor (n : Nat) (a b : BitVec w) :
    (shiftMsb poly)^[n] (a ^^^ b) = (shiftMsb poly)^[n] a ^^^ (shiftMsb poly)^[n] b :=
  Function.Semiconj₂.iterate (shiftMsb_xor poly) n a b

theorem shiftsMsb_of_high {n : Nat} {r : BitVec w} (h : ∀ i < n, r.getMsbD i = false) :
    (shiftMsb poly)^[n] r = r <<< n := by
  induction n with
  | zero => rw [BitVec.shiftLeft_zero]; rfl
  | succ n ih =>
    have hbit : (r <<< n).msb = false := by
      rw [BitVec.msb_shiftLeft]
      exact h n (by omega)
    rw [Function.iterate_succ_apply', ih fun i hi => h i (by omega), shiftMsb, hbit, BitVec.shiftLeft_add]
    rfl

/-- The eight bits of an octet, the most significant first. -/
def octetMsb (r : BitVec w) (c : UInt8) : BitVec w := (shiftMsb poly)^[8] (r ^^^ (c.toBitVec.setWidth w <<< (w - 8)))

/-- What the table holds for an octet. -/
def tableMsb (c : UInt8) : BitVec w := (shiftMsb poly)^[8] (c.toBitVec.setWidth w <<< (w - 8))

theorem octetMsb_eq (hw : 8 ≤ w) (r : BitVec w) (c : UInt8) :
    octetMsb poly r c = (r <<< 8) ^^^ tableMsb poly ⟨((r >>> (w - 8)) ^^^ c.toBitVec.setWidth w).setWidth 8⟩ := by
  set low : BitVec w := (r.setWidth (w - 8)).setWidth w with hlow
  set high : BitVec w := (((r >>> (w - 8)) ^^^ c.toBitVec.setWidth w).setWidth 8).setWidth w <<< (w - 8) with hhigh
  have hsplit : r ^^^ (c.toBitVec.setWidth w <<< (w - 8)) = low ^^^ high := by
    refine BitVec.eq_of_getLsbD_eq fun i hi => ?_
    by_cases h : i < w - 8
    · simp [hlow, hhigh, h, hi]
    · have hback : w - 8 + (i - (w - 8)) = i := by omega
      have hoct : i - (w - 8) < 8 := by omega
      have hlt : i - (w - 8) < w := by omega
      simp [hlow, hhigh, h, hi, hback, hoct, hlt]
  have hshift : (shiftMsb poly)^[8] low = r <<< 8 := by
    rw [shiftsMsb_of_high poly fun i hi => by
      rw [BitVec.getMsbD, hlow, BitVec.getLsbD_setWidth, BitVec.getLsbD_setWidth,
        decide_eq_false (show ¬w - 1 - i < w - 8 by omega)]
      simp]
    refine BitVec.eq_of_getLsbD_eq fun i hi => ?_
    by_cases h : i < 8
    · simp [h, hi]
    · have hlow' : i - 8 < w - 8 := by omega
      have hlt : i - 8 < w := by omega
      simp [hlow, h, hi, hlow', hlt]
  rw [octetMsb, hsplit, shiftsMsb_xor, hshift]
  rfl

end Lib.Crc
