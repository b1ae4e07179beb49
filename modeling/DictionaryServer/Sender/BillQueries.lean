/-
The three queries for bills (sender/cmd/QueryHistoryBill.cpp, QueryDayBill.cpp
and QueryAccountHistoryBill.cpp): a request, and a loop that receives the packs
of the answer and adds the row in each.

`Took` says which packs the loop parses and how many it receives
(`ExecuteLoop_took`); an answer of `n` packs is taken whole, and nothing after
it (`Took.of_answer`).
-/
import DictionaryServer.Lib.Bytes
import DictionaryServer.Lib.Except

namespace DictionaryServer

open Lib

namespace CMD

/-! ## What a command meets -/

/-- `PUBLIC::JInStream` and the numbers of `TransDetail`, which the commands
use and the repository does not hold. A read past the end may fail. -/
structure JInStream where
  Stream : Type
  Error : Type
  Number : Type
  /-- The constructor too: at the start of these bytes. -/
  SetData : Bytes → Stream
  Skip : Nat → StateT Stream (Except Error) Unit
  ReadBytes : Nat → StateT Stream (Except Error) Bytes
  uint16 : StateT Stream (Except Error) UInt16
  int16 : StateT Stream (Except Error) Int16
  uint32 : StateT Stream (Except Error) UInt32
  string : StateT Stream (Except Error) Bytes
  /-- What `ss << text; ss >> number` leaves in the number of a new `TransDetail`. -/
  number : Bytes → Number
  /-- The memory after `error_msg`'s thirty bytes, which nothing sets. -/
  afterMsg : Bytes

structure TransDetail (Number : Type) where
  trans_date : Bytes
  account_id : Bytes
  other_account_id : Bytes
  abstract_name : Bytes
  money : Number
  balance : Number
  total : UInt32

inductive Cmd
  | CMD_HISTORY_BILL
  | CMD_DAY_BILL
  | CMD_ACCOUNT_HISTORY_BILL

/-- What a request says: its page, and texts in the number of bytes they take. -/
structure Request where
  cmd : Cmd
  page : Bytes
  fields : List (Bytes × Nat)

/-- What a command has a session do. -/
inductive Call (Number : Type)
  | Send (request : Request)
  | Recv
  | SetErrorCode (error_code : Int16)
  | SetErrorMsg (error_msg : Bytes)
  | AddDetail (td : TransDetail Number)

@[simp] def Call.isRecv {Number : Type} : Call Number → Bool
  | .Recv => true
  | _ => false

@[simp] def Call.detail {Number : Type} : Call Number → Option (TransDetail Number)
  | .AddDetail td => some td
  | _ => none

/-- A `BankSession`, as a command sees it: its attributes, the response pack
(`head.len + sizeof(ResponseHead)` bytes) and those that arrive after it. -/
structure BankSession (Number : Type) where
  GetAttribute : String → Bytes
  GetResponsePack : Bytes
  arriving : Nat → Bytes
  calls : List (Call Number)

namespace BankSession

variable {Number : Type}

/-- How often the session received. -/
def received (s : BankSession Number) : Nat := s.calls.countP Call.isRecv

/-- The details that were added. -/
def details (s : BankSession Number) : List (TransDetail Number) := s.calls.filterMap Call.detail

def call (s : BankSession Number) (c : Call Number) : BankSession Number := { s with calls := s.calls ++ [c] }

/-- `Recv` replaces the response pack by the next one. -/
def Recv (s : BankSession Number) : BankSession Number :=
  { s.call .Recv with GetResponsePack := s.arriving 0, arriving := fun k => s.arriving (k + 1) }

@[simp] theorem GetResponsePack_call (s : BankSession Number) (c : Call Number) :
    (s.call c).GetResponsePack = s.GetResponsePack := rfl

@[simp] theorem arriving_call (s : BankSession Number) (c : Call Number) : (s.call c).arriving = s.arriving := rfl

@[simp] theorem received_call (s : BankSession Number) (c : Call Number) :
    (s.call c).received = s.received + if c.isRecv then 1 else 0 := by
  simp [received, call, List.countP_cons]

@[simp] theorem details_call (s : BankSession Number) (c : Call Number) :
    (s.call c).details = s.details ++ c.detail.toList := by
  cases c <;> simp [details, call]

@[simp] theorem GetResponsePack_Recv (s : BankSession Number) : s.Recv.GetResponsePack = s.arriving 0 := rfl

@[simp] theorem arriving_Recv (s : BankSession Number) : s.Recv.arriving = fun k => s.arriving (k + 1) := rfl

@[simp] theorem received_Recv (s : BankSession Number) : s.Recv.received = s.received + 1 := received_call s .Recv

@[simp] theorem details_Recv (s : BankSession Number) : s.Recv.details = s.details := by
  simp [details, Recv, call]

end BankSession

/-! ## The commands -/

structure Header where
  cnt : UInt16
  seq : UInt16
  error_code : Int16
  error_msg : Bytes

/-- `seq == cnt - 1`, in `int`. -/
def Header.isLast (h : Header) : Prop := (h.seq.toNat : Int) = h.cnt.toNat - 1

instance (h : Header) : Decidable h.isLast := inferInstanceAs (Decidable (_ = _))

/-- A character array as a string. -/
def cString (b : Bytes) : Bytes := b.takeWhile (· != 0)

section

variable (J : JInStream)

def readHeader : StateT J.Stream (Except J.Error) Header := do
  J.Skip 4
  let cnt ← J.uint16
  let seq ← J.uint16
  let error_code ← J.int16
  let error_msg ← J.ReadBytes 30
  return { cnt, seq, error_code, error_msg }

def readRow : StateT J.Stream (Except J.Error) (Header × TransDetail J.Number) := do
  let head ← readHeader J
  let trans_date ← J.ReadBytes 19
  let account_id ← J.ReadBytes 6
  let other_account_id ← J.ReadBytes 6
  let money ← J.string
  let abstract_name ← J.string
  let balance ← J.string
  let total ← J.uint32
  return (head,
    { trans_date := cString trans_date
      account_id := cString account_id
      other_account_id := cString other_account_id
      abstract_name := abstract_name
      money := J.number money
      balance := J.number balance
      total := total })

def header (pack : Bytes) : Except J.Error Header := (readHeader J).run' (J.SetData pack)

def row (pack : Bytes) : Except J.Error (Header × TransDetail J.Number) := (readRow J).run' (J.SetData pack)

theorem toNat_succ {i cnt : UInt16} (h : i < cnt) : (i + 1).toNat = i.toNat + 1 := by
  have hi : i.toNat < cnt.toNat := UInt16.lt_iff_toNat_lt.mp h
  have hcnt := cnt.toNat_lt
  rw [UInt16.toNat_add, UInt16.toNat_one]
  omega

/-- `for (uint16 i=0; i<cnt; ++i)`. The `cnt` of the condition is the first
pack's, that of the body the current one's. -/
def ExecuteLoop (cnt i : UInt16) (s : BankSession J.Number) : Except J.Error Unit × BankSession J.Number :=
  if i < cnt then
    match row J s.GetResponsePack with
    | .error e => (.error e, s)
    | .ok (head, td) =>
      if head.isLast then (.ok (), s.call (.AddDetail td))
      else ExecuteLoop cnt (i + 1) (s.call (.AddDetail td)).Recv
  else (.ok (), s)
termination_by cnt.toNat - i.toNat
decreasing_by
  have hlt : i < cnt := by assumption
  have hi : i.toNat < cnt.toNat := UInt16.lt_iff_toNat_lt.mp hlt
  rw [toNat_succ hlt]
  omega

/-- The body the three commands have in common, after the request is made. -/
def Execute (request : Request) (s : BankSession J.Number) : Except J.Error Unit × BankSession J.Number :=
  let s := (s.call (.Send request)).Recv
  match header J s.GetResponsePack with
  | .error e => (.error e, s)
  | .ok head =>
    let s := (s.call (.SetErrorCode head.error_code)).call (.SetErrorMsg (cString (head.error_msg ++ J.afterMsg)))
    if head.error_code = 0 then ExecuteLoop J head.cnt 0 s else (.ok (), s)

def QueryHistoryBill.Execute (s : BankSession J.Number) : Except J.Error Unit × BankSession J.Number :=
  CMD.Execute J
    { cmd := .CMD_HISTORY_BILL
      page := s.GetAttribute "page"
      fields := [(s.GetAttribute "begin_date", 10), (s.GetAttribute "end_date", 10)] } s

def QueryDayBill.Execute (s : BankSession J.Number) : Except J.Error Unit × BankSession J.Number :=
  CMD.Execute J
    { cmd := .CMD_DAY_BILL
      page := s.GetAttribute "page"
      fields := [(s.GetAttribute "date", 10)] } s

def QueryAccountHistoryBill.Execute (s : BankSession J.Number) : Except J.Error Unit × BankSession J.Number :=
  CMD.Execute J
    { cmd := .CMD_ACCOUNT_HISTORY_BILL
      page := s.GetAttribute "page"
      fields := [(s.GetAttribute "account_id", 6), (s.GetAttribute "begin_date", 10), (s.GetAttribute "end_date", 10)] } s

/-- The three commands, as `Transaction`s. -/
inductive BillQuery
  | QueryHistoryBill
  | QueryDayBill
  | QueryAccountHistoryBill

def BillQuery.Execute : BillQuery → BankSession J.Number → Except J.Error Unit × BankSession J.Number
  | .QueryHistoryBill => QueryHistoryBill.Execute J
  | .QueryDayBill => QueryDayBill.Execute J
  | .QueryAccountHistoryBill => QueryAccountHistoryBill.Execute J

variable {J}

/-- The header is read again with the row. -/
theorem header_of_row {pack : Bytes} {r : Header × TransDetail J.Number} (h : row J pack = .ok r) :
    header J pack = .ok r.1 := by
  simp only [row, readRow, StateT.run'_eq, StateT.run_bind, StateT.run_pure, map_bind] at h
  obtain ⟨⟨head, stream⟩, hhead, h⟩ := bind_ok h
  obtain ⟨trans_date, -, h⟩ := bind_ok h
  obtain ⟨account_id, -, h⟩ := bind_ok h
  obtain ⟨other_account_id, -, h⟩ := bind_ok h
  obtain ⟨money, -, h⟩ := bind_ok h
  obtain ⟨abstract_name, -, h⟩ := bind_ok h
  obtain ⟨balance, -, h⟩ := bind_ok h
  obtain ⟨total, -, h⟩ := bind_ok h
  cases h
  rw [header, StateT.run'_eq, hhead]
  rfl

/-! ## The packs of an answer -/

/-- What the loop takes of the packs, the first of which is there already:
`rows` are parsed, up to the first that says it is the last, `received` counts
the packs with the first, and `outcome` is how the loop ends. -/
structure Took (J : JInStream) (packs : Nat → Bytes) (cnt : Nat) (rows : List (Header × TransDetail J.Number)) (received : Nat)
    (outcome : Except J.Error Unit) : Prop where
  parsed : ∀ k (h : k < rows.length), row J (packs k) = .ok rows[k]
  atMost : rows.length ≤ cnt
  notLast : ∀ k (h : k + 1 < rows.length), ¬rows[k].1.isLast
  stop :
    (∃ r, rows.getLast? = some r ∧ r.1.isLast ∧ received = rows.length ∧ outcome = .ok ()) ∨
      ((∀ r ∈ rows, ¬r.1.isLast) ∧ received = rows.length + 1 ∧
        ((rows.length = cnt ∧ outcome = .ok ()) ∨
          (rows.length < cnt ∧ ∃ e, row J (packs rows.length) = .error e ∧ outcome = .error e)))

variable {packs : Nat → Bytes} {cnt received : Nat} {rows : List (Header × TransDetail J.Number)}
  {outcome : Except J.Error Unit}

namespace Took

theorem ended : Took J packs 0 [] 1 (.ok ()) :=
  ⟨by simp, by simp, by simp, .inr ⟨by simp, rfl, .inl ⟨rfl, rfl⟩⟩⟩

theorem failed {e : J.Error} (h : row J (packs 0) = .error e) (hcnt : 0 < cnt) : Took J packs cnt [] 1 (.error e) :=
  ⟨by simp, by simp, by simp, .inr ⟨by simp, rfl, .inr ⟨hcnt, e, h, rfl⟩⟩⟩

theorem last {r : Header × TransDetail J.Number} (h : row J (packs 0) = .ok r) (hlast : r.1.isLast) (hcnt : 0 < cnt) :
    Took J packs cnt [r] 1 (.ok ()) :=
  ⟨by simp [h], hcnt, by simp, .inl ⟨r, rfl, hlast, rfl, rfl⟩⟩

theorem next {r : Header × TransDetail J.Number} (h : row J (packs 0) = .ok r) (hlast : ¬r.1.isLast)
    (took : Took J (fun k => packs (k + 1)) cnt rows received outcome) :
    Took J packs (cnt + 1) (r :: rows) (received + 1) outcome := by
  refine ⟨?_, by simpa using took.atMost, ?_, ?_⟩
  · intro k hk
    cases k with
    | zero => exact h
    | succ k => exact took.parsed k (by simpa using hk)
  · intro k hk
    cases k with
    | zero => exact hlast
    | succ k => exact took.notLast k (by simpa using hk)
  · rcases took.stop with ⟨l, hl, hislast, hreceived, hout⟩ | ⟨hnone, hreceived, hend⟩
    · exact .inl ⟨l, by simp [List.getLast?_cons, hl], hislast, by simp [hreceived], hout⟩
    · refine .inr ⟨by simpa [hlast] using hnone, by simp [hreceived], ?_⟩
      simpa using hend

theorem received_le (took : Took J packs cnt rows received outcome) : received ≤ 1 + cnt := by
  have hle := took.atMost
  rcases took.stop with ⟨l, -, -, hreceived, -⟩ | ⟨-, hreceived, -⟩
  · omega
  · omega

end Took

/-- An answer in whole: every pack has their number, its own place, and no error. -/
structure IsAnswer (J : JInStream) (packs : Nat → Bytes) (rows : List (Header × TransDetail J.Number)) : Prop where
  ne : rows ≠ []
  parsed : ∀ k (h : k < rows.length), row J (packs k) = .ok rows[k]
  cnt : ∀ k (h : k < rows.length), rows[k].1.cnt.toNat = rows.length
  seq : ∀ k (h : k < rows.length), rows[k].1.seq.toNat = k
  error_code : ∀ k (h : k < rows.length), rows[k].1.error_code = 0

theorem IsAnswer.isLast_iff (answer : IsAnswer J packs rows) {k : Nat} (hk : k < rows.length) :
    rows[k].1.isLast ↔ k + 1 = rows.length := by
  rw [Header.isLast, answer.seq k hk, answer.cnt k hk]
  omega

/-- **An answer is taken whole**, and nothing after it. -/
theorem Took.of_answer {all : List (Header × TransDetail J.Number)} (answer : IsAnswer J packs all)
    (took : Took J packs all.length rows received outcome) :
    rows = all ∧ received = all.length ∧ outcome = .ok () := by
  have hle := took.atMost
  have hpos := List.length_pos_iff.mpr answer.ne
  have hagree : ∀ k (h : k < rows.length), rows[k] = all[k] := by
    intro k h
    have hparsed := took.parsed k h
    rw [answer.parsed k (by omega)] at hparsed
    exact (Except.ok.inj hparsed).symm
  have hwhole : rows.length = all.length → rows = all := fun hlen =>
    List.ext_getElem hlen fun k h _ => hagree k h
  rcases took.stop with ⟨r, hr, hlast, hreceived, hout⟩ | ⟨hnone, -, hend⟩
  · have hne : rows ≠ [] := by
      rintro rfl
      simp at hr
    have hrows := List.length_pos_iff.mpr hne
    have hlen : rows.length = all.length := by
      rw [List.getLast?_eq_getElem?, List.getElem?_eq_getElem (by omega), Option.some.injEq] at hr
      rw [← hr, hagree, answer.isLast_iff] at hlast
      omega
    exact ⟨hwhole hlen, hreceived.trans hlen, hout⟩
  · exfalso
    rcases hend with ⟨hlen, -⟩ | ⟨hlt, e, he, -⟩
    · -- The last pack of the answer would not be the last.
      have hk : all.length - 1 < rows.length := by omega
      refine hnone _ (List.getElem_mem hk) ?_
      rw [hagree, answer.isLast_iff]
      omega
    · rw [answer.parsed _ hlt] at he
      cases he

/-- **The loop takes what `Took` says**, from the pack that is there on. -/
theorem ExecuteLoop_took (cnt i : UInt16) (s : BankSession J.Number)
    (hpack : s.GetResponsePack = packs 0) (harriving : s.arriving = fun k => packs (k + 1)) :
    ∃ rows n, Took J packs (cnt.toNat - i.toNat) rows (n + 1) (ExecuteLoop J cnt i s).1 ∧
      (ExecuteLoop J cnt i s).2.received = s.received + n ∧
      (ExecuteLoop J cnt i s).2.details = s.details ++ rows.map Prod.snd ∧
      (ExecuteLoop J cnt i s).2.arriving = fun k => s.arriving (n + k) := by
  induction i, s using ExecuteLoop.induct J cnt generalizing packs with
  | case1 i s hi e hrow =>
    have hpos : 0 < cnt.toNat - i.toNat := by
      have hlt := UInt16.lt_iff_toNat_lt.mp hi
      omega
    rw [ExecuteLoop, if_pos hi, hrow]
    exact ⟨[], 0, .failed (hpack ▸ hrow) hpos, by simp, by simp, by simp⟩
  | case2 i s hi head td hrow hlast =>
    have hpos : 0 < cnt.toNat - i.toNat := by
      have hlt := UInt16.lt_iff_toNat_lt.mp hi
      omega
    rw [ExecuteLoop, if_pos hi, hrow]
    simp only [if_pos hlast]
    exact ⟨[(head, td)], 0, .last (hpack ▸ hrow) hlast hpos, by simp, by simp, by simp⟩
  | case3 i s hi head td hrow hlast ih =>
    have hleft : cnt.toNat - i.toNat = cnt.toNat - (i + 1).toNat + 1 := by
      have hlt := UInt16.lt_iff_toNat_lt.mp hi
      rw [toNat_succ hi]
      omega
    obtain ⟨rows, n, htook, hreceived, hdetails, hrest⟩ :=
      @ih (fun k => packs (k + 1)) (by simp [harriving]) (by simp [harriving])
    rw [ExecuteLoop, if_pos hi, hrow]
    simp only [if_neg hlast]
    refine ⟨(head, td) :: rows, n + 1, ?_, ?_, ?_, ?_⟩
    · rw [hleft]
      exact .next (hpack ▸ hrow) hlast htook
    · simp [hreceived, Nat.add_assoc, Nat.add_comm 1]
    · simp [hdetails]
    · simp [hrest, Nat.add_right_comm]
  | case4 i s hi =>
    have hzero : cnt.toNat - i.toNat = 0 := by
      rw [UInt16.lt_iff_toNat_lt] at hi
      omega
    rw [ExecuteLoop, if_neg hi, hzero]
    exact ⟨[], 0, .ended, by simp, by simp, by simp⟩

/-! ## What a command does -/

theorem Execute_failed {request : Request} {s : BankSession J.Number} {e : J.Error}
    (h : header J (s.arriving 0) = .error e) : CMD.Execute J request s = (.error e, (s.call (.Send request)).Recv) := by
  simp [CMD.Execute, h]

theorem Execute_ok {request : Request} {s : BankSession J.Number} {head : Header}
    (h : header J (s.arriving 0) = .ok head) :
    CMD.Execute J request s =
      let s := (((s.call (.Send request)).Recv).call (.SetErrorCode head.error_code)).call
        (.SetErrorMsg (cString (head.error_msg ++ J.afterMsg)))
      if head.error_code = 0 then ExecuteLoop J head.cnt 0 s else (.ok (), s) := by
  simp [CMD.Execute, h]

/-- What a command did: how often it received, and which details it added. -/
structure Assembled (J : JInStream) (s : BankSession J.Number) (out : Except J.Error Unit × BankSession J.Number)
    (n : Nat) : Prop where
  received : out.2.received = s.received + n
  rest : out.2.arriving = fun k => s.arriving (n + k)
  failed : ∀ e, header J (s.arriving 0) = .error e → n = 1 ∧ out.2.details = s.details
  refused : ∀ head, header J (s.arriving 0) = .ok head → head.error_code ≠ 0 → n = 1 ∧ out.2.details = s.details
  took : ∀ head, header J (s.arriving 0) = .ok head → head.error_code = 0 →
    ∃ rows, Took J s.arriving head.cnt.toNat rows n out.1 ∧ out.2.details = s.details ++ rows.map Prod.snd

theorem Execute_assembled (request : Request) (s : BankSession J.Number) :
    ∃ n, Assembled J s (CMD.Execute J request s) n := by
  cases hhead : header J (s.arriving 0) with
  | error e =>
    rw [Execute_failed hhead]
    exact ⟨1, by simp, by simp [Nat.add_comm], by simp, by simp [hhead], by simp [hhead]⟩
  | ok head =>
    rw [Execute_ok hhead]
    by_cases hzero : head.error_code = 0
    · simp only [if_pos hzero]
      obtain ⟨rows, n, htook, hreceived, hdetails, hrest⟩ :=
        ExecuteLoop_took head.cnt 0 ((((s.call (.Send request)).Recv).call (.SetErrorCode head.error_code)).call
          (.SetErrorMsg (cString (head.error_msg ++ J.afterMsg)))) (show _ = s.arriving 0 by simp) (by simp)
      refine ⟨n + 1, ?_, ?_, by simp [hhead], ?_, ?_⟩
      · simp [hreceived, Nat.add_assoc, Nat.add_comm 1]
      · simp [hrest, Nat.add_right_comm]
      · intro h hh hne
        cases hhead.symm.trans hh
        exact absurd hzero hne
      · intro h hh _
        cases hhead.symm.trans hh
        exact ⟨rows, by simpa using htook, by simpa using hdetails⟩
    · simp only [if_neg hzero]
      refine ⟨1, by simp, by simp [Nat.add_comm], by simp [hhead], by simp, ?_⟩
      intro h hh hz
      cases hhead.symm.trans hh
      exact absurd hz hzero

/-- **Answers of several packs are assembled whole**, by each of the three
commands: after one pack that is refused or cannot be read, and else after
those the loop takes; a whole answer is taken whole, and nothing after it. -/
theorem Execute_assembles (query : BillQuery) (J : JInStream) (s : BankSession J.Number) :
    ∃ n, Assembled J s (query.Execute J s) n ∧
      (∀ head, header J (s.arriving 0) = .ok head → n ≤ 1 + head.cnt.toNat) ∧
      ∀ rows, IsAnswer J s.arriving rows → n = rows.length ∧ (query.Execute J s).1 = .ok () ∧
        (query.Execute J s).2.details = s.details ++ rows.map Prod.snd := by
  obtain ⟨request, hrequest⟩ : ∃ request, query.Execute J s = CMD.Execute J request s := by
    cases query with
    | QueryHistoryBill => exact ⟨_, rfl⟩
    | QueryDayBill => exact ⟨_, rfl⟩
    | QueryAccountHistoryBill => exact ⟨_, rfl⟩
  rw [hrequest]
  obtain ⟨n, h⟩ := Execute_assembled request s
  refine ⟨n, h, ?_, ?_⟩
  · intro head hhead
    by_cases hzero : head.error_code = 0
    · obtain ⟨rows, htook, -⟩ := h.took head hhead hzero
      exact htook.received_le
    · have hone := (h.refused head hhead hzero).1
      omega
  · intro rows answer
    have hpos := List.length_pos_iff.mpr answer.ne
    obtain ⟨took, htook, hdetails⟩ := h.took _ (header_of_row (answer.parsed 0 hpos)) (answer.error_code 0 hpos)
    rw [answer.cnt 0 hpos] at htook
    obtain ⟨rfl, hn, hout⟩ := htook.of_answer answer
    exact ⟨hn, hout, hdetails⟩

/-- A reader of fields in network order, and texts after their length. -/
def networkOrder : JInStream where
  Stream := Bytes
  Error := Unit
  Number := Bytes
  SetData := id
  Skip n := modify fun b => b.drop n
  ReadBytes n b := if n ≤ b.length then .ok (b.take n, b.drop n) else .error ()
  uint16
    | x :: y :: b => .ok (x.toUInt16 * 256 + y.toUInt16, b)
    | _ => .error ()
  int16
    | x :: y :: b => .ok ((x.toUInt16 * 256 + y.toUInt16).toInt16, b)
    | _ => .error ()
  uint32
    | x :: y :: z :: w :: b => .ok (((x.toUInt32 * 256 + y.toUInt32) * 256 + z.toUInt32) * 256 + w.toUInt32, b)
    | _ => .error ()
  string
    | n :: b => if n.toNat ≤ b.length then .ok (b.take n.toNat, b.drop n.toNat) else .error ()
    | [] => .error ()
  number := id
  afterMsg := [0]

/-- The pack `seq` of two, with a row of empty texts. -/
def packOfTwo (seq : UInt8) : Bytes := [0, 0, 0, 0, 0, 2, 0, seq, 0, 0] ++ List.replicate 68 0

def rowOfTwo (seq : UInt16) : Header × TransDetail Bytes :=
  ({ cnt := 2, seq := seq, error_code := 0, error_msg := List.replicate 30 0 },
    { trans_date := [], account_id := [], other_account_id := [], abstract_name := [], money := [], balance := [], total := 0 })

def twoPacks : BankSession Bytes where
  GetAttribute _ := []
  GetResponsePack := []
  arriving k := packOfTwo (UInt8.ofNat k)
  calls := []

theorem twoPacks_answer : IsAnswer networkOrder twoPacks.arriving [rowOfTwo 0, rowOfTwo 1] := by
  have hcases : ∀ k < [rowOfTwo 0, rowOfTwo 1].length, k = 0 ∨ k = 1 := by
    intro k hk
    rw [List.length_cons, List.length_singleton] at hk
    omega
  constructor
  · exact List.cons_ne_nil _ _
  all_goals
    intro k hk
    rcases hcases k hk with rfl | rfl
    · rfl
    · rfl

/-- Two packs are received, of the two that make the answer. -/
theorem Execute_assembles_two : (BillQuery.QueryDayBill.Execute networkOrder twoPacks).2.received = 2 := by
  obtain ⟨n, h, -, hanswer⟩ := Execute_assembles .QueryDayBill networkOrder twoPacks
  rw [h.received, (hanswer _ twoPacks_answer).1]
  rfl

end

end CMD

end DictionaryServer
