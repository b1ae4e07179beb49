/-
`PreRankScoreDic` (sender/src/dictionary/PreRankScoreDic.cc): a dictionary read
from a file whose lines have five fields between `\001` bytes.

A scanner calls `IsNewDictArrivedAndFetcher` again and again. It compares the
file's change time with `lastUpdateTimestamp_`, and if the file is newer it
calls `FetcherData`, which reads `datas_`, and `TransferData`, which sends it.

The stream throws when `failbit` or `badbit` is set. So the `getline` that
finds nothing but the end of the file throws, while the one that reads a last
line without a newline sets `eofbit` only, and the loop leaves before that
line is parsed.
-/
import DictionaryServer.Lib.Binary64
import DictionaryServer.Lib.Bytes
import DictionaryServer.Lib.System

namespace DictionaryServer

open Lib

namespace Sender

/-! ## Numbers in a stream -/

/-- `isspace` in the C locale. -/
def isspace (c : UInt8) : Bool := c = 32 ∨ 9 ≤ c ∧ c ≤ 13

def isdigit (c : UInt8) : Bool := 48 ≤ c ∧ c ≤ 57

def digitsValue (digits : Bytes) : Nat := digits.foldl (fun n d => 10 * n + (d.toNat - 48)) 0

/-- `operator>>` into an unsigned integer that holds `old`. -/
def extractUnsigned (max : Nat) (text : Bytes) (old : Nat) : Nat :=
  match text.dropWhile isspace with
  | [] => old
  | c :: rest =>
    let value := digitsValue ((if c = 43 ∨ c = 45 then rest else c :: rest).takeWhile isdigit)
    if value > max then max
    else if c = 45 then (max + 1 - value) % (max + 1)
    else value

def skipSign : Bytes → Bytes
  | c :: rest => if c = 43 ∨ c = 45 then rest else c :: rest
  | [] => []

def spanDigits (text : Bytes) : Bytes × Bytes := (text.takeWhile isdigit, text.dropWhile isdigit)

/-- The exponent at the start of a text: 0 if there is none, and nothing if its
letter has no digits after it. -/
def scanExponent : Bytes → Option Int
  | c :: rest =>
    if c = 69 ∨ c = 101 then
      let digits := (spanDigits (skipSign rest)).1
      if digits.isEmpty then none
      else some (if rest.head? = some 45 then -digitsValue digits else digitsValue digits)
    else some 0
  | [] => some 0

/-- The number at the start of a text, as far as `num_get` takes it in. If that
is none as a whole, `strtod` refuses it. -/
def scanDecimal (text : Bytes) : Option Decimal :=
  let (whole, rest) := spanDigits (skipSign text)
  let (fraction, rest) :=
    match rest with
    | 46 :: rest => spanDigits rest
    | rest => ([], rest)
  if (whole ++ fraction).isEmpty then none
  else
    (scanExponent rest).map fun exponent =>
      { negative := text.head? = some 45
        digits := digitsValue (whole ++ fraction)
        exponent := exponent - fraction.length }

/-- `operator>>` into a `double` that holds `old`. -/
def extractDouble (text : Bytes) (old : Binary64) : Binary64 :=
  match text.dropWhile isspace with
  | [] => old
  | text =>
    match scanDecimal text with
    | none => .zero
    | some number => number.toBinary64

def minusOne : Binary64 := Decimal.toBinary64 { negative := true, digits := 1, exponent := 0 }

structure RankScoreData where
  adspaceId : UInt64 := 0
  solutionId : UInt32 := 0
  ctr : Binary64 := minusOne
  cvr : Binary64 := minusOne
  timestamp : UInt64 := 0

/-- `access`, `open` and the reads of a fetch: which of them fails, if any. -/
inductive Fate
  | ok
  | access
  | «open»
  /-- The stream goes bad before its end. -/
  | read
  deriving DecidableEq

/-- A state of the file. -/
structure Version where
  ctime : Nat
  content : Bytes

end Sender

open Sender

structure PreRankScoreDic where
  datas : List RankScoreData
  lastUpdateTimestamp : Nat
  isSuccess : Bool

namespace PreRankScoreDic

def create : PreRankScoreDic := { datas := [], lastUpdateTimestamp := 0, isSuccess := false }

def ParseRow (result : List Bytes) : Option RankScoreData :=
  let rank : RankScoreData := {}
  match result with
  | [adspaceId, solutionId, ctr, cvr, timestamp] =>
    some
      { adspaceId := .ofNat (extractUnsigned (2 ^ 64 - 1) adspaceId rank.adspaceId.toNat)
        solutionId := .ofNat (extractUnsigned (2 ^ 32 - 1) solutionId rank.solutionId.toNat)
        ctr := extractDouble ctr rank.ctr
        cvr := extractDouble cvr rank.cvr
        timestamp := .ofNat (extractUnsigned (2 ^ 64 - 1) timestamp rank.timestamp.toNat) }
  | _ => none

def newline : UInt8 := 10

/-- `boost::split` at `\001`, then `ParseRow`. -/
def parseLine (line : Bytes) : Option RankScoreData := ParseRow (line.splitOn 1)

/-- The loop of `FetcherData`: `datas` when the stream ends, and the line
`getline` has read until then. -/
def readLines (datas : List RankScoreData) (line : Bytes) : Bytes → List RankScoreData × Bytes
  | [] => (datas, line)
  | c :: is =>
    if c = newline then
      match parseLine line with
      | none => readLines datas [] is
      | some rankScore => readLines (datas ++ [rankScore]) [] is
    else readLines datas (line ++ [c]) is

def FetcherData (dic : PreRankScoreDic) (content : Bytes) : Fate → PreRankScoreDic
  -- What is thrown finds `eof()` false.
  | .access | .open | .read => dic
  | .ok =>
    let (datas, line) := readLines [] [] content
    -- `getline` sets `failbit` too if it has read nothing: `datas_.swap` is skipped.
    let dic := if line.isEmpty then dic else { dic with datas := datas }
    { dic with isSuccess := true }

/-- The data of the transfer that is started, if one is. -/
def TransferData (dic : PreRankScoreDic) : Option (List RankScoreData) :=
  if dic.datas.isEmpty ∨ dic.isSuccess = false then none else some dic.datas

/-- What a tick finds: whether the file can be accessed, whether `stat` works,
and how the fetch goes if there is one. -/
structure Tick where
  access : Bool
  stat : Bool
  fate : Fate

/-- What a call of `IsNewDictArrivedAndFetcher` did. -/
structure Update where
  dic : PreRankScoreDic
  fetched : Bool
  transfer : Option (List RankScoreData)

def IsNewDictArrivedAndFetcher (dic : PreRankScoreDic) (file : Option Version) (tick : Tick) : Update :=
  match file with
  | none => ⟨dic, false, none⟩
  | some buf =>
    if tick.access = false then ⟨dic, false, none⟩
    else if tick.stat = false then ⟨dic, false, none⟩
    else
      let current_update_time := buf.ctime
      if current_update_time ≤ dic.lastUpdateTimestamp then ⟨dic, false, none⟩
      else
        let dic := { dic with lastUpdateTimestamp := current_update_time }
        let dic := dic.FetcherData buf.content tick.fate
        ⟨dic, true, dic.TransferData⟩

end PreRankScoreDic

/-! ## Runs -/

namespace Sender

/-- The dictionary and its file, and whether the last fetch of what the file
holds failed. -/
structure DictFile where
  dic : PreRankScoreDic
  file : Option Version
  failed : Bool

namespace DictFile

inductive Label
  | newVersion (version : Version)
  | tick (tick : PreRankScoreDic.Tick) (fetched : Bool) (transfer : Option (List RankScoreData))

inductive Step (w : DictFile) : Label → DictFile → Prop
  | newVersion {version} (hnew : ∀ old ∈ w.file, old.ctime < version.ctime) :
      Step w (.newVersion version) { w with file := some version, failed := false }
  | tick {tick update} (hupdate : w.dic.IsNewDictArrivedAndFetcher w.file tick = update) :
      Step w (.tick tick update.fetched update.transfer)
        { w with dic := update.dic, failed := if update.fetched then decide (tick.fate ≠ .ok) else w.failed }

/-- A dictionary that has seen no file. -/
def system : System DictFile Label where
  start w := w.dic = .create ∧ w.file = none ∧ w.failed = false
  step := Step

end DictFile
end Sender
end DictionaryServer
