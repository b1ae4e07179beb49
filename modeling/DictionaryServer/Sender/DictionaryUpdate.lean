/-
When an update of the dictionary is complete, and when one is lost.

A file whose every line ends in a newline is never taken over: the fetch counts
as done and the old data are sent as the new. Of a file that ends without one
the last line is lost. A fetch that fails is not made again, and what was sent
before is sent once more. `update_iff` says what is left: the ticks that meet
`Met` are the ones that do right.
-/
import DictionaryServer.Sender.PreRankScoreDic

namespace DictionaryServer

open Lib Sender

namespace PreRankScoreDic

/-- **The rows of a file**: of every line that has five fields. -/
def parse (content : Bytes) : List RankScoreData := (content.splitOn newline).filterMap parseLine

/-- The rows of the lines that end in a newline. -/
def completeRows (content : Bytes) : List RankScoreData :=
  (content.splitOn newline).dropLast.filterMap parseLine

/-- What follows the last newline. -/
def lastLine (content : Bytes) : Bytes := (content.splitOn newline).getLast (List.splitOn_ne_nil _ _)

theorem parse_eq (content : Bytes) :
    parse content = completeRows content ++ (parseLine (lastLine content)).toList := by
  have hsplit := List.dropLast_append_getLast (List.splitOn_ne_nil newline content)
  rw [parse, completeRows, lastLine]
  conv_lhs => rw [← hsplit]
  rw [List.filterMap_append]
  cases h : parseLine ((content.splitOn newline).getLast (List.splitOn_ne_nil _ _)) <;> simp [h]

/-- **What the loop reads**, and what it has read when the stream ends. -/
theorem readLines_eq (datas : List RankScoreData) {line : Bytes} (hline : newline ∉ line) (is : Bytes) :
    readLines datas line is = (datas ++ completeRows (line ++ is), lastLine (line ++ is)) := by
  induction is generalizing datas line with
  | nil =>
    have hsplit := List.splitOn_eq_singleton hline
    simp [readLines, completeRows, lastLine, hsplit]
  | cons c is ih =>
    rw [readLines]
    by_cases hc : c = newline
    · subst hc
      have hsplit := List.splitOn_append_cons_self_of_not_mem hline is
      have hne := List.splitOn_ne_nil newline is
      rw [if_pos rfl]
      rcases hrow : parseLine line with _ | rankScore
      · simp only
        rw [ih datas (List.not_mem_nil)]
        simp [completeRows, lastLine, hsplit, hrow, List.dropLast_cons_of_ne_nil hne, List.getLast_cons hne]
      · simp only
        rw [ih _ (List.not_mem_nil)]
        simp [completeRows, lastLine, hsplit, hrow, List.dropLast_cons_of_ne_nil hne, List.getLast_cons hne]
    · have hline' : newline ∉ line ++ [c] := by simp [hline, Ne.symm hc]
      rw [if_neg hc, ih datas hline', List.append_assoc]
      rfl

/-- **A fetch.** -/
theorem FetcherData_ok (dic : PreRankScoreDic) (content : Bytes) :
    dic.FetcherData content .ok =
      if lastLine content = [] then { dic with isSuccess := true }
      else { dic with datas := completeRows content, isSuccess := true } := by
  simp only [FetcherData]
  rw [readLines_eq [] List.not_mem_nil]
  simp only [List.nil_append, List.isEmpty_iff]
  split <;> rfl

theorem FetcherData_failed (dic : PreRankScoreDic) (content : Bytes) {fate : Fate} (h : fate ≠ .ok) :
    dic.FetcherData content fate = dic := by
  cases fate with
  | ok => exact absurd rfl h
  | access | «open» | read => rfl

theorem update_idle {dic : PreRankScoreDic} {file : Option Version} {tick : Tick}
    (h : ∀ version ∈ file, tick.access = true → tick.stat = true → version.ctime ≤ dic.lastUpdateTimestamp) :
    dic.IsNewDictArrivedAndFetcher file tick = ⟨dic, false, none⟩ := by
  unfold IsNewDictArrivedAndFetcher
  rcases file with _ | version
  · rfl
  · cases haccess : tick.access
    · simp
    · cases hstat : tick.stat
      · simp
      · simp [h version rfl haccess hstat]

theorem update_fetch {dic : PreRankScoreDic} {version : Version} {tick : Tick} (haccess : tick.access = true)
    (hstat : tick.stat = true) (hnew : dic.lastUpdateTimestamp < version.ctime) :
    dic.IsNewDictArrivedAndFetcher (some version) tick =
      let dic := { dic with lastUpdateTimestamp := version.ctime }.FetcherData version.content tick.fate
      ⟨dic, true, dic.TransferData⟩ := by
  simp [IsNewDictArrivedAndFetcher, haccess, hstat, Nat.not_le.mpr hnew]

theorem FetcherData_timestamp (dic : PreRankScoreDic) (content : Bytes) (fate : Fate) :
    (dic.FetcherData content fate).lastUpdateTimestamp = dic.lastUpdateTimestamp := by
  by_cases hfate : fate = .ok
  · rw [hfate, FetcherData_ok]
    split <;> rfl
  · rw [FetcherData_failed dic content hfate]

theorem TransferData_iff {dic : PreRankScoreDic} {P : List RankScoreData → Prop} :
    (∀ datas, dic.TransferData = some datas → P datas) ↔ dic.datas = [] ∨ dic.isSuccess = false ∨ P dic.datas := by
  unfold TransferData
  by_cases hnone : dic.datas.isEmpty ∨ dic.isSuccess = false
  · rw [if_pos hnone]
    refine iff_of_true nofun ?_
    rcases hnone with h | h
    · exact .inl (List.isEmpty_iff.mp h)
    · exact .inr (.inl h)
  · rw [if_neg hnone]
    obtain ⟨hne, hsuccess⟩ := not_or.mp hnone
    rw [List.isEmpty_iff] at hne
    simp [hne, hsuccess]

end PreRankScoreDic

namespace Sender.DictFile

open PreRankScoreDic

variable {w w' : DictFile} {l : Label}

/-- What a step has to do: what is sent is the file as it was at
`lastUpdateTimestamp_`, and what could not be fetched is fetched when the file
can be read. -/
def Right (w : DictFile) : Label → DictFile → Prop
  | .newVersion _, _ => True
  | .tick tick fetched transfer, w' =>
    (∀ datas, transfer = some datas →
      ∃ version ∈ w.file, version.ctime = w'.dic.lastUpdateTimestamp ∧ datas = parse version.content) ∧
    (w.failed = true → w.file.isSome → tick.access = true → tick.stat = true → fetched = true)

/-- Where the code does that. -/
def Met (w : DictFile) : Label → Prop
  | .newVersion _ => True
  | .tick tick _ _ =>
    ∀ version ∈ w.file, tick.access = true → tick.stat = true →
      if w.dic.lastUpdateTimestamp < version.ctime then
        if tick.fate = .ok then
          if lastLine version.content = [] then w.dic.datas = [] ∨ w.dic.datas = parse version.content
          else completeRows version.content = [] ∨ parseLine (lastLine version.content) = none
        else w.dic.datas = [] ∨ w.dic.isSuccess = false ∨ w.dic.datas = parse version.content
      else w.failed = false

/-- The rows are complete without the last line if it is not one. -/
theorem completeRows_iff (content : Bytes) :
    completeRows content = parse content ↔ parseLine (lastLine content) = none := by
  rw [parse_eq, List.self_eq_append_right, Option.toList_eq_nil_iff]

theorem right_idle {tick : Tick}
    (hidle : ∀ version ∈ w.file, tick.access = true → tick.stat = true → version.ctime ≤ w.dic.lastUpdateTimestamp) :
    Right w (.tick tick false none) w' ↔ Met w (.tick tick false none) := by
  constructor
  · intro hright version hfile haccess hstat
    rw [if_neg (Nat.not_lt.mpr (hidle version hfile haccess hstat))]
    by_contra hfailed
    have hfetched := hright.2 (by simpa using hfailed) (Option.isSome_of_mem hfile) haccess hstat
    cases hfetched
  · intro hmet
    refine ⟨nofun, ?_⟩
    intro hfailed hfile haccess hstat
    obtain ⟨version, hfile⟩ := Option.isSome_iff_exists.mp hfile
    have hnot := hmet version hfile haccess hstat
    rw [if_neg (Nat.not_lt.mpr (hidle version hfile haccess hstat)), hfailed] at hnot
    cases hnot

/-- A fetch has to leave the rows of the file, or nothing to send. -/
theorem right_fetch {tick : Tick} {version : Version} (hfile : w.file = some version) (haccess : tick.access = true)
    (hstat : tick.stat = true) (hnew : w.dic.lastUpdateTimestamp < version.ctime) {dic : PreRankScoreDic}
    (hdic : dic = { w.dic with lastUpdateTimestamp := version.ctime }.FetcherData version.content tick.fate)
    (hw' : w'.dic = dic) :
    Right w (.tick tick true dic.TransferData) w' ↔ Met w (.tick tick true dic.TransferData) := by
  have hright : Right w (.tick tick true dic.TransferData) w' ↔
      dic.datas = [] ∨ dic.isSuccess = false ∨ dic.datas = parse version.content := by
    rw [← TransferData_iff (P := fun datas => datas = parse version.content)]
    simp [Right, hfile, hw', hdic, FetcherData_timestamp]
  have hmet : Met w (.tick tick true dic.TransferData) ↔
      if tick.fate = .ok then
        if lastLine version.content = [] then w.dic.datas = [] ∨ w.dic.datas = parse version.content
        else completeRows version.content = [] ∨ parseLine (lastLine version.content) = none
      else w.dic.datas = [] ∨ w.dic.isSuccess = false ∨ w.dic.datas = parse version.content := by
    simp [Met, hfile, haccess, hstat, hnew]
  rw [hright, hmet, hdic]
  by_cases hfate : tick.fate = .ok
  · rw [if_pos hfate, hfate, FetcherData_ok]
    by_cases hlast : lastLine version.content = []
    · simp [hlast]
    · rw [if_neg hlast, if_neg hlast, ← completeRows_iff]
      simp
  · rw [if_neg hfate, FetcherData_failed _ _ hfate]

/-- **A step does right exactly when it meets the condition.** -/
theorem right_iff (hs : Step w l w') : Right w l w' ↔ Met w l := by
  cases hs with
  | newVersion => exact Iff.rfl
  | @tick tick update hupdate =>
    by_cases hidle : ∀ version ∈ w.file, tick.access = true → tick.stat = true → version.ctime ≤ w.dic.lastUpdateTimestamp
    · rw [update_idle hidle] at hupdate
      subst hupdate
      exact right_idle hidle
    · push Not at hidle
      obtain ⟨version, hfile, haccess, hstat, hnew⟩ := hidle
      rw [Option.mem_def.mp hfile, update_fetch haccess hstat hnew] at hupdate
      subst hupdate
      exact right_fetch hfile haccess hstat hnew rfl rfl

/-- **A run does right exactly when each of its steps meets the condition.** -/
theorem update_iff (w₀ : DictFile) (labels : List Label) (w : DictFile) :
    (system.restrict Right).Run w₀ labels w ↔ (system.restrict fun w l _ => Met w l).Run w₀ labels w :=
  System.restrict_congr fun _ _ _ => right_iff

/-- A file with one row, and a comment without a newline. -/
def firstVersion : Version where
  ctime := 10
  content := ofText "1\x012\x010.5\x010.5\x01100\n#"

def secondVersion : Version where
  ctime := 20
  content := ofText "1\x012\x010.5\x010.5\x01200\n#"

/-- After the first version is fetched. -/
def fetchedFirst : DictFile where
  dic := { datas := completeRows firstVersion.content, lastUpdateTimestamp := 10, isSuccess := true }
  file := some firstVersion
  failed := false

/-- Before anything is seen of the file. -/
def unseen (file : Option Version) : DictFile := { dic := .create, file := file, failed := false }

theorem fetchedFirst_reachable : system.Reachable fetchedFirst := by
  have hstart : system.start (unseen none) := ⟨rfl, rfl, rfl⟩
  have hnew : Step (unseen none) (.newVersion firstVersion) (unseen (some firstVersion)) := .newVersion nofun
  have hlast : lastLine firstVersion.content ≠ [] := by decide +kernel
  have hupdate : PreRankScoreDic.create.IsNewDictArrivedAndFetcher (some firstVersion) ⟨true, true, .ok⟩ = _ :=
    update_fetch rfl rfl (by decide)
  have hfetch := Step.tick (w := unseen (some firstVersion)) hupdate
  simp only [FetcherData_ok, if_neg hlast] at hfetch
  exact ((System.Reachable.of_start hstart).step hnew).step hfetch

/-- The second version cannot be read: the first is sent in its name. Then it
can be read, and is not. -/
theorem update_lost : ∃ (w w₁ w₂ : DictFile) (l₁ l₂ : Label), system.Reachable w ∧
    system.step w l₁ w₁ ∧ ¬Right w l₁ w₁ ∧ system.step w₁ l₂ w₂ ∧ ¬Right w₁ l₂ w₂ := by
  have hnew : Step fetchedFirst (.newVersion secondVersion) { fetchedFirst with file := some secondVersion } := by
    refine .newVersion ?_
    intro old hold
    cases hold
    decide
  have hstale : (completeRows firstVersion.content).map RankScoreData.timestamp = [100] := by decide +kernel
  have hfresh : (parse secondVersion.content).map RankScoreData.timestamp = [200] := by decide +kernel
  have hupdate : fetchedFirst.dic.IsNewDictArrivedAndFetcher (some secondVersion) ⟨true, true, .read⟩ = _ :=
    update_fetch rfl rfl (by decide)
  have hfail := Step.tick (w := { fetchedFirst with file := some secondVersion }) hupdate
  refine ⟨_, _, _, _, .tick ⟨true, true, .ok⟩ _ _, fetchedFirst_reachable.step hnew, hfail, ?_, Step.tick rfl, ?_⟩
  · rw [right_iff hfail]
    intro hmet
    have hwrong := hmet secondVersion rfl rfl rfl
    rw [if_pos (by decide), if_neg nofun] at hwrong
    rcases hwrong with hnone | hnot | hsame
    · have := hstale.symm.trans (congrArg (List.map RankScoreData.timestamp) hnone)
      cases this
    · cases hnot
    · have := hstale.symm.trans ((congrArg (List.map RankScoreData.timestamp) hsame).trans hfresh)
      exact absurd this (by decide)
  · intro hright
    have hfetched := hright.2 rfl rfl rfl rfl
    cases hfetched

end Sender.DictFile
end DictionaryServer
