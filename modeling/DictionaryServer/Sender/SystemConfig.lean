/-
`PUBLIC::SystemConfig` (sender/src/utils/SystemConfig.cc): a configuration file
read into `properties_`, line by line.

A `Layout` is a file some sections are written in; what each of its lines does
is `LoadLine_written`, and `GetProperty_Load` what is found of the sections.
-/
import DictionaryServer.Sender.StringUtil
import Mathlib.Data.List.Forall2
import Mathlib.Data.List.ReduceOption
import Std.Data.ExtTreeMap

namespace DictionaryServer

open Lib StdString StringUtil

namespace SystemConfig

/-- `properties_` -/
abbrev Properties := Std.ExtTreeMap Bytes Bytes

/-- What `Load` carries from line to line. -/
structure LoadState where
  segmentName : Bytes
  properties_ : Properties

/-- `getline`: the line, and what is left of the file. -/
def getline (fin : Bytes) : Option (Bytes × Bytes) :=
  if fin = [] then none else some (fin.takeWhile (· != 0x0A), (fin.dropWhile (· != 0x0A)).drop 1)

theorem getline_length {fin line rest : Bytes} (h : getline fin = some (line, rest)) : rest.length < fin.length := by
  simp only [getline, Option.ite_none_left_eq_some, Option.some.injEq, Prod.mk.injEq] at h
  obtain ⟨hne, -, rfl⟩ := h
  have hle := List.length_dropWhile_le (· != 0x0A) fin
  have hpos := List.length_pos_iff.mpr hne
  rw [List.length_drop]
  omega

/-- The body of the loop of `Load`. The terminator is what `line[0]` reads of an empty line. -/
def LoadLine (state : LoadState) (line : Bytes) : LoadState :=
  let line := Trim line
  if line.headD 0 = 0x23 then state
  else
    match if line.headD 0 = 0x5B then find line 0x5D 0 else none with
    | some pos => { state with segmentName := substr line 1 (pos - 1) }
    | none =>
      match find line 0x3D 0 with
      | some pos =>
        let left := Rtrim (substr line 0 pos)
        let right := Trim (line.drop (pos + 1))
        let propertyName := if state.segmentName = [] then left else state.segmentName ++ ofText "." ++ left
        { state with properties_ := state.properties_.insert propertyName right }
      | none => state

def LoadLoop (fin : Bytes) (state : LoadState) : LoadState :=
  match _hline : getline fin with
  | some (line, rest) => LoadLoop rest (LoadLine state line)
  | none => state
termination_by fin.length
decreasing_by exact getline_length _hline

/-- `Load`, of a file that is there (`assert(fin)`). -/
def Load (properties : Properties) (file : Bytes) : Properties :=
  (LoadLoop file { segmentName := [], properties_ := properties }).properties_

/-- `properties_[name]`, which puts an empty string where there is nothing. -/
def GetProperty (properties : Properties) (name : Bytes) : Bytes × Properties :=
  match properties[name]? with
  | some value => (value, properties)
  | none => ([], properties.insert name [])

/-! ## Files -/

structure Assignment where
  key : Bytes
  value : Bytes
  key_ne : key ≠ []
  key_text : 0x3D ∉ key ∧ 0x0A ∉ key
  key_trimmed : NoOuterBlanks key
  key_first : key.head? ≠ some 0x23 ∧ key.head? ≠ some 0x5B
  value_text : 0x0A ∉ value
  value_trimmed : NoOuterBlanks value

abbrev SectionName := { name : Bytes // 0x5D ∉ name ∧ 0x0A ∉ name }

structure Section where
  name : SectionName
  assignments : List Assignment

/-- The name an assignment is found by. -/
def fullName (name key : Bytes) : Bytes := if name = [] then key else name ++ ofText "." ++ key

def Section.bindings (s : Section) : List (Bytes × Bytes) := s.assignments.map fun a => (fullName s.name a.key, a.value)

/-- The lines that mean something. -/
inductive Line
  | header (name : SectionName)
  | assignment (a : Assignment)

def Section.lines (s : Section) : List Line := .header s.name :: s.assignments.map .assignment

/-- How a line can be written. Blank lines and comments are the lines of nothing. -/
inductive WrittenAs : Option Line → Bytes → Prop
  | blank {b : Bytes} (hb : Blanks b) : WrittenAs none b
  | comment {b text : Bytes} (hb : Blanks b) (htext : 0x0A ∉ text) : WrittenAs none (b ++ 0x23 :: text)
  | header {b b' : Bytes} (name : SectionName) (hb : Blanks b) (hb' : Blanks b') :
    WrittenAs (some (.header name)) (b ++ (0x5B :: name.val ++ [0x5D]) ++ b')
  | assignment {b₁ b₂ b₃ b₄ : Bytes} (a : Assignment) (h₁ : Blanks b₁) (h₂ : Blanks b₂) (h₃ : Blanks b₃)
    (h₄ : Blanks b₄) : WrittenAs (some (.assignment a)) (b₁ ++ (a.key ++ b₂ ++ 0x3D :: (b₃ ++ a.value ++ b₄)))

/-- A file the sections are written in, with or without a newline at its end. -/
def Layout (sections : List Section) (file : Bytes) : Prop :=
  ∃ (lines : List (Option Line)) (texts : List Bytes),
    lines.reduceOption = sections.flatMap Section.lines ∧ List.Forall₂ WrittenAs lines texts ∧
      (file = [0x0A].intercalate texts ∨ file = [0x0A].intercalate texts ++ [0x0A])

/-- What a line means. -/
def LoadState.apply (state : LoadState) : Line → LoadState
  | .header name => { state with segmentName := name }
  | .assignment a => { state with properties_ := state.properties_.insert (fullName state.segmentName a.key) a.value }

/-! ## One line -/

theorem blanks_nl {b : Bytes} (hb : Blanks b) : 0x0A ∉ b := hb.not_mem (by decide)

theorem WrittenAs.noNewline {line : Option Line} {text : Bytes} (h : WrittenAs line text) : 0x0A ∉ text := by
  cases h with
  | blank hb => exact blanks_nl hb
  | comment hb htext => simp [blanks_nl hb, htext]
  | header name hb hb' => simp [blanks_nl hb, blanks_nl hb', name.2.2]
  | assignment a h₁ h₂ h₃ h₄ =>
    simp [blanks_nl h₁, blanks_nl h₂, blanks_nl h₃, blanks_nl h₄, a.key_text.2, a.value_text]

theorem LoadLine_empty {state : LoadState} {line : Bytes} (h : Trim line = []) : LoadLine state line = state := by
  simp [LoadLine, h, find]

theorem LoadLine_comment {state : LoadState} {line text : Bytes} (h : Trim line = 0x23 :: text) :
    LoadLine state line = state := by
  simp [LoadLine, h]

theorem LoadLine_header {state : LoadState} {line name : Bytes} (h : Trim line = 0x5B :: name ++ [0x5D])
    (hname : 0x5D ∉ name) : LoadLine state line = { state with segmentName := name } := by
  have hfind : find (0x5B :: (name ++ [0x5D])) 0x5D 0 = some (name.length + 1) := by
    have hfree : 0x5D ∉ 0x5B :: name := by simpa using hname
    exact find_append hfree []
  simp [LoadLine, h, hfind, substr]

theorem LoadLine_assignment {state : LoadState} {line left right : Bytes} (h : Trim line = left ++ 0x3D :: right)
    (hleft : 0x3D ∉ left) (hne : left ≠ []) (hfirst : left.head? ≠ some 0x23 ∧ left.head? ≠ some 0x5B) :
    LoadLine state line =
      { state with properties_ := state.properties_.insert (fullName state.segmentName (Rtrim left)) (Trim right) } := by
  have hfind := find_append hleft right
  obtain ⟨c, left, rfl⟩ := List.exists_cons_of_ne_nil hne
  obtain ⟨hsharp, hbracket⟩ : c ≠ 0x23 ∧ c ≠ 0x5B := by simpa using hfirst
  rw [List.cons_append] at h hfind
  simp [LoadLine, h, hsharp, hbracket, hfind, substr, fullName]

theorem texts_noNewline {lines : List (Option Line)} {texts : List Bytes} (h : List.Forall₂ WrittenAs lines texts) :
    ∀ t ∈ texts, 0x0A ∉ t := by
  induction h with
  | nil => simp
  | cons hline _ ih => simpa [hline.noNewline] using ih

/-- **Every line does what it means**, however it is written. -/
theorem LoadLine_written {line : Option Line} {text : Bytes} (h : WrittenAs line text) (state : LoadState) :
    LoadLine state text = line.elim state state.apply := by
  cases h with
  | blank hb =>
    have htrim : Trim (text ++ [] ++ []) = [] := Trim_blanks hb (by simp [Blanks]) ⟨by simp, by simp⟩
    exact LoadLine_empty (by simpa using htrim)
  | @comment b t hb htext =>
    have htrim : Trim (b ++ 0x23 :: t) = 0x23 :: Rtrim t := by
      rw [Trim_eq, Rtrim_append_cons (by decide), Ltrim_append hb, Ltrim_of_head (by simp; decide)]
    exact LoadLine_comment htrim
  | header name hb hb' =>
    refine LoadLine_header (Trim_blanks hb hb' ⟨?_, ?_⟩) name.2.1
    · simp
      decide
    · rw [List.getLast?_concat]
      simp
      decide
  | @assignment b₁ b₂ b₃ b₄ a h₁ h₂ h₃ h₄ =>
    have htrim : Trim (b₁ ++ (a.key ++ b₂ ++ 0x3D :: (b₃ ++ a.value ++ b₄))) =
        (a.key ++ b₂) ++ 0x3D :: Rtrim (b₃ ++ a.value ++ b₄) := by
      rw [← List.append_assoc, Trim_eq, Rtrim_append_cons (by decide), List.append_assoc, Ltrim_append h₁]
      refine Ltrim_of_head ?_
      rw [List.append_assoc, List.head?_append_of_ne_nil _ a.key_ne]
      exact a.key_trimmed.head
    have hleft : 0x3D ∉ a.key ++ b₂ := by
      have hb : 0x3D ∉ b₂ := h₂.not_mem (by decide)
      simp [a.key_text.1, hb]
    rw [LoadLine_assignment htrim hleft (by simp [a.key_ne]) (by simpa [a.key_ne] using a.key_first),
      Rtrim_append h₂, Rtrim_of_last a.key_trimmed.last, Trim_Rtrim, Trim_blanks h₃ h₄ a.value_trimmed]
    rfl

/-! ## All lines -/

theorem noNewline {text : Bytes} (h : 0x0A ∉ text) : ∀ c ∈ text, (c != 0x0A) = true := by
  intro c hc
  rw [bne_iff_ne]
  rintro rfl
  exact h hc

theorem getline_cons {text : Bytes} (h : 0x0A ∉ text) (rest : Bytes) :
    getline (text ++ 0x0A :: rest) = some (text, rest) := by
  simp [getline, List.takeWhile_append_of_pos (noNewline h), List.dropWhile_append_of_pos (noNewline h)]

theorem getline_last {text : Bytes} (h : 0x0A ∉ text) (hne : text ≠ []) : getline text = some (text, []) := by
  have htake := List.takeWhile_eq_self_iff.mpr (noNewline h)
  have hdrop := List.dropWhile_eq_nil_iff.mpr (noNewline h)
  simp [getline, hne, htake, hdrop]

theorem LoadLoop_some {fin line rest : Bytes} (h : getline fin = some (line, rest)) (state : LoadState) :
    LoadLoop fin state = LoadLoop rest (LoadLine state line) := by
  rw [LoadLoop]
  split
  · next l r hl =>
    obtain ⟨rfl, rfl⟩ : line = l ∧ rest = r := by simpa [h] using hl
    rfl
  · next hl => simp [h] at hl

@[simp] theorem LoadLoop_nil (state : LoadState) : LoadLoop [] state = state := by
  rw [LoadLoop]
  split
  · next l r hl => simp [getline] at hl
  · rfl

theorem LoadLoop_last {text : Bytes} (h : 0x0A ∉ text) (state : LoadState) : LoadLoop text state = LoadLine state text := by
  rcases eq_or_ne text [] with rfl | hne
  · rw [LoadLoop_nil, LoadLine_empty rfl]
  · rw [LoadLoop_some (getline_last h hne), LoadLoop_nil]

theorem LoadLoop_lines {texts : List Bytes} (h : ∀ t ∈ texts, 0x0A ∉ t) {file : Bytes}
    (hfile : file = [0x0A].intercalate texts ∨ file = [0x0A].intercalate texts ++ [0x0A]) (state : LoadState) :
    LoadLoop file state = texts.foldl LoadLine state := by
  induction texts generalizing file state with
  | nil =>
    rcases hfile with rfl | rfl
    · simp
    · have hline := LoadLoop_some (getline_cons (List.not_mem_nil (a := 0x0A)) []) state
      rw [LoadLoop_nil, LoadLine_empty rfl] at hline
      simpa using hline
  | cons text texts ih =>
    have htext : 0x0A ∉ text := h text (by simp)
    cases texts with
    | nil =>
      rcases hfile with rfl | rfl
      · simp [LoadLoop_last htext]
      · simp [LoadLoop_some (getline_cons htext [])]
    | cons next texts =>
      obtain ⟨rest, rfl, hrest⟩ : ∃ rest, file = text ++ 0x0A :: rest ∧
          (rest = [0x0A].intercalate (next :: texts) ∨ rest = [0x0A].intercalate (next :: texts) ++ [0x0A]) := by
        rcases hfile with rfl | rfl
        · exact ⟨_, by simp, .inl rfl⟩
        · exact ⟨_, by simp, .inr rfl⟩
      rw [LoadLoop_some (getline_cons htext rest), ih (fun t ht => h t (List.mem_cons_of_mem _ ht)) hrest]
      rfl

/-- The lines of a file do what they mean, one after the other. -/
theorem foldl_written {lines : List (Option Line)} {texts : List Bytes} (h : List.Forall₂ WrittenAs lines texts)
    (state : LoadState) : texts.foldl LoadLine state = lines.reduceOption.foldl LoadState.apply state := by
  induction h generalizing state with
  | nil => rfl
  | @cons line text lines texts hline _ ih =>
    rw [List.foldl_cons, ih, LoadLine_written hline]
    cases line with
    | none => simp
    | some line => simp

/-- The properties with the bindings put in, in order. -/
def insertAll (properties : Properties) (bindings : List (Bytes × Bytes)) : Properties :=
  bindings.foldl (fun p b => p.insert b.1 b.2) properties

theorem insertAll_append (properties : Properties) (bs cs : List (Bytes × Bytes)) :
    insertAll properties (bs ++ cs) = insertAll (insertAll properties bs) cs := List.foldl_append

theorem foldl_assignments (as : List Assignment) (state : LoadState) :
    (as.map Line.assignment).foldl LoadState.apply state =
      { state with
        properties_ := insertAll state.properties_ (as.map fun a => (fullName state.segmentName a.key, a.value)) } := by
  induction as generalizing state with
  | nil => rfl
  | cons a as ih =>
    rw [List.map_cons, List.foldl_cons, ih]
    rfl

theorem foldl_section (s : Section) (state : LoadState) :
    s.lines.foldl LoadState.apply state =
      { segmentName := s.name, properties_ := insertAll state.properties_ s.bindings } := by
  rw [Section.lines, List.foldl_cons, foldl_assignments]
  rfl

theorem foldl_sections (sections : List Section) (state : LoadState) :
    ((sections.flatMap Section.lines).foldl LoadState.apply state).properties_ =
      insertAll state.properties_ (sections.flatMap Section.bindings) := by
  induction sections generalizing state with
  | nil => rfl
  | cons s sections ih =>
    rw [List.flatMap_cons, List.foldl_append, foldl_section, ih, List.flatMap_cons, insertAll_append]

theorem Load_layout {sections : List Section} {file : Bytes} (h : Layout sections file) (properties : Properties) :
    Load properties file = insertAll properties (sections.flatMap Section.bindings) := by
  obtain ⟨lines, texts, hlines, hwritten, hfile⟩ := h
  rw [Load, LoadLoop_lines (texts_noNewline hwritten) hfile, foldl_written hwritten, hlines, foldl_sections]

/-! ## GetProperty -/

/-- What `GetProperty` returns. -/
def valueOf (properties : Properties) (name : Bytes) : Bytes := properties[name]?.getD []

theorem GetProperty_value (properties : Properties) (name : Bytes) :
    (GetProperty properties name).1 = valueOf properties name := by
  rw [GetProperty, valueOf]
  cases properties[name]? with
  | none => rfl
  | some value => rfl

/-- **What `GetProperty` puts in changes no answer.** -/
theorem valueOf_GetProperty (properties : Properties) (name q : Bytes) :
    valueOf (GetProperty properties name).2 q = valueOf properties q := by
  rw [GetProperty]
  cases hname : properties[name]? with
  | some value => rfl
  | none =>
    simp only [valueOf, Std.ExtTreeMap.getElem?_insert, Std.compare_eq_iff_eq]
    split
    · next heq => simp [← heq, hname]
    · rfl

theorem valueOf_insertAll (bindings : List (Bytes × Bytes)) (properties : Properties) (q : Bytes) :
    valueOf (insertAll properties bindings) q = (bindings.reverse.lookup q).getD (valueOf properties q) := by
  induction bindings generalizing properties with
  | nil => rfl
  | cons b bindings ih =>
    obtain ⟨name, value⟩ := b
    have hinsert : valueOf (properties.insert name value) q = ([(name, value)].lookup q).getD (valueOf properties q) := by
      simp only [valueOf, Std.ExtTreeMap.getElem?_insert, Std.compare_eq_iff_eq, List.lookup_cons, List.lookup_nil]
      by_cases hq : name = q
      · simp [hq]
      · have hbeq : (q == name) = false := beq_eq_false_iff_ne.mpr (Ne.symm hq)
        simp [hq, hbeq]
    rw [← List.singleton_append, insertAll_append, ih, List.reverse_append, List.reverse_singleton, List.lookup_append]
    cases bindings.reverse.lookup q with
    | none => exact hinsert
    | some found => rfl

theorem valueOf_calls (calls : List Bytes) (properties : Properties) (q : Bytes) :
    valueOf (calls.foldl (fun p name => (GetProperty p name).2) properties) q = valueOf properties q := by
  induction calls generalizing properties with
  | nil => rfl
  | cons name calls ih => rw [List.foldl_cons, ih, valueOf_GetProperty]

/-- **Configuration files are read as written**: after `Load`, and whatever
was asked before, `GetProperty` returns the value of the last assignment of
that name, and the empty string if there is none. -/
theorem GetProperty_Load (sections : List Section) (file : Bytes) (h : Layout sections file) (calls : List Bytes)
    (q : Bytes) :
    (GetProperty (calls.foldl (fun p name => (GetProperty p name).2) (Load ∅ file)) q).1 =
      ((sections.flatMap Section.bindings).reverse.lookup q).getD [] := by
  rw [GetProperty_value, valueOf_calls, Load_layout h, valueOf_insertAll]
  rfl

/-- `host = a=b` -/
def host : Assignment where
  key := ofText "host"
  value := ofText "a=b"
  key_ne := by decide
  key_text := by decide
  key_trimmed := by decide
  key_first := by decide
  value_text := by decide
  value_trimmed := by decide

/-- A comment, a section, and a line of it, with another question first. -/
theorem GetProperty_Load_host :
    (GetProperty ([ofText "port"].foldl (fun p name => (GetProperty p name).2)
      (Load ∅ (ofText "# hosts\n[db]\n\thost = a=b\n"))) (ofText "db.host")).1 = ofText "a=b" := by
  have hblank : Blanks (ofText " ") := by decide
  have htab : Blanks (ofText "\t") := by decide
  have hnil : Blanks [] := by decide
  have hcomment : WrittenAs none ([] ++ 0x23 :: ofText " hosts") := .comment hnil (by decide)
  have hlayout : Layout [⟨⟨ofText "db", by decide⟩, [host]⟩] (ofText "# hosts\n[db]\n\thost = a=b\n") :=
    ⟨[none, some (.header ⟨ofText "db", by decide⟩), some (.assignment host)], _, rfl,
      .cons hcomment (.cons (.header _ hnil hnil)
        (.cons (.assignment host htab hblank hblank hnil) .nil)), .inr (by decide)⟩
  exact (GetProperty_Load _ _ hlayout [ofText "port"] (ofText "db.host")).trans (by decide)

end SystemConfig

end DictionaryServer
