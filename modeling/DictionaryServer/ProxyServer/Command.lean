/-
What Redis is told.

The texts `setInLoop` and `queryInLoop` build are formats to hiredis. Keys and
values that are words, with no percent sign but at the end of the format, come
through as they are, and no others do (`command_iff`).
-/
import DictionaryServer.DAL.FormatCommand
import DictionaryServer.ProxyServer

namespace DictionaryServer.ProxyServer

open Lib

/-- A string that a format keeps in one piece, if nothing in it is converted. -/
structure OnePiece (s : Bytes) : Prop where
  ne : s ≠ []
  blank : 0x20 ∉ s
  nul : 0 ∉ s

theorem setCommand_eq (msg : Message.Set) :
    setCommand msg = ofText "set" ++ 0x20 :: (msg.key ++ 0x20 :: msg.value) := by
  have hset : ofText "set " = ofText "set" ++ [0x20] := rfl
  have hblank : ofText " " = [0x20] := rfl
  rw [setCommand, hset, hblank]
  simp only [List.append_assoc, List.cons_append, List.nil_append]

theorem getCommand_eq (msg : Message.Query) : getCommand msg = ofText "get" ++ 0x20 :: msg.key := by
  have hget : ofText "get " = ofText "get" ++ [0x20] := rfl
  rw [getCommand, hget, List.append_assoc, List.singleton_append]

/-- A SET command is told as asked. A percent sign can only end the value. -/
theorem setCommand_iff (msg : Message.Set) :
    (∀ conversion, redisvFormatCommand conversion (setCommand msg) = some [ofText "set", msg.key, msg.value]) ↔
      OnePiece msg.key ∧ OnePiece msg.value ∧ 0x25 ∉ msg.key ∧ 0x25 ∉ msg.value.dropLast := by
  have hweight : weight (setCommand msg) ≤ [ofText "set", msg.key, msg.value].flatten.length := by
    have hset : weight (ofText "set") = 3 := rfl
    have hlen : (ofText "set").length = 3 := rfl
    have hkey := weight_le msg.key
    have hvalue := weight_le msg.value
    rw [setCommand_eq, weight_append, weight_blank, weight_append, weight_blank, hset]
    simp only [List.flatten_cons, List.flatten_nil, List.append_nil, List.length_append, hlen]
    omega
  rw [redisvFormatCommand_iff hweight, setCommand_eq, plain_append_blank, plain_append_blank, plain_iff]
  constructor
  · intro hread
    obtain ⟨⟨-, ⟨hkey₀, hkey⟩, hvalue₀, hvalue⟩, hwords⟩ := hread
    have hmem : ∀ w ∈ [ofText "set", msg.key, msg.value], w ≠ [] ∧ 0x20 ∉ w := fun w hw => mem_words (hwords ▸ hw)
    obtain ⟨hkey_ne, hkey_blank⟩ := hmem msg.key (by simp)
    obtain ⟨hvalue_ne, hvalue_blank⟩ := hmem msg.value (by simp)
    exact ⟨⟨hkey_ne, hkey_blank, hkey₀⟩, ⟨hvalue_ne, hvalue_blank, hvalue₀⟩, hkey, hvalue⟩
  · intro hok
    obtain ⟨⟨hkey_ne, hkey_blank, hkey₀⟩, ⟨hvalue_ne, hvalue_blank, hvalue₀⟩, hkey, hvalue⟩ := hok
    refine ⟨⟨by decide, ⟨hkey₀, hkey⟩, hvalue₀, hvalue⟩, ?_⟩
    rw [words_append (by decide) (by decide), words_append hkey_ne hkey_blank, words_self hvalue_ne hvalue_blank]

/-- And a GET command. -/
theorem getCommand_iff (msg : Message.Query) :
    (∀ conversion, redisvFormatCommand conversion (getCommand msg) = some [ofText "get", msg.key]) ↔
      OnePiece msg.key ∧ 0x25 ∉ msg.key.dropLast := by
  have hweight : weight (getCommand msg) ≤ [ofText "get", msg.key].flatten.length := by
    have hget : weight (ofText "get") = 3 := rfl
    have hlen : (ofText "get").length = 3 := rfl
    have hkey := weight_le msg.key
    rw [getCommand_eq, weight_append, weight_blank, hget]
    simp only [List.flatten_cons, List.flatten_nil, List.append_nil, List.length_append, hlen]
    omega
  rw [redisvFormatCommand_iff hweight, getCommand_eq, plain_append_blank, plain_iff]
  constructor
  · intro hread
    obtain ⟨⟨-, hkey₀, hkey⟩, hwords⟩ := hread
    have hmem : ∀ w ∈ [ofText "get", msg.key], w ≠ [] ∧ 0x20 ∉ w := fun w hw => mem_words (hwords ▸ hw)
    obtain ⟨hkey_ne, hkey_blank⟩ := hmem msg.key (by simp)
    exact ⟨⟨hkey_ne, hkey_blank, hkey₀⟩, hkey⟩
  · intro hok
    obtain ⟨⟨hkey_ne, hkey_blank, hkey₀⟩, hkey⟩ := hok
    refine ⟨⟨by decide, hkey₀, hkey⟩, ?_⟩
    rw [words_append (by decide) (by decide), words_self hkey_ne hkey_blank]

/-- **Redis is told what the client asked** exactly when keys and values are
pieces the format keeps. -/
theorem command_iff (set : Message.Set) (query : Message.Query) :
    ((∀ conversion, redisvFormatCommand conversion (setCommand set) = some [ofText "set", set.key, set.value]) ↔
      OnePiece set.key ∧ OnePiece set.value ∧ 0x25 ∉ set.key ∧ 0x25 ∉ set.value.dropLast) ∧
    ((∀ conversion, redisvFormatCommand conversion (getCommand query) = some [ofText "get", query.key]) ↔
      OnePiece query.key ∧ 0x25 ∉ query.key.dropLast) :=
  ⟨setCommand_iff set, getCommand_iff query⟩

/-- A value gets lost, and an option gets in. -/
theorem command_option : (∀ conversion, redisvFormatCommand conversion
      (setCommand { key := ofText "a", value := ofText "b EX 1" }) =
        some [ofText "set", ofText "a", ofText "b", ofText "EX", ofText "1"]) ∧
    ¬∀ conversion, redisvFormatCommand conversion (setCommand { key := ofText "a", value := ofText "b EX 1" }) =
      some [ofText "set", ofText "a", ofText "b EX 1"] := by
  have hformat (conversion : Conversion) : redisvFormatCommand conversion
      (setCommand { key := ofText "a", value := ofText "b EX 1" }) =
        some [ofText "set", ofText "a", ofText "b", ofText "EX", ofText "1"] := rfl
  refine ⟨hformat, ?_⟩
  intro h
  have heq := (hformat fun _ => none).symm.trans (h fun _ => none)
  exact absurd (congrArg (Option.map List.length) heq) (by decide)

end DictionaryServer.ProxyServer
