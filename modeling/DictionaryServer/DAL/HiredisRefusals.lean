/-
Commands that hiredis refuses.

`command` moves a free connection to the busy map before it hands hiredis the
command, and a refused command has no callback to move it back. So a refusal
leaves the maps alone only where there was no connection to move
(`refused_iff`).
-/
import DictionaryServer.DAL.HiredisRuns

namespace DictionaryServer.Hiredis

open Lib

variable {κ : Type} {h h' : Hiredis κ} {p : Nat}

/-- Commands that hiredis refuses one after the other, and what `command`
returns for each. -/
def refused (h : Hiredis κ) : List (κ × Bytes) → Except Fault (List Status × Hiredis κ)
  | [] => .ok ([], h)
  | (cb, text) :: commands => do
    let (ret, _, h) ← h.command (-1) cb text false
    let (rets, h) ← h.refused commands
    return (ret :: rets, h)

/-- The refusals are reported, and every connection is where it was. -/
def Unharmed (h : Hiredis κ) (commands : List (κ × Bytes)) : Prop :=
  ∃ rets h', h.refused commands = .ok (rets, h') ∧ (∀ ret ∈ rets, ret = .REDIS_ERR) ∧
    h'.inactiveConns = h.inactiveConns ∧ h'.activeFreeConns = h.activeFreeConns ∧
    h'.activeBusyConn = h.activeBusyConn

theorem refused_cons {cb : κ} {text : Bytes} {commands : List (κ × Bytes)} {ret : Status} {i : Int32}
    (hcall : h.command (-1) cb text false = .ok (ret, i, h')) :
    h.refused ((cb, text) :: commands) =
      (h'.refused commands >>= fun (rets, h'') => .ok (ret :: rets, h'')) := by
  rw [refused, hcall]
  rfl

/-- With no free connection nothing moves. -/
theorem refused_none (hi : h.Inv) (hempty : h.activeFreeConns.isEmpty = true) (commands : List (κ × Bytes)) :
    ∃ rets, h.refused commands = .ok (rets, h) ∧ ∀ ret ∈ rets, ret = .REDIS_ERR := by
  induction commands with
  | nil => exact ⟨[], rfl, by simp⟩
  | cons command commands ih =>
    obtain ⟨cb, text⟩ := command
    obtain ⟨rets, hrest, hall⟩ := ih
    rcases command_spec hi cb text false with ⟨-, hcall⟩ | ⟨hfree, -⟩
    · refine ⟨.REDIS_ERR :: rets, ?_, by simpa using hall⟩
      rw [refused_cons hcall, hrest]
      rfl
    · cases hempty.symm.trans hfree

theorem refused_busy (hi : h.Inv) (hp : p < h.allocated) (hat : h.At .busy p) {commands : List (κ × Bytes)}
    {rets : List Status} (hcall : h.refused commands = .ok (rets, h')) : h'.At .busy p := by
  induction commands generalizing h rets with
  | nil =>
    cases hcall
    exact hat
  | cons command commands ih =>
    obtain ⟨cb, text⟩ := command
    rcases command_spec hi cb text false with ⟨-, hone⟩ | ⟨-, q, h₁, hq, hfree, hone, m, hbusy, hfits, -⟩
    · rw [refused_cons hone] at hcall
      obtain ⟨⟨rets', h''⟩, hrest, heq⟩ := bind_ok hcall
      cases heq
      exact ih hi hp hat hrest
    · rw [refused_cons hone] at hcall
      obtain ⟨⟨rets', h''⟩, hrest, heq⟩ := bind_ok hcall
      cases heq
      have hne : p ≠ q := by
        intro hpq
        subst hpq
        cases (placeOf_at hat).symm.trans (placeOf_at hfree)
      have hat₁ : h₁.At .busy p := by
        intro w
        rw [m.map w _ (hi.id_ne hq hp hne)]
        exact hat w
      exact ih (hi.moved hq m hbusy hfits) (m.allocated ▸ hp) hat₁ hrest

/-- **Refused commands change nothing** exactly when no connection is free. -/
theorem refused_iff {s n : Int32} (hr : (system s n).Reachable h) {commands : List (κ × Bytes)}
    (hne : commands ≠ []) : h.Unharmed commands ↔ h.activeFreeConns.isEmpty = true := by
  have hi := ((kept_invariant s n).reachable hr).inv
  constructor
  · intro hsame
    obtain ⟨rets, h', hcall, -, -, -, hbusy⟩ := hsame
    obtain ⟨⟨cb, text⟩, commands, rfl⟩ := List.exists_cons_of_ne_nil hne
    rcases command_spec hi cb text false with ⟨hempty, -⟩ | ⟨-, p, h₁, hp, hfree, hone, m, hat, hfits, -⟩
    · exact hempty
    · -- The connection it moved is not in the busy map before, and is after.
      rw [refused_cons hone] at hcall
      obtain ⟨⟨rets', h''⟩, hrest, heq⟩ := bind_ok hcall
      cases heq
      have hat' := refused_busy (hi.moved hp m hat hfits) (m.allocated ▸ hp) hat hrest
      have hbefore : h.activeBusyConn[Int32.ofNat p]? = none := hfree .busy
      have hafter : h'.activeBusyConn[Int32.ofNat p]? = some p := hat' .busy
      rw [hbusy, hbefore] at hafter
      cases hafter
  · intro hempty
    obtain ⟨rets, hcall, hall⟩ := refused_none hi hempty commands
    exact ⟨rets, h, hcall, hall, rfl, rfl, rfl⟩

/-- The only connection, idle, goes to a refused command, and stays busy. -/
theorem refused_idle : ∃ h h' : Hiredis Unit, (system 0 1).Reachable h ∧
    h.refused [((), ofText "set % v")] = .ok ([.REDIS_ERR], h') ∧ h.activeFreeConns.isEmpty = false ∧
    h'.activeFreeConns.isEmpty = true ∧ ¬h.Unharmed [((), ofText "set % v")] := by
  obtain ⟨h, hup, hfree, h', hrefused, hnone⟩ :
      ∃ h, (create 0 1 : Hiredis Unit).afterConnectOne.exec (.write 0 (some .REDIS_OK)) = .ok (h, []) ∧
        h.activeFreeConns.isEmpty = false ∧
        ∃ h', h.refused [((), ofText "set % v")] = .ok ([.REDIS_ERR], h') ∧ h'.activeFreeConns.isEmpty = true :=
    ⟨_, rfl, rfl, _, rfl, rfl⟩
  refine ⟨h, h', write_reachable hup, hrefused, hfree, hnone, ?_⟩
  intro hsame
  obtain ⟨rets, h'', hcall, -, -, hsame, -⟩ := hsame
  cases hrefused.symm.trans hcall
  rw [hsame, hfree] at hnone
  cases hnone

/-- Before the connection is up a refusal has nothing to move. -/
theorem refused_unopened : ∃ h : Hiredis Unit, (system 0 1).Reachable h ∧ h.activeFreeConns.isEmpty = true ∧
    (h.Unharmed [((), ofText "set % v")] ↔ h.activeFreeConns.isEmpty = true) :=
  ⟨(create 0 1).afterConnectOne, .of_start (connect_one Unit 0), rfl,
    refused_iff (.of_start (connect_one Unit 0)) (List.cons_ne_nil _ _)⟩

end DictionaryServer.Hiredis
