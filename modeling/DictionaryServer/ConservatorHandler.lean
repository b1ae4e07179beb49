/-
`ConservatorHandler` (public/ConservatorHandler.cc): how a server makes itself
known in ZooKeeper.

`Register` makes sure of the directory and creates an ephemeral node with a
number in it, whose data is `ip:port`. ZooKeeper chooses the number; here it
is given with the call, and one that is taken fails.

`CheckExistsAndCreatePath` puts a slash before each part of the path, the
empty one before the first slash included. So it asks for the root and then
for texts with two slashes, none of which can be created
(`CheckExistsAndCreatePath_absolute`).
-/
import DictionaryServer.ZooKeeper

namespace DictionaryServer

open Lib

namespace ConservatorHandler

/-- The attempts that are left of `create`, each after half a second. -/
def createRetry (zk : ZooKeeper) (session : Nat) (curPath : Bytes) : Nat → ZooKeeper
  | 0 => zk
  | times + 1 =>
    match zk.createPath curPath { data := [], ephemeralOwner := some session } with
    | some zk => zk
    | none => createRetry zk session curPath times

/-- The loop over what is between the slashes of `path`. -/
def createEach (session : Nat) (path : Bytes) : ZooKeeper → Bytes → List Bytes → ZooKeeper
  | zk, _, [] => zk
  | zk, curPath, cur :: paths =>
    let curPath := curPath ++ slash :: cur
    -- It is `path` that is looked for here, and `curPath` that is created.
    if zk.checkExists path = ZooKeeper.ZOK then createEach session path zk curPath paths
    else createEach session path (createRetry zk session curPath 5) curPath paths

def CheckExistsAndCreatePath (zk : ZooKeeper) (session : Nat) (path : Bytes) : ZooKeeper :=
  if zk.checkExists path = ZooKeeper.ZOK then zk else createEach session path zk [] (path.splitOn slash)

/-- The number of a sequential node, as ZooKeeper writes it. -/
def sequence (number : Nat) : Bytes := ((Nat.toDigits 10 number).map fun c => c.toUInt8).leftpad 10 48

/-- `true` with the tree it leaves; an assertion that fails gives nothing. -/
def Register (zk : ZooKeeper) (session number : Nat) (path ip port : Bytes) : Option ZooKeeper :=
  let zk := CheckExistsAndCreatePath zk session path
  if zk.checkExists path = ZooKeeper.ZOK then
    let ileafData := ip ++ ofText ":" ++ port
    zk.createPath (path ++ ofText "node:" ++ sequence number) { data := ileafData, ephemeralOwner := some session }
  else none

theorem CheckExistsAndCreatePath_of_mem {zk : ZooKeeper} {p : Path} (hp : p ∈ zk.tree.paths) (session : Nat) :
    CheckExistsAndCreatePath zk session (renderPath slash p) = zk := by
  rw [CheckExistsAndCreatePath, if_pos (ZooKeeper.checkExists_eq_ok hp)]

/-! ## Creating a path -/

theorem createRetry_none {zk : ZooKeeper} {session : Nat} {curPath : Bytes}
    (h : ∀ node, zk.createPath curPath node = none) (times : Nat) : createRetry zk session curPath times = zk := by
  induction times with
  | zero => rfl
  | succ times ih => rw [createRetry, h, ih]

/-- Once the next slash would be a second one, nothing more is created. -/
theorem createEach_doubled {zk : ZooKeeper} {session : Nat} {path curPath : Bytes} (paths : List Bytes)
    (h : ∃ rest, curPath ++ [slash] = slash :: slash :: rest) : createEach session path zk curPath paths = zk := by
  induction paths generalizing curPath with
  | nil => rfl
  | cons cur paths ih =>
    obtain ⟨rest, hrest⟩ := h
    have hnext : curPath ++ slash :: cur = slash :: slash :: (rest ++ cur) := by
      rw [← List.singleton_append, ← List.append_assoc, hrest]
      rfl
    have hrec : createEach session path zk (curPath ++ slash :: cur) paths = zk :=
      ih ⟨rest ++ cur ++ [slash], by simp [hnext]⟩
    rw [createEach]
    split
    · exact hrec
    · rw [createRetry_none fun node => by rw [hnext]; exact ZooKeeper.createPath_doubled _ node, hrec]

/-- **Nothing is created** for an absolute path, whatever is there. -/
theorem CheckExistsAndCreatePath_absolute (zk : ZooKeeper) (session : Nat) (text : Bytes) :
    CheckExistsAndCreatePath zk session (slash :: text) = zk := by
  have hrec : createEach session (slash :: text) zk [slash] (text.splitOn slash) = zk :=
    createEach_doubled _ ⟨[], rfl⟩
  rw [CheckExistsAndCreatePath, splitOn_cons_self, createEach, List.nil_append]
  split
  · rfl
  · rw [createRetry_none fun node => ZooKeeper.createPath_root node, hrec]

/-- The path is there, as `Register` asserts, and so is all that it is under. -/
structure Created (zk : ZooKeeper) (path : Bytes) : Prop where
  here : zk.checkExists path = ZooKeeper.ZOK
  prefixes : ∀ p q, parsePath slash path = some p → q <+: p → zk.checkExists (renderPath slash q) = ZooKeeper.ZOK

/-- Where there is a path there is all that it is under. -/
theorem created_iff {zk : ZooKeeper} {path : Bytes} : Created zk path ↔ zk.checkExists path = ZooKeeper.ZOK := by
  constructor
  · exact Created.here
  · intro h
    refine ⟨h, fun p q hparse hq => ?_⟩
    obtain ⟨p', hresolve⟩ := ZooKeeper.checkExists_eq_ok_iff.mp h
    obtain ⟨rfl, hp⟩ := ZooKeeper.resolve_eq_some.mp hresolve
    rw [parsePath_renderPath (zk.names p' hp)] at hparse
    cases hparse
    exact ZooKeeper.checkExists_eq_ok (zk.tree.mem_paths_of_prefix hp hq)

/-- **An absolute path is there afterwards** exactly when it was there before. -/
theorem CheckExistsAndCreatePath_iff (zk : ZooKeeper) (session : Nat) (text : Bytes) :
    Created (CheckExistsAndCreatePath zk session (slash :: text)) (slash :: text) ↔
      zk.checkExists (slash :: text) = ZooKeeper.ZOK := by
  rw [CheckExistsAndCreatePath_absolute, created_iff]

/-- A directory under the root of an empty tree: it is not created, and the
assertion in `Register` fails. -/
theorem CheckExistsAndCreatePath_dict :
    ¬Created (CheckExistsAndCreatePath .empty 1 (ofText "/dict")) (ofText "/dict") ∧
      Register .empty 1 0 (ofText "/dict") (ofText "127.0.0.1") (ofText "80") = none := by
  have hpath : ofText "/dict" = slash :: ofText "dict" := by decide
  have hnone : ZooKeeper.empty.checkExists (ofText "/dict") ≠ ZooKeeper.ZOK := by decide
  rw [Register, hpath, CheckExistsAndCreatePath_absolute, created_iff, ← hpath]
  exact ⟨hnone, if_neg hnone⟩

/-! ## Registering -/

/-- **A registration** is the creation of one node, under a path that is there. -/
theorem Register_create {zk zk' : ZooKeeper} {session number : Nat} {path ip port : Bytes}
    (h : Register zk session number path ip port = some zk') : ∃ p ∈ zk.tree.paths, path = renderPath slash p ∧
      ∃ q, zk.create q { data := ip ++ ofText ":" ++ port, ephemeralOwner := some session } = some zk' := by
  unfold Register at h
  obtain ⟨hexists, hcreate⟩ := Option.ite_none_right_eq_some.mp h
  obtain ⟨p, hresolve⟩ := ZooKeeper.checkExists_eq_ok_iff.mp hexists
  obtain ⟨rfl, hp⟩ := ZooKeeper.resolve_eq_some.mp hresolve
  obtain ⟨text, htext⟩ : ∃ text, renderPath slash p = slash :: text := exists_renderPath p
  rw [htext, CheckExistsAndCreatePath_absolute] at hp hcreate
  obtain ⟨q, -, hq⟩ := Option.bind_eq_some_iff.mp hcreate
  exact ⟨p, hp, rfl, q, hq⟩

/-- **What a registration makes**: one node, whose path has no slash after the directory's. -/
theorem Register_paths {zk zk' : ZooKeeper} {session number : Nat} {p : Path} {ip port : Bytes}
    (hp : p ∈ zk.tree.paths) (h : Register zk session number (renderPath slash p) ip port = some zk') :
    ∃ q, zk'.tree.paths = zk.tree.paths ++ [q] ∧
      renderPath slash q = renderPath slash p ++ ofText "node:" ++ sequence number := by
  simp only [Register, CheckExistsAndCreatePath_of_mem hp, if_pos (ZooKeeper.checkExists_eq_ok hp)] at h
  obtain ⟨q, hparse, hcreate⟩ := Option.bind_eq_some_iff.mp h
  exact ⟨q, ZooKeeper.create_paths hcreate, (parsePath_eq_some.mp hparse).1.symm⟩

end ConservatorHandler
end DictionaryServer
