import Mathlib.Data.List.Nodup
import Mathlib.Data.List.Sort
import Y4p.Lib.Ranking
import Y4p.Core.Constants

/-!
The database at schema version 4 (`crates/storage/src/schema.rs`): its three
tables, the keys SQLite enforces on them, and the orders in which it may list
rows of equal timestamp.
-/

namespace Y4p

-- A SQLite value of the `content` column, with the bytes of its storage class.
inductive Value where
  | null
  | text (bytes : Bytes)
  | blob (bytes : Bytes)
  deriving DecidableEq

structure NewRow where
  timestamp : Int
  mime : Str
  size : Int
  preview : Option Str
  content : Value
  hash : Option Str
  isPinned : Bool := false
  isChunked : Bool := false
  deriving DecidableEq

structure Row extends NewRow where
  id : Int
  deriving DecidableEq

structure Chunk where
  hash : Bytes
  data : Bytes
  refcount : Int
  deriving DecidableEq

structure ManifestEntry where
  clipboardId : Int
  seq : Nat
  chunkHash : Bytes
  deriving DecidableEq

def ManifestEntry.key (entry : ManifestEntry) : Int × Nat :=
  (entry.clipboardId, entry.seq)

-- `sequence` is the `AUTOINCREMENT` counter: the largest id ever issued.
@[ext] structure Db where
  clipboard : List Row
  chunks : List Chunk
  manifest : List ManifestEntry
  sequence : Int
  idsUnique : (clipboard.map Row.id).Nodup
  idsIssued : ∀ row ∈ clipboard, 1 ≤ row.id ∧ row.id ≤ sequence
  sequenceNonneg : 0 ≤ sequence
  hashesUnique : (clipboard.filterMap fun row => row.hash).Nodup
  chunkKeysUnique : (chunks.map Chunk.hash).Nodup
  manifestKeysUnique : (manifest.map ManifestEntry.key).Nodup

namespace Db

def empty : Db where
  clipboard := []
  chunks := []
  manifest := []
  sequence := 0
  idsUnique := List.nodup_nil
  idsIssued := by simp
  sequenceNonneg := Int.le_refl 0
  hashesUnique := List.nodup_nil
  chunkKeysUnique := List.nodup_nil
  manifestKeysUnique := List.nodup_nil

def updateRows (db : Db) (change : Row → Row) (sameId : ∀ row, (change row).id = row.id)
    (sameHash : ∀ row, (change row).hash = row.hash) : Db :=
  { db with
    clipboard := db.clipboard.map change
    idsUnique := by
      have same : Row.id ∘ change = Row.id := funext sameId
      rw [List.map_map, same]
      exact db.idsUnique
    idsIssued := by
      intro row member
      obtain ⟨before, present, rfl⟩ := List.mem_map.mp member
      rw [sameId]
      exact db.idsIssued before present
    hashesUnique := by
      have same : (fun row : Row => row.hash) ∘ change = fun row => row.hash := funext sameHash
      rw [List.filterMap_map, same]
      exact db.hashesUnique }

def deleteRows (db : Db) (doomed : Row → Bool) : Db :=
  { db with
    clipboard := db.clipboard.filter fun row => !doomed row
    idsUnique := db.idsUnique.sublist ((List.filter_sublist).map _)
    idsIssued := fun row member => db.idsIssued row (List.mem_of_mem_filter member)
    hashesUnique := db.hashesUnique.sublist ((List.filter_sublist).filterMap _) }

def HashFree (db : Db) (hash : Option Str) : Prop :=
  ∀ row ∈ db.clipboard, row.hash = hash → hash = none

instance (db : Db) (hash : Option Str) : Decidable (db.HashFree hash) :=
  inferInstanceAs (Decidable (∀ row ∈ db.clipboard, row.hash = hash → hash = none))

def insertRow (db : Db) (new : NewRow) (free : db.HashFree new.hash) : Db :=
  { db with
    clipboard := db.clipboard ++ [{ new with id := db.sequence + 1 }]
    sequence := db.sequence + 1
    idsUnique := by
      rw [List.map_append, List.nodup_append]
      refine ⟨db.idsUnique, by simp, ?_⟩
      intro id old other new
      obtain ⟨row, present, rfl⟩ := List.mem_map.mp old
      have bound := (db.idsIssued row present).2
      simp only [List.map_cons, List.map_nil, List.mem_singleton] at new
      omega
    idsIssued := by
      intro row member
      have nonneg := db.sequenceNonneg
      rcases List.mem_append.mp member with old | added
      · have bound := db.idsIssued row old
        omega
      · simp only [List.mem_singleton] at added
        subst added
        exact ⟨by change 1 ≤ db.sequence + 1; omega, Int.le_refl _⟩
    sequenceNonneg := by
      have nonneg := db.sequenceNonneg
      omega
    hashesUnique := by
      rw [List.filterMap_append, List.nodup_append]
      refine ⟨db.hashesUnique, ?_, ?_⟩
      · cases hash : new.hash <;> simp [hash]
      · intro hash old other added same
        subst same
        obtain ⟨row, present, named⟩ := List.mem_filterMap.mp old
        obtain ⟨inserted, member, newNamed⟩ := List.mem_filterMap.mp added
        simp only [List.mem_singleton] at member
        subst member
        have clash := free row present (named.trans newNamed.symm)
        rw [show new.hash = some hash from newNamed] at clash
        simp at clash }

def updateChunks (db : Db) (change : Chunk → Chunk)
    (sameHash : ∀ chunk, (change chunk).hash = chunk.hash) : Db :=
  { db with
    chunks := db.chunks.map change
    chunkKeysUnique := by
      have same : Chunk.hash ∘ change = Chunk.hash := funext sameHash
      rw [List.map_map, same]
      exact db.chunkKeysUnique }

def deleteChunks (db : Db) (doomed : Chunk → Bool) : Db :=
  { db with
    chunks := db.chunks.filter fun chunk => !doomed chunk
    chunkKeysUnique := db.chunkKeysUnique.sublist ((List.filter_sublist).map _) }

def insertChunk (db : Db) (chunk : Chunk) (free : chunk.hash ∉ db.chunks.map Chunk.hash) : Db :=
  { db with
    chunks := db.chunks ++ [chunk]
    chunkKeysUnique := by
      rw [List.map_append, List.nodup_append]
      refine ⟨db.chunkKeysUnique, by simp, ?_⟩
      intro hash old other new same
      simp only [List.map_cons, List.map_nil, List.mem_singleton] at new
      subst same new
      exact free old }

def deleteEntries (db : Db) (doomed : ManifestEntry → Bool) : Db :=
  { db with
    manifest := db.manifest.filter fun entry => !doomed entry
    manifestKeysUnique := db.manifestKeysUnique.sublist ((List.filter_sublist).map _) }

def insertEntry (db : Db) (entry : ManifestEntry)
    (free : entry.key ∉ db.manifest.map ManifestEntry.key) : Db :=
  { db with
    manifest := db.manifest ++ [entry]
    manifestKeysUnique := by
      rw [List.map_append, List.nodup_append]
      refine ⟨db.manifestKeysUnique, by simp, ?_⟩
      intro key old other new same
      simp only [List.map_cons, List.map_nil, List.mem_singleton] at new
      subst same new
      exact free old }

def rowById (db : Db) (id : Int) : Option Row :=
  db.clipboard.find? fun row => row.id = id

def rowByHash (db : Db) (hash : Str) : Option Row :=
  db.clipboard.find? fun row => row.hash = some hash

def manifestOf (db : Db) (id : Int) : List ManifestEntry :=
  db.manifest.filter fun entry => entry.clipboardId = id

theorem eq_of_id {db : Db} {a b : Row} (inA : a ∈ db.clipboard) (inB : b ∈ db.clipboard)
    (same : a.id = b.id) : a = b :=
  List.inj_on_of_nodup_map db.idsUnique inA inB same

theorem eq_of_hash {db : Db} {a b : Row} {hash : Str} (inA : a ∈ db.clipboard)
    (inB : b ∈ db.clipboard) (hashA : a.hash = some hash) (hashB : b.hash = some hash) :
    a = b := by
  have unique := db.hashesUnique
  obtain ⟨before, after, shape⟩ := List.append_of_mem inA
  rw [shape] at inB unique
  simp only [List.filterMap_append, List.filterMap_cons, hashA] at unique
  have parts := List.nodup_append.mp unique
  have tail := List.nodup_cons.mp parts.2.1
  rcases List.mem_append.mp inB with early | late
  · have seen : hash ∈ before.filterMap fun row => row.hash :=
      List.mem_filterMap.mpr ⟨b, early, hashB⟩
    exact absurd rfl (parts.2.2 hash seen hash (by simp))
  · rcases List.mem_cons.mp late with same | later
    · exact same.symm
    · have seen : hash ∈ after.filterMap fun row => row.hash :=
        List.mem_filterMap.mpr ⟨b, later, hashB⟩
      exact absurd seen tail.1

theorem rowById_eq_some {db : Db} {id : Int} {row : Row} :
    db.rowById id = some row ↔ row ∈ db.clipboard ∧ row.id = id := by
  constructor
  · intro found
    exact ⟨List.mem_of_find?_eq_some found, by simpa using List.find?_some found⟩
  · rintro ⟨present, named⟩
    cases found : db.rowById id with
    | none =>
        have absent := List.find?_eq_none.mp found row present
        simp [named] at absent
    | some other =>
        have otherPresent := List.mem_of_find?_eq_some found
        have otherNamed : other.id = id := by simpa using List.find?_some found
        rw [eq_of_id otherPresent present (otherNamed.trans named.symm)]

theorem rowById_eq_none {db : Db} {id : Int} :
    db.rowById id = none ↔ ∀ row ∈ db.clipboard, row.id ≠ id := by
  simp [rowById]

theorem rowByHash_eq_some {db : Db} {hash : Str} {row : Row} :
    db.rowByHash hash = some row ↔ row ∈ db.clipboard ∧ row.hash = some hash := by
  constructor
  · intro found
    exact ⟨List.mem_of_find?_eq_some found, by simpa using List.find?_some found⟩
  · rintro ⟨present, named⟩
    cases found : db.rowByHash hash with
    | none =>
        have absent := List.find?_eq_none.mp found row present
        simp [named] at absent
    | some other =>
        have otherPresent := List.mem_of_find?_eq_some found
        have otherNamed : other.hash = some hash := by simpa using List.find?_some found
        rw [eq_of_hash otherPresent present otherNamed named]

theorem rowByHash_eq_none {db : Db} {hash : Str} :
    db.rowByHash hash = none ↔ ∀ row ∈ db.clipboard, row.hash ≠ some hash := by
  simp [rowByHash]

theorem hashFree_of_rowByHash {db : Db} {hash : Str} (absent : db.rowByHash hash = none) :
    db.HashFree (some hash) := by
  intro row present named
  exact absurd named (rowByHash_eq_none.mp absent row present)

end Db

-- How SQLite lists two rows of equal timestamp: some fixed order of their ids.
structure TieOrder where
  le : Int → Int → Bool
  total : ∀ a b, le a b = true ∨ le b a = true
  trans : ∀ a b c, le a b = true → le b c = true → le a c = true
  antisymm : ∀ a b, le a b = true → le b a = true → a = b

-- The order of `idx_pinned_ts`: an index entry ends with its rowid, ascending.
def TieOrder.byRowid : TieOrder where
  le a b := decide (a ≤ b)
  total a b := by simpa using Int.le_total a b
  trans a b c first second := by
    simp only [decide_eq_true_eq] at first second ⊢
    exact Int.le_trans first second
  antisymm a b first second := by
    simp only [decide_eq_true_eq] at first second
    exact Int.le_antisymm first second

-- `ORDER BY timestamp DESC`: `a` may be listed before `b`.
def MruLe (tie : TieOrder) (a b : Row) : Prop :=
  b.timestamp < a.timestamp ∨ (a.timestamp = b.timestamp ∧ tie.le a.id b.id = true)

instance (tie : TieOrder) : DecidableRel (MruLe tie) := fun _ _ =>
  inferInstanceAs (Decidable (_ ∨ _))

instance (tie : TieOrder) : Std.Total (MruLe tie) where
  total a b := by
    rcases lt_trichotomy a.timestamp b.timestamp with less | same | greater
    · exact .inr (.inl less)
    · rcases tie.total a.id b.id with first | second
      · exact .inl (.inr ⟨same, first⟩)
      · exact .inr (.inr ⟨same.symm, second⟩)
    · exact .inl (.inl greater)

instance (tie : TieOrder) : IsTrans Row (MruLe tie) where
  trans a b c first second := by
    rcases first with later | ⟨sameAB, tieAB⟩
    · rcases second with later' | ⟨sameBC, _⟩
      · exact .inl (by omega)
      · exact .inl (by omega)
    · rcases second with later' | ⟨sameBC, tieBC⟩
      · exact .inl (by omega)
      · exact .inr ⟨by omega, tie.trans _ _ _ tieAB tieBC⟩

theorem MruLe.timestamp_le {tie : TieOrder} {a b : Row} (ordered : MruLe tie a b) :
    b.timestamp ≤ a.timestamp := by
  rcases ordered with later | ⟨same, _⟩ <;> omega

theorem MruLe.id_eq {tie : TieOrder} {a b : Row} (first : MruLe tie a b)
    (second : MruLe tie b a) : a.id = b.id := by
  rcases first with later | ⟨same, tieAB⟩
  · have bound := second.timestamp_le
    omega
  · rcases second with later' | ⟨_, tieBA⟩
    · omega
    · exact tie.antisymm _ _ tieAB tieBA

end Y4p
