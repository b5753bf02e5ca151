import Y4p.Storage.Db

/-!
The history as `list` shows it: rows in MRU order, up to a limit.
-/

namespace Y4p

-- `fetch_metadata` without its limit.
def fetchMetadata (tie : TieOrder) (db : Db) : List Row :=
  db.clipboard.insertionSort (MruLe tie)

-- The index `search_metadata` gives a row.
def absIndex (db : Db) (row : Row) : Nat :=
  db.clipboard.countP fun other => row.timestamp < other.timestamp

structure MetaRow where
  id : Int
  timestamp : Int
  mime : Str
  size : Int
  preview : Option Str
  isPinned : Bool
  deriving DecidableEq

def Row.metaRow (row : Row) : MetaRow where
  id := row.id
  timestamp := row.timestamp
  mime := row.mime
  size := row.size
  preview := row.preview
  isPinned := row.isPinned

-- `LIMIT ?`: SQLite reads a negative limit as none.
def sqlLimit {α : Type} (limit : Int) (rows : List α) : List α :=
  if limit < 0 then rows else rows.take limit.toNat

def fetchMetadataUpTo (tie : TieOrder) (db : Db) (limit : UInt64) : List MetaRow :=
  sqlLimit (asI64 limit.toNat) ((fetchMetadata tie db).map Row.metaRow)

def rowsShown (limit : UInt64) (count : Nat) : Nat :=
  if limit.toNat < 2 ^ 63 then min limit.toNat count else count

theorem sqlLimit_eq_take {α : Type} (limit : UInt64) (rows : List α) :
    sqlLimit (asI64 limit.toNat) rows = rows.take (rowsShown limit rows.length) := by
  have bound : limit.toNat < 2 ^ 64 := limit.toNat_lt
  rw [sqlLimit, asI64, Nat.mod_eq_of_lt bound, rowsShown]
  by_cases small : limit.toNat < 2 ^ 63
  · rw [if_pos small, if_pos small, if_neg (by omega), Int.toNat_natCast]
    rcases Nat.le_total limit.toNat rows.length with within | past
    · rw [Nat.min_eq_left within]
    · rw [Nat.min_eq_right past, List.take_length, List.take_of_length_le past]
  · rw [if_neg small, if_neg small, if_pos (by omega), List.take_length]

theorem sqlLimit_all {α : Type} {limit : UInt64} {rows : List α}
    (enough : rows.length ≤ limit.toNat) : sqlLimit (asI64 limit.toNat) rows = rows := by
  rw [sqlLimit_eq_take, List.take_of_length_le]
  unfold rowsShown
  split <;> omega

theorem fetchMetadata_perm (tie : TieOrder) (db : Db) :
    (fetchMetadata tie db).Perm db.clipboard :=
  List.perm_insertionSort (MruLe tie) db.clipboard

theorem fetchMetadata_sorted (tie : TieOrder) (db : Db) :
    (fetchMetadata tie db).Pairwise fun first second => second.timestamp ≤ first.timestamp :=
  (List.pairwise_insertionSort (MruLe tie) db.clipboard).imp MruLe.timestamp_le

end Y4p
