import Y4p.Lib.Data
import Y4p.Lib.Recency
import Y4p.Storage.Identity
import Y4p.Storage.Listing
import Y4p.Storage.Progress

/-!
What the store is for: a list of copies with their bytes, the most recently used first, that keeps
its pinned entries and as many others as the cap allows. The store refines it over whole runs.
-/

namespace Y4p

open Recency (Change)

-- `content` is what the store keeps of the copy: none for an image, which is a file.
structure MruEntry where
  id : Int
  mime : Str
  size : Int
  preview : Option Str
  content : Option Bytes
  hash : Option Str
  isPinned : Bool
  deriving DecidableEq

def MruEntry.kind : Recency.Kind MruEntry Int where
  key := MruEntry.id
  isPinned := MruEntry.isPinned
  setPin value entry := { entry with isPinned := value }
  setPin_key _ _ := rfl
  setPin_isPinned _ _ := rfl

def Content.kept : Content → Option Bytes
  | .text bytes | .blob bytes | .chunked bytes => some bytes
  | .none => Option.none

-- `issued` is the largest id an entry was ever given.
structure Mru where
  entries : List MruEntry
  issued : Int

namespace Mru

def empty : Mru where
  entries := []
  issued := 0

section
variable (mru : Mru)

def byHash (hash : Str) : Option MruEntry :=
  mru.entries.find? fun entry => entry.hash = some hash

def byId (id : Int) : Option MruEntry :=
  mru.entries.find? fun entry => entry.id = id

def newEntry (mime : Str) (body : Body) (hash : Str) : MruEntry where
  id := mru.issued + 1
  mime := mime
  size := asI64 body.len
  preview := (body.parts mime).1
  content := (body.parts mime).2.kept
  hash := some hash
  isPinned := false

def placing (mime : Str) (body : Body) (hash : Str) : Change MruEntry Int :=
  match mru.byHash hash with
  | some entry => .use entry.id
  | none => .push (mru.newEntry mime body hash)

def placedId (hash : Str) : Int :=
  match mru.byHash hash with
  | some entry => entry.id
  | none => mru.issued + 1

def placed (mime : Str) (body : Body) (hash : Str) : Mru where
  entries := (mru.placing mime body hash).apply MruEntry.kind mru.entries
  issued := max mru.issued (mru.placedId hash)

def changed (change : Change MruEntry Int) : Mru :=
  { mru with entries := change.apply MruEntry.kind mru.entries }

-- The cap is the OFFSET the code's rotation computes from it.
def recorded (mime : Str) (body : Body) (hash : Str) (maxHistory : UInt64) : Mru :=
  (mru.placed mime body hash).changed (.trim (quota maxHistory).toNat)

def outcome (mime : Str) (body : Body) (hash : Str) (maxHistory : UInt64) : UpsertOutcome where
  realId := mru.placedId hash
  isImage := isCacheClass mime
  expiredHashes :=
    (Recency.overflow MruEntry.isPinned (quota maxHistory).toNat
      (mru.placed mime body hash).entries).filterMap MruEntry.hash

def Attempts {α : Type} (value : α) (done : Mru) (result : Except String α) (after : Mru) : Prop :=
  (∃ message, result = .error message ∧ after = mru) ∨ (result = .ok value ∧ after = done)

def Upserts (mime : Str) (body : Body) (hash : Str) (maxHistory : UInt64)
    (result : Except String UpsertOutcome) (after : Mru) : Prop :=
  if isSkipped mime body.len then result = .ok .skipped ∧ after = mru
  else
    mru.Attempts (mru.outcome mime body hash maxHistory) (mru.recorded mime body hash maxHistory)
      result after

def Moves : (op : StoreOp) → op.Result → Mru → Prop
  | .upsert _ _ mime offer hash maxHistory, result, after =>
      mru.Upserts mime offer.body hash maxHistory result after
  | .updateTimestamp _ id, result, after => mru.Attempts () (mru.changed (.use id)) result after
  | .setPinned id isPinned, result, after =>
      mru.Attempts (mru.byId id).isSome (mru.changed (.pin isPinned id)) result after
  | .deleteById id, result, after =>
      mru.Attempts ((mru.byId id).isSome, (mru.byId id).bind MruEntry.hash)
        (mru.changed (.remove id)) result after
  | .wipe, result, after => mru.Attempts () (mru.changed .clear) result after
  | .getRowContent _, _, after => after = mru
  | .getRowLocation _, _, after => after = mru

def content (id : Int) : Option (Str × Option Bytes × Str) :=
  (mru.byId id).bind fun entry => entry.hash.map fun hash => (entry.mime, entry.content, hash)

def location (id : Int) : Option (Str × Bool × Str) :=
  (mru.byId id).bind fun entry =>
    entry.hash.map fun hash => (entry.mime, entry.content.isSome, hash)

-- A content is withheld, and an error returned, only where a command of the operation failed.
def Answers (interrupted : Prop) : (op : StoreOp) → op.Result → Prop
  | .getRowContent id, result => result = mru.content id ∨ (result = none ∧ interrupted)
  | .getRowLocation id, result => result = mru.location id
  | op, result => op.failed result = true → interrupted

end

end Mru

section
variable (payload : Int → Bytes)

def Row.mruEntry (row : Row) : MruEntry where
  id := row.id
  mime := row.mime
  size := row.size
  preview := row.preview
  content := if row.isChunked then some (payload row.id) else row.content.bytes?
  hash := row.hash
  isPinned := row.isPinned

def Db.mru (db : Db) (tie : TieOrder) : Mru where
  entries := (fetchMetadata tie db).map (Row.mruEntry payload)
  issued := db.sequence

end

section
variable {tie : TieOrder} {payload : Int → Bytes} {db after : Db}

def Falling (rows : List Row) : Prop :=
  rows.Pairwise fun first second => second.timestamp < first.timestamp

/-- Rows listed by falling timestamps are the history. -/
theorem fetchMetadata_eq {rows : List Row} (perm : rows.Perm db.clipboard)
    (falling : Falling rows) : fetchMetadata tie db = rows := by
  have sorted : rows.Pairwise (MruLe tie) := falling.imp fun later => .inl later
  refine List.Perm.eq_of_pairwise ?_ (List.pairwise_insertionSort (MruLe tie) db.clipboard) sorted
    ((fetchMetadata_perm tie db).trans perm.symm)
  intro first second member other before behind
  exact Db.eq_of_id ((fetchMetadata_perm tie db).mem_iff.mp member) (perm.mem_iff.mp other)
    (before.id_eq behind)

theorem fetchMetadata_ids (tie : TieOrder) (db : Db) :
    ((fetchMetadata tie db).map Row.id).Nodup :=
  ((fetchMetadata_perm tie db).map Row.id).nodup_iff.mpr db.idsUnique

theorem map_touch_others {now id : Int} {rows : List Row}
    (others : ∀ row ∈ rows, row.id ≠ id) : rows.map (Row.touch now id) = rows := by
  refine (List.map_congr_left fun row member => ?_).trans (List.map_id rows)
  rw [Row.touch, if_neg (others row member)]
  rfl

/-- A row used at a time later than all others comes first. -/
theorem fetchMetadata_touch {now id : Int} (falling : Falling (fetchMetadata tie db))
    (past : ∀ row ∈ db.clipboard, row.timestamp < now) :
    fetchMetadata tie (db.touch now id) =
      match (fetchMetadata tie db).find? fun row => row.id = id with
      | some row => { row with timestamp := now } ::
          (fetchMetadata tie db).filter fun other => other.id ≠ id
      | none => fetchMetadata tie db := by
  have perm := fetchMetadata_perm tie db
  have touched : (db.touch now id).clipboard = db.clipboard.map (Row.touch now id) := rfl
  have moved := touched ▸ (perm.map (Row.touch now id))
  split
  · rename_i row found
    have named : row.id = id := by simpa using List.find?_some found
    obtain ⟨before, later, shape⟩ := List.append_of_mem (List.mem_of_find?_eq_some found)
    have unique := fetchMetadata_ids tie db
    rw [shape, List.map_append, List.map_cons, List.nodup_append, List.nodup_cons] at unique
    have early : ∀ other ∈ before, other.id ≠ id := fun other member same =>
      unique.2.2 other.id (List.mem_map_of_mem member) row.id List.mem_cons_self
        (same.trans named.symm)
    have late : ∀ other ∈ later, other.id ≠ id := fun other member same =>
      unique.2.1.1 (List.mem_map.mpr ⟨other, member, same.trans named.symm⟩)
    have rest : ((fetchMetadata tie db).filter fun other => decide (other.id ≠ id)) =
        before ++ later := by
      rw [shape, List.filter_append, List.filter_cons_of_neg (by simp [named]),
        List.filter_eq_self.mpr fun other member => decide_eq_true (early other member),
        List.filter_eq_self.mpr fun other member => decide_eq_true (late other member)]
    rw [rest]
    apply fetchMetadata_eq
    · refine List.Perm.trans ?_ moved
      rw [shape, List.map_append, List.map_cons, map_touch_others early, map_touch_others late,
        Row.touch, if_pos named]
      exact List.perm_middle.symm
    · refine List.pairwise_cons.mpr ⟨?_, ?_⟩
      · intro other member
        rw [← rest] at member
        exact past other (perm.mem_iff.mp (List.mem_of_mem_filter member))
      · rw [← rest]
        exact falling.sublist List.filter_sublist
  · rename_i absent
    refine fetchMetadata_eq (List.Perm.trans (List.Perm.of_eq ?_) moved) falling
    refine (map_touch_others fun row member => ?_).symm
    simpa using List.find?_eq_none.mp absent row member

theorem falling_touch {now id : Int} (falling : Falling (fetchMetadata tie db))
    (past : ∀ row ∈ db.clipboard, row.timestamp < now) :
    Falling (fetchMetadata tie (db.touch now id)) := by
  rw [fetchMetadata_touch falling past]
  split
  · refine List.pairwise_cons.mpr ⟨?_, falling.sublist List.filter_sublist⟩
    intro other member
    exact past other ((fetchMetadata_perm tie db).mem_iff.mp (List.mem_of_mem_filter member))
  · exact falling

theorem fetchMetadata_insert {new : Row}
    (inserted : after.clipboard = db.clipboard ++ [new])
    (falling : Falling (fetchMetadata tie db))
    (past : ∀ row ∈ db.clipboard, row.timestamp < new.timestamp) :
    fetchMetadata tie after = new :: fetchMetadata tie db := by
  have perm := fetchMetadata_perm tie db
  apply fetchMetadata_eq
  · rw [inserted]
    exact (perm.cons new).trans (List.perm_append_singleton new db.clipboard).symm
  · exact List.pairwise_cons.mpr ⟨fun row member => past row (perm.mem_iff.mp member), falling⟩

theorem fetchMetadata_filter {keep : Row → Bool}
    (filtered : after.clipboard = db.clipboard.filter keep)
    (falling : Falling (fetchMetadata tie db)) :
    fetchMetadata tie after = (fetchMetadata tie db).filter keep := by
  apply fetchMetadata_eq
  · rw [filtered]
    exact (fetchMetadata_perm tie db).filter keep
  · exact falling.sublist List.filter_sublist

theorem fetchMetadata_pin {isPinned : Bool} {id : Int} (falling : Falling (fetchMetadata tie db)) :
    fetchMetadata tie (db.pin isPinned id) = (fetchMetadata tie db).map (Row.pin isPinned id) := by
  have same : ∀ row : Row, (row.pin isPinned id).timestamp = row.timestamp := by
    intro row
    unfold Row.pin
    split <;> rfl
  apply fetchMetadata_eq
  · exact (fetchMetadata_perm tie db).map _
  · refine List.pairwise_map.mpr (falling.imp fun later => ?_)
    rw [same, same]
    exact later

/-- A rotation drops the overflow of the history. -/
theorem fetchMetadata_rotated (maxHistory : UInt64) (falling : Falling (fetchMetadata tie db)) :
    expired tie (quota maxHistory) db =
        Recency.overflow (fun row : Row => row.isPinned) (quota maxHistory).toNat
          (fetchMetadata tie db) ∧
      fetchMetadata tie (db.rotated tie tie maxHistory) =
        Recency.trim (fun row : Row => row.isPinned) (quota maxHistory).toNat
          (fetchMetadata tie db) := by
  have listed : (unpinned db).insertionSort (MruLe tie) =
      Recency.unpinned (fun row : Row => row.isPinned) (fetchMetadata tie db) := by
    refine List.Perm.eq_of_pairwise ?_ (List.pairwise_insertionSort (MruLe tie) _) ?_
      ((List.perm_insertionSort (MruLe tie) _).trans ((fetchMetadata_perm tie db).filter _).symm)
    · intro first second member other before behind
      have present := (mem_unpinned.mp ((List.mem_insertionSort (MruLe tie)).mp member)).1
      have present' := (fetchMetadata_perm tie db).mem_iff.mp (List.mem_of_mem_filter other)
      exact Db.eq_of_id present present' (before.id_eq behind)
    · exact (falling.sublist List.filter_sublist).imp fun later => .inl later
  have same : expired tie (quota maxHistory) db =
      Recency.overflow (fun row : Row => row.isPinned) (quota maxHistory).toNat
        (fetchMetadata tie db) := by
    rw [expired, Ranking.dropped, listed, Recency.overflow]
  refine ⟨same, ?_⟩
  rw [fetchMetadata_filter (rotated_clipboard db tie tie maxHistory) falling,
    Recency.trim_eq_filter ((fetchMetadata_ids tie db).of_map _), ← same]
  apply List.filter_congr
  intro row member
  have present := (fetchMetadata_perm tie db).mem_iff.mp member
  rw [← decide_not]
  apply decide_eq_decide.mpr
  exact not_congr ⟨mem_expired_of_id present, fun gone => List.mem_map_of_mem gone⟩

theorem fetchMetadata_tie (falling : Falling (fetchMetadata tie db)) (other : TieOrder) :
    fetchMetadata other db = fetchMetadata tie db :=
  fetchMetadata_eq (fetchMetadata_perm tie db) falling

theorem mru_byHash (hash : Str) :
    (db.mru payload tie).byHash hash = (db.rowByHash hash).map (Row.mruEntry payload) := by
  have perm := fetchMetadata_perm tie db
  rw [Mru.byHash, Db.mru, List.find?_map]
  refine congrArg (Option.map (Row.mruEntry payload)) (Lists.find?_of_perm perm ?_)
  intro first member second other same same'
  exact Db.eq_of_hash (perm.mem_iff.mp member) (perm.mem_iff.mp other) (of_decide_eq_true same)
    (of_decide_eq_true same')

theorem find?_fetchMetadata (tie : TieOrder) (id : Int) :
    (fetchMetadata tie db).find? (fun row => row.id = id) = db.rowById id := by
  have perm := fetchMetadata_perm tie db
  refine Lists.find?_of_perm perm ?_
  intro first member second other same same'
  exact Db.eq_of_id (perm.mem_iff.mp member) (perm.mem_iff.mp other)
    ((of_decide_eq_true same).trans (of_decide_eq_true same').symm)

theorem mru_byId (id : Int) :
    (db.mru payload tie).byId id = (db.rowById id).map (Row.mruEntry payload) := by
  rw [Mru.byId, Db.mru, List.find?_map, ← find?_fetchMetadata tie]
  rfl

theorem mru_content {sha3 : Bytes → Bytes} {pool : Set Bytes} (tie : TieOrder) (refs : RefsExact db)
    (assembled : Assembled sha3 pool payload db) (noCollision : Set.InjOn sha3 pool) (id : Int) :
    db.rowContent id = (db.mru payload tie).content id := by
  rw [Mru.content, mru_byId, Db.rowContent]
  cases found : db.rowById id with
  | none => rfl
  | some row =>
      have present := (Db.rowById_eq_some.mp found).1
      simp only [Option.map_some, Option.bind_some, Row.mruEntry]
      cases row.hash with
      | none => rfl
      | some hash =>
          cases chunked : row.isChunked with
          | false => rfl
          | true =>
              rw [reassembled_eq assembled refs noCollision present chunked]
              rfl

theorem mru_location (id : Int) : db.rowLocation id = (db.mru payload tie).location id := by
  rw [Mru.location, mru_byId, Db.rowLocation]
  cases db.rowById id with
  | none => rfl
  | some row =>
      have held : (decide (row.content ≠ .null) || row.isChunked) =
          (row.mruEntry payload).content.isSome := by
        unfold Row.mruEntry
        cases row.isChunked with
        | true => simp
        | false => cases row.content <;> simp [Value.bytes?]
      simp only [Option.map_some, Option.bind_some, held]
      rfl

theorem mru_brought (after : Db) (data : Bytes) :
    db.mru (brought db after data payload) tie = db.mru payload tie := by
  have same : (fetchMetadata tie db).map (Row.mruEntry (brought db after data payload)) =
      (fetchMetadata tie db).map (Row.mruEntry payload) := by
    apply List.map_congr_left
    intro row member
    have issued := (db.idsIssued row ((fetchMetadata_perm tie db).mem_iff.mp member)).2
    rw [Row.mruEntry, Row.mruEntry, brought_old data issued]
  rw [Db.mru, Db.mru, same]

theorem mru_touch {now id : Int} (falling : Falling (fetchMetadata tie db))
    (past : ∀ row ∈ db.clipboard, row.timestamp < now) :
    (db.touch now id).mru payload tie = (db.mru payload tie).changed (.use id) := by
  have used : ((fetchMetadata tie (db.touch now id)).map (Row.mruEntry payload)) =
      Recency.toFront MruEntry.kind id ((fetchMetadata tie db).map (Row.mruEntry payload)) := by
    rw [fetchMetadata_touch falling past, Recency.toFront, List.find?_map]
    have same : ((fun entry => decide (MruEntry.kind.key entry = id)) ∘ (Row.mruEntry payload)) =
        fun row : Row => decide (row.id = id) := rfl
    rw [same]
    cases (fetchMetadata tie db).find? fun row => decide (row.id = id) with
    | none => rfl
    | some row =>
        simp only [Option.map_some, List.map_cons, List.filter_map]
        rfl
  simp only [Db.mru, Mru.changed, Change.apply, used]
  rfl

theorem mru_filter {keep : Row → Bool} (keepEntry : MruEntry → Bool)
    (filtered : after.clipboard = db.clipboard.filter keep)
    (same : ∀ row, keepEntry (row.mruEntry payload) = keep row)
    (falling : Falling (fetchMetadata tie db)) :
    (after.mru payload tie).entries = (db.mru payload tie).entries.filter keepEntry := by
  have composed : keepEntry ∘ (Row.mruEntry payload) = keep := funext same
  rw [Db.mru, fetchMetadata_filter filtered falling, Db.mru, List.filter_map, composed]

theorem mru_pin {isPinned : Bool} {id : Int} (falling : Falling (fetchMetadata tie db)) :
    (db.pin isPinned id).mru payload tie = (db.mru payload tie).changed (.pin isPinned id) := by
  have pinned : ((fetchMetadata tie (db.pin isPinned id)).map (Row.mruEntry payload)) =
      ((fetchMetadata tie db).map (Row.mruEntry payload)).map
        (Recency.setPinOf MruEntry.kind isPinned id) := by
    rw [fetchMetadata_pin falling, List.map_map, List.map_map]
    apply List.map_congr_left
    intro row _
    simp only [Function.comp_apply, Row.pin, Recency.setPinOf]
    change _ = if row.id = id then _ else _
    split <;> rfl
  simp only [Db.mru, Mru.changed, Change.apply, pinned]
  rfl

theorem mru_rotated (maxHistory : UInt64) (falling : Falling (fetchMetadata tie db)) :
    (db.rotated tie tie maxHistory).mru payload tie =
        (db.mru payload tie).changed (.trim (quota maxHistory).toNat) ∧
      (expiring tie maxHistory db).filterMap Expiring.hash =
        (Recency.overflow MruEntry.isPinned (quota maxHistory).toNat
          (db.mru payload tie).entries).filterMap MruEntry.hash := by
  obtain ⟨overflow, trimmed⟩ := fetchMetadata_rotated maxHistory falling
  have same : ∀ row : Row, (row.mruEntry payload).isPinned = row.isPinned := fun _ => rfl
  constructor
  · simp only [Db.mru, Mru.changed, Change.apply, trimmed, rotated_sequence]
    congr 1
    exact (Recency.trim_map same).symm
  · rw [expiring, overflow, List.filterMap_map, Db.mru, Recency.overflow_map same,
      List.filterMap_map]
    rfl

end

def StoreOp.stamp : StoreOp → Option Int
  | .upsert now _ _ _ _ _ => some now
  | .updateTimestamp now _ => some now
  | _ => none

structure Dated (tie : TieOrder) (db : Db) (readings : List Int) : Prop where
  falling : Falling (fetchMetadata tie db)
  past : ∀ row ∈ db.clipboard, ∀ now ∈ readings, row.timestamp < now

section
variable {sha3 : Bytes → Bytes} {tie : TieOrder} {payload : Int → Bytes} {db after : Db}

theorem mru_inserted {now : Int} {mime hash : Str} {body : Body}
    (brings : ∀ data, body = .bytes data → data = payload (db.sequence + 1)) :
    (insertedRow db now mime body hash).mruEntry payload =
      (db.mru payload tie).newEntry mime body hash := by
  have content : (if (body.parts mime).2.isChunked then some (payload (db.sequence + 1))
      else (body.parts mime).2.value.bytes?) = (body.parts mime).2.kept := by
    cases shape : (body.parts mime).2 with
    | text bytes | blob bytes | none => rfl
    | chunked data => exact congrArg some (brings data (Body.chunked_bytes shape)).symm
  rw [Mru.newEntry, ← content]
  rfl

theorem mru_placed {now id : Int} {mime hash : Str} {body : Body}
    (places : Places sha3 db now mime body hash id after)
    (falling : Falling (fetchMetadata tie db))
    (past : ∀ row ∈ db.clipboard, row.timestamp < now)
    (brings : db.rowByHash hash = none → ∀ data, body = .bytes data →
      data = payload (db.sequence + 1)) :
    after.mru payload tie = (db.mru payload tie).placed mime body hash ∧
      id = (db.mru payload tie).placedId hash ∧
      Falling (fetchMetadata tie after) := by
  have named : placedId db hash = (db.mru payload tie).placedId hash := by
    rw [placedId, Mru.placedId, mru_byHash]
    cases db.rowByHash hash <;> rfl
  have rows := places.clipboard
  have entries : (fetchMetadata tie after).map (Row.mruEntry payload) =
      ((db.mru payload tie).placing mime body hash).apply MruEntry.kind (db.mru payload tie).entries ∧
      Falling (fetchMetadata tie after) := by
    rw [Mru.placing, mru_byHash]
    unfold placedRows at rows
    cases found : db.rowByHash hash with
    | some row =>
        rw [found] at rows
        have same : fetchMetadata tie after = fetchMetadata tie (db.touch now row.id) := by
          rw [fetchMetadata, rows]
          rfl
        rw [same]
        exact ⟨congrArg Mru.entries (mru_touch falling past), falling_touch falling past⟩
    | none =>
        rw [found] at rows
        have inserted := fetchMetadata_insert rows falling past
        rw [inserted]
        refine ⟨congrArg (· :: _) (mru_inserted (brings found)), List.pairwise_cons.mpr ⟨?_, falling⟩⟩
        exact fun row member => past row ((fetchMetadata_perm tie db).mem_iff.mp member)
  refine ⟨?_, places.id_eq.trans named, entries.2⟩
  simp only [Db.mru, Mru.placed]
  rw [places.sequence_eq, named, entries.1]
  rfl

theorem attempts_mru {α : Type} {value : α} {changed : Db} {result : Except String α} {done : Mru}
    (attempts : Y4p.Attempts db value changed result after) (same : changed.mru payload tie = done) :
    (db.mru payload tie).Attempts value done result (after.mru payload tie) := by
  rcases attempts with ⟨message, failed, rfl⟩ | ⟨succeeded, rfl⟩
  · exact .inl ⟨message, failed, rfl⟩
  · exact .inr ⟨succeeded, same⟩

theorem Dated.of_attempts {α : Type} {value : α} {changed : Db} {result : Except String α}
    {readings : List Int} (dated : Dated tie db readings)
    (attempts : Y4p.Attempts db value changed result after) (done : Dated tie changed readings) :
    Dated tie after readings := by
  rcases attempts with ⟨_, _, rfl⟩ | ⟨_, rfl⟩
  · exact dated
  · exact done

theorem Dated.filter {keep : Row → Bool} {readings : List Int} (dated : Dated tie db readings)
    (filtered : after.clipboard = db.clipboard.filter keep) : Dated tie after readings where
  falling := by
    rw [fetchMetadata_filter filtered dated.falling]
    exact dated.falling.sublist List.filter_sublist
  past := by
    intro row member
    rw [filtered] at member
    exact dated.past row (List.mem_of_mem_filter member)

theorem Dated.pin {isPinned : Bool} {id : Int} {readings : List Int}
    (dated : Dated tie db readings) : Dated tie (db.pin isPinned id) readings where
  falling := by
    rw [fetchMetadata_pin dated.falling]
    refine List.pairwise_map.mpr (dated.falling.imp fun later => ?_)
    unfold Row.pin
    split <;> split <;> exact later
  past := by
    intro row member
    obtain ⟨old, present, rfl⟩ := List.mem_map.mp member
    have before := dated.past old present
    unfold Row.pin
    split <;> exact before

theorem Dated.restamped {now : Int} {readings : List Int}
    (dated : Dated tie db (now :: readings)) (rising : (now :: readings).Pairwise (· < ·))
    (falling : Falling (fetchMetadata tie after))
    (rows : ∀ row ∈ after.clipboard, row.timestamp = now ∨ row ∈ db.clipboard) :
    Dated tie after readings where
  falling := falling
  past := by
    intro row member later listed
    rcases rows row member with stamped | present
    · rw [stamped]
      exact List.rel_of_pairwise_cons rising listed
    · exact dated.past row present later (List.mem_cons_of_mem _ listed)

theorem placed_stamped {now id : Int} {mime hash : Str} {body : Body}
    (places : Places sha3 db now mime body hash id after) :
    ∀ row ∈ after.clipboard, row.timestamp = now ∨ row ∈ db.clipboard := by
  intro row member
  rw [places.clipboard] at member
  unfold placedRows at member
  split at member
  · obtain ⟨old, present, rfl⟩ := List.mem_map.mp member
    unfold Row.touch
    split
    · exact .inl rfl
    · exact .inr present
  · rcases List.mem_append.mp member with present | new
    · exact .inr present
    · rw [List.mem_singleton.mp new]
      exact .inl rfl

theorem Dated.rotated {maxHistory : UInt64} {readings : List Int}
    (dated : Dated tie db readings) : Dated tie (db.rotated tie tie maxHistory) readings :=
  dated.filter (rotated_clipboard db tie tie maxHistory)

theorem Dated.retie {readings : List Int} (dated : Dated tie db readings) (other : TieOrder) :
    Dated other db readings ∧ db.mru payload other = db.mru payload tie := by
  have same := fetchMetadata_tie dated.falling other
  refine ⟨⟨by rw [same]; exact dated.falling, dated.past⟩, ?_⟩
  rw [Db.mru, Db.mru, same]

theorem upserted_mru {now : Int} {mime hash : Str} {offer : Offer} {maxHistory : UInt64}
    {outcome : UpsertOutcome} {readings : List Int} (dated : Dated tie db (now :: readings))
    (rising : (now :: readings).Pairwise (· < ·))
    (upserted : Upserted sha3 db now tie mime offer.body hash maxHistory outcome after)
    (brings : db.sequence < after.sequence → payload after.sequence = offer.bytes) :
    outcome = (db.mru payload tie).outcome mime offer.body hash maxHistory ∧
      after.mru payload tie = (db.mru payload tie).recorded mime offer.body hash maxHistory ∧
      Dated tie after readings := by
  obtain ⟨placed, places, image, reported, rfl⟩ := upserted
  have past : ∀ row ∈ db.clipboard, row.timestamp < now := fun row present =>
    dated.past row present now List.mem_cons_self
  have brought : db.rowByHash hash = none → ∀ data, offer.body = .bytes data →
      data = payload (db.sequence + 1) := by
    intro absent data same
    rw [rotated_sequence, places.sequence_new absent] at brings
    rw [brings (Int.lt_succ _), Offer.body_bytes same]
  obtain ⟨view, named, falling⟩ := mru_placed places dated.falling past brought
  obtain ⟨trimmed, dropped⟩ := mru_rotated maxHistory falling
  have stamped := dated.restamped rising falling (placed_stamped places)
  refine ⟨?_, ?_, stamped.rotated⟩
  · rw [dropped, view] at reported
    rw [Mru.outcome, ← named, ← image, ← reported]
  · rw [trimmed, view]
    rfl

theorem Dated.later {now : Int} {readings : List Int} (dated : Dated tie db (now :: readings)) :
    Dated tie db readings where
  falling := dated.falling
  past row present reading listed :=
    dated.past row present reading (List.mem_cons_of_mem _ listed)

theorem upsertEffect_mru {now : Int} {opTie : TieOrder} {mime hash : Str} {offer : Offer}
    {maxHistory : UInt64} {result : Except String UpsertOutcome} {readings : List Int}
    (dated : Dated tie db (now :: readings)) (rising : (now :: readings).Pairwise (· < ·))
    (effect : UpsertEffect sha3 db now opTie mime offer.body hash maxHistory result after)
    (brings : db.sequence < after.sequence → payload after.sequence = offer.bytes) :
    (db.mru payload tie).Upserts mime offer.body hash maxHistory result (after.mru payload tie) ∧
      Dated tie after readings := by
  unfold UpsertEffect at effect
  unfold Mru.Upserts
  split at effect
  · rename_i skipped
    obtain ⟨rfl, rfl⟩ := effect
    rw [if_pos skipped]
    exact ⟨⟨rfl, rfl⟩, dated.later⟩
  · rename_i storable
    rw [if_neg storable]
    rcases effect with ⟨message, failed, rfl⟩ | ⟨outcome, succeeded, upserted⟩
    · exact ⟨.inl ⟨message, failed, rfl⟩, dated.later⟩
    · obtain ⟨datedOther, same⟩ := dated.retie opTie
      obtain ⟨answered, view, ended⟩ := upserted_mru datedOther rising upserted brings
      obtain ⟨datedAfter, sameAfter⟩ := ended.retie tie
      refine ⟨.inr ⟨?_, ?_⟩, datedAfter⟩
      · rw [succeeded, answered, same]
      · rw [sameAfter, view, same]

theorem mru_dropped {id : Int} (falling : Falling (fetchMetadata tie db)) :
    (db.dropped id).mru payload tie = (db.mru payload tie).changed (.remove id) := by
  have same : ∀ row : Row, decide ((row.mruEntry payload).id ≠ id) = !decide (row.id = id) :=
    fun row => decide_not
  have entries := mru_filter (fun entry => decide (entry.id ≠ id))
    (dropped_clipboard db id) same falling
  simp only [Mru.changed, Change.apply]
  rw [Db.mru, dropped_sequence]
  exact congrArg (Mru.mk · db.sequence) entries

theorem fetchMetadata_nil (none : db.clipboard = []) : fetchMetadata tie db = [] := by
  rw [fetchMetadata, none]
  rfl

theorem mru_wiped : db.wiped.mru payload tie = (db.mru payload tie).changed .clear := by
  rw [Db.mru, fetchMetadata_nil (wiped_clipboard db)]
  rfl

def StoreOp.stamps (op : StoreOp) (later : List Int) : List Int :=
  op.stamp.toList ++ later

/-- Each operation of the store does to the list what it is for. -/
theorem effect_moves {op : StoreOp} {result : op.Result} {later : List Int}
    (dated : Dated tie db (op.stamps later)) (rising : (op.stamps later).Pairwise (· < ·))
    (effect : op.Effect sha3 db result after)
    (brings : db.sequence < after.sequence → payload after.sequence = op.bytes) :
    (db.mru payload tie).Moves op result (after.mru payload tie) ∧ Dated tie after later := by
  cases op with
  | upsert now opTie mime offer hash maxHistory =>
      exact upsertEffect_mru dated rising effect brings
  | updateTimestamp now id =>
      have past : ∀ row ∈ db.clipboard, row.timestamp < now := fun row present =>
        dated.past row present now List.mem_cons_self
      refine ⟨attempts_mru effect (mru_touch dated.falling past),
        Dated.of_attempts (Dated.later dated) effect ?_⟩
      refine dated.restamped rising (falling_touch dated.falling past) ?_
      intro row member
      obtain ⟨old, present, rfl⟩ := List.mem_map.mp member
      unfold Row.touch
      split
      · exact .inl rfl
      · exact .inr present
  | setPinned id isPinned =>
      have known : (db.rowById id).isSome = ((db.mru payload tie).byId id).isSome := by
        rw [mru_byId, Option.isSome_map]
      have attempts : Y4p.Attempts db (db.rowById id).isSome (db.pin isPinned id) result after :=
        effect
      rw [known] at attempts
      exact ⟨attempts_mru attempts (mru_pin dated.falling), dated.of_attempts effect dated.pin⟩
  | deleteById id =>
      have known : ((db.rowById id).isSome, (db.rowById id).bind fun row => row.hash) =
          (((db.mru payload tie).byId id).isSome,
            ((db.mru payload tie).byId id).bind MruEntry.hash) := by
        rw [mru_byId]
        cases db.rowById id <;> rfl
      have attempts : Y4p.Attempts db ((db.rowById id).isSome,
          (db.rowById id).bind fun row => row.hash) (db.dropped id) result after := effect
      rw [known] at attempts
      exact ⟨attempts_mru attempts (mru_dropped dated.falling),
        dated.of_attempts effect (dated.filter (dropped_clipboard db id))⟩
  | wipe =>
      refine ⟨attempts_mru effect mru_wiped, dated.of_attempts effect ⟨?_, ?_⟩⟩
      · rw [fetchMetadata_nil (wiped_clipboard db)]
        exact List.Pairwise.nil
      · simp [wiped_clipboard]
  | getRowContent id =>
      obtain ⟨_, rfl⟩ := effect
      exact ⟨rfl, dated⟩
  | getRowLocation id =>
      obtain rfl : after = db := effect
      exact ⟨rfl, dated⟩

end

namespace Mru

structure Answered where
  op : StoreOp
  result : op.Result
  interrupted : Prop

inductive Run : Mru → List Answered → Mru → Prop
  | nil {mru} : Run mru [] mru
  | cons {mru middle last answered rest} :
      mru.Moves answered.op answered.result middle →
      mru.Answers answered.interrupted answered.op answered.result →
      Run middle rest last → Run mru (answered :: rest) last

end Mru

section
variable (sha3 : Bytes → Bytes)

def Attempt.answered (attempt : Attempt) (db : Db) : Mru.Answered where
  op := attempt.op
  result := (attempt.op.run sha3 attempt.faults.hits db).1
  interrupted := Interrupted attempt.faults.hits (attempt.op.program sha3) (Session.at db 0)

def answered : List Attempt → Db → List Mru.Answered
  | [], _ => []
  | attempt :: rest, db =>
      attempt.answered sha3 db :: answered rest (attempt.op.run sha3 attempt.faults.hits db).2

end

def clockReadings : List Attempt → List Int
  | [] => []
  | attempt :: rest => attempt.op.stamps (clockReadings rest)

section
variable {sha3 : Bytes → Bytes} {tie : TieOrder} {pool : Set Bytes} {payload : Int → Bytes}
variable {db : Db}

theorem Dated.empty (readings : List Int) : Dated tie Db.empty readings where
  falling := List.Pairwise.nil
  past := by simp [Db.empty]

theorem run_moves (sha3 : Bytes → Bytes) (payload : Int → Bytes) {attempt : Attempt} {later : List Int}
    (dated : Dated tie db (attempt.op.stamps later))
    (rising : (attempt.op.stamps later).Pairwise (· < ·)) :
    let after := (attempt.op.run sha3 attempt.faults.hits db).2
    (db.mru payload tie).Moves attempt.op (attempt.op.run sha3 attempt.faults.hits db).1
        (after.mru (brought db after attempt.op.bytes payload) tie) ∧ Dated tie after later := by
  intro after
  rw [← mru_brought after attempt.op.bytes]
  refine effect_moves dated rising (attempt.op.run_effect sha3 attempt.faults db) ?_
  intro grown
  rw [brought, if_pos grown, Function.update_self]

theorem run_answers (refs : RefsExact db) (assembled : Assembled sha3 pool payload db)
    (noCollision : Set.InjOn sha3 pool) (attempt : Attempt) :
    (db.mru payload tie).Answers (attempt.answered sha3 db).interrupted attempt.op
      (attempt.answered sha3 db).result := by
  obtain ⟨op, faults⟩ := attempt
  cases op with
  | getRowContent id =>
      have answers := getRowContent_answers sha3 faults db id
      rw [mru_content tie refs assembled noCollision] at answers
      exact answers
  | getRowLocation id => exact (getRowLocation_answers sha3 faults db id).trans (mru_location id)
  | upsert | updateTimestamp | setPinned | deleteById | wipe =>
      exact StoreOp.interrupted_of_failed refs

theorem runStore_refines {attempts : List Attempt} (refs : RefsExact db)
    (assembled : Assembled sha3 pool payload db) (noCollision : Set.InjOn sha3 pool)
    (pooled : ∀ attempt ∈ attempts, ∀ piece ∈ attempt.op.pieces, piece ∈ pool)
    (dated : Dated tie db (clockReadings attempts))
    (rising : (clockReadings attempts).Pairwise (· < ·)) :
    (db.mru payload tie).Run (answered sha3 attempts db)
      ((runStore sha3 attempts db).mru (runPayloads sha3 attempts db payload) tie) := by
  induction attempts generalizing db payload with
  | nil => exact .nil
  | cons attempt rest ih =>
      obtain ⟨moves, datedRest⟩ := run_moves sha3 payload dated rising
      obtain ⟨refsNext, assembledNext⟩ := effect_assembled refs assembled
        (attempt.op.run_effect sha3 attempt.faults db) (pooled attempt List.mem_cons_self)
      refine .cons moves (run_answers refs assembled noCollision attempt) ?_
      exact ih refsNext assembledNext
        (fun other member => pooled other (List.mem_cons_of_mem _ member)) datedRest
        (List.pairwise_append.mp rising).2.1

end

/-- Whatever runs on the store, with any writes failing, its history and its answers are those of
the list, as long as the clock rises. -/
theorem runStore_mru (sha3 : Bytes → Bytes) (tie : TieOrder) (attempts : List Attempt)
    (noCollision : Set.InjOn sha3 (runPieces attempts))
    (rising : (clockReadings attempts).Pairwise (· < ·)) :
    Mru.empty.Run (answered sha3 attempts Db.empty)
      ((runStore sha3 attempts Db.empty).mru (payloads sha3 attempts) tie) :=
  runStore_refines .empty .empty noCollision
    (fun attempt member piece listed => (⟨attempt, member, listed⟩ : piece ∈ runPieces attempts))
    (Dated.empty _) rising

theorem runStore_mru_sample :
    let attempts : List Attempt := [⟨sampleInsert, .none⟩, ⟨.setPinned 1 true, commitFails⟩,
      ⟨.updateTimestamp 2000 1, .none⟩, ⟨.getRowContent 1, .none⟩, ⟨.getRowLocation 1, .none⟩,
      ⟨.deleteById 1, commitFails⟩]
    Mru.empty.Run (answered sampleSha3 attempts Db.empty)
      ((runStore sampleSha3 attempts Db.empty).mru (payloads sampleSha3 attempts) .byRowid) :=
  runStore_mru sampleSha3 .byRowid _ sampleSha3_injective.injOn (by decide)

end Y4p
