import Y4p.Lib.Precedence
import Y4p.Storage.Listing
import Y4p.Storage.Rotation
import Y4p.Wayland.Admission

/-!
The order of the history: selections whose readers drain their pipes side by side, the one
queue they share, and the worker that stamps a row with the time it is inserted at.
-/

namespace Y4p

open Precedence

-- The selection received first has the first reader; `tried` tells whether the worker's job has
-- been to storage, `readings` what the clock has shown to the writers of timestamps.
structure History where
  ingest : Intake
  tried : Bool
  db : Db
  readings : List Int
  persisted : List (Ticket × Int)

-- What conversion makes of a job is left open, and so is which selections are admitted.
inductive HistoryAction where
  | select
  | drained (selection : Nat) (mime : Str) (payload : Payload)
  | advance (selection : Nat) (spurious elapsed : Bool)
  | receive
  | persist (now : Int) (tie : TieOrder) (mime : Str) (offer : Offer) (hash : Str)
      (maxHistory : UInt64) (faults : WriteFaults)
  | finish
  | hangUp
  | discard
  | other (op : StoreOp) (faults : WriteFaults)

def StoreOp.readings : StoreOp → List Int
  | .upsert now .. => [now]
  | .updateTimestamp now _ => [now]
  | _ => []

namespace History

def start (limit : UInt64) (capacity : Nat) : History where
  ingest := .start limit capacity
  tried := false
  db := Db.empty
  readings := []
  persisted := []

def rowOf : Except String UpsertOutcome → Option Int
  | .ok outcome => if outcome.realId = -1 then none else some outcome.realId
  | .error _ => none

section
variable (sha3 : Bytes → Bytes)

def step (history : History) : HistoryAction → History
  | .select => { history with ingest := history.ingest.step .arrive }
  -- A reader offers one payload and ends.
  | .drained selection mime payload =>
      if history.ingest.producers[selection]?.any (fun reader => reader.calls = 0) then
        { history with ingest := history.ingest.step (.call selection mime payload) }
      else history
  | .advance selection spurious elapsed =>
      { history with ingest := history.ingest.step (.advance selection spurious elapsed) }
  | .receive =>
      match history.ingest.worker with
      | none => { history with ingest := history.ingest.step .receive, tried := false }
      | some _ => history
  | .persist now tie mime offer hash maxHistory faults =>
      match history.ingest.worker, history.tried with
      | some job, false =>
          let stored :=
            StoreOp.run sha3 (.upsert now tie mime offer hash maxHistory) faults.hits history.db
          { history with
            tried := true
            db := stored.2
            readings := history.readings ++ [now]
            persisted := history.persisted ++ ((rowOf stored.1).map fun id => (job.ticket, id)).toList }
      | _, _ => history
  | .finish => { history with ingest := history.ingest.step .finish }
  | .hangUp => { history with ingest := history.ingest.step .hangUp }
  | .discard => { history with ingest := history.ingest.step .discard }
  | .other op faults =>
      { history with
        db := (op.run sha3 faults.hits history.db).2
        readings := history.readings ++ op.readings }

def run (history : History) (actions : List HistoryAction) : History :=
  actions.foldl (step sha3) history

end

end History

section
variable {sha3 : Bytes → Bytes} {db placed after : Db} {now id : Int} {mime hash : Str}
  {body : Body}

/-- Every row but the one returned is as it was. -/
theorem Places.others (places : Places sha3 db now mime body hash id placed) {row : Row}
    (present : row ∈ placed.clipboard) (other : row.id ≠ id) : row ∈ db.clipboard := by
  rw [places.clipboard, placedRows] at present
  have named := places.id_eq
  unfold placedId at named
  cases found : db.rowByHash hash with
  | some old =>
      rw [found] at present named
      obtain ⟨before, member, rfl⟩ := List.mem_map.mp present
      by_cases same : before.id = old.id
      · exact absurd (by simp [Row.touch, same, named]) other
      · simpa [Row.touch, same] using member
  | none =>
      rw [found] at present named
      rcases List.mem_append.mp present with old | new
      · exact old
      · rw [List.mem_singleton.mp new] at other
        exact absurd named.symm other

theorem Places.stamped (places : Places sha3 db now mime body hash id placed) {row : Row}
    (present : row ∈ placed.clipboard) (named : row.id = id) : row.timestamp = now := by
  obtain ⟨returned, there, same, stamped, _⟩ := places.row
  rw [Db.eq_of_id present there (named.trans same.symm)]
  exact stamped

theorem StoreOp.Effect.stamps {op : StoreOp} {result : op.Result}
    (effect : op.Effect sha3 db result after) {row : Row} (present : row ∈ after.clipboard) :
    (∃ old ∈ db.clipboard, old.timestamp = row.timestamp) ∨ row.timestamp ∈ op.readings := by
  have same : after = db → (∃ old ∈ db.clipboard, old.timestamp = row.timestamp) ∨
      row.timestamp ∈ op.readings := by
    rintro rfl
    exact .inl ⟨row, present, rfl⟩
  cases op with
  | upsert now tie mime offer hash maxHistory =>
      change UpsertEffect sha3 db now tie mime offer.body hash maxHistory result after at effect
      unfold UpsertEffect at effect
      split at effect
      · exact same effect.2
      · rcases effect with ⟨_, _, unchanged⟩ | ⟨outcome, _, placed, places, _, _, rfl⟩
        · exact same unchanged
        · have there := (mem_rotated.mp present).1
          by_cases named : row.id = outcome.realId
          · exact .inr (List.mem_singleton.mpr (places.stamped there named))
          · exact .inl ⟨row, places.others there named, rfl⟩
  | updateTimestamp now id =>
      rcases effect with ⟨_, _, unchanged⟩ | ⟨_, rfl⟩
      · exact same unchanged
      · obtain ⟨old, member, rfl⟩ := List.mem_map.mp present
        by_cases touched : old.id = id
        · exact .inr (by simp [Row.touch, touched, StoreOp.readings])
        · exact .inl ⟨old, member, by simp [Row.touch, touched]⟩
  | setPinned id isPinned =>
      rcases effect with ⟨_, _, unchanged⟩ | ⟨_, rfl⟩
      · exact same unchanged
      · obtain ⟨old, member, rfl⟩ := List.mem_map.mp present
        refine .inl ⟨old, member, ?_⟩
        unfold Row.pin
        split <;> rfl
  | deleteById id =>
      rcases effect with ⟨_, _, unchanged⟩ | ⟨_, rfl⟩
      · exact same unchanged
      · rw [dropped_clipboard] at present
        exact .inl ⟨row, (List.mem_filter.mp present).1, rfl⟩
  | wipe =>
      rcases effect with ⟨_, _, unchanged⟩ | ⟨_, rfl⟩
      · exact same unchanged
      · rw [wiped_clipboard] at present
        cases present
  | getRowContent id => exact same effect.2
  | getRowLocation id => exact same effect

end

namespace History

def tickets (history : History) : List Ticket :=
  history.persisted.map Prod.fst

structure Kept (limit : Nat) (history : History) : Prop where
  admitted : history.ingest.Admitted limit
  inOrder : history.tickets.Sublist history.ingest.received
  last : ∀ job, history.ingest.worker = some job →
    ∃ earlier, history.ingest.received = earlier ++ [job.ticket] ∧
      (history.tried = false → history.tickets.Sublist earlier)
  stamped : ∀ row ∈ history.db.clipboard, row.timestamp ∈ history.readings

variable {history : History} {limit : Nat}

theorem Kept.quiet (kept : history.Kept limit) (action : IntakeAction)
    (aside : action.ofWorker = false) :
    Kept limit { history with ingest := history.ingest.step action } := by
  obtain ⟨received, worker⟩ := Intake.step_worker aside history.ingest
  exact {
    admitted := kept.admitted.step action
    inOrder := by
      change history.tickets.Sublist (history.ingest.step action).received
      rw [received]
      exact kept.inOrder
    last := by
      intro job busy
      change (history.ingest.step action).worker = some job at busy
      rw [worker] at busy
      change ∃ earlier, (history.ingest.step action).received = _ ∧ _
      rw [received]
      exact kept.last job busy
    stamped := kept.stamped }

theorem Kept.receive (kept : history.Kept limit) (sha3 : Bytes → Bytes) :
    Kept limit (history.step sha3 .receive) := by
  unfold step
  dsimp only
  cases free : history.ingest.worker with
  | some job => exact kept
  | none =>
      have admitted := kept.admitted.step .receive
      have inOrder := kept.inOrder
      have took : ((history.ingest.step .receive).received = history.ingest.received ∧
            (history.ingest.step .receive).worker = none) ∨
          ∃ job, (history.ingest.step .receive).received = history.ingest.received ++ [job.ticket] ∧
            (history.ingest.step .receive).worker = some job := by
        unfold Intake.step
        dsimp only
        split
        · exact .inr ⟨_, rfl, rfl⟩
        · exact .inl ⟨rfl, free⟩
      rcases took with ⟨received, worker⟩ | ⟨job, received, worker⟩
      · exact {
          admitted := admitted
          inOrder := by
            change history.tickets.Sublist (history.ingest.step .receive).received
            rw [received]
            exact inOrder
          last := fun other busy => absurd (worker.symm.trans busy) nofun
          stamped := kept.stamped }
      · exact {
          admitted := admitted
          inOrder := by
            change history.tickets.Sublist (history.ingest.step .receive).received
            rw [received]
            exact inOrder.trans (List.sublist_append_left _ _)
          last := by
            intro other busy
            cases worker.symm.trans busy
            exact ⟨history.ingest.received, received, fun _ => inOrder⟩
          stamped := kept.stamped }

theorem Kept.finish (kept : history.Kept limit) (sha3 : Bytes → Bytes) :
    Kept limit (history.step sha3 .finish) := by
  have ended : (history.ingest.step .finish).received = history.ingest.received ∧
      (history.ingest.step .finish).worker = none := by
    unfold Intake.step
    dsimp only
    split
    · exact ⟨rfl, rfl⟩
    · rename_i free
      exact ⟨rfl, free⟩
  exact {
    admitted := kept.admitted.step .finish
    inOrder := by
      change history.tickets.Sublist (history.ingest.step .finish).received
      rw [ended.1]
      exact kept.inOrder
    last := fun job busy => absurd (ended.2.symm.trans busy) nofun
    stamped := kept.stamped }

section
variable {sha3 : Bytes → Bytes}

theorem run_stamped (op : StoreOp) (faults : WriteFaults) {db : Db} {readings : List Int}
    (stamped : ∀ row ∈ db.clipboard, row.timestamp ∈ readings) :
    ∀ row ∈ (op.run sha3 faults.hits db).2.clipboard, row.timestamp ∈ readings ++ op.readings := by
  intro row present
  rcases (op.run_effect sha3 faults db).stamps present with ⟨old, member, same⟩ | new
  · exact List.mem_append_left _ (same ▸ stamped old member)
  · exact List.mem_append_right _ new

theorem Kept.persist (kept : history.Kept limit) (now : Int) (tie : TieOrder) (mime : Str)
    (offer : Offer) (hash : Str) (maxHistory : UInt64) (faults : WriteFaults) :
    Kept limit (history.step sha3 (.persist now tie mime offer hash maxHistory faults)) := by
  unfold step
  dsimp only
  split
  · rename_i job busy untried
    obtain ⟨earlier, received, before⟩ := kept.last job busy
    have among : ∀ {stored : Option Int},
        ((history.persisted ++ (stored.map fun id => (job.ticket, id)).toList).map
          Prod.fst).Sublist history.ingest.received := by
      intro stored
      rw [received, List.map_append]
      refine (before untried).append ?_
      cases stored with
      | none => exact List.nil_sublist _
      | some id => exact List.Sublist.refl _
    exact {
      admitted := kept.admitted
      inOrder := among
      last := by
        intro other same
        cases busy.symm.trans same
        exact ⟨earlier, received, nofun⟩
      stamped := run_stamped _ faults kept.stamped }
  · exact kept

theorem Kept.step (kept : history.Kept limit) (action : HistoryAction) :
    Kept limit (history.step sha3 action) := by
  cases action with
  | select => exact kept.quiet .arrive rfl
  | drained selection mime payload =>
      unfold History.step
      dsimp only
      split
      · exact kept.quiet (.call selection mime payload) rfl
      · exact kept
  | advance selection spurious elapsed => exact kept.quiet (.advance selection spurious elapsed) rfl
  | receive => exact kept.receive sha3
  | persist now tie mime offer hash maxHistory faults =>
      exact kept.persist now tie mime offer hash maxHistory faults
  | finish => exact kept.finish sha3
  | hangUp => exact kept.quiet .hangUp rfl
  | discard => exact kept.quiet .discard rfl
  | other op faults =>
      exact {
        admitted := kept.admitted
        inOrder := kept.inOrder
        last := kept.last
        stamped := run_stamped op faults kept.stamped }

theorem Kept.run (kept : history.Kept limit) (actions : List HistoryAction) :
    Kept limit (history.run sha3 actions) := by
  induction actions generalizing history with
  | nil => exact kept
  | cons action rest ih => exact ih (kept.step action)

end

theorem start_kept (limit : UInt64) (capacity : Nat) :
    Kept limit.toNat (start limit capacity) where
  admitted := Intake.start_admitted limit capacity
  inOrder := .refl _
  last := fun _ working => nomatch working
  stamped := fun _ member => nomatch member

/-- A row stamped later than all others comes first in every listing. -/
theorem latest_ahead {db : Db} {row other : Row} (present : row ∈ db.clipboard)
    (among : other ∈ db.clipboard)
    (latest : ∀ another ∈ db.clipboard, another.id ≠ row.id → another.timestamp < row.timestamp)
    (differs : other.id ≠ row.id) (tie : TieOrder) :
    Precedes row other (fetchMetadata tie db) ∧ absIndex db row < absIndex db other := by
  have earlier := latest other among differs
  constructor
  · have sorted := List.pairwise_insertionSort (MruLe tie) db.clipboard
    refine precedes_of_pairwise sorted ?_ ?_ ?_ ?_
    · exact (List.mem_insertionSort _).mpr present
    · exact (List.mem_insertionSort _).mpr among
    · rintro rfl
      exact differs rfl
    · rintro (later | ⟨same, _⟩)
      · exact absurd later (Int.not_lt.mpr (Int.le_of_lt earlier))
      · exact absurd same (Int.ne_of_lt earlier)
  · have first : absIndex db row = 0 := by
      refine List.countP_eq_zero.mpr fun another member => ?_
      rw [decide_eq_true_eq, Int.not_lt]
      by_cases same : another.id = row.id
      · rw [Db.eq_of_id member present same]
      · exact Int.le_of_lt (latest another member same)
    rw [first]
    exact List.countP_pos_iff.mpr ⟨row, present, decide_eq_true earlier⟩

structure QueueOrdered (sha3 : Bytes → Bytes) (history : History) : Prop where
  once : history.tickets.Nodup
  queued : ∀ ticket ∈ history.tickets, ticket ∈ history.ingest.queued
  inOrder : ∀ first second, Precedes first second history.ingest.queued →
    first ∈ history.tickets → second ∈ history.tickets → Precedes first second history.tickets
  ahead : ∀ now tie mime offer hash maxHistory faults ticket id,
    (∀ reading ∈ history.readings, reading < now) →
      let next := history.step sha3 (.persist now tie mime offer hash maxHistory faults)
      next.persisted = history.persisted ++ [(ticket, id)] →
        ∀ row ∈ next.db.clipboard, row.id = id →
          ∀ other ∈ next.db.clipboard, other.id ≠ id → ∀ order,
            Precedes row other (fetchMetadata order next.db) ∧
              absIndex next.db row < absIndex next.db other

theorem Kept.queued_nodup (kept : history.Kept limit) : history.ingest.queued.Nodup := by
  have accounts := kept.admitted.accounts.nodup_iff.mp kept.admitted.numbered.once
  exact (List.nodup_append.mp (List.nodup_append.mp accounts).1).2.1

theorem Kept.tickets_queued (kept : history.Kept limit) :
    history.tickets.Sublist history.ingest.queued := by
  rw [kept.admitted.ordered.arrival, List.append_assoc]
  exact kept.inOrder.trans (List.sublist_append_left _ _)

theorem rowOf_some {result : Except String UpsertOutcome} {id : Int}
    (recorded : rowOf result = some id) : ∃ outcome, result = .ok outcome ∧
      outcome.realId = id ∧ outcome.realId ≠ -1 := by
  unfold rowOf at recorded
  split at recorded
  · rename_i outcome
    split at recorded
    · cases recorded
    · rename_i stored
      exact ⟨outcome, rfl, Option.some.inj recorded, stored⟩
  · cases recorded

theorem upsert_stamps {sha3 : Bytes → Bytes} {db after : Db} {now id : Int} {tie : TieOrder}
    {mime hash : Str} {body : Body} {maxHistory : UInt64} {result : Except String UpsertOutcome}
    (effect : UpsertEffect sha3 db now tie mime body hash maxHistory result after)
    (recorded : rowOf result = some id)
    (earlier : ∀ row ∈ db.clipboard, row.timestamp < now) {row : Row}
    (present : row ∈ after.clipboard) :
    (row.id = id → row.timestamp = now) ∧ (row.id ≠ id → row.timestamp < now) := by
  obtain ⟨outcome, rfl, rfl, stored⟩ := rowOf_some recorded
  unfold UpsertEffect at effect
  split at effect
  · cases effect.1
    exact absurd rfl stored
  · rcases effect with ⟨_, failed, _⟩ | ⟨_, same, placed, places, _, _, rfl⟩
    · cases failed
    · cases same
      have there := (mem_rotated.mp present).1
      exact ⟨places.stamped there, fun other => earlier row (places.others there other)⟩

theorem Kept.stamps {sha3 : Bytes → Bytes} (kept : history.Kept limit) {now : Int} {tie : TieOrder}
    {mime : Str} {offer : Offer} {hash : Str} {maxHistory : UInt64} {faults : WriteFaults}
    {ticket : Ticket} {id : Int} (later : ∀ reading ∈ history.readings, reading < now)
    (stored : (history.step sha3 (.persist now tie mime offer hash maxHistory faults)).persisted =
      history.persisted ++ [(ticket, id)]) {row : Row}
    (present : row ∈ (history.step sha3
      (.persist now tie mime offer hash maxHistory faults)).db.clipboard) :
    (row.id = id → row.timestamp = now) ∧ (row.id ≠ id → row.timestamp < now) := by
  have earlier : ∀ old ∈ history.db.clipboard, old.timestamp < now :=
    fun old member => later _ (kept.stamped old member)
  have effect := StoreOp.run_effect sha3 (.upsert now tie mime offer hash maxHistory) faults
    history.db
  unfold History.step at stored present
  dsimp only at stored present
  split at stored
  · rename_i job busy untried
    rw [busy, untried] at present
    have recorded : rowOf (StoreOp.run sha3 (.upsert now tie mime offer hash maxHistory)
        faults.hits history.db).1 = some id := by
      have last := List.append_cancel_left stored
      cases found : rowOf (StoreOp.run sha3 (.upsert now tie mime offer hash maxHistory)
          faults.hits history.db).1 with
      | none =>
          rw [found] at last
          cases last
      | some other =>
          rw [found] at last
          cases last
          rfl
    exact upsert_stamps effect recorded earlier present
  · exact absurd stored (by simp)

theorem Kept.queueOrdered {sha3 : Bytes → Bytes} (kept : history.Kept limit) :
    QueueOrdered sha3 history where
  once := kept.queued_nodup.sublist kept.tickets_queued
  queued := fun _ member => kept.tickets_queued.subset member
  inOrder := fun _ _ precedes first second =>
    precedes.restrict kept.queued_nodup kept.tickets_queued first second
  ahead := by
    intro now tie mime offer hash maxHistory faults ticket id later next stored row present named
      other among differs order
    have stamps := fun {another : Row} (member : another ∈ next.db.clipboard) =>
      kept.stamps later stored member
    refine latest_ahead present among (fun another member apart => ?_) (named ▸ differs) order
    rw [(stamps present).1 named]
    exact (stamps member).2 (named ▸ apart)

end History

/-- In every run the worker records jobs in the order in which they were queued, each once, and a
row with the latest timestamp is listed first. -/
theorem history_queue_ordered (sha3 : Bytes → Bytes) (limit : UInt64) (capacity : Nat)
    (actions : List HistoryAction) :
    History.QueueOrdered sha3 ((History.start limit capacity).run sha3 actions) :=
  ((History.start_kept limit capacity).run actions).queueOrdered

def persistImage (now : Int) : HistoryAction :=
  .persist now .byRowid "image/png".toList (.record ⟨sampleImage, sampleImage_fits⟩)
    (toHex (sampleSha3 sampleImage)) 10 .none

def persistText (now : Int) : HistoryAction :=
  .persist now .byRowid "text/plain".toList (.record ⟨sampleText, sampleText_fits⟩)
    (toHex (sampleSha3 sampleText)) 10 .none

/-- A text selected after an image whose pipe is slower is queued first. Where both are queued in
order, one reading of the clock for both gives them the same index. -/
theorem history_order_counterexample :
    let enqueued (selection : Nat) : List HistoryAction :=
      List.replicate 4 (.advance selection false false)
    let overtaken := (History.start 64 2).run sampleSha3
      ([.select, .select, .drained 1 "text/plain".toList (.memory sampleText)] ++ enqueued 1 ++
        [.drained 0 "image/png".toList (.memory sampleImage)] ++ enqueued 0 ++
        [.receive, persistText 100, .finish, .receive, persistImage 200, .finish])
    let tied := (History.start 64 2).run sampleSha3
      ([.select, .select, .drained 0 "image/png".toList (.memory sampleImage)] ++ enqueued 0 ++
        [.drained 1 "text/plain".toList (.memory sampleText)] ++ enqueued 1 ++
        [.receive, persistImage 100, .finish, .receive, persistText 100, .finish])
    overtaken.ingest.queued = [{ producer := 1, number := 0 }, { producer := 0, number := 0 }] ∧
      overtaken.persisted =
        [({ producer := 1, number := 0 }, 1), ({ producer := 0, number := 0 }, 2)] ∧
      (fetchMetadata .byRowid overtaken.db).map Row.id = [2, 1] ∧
      tied.persisted =
        [({ producer := 0, number := 0 }, 1), ({ producer := 1, number := 0 }, 2)] ∧
      tied.db.clipboard.map (fun row => (row.id, absIndex tied.db row)) = [(1, 0), (2, 0)] := by
  refine ⟨?_, ?_, ?_, ?_, ?_⟩
  · decide
  · decide
  · decide
  · decide
  · decide

end Y4p
