import Y4p.Daemon.Turns

/-!
What the daemon promises at every moment of every run: no selection that it should read is lost
unseen, and none is read in private mode.
-/

namespace Y4p

open Programs

def isDraining (reader : ReaderThread) : Bool :=
  reader.producer.isNone && Ingress.isAt .drain reader

def isUnread (reader : ReaderThread) : Bool :=
  reader.producer.isNone && !Ingress.isAt .drain reader

def isClosed (fate : Ticket × Enqueue) : Bool :=
  fate.2 = .closed

-- `busy`: the selection that is being handled, if one is. Every other one is counted as shed or has
-- a thread; a thread drains, was given nothing to keep, or has offered a payload; and a payload is
-- still being offered, queued, received or gone with the worker, or counted as shed.
structure Balances (ingress : Ingress) (shedReaders shedQueue busy : Nat) : Prop where
  atMost : busy ≤ 1
  counter : ingress.shedReaders = .ofNat shedReaders
  queueCounter : ingress.shedQueue = .ofNat shedQueue
  selections : (wanted ingress.history).length = busy + shedReaders + ingress.readers.length
  threads : ingress.readers.length = ingress.readers.countP isDraining +
    ingress.readers.countP isUnread + ingress.intake.offered.length
  payloads : ingress.intake.offered.length = ingress.readers.countP (Ingress.isAt .offer) +
    ingress.intake.queue.length + ingress.intake.received.length +
      ingress.intake.discarded.length + ingress.intake.dropped.countP isClosed +
        (shedQueue + ingress.readers.countP (Ingress.isAt .record))

structure Conserved (ingress : Ingress) : Prop where
  balances : ∃ shedReaders shedQueue busy, Balances ingress shedReaders shedQueue busy
  started : (ingress.readers.map ReaderThread.selected).Sublist ingress.received
  received : ingress.received.Sublist (wanted ingress.history)
  apart : (wanted ingress.history).Pairwise fun first second => first.event < second.event
  permits : ingress.house.gate.used =
    ingress.held.length + ingress.asker.elim 0 ingress.house.occupies
  within : ingress.house.gate.used ≤ ingestMaxConcurrentReaders.toNat
  offers : BoundedAdmission ingestQueueByteBudget.toNat ingress.intake

/-- The selections that are wanted are apart: each came with an event of its own. -/
theorem wantedFrom_events (paused : Bool) (earlier : Nat) (history : List Happening) :
    (wantedFrom paused earlier history).Pairwise
        (fun first second => first.event < second.event) ∧
      ∀ selected ∈ wantedFrom paused earlier history,
        earlier < selected.event ∧ selected.event ≤ earlier + history.length := by
  induction history generalizing paused earlier with
  | nil => exact ⟨.nil, by simp [wantedFrom]⟩
  | cons happening rest ih =>
      obtain ⟨apart, within⟩ := ih (toggled paused happening) (earlier + 1)
      rw [wantedFrom, List.length_cons]
      cases happening.wants paused with
      | none =>
          refine ⟨apart, fun selected member => ?_⟩
          have bounds := within selected member
          omega
      | some mime =>
          refine ⟨List.pairwise_cons.mpr ⟨fun later member => (within later member).1, apart⟩, ?_⟩
          intro selected member
          rcases List.mem_cons.mp member with rfl | later
          · dsimp only
            omega
          · have bounds := within selected later
            omega

theorem readers_split (readers : List ReaderThread) :
    readers.length = readers.countP isDraining + readers.countP isUnread +
      (readers.filterMap ReaderThread.producer).length := by
  induction readers with
  | nil => rfl
  | cons reader rest ih =>
      rw [List.length_cons, List.countP_cons, List.countP_cons, List.filterMap_cons, ih]
      unfold isDraining isUnread
      cases reader.producer with
      | none =>
          cases Ingress.isAt .drain reader with
          | true => simp; omega
          | false => simp; omega
      | some producer => simp; omega

theorem dropped_split {fates : List (Ticket × Enqueue)}
    (refused : ∀ fate ∈ fates, fate.2 = .shed ∨ fate.2 = .closed) :
    fates.length = fates.countP Ingress.isShed + fates.countP isClosed := by
  induction fates with
  | nil => rfl
  | cons fate rest ih =>
      rw [List.length_cons, List.countP_cons, List.countP_cons,
        ih fun other member => refused other (List.mem_cons_of_mem _ member)]
      unfold Ingress.isShed isClosed
      rcases refused fate List.mem_cons_self with same | same
      · rw [same]
        simp
        omega
      · rw [same]
        simp
        omega

theorem Ingress.Steady.balances {ingress : Ingress} {busy : Nat} (steady : ingress.Steady)
    (books : ingress.Books busy) (atMost : busy ≤ 1) :
    ∃ shedReaders shedQueue, Balances ingress shedReaders shedQueue busy := by
  have payloads := steady.offered.admitted.bounded
  obtain ⟨shed, counter, counted⟩ := books.counted
  obtain ⟨recorded, queue, total⟩ := steady.offered.shed
  have threads := readers_split ingress.readers
  have tickets := steady.offered.offered.length_eq
  have fates := payloads.fates.length_eq
  have dropped := dropped_split payloads.refused
  have inHand := steady.offered.inHand
  simp only [List.length_map, List.length_append] at tickets fates
  refine ⟨shed, recorded, atMost, counter, queue, ?_, ?_, ?_⟩ <;> omega

theorem Ingress.Accounted.conserved {ingress : Ingress} (accounted : ingress.Accounted) :
    Conserved ingress := by
  obtain ⟨steady, busy, atMost, books⟩ := accounted
  have permitted := steady.permitted
  obtain ⟨shedReaders, shedQueue, balances⟩ := steady.balances books atMost
  refine ⟨⟨shedReaders, shedQueue, busy, balances⟩, books.started, books.received,
    (wantedFrom_events _ _ _).1, ?_, ?_, steady.offered.admitted.bounded⟩
  · rw [permitted.balanced.used, permitted.permits]
  · rw [permitted.balanced.used, ← permitted.limit]
    exact permitted.balanced.within

def Happening.Resumes (happening : Happening) : Prop :=
  ∃ accepted, happening = .connection accepted ∧ (acceptAndDispatch accepted []).1 = some .resume

structure ReadAs (mime : Str) (past : List Happening) (sensor : Sensor) (offer : ObjectId) : Prop where
  public_ : pausedAfter past = false
  foreign : sensor.state.providerLocks = 0
  open_ : isSensitive ((sensor.offers.lookup offer).getD []) = false
  chosen : selectMime ((sensor.offers.lookup offer).getD []) sensor.targetMime
    sensor.config.dropRtf = some mime

structure Private (ingress : Ingress) : Prop where
  unread : ∀ past since, ingress.history = past ++ since → pausedAfter past = true →
    (∀ happening ∈ since, ¬ happening.Resumes) →
    ∀ selected ∈ ingress.received, selected.event ≤ past.length
  once : ingress.received.Pairwise fun first second => first.event < second.event
  read : ∀ selected ∈ ingress.received, ∃ past sensor offer since,
    ingress.history = past ++ .dispatch sensor (.selection (some offer)) :: since ∧
      selected.event = past.length + 1 ∧ ReadAs selected.mime past sensor offer
  told : ∀ told ∈ ingress.replies, Ingress.Truthful ingress.history told

theorem wants_paused (happening : Happening) : happening.wants true = none := by
  cases happening with
  | connection accepted => rfl
  | dispatch sensor event =>
      cases event with
      | selection id => exact if_pos (.inr rfl)
      | _ => rfl

theorem toggled_paused {happening : Happening} (still : ¬ happening.Resumes) :
    toggled true happening = true := by
  cases happening with
  | dispatch sensor event => rfl
  | connection accepted =>
      unfold toggled
      dsimp only
      split
      · rfl
      · rename_i resumes
        exact absurd ⟨accepted, rfl, resumes⟩ still
      · rfl

theorem wantedFrom_paused (earlier : Nat) {since : List Happening}
    (still : ∀ happening ∈ since, ¬ happening.Resumes) : wantedFrom true earlier since = [] := by
  induction since generalizing earlier with
  | nil => rfl
  | cons happening rest ih =>
      rw [wantedFrom, wants_paused, toggled_paused (still _ List.mem_cons_self),
        ih (earlier + 1) fun other member => still other (List.mem_cons_of_mem _ member)]
      rfl

theorem mimeToGet_some {sensor : Sensor} {id : Option ObjectId} {mime : Str}
    (chosen : sensor.mimeToGet id = some mime) :
    ∃ offer, id = some offer ∧ isSensitive ((sensor.offers.lookup offer).getD []) = false ∧
      selectMime ((sensor.offers.lookup offer).getD []) sensor.targetMime
        sensor.config.dropRtf = some mime := by
  unfold Sensor.mimeToGet at chosen
  cases id with
  | none => cases chosen
  | some offer =>
      dsimp only at chosen
      split at chosen
      · cases chosen
      · rename_i readable
        exact ⟨offer, rfl, eq_false_of_ne_true (not_or.mp readable).2, chosen⟩

theorem wants_some {happening : Happening} {past : List Happening} {mime : Str}
    (wants : happening.wants (pausedAfter past) = some mime) :
    ∃ sensor offer, happening = .dispatch sensor (.selection (some offer)) ∧
      ReadAs mime past sensor offer := by
  cases happening with
  | connection accepted => cases wants
  | dispatch sensor event =>
      cases event with
      | selection id =>
          change (if _ then none else sensor.mimeToGet id) = some mime at wants
          split at wants
          · cases wants
          · rename_i free
            obtain ⟨offer, rfl, open_, chosen⟩ := mimeToGet_some wants
            obtain ⟨unlocked, running⟩ := not_or.mp free
            refine ⟨sensor, offer, rfl, eq_false_of_ne_true running, ?_, open_, chosen⟩
            simpa using unlocked
      | global _ _ _ | globalRemove _ | dataOffer _ | offer _ _ => cases wants

theorem mem_wanted {history : List Happening} {selected : Selected}
    (member : selected ∈ wanted history) :
    ∃ past sensor offer since,
      history = past ++ .dispatch sensor (.selection (some offer)) :: since ∧
        selected.event = past.length + 1 ∧ ReadAs selected.mime past sensor offer := by
  induction history using List.reverseRecOn with
  | nil => cases member
  | append_singleton earlier last ih =>
      rw [wanted_append] at member
      rcases List.mem_append.mp member with before | now
      · obtain ⟨past, sensor, offer, since, rfl, read⟩ := ih before
        exact ⟨past, sensor, offer, since ++ [last], by simp, read⟩
      · obtain ⟨mime, wants, rfl⟩ := Option.map_eq_some_iff.mp (Option.mem_toList.mp now)
        obtain ⟨sensor, offer, rfl, read⟩ := wants_some wants
        exact ⟨earlier, sensor, offer, [], rfl, rfl, read⟩

theorem Ingress.Accounted.private_ {ingress : Ingress} (accounted : ingress.Accounted) :
    Private ingress := by
  obtain ⟨_, busy, _, books⟩ := accounted
  refine ⟨fun past since split paused still selected member => ?_, ?_, fun selected member => ?_,
    books.told⟩
  · have same : wanted ingress.history = wanted past := by
      rw [split, wanted, wantedFrom_append]
      change wantedFrom false 0 past ++ wantedFrom (pausedAfter past) _ since = _
      rw [paused, wantedFrom_paused _ still, List.append_nil]
      rfl
    have listed : selected ∈ wanted past := same ▸ books.received.subset member
    have within := ((wantedFrom_events false 0 past).2 selected listed).2
    omega
  · exact (wantedFrom_events false 0 ingress.history).1.sublist books.received
  · exact mem_wanted (books.received.subset member)

/-- At every moment, whatever the other threads do in between: of the selections that the daemon
should read all but the one in hand are counted as shed or read by a thread of their own, each
thread has its permit, and what it has read is accounted for up to the worker. -/
theorem daemon_conserves (sha3 percentDecode : Bytes → Bytes) (startedAtMs : Int) (config : Config)
    (turns : Nat) :
    (Sensor.startDaemon percentDecode startedAtMs config turns).Ensures (LoopCall.May sha3)
      Conserved (fun _ after => ∃ shedReaders shedQueue, Balances after shedReaders shedQueue 0)
      Ingress.start := by
  have ensures := startDaemon_ensures sha3 percentDecode startedAtMs config turns
  refine (ensures.weaken fun after accounted => accounted.conserved).mono ?_
  rintro _ after ⟨sensor, idle⟩
  exact idle.handled.steady.balances idle.handled.books (Nat.zero_le 1)

/-- At every moment: nothing that is offered in private mode is read, only open offers of other
clients are, and the status replies tell how things stand. -/
theorem daemon_private (sha3 percentDecode : Bytes → Bytes) (startedAtMs : Int) (config : Config)
    (turns : Nat) :
    (Sensor.startDaemon percentDecode startedAtMs config turns).Ensures (LoopCall.May sha3)
      Private (fun _ after => Private after) Ingress.start := by
  have ensures := startDaemon_ensures sha3 percentDecode startedAtMs config turns
  refine (ensures.weaken fun after accounted => accounted.private_).mono ?_
  rintro _ after ⟨sensor, idle⟩
  exact idle.accounted.private_

end Y4p
