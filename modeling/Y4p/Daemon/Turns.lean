import Y4p.Lib.Ensures
import Y4p.Daemon.Accounts

/-!
The event loop among the other threads, turn by turn: which selections are read, what is counted
and what the status replies say.
-/

namespace Y4p

open Programs

def toggled (paused : Bool) : Happening → Bool
  | .dispatch .. => paused
  | .connection accepted =>
      match (acceptAndDispatch accepted []).1 with
      | some .pause => true
      | some .resume => false
      | _ => paused

def pausedAfter (history : List Happening) : Bool :=
  history.foldl toggled false

-- The selection that is to be read, and as what: not the daemon's own, not in private mode, with a
-- MIME that is not sensitive.
def Happening.wants (paused : Bool) : Happening → Option Str
  | .dispatch sensor (.selection id) =>
      if 0 < sensor.state.providerLocks ∨ paused = true then none else sensor.mimeToGet id
  | _ => none

def wantedFrom (paused : Bool) (earlier : Nat) : List Happening → List Selected
  | [] => []
  | happening :: rest =>
      ((happening.wants paused).map (Selected.mk (earlier + 1))).toList ++
        wantedFrom (toggled paused happening) (earlier + 1) rest

def wanted (history : List Happening) : List Selected :=
  wantedFrom false 0 history

theorem wantedFrom_append (paused : Bool) (earlier : Nat) (past since : List Happening) :
    wantedFrom paused earlier (past ++ since) = wantedFrom paused earlier past ++
      wantedFrom (past.foldl toggled paused) (earlier + past.length) since := by
  induction past generalizing paused earlier with
  | nil => rfl
  | cons happening rest ih =>
      have passed : earlier + 1 + rest.length = earlier + (happening :: rest).length := by
        rw [List.length_cons]
        omega
      rw [List.cons_append, wantedFrom, wantedFrom, ih, List.append_assoc, passed]
      rfl

theorem wanted_append (history : List Happening) (happening : Happening) :
    wanted (history ++ [happening]) = wanted history ++
      ((happening.wants (pausedAfter history)).map (Selected.mk (history.length + 1))).toList := by
  rw [wanted, wantedFrom_append, Nat.zero_add]
  simp [wanted, wantedFrom, pausedAfter]

theorem pausedAfter_append (history : List Happening) (happening : Happening) :
    pausedAfter (history ++ [happening]) = toggled (pausedAfter history) happening := by
  simp [pausedAfter]

namespace Ingress

variable {ingress : Ingress}

theorem Permitted.asks (permitted : ingress.Permitted) (idle : ingress.asker = none) :
    Permitted
      { ingress with
        house := ingress.house.step .ask
        asker := some ingress.house.askers.length } := by
  obtain ⟨balanced, limit⟩ := Gatehouse.step_balanced .ask permitted.balanced
  have inside : ∀ slot ∈ ingress.held, slot < ingress.house.askers.length := fun slot member =>
    (List.getElem?_eq_some_iff.mp (permitted.holding slot member)).1
  have permits := permitted.permits
  rw [idle] at permits
  refine ⟨balanced, limit.trans permitted.limit, fun slot member => ?_, ?_, ?_⟩
  · change (ingress.house.askers ++ [.loading])[slot]? = _
    rw [List.getElem?_append_left (inside slot member)]
    exact permitted.holding slot member
  · have apart := permitted.apart
    rw [idle] at apart
    exact List.nodup_cons.mpr ⟨fun member => absurd (inside _ member) (Nat.lt_irrefl _), apart⟩
  · have waiting : (ingress.house.step .ask).occupies ingress.house.askers.length = 0 := by
      refine if_neg ?_
      change ¬ (ingress.house.askers ++ [.loading])[ingress.house.askers.length]? = _
      rw [List.getElem?_concat_length]
      exact nofun
    have same : (ingress.house.step .ask).permits = ingress.house.permits := by
      simp [Gatehouse.step, Gatehouse.permits]
    change (ingress.house.step .ask).permits =
      ingress.held.length + (ingress.house.step .ask).occupies ingress.house.askers.length
    rw [waiting, same]
    exact permits

theorem Permitted.refused (permitted : ingress.Permitted) {slot : Nat}
    (asks : ingress.asker = some slot) (refused : ingress.house.askers[slot]? = some .refused) :
    Permitted { ingress with asker := none } := by
  have apart := permitted.apart
  have permits := permitted.permits
  rw [asks] at apart permits
  refine ⟨permitted.balanced, permitted.limit, permitted.holding, ?_, ?_⟩
  · exact (List.nodup_cons.mp apart).2
  · have free : ingress.house.occupies slot = 0 := by
      refine if_neg ?_
      rw [refused]
      exact nofun
    rw [Option.elim_some, free] at permits
    exact permits

theorem Permitted.drops (permitted : ingress.Permitted) {slot : Nat}
    (asks : ingress.asker = some slot) :
    Permitted { ingress with house := ingress.house.step (.drop slot), asker := none } := by
  have moved := ingress.house.drop_moved slot
  have freed := ingress.house.drop_frees slot
  obtain ⟨balanced, limit⟩ := Gatehouse.step_balanced (.drop slot) permitted.balanced
  have apart := permitted.apart
  have permits := permitted.permits
  rw [asks] at apart permits
  obtain ⟨own, others⟩ := List.nodup_cons.mp apart
  refine ⟨balanced, limit.trans permitted.limit, fun other member => ?_, others, ?_⟩
  · have differs : other ≠ slot := fun same => own (same ▸ member)
    exact (moved.elsewhere other differs).trans (permitted.holding other member)
  · have counted := moved.permits
    change (ingress.house.step (.drop slot)).permits = ingress.held.length + 0
    rw [Option.elim_some] at permits
    omega

theorem Permitted.spawns (permitted : ingress.Permitted) {slot : Nat}
    (asks : ingress.asker = some slot) (holding : ingress.house.askers[slot]? = some .holding)
    (selected : Selected) :
    Permitted
      { ingress with
        readers := ingress.readers ++ [⟨selected, slot, none, .drain⟩], asker := none } := by
  have apart := permitted.apart
  have permits := permitted.permits
  rw [asks] at apart permits
  have joined : held
      { ingress with
        readers := ingress.readers ++ [⟨selected, slot, none, .drain⟩], asker := none } =
      ingress.held ++ [slot] := by
    rw [held, List.filterMap_append]
    rfl
  refine ⟨permitted.balanced, permitted.limit, fun other member => ?_, ?_, ?_⟩
  · rw [joined] at member
    rcases List.mem_append.mp member with before | new
    · exact permitted.holding other before
    · rw [List.mem_singleton.mp new]
      exact holding
  · rw [joined]
    exact (List.perm_append_singleton slot ingress.held).nodup_iff.mpr apart
  · have occupied : ingress.house.occupies slot = 1 := if_pos holding
    rw [joined, List.length_append]
    change ingress.house.permits = ingress.held.length + 1 + 0
    rw [Option.elim_some, occupied] at permits
    exact permits

theorem Offered.spawns (offered : ingress.Offered) (selected : Selected) (slot : Nat) :
    Offered
      { ingress with
        readers := ingress.readers ++ [⟨selected, slot, none, .drain⟩], asker := none } := by
  obtain ⟨recorded, queue, total⟩ := offered.shed
  refine ⟨offered.admitted, ?_, ?_, recorded, queue, ?_⟩
  · dsimp only
    rw [List.countP_append]
    exact offered.inHand
  · dsimp only
    rw [List.filterMap_append, List.filterMap_cons]
    simpa using offered.offered
  · dsimp only
    rw [List.countP_append]
    exact total

theorem Steady.of_books {after : Ingress} (steady : ingress.Steady)
    (house : after.house = ingress.house) (asker : after.asker = ingress.asker)
    (readers : after.readers = ingress.readers) (intake : after.intake = ingress.intake)
    (shedQueue : after.shedQueue = ingress.shedQueue) : after.Steady where
  permitted := steady.permitted.of_same house asker (by rw [held, readers, held])
  offered := by
    obtain ⟨admitted, inHand, offered, shed⟩ := steady.offered
    constructor
    · rwa [intake]
    · rwa [intake, readers]
    · rwa [intake, readers]
    · rwa [intake, readers, shedQueue]

structure Truthful (history : List Happening) (told : Told) : Prop where
  past : told.past <+: history
  paused : told.status.paused = pausedAfter told.past
  shed : ∃ shed, told.status.shedReaders = .ofNat shed ∧
    (wanted told.past).length = told.started.length + shed

structure Books (ingress : Ingress) (busy : Nat) : Prop where
  started : (ingress.readers.map ReaderThread.selected).Sublist ingress.received
  received : ingress.received.Sublist (wanted ingress.history)
  counted : ∃ shed, ingress.shedReaders = .ofNat shed ∧
    (wanted ingress.history).length = ingress.readers.length + shed + busy
  told : ∀ told ∈ ingress.replies, Truthful ingress.history told

structure Taken (ingress : Ingress) (selected : Selected) (extra : List Selected) : Prop where
  counted : ∃ asked before shed, wanted ingress.history = asked ++ [selected] ∧
    ingress.received = before ++ extra ∧ before.Sublist asked ∧
    (ingress.readers.map ReaderThread.selected).Sublist before ∧
    ingress.shedReaders = .ofNat shed ∧ asked.length = ingress.readers.length + shed
  told : ∀ told ∈ ingress.replies, Truthful ingress.history told

structure Accounted (ingress : Ingress) : Prop where
  steady : ingress.Steady
  books : ∃ busy ≤ 1, ingress.Books busy

theorem SameBooks.readers {after : Ingress} (same : SameBooks ingress after) :
    after.readers.length = ingress.readers.length := by
  simpa using congrArg List.length same.started

theorem Books.of_same {after : Ingress} {busy : Nat} (books : ingress.Books busy)
    (same : SameBooks ingress after) : after.Books busy := by
  obtain ⟨started, received, counted, told⟩ := books
  constructor
  · rwa [same.started, same.received]
  · rwa [same.received, same.history]
  · rwa [same.shedReaders, same.history, same.readers]
  · rwa [same.replies, same.history]

theorem Taken.of_same {after : Ingress} {selected : Selected} {extra : List Selected}
    (taken : ingress.Taken selected extra) (same : SameBooks ingress after) :
    after.Taken selected extra := by
  obtain ⟨counted, told⟩ := taken
  constructor
  · rwa [same.history, same.received, same.started, same.shedReaders, same.readers]
  · rwa [same.replies, same.history]

theorem Truthful.later {history : List Happening} {told : Told} (truthful : Truthful history told)
    (happening : Happening) : Truthful (history ++ [happening]) told :=
  ⟨truthful.past.trans (List.prefix_append _ _), truthful.paused, truthful.shed⟩

/-- Something happens that no selection is to be read for. -/
theorem Books.happens (books : ingress.Books 0) {happening : Happening}
    (unwanted : happening.wants (pausedAfter ingress.history) = none) :
    Books { ingress with history := ingress.history ++ [happening] } 0 := by
  have same : wanted (ingress.history ++ [happening]) = wanted ingress.history := by
    rw [wanted_append, unwanted]
    exact List.append_nil _
  obtain ⟨started, received, counted, told⟩ := books
  refine ⟨started, ?_, ?_, fun reply member => (told reply member).later happening⟩
  · dsimp only
    rwa [same]
  · dsimp only
    rwa [same]

theorem Books.takes (books : ingress.Books 0) {happening : Happening} {mime : Str}
    (wants : happening.wants (pausedAfter ingress.history) = some mime) :
    Taken { ingress with history := ingress.history ++ [happening] }
      ⟨ingress.history.length + 1, mime⟩ [] := by
  obtain ⟨started, received, ⟨shed, counter, counted⟩, told⟩ := books
  refine ⟨⟨wanted ingress.history, ingress.received, shed, ?_, (List.append_nil _).symm, received,
    started, counter, counted⟩, fun reply member => (told reply member).later happening⟩
  dsimp only
  rw [wanted_append, wants]
  rfl

theorem Taken.books {selected : Selected} {extra : List Selected} (taken : ingress.Taken selected extra)
    (some : extra.Sublist [selected]) : ingress.Books 1 := by
  obtain ⟨⟨asked, before, shed, wants, received, kept, started, counter, counted⟩, told⟩ := taken
  refine ⟨?_, ?_, ⟨shed, counter, ?_⟩, told⟩
  · rw [received]
    exact started.trans (List.sublist_append_left before extra)
  · rw [received, wants]
    exact kept.append some
  · rw [wants, List.length_append, counted]
    rfl

theorem Taken.receives {selected : Selected} (taken : ingress.Taken selected []) :
    Taken { ingress with received := ingress.received ++ [selected] } selected [selected] := by
  obtain ⟨⟨asked, before, shed, wants, received, kept, started, counter, counted⟩, told⟩ := taken
  refine ⟨⟨asked, before, shed, wants, ?_, kept, started, counter, counted⟩, told⟩
  dsimp only
  rw [received, List.append_nil]

theorem Taken.starts {selected : Selected} (taken : ingress.Taken selected [selected]) (slot : Nat) :
    Books
      { ingress with
        readers := ingress.readers ++ [⟨selected, slot, none, .drain⟩], asker := none } 0 := by
  obtain ⟨⟨asked, before, shed, wants, received, kept, started, counter, counted⟩, told⟩ := taken
  refine ⟨?_, ?_, ⟨shed, counter, ?_⟩, told⟩
  · dsimp only
    rw [received, List.map_append]
    exact started.append (List.Sublist.refl _)
  · dsimp only
    rw [received, wants]
    exact kept.append (List.Sublist.refl _)
  · dsimp only
    rw [wants, List.length_append, List.length_append, counted, List.length_singleton]
    simp only [List.length_cons, List.length_nil]
    omega

theorem Taken.sheds {selected : Selected} {extra : List Selected} (taken : ingress.Taken selected extra)
    (some : extra.Sublist [selected]) :
    Books { ingress with shedReaders := ingress.shedReaders + 1 } 0 := by
  obtain ⟨started, received, _, told⟩ := taken.books some
  obtain ⟨⟨asked, _, shed, wants, _, _, _, counter, counted⟩, _⟩ := taken
  refine ⟨started, received, ⟨shed + 1, ?_, ?_⟩, told⟩
  · dsimp only
    rw [counter, UInt64.ofNat_add]
    rfl
  · dsimp only
    rw [wants, List.length_append, counted, List.length_singleton]
    omega

end Ingress

def SensorCall.May (call : SensorCall) (ingress : Ingress) (answer : call.Answer)
    (after : Ingress) : Prop :=
  ∃ actions, (ingress.run actions).Senses call answer after

section
variable {ingress : Ingress} {history : List Happening}

structure Handled (history : List Happening) (ingress : Ingress) : Prop where
  steady : ingress.Steady
  asker : ingress.asker = none
  books : ingress.Books 0
  history : ingress.history = history

structure Counted (history : List Happening) (ingress : Ingress) : Prop where
  steady : ingress.Steady
  permit : ingress.HasPermit
  books : ingress.Books 0
  history : ingress.history = history

structure Admits (history : List Happening) (mime : Str) (extra : List Selected) (ingress : Ingress) :
    Prop where
  steady : ingress.Steady
  permit : ingress.HasPermit
  taken : ingress.Taken ⟨history.length, mime⟩ extra
  history : ingress.history = history

structure Awaits (history : List Happening) (mime : Str) (extra : List Selected) (ingress : Ingress) :
    Prop where
  steady : ingress.Steady
  asker : ingress.asker = none
  taken : ingress.Taken ⟨history.length, mime⟩ extra
  history : ingress.history = history

theorem Handled.accounted (handled : Handled history ingress) : ingress.Accounted :=
  ⟨handled.steady, 0, Nat.zero_le 1, handled.books⟩

theorem Counted.accounted (counted : Counted history ingress) : ingress.Accounted :=
  ⟨counted.steady, 0, Nat.zero_le 1, counted.books⟩

theorem Admits.accounted {mime : Str} {extra : List Selected}
    (admits : Admits history mime extra ingress) (some : extra.Sublist [⟨history.length, mime⟩]) :
    ingress.Accounted :=
  ⟨admits.steady, 1, le_refl 1, admits.taken.books some⟩

theorem Awaits.accounted {mime : Str} {extra : List Selected}
    (awaits : Awaits history mime extra ingress) (some : extra.Sublist [⟨history.length, mime⟩]) :
    ingress.Accounted :=
  ⟨awaits.steady, 1, le_refl 1, awaits.taken.books some⟩

theorem Handled.run (handled : Handled history ingress) (actions : List IngressAction) :
    Handled history (ingress.run actions) :=
  have same := ingress.run_books actions
  ⟨handled.steady.run actions, (ingress.run_asker actions).trans handled.asker,
    handled.books.of_same same, same.history.trans handled.history⟩

theorem Counted.run (counted : Counted history ingress) (actions : List IngressAction) :
    Counted history (ingress.run actions) :=
  have same := ingress.run_books actions
  ⟨counted.steady.run actions, counted.permit.run counted.steady actions,
    counted.books.of_same same, same.history.trans counted.history⟩

theorem Admits.run {mime : Str} {extra : List Selected} (admits : Admits history mime extra ingress)
    (actions : List IngressAction) : Admits history mime extra (ingress.run actions) :=
  have same := ingress.run_books actions
  ⟨admits.steady.run actions, admits.permit.run admits.steady actions,
    admits.taken.of_same same, same.history.trans admits.history⟩

theorem Awaits.run {mime : Str} {extra : List Selected} (awaits : Awaits history mime extra ingress)
    (actions : List IngressAction) : Awaits history mime extra (ingress.run actions) :=
  have same := ingress.run_books actions
  ⟨awaits.steady.run actions, (ingress.run_asker actions).trans awaits.asker,
    awaits.taken.of_same same, same.history.trans awaits.history⟩

/-- The selection is counted, and reported on some totals. -/
theorem shedReader_ensures {pre post : Ingress → Prop} (reason : Str)
    (accounted : ∀ {after}, post after → after.Accounted)
    (stays : ∀ {after}, post after → ∀ actions, post (after.run actions))
    (counts : ∀ {met : Ingress}, pre met → post { met with shedReaders := met.shedReaders + 1 })
    (waits : ∀ actions, pre (ingress.run actions)) :
    (shedReader reason).Ensures SensorCall.May Ingress.Accounted (fun _ => post) ingress := by
  refine Program.Ensures.ask ?_
  rintro (total : UInt64) after ⟨actions, _, rfl⟩
  have counted := counts (waits actions)
  refine ⟨accounted counted, ?_⟩
  cases reported : shouldReport total with
  | true =>
      have reports : reportShed reason total =
          (Program.ask (SensorCall.eprintln (logIngestShed reason total)) : SensorProgram Unit) :=
        if_pos reported
      rw [reports]
      rintro _ after ⟨more, rfl⟩
      exact ⟨accounted (stays counted more), stays counted more⟩
  | false =>
      have silent : reportShed reason total = pure () := if_neg (by simp [reported])
      rw [silent]
      exact counted

theorem Awaits.shed {mime : Str} {extra : List Selected} (some : extra.Sublist [⟨history.length, mime⟩])
    (awaits : Awaits history mime extra ingress) :
    Handled history { ingress with shedReaders := ingress.shedReaders + 1 } :=
  ⟨awaits.steady.of_books rfl rfl rfl rfl rfl, awaits.asker, awaits.taken.sheds some,
    awaits.history⟩

theorem Awaits.sheds {mime : Str} {extra : List Selected}
    (some : extra.Sublist [⟨history.length, mime⟩])
    (awaits : Awaits history mime extra ingress) (reason : Str) :
    (shedReader reason).Ensures SensorCall.May Ingress.Accounted (fun _ => Handled history)
      ingress :=
  shedReader_ensures reason Handled.accounted Handled.run (Awaits.shed some) awaits.run

theorem Admits.shed {mime : Str} {extra : List Selected} (some : extra.Sublist [⟨history.length, mime⟩])
    (admits : Admits history mime extra ingress) :
    Counted history { ingress with shedReaders := ingress.shedReaders + 1 } :=
  ⟨admits.steady.of_books rfl rfl rfl rfl rfl, admits.permit, admits.taken.sheds some,
    admits.history⟩

def withoutPermit (ingress : Ingress) : Ingress :=
  match ingress.asker with
  | some slot => { ingress with house := ingress.house.step (.drop slot), asker := none }
  | none => ingress

theorem withoutPermit_steady (steady : ingress.Steady) (permit : ingress.HasPermit) :
    (withoutPermit ingress).Steady ∧ (withoutPermit ingress).asker = none ∧
      Ingress.SameBooks ingress (withoutPermit ingress) := by
  obtain ⟨slot, asks, _⟩ := permit
  unfold withoutPermit
  rw [asks]
  exact ⟨⟨steady.permitted.drops asks, steady.offered.admitted, steady.offered.inHand,
    steady.offered.offered, steady.offered.shed⟩, rfl, rfl, rfl, rfl, rfl, rfl⟩

theorem Admits.drops {mime : Str} {extra : List Selected} (admits : Admits history mime extra ingress) :
    Awaits history mime extra (withoutPermit ingress) := by
  obtain ⟨steady, asker, same⟩ := withoutPermit_steady admits.steady admits.permit
  exact ⟨steady, asker, admits.taken.of_same same, same.history.trans admits.history⟩

theorem Counted.drops (counted : Counted history ingress) :
    Handled history (withoutPermit ingress) := by
  obtain ⟨steady, asker, same⟩ := withoutPermit_steady counted.steady counted.permit
  exact ⟨steady, asker, counted.books.of_same same, same.history.trans counted.history⟩

theorem startReader_ensures {mime : Str} (admits : Admits history mime [] ingress) :
    (Sensor.startReader mime).Ensures SensorCall.May Ingress.Accounted
      (fun _ => Handled history) ingress := by
  refine Program.Ensures.ask ?_
  rintro _ after ⟨actions, rfl⟩
  have waiting := admits.run actions
  have here : Selected.mk (ingress.run actions).history.length mime = ⟨history.length, mime⟩ := by
    rw [waiting.history]
  rw [here]
  have asked : Admits history mime [⟨history.length, mime⟩]
      { ingress.run actions with
        received := (ingress.run actions).received ++ [⟨history.length, mime⟩] } :=
    ⟨waiting.steady.of_books rfl rfl rfl rfl rfl, waiting.permit, waiting.taken.receives,
      waiting.history⟩
  refine ⟨asked.accounted (.refl _), ?_⟩
  refine Program.Ensures.ask ?_
  rintro (spawned : Bool) after ⟨more, rfl⟩
  have ready := asked.run more
  cases spawned with
  | true =>
      obtain ⟨slot, asks, holding⟩ := ready.permit
      rw [asks]
      dsimp only
      have there := congrArg (fun events : List Happening => Selected.mk events.length mime)
        ready.history
      dsimp only at there
      rw [there]
      have started : Handled history _ :=
        ⟨⟨ready.steady.permitted.spawns asks holding _, ready.steady.offered.spawns _ slot⟩,
          rfl, ready.taken.starts slot, ready.history⟩
      exact ⟨started.accounted, started⟩
  | false =>
      -- No thread: the permit goes with the closure, and the selection is counted.
      refine ⟨ready.accounted (.refl _), ?_⟩
      refine Program.Ensures.ask ?_
      rintro _ after ⟨last, rfl⟩
      have dropped := (ready.run last).drops
      exact ⟨dropped.accounted (.refl _), dropped.sheds (.refl _) _⟩

theorem Ingress.Acquires.cases {admitted : Bool} {after : Ingress} {mime : Str}
    (acquires : ingress.Acquires admitted after) (awaits : Awaits history mime [] ingress) :
    if admitted then Admits history mime [] after else Awaits history mime [] after := by
  obtain ⟨actions, decided⟩ := acquires
  have asks : Ingress.Steady
      { ingress with
        house := ingress.house.step .ask, asker := some ingress.house.askers.length } :=
    ⟨awaits.steady.permitted.asks awaits.asker, awaits.steady.offered.admitted,
      awaits.steady.offered.inHand, awaits.steady.offered.offered, awaits.steady.offered.shed⟩
  have steady := asks.run actions
  have same := Ingress.run_books
    { ingress with
      house := ingress.house.step .ask, asker := some ingress.house.askers.length } actions
  have asker := Ingress.run_asker
    { ingress with
      house := ingress.house.step .ask, asker := some ingress.house.askers.length } actions
  have taken : Ingress.Taken
      { ingress with
        house := ingress.house.step .ask, asker := some ingress.house.askers.length }
        ⟨history.length, mime⟩ [] :=
    ⟨awaits.taken.counted, awaits.taken.told⟩
  cases admitted with
  | true =>
      obtain ⟨holding, rfl⟩ := decided
      exact ⟨steady, ⟨_, asker, holding⟩, taken.of_same same, same.history.trans awaits.history⟩
  | false =>
      obtain ⟨refused, rfl⟩ := decided
      have kept := taken.of_same same
      exact ⟨⟨steady.permitted.refused asker refused, steady.offered.admitted,
        steady.offered.inHand, steady.offered.offered, steady.offered.shed⟩, rfl,
        ⟨kept.counted, kept.told⟩, same.history.trans awaits.history⟩

theorem ingestInBackground_ensures {mime : Str} (awaits : Awaits history mime [] ingress) :
    (Sensor.ingestInBackground mime).Ensures SensorCall.May Ingress.Accounted
      (fun _ => Handled history) ingress := by
  have nothing : ([] : List Selected).Sublist [⟨history.length, mime⟩] := List.nil_sublist _
  refine Program.Ensures.ask ?_
  rintro (admitted : Bool) after ⟨actions, acquires⟩
  have decided := Ingress.Acquires.cases acquires (awaits.run actions)
  cases admitted with
  | false =>
      have refused : Awaits history mime [] after := decided
      exact ⟨refused.accounted nothing, refused.sheds nothing _⟩
  | true =>
      have admits : Admits history mime [] after := decided
      refine ⟨admits.accounted nothing, ?_⟩
      refine Program.Ensures.ask ?_
      rintro (piped : Bool) after ⟨more, rfl⟩
      have ready := admits.run more
      refine ⟨ready.accounted nothing, ?_⟩
      cases piped with
      | true => exact startReader_ensures ready
      | false =>
          -- No pipe: the selection is counted, and then the permit is dropped.
          refine Program.Ensures.bind ?_
          have counted := shedReader_ensures
            "could not allocate pipe descriptors (EMFILE)".toList
            Counted.accounted Counted.run (Admits.shed nothing) ready.run
          refine counted.mono ?_
          rintro _ last holds
          rintro _ after ⟨drops, rfl⟩
          have done := (Counted.run holds drops).drops
          exact ⟨done.accounted, done⟩

end

section
variable {sha3 : Bytes → Bytes} {percentDecode : Bytes → Bytes} {startedAtMs : Int}
  {sensor : Sensor} {ingress : Ingress}

structure AtRest (sensor : Sensor) (ingress : Ingress) : Prop where
  handled : Handled ingress.history ingress
  jobTx : sensor.jobTx = true
  paused : sensor.state.paused = pausedAfter ingress.history

theorem AtRest.accounted (idle : AtRest sensor ingress) : ingress.Accounted :=
  idle.handled.accounted

theorem AtRest.run (idle : AtRest sensor ingress) (actions : List IngressAction) :
    AtRest sensor (ingress.run actions) := by
  have handled := idle.handled.run actions
  refine ⟨⟨handled.steady, handled.asker, handled.books, rfl⟩, idle.jobTx, ?_⟩
  rw [handled.history]
  exact idle.paused

theorem sensing_ensures {α : Type} {post : α → Ingress → Prop} {program : SensorProgram α}
    (ensures : program.Ensures SensorCall.May Ingress.Accounted post ingress) :
    (sensing program).Ensures (LoopCall.May sha3) Ingress.Accounted post ingress :=
  Program.Ensures.lift (fun _ _ _ _ answered => answered) ensures

/-- What happens is written down. -/
theorem Handled.happens (handled : Handled ingress.history ingress) {happening : Happening}
    (unwanted : happening.wants (pausedAfter ingress.history) = none) :
    Handled (ingress.history ++ [happening])
      { ingress with history := ingress.history ++ [happening] } :=
  ⟨handled.steady.of_books rfl rfl rfl rfl rfl, handled.asker, handled.books.happens unwanted, rfl⟩

theorem Handled.takes (handled : Handled ingress.history ingress) {happening : Happening}
    {mime : Str} (wants : happening.wants (pausedAfter ingress.history) = some mime) :
    Awaits (ingress.history ++ [happening]) mime []
      { ingress with history := ingress.history ++ [happening] } :=
  ⟨handled.steady.of_books rfl rfl rfl rfl rfl, handled.asker,
    List.length_append ▸ handled.books.takes wants, rfl⟩

theorem AtRest.after {history : List Happening} {after : Sensor} (handled : Handled history ingress)
    (jobTx : after.jobTx = true) (paused : after.state.paused = pausedAfter history) :
    AtRest after ingress := by
  refine ⟨⟨handled.steady, handled.asker, handled.books, rfl⟩, jobTx, ?_⟩
  rw [handled.history]
  exact paused

theorem bindManager_paused (state : WaylandState) (conn : Connection) (name : UInt32)
    (interface : Str) (version : UInt32) :
    (state.bindManager conn name interface version).1.paused = state.paused := by
  unfold WaylandState.bindManager
  split <;> rfl

theorem bindSeat_paused (state : WaylandState) (conn : Connection) (name : UInt32)
    (interface : Str) (version : UInt32) :
    (state.bindSeat conn name interface version).1.paused = state.paused := by
  unfold WaylandState.bindSeat
  split <;> rfl

theorem registryGlobal_paused (state : WaylandState) (conn : Connection) (name : UInt32)
    (interface : Str) (version : UInt32) :
    (state.registryGlobal conn name interface version).1.paused = state.paused :=
  (bindSeat_paused _ _ _ _ _).trans (bindManager_paused _ _ _ _ _)

theorem registryGlobalRemove_paused (state : WaylandState) (name : UInt32) :
    (state.registryGlobalRemove name).paused = state.paused := by
  unfold WaylandState.registryGlobalRemove
  dsimp only
  split <;> (split <;> rfl)

theorem selection_paused (state : WaylandState) : state.selection.1.paused = state.paused := by
  unfold WaylandState.selection
  dsimp only
  split
  · rfl
  · split <;> rfl

theorem selection_foreign (state : WaylandState) :
    state.selection.2 = .foreign ↔ ¬ (0 < state.providerLocks ∨ state.paused = true) := by
  unfold WaylandState.selection
  dsimp only
  split
  · rename_i locked
    exact iff_of_false nofun fun free => free (.inl locked)
  · rename_i unlocked
    split
    · rename_i paused
      exact iff_of_false nofun fun free => free (.inr paused)
    · rename_i running
      exact iff_of_true rfl (not_or.mpr ⟨unlocked, running⟩)

/-- The handler reads just the selections that are wanted. -/
theorem selection_ensures (idle : AtRest sensor ingress) (id : Option ObjectId) :
    (sensor.selection percentDecode id).Ensures SensorCall.May Ingress.Accounted AtRest
      { ingress with history := ingress.history ++ [.dispatch sensor (.selection id)] } := by
  have paused := selection_paused sensor.state
  have foreign := selection_foreign sensor.state
  have still : pausedAfter (ingress.history ++ [.dispatch sensor (.selection id)]) =
      pausedAfter ingress.history := pausedAfter_append _ _
  unfold Sensor.selection
  rcases shape : sensor.state.selection with ⟨state, treatment⟩
  rw [shape] at paused foreign
  dsimp only at paused foreign ⊢
  have after : ∀ {last}, Handled (ingress.history ++ [.dispatch sensor (.selection id)]) last →
      AtRest { sensor with state := state } last := fun handled =>
    AtRest.after handled idle.jobTx ((paused.trans idle.paused).trans still.symm)
  have ignores : (Happening.dispatch sensor (.selection id)).wants
      (pausedAfter ingress.history) = none →
      Program.Ensures SensorCall.May Ingress.Accounted AtRest
        (pure { sensor with state := state } : SensorProgram Sensor)
        { ingress with history := ingress.history ++ [.dispatch sensor (.selection id)] } :=
    fun unwanted => after (idle.handled.happens unwanted)
  have wants : (Happening.dispatch sensor (.selection id)).wants (pausedAfter ingress.history) =
      if 0 < sensor.state.providerLocks ∨ pausedAfter ingress.history = true then none
      else sensor.mimeToGet id := rfl
  rw [← idle.paused] at wants ignores
  by_cases free : treatment = .foreign
  · rw [if_neg (foreign.mp free)] at wants
    subst free
    cases named : sensor.mimeToGet id with
    | none => exact ignores (wants.trans named)
    | some mime =>
        have awaits := idle.handled.takes (idle.paused ▸ wants.trans named)
        dsimp only
        rw [if_pos idle.jobTx]
        refine Program.Ensures.bind ((ingestInBackground_ensures awaits).mono ?_)
        exact fun _ last handled => after handled
  · have taken : 0 < sensor.state.providerLocks ∨ sensor.state.paused = true :=
      Classical.byContradiction fun none => free (foreign.mpr none)
    have ignored := ignores (wants.trans (if_pos taken))
    cases treatment with
    | foreign => exact absurd rfl free
    | echo | paused => exact ignored

theorem handle_ensures (idle : AtRest sensor ingress) (event : WaylandEvent) :
    (sensor.handle percentDecode event).Ensures SensorCall.May Ingress.Accounted AtRest
      { ingress with history := ingress.history ++ [.dispatch sensor event] } := by
  have still : pausedAfter (ingress.history ++ [.dispatch sensor event]) =
      pausedAfter ingress.history := pausedAfter_append _ _
  have goesOn : ∀ after : Sensor, (Happening.dispatch sensor event).wants
      (pausedAfter ingress.history) = none → after.jobTx = sensor.jobTx →
      after.state.paused = sensor.state.paused →
      AtRest after { ingress with history := ingress.history ++ [.dispatch sensor event] } :=
    fun after unwanted jobTx paused => AtRest.after (idle.handled.happens unwanted)
      (jobTx.trans idle.jobTx) ((paused.trans idle.paused).trans still.symm)
  cases event with
  | global name interface version =>
      exact goesOn _ rfl rfl (registryGlobal_paused _ _ _ _ _)
  | globalRemove name => exact goesOn _ rfl rfl (registryGlobalRemove_paused _ _)
  | dataOffer offer => exact goesOn _ rfl rfl rfl
  | offer offer mimeType => exact goesOn _ rfl rfl rfl
  | selection id => exact selection_ensures idle id

theorem AtRest.dispatches (idle : AtRest sensor ingress) (event : WaylandEvent) :
    Ingress.Accounted { ingress with history := ingress.history ++ [.dispatch sensor event] } := by
  cases wants : (Happening.dispatch sensor event).wants (pausedAfter ingress.history) with
  | none => exact (idle.handled.happens wants).accounted
  | some mime => exact (idle.handled.takes wants).accounted (List.nil_sublist _)

theorem dispatchPending_ensures (events : List WaylandEvent) (idle : AtRest sensor ingress) :
    (Sensor.dispatchPending percentDecode events sensor).Ensures (LoopCall.May sha3)
      Ingress.Accounted AtRest ingress := by
  induction events generalizing sensor ingress with
  | nil => exact idle
  | cons event rest ih =>
      refine Program.Ensures.ask ?_
      rintro _ after ⟨actions, rfl⟩
      have here := idle.run actions
      refine ⟨here.dispatches event, Program.Ensures.bind ?_⟩
      refine (sensing_ensures (handle_ensures here event)).mono ?_
      exact fun next last idle => ih idle

theorem restoreAcross_paused (located served : World) (state : WaylandState) (conn : Connection)
    (realId : Int) :
    (restoreAcross sha3 located served state conn realId).1.paused = state.paused := by
  cases found : located.location realId with
  | none => rw [restoreAcross_unlocated found]
  | some place =>
      obtain ⟨mime, location⟩ := place
      cases manages : state.manager with
      | none => rw [restoreAcross_unmanaged manages]
      | some manager =>
          rw [restoreAcross_located manages found]
          rfl

theorem quiet_ensures {α : Type} {holds : Ingress → Prop} {post : α → Ingress → Prop}
    {call : LoopCall} {next : call.Answer → LoopProgram α}
    (accounted : ∀ {met}, holds met → met.Accounted)
    (stays : ∀ {met}, holds met → ∀ actions, holds (met.run actions))
    (quiet : ∀ {met after : Ingress} {answer}, met.Answers sha3 call answer after → after = met)
    (here : holds ingress)
    (goesOn : ∀ answer after, holds after →
      (next answer).Ensures (LoopCall.May sha3) Ingress.Accounted post after) :
    (Program.ask call >>= next : LoopProgram α).Ensures (LoopCall.May sha3) Ingress.Accounted post
      ingress := by
  refine Program.Ensures.ask ?_
  rintro answer after ⟨actions, answered⟩
  rw [quiet answered]
  have there := stays here actions
  exact ⟨accounted there, goesOn answer _ there⟩

structure HasRead (sensor : Sensor) (total : UInt64) (ingress : Ingress) : Prop where
  idle : AtRest sensor ingress
  total : ingress.shedReaders = total

theorem HasRead.accounted {total : UInt64} (reads : HasRead sensor total ingress) :
    ingress.Accounted :=
  reads.idle.accounted

theorem HasRead.run {total : UInt64} (reads : HasRead sensor total ingress)
    (actions : List IngressAction) : HasRead sensor total (ingress.run actions) :=
  ⟨reads.idle.run actions, (ingress.run_books actions).shedReaders.trans reads.total⟩

theorem msAgo_ensures {total : UInt64} (reads : HasRead sensor total ingress) (last : Int) :
    (msAgo last).Ensures (LoopCall.May sha3) Ingress.Accounted
      (fun _ after => HasRead sensor total after) ingress := by
  unfold msAgo
  split
  · exact reads
  · refine quiet_ensures HasRead.accounted HasRead.run (fun answered => answered) reads ?_
    exact fun _ _ reads => reads

theorem formatStatus_ensures {total : UInt64} (reads : HasRead sensor total ingress) (paused : Bool)
    (shedQueue : UInt64) :
    (formatStatus startedAtMs paused total shedQueue).Ensures (LoopCall.May sha3) Ingress.Accounted
      (fun status after => (status.paused = paused ∧ status.shedReaders = total) ∧
        HasRead sensor total after) ingress := by
  refine quiet_ensures HasRead.accounted HasRead.run (fun answered => answered) reads ?_
  rintro (last : Int) _ reads
  refine quiet_ensures HasRead.accounted HasRead.run (fun answered => answered) reads ?_
  rintro (now : Int) _ reads
  refine quiet_ensures HasRead.accounted HasRead.run (fun answered => answered) reads ?_
  rintro (count : UInt64) _ reads
  refine quiet_ensures HasRead.accounted HasRead.run (fun answered => answered) reads ?_
  rintro (egress : UInt64) _ reads
  refine Program.Ensures.bind ((msAgo_ensures reads last).mono ?_)
  exact fun ago _ reads => ⟨⟨rfl, rfl⟩, reads⟩

/-- A reply adds a truthful status to what was told. -/
theorem HasRead.replies {total : UInt64} {status : Status} (reads : HasRead sensor total ingress)
    (paused : status.paused = sensor.state.paused) (shed : status.shedReaders = total) :
    AtRest sensor
      { ingress with
        replies := ingress.replies ++
          [⟨ingress.history, ingress.readers.map ReaderThread.selected, status⟩] } := by
  obtain ⟨⟨⟨steady, asker, books, _⟩, jobTx, private_⟩, counter⟩ := reads
  refine ⟨⟨steady.of_books rfl rfl rfl rfl rfl, asker, ?_, rfl⟩, jobTx, private_⟩
  refine ⟨books.started, books.received, books.counted, fun told member => ?_⟩
  rcases List.mem_append.mp member with before | new
  · exact books.told told before
  · rw [List.mem_singleton.mp new]
    refine ⟨List.prefix_rfl, paused.trans private_, ?_⟩
    obtain ⟨total', counted, settled⟩ := books.counted
    refine ⟨total', shed.trans (counter.symm.trans counted), ?_⟩
    dsimp only
    rw [List.length_map]
    exact settled

theorem serveCommand_ensures (idle : AtRest sensor ingress) :
    (sensor.serveCommand startedAtMs).Ensures (LoopCall.May sha3) Ingress.Accounted AtRest
      ingress := by
  refine Program.Ensures.ask ?_
  rintro (accepted : Option (List Fill)) after ⟨actions, rfl⟩
  have here := idle.run actions
  have heard : Handled ((ingress.run actions).history ++ [.connection accepted])
      { ingress.run actions with
        history := (ingress.run actions).history ++ [.connection accepted] } :=
    here.handled.happens rfl
  have switched : pausedAfter ((ingress.run actions).history ++ [.connection accepted]) =
      toggled (pausedAfter (ingress.run actions).history) (.connection accepted) :=
    pausedAfter_append _ _
  unfold toggled at switched
  dsimp only at switched
  refine ⟨heard.accounted, ?_⟩
  cases command : (acceptAndDispatch accepted []).1 with
  | none =>
      rw [command] at switched
      exact AtRest.after heard idle.jobTx (here.paused.trans switched.symm)
  | some command' =>
      rw [command] at switched
      cases command' with
      | pause | resume => exact AtRest.after heard idle.jobTx switched.symm
      | exit =>
          have left := AtRest.after heard idle.jobTx (here.paused.trans switched.symm)
          refine quiet_ensures AtRest.accounted AtRest.run (fun answered => answered) left ?_
          exact fun _ _ idle => idle
      | restore realId =>
          have left := AtRest.after heard idle.jobTx (here.paused.trans switched.symm)
          refine Program.Ensures.ask ?_
          rintro (restored : WaylandState × Connection) after ⟨more, ⟨located, served, rfl⟩, rfl⟩
          have there := left.run more
          refine ⟨there.accounted, AtRest.after there.handled idle.jobTx ?_⟩
          exact (restoreAcross_paused _ _ _ _ _).trans there.paused
      | status =>
          have left := AtRest.after heard idle.jobTx (here.paused.trans switched.symm)
          refine Program.Ensures.ask ?_
          rintro (total : UInt64) after ⟨more, rfl, rfl⟩
          have read : HasRead sensor (_ : Ingress).shedReaders _ := ⟨left.run more, rfl⟩
          refine ⟨read.accounted, ?_⟩
          refine Program.Ensures.ask ?_
          rintro (queue : UInt64) after ⟨later, rfl, rfl⟩
          have still := read.run later
          refine ⟨still.accounted, Program.Ensures.bind ?_⟩
          refine (formatStatus_ensures still sensor.state.paused _).mono ?_
          rintro status last ⟨⟨paused, shed⟩, reads⟩
          refine Program.Ensures.ask ?_
          rintro _ after ⟨last, rfl⟩
          have told := (reads.run last).replies paused shed
          exact ⟨told.accounted, told⟩

theorem rebind_idle (idle : AtRest sensor ingress) : AtRest sensor.rebind ingress := by
  refine ⟨idle.handled, idle.jobTx, ?_⟩
  rw [← idle.paused]
  unfold Sensor.rebind bindDataDevice
  dsimp only
  split
  · rfl
  · split <;> rfl

def Rests (next : Option Sensor) (after : Ingress) : Prop :=
  ∃ sensor, AtRest sensor after ∧ (next = some sensor ∨ next = none)

theorem readCompositorEvents_ensures (idle : AtRest sensor ingress) :
    sensor.readCompositorEvents.Ensures (LoopCall.May sha3) Ingress.Accounted Rests ingress := by
  refine quiet_ensures AtRest.accounted AtRest.run (fun answered => answered) idle ?_
  rintro (guarded : Bool) _ idle
  cases guarded with
  | false => exact ⟨sensor, idle, .inl rfl⟩
  | true =>
      refine quiet_ensures AtRest.accounted AtRest.run (fun answered => answered) idle ?_
      rintro (result : Except ReadFailure Unit) _ idle
      cases result with
      | ok _ => exact ⟨sensor, idle, .inl rfl⟩
      | error failure =>
          cases failure with
          | wouldBlock | interrupted => exact ⟨sensor, idle, .inl rfl⟩
          | otherIo | protocol => exact ⟨sensor, idle, .inr rfl⟩

theorem turn_ensures (idle : AtRest sensor ingress) :
    (sensor.turn percentDecode startedAtMs).Ensures (LoopCall.May sha3) Ingress.Accounted Rests
      ingress := by
  refine quiet_ensures AtRest.accounted AtRest.run (fun answered => answered) idle ?_
  rintro (exiting : Bool) _ idle
  cases exiting with
  | true => exact ⟨sensor, idle, .inr rfl⟩
  | false =>
      refine quiet_ensures AtRest.accounted AtRest.run (fun answered => answered) idle ?_
      rintro (events : List WaylandEvent) _ idle
      refine Program.Ensures.bind ((dispatchPending_ensures events idle).mono ?_)
      rintro next _ idle
      refine quiet_ensures AtRest.accounted AtRest.run (fun answered => answered)
        (rebind_idle idle) ?_
      rintro (polled : Option Ready) after idle
      cases polled with
      | none => exact ⟨_, idle, .inl rfl⟩
      | some ready =>
          obtain ⟨readable, hungUp, listener⟩ := ready
          have polls : ∀ {sensor after}, AtRest sensor after →
              Program.Ensures (LoopCall.May sha3) Ingress.Accounted Rests
                (if hungUp then pure none
                  else if readable then sensor.readCompositorEvents else pure (some sensor) :
                  LoopProgram (Option Sensor)) after := by
            intro sensor after idle
            cases hungUp with
            | true => exact ⟨sensor, idle, .inr rfl⟩
            | false =>
                cases readable with
                | true => exact readCompositorEvents_ensures idle
                | false => exact ⟨sensor, idle, .inl rfl⟩
          cases listener with
          | false => exact polls idle
          | true =>
              refine Program.Ensures.bind ((serveCommand_ensures idle).mono ?_)
              exact fun _ _ idle => polls idle

theorem serve_ensures (turns : Nat) (idle : AtRest sensor ingress) :
    (Sensor.serve percentDecode startedAtMs turns sensor).Ensures (LoopCall.May sha3)
      Ingress.Accounted (fun _ after => ∃ sensor, AtRest sensor after) ingress := by
  induction turns generalizing sensor ingress with
  | zero => exact ⟨sensor, idle⟩
  | succ turns ih =>
      refine Program.Ensures.bind ((turn_ensures idle).mono ?_)
      rintro next after ⟨last, idle, rfl | rfl⟩
      · exact ih idle
      · exact ⟨last, idle⟩

theorem start_idle (config : Config) : AtRest (Sensor.newDaemon config) Ingress.start where
  handled :=
    { steady :=
        { permitted :=
            { balanced := Gatehouse.start_balanced _
              limit := rfl
              holding := nofun
              apart := .nil
              permits := rfl }
          offered :=
            { admitted := Intake.start_admitted _ _
              inHand := rfl
              offered := .refl _
              shed := ⟨0, rfl, rfl⟩ } }
      asker := rfl
      books := ⟨.refl _, .refl _, ⟨0, rfl, rfl⟩, nofun⟩
      history := rfl }
  jobTx := rfl
  paused := rfl

theorem startDaemon_ensures (sha3 percentDecode : Bytes → Bytes) (startedAtMs : Int)
    (config : Config) (turns : Nat) :
    (Sensor.startDaemon percentDecode startedAtMs config turns).Ensures (LoopCall.May sha3)
      Ingress.Accounted (fun _ after => ∃ sensor, AtRest sensor after) Ingress.start := by
  refine quiet_ensures AtRest.accounted AtRest.run (fun answered => answered)
    (start_idle config) ?_
  rintro (answered : List WaylandEvent × Bool) _ idle
  refine Program.Ensures.bind ((dispatchPending_ensures answered.1 idle).mono ?_)
  rintro sensor after idle
  cases (answered.2 && (bindDataDevice sensor.state sensor.conn).1) with
  | false => exact ⟨sensor, idle⟩
  | true => exact serve_ensures turns (rebind_idle idle)

end

end Y4p
