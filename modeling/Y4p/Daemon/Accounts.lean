import Y4p.Daemon.Readers

/-!
What the event loop and the reader threads keep between them: the permits alive are the readers',
and every selection that is to be read is read by one thread or counted as shed.
-/

namespace Y4p

open Gauges Lists

namespace Gatehouse

def occupies (house : Gatehouse) (slot : Nat) : Nat :=
  if house.askers[slot]? = some .holding then 1 else 0

structure MovedAt (slot : Nat) (house after : Gatehouse) : Prop where
  elsewhere : ∀ other, other ≠ slot → after.askers[other]? = house.askers[other]?
  length : after.askers.length = house.askers.length
  permits : after.permits + house.occupies slot = house.permits + after.occupies slot

variable {house after : Gatehouse} {slot : Nat}

theorem MovedAt.of_set {asker next : Asker} (found : house.askers[slot]? = some asker)
    (set : after.askers = house.askers.set slot next) : MovedAt slot house after := by
  obtain ⟨before, last, split, rfl, replaced⟩ := split_at found
  obtain ⟨gate, askers⟩ := house
  obtain ⟨afterGate, afterAskers⟩ := after
  dsimp only at split replaced set
  subst split
  rw [replaced] at set
  subst set
  refine ⟨fun other differs => ?_, ?_, ?_⟩
  · dsimp only
    rw [getElem?_swap asker next other, if_neg (Ne.symm differs)]
  · simp
  · unfold occupies
    rw [permits_split, permits_split]
    dsimp only
    rw [getElem?_here, getElem?_here]
    have same : Gatehouse.permits { gate := afterGate, askers := before ++ last } =
        Gatehouse.permits { gate := gate, askers := before ++ last } := rfl
    simp only [Option.some.injEq]
    omega

theorem MovedAt.same (askers : after.askers = house.askers) : MovedAt slot house after := by
  refine ⟨fun other _ => by rw [askers], by rw [askers], ?_⟩
  unfold Gatehouse.permits occupies
  rw [askers]

theorem advance_moved (house : Gatehouse) (slot : Nat) (spurious : Bool) :
    MovedAt slot house (house.step (.advance slot spurious)) := by
  unfold step
  dsimp only
  split
  · rename_i asker found
    exact .of_set found rfl
  · exact .same rfl

theorem drop_moved (house : Gatehouse) (slot : Nat) :
    MovedAt slot house (house.step (.drop slot)) := by
  unfold step
  dsimp only
  split
  · rename_i found
    exact .of_set found rfl
  · exact .same rfl

theorem drop_frees (house : Gatehouse) (slot : Nat) :
    (house.step (.drop slot)).occupies slot = 0 := by
  refine if_neg ?_
  unfold step
  dsimp only
  split
  · rename_i found
    have inside := (List.getElem?_eq_some_iff.mp found).1
    simp [inside]
  · rename_i free
    exact free

theorem advance_holding (spurious : Bool) (holding : house.askers[slot]? = some .holding) :
    (house.step (.advance slot spurious)).askers[slot]? = some .holding := by
  have inside := (List.getElem?_eq_some_iff.mp holding).1
  unfold step
  dsimp only
  rw [holding]
  simp [advance, inside]

theorem MovedAt.occupies_other (moved : MovedAt slot house after) {other : Nat}
    (differs : other ≠ slot) : after.occupies other = house.occupies other := by
  unfold occupies
  rw [moved.elsewhere other differs]

end Gatehouse

namespace Ingress

variable {ingress : Ingress}

structure Permitted (ingress : Ingress) : Prop where
  balanced : ingress.house.gate.Balanced ingress.house.permits
  limit : ingress.house.gate.limit = ingestMaxConcurrentReaders.toNat
  holding : ∀ slot ∈ ingress.held, ingress.house.askers[slot]? = some .holding
  apart : (ingress.asker.toList ++ ingress.held).Nodup
  permits : ingress.house.permits =
    ingress.held.length + ingress.asker.elim 0 ingress.house.occupies

theorem held_set {readers : List ReaderThread} {index : Nat} {reader next : ReaderThread}
    (found : readers[index]? = some reader) (same : next.holds = reader.holds) :
    (readers.set index next).filterMap ReaderThread.holds =
      readers.filterMap ReaderThread.holds := by
  obtain ⟨before, last, rfl, _, set⟩ := split_at found
  rw [set, List.filterMap_append, List.filterMap_append, List.filterMap_cons, List.filterMap_cons,
    same]

theorem Permitted.of_same {after : Ingress} (permitted : ingress.Permitted)
    (house : after.house = ingress.house) (asker : after.asker = ingress.asker)
    (held : after.held = ingress.held) : after.Permitted where
  balanced := house ▸ permitted.balanced
  limit := house ▸ permitted.limit
  holding := by
    rw [held, house]
    exact permitted.holding
  apart := by
    rw [held, asker]
    exact permitted.apart
  permits := by
    rw [held, house, asker]
    exact permitted.permits

theorem Permitted.acquire (permitted : ingress.Permitted) {slot : Nat}
    (asks : ingress.asker = some slot) (spurious : Bool) :
    Permitted { ingress with house := ingress.house.step (.advance slot spurious) } := by
  have moved := ingress.house.advance_moved slot spurious
  obtain ⟨balanced, limit⟩ := Gatehouse.step_balanced (.advance slot spurious) permitted.balanced
  have apart := permitted.apart
  have permits := permitted.permits
  rw [asks] at apart permits
  have free : slot ∉ ingress.held := (List.nodup_cons.mp apart).1
  refine ⟨balanced, limit.trans permitted.limit, fun other member => ?_, permitted.apart, ?_⟩
  · have differs : other ≠ slot := fun same => free (same ▸ member)
    exact (moved.elsewhere other differs).trans (permitted.holding other member)
  · change (ingress.house.step (.advance slot spurious)).permits = ingress.held.length +
      ingress.asker.elim 0 (ingress.house.step (.advance slot spurious)).occupies
    have counted := moved.permits
    rw [asks]
    simp only [Option.elim_some] at permits ⊢
    omega

theorem Permitted.leave (permitted : ingress.Permitted) {index slot : Nat} {selected : Selected}
    {producer : Option Nat}
    (found : ingress.readers[index]? = some ⟨selected, slot, producer, .leave⟩) :
    Permitted
      { ingress with
        house := ingress.house.step (.drop slot)
        readers := ingress.readers.set index ⟨selected, slot, producer, .gone⟩ } := by
  have moved := ingress.house.drop_moved slot
  obtain ⟨balanced, limit⟩ := Gatehouse.step_balanced (.drop slot) permitted.balanced
  obtain ⟨before, last, split, _, set⟩ := split_at found
  have wasHeld : ingress.held =
      before.filterMap ReaderThread.holds ++ slot :: last.filterMap ReaderThread.holds := by
    rw [held, split, List.filterMap_append, List.filterMap_cons]
    rfl
  have isHeld : held
      { ingress with
        house := ingress.house.step (.drop slot)
        readers := ingress.readers.set index ⟨selected, slot, producer, .gone⟩ } =
      before.filterMap ReaderThread.holds ++ last.filterMap ReaderThread.holds := by
    rw [held, set, List.filterMap_append, List.filterMap_cons]
    rfl
  have apart := permitted.apart
  rw [wasHeld, ← List.append_assoc, List.nodup_middle, List.nodup_cons, List.append_assoc] at apart
  have occupied : ingress.house.occupies slot = 1 :=
    if_pos (permitted.holding slot (by simp [wasHeld]))
  have freed := ingress.house.drop_frees slot
  have loop : ingress.asker.elim 0 (ingress.house.step (.drop slot)).occupies =
      ingress.asker.elim 0 ingress.house.occupies := by
    cases asks : ingress.asker with
    | none => rfl
    | some own =>
        have differs : own ≠ slot := by
          rintro rfl
          exact apart.1 (by simp [asks])
        exact moved.occupies_other differs
  refine ⟨balanced, limit.trans permitted.limit, fun other member => ?_, ?_, ?_⟩
  · rw [isHeld] at member
    have differs : other ≠ slot := by
      rintro rfl
      exact apart.1 (List.mem_append_right _ member)
    have before : other ∈ ingress.held := by
      rw [wasHeld]
      exact List.mem_append.mpr
        ((List.mem_append.mp member).imp_right (List.mem_cons_of_mem slot))
    exact (moved.elsewhere other differs).trans (permitted.holding other before)
  · rw [isHeld]
    exact apart.2
  · have permits := permitted.permits
    have counted := moved.permits
    rw [isHeld]
    change (ingress.house.step (.drop slot)).permits =
      _ + ingress.asker.elim 0 (ingress.house.step (.drop slot)).occupies
    rw [loop]
    rw [wasHeld] at permits
    simp only [List.length_append, List.length_cons] at permits ⊢
    omega

theorem Permitted.step (permitted : ingress.Permitted) (action : IngressAction) :
    (ingress.step action).Permitted := by
  unfold Ingress.step
  cases action with
  | acquire spurious =>
      dsimp only
      split
      · rename_i slot asks
        exact permitted.acquire asks spurious
      · exact permitted
  | drain index outcome =>
      dsimp only
      split
      · rename_i selected slot found
        split
        · exact permitted.of_same rfl rfl (held_set found rfl)
        · exact permitted.of_same rfl rfl (held_set found rfl)
      · exact permitted
  | offer index spurious elapsed =>
      dsimp only
      split
      · rename_i selected slot producer found
        split
        · rename_i call placed
          refine permitted.of_same rfl rfl (held_set found ?_)
          unfold ReaderThread.holds
          refine if_neg ?_
          dsimp only
          split
          · exact nofun
          · unfold afterCall
            split <;> exact nofun
        · exact permitted
      · exact permitted
  | record index =>
      dsimp only
      split
      · rename_i selected slot producer found
        exact permitted.of_same rfl rfl (held_set found rfl)
      · exact permitted
  | leave index =>
      dsimp only
      split
      · rename_i selected slot producer found
        exact permitted.leave found
      · exact permitted
  | receive | finish | hangUp | discard => exact permitted.of_same rfl rfl rfl

section
variable {α : Type}

theorem countP_swap {list : List α} {index : Nat} {value : α} (p : α → Bool)
    (found : list[index]? = some value) (next : α) :
    (list.set index next).countP p + (if p value then 1 else 0) =
      list.countP p + if p next then 1 else 0 := by
  obtain ⟨before, last, rfl, _, set⟩ := split_at found
  rw [set, List.countP_append, List.countP_append, List.countP_cons, List.countP_cons]
  omega

end

def isAt (place : ReaderPlace) (reader : ReaderThread) : Bool :=
  reader.place = place

def isShed (fate : Ticket × Enqueue) : Bool :=
  fate.2 = .shed

-- A reader offers its payload once, and counts it if it was shed.
structure Offered (ingress : Ingress) : Prop where
  admitted : ingress.intake.Admitted ingestQueueByteBudget.toNat
  inHand : (Intake.inHand ingress.intake.producers).length = ingress.readers.countP (isAt .offer)
  offered : ingress.intake.offered.Perm
    ((ingress.readers.filterMap ReaderThread.producer).map fun producer => ⟨producer, 0⟩)
  shed : ∃ recorded, ingress.shedQueue = .ofNat recorded ∧
    recorded + ingress.readers.countP (isAt .record) = ingress.intake.dropped.countP isShed

theorem callOf_some {intake : Intake} {producer : Nat} {call : EnqueueCall}
    (placed : callOf intake producer = some call) :
    ∃ calls, intake.producers[producer]? = some { calls := calls, current := some call } := by
  obtain ⟨entry, found, current⟩ := Option.bind_eq_some_iff.mp placed
  obtain ⟨calls, _⟩ := entry
  dsimp only at current
  subst current
  exact ⟨calls, found⟩

theorem advance_dropped (spurious elapsed : Bool) (call : EnqueueCall) (intake : Intake) :
    (intake.advance spurious elapsed call).2.dropped.countP isShed =
      intake.dropped.countP isShed + if afterCall call.place = .record then 1 else 0 := by
  obtain ⟨offer, place⟩ := call
  unfold Intake.advance
  cases place with
  | leave result =>
      dsimp only
      rw [List.countP_append, List.countP_singleton]
      cases result <;> rfl
  | entry | send | poll =>
      change _ = intake.dropped.countP isShed + 0
      dsimp only
      split <;> (try split) <;> rfl
  | load => rfl
  | exchange current =>
      change _ = intake.dropped.countP isShed + 0
      dsimp only
      split <;> (try split) <;> rfl

/-- Only a call that drops its payload returns to count it. -/
theorem advance_returns (spurious elapsed : Bool) (call : EnqueueCall) (intake : Intake)
    (records : afterCall call.place = .record) :
    (intake.advance spurious elapsed call).1 = none := by
  obtain ⟨offer, place⟩ := call
  cases place with
  | leave result => rfl
  | entry | load | exchange _ | send | poll => cases records

theorem call_step (intake : Intake) (announced : Str) (payload : Payload) :
    (intake.step .arrive).step (.call intake.producers.length announced payload) =
      { intake with
        producers := intake.producers ++
          [{ calls := 1
             current := some
              { offer :=
                  { ticket := ⟨intake.producers.length, 0⟩, job := .fromPayload announced payload }
                place := .entry } }]
        offered := intake.offered ++ [⟨intake.producers.length, 0⟩] } := by
  simp [Intake.step]

theorem aside_frame (intake : Intake) {action : IntakeAction}
    (aside : action = .receive ∨ action = .finish ∨ action = .hangUp ∨ action = .discard) :
    (intake.step action).producers = intake.producers ∧
      (intake.step action).offered = intake.offered ∧
        (intake.step action).dropped = intake.dropped := by
  unfold Intake.step
  rcases aside with rfl | rfl | rfl | rfl
  · dsimp only
    split <;> exact ⟨rfl, rfl, rfl⟩
  · dsimp only
    split <;> exact ⟨rfl, rfl, rfl⟩
  · exact ⟨rfl, rfl, rfl⟩
  · dsimp only
    split <;> exact ⟨rfl, rfl, rfl⟩

theorem Offered.aside (offered : ingress.Offered) {action : IntakeAction}
    (aside : action = .receive ∨ action = .finish ∨ action = .hangUp ∨ action = .discard) :
    Offered { ingress with intake := ingress.intake.step action } := by
  obtain ⟨producers, offers, dropped⟩ := aside_frame ingress.intake aside
  refine ⟨offered.admitted.step action, ?_, ?_, ?_⟩
  · rw [producers]
    exact offered.inHand
  · rw [offers]
    exact offered.offered
  · rw [dropped]
    exact offered.shed

theorem Offered.place (offered : ingress.Offered) {index : Nat} {reader next : ReaderThread}
    (found : ingress.readers[index]? = some reader) (same : next.producer = reader.producer)
    (offering : isAt .offer next = isAt .offer reader)
    (recording : isAt .record next = isAt .record reader) :
    Offered { ingress with readers := ingress.readers.set index next } := by
  obtain ⟨before, last, split, _, set⟩ := split_at found
  refine ⟨offered.admitted, ?_, ?_, ?_⟩
  · have swapped := countP_swap (isAt .offer) found next
    rw [offering] at swapped
    exact offered.inHand.trans (Nat.add_right_cancel swapped).symm
  · have producers : (ingress.readers.set index next).filterMap ReaderThread.producer =
        ingress.readers.filterMap ReaderThread.producer := by
      rw [set, split, List.filterMap_append, List.filterMap_append, List.filterMap_cons,
        List.filterMap_cons, same]
    change ingress.intake.offered.Perm (List.map _
      ((ingress.readers.set index next).filterMap ReaderThread.producer))
    rw [producers]
    exact offered.offered
  · have swapped := countP_swap (isAt .record) found next
    rw [recording] at swapped
    change ∃ recorded, _ ∧ recorded + (ingress.readers.set index next).countP _ = _
    rw [Nat.add_right_cancel swapped]
    exact offered.shed

theorem Offered.begins (offered : ingress.Offered) {index slot : Nat} {selected : Selected}
    (found : ingress.readers[index]? = some ⟨selected, slot, none, .drain⟩) (announced : Str)
    (payload : Payload) :
    Offered
      { ingress with
        readers := ingress.readers.set index
          ⟨selected, slot, some ingress.intake.producers.length, .offer⟩
        intake := (ingress.intake.step .arrive).step
          (.call ingress.intake.producers.length announced payload) } := by
  have admitted := (offered.admitted.step .arrive).step
    (.call ingress.intake.producers.length announced payload)
  obtain ⟨before, last, split, _, set⟩ := split_at found
  have counted := fun place =>
    countP_swap (isAt place) found ⟨selected, slot, some ingress.intake.producers.length, .offer⟩
  refine ⟨admitted, ?_, ?_, ?_⟩
  · have one := counted .offer
    have was := offered.inHand
    dsimp only
    rw [call_step]
    dsimp only
    rw [Intake.inHand, List.filterMap_append, List.length_append]
    change (Intake.inHand ingress.intake.producers).length + 1 = _
    change _ + 0 = _ + 1 at one
    omega
  · dsimp only
    rw [call_step, set, List.filterMap_append, List.filterMap_cons, List.map_append]
    have was := offered.offered
    rw [split, List.filterMap_append, List.filterMap_cons, List.map_append] at was
    dsimp only at was ⊢
    rw [List.map_cons]
    exact (List.perm_append_singleton _ _).trans
      ((was.cons _).trans List.perm_middle.symm)
  · obtain ⟨recorded, queue, total⟩ := offered.shed
    have same := counted .record
    refine ⟨recorded, queue, ?_⟩
    dsimp only
    rw [call_step]
    change _ + 0 = _ + 0 at same
    dsimp only
    omega

theorem advance_step {intake : Intake} {before last : List Producer} {calls producer : Nat}
    {call : EnqueueCall}
    (there : intake.producers[producer]? = some { calls := calls, current := some call })
    (set : ∀ next, intake.producers.set producer next = before ++ next :: last)
    (spurious elapsed : Bool) :
    intake.step (.advance producer spurious elapsed) =
      { (intake.advance spurious elapsed call).2 with
        producers := before ++
          { calls := calls, current := (intake.advance spurious elapsed call).1 } :: last } := by
  simp only [Intake.step, there, Intake.advance_producers, set]

theorem afterCall_returned (place : Place) : afterCall place ≠ .offer := by
  unfold afterCall
  split <;> exact nofun

theorem Offered.advances (offered : ingress.Offered) {index slot producer : Nat} {selected : Selected}
    {call : EnqueueCall}
    (found : ingress.readers[index]? = some ⟨selected, slot, some producer, .offer⟩)
    (placed : callOf ingress.intake producer = some call) (spurious elapsed : Bool) :
    let intake := ingress.intake.step (.advance producer spurious elapsed)
    Offered
      { ingress with
        readers := ingress.readers.set index
          ⟨selected, slot, some producer,
            if (callOf intake producer).isSome then .offer else afterCall call.place⟩
        intake := intake } := by
  intro intake
  have admitted := offered.admitted.step (.advance producer spurious elapsed)
  obtain ⟨calls, there⟩ := callOf_some placed
  obtain ⟨before, last, split, here, set⟩ := split_at there
  have stepped : intake = _ := advance_step there set spurious elapsed
  have frame := (Intake.advance_frame spurious elapsed call ingress.intake).1
  have dropped := advance_dropped spurious elapsed call ingress.intake
  have returns := advance_returns spurious elapsed call ingress.intake
  have current : callOf intake producer = (ingress.intake.advance spurious elapsed call).1 := by
    rw [stepped, callOf, ← here]
    dsimp only
    rw [getElem?_here, Option.bind_some]
  rw [current]
  have counted := fun place next => countP_swap (isAt place) found ⟨selected, slot, some producer, next⟩
  have total := offered.inHand
  rw [split, Intake.inHand_split, List.length_append, List.length_append] at total
  obtain ⟨recorded, queue, shed⟩ := offered.shed
  refine ⟨admitted, ?_, ?_, recorded, queue, ?_⟩
  · dsimp only
    rw [stepped, Intake.inHand_split, List.length_append, List.length_append]
    change _ + 1 + _ = _ at total
    cases (ingress.intake.advance spurious elapsed call).1 with
    | some next =>
        have one := counted .offer .offer
        change _ + 1 = _ + 1 at one
        change _ + 1 + _ =
          List.countP _ (ingress.readers.set index ⟨selected, slot, some producer, .offer⟩)
        omega
    | none =>
        have one := counted .offer (afterCall call.place)
        have done : isAt .offer ⟨selected, slot, some producer, afterCall call.place⟩ = false :=
          decide_eq_false (afterCall_returned call.place)
        rw [done] at one
        change _ + 1 = _ + 0 at one
        change _ + 0 + _ =
          List.countP _
            (ingress.readers.set index ⟨selected, slot, some producer, afterCall call.place⟩)
        omega
  · have was := offered.offered
    obtain ⟨front, back, readers, _, setReader⟩ := split_at found
    rw [readers, List.filterMap_append, List.filterMap_cons] at was
    dsimp only at was ⊢
    rw [setReader, List.filterMap_append, List.filterMap_cons, stepped]
    dsimp only
    rw [frame]
    exact was
  · dsimp only
    rw [stepped]
    dsimp only
    rw [dropped]
    cases next : (ingress.intake.advance spurious elapsed call).1 with
    | some later =>
        have goesOn : afterCall call.place ≠ .record := fun records => by
          rw [returns records] at next
          cases next
        have one := counted .record .offer
        change _ + 0 = _ + 0 at one
        rw [if_neg goesOn]
        change _ + List.countP _ (ingress.readers.set index ⟨selected, slot, some producer, .offer⟩) = _
        omega
    | none =>
        have one := counted .record (afterCall call.place)
        change _ + 0 = _ + (if decide (afterCall call.place = .record) = true then 1 else 0) at one
        simp only [decide_eq_true_eq] at one
        change _ + List.countP _
          (ingress.readers.set index ⟨selected, slot, some producer, afterCall call.place⟩) = _
        omega

theorem Offered.records (offered : ingress.Offered) {index slot : Nat} {selected : Selected}
    {producer : Option Nat}
    (found : ingress.readers[index]? = some ⟨selected, slot, producer, .record⟩) :
    Offered
      { ingress with
        readers := ingress.readers.set index ⟨selected, slot, producer, .leave⟩
        shedQueue := ingress.shedQueue + 1 } := by
  have counted := fun place => countP_swap (isAt place) found ⟨selected, slot, producer, .leave⟩
  obtain ⟨before, last, split, _, set⟩ := split_at found
  obtain ⟨recorded, queue, total⟩ := offered.shed
  refine ⟨offered.admitted, ?_, ?_, recorded + 1, ?_, ?_⟩
  · exact offered.inHand.trans (counted .offer).symm
  · have was := offered.offered
    rw [split, List.filterMap_append, List.filterMap_cons] at was
    dsimp only at was ⊢
    rw [set, List.filterMap_append, List.filterMap_cons]
    exact was
  · dsimp only
    rw [queue, UInt64.ofNat_add]
    rfl
  · have one := counted .record
    change _ + 1 = _ + 0 at one
    dsimp only
    omega

theorem Offered.step (offered : ingress.Offered) (action : IngressAction) :
    (ingress.step action).Offered := by
  unfold Ingress.step
  cases action with
  | acquire spurious =>
      dsimp only
      split
      · exact ⟨offered.admitted, offered.inHand, offered.offered, offered.shed⟩
      · exact offered
  | drain index outcome =>
      dsimp only
      split
      · rename_i selected slot found
        split
        · exact offered.place found rfl rfl rfl
        · exact offered.begins found _ _
      · exact offered
  | offer index spurious elapsed =>
      dsimp only
      split
      · rename_i selected slot producer found
        split
        · rename_i call placed
          exact offered.advances found placed spurious elapsed
        · exact offered
      · exact offered
  | record index =>
      dsimp only
      split
      · rename_i selected slot producer found
        exact offered.records found
      · exact offered
  | leave index =>
      dsimp only
      split
      · rename_i selected slot producer found
        have placed : Offered
            { ingress with readers := ingress.readers.set index ⟨selected, slot, producer, .gone⟩ } :=
          offered.place found rfl rfl rfl
        exact ⟨placed.admitted, placed.inHand, placed.offered, placed.shed⟩
      · exact offered
  | receive => exact offered.aside (.inl rfl)
  | finish => exact offered.aside (.inr (.inl rfl))
  | hangUp => exact offered.aside (.inr (.inr (.inl rfl)))
  | discard => exact offered.aside (.inr (.inr (.inr rfl)))

structure SameBooks (ingress after : Ingress) : Prop where
  started : after.readers.map ReaderThread.selected = ingress.readers.map ReaderThread.selected
  shedReaders : after.shedReaders = ingress.shedReaders
  history : after.history = ingress.history
  received : after.received = ingress.received
  replies : after.replies = ingress.replies

theorem SameBooks.refl (ingress : Ingress) : SameBooks ingress ingress :=
  ⟨rfl, rfl, rfl, rfl, rfl⟩

theorem SameBooks.trans {middle last : Ingress} (first : SameBooks ingress middle)
    (second : SameBooks middle last) : SameBooks ingress last where
  started := second.started.trans first.started
  shedReaders := second.shedReaders.trans first.shedReaders
  history := second.history.trans first.history
  received := second.received.trans first.received
  replies := second.replies.trans first.replies

theorem SameBooks.of_readers {intake : Intake} {house : Gatehouse} {shedQueue : UInt64} {index : Nat}
    {reader next : ReaderThread} (found : ingress.readers[index]? = some reader)
    (same : next.selected = reader.selected) :
    SameBooks ingress
      { ingress with
        house := house
        readers := ingress.readers.set index next
        intake := intake
        shedQueue := shedQueue } := by
  obtain ⟨before, last, split, _, set⟩ := split_at found
  refine ⟨?_, rfl, rfl, rfl, rfl⟩
  dsimp only
  rw [set, split, List.map_append, List.map_append, List.map_cons, List.map_cons, same]

theorem step_books (ingress : Ingress) (action : IngressAction) :
    SameBooks ingress (ingress.step action) := by
  unfold Ingress.step
  cases action with
  | acquire spurious =>
      dsimp only
      split
      · exact ⟨rfl, rfl, rfl, rfl, rfl⟩
      · exact .refl ingress
  | drain index outcome =>
      dsimp only
      split
      · rename_i selected slot found
        split
        · exact .of_readers found rfl
        · exact .of_readers found rfl
      · exact .refl ingress
  | offer index spurious elapsed =>
      dsimp only
      split
      · rename_i selected slot producer found
        split
        · exact .of_readers found rfl
        · exact .refl ingress
      · exact .refl ingress
  | record index | leave index =>
      dsimp only
      split
      · rename_i selected slot producer found
        exact .of_readers found rfl
      · exact .refl ingress
  | receive | finish | hangUp | discard => exact ⟨rfl, rfl, rfl, rfl, rfl⟩

theorem step_asker (ingress : Ingress) (action : IngressAction) :
    (ingress.step action).asker = ingress.asker := by
  unfold Ingress.step
  cases action with
  | drain index outcome =>
      dsimp only
      split
      · split <;> rfl
      · rfl
  | offer index spurious elapsed =>
      dsimp only
      split
      · split <;> rfl
      · rfl
  | acquire | record | leave =>
      dsimp only
      split <;> rfl
  | receive | finish | hangUp | discard => rfl

theorem run_books (ingress : Ingress) (actions : List IngressAction) :
    SameBooks ingress (ingress.run actions) := by
  induction actions generalizing ingress with
  | nil => exact .refl ingress
  | cons action rest ih => exact (step_books ingress action).trans (ih _)

theorem run_asker (ingress : Ingress) (actions : List IngressAction) :
    (ingress.run actions).asker = ingress.asker := by
  induction actions generalizing ingress with
  | nil => rfl
  | cons action rest ih => exact (ih _).trans (step_asker ingress action)

structure Steady (ingress : Ingress) : Prop where
  permitted : ingress.Permitted
  offered : ingress.Offered

def HasPermit (ingress : Ingress) : Prop :=
  ∃ slot, ingress.asker = some slot ∧ ingress.house.askers[slot]? = some .holding

theorem Steady.step (steady : ingress.Steady) (action : IngressAction) :
    (ingress.step action).Steady :=
  ⟨steady.permitted.step action, steady.offered.step action⟩

theorem Steady.run (steady : ingress.Steady) (actions : List IngressAction) :
    (ingress.run actions).Steady := by
  induction actions generalizing ingress with
  | nil => exact steady
  | cons action rest ih => exact ih (steady.step action)

theorem HasPermit.step (has : ingress.HasPermit) (permitted : ingress.Permitted)
    (action : IngressAction) : (ingress.step action).HasPermit := by
  obtain ⟨slot, asks, holding⟩ := has
  refine ⟨slot, (step_asker ingress action).trans asks, ?_⟩
  unfold Ingress.step
  cases action with
  | acquire spurious =>
      dsimp only
      rw [asks]
      exact Gatehouse.advance_holding spurious holding
  | drain index outcome =>
      dsimp only
      split
      · split <;> exact holding
      · exact holding
  | offer index spurious elapsed =>
      dsimp only
      split
      · split <;> exact holding
      · exact holding
  | record index =>
      dsimp only
      split <;> exact holding
  | leave index =>
      dsimp only
      split
      · rename_i selected other producer found
        have member : other ∈ ingress.held :=
          List.mem_filterMap.mpr ⟨_, List.mem_of_getElem? found, rfl⟩
        have apart := permitted.apart
        rw [asks] at apart
        have differs : slot ≠ other := by
          rintro rfl
          exact (List.nodup_cons.mp apart).1 member
        exact ((ingress.house.drop_moved other).elsewhere slot differs).trans holding
      · exact holding
  | receive | finish | hangUp | discard => exact holding

theorem HasPermit.run (has : ingress.HasPermit) (steady : ingress.Steady)
    (actions : List IngressAction) : (ingress.run actions).HasPermit := by
  induction actions generalizing ingress with
  | nil => exact has
  | cons action rest ih => exact ih (has.step steady.permitted action) (steady.step action)

end Ingress

end Y4p
