import Y4p.Lib.Data
import Y4p.Wayland.Ingest

/-!
What the bounds of the ingestion path guarantee over every interleaving: the permits alive
add up to the counters, and every offered job has one fate.
-/

namespace Y4p

open Gauges Lists

def TicketedJob.Paid (offer : TicketedJob) : Prop :=
  offer.job.permit = some { bytes := offer.job.accountedBytes }

def TicketedJob.Settled (offer : TicketedJob) : Prop :=
  offer.job.permit = none ∨ offer.Paid

def EnqueueCall.Sound (call : EnqueueCall) : Prop :=
  match call.place with
  | .entry | .load | .exchange _ => call.offer.job.permit = none
  | .send => call.offer.Paid
  | .poll => call.offer.Settled
  | .leave result => result ≠ .queued ∧ call.offer.Settled

theorem EnqueueCall.Sound.settled {call : EnqueueCall} (sound : call.Sound) :
    call.offer.Settled := by
  unfold EnqueueCall.Sound at sound
  cases placed : call.place <;> rw [placed] at sound
  case entry => exact .inl sound
  case load => exact .inl sound
  case exchange => exact .inl sound
  case send => exact .inr sound
  case poll => exact sound
  case leave => exact sound.2

theorem EnqueueCall.again_sound {call : EnqueueCall} (settled : call.offer.Settled) :
    call.again.Sound := by
  unfold EnqueueCall.again
  rcases settled with unpaid | paid
  · rw [unpaid]
    exact unpaid
  · rw [paid]
    exact paid

theorem TicketedJob.withPermit_paid (offer : TicketedJob) : offer.withPermit.Paid := rfl

theorem ByteBudget.next_some {bytes current next : Nat} {budget : ByteBudget}
    (found : budget.next bytes current = some next) :
    next = current + bytes ∧ next ≤ budget.limit := by
  obtain ⟨added, fits⟩ := Option.filter_eq_some_iff.mp found
  exact ⟨Gauge.checkedAdd_some added, of_decide_eq_true fits⟩

theorem TicketedJob.reserved_unpaid {offer : TicketedJob} (unpaid : offer.job.permit = none) :
    offer.reserved = 0 := by
  unfold TicketedJob.reserved
  rw [unpaid]

@[simp] theorem TicketedJob.reserved_withPermit (offer : TicketedJob) :
    offer.withPermit.reserved = offer.job.accountedBytes := rfl

theorem TicketedJob.release_limit (offer : TicketedJob) (budget : ByteBudget) :
    (offer.release budget).limit = budget.limit := by
  unfold TicketedJob.release
  cases offer.job.permit <;> rfl

theorem TicketedJob.release_balanced {offer : TicketedJob} {budget : ByteBudget} {total rest : Nat}
    (balanced : budget.Balanced total) (held : total = offer.reserved + rest) :
    (offer.release budget).Balanced rest := by
  unfold TicketedJob.release
  unfold TicketedJob.reserved at held
  cases carried : offer.job.permit with
  | none =>
      rw [carried] at held
      rw [held, Nat.zero_add] at balanced
      exact balanced
  | some permit =>
      rw [carried, Nat.add_comm] at held
      exact balanced.fetchSub held

def IntakeAction.isCall : IntakeAction → Bool
  | .call .. => true
  | _ => false

def IntakeAction.ofWorker : IntakeAction → Bool
  | .receive | .finish => true
  | _ => false

namespace Intake

inductive Moves (intake : Intake) : Intake → Prop
  | rests : Moves intake intake
  | arrives :
      Moves intake
        { intake with producers := intake.producers ++ [{ calls := 0, current := none }] }
  | offers {before after : List Producer} {calls : Nat} {offer : TicketedJob}
      (found : intake.producers = before ++ { calls := calls, current := none } :: after)
      (ticket : offer.ticket = { producer := before.length, number := calls })
      (unpaid : offer.job.permit = none) :
      Moves intake
        { intake with
          producers := before ++
            { calls := calls + 1, current := some { offer := offer, place := .entry } } :: after
          offered := intake.offered ++ [offer.ticket] }
  | stays {before after : List Producer} {calls : Nat} {call : EnqueueCall} {place : Place}
      (found : intake.producers = before ++ { calls := calls, current := some call } :: after)
      (sound : EnqueueCall.Sound { call with place := place }) :
      Moves intake
        { intake with
          producers := before ++
            { calls := calls, current := some { call with place := place } } :: after }
  | reserves {before after : List Producer} {calls next : Nat} {call : EnqueueCall}
      (found : intake.producers = before ++ { calls := calls, current := some call } :: after)
      (unpaid : call.offer.job.permit = none)
      (sum : next = intake.budget.used + call.offer.job.accountedBytes)
      (fits : next ≤ intake.budget.limit) :
      Moves intake
        { intake with
          budget := { intake.budget with used := next }
          producers := before ++
            { calls := calls
              current := some { offer := call.offer.withPermit, place := .send } } :: after }
  | queues {before after : List Producer} {calls : Nat} {call : EnqueueCall}
      (found : intake.producers = before ++ { calls := calls, current := some call } :: after)
      (paid : call.offer.Paid) (listening : intake.receiver = true)
      (room : intake.queue.length < intake.capacity) :
      Moves intake
        { intake with
          queue := intake.queue ++ [call.offer]
          queued := intake.queued ++ [call.offer.ticket]
          producers := before ++ { calls := calls, current := none } :: after }
  | drops {before after : List Producer} {calls : Nat} {call : EnqueueCall} {result : Enqueue}
      (found : intake.producers = before ++ { calls := calls, current := some call } :: after)
      (refused : result ≠ .queued) :
      Moves intake
        { intake with
          budget := call.offer.release intake.budget
          files := call.offer.unlink intake.files
          dropped := intake.dropped ++ [(call.offer.ticket, result)]
          producers := before ++ { calls := calls, current := none } :: after }
  | receives {offer : TicketedJob} {rest : List TicketedJob}
      (listening : intake.receiver = true) (free : intake.worker = none)
      (found : intake.queue = offer :: rest) :
      Moves intake
        { intake with
          queue := rest
          worker := some offer
          received := intake.received ++ [offer.ticket] }
  | finishes {offer : TicketedJob} (found : intake.worker = some offer) :
      Moves intake { intake with budget := offer.release intake.budget, worker := none }
  | hangsUp : Moves intake { intake with receiver := false }
  | discards {offer : TicketedJob} {rest : List TicketedJob}
      (gone : intake.receiver = false) (found : intake.queue = offer :: rest) :
      Moves intake
        { intake with
          budget := offer.release intake.budget
          files := offer.unlink intake.files
          queue := rest
          discarded := intake.discarded ++ [offer.ticket] }

variable {intake : Intake}

theorem advance_producers (spurious elapsed : Bool) (call : EnqueueCall) (intake : Intake) :
    (intake.advance spurious elapsed call).2.producers = intake.producers := by
  unfold advance
  dsimp only
  split <;> (try split) <;> (try split) <;> rfl

theorem advance_moves {before after : List Producer} {calls : Nat} {call : EnqueueCall}
    (found : intake.producers = before ++ { calls := calls, current := some call } :: after)
    (sound : call.Sound) (spurious elapsed : Bool) :
    Moves intake
      { (intake.advance spurious elapsed call).2 with
        producers := before ++
          { calls := calls, current := (intake.advance spurious elapsed call).1 } :: after } := by
  obtain ⟨offer, place⟩ := call
  cases place with
  | entry =>
      unfold advance
      dsimp only
      by_cases oversized : intake.budget.limit < offer.job.accountedBytes
      · rw [if_pos oversized]
        exact .stays found ⟨nofun, .inl sound⟩
      · rw [if_neg oversized]
        exact .stays found (EnqueueCall.again_sound (.inl sound))
  | load => exact .stays found sound
  | exchange current =>
      unfold advance
      dsimp only
      cases room : intake.budget.next offer.job.accountedBytes current with
      | none => exact .stays found (.inl sound)
      | some next =>
          obtain ⟨sum, fits⟩ := ByteBudget.next_some room
          rcases Gauge.exchange_cases current next spurious intake.budget with
            ⟨unmoved, exchanged⟩ | failed
          · dsimp only
            rw [exchanged]
            exact .reserves found sound (by rw [unmoved]; exact sum) fits
          · dsimp only
            rw [failed]
            exact .stays found sound
  | send =>
      unfold advance
      dsimp only
      by_cases gone : intake.receiver = false
      · rw [if_pos gone]
        exact .stays found ⟨nofun, .inr sound⟩
      · rw [if_neg gone]
        by_cases room : intake.queue.length < intake.capacity
        · rw [if_pos room]
          exact .queues found sound (eq_true_of_ne_false gone) room
        · rw [if_neg room]
          exact .stays found (.inr sound)
  | poll =>
      unfold advance
      dsimp only
      cases elapsed with
      | true => exact .stays found ⟨nofun, sound⟩
      | false => exact .stays found (EnqueueCall.again_sound sound)
  | leave result => exact .drops found sound.1

def AllSound (intake : Intake) : Prop :=
  ∀ producer ∈ intake.producers, ∀ call, producer.current = some call → call.Sound

theorem step_moves (sound : intake.AllSound) (action : IntakeAction) :
    Moves intake (intake.step action) := by
  unfold step
  cases action with
  | arrive => exact .arrives
  | call index mime payload =>
      dsimp only
      split
      · rename_i calls found
        obtain ⟨before, after, split, rfl, set⟩ := split_at found
        rw [set]
        exact .offers split rfl rfl
      · exact .rests
  | advance index spurious elapsed =>
      dsimp only
      split
      · rename_i calls call found
        obtain ⟨before, after, split, rfl, set⟩ := split_at found
        have member := List.mem_of_getElem? found
        have same : (intake.advance spurious elapsed call).2.producers = intake.producers :=
          advance_producers spurious elapsed call intake
        rw [same, set]
        exact advance_moves split (sound _ member call rfl) spurious elapsed
      · exact .rests
  | receive =>
      dsimp only
      split
      · rename_i offer rest listening free found
        exact .receives listening free found
      · exact .rests
  | finish =>
      dsimp only
      split
      · rename_i offer found
        exact .finishes found
      · exact .rests
  | hangUp => exact .hangsUp
  | discard =>
      dsimp only
      split
      · rename_i offer rest gone found
        exact .discards gone found
      · exact .rests

theorem advance_frame (spurious elapsed : Bool) (call : EnqueueCall) (intake : Intake) :
    (intake.advance spurious elapsed call).2.offered = intake.offered ∧
      (intake.advance spurious elapsed call).2.received = intake.received ∧
        (intake.advance spurious elapsed call).2.worker = intake.worker := by
  unfold advance
  dsimp only
  split <;> (try split) <;> (try split) <;> exact ⟨rfl, rfl, rfl⟩

theorem step_offered {action : IntakeAction} (silent : action.isCall = false) (intake : Intake) :
    (intake.step action).offered = intake.offered := by
  unfold step
  cases action with
  | call index mime payload => cases silent
  | advance index spurious elapsed =>
      dsimp only
      split
      · exact (advance_frame _ _ _ _).1
      · rfl
  | arrive => rfl
  | hangUp => rfl
  | receive =>
      dsimp only
      split <;> rfl
  | finish =>
      dsimp only
      split <;> rfl
  | discard =>
      dsimp only
      split <;> rfl

theorem step_worker {action : IntakeAction} (aside : action.ofWorker = false) (intake : Intake) :
    (intake.step action).received = intake.received ∧
      (intake.step action).worker = intake.worker := by
  unfold step
  cases action with
  | receive => cases aside
  | finish => cases aside
  | advance index spurious elapsed =>
      dsimp only
      split
      · exact (advance_frame _ _ _ _).2
      · exact ⟨rfl, rfl⟩
  | arrive => exact ⟨rfl, rfl⟩
  | hangUp => exact ⟨rfl, rfl⟩
  | call index mime payload =>
      dsimp only
      split <;> exact ⟨rfl, rfl⟩
  | discard =>
      dsimp only
      split <;> exact ⟨rfl, rfl⟩

def reservedBytes (offers : List TicketedJob) : Nat :=
  (offers.map TicketedJob.reserved).sum

theorem inHand_split (before after : List Producer) (producer : Producer) :
    inHand (before ++ producer :: after) =
      inHand before ++ (producer.current.map EnqueueCall.offer).toList ++ inHand after := by
  unfold inHand
  rw [List.filterMap_append, List.filterMap_cons]
  cases producer.current <;> simp

@[simp] theorem reservedBytes_nil : reservedBytes [] = 0 := rfl

@[simp] theorem reservedBytes_cons (offer : TicketedJob) (rest : List TicketedJob) :
    reservedBytes (offer :: rest) = offer.reserved + reservedBytes rest :=
  List.sum_cons

@[simp] theorem reservedBytes_append (first second : List TicketedJob) :
    reservedBytes (first ++ second) = reservedBytes first + reservedBytes second := by
  unfold reservedBytes
  rw [List.map_append, List.sum_append]

theorem moves_sound {after : Intake} (moved : Moves intake after) (sound : intake.AllSound) :
    after.AllSound := by
  -- Whatever one producer turns into, the others stay.
  have replaced : ∀ {first last : List Producer} {producer next : Producer},
      intake.producers = first ++ producer :: last →
      (∀ call, next.current = some call → call.Sound) →
      ∀ other ∈ first ++ next :: last, ∀ call, other.current = some call → call.Sound := by
    intro first last producer next found fine other member call held
    rcases List.mem_append.mp member with early | late
    · exact sound other (found ▸ List.mem_append_left _ early) call held
    · rcases List.mem_cons.mp late with rfl | late
      · exact fine call held
      · refine sound other ?_ call held
        rw [found]
        exact List.mem_append_right _ (List.mem_cons_of_mem _ late)
  cases moved with
  | rests => exact sound
  | arrives =>
      intro other member call held
      rcases List.mem_append.mp member with old | new
      · exact sound other old call held
      · rw [List.mem_singleton] at new
        rw [new] at held
        cases held
  | offers found _ unpaid =>
      refine replaced found fun call held => ?_
      cases held
      exact unpaid
  | stays found fine =>
      refine replaced found fun call held => ?_
      cases held
      exact fine
  | reserves found =>
      refine replaced found fun call held => ?_
      cases held
      exact TicketedJob.withPermit_paid _
  | queues found => exact replaced found nofun
  | drops found => exact replaced found nofun
  | receives => exact sound
  | finishes => exact sound
  | hangsUp => exact sound
  | discards => exact sound

theorem moves_balanced {after : Intake} (moved : Moves intake after)
    (balanced : intake.budget.Balanced (reservedBytes intake.live)) :
    after.budget.Balanced (reservedBytes after.live) := by
  unfold live waiting at balanced ⊢
  cases moved with
  | rests => exact balanced
  | arrives => simpa [inHand_split, inHand] using balanced
  | offers found _ unpaid =>
      rw [found] at balanced
      simpa [inHand_split, TicketedJob.reserved_unpaid unpaid] using balanced
  | stays found =>
      rw [found] at balanced
      simpa [inHand_split] using balanced
  | @reserves before last calls next call found unpaid sum fits =>
      rw [found] at balanced
      have raised := balanced.raise sum fits
      simp only [inHand_split, reservedBytes_append, Option.map_some, Option.toList_some,
        reservedBytes_cons, reservedBytes_nil, TicketedJob.reserved_withPermit,
        TicketedJob.reserved_unpaid unpaid] at raised ⊢
      convert raised using 1
      omega
  | queues found =>
      rw [found] at balanced
      simp only [inHand_split, reservedBytes_append, Option.map_some, Option.map_none,
        Option.toList_some, Option.toList_none, reservedBytes_cons, reservedBytes_nil] at balanced ⊢
      convert balanced using 1
      omega
  | drops found =>
      rw [found] at balanced
      refine TicketedJob.release_balanced balanced ?_
      simp only [inHand_split, reservedBytes_append, Option.map_some, Option.map_none,
        Option.toList_some, Option.toList_none, reservedBytes_cons, reservedBytes_nil]
      omega
  | receives _ free found =>
      rw [free, found] at balanced
      simp only [reservedBytes_append, Option.toList_some, Option.toList_none, reservedBytes_cons,
        reservedBytes_nil] at balanced ⊢
      convert balanced using 1
      omega
  | finishes found =>
      rw [found] at balanced
      refine TicketedJob.release_balanced balanced ?_
      simp only [reservedBytes_append, Option.toList_some, Option.toList_none, reservedBytes_cons,
        reservedBytes_nil]
      omega
  | hangsUp => exact balanced
  | discards _ found =>
      rw [found] at balanced
      refine TicketedJob.release_balanced balanced ?_
      simp only [reservedBytes_append, reservedBytes_cons]
      omega

def AllPaid (intake : Intake) : Prop :=
  ∀ offer ∈ intake.queue, offer.Paid

theorem moves_paid {after : Intake} (moved : Moves intake after) (paid : intake.AllPaid) :
    after.AllPaid := by
  cases moved with
  | queues _ new =>
      intro offer member
      rcases List.mem_append.mp member with old | last
      · exact paid offer old
      · rw [List.mem_singleton] at last
        rw [last]
        exact new
  | receives _ _ found => exact fun offer member => paid offer (found ▸ List.mem_cons_of_mem _ member)
  | discards _ found => exact fun offer member => paid offer (found ▸ List.mem_cons_of_mem _ member)
  | _ => exact paid

structure InOrder (intake : Intake) : Prop where
  arrival : intake.queued =
    intake.received ++ intake.discarded ++ intake.queue.map TicketedJob.ticket
  kept : intake.receiver = true → intake.discarded = []

theorem moves_inOrder {after : Intake} (moved : Moves intake after) (ordered : intake.InOrder) :
    after.InOrder := by
  obtain ⟨arrival, kept⟩ := ordered
  cases moved with
  | queues =>
      refine ⟨?_, kept⟩
      dsimp only
      rw [arrival, List.map_append, List.append_assoc _ (intake.queue.map _)]
      rfl
  | receives listening _ found =>
      refine ⟨?_, kept⟩
      dsimp only
      rw [arrival, kept listening, found]
      simp
  | hangsUp => exact ⟨arrival, nofun⟩
  | discards gone found =>
      refine ⟨?_, fun listening => absurd (gone.symm.trans listening) nofun⟩
      dsimp only
      rw [arrival, found]
      simp
  | _ => exact ⟨arrival, kept⟩

def Accounts (intake : Intake) : Prop :=
  intake.offered.Perm
    ((inHand intake.producers).map TicketedJob.ticket ++ intake.queued ++
      intake.dropped.map Prod.fst)

theorem moves_accounts {after : Intake} (moved : Moves intake after)
    (accounts : intake.Accounts) : after.Accounts := by
  unfold Accounts at accounts ⊢
  rw [List.perm_iff_count] at accounts ⊢
  intro ticket
  have counted := accounts ticket
  cases moved with
  | arrives => simpa [inHand_split, inHand] using counted
  | offers found =>
      rw [found] at counted
      simp only [inHand_split, List.map_append, List.count_append, Option.map_none,
        Option.toList_none, Option.map_some, Option.toList_some, List.map_cons, List.map_nil,
        List.count_nil, List.count_cons] at counted ⊢
      omega
  | stays found =>
      rw [found] at counted
      simpa [inHand_split] using counted
  | reserves found =>
      rw [found] at counted
      simpa [inHand_split, TicketedJob.withPermit] using counted
  | queues found =>
      rw [found] at counted
      simp only [inHand_split, List.map_append, List.count_append, Option.map_none,
        Option.toList_none, Option.map_some, Option.toList_some, List.map_cons, List.map_nil,
        List.count_nil, List.count_cons] at counted ⊢
      omega
  | drops found =>
      rw [found] at counted
      simp only [inHand_split, List.map_append, List.count_append, Option.map_none,
        Option.toList_none, Option.map_some, Option.toList_some, List.map_cons, List.map_nil,
        List.count_nil, List.count_cons] at counted ⊢
      omega
  | _ => exact counted

def AllRefused (intake : Intake) : Prop :=
  ∀ fate ∈ intake.dropped, fate.2 ≠ .queued

theorem moves_refused {after : Intake} (moved : Moves intake after)
    (refused : intake.AllRefused) : after.AllRefused := by
  cases moved with
  | drops _ new =>
      intro fate member
      rcases List.mem_append.mp member with old | last
      · exact refused fate old
      · rw [List.mem_singleton] at last
        rw [last]
        exact new
  | _ => exact refused

structure Numbered (producers : List Producer) (offered : List Ticket) : Prop where
  last : ∀ (index : Nat) (producer : Producer) (call : EnqueueCall),
    producers[index]? = some producer → producer.current = some call →
      call.offer.ticket.producer = index ∧ call.offer.ticket.number + 1 = producer.calls
  given : ∀ ticket ∈ offered, ∃ producer,
    producers[ticket.producer]? = some producer ∧ ticket.number < producer.calls
  once : offered.Nodup

theorem Numbered.nobody : Numbered [] [] where
  last := by
    intro index producer call there
    cases List.mem_of_getElem? there
  given := nofun
  once := .nil

theorem Numbered.shown {before last : List Producer} {calls : Nat} {call : EnqueueCall}
    {offered : List Ticket}
    (numbered : Numbered (before ++ { calls := calls, current := some call } :: last) offered) :
    call.offer.ticket.producer = before.length ∧ call.offer.ticket.number + 1 = calls :=
  numbered.last _ _ _ (getElem?_here before last _) rfl

theorem Numbered.swap {before last : List Producer} {producer next : Producer}
    {offered : List Ticket} (numbered : Numbered (before ++ producer :: last) offered)
    (grown : producer.calls ≤ next.calls)
    (fine : ∀ call, next.current = some call →
      call.offer.ticket.producer = before.length ∧ call.offer.ticket.number + 1 = next.calls) :
    Numbered (before ++ next :: last) offered where
  last := by
    intro index other call there held
    rw [getElem?_swap producer] at there
    split at there
    · rename_i here
      cases there
      rw [← here]
      exact fine call held
    · exact numbered.last index other call there held
  given := by
    intro ticket member
    obtain ⟨other, there, below⟩ := numbered.given ticket member
    rw [getElem?_swap producer]
    by_cases here : before.length = ticket.producer
    · rw [← here, getElem?_here] at there
      cases there
      exact ⟨next, if_pos here, Nat.lt_of_lt_of_le below grown⟩
    · exact ⟨other, (if_neg here).trans there, below⟩
  once := numbered.once

theorem Numbered.offer {before last : List Producer} {calls : Nat} {offer : TicketedJob}
    {offered : List Ticket}
    (numbered : Numbered (before ++ { calls := calls, current := none } :: last) offered)
    (ticket : offer.ticket = { producer := before.length, number := calls }) :
    Numbered
      (before ++ { calls := calls + 1, current := some { offer := offer, place := .entry } } :: last)
      (offered ++ [offer.ticket]) := by
  have fresh : offer.ticket ∉ offered := by
    intro member
    obtain ⟨other, there, below⟩ := numbered.given _ member
    rw [ticket] at there below
    rw [getElem?_here] at there
    cases there
    exact absurd below (Nat.lt_irrefl calls)
  have swapped :
      Numbered
        (before ++ { calls := calls + 1, current := some { offer := offer, place := .entry } } ::
          last) offered := by
    refine numbered.swap (Nat.le_succ calls) fun call held => ?_
    cases held
    rw [ticket]
    exact ⟨rfl, rfl⟩
  obtain ⟨shown, below, once⟩ := swapped
  refine ⟨shown, ?_, ?_⟩
  · intro other member
    rcases List.mem_append.mp member with old | new
    · exact below other old
    · rw [List.mem_singleton] at new
      rw [new, ticket]
      exact ⟨_, getElem?_here before last _, Nat.lt_succ_self calls⟩
  · rw [List.nodup_append]
    refine ⟨once, List.nodup_singleton _, ?_⟩
    rintro other old _ new rfl
    rw [List.mem_singleton] at new
    exact fresh (new ▸ old)

theorem Numbered.arrive {producers : List Producer} {offered : List Ticket}
    (numbered : Numbered producers offered) :
    Numbered (producers ++ [{ calls := 0, current := none }]) offered where
  last := by
    intro index producer call there held
    by_cases old : index < producers.length
    · rw [List.getElem?_append_left old] at there
      exact numbered.last index producer call there held
    · rw [List.getElem?_append_right (Nat.le_of_not_lt old)] at there
      rw [List.mem_singleton.mp (List.mem_of_getElem? there)] at held
      cases held
  given := by
    intro ticket member
    obtain ⟨producer, there, below⟩ := numbered.given ticket member
    have old := (List.getElem?_eq_some_iff.mp there).1
    exact ⟨producer, (List.getElem?_append_left old).trans there, below⟩
  once := numbered.once

theorem moves_numbered {after : Intake} (moved : Moves intake after)
    (numbered : Numbered intake.producers intake.offered) :
    Numbered after.producers after.offered := by
  cases moved with
  | arrives => exact numbered.arrive
  | offers found ticket =>
      rw [found] at numbered
      exact numbered.offer ticket
  | stays found =>
      rw [found] at numbered
      refine numbered.swap (Nat.le_refl _) fun call held => ?_
      cases held
      exact numbered.shown
  | reserves found =>
      rw [found] at numbered
      refine numbered.swap (Nat.le_refl _) fun call held => ?_
      cases held
      exact numbered.shown
  | queues found =>
      rw [found] at numbered
      exact numbered.swap (Nat.le_refl _) nofun
  | drops found =>
      rw [found] at numbered
      exact numbered.swap (Nat.le_refl _) nofun
  | _ => exact numbered

def Ticket.Before (first second : Ticket) : Prop :=
  first.producer = second.producer → first.number < second.number

/-- A ticket whose call is still going on is the last of its producer. -/
theorem moves_inTurn {after : Intake} (moved : Moves intake after) (accounts : intake.Accounts)
    (numbered : Numbered intake.producers intake.offered)
    (inTurn : intake.queued.Pairwise Ticket.Before) : after.queued.Pairwise Ticket.Before := by
  cases moved with
  | @queues before last calls call found =>
      rw [List.pairwise_append]
      refine ⟨inTurn, List.pairwise_singleton _ _, ?_⟩
      intro ticket earlier other new same
      rw [List.mem_singleton] at new
      rw [new] at same ⊢
      have held : call.offer.ticket ∈ (inHand intake.producers).map TicketedJob.ticket := by
        rw [found, inHand_split]
        simp
      have member : ticket ∈ intake.offered := by
        rw [accounts.mem_iff]
        exact List.mem_append_left _ (List.mem_append_right _ earlier)
      have apart := List.nodup_append.mp (List.nodup_append.mp (accounts.nodup_iff.mp numbered.once)).1
      have different : ticket.number ≠ call.offer.ticket.number :=
        fun equal => apart.2.2 _ held _ earlier (Ticket.ext same equal).symm
      obtain ⟨producer, there, below⟩ := numbered.given ticket member
      rw [found] at numbered there
      obtain ⟨owner, number⟩ := numbered.shown
      rw [same, owner, getElem?_here] at there
      cases there
      dsimp only at below
      omega
  | _ => exact inTurn

theorem run_append (intake : Intake) (actions more : List IntakeAction) :
    intake.run (actions ++ more) = (intake.run actions).run more :=
  List.foldl_append

structure Admitted (limit : Nat) (intake : Intake) : Prop where
  limit : intake.budget.limit = limit
  sound : intake.AllSound
  balanced : intake.budget.Balanced (reservedBytes intake.live)
  paid : intake.AllPaid
  ordered : intake.InOrder
  accounts : intake.Accounts
  refused : intake.AllRefused
  numbered : Numbered intake.producers intake.offered
  inTurn : intake.queued.Pairwise Ticket.Before

theorem moves_limit {after : Intake} (moved : Moves intake after) :
    after.budget.limit = intake.budget.limit := by
  cases moved with
  | drops => exact TicketedJob.release_limit _ _
  | finishes => exact TicketedJob.release_limit _ _
  | discards => exact TicketedJob.release_limit _ _
  | _ => rfl

theorem start_admitted (limit : UInt64) (capacity : Nat) :
    Admitted limit.toNat (start limit capacity) where
  limit := rfl
  sound := nofun
  balanced := ⟨rfl, Nat.zero_le _, limit.toNat_lt_size⟩
  paid := nofun
  ordered := ⟨rfl, fun _ => rfl⟩
  accounts := .refl _
  refused := nofun
  numbered := .nobody
  inTurn := .nil

theorem Admitted.step {limit : Nat} (admitted : intake.Admitted limit) (action : IntakeAction) :
    Admitted limit (intake.step action) := by
  have moved := step_moves admitted.sound action
  exact {
    limit := (moves_limit moved).trans admitted.limit
    sound := moves_sound moved admitted.sound
    balanced := moves_balanced moved admitted.balanced
    paid := moves_paid moved admitted.paid
    ordered := moves_inOrder moved admitted.ordered
    accounts := moves_accounts moved admitted.accounts
    refused := moves_refused moved admitted.refused
    numbered := moves_numbered moved admitted.numbered
    inTurn := moves_inTurn moved admitted.accounts admitted.numbered admitted.inTurn }

theorem Admitted.run {limit : Nat} (admitted : intake.Admitted limit)
    (actions : List IntakeAction) : Admitted limit (intake.run actions) := by
  induction actions generalizing intake with
  | nil => exact admitted
  | cons action rest ih => exact ih (admitted.step action)

theorem run_admitted (limit : UInt64) (capacity : Nat) (actions : List IntakeAction) :
    Admitted limit.toNat ((start limit capacity).run actions) :=
  (start_admitted limit capacity).run actions

/-- What was once queued or received stays so, in place. -/
theorem moves_grows {after : Intake} (moved : Moves intake after) :
    intake.queued <+: after.queued ∧ intake.received <+: after.received := by
  cases moved with
  | queues => exact ⟨List.prefix_append _ _, List.prefix_rfl⟩
  | receives => exact ⟨List.prefix_rfl, List.prefix_append _ _⟩
  | _ => exact ⟨List.prefix_rfl, List.prefix_rfl⟩

theorem Admitted.grows {limit : Nat} (admitted : intake.Admitted limit)
    (actions : List IntakeAction) :
    intake.queued <+: (intake.run actions).queued ∧
      intake.received <+: (intake.run actions).received := by
  induction actions generalizing intake with
  | nil => exact ⟨List.prefix_rfl, List.prefix_rfl⟩
  | cons action rest ih =>
      obtain ⟨queued, received⟩ := moves_grows (step_moves admitted.sound action)
      obtain ⟨queuedOn, receivedOn⟩ := ih (admitted.step action)
      exact ⟨queued.trans queuedOn, received.trans receivedOn⟩

end Intake

namespace Gatehouse

theorem ReaderGate.next_some {limit current next : Nat}
    (found : ReaderGate.next limit current = some next) : next = current + 1 ∧ next ≤ limit := by
  unfold ReaderGate.next at found
  split at found
  · cases found
  · cases found
    omega

variable {house : Gatehouse}

theorem permits_split (gate : ReaderGate) (before last : List Asker) (asker : Asker) :
    permits { gate := gate, askers := before ++ asker :: last } =
      permits { gate := gate, askers := before ++ last } +
        if asker = .holding then 1 else 0 := by
  unfold permits
  simp only [List.countP_append, List.countP_cons, decide_eq_true_eq]
  omega

theorem advance_cases (spurious : Bool) (gate : ReaderGate) (asker : Asker) :
    (asker ≠ .holding ∧ gate.used + 1 ≤ gate.limit ∧
        advance spurious gate asker = (.holding, { gate with used := gate.used + 1 })) ∨
      ∃ next, advance spurious gate asker = (next, gate) ∧ (next = .holding ↔ asker = .holding) := by
  cases asker with
  | exchanging current =>
      unfold advance
      dsimp only
      cases room : ReaderGate.next gate.limit current with
      | none => exact .inr ⟨_, rfl, nofun, nofun⟩
      | some next =>
          obtain ⟨sum, fits⟩ := ReaderGate.next_some room
          rcases Gauge.exchange_cases current next spurious gate with ⟨unmoved, exchanged⟩ | failed
          · refine .inl ⟨nofun, by omega, ?_⟩
            dsimp only
            rw [exchanged, sum, unmoved]
          · refine .inr ⟨.exchanging gate.used, ?_, nofun, nofun⟩
            dsimp only
            rw [failed]
  | loading => exact .inr ⟨_, rfl, nofun, nofun⟩
  | holding => exact .inr ⟨_, rfl, Iff.rfl⟩
  | refused => exact .inr ⟨_, rfl, Iff.rfl⟩
  | released => exact .inr ⟨_, rfl, Iff.rfl⟩

theorem step_balanced (action : GateAction) (balanced : house.gate.Balanced house.permits) :
    (house.step action).gate.Balanced (house.step action).permits ∧
      (house.step action).gate.limit = house.gate.limit := by
  obtain ⟨gate, askers⟩ := house
  unfold step
  cases action with
  | ask =>
      refine ⟨?_, rfl⟩
      simpa [permits] using balanced
  | advance index spurious =>
      dsimp only
      split
      · rename_i asker found
        obtain ⟨before, last, rfl, rfl, set⟩ := split_at found
        rw [permits_split] at balanced
        rcases advance_cases spurious gate asker with ⟨waiting, fits, raised⟩ | ⟨next, stayed, same⟩
        · rw [raised]
          dsimp only
          rw [set, permits_split, if_pos rfl]
          rw [if_neg waiting] at balanced
          exact ⟨balanced.raise rfl fits, rfl⟩
        · rw [stayed]
          dsimp only
          rw [set, permits_split, if_congr same rfl rfl]
          exact ⟨balanced, rfl⟩
      · exact ⟨balanced, rfl⟩
  | drop index =>
      dsimp only
      split
      · rename_i found
        obtain ⟨before, last, rfl, rfl, set⟩ := split_at found
        rw [permits_split, if_pos rfl] at balanced
        dsimp only
        rw [set, permits_split, if_neg nofun]
        exact ⟨balanced.fetchSub rfl, rfl⟩
      · exact ⟨balanced, rfl⟩

theorem run_balanced (actions : List GateAction) (balanced : house.gate.Balanced house.permits) :
    (house.run actions).gate.Balanced (house.run actions).permits ∧
      (house.run actions).gate.limit = house.gate.limit := by
  induction actions generalizing house with
  | nil => exact ⟨balanced, rfl⟩
  | cons action rest ih =>
      obtain ⟨stepped, limit⟩ := step_balanced action balanced
      obtain ⟨ran, same⟩ := ih stepped
      exact ⟨ran, same.trans limit⟩

theorem start_balanced (limit : UInt64) :
    (start limit).gate.Balanced (start limit).permits :=
  ⟨rfl, Nat.zero_le _, limit.toNat_lt_size⟩

end Gatehouse

structure BoundedAdmission (limit : Nat) (intake : Intake) : Prop where
  accounted : intake.budget.used = Intake.reservedBytes intake.live
  within : intake.budget.used ≤ limit
  paid : ∀ offer ∈ intake.queue, offer.job.permit = some { bytes := offer.job.accountedBytes }
  once : intake.offered.Nodup
  fates : intake.offered.Perm
    ((Intake.inHand intake.producers).map TicketedJob.ticket ++
      intake.queue.map TicketedJob.ticket ++ intake.received ++ intake.discarded ++
        intake.dropped.map Prod.fst)
  refused : ∀ fate ∈ intake.dropped, fate.2 = .shed ∨ fate.2 = .closed
  kept : intake.receiver = true → intake.discarded = []
  arrival : intake.queued =
    intake.received ++ intake.discarded ++ intake.queue.map TicketedJob.ticket
  inTurn : intake.queued.Pairwise fun first second =>
    first.producer = second.producer → first.number < second.number
  released : intake.live = [] → intake.budget.used = 0

theorem Intake.Admitted.bounded {limit : Nat} {intake : Intake} (admitted : intake.Admitted limit) :
    BoundedAdmission limit intake where
  accounted := admitted.balanced.used
  within := by
    rw [admitted.balanced.used, ← admitted.limit]
    exact admitted.balanced.within
  paid := admitted.paid
  once := admitted.numbered.once
  fates := by
    have accounts := admitted.accounts
    unfold Intake.Accounts at accounts
    rw [admitted.ordered.arrival, List.perm_iff_count] at accounts
    rw [List.perm_iff_count]
    intro ticket
    rw [accounts ticket]
    simp only [List.count_append]
    omega
  refused := by
    intro fate member
    have refused := admitted.refused fate member
    cases result : fate.2 with
    | queued => exact absurd result refused
    | shed => exact .inl rfl
    | closed => exact .inr rfl
  kept := admitted.ordered.kept
  arrival := admitted.ordered.arrival
  inTurn := admitted.inTurn
  released := by
    intro empty
    rw [admitted.balanced.used, empty]
    rfl

/-- At every moment the bytes charged are those of the jobs alive and within the limit, the queue is
first in, first out, and the gate counts the permits alive. -/
theorem admission_bounded (limit gateLimit : UInt64) (capacity : Nat) :
    (∀ actions, BoundedAdmission limit.toNat ((Intake.start limit capacity).run actions)) ∧
      (∀ actions more,
        ((Intake.start limit capacity).run actions).queued <+:
            ((Intake.start limit capacity).run (actions ++ more)).queued ∧
          ((Intake.start limit capacity).run actions).received <+:
            ((Intake.start limit capacity).run (actions ++ more)).received) ∧
      ∀ actions,
        ((Gatehouse.start gateLimit).run actions).gate.used =
            ((Gatehouse.start gateLimit).run actions).permits ∧
          ((Gatehouse.start gateLimit).run actions).permits ≤ gateLimit.toNat := by
  refine ⟨fun actions => ?_, fun actions more => ?_, fun actions => ?_⟩
  · exact (Intake.run_admitted limit capacity actions).bounded
  · rw [Intake.run_append]
    exact (Intake.run_admitted limit capacity actions).grows more
  · obtain ⟨balanced, same⟩ := Gatehouse.run_balanced actions (Gatehouse.start_balanced gateLimit)
    refine ⟨balanced.used, ?_⟩
    have within := balanced.within
    rw [same] at within
    exact within

/-- A queued job whose receiver hangs up before receiving it goes with the channel. -/
theorem admission_counterexample :
    let intake := (Intake.start 8 1).run
      [.arrive, .call 0 "text/plain".toList (.memory [0]), .advance 0 false false,
        .advance 0 false false, .advance 0 false false, .advance 0 false false, .hangUp, .discard]
    intake.offered = [{ producer := 0, number := 0 }] ∧ intake.live = [] ∧
      intake.queued = [{ producer := 0, number := 0 }] ∧ intake.received = [] ∧
        intake.dropped = [] := by
  exact ⟨rfl, rfl, rfl, rfl, rfl⟩

end Y4p
