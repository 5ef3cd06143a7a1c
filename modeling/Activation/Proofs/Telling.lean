import Activation.Proofs.Listener
import Activation.Proofs.Noting

namespace Activation.Listener

variable {σ : Type}

def notifyEach (listeners : List (Listener σ)) :
    List Event → Record σ → List (Except Error Unit) × Record σ
  | [], record => ([], record)
  | event :: events, record =>
    let told := notify listeners event record
    let others := notifyEach listeners events told.2
    (told.1 :: others.1, others.2)

-- An event with the listeners that have taken it before one failed, and with the outcome.
structure Delivery (σ : Type) where
  event : Event
  taken : List (Listener σ)
  outcome : Except Error Unit

def callsOf (count : Nat) (event : Event) : List Call :=
  (List.range count).map fun i => .listener i event

-- How an event goes through a row of listeners: what is left behind, and which calls are made.
inductive Telling (listeners : List (Listener σ)) (event : Event) (record : Record σ) :
    Delivery σ → Record σ → List Call → Prop where
  | all {after : Record σ} (heard : Hear event listeners record after) :
      Telling listeners event record ⟨event, listeners, .ok ()⟩ after
        (callsOf listeners.length event)
  | failed {earlier later : List (Listener σ)} {listener : Listener σ} {middle after : Record σ}
      {reason : String} (row : listeners = earlier ++ listener :: later)
      (heard : Hear event earlier record middle)
      (failed : listener.receive event middle = (.error reason, after)) :
      Telling listeners event record
        ⟨event, earlier, .error (.extension s!"listener '{listener.name}'" reason)⟩ after
        (callsOf (earlier.length + 1) event)

-- Several events, each finding what the one before has left behind.
inductive Tellings (listeners : List (Listener σ)) :
    List Event → Record σ → List (Delivery σ) → Record σ → List Call → Prop where
  | nil {record : Record σ} : Tellings listeners [] record [] record []
  | cons {event : Event} {events : List Event} {record middle after : Record σ}
      {delivery : Delivery σ} {deliveries : List (Delivery σ)} {calls others : List Call}
      (first : Telling listeners event record delivery middle calls)
      (rest : Tellings listeners events middle deliveries after others) :
      Tellings listeners (event :: events) record (delivery :: deliveries) after (calls ++ others)

variable {listeners : List (Listener σ)} {event : Event} {events : List Event}
  {record after : Record σ} {delivery : Delivery σ} {deliveries : List (Delivery σ)}
  {calls : List Call}

theorem exists_telling (listeners : List (Listener σ)) (event : Event) (record : Record σ) :
    ∃ delivery after calls, Telling listeners event record delivery after calls := by
  obtain ⟨after, hheard⟩ |
      ⟨earlier, listener, later, middle, reason, after, hrow, hheard, hfails⟩ :=
    hear_or_fails listeners event record
  · exact ⟨_, _, _, .all hheard⟩
  · exact ⟨_, _, _, .failed hrow hheard hfails⟩

theorem exists_tellings (listeners : List (Listener σ)) (events : List Event)
    (record : Record σ) :
    ∃ deliveries after calls, Tellings listeners events record deliveries after calls := by
  induction events generalizing record with
  | nil => exact ⟨_, _, _, .nil⟩
  | cons event events ih =>
      obtain ⟨delivery, middle, calls, hfirst⟩ := exists_telling listeners event record
      obtain ⟨deliveries, after, others, hrest⟩ := ih middle
      exact ⟨_, _, _, .cons hfirst hrest⟩

theorem Telling.event_eq (h : Telling listeners event record delivery after calls) :
    delivery.event = event := by
  cases h <;> rfl

theorem Telling.notify_eq (h : Telling listeners event record delivery after calls) :
    notify listeners event record = (delivery.outcome, after) := by
  cases h with
  | all heard => exact heard.notify_eq
  | failed row heard failed => rw [row, heard.notify_append, notify, failed]

theorem Telling.notify_noting (h : Telling listeners event record delivery after calls)
    (noted : List Call) :
    notify (notingAll listeners) event (record.noting noted) =
      (delivery.outcome, after.noting (noted ++ calls)) := by
  cases h with
  | all heard => exact (heard.noting .listener noted).notify_eq
  | @failed earlier later listener middle after reason row heard failed =>
      obtain ⟨others, hrow⟩ := notingAll_append earlier later listener
      have hheard := (heard.noting .listener noted).append
        (hear_marking (.listener earlier.length) listener.name event middle _)
      have hcalls : callsOf (earlier.length + 1) event =
          callsOf earlier.length event ++ [.listener earlier.length event] := by
        rw [callsOf, List.range_succ, List.map_append]
        rfl
      rw [row, hrow, notingAll, hheard.notify_append, notify, receive_beside, failed, hcalls,
        ← List.append_assoc, name_beside]
      rfl

private theorem isReport_of_error {listener : Listener σ} {reason : String}
    (h : listener.receive event record = (.error reason, after)) : listener.isReport = false := by
  rw [receive] at h
  rw [isReport]
  cases hr : listener.receiver with
  | report =>
      rw [hr] at h
      cases h
  | custom name receive => rfl

theorem Telling.report_eq (h : Telling listeners event record delivery after calls) :
    after.report = record.report ++
      List.replicate (delivery.taken.countP isReport) delivery.event := by
  cases h with
  | all heard => exact report_notify heard.notify_eq
  | @failed earlier later listener middle after reason row heard failed =>
      have hlast := listener.report_receive event middle
      rw [failed, isReport_of_error failed] at hlast
      rw [hlast, report_notify heard.notify_eq]
      exact List.append_nil _

theorem Telling.ok_iff (h : Telling listeners event record delivery after calls) :
    delivery.outcome = .ok () ↔ delivery.taken = listeners := by
  cases h with
  | all heard => exact iff_of_true rfl rfl
  | @failed earlier later listener middle after reason row heard failed =>
      refine iff_of_false nofun fun hall => ?_
      have hlength := congrArg List.length row
      rw [← hall] at hlength
      simp at hlength

-- The listener that fails is the first one to do so, and there is only one way to it.
theorem Telling.unique {other : Delivery σ} {last : Record σ} {others : List Call}
    (h : Telling listeners event record delivery after calls)
    (ho : Telling listeners event record other last others) :
    other = delivery ∧ last = after ∧ others = calls := by
  obtain ⟨houtcome, rfl⟩ := Prod.mk.inj (ho.notify_eq.symm.trans h.notify_eq)
  obtain ⟨-, hnoted⟩ := Prod.mk.inj ((ho.notify_noting []).symm.trans (h.notify_noting []))
  have hcalls : others = calls := by simpa [Record.noting] using hnoted
  refine ⟨?_, rfl, hcalls⟩
  cases h with
  | all heard =>
      cases ho with
      | all _ => rfl
      | failed _ _ _ => cases houtcome
  | failed row heard failed =>
      cases ho with
      | all _ => cases houtcome
      | failed otherRow _ _ =>
          have hlength := congrArg List.length hcalls
          simp only [callsOf, List.length_map, List.length_range, Nat.add_right_cancel_iff]
            at hlength
          obtain ⟨rfl, -⟩ := List.append_inj (otherRow.symm.trans row) hlength
          exact congrArg (Delivery.mk event _) houtcome

theorem Tellings.unique {other : List (Delivery σ)} {last : Record σ} {others : List Call}
    (h : Tellings listeners events record deliveries after calls)
    (ho : Tellings listeners events record other last others) :
    other = deliveries ∧ last = after ∧ others = calls := by
  induction h generalizing other others with
  | nil =>
      cases ho
      exact ⟨rfl, rfl, rfl⟩
  | cons first _ ih =>
      cases ho with
      | cons otherFirst otherRest =>
          obtain ⟨rfl, rfl, rfl⟩ := first.unique otherFirst
          obtain ⟨rfl, rfl, rfl⟩ := ih otherRest
          exact ⟨rfl, rfl, rfl⟩

theorem Tellings.notifyEach_eq (h : Tellings listeners events record deliveries after calls) :
    notifyEach listeners events record = (deliveries.map Delivery.outcome, after) := by
  induction h with
  | nil => rfl
  | cons first _ ih =>
      rw [notifyEach, first.notify_eq, ih]
      rfl

theorem Tellings.notifyEach_noting
    (h : Tellings listeners events record deliveries after calls) (noted : List Call) :
    notifyEach (notingAll listeners) events (record.noting noted) =
      (deliveries.map Delivery.outcome, after.noting (noted ++ calls)) := by
  induction h generalizing noted with
  | nil => rw [List.append_nil]; rfl
  | cons first _ ih =>
      rw [notifyEach, first.notify_noting, ih, List.append_assoc]
      rfl

theorem Tellings.report_eq (h : Tellings listeners events record deliveries after calls) :
    after.report = record.report ++ deliveries.flatMap fun delivery =>
      List.replicate (delivery.taken.countP isReport) delivery.event := by
  induction h with
  | nil => exact (List.append_nil _).symm
  | cons first _ ih => rw [ih, first.report_eq, List.flatMap_cons, List.append_assoc]

theorem Tellings.events_eq (h : Tellings listeners events record deliveries after calls) :
    deliveries.map Delivery.event = events := by
  induction h with
  | nil => rfl
  | cons first _ ih => rw [List.map_cons, first.event_eq, ih]

theorem Tellings.ok_iff (h : Tellings listeners events record deliveries after calls) :
    ∀ delivery ∈ deliveries, delivery.outcome = .ok () ↔ delivery.taken = listeners := by
  induction h with
  | nil => exact nofun
  | cons first _ ih => exact List.forall_mem_cons.mpr ⟨first.ok_iff, ih⟩

theorem report_prefix_notifyEach (listeners : List (Listener σ)) (events : List Event)
    (record : Record σ) : record.report <+: (notifyEach listeners events record).2.report := by
  obtain ⟨deliveries, after, calls, h⟩ := exists_tellings listeners events record
  rw [h.notifyEach_eq, h.report_eq]
  exact List.prefix_append _ _

theorem notifyEach_append (listeners : List (Listener σ)) (events others : List Event)
    (record : Record σ) :
    (notifyEach listeners (events ++ others) record).2 =
      (notifyEach listeners others (notifyEach listeners events record).2).2 := by
  induction events generalizing record with
  | nil => rfl
  | cons event events ih => exact ih _

-- Every event goes to the listeners in their order, to each once, up to the first one that fails on
-- it; and this failure is the outcome. The report only grows. Of each event it has got as many
-- copies as there are reports before the listener that fails.
theorem notifyEach_tells_until_failure (listeners : List (Listener σ)) (events : List Event)
    (record : Record σ) :
    ∃ deliveries after calls, Tellings listeners events record deliveries after calls ∧
      (∀ other last others, Tellings listeners events record other last others →
        other = deliveries ∧ last = after ∧ others = calls) ∧
      notifyEach listeners events record = (deliveries.map Delivery.outcome, after) ∧
      notifyEach (notingAll listeners) events (record.noting []) =
        (deliveries.map Delivery.outcome, after.noting calls) ∧
      deliveries.map Delivery.event = events ∧
      (∀ delivery ∈ deliveries, delivery.outcome = .ok () ↔ delivery.taken = listeners) ∧
      (after.report = record.report ++ deliveries.flatMap fun delivery =>
        List.replicate (delivery.taken.countP isReport) delivery.event) ∧
      ∀ count, (notifyEach listeners (events.take count) record).2.report <+: after.report := by
  obtain ⟨deliveries, after, calls, h⟩ := exists_tellings listeners events record
  refine ⟨deliveries, after, calls, h, fun other last others ho => h.unique ho, h.notifyEach_eq,
    h.notifyEach_noting [], h.events_eq, h.ok_iff, h.report_eq, fun count => ?_⟩
  have hparts := notifyEach_append listeners (events.take count) (events.drop count) record
  rw [List.take_append_drop, h.notifyEach_eq] at hparts
  have hlater := report_prefix_notifyEach listeners (events.drop count)
    (notifyEach listeners (events.take count) record).2
  rw [← hparts] at hlater
  exact hlater

-- Two clones of the report, and between them a listener that takes one event only.
def takesOnce : List (Listener Nat) :=
  [report, ⟨.custom "once" fun _ _ taken =>
    if taken = 0 then (.ok (), 1) else (.error "full", taken + 1), []⟩, report]

example : notifyEach takesOnce [⟨["a"], .empty⟩, ⟨[], .empty⟩, ⟨["b"], .empty⟩] ⟨[], 0⟩ =
    ([.ok (), .error (.extension "listener 'once'" "full"),
        .error (.extension "listener 'once'" "full")],
      ⟨[⟨["a"], .empty⟩, ⟨["a"], .empty⟩, ⟨[], .empty⟩, ⟨["b"], .empty⟩], 3⟩) := by
  rfl

end Activation.Listener
