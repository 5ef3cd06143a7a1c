import Activation.Listener
import Mathlib.Data.List.Basic
import Mathlib.Data.Prod.Basic

namespace Activation.Listener

variable {σ : Type}

-- A listener whose answers are not affected by earlier reports or by the state of the host, though
-- it may add to the ones and change the other.
def Steady (listener : Listener σ) : Prop :=
  ∀ (event : Event) (record other : Record σ),
    (listener.receive event record).1 = (listener.receive event other).1

def isReport (listener : Listener σ) : Bool :=
  match listener.receiver with
  | .report => true
  | .custom _ _ => false

theorem steady_of_isReport {listener : Listener σ} (h : listener.isReport) : listener.Steady := by
  intro event record other
  rw [isReport] at h
  rw [receive, receive]
  cases hr : listener.receiver with
  | report => rfl
  | custom name receive =>
      rw [hr] at h
      cases h

theorem steady_of_all_isReport {listeners : List (Listener σ)} (h : listeners.all isReport) :
    ∀ listener ∈ listeners, listener.Steady :=
  fun listener hm => steady_of_isReport (List.all_eq_true.mp h listener hm)

theorem notify_steady {listeners : List (Listener σ)}
    (h : ∀ listener ∈ listeners, listener.Steady) (event : Event) (record other : Record σ) :
    (notify listeners event record).1 = (notify listeners event other).1 := by
  induction listeners generalizing record other with
  | nil => rfl
  | cons listener rest ih =>
      have hreceive := Prod.fst_eq_iff.mp (h listener List.mem_cons_self event record other)
      rw [notify, notify, hreceive]
      rcases listener.receive event other with ⟨result, after⟩
      cases result with
      | error reason => rfl
      | ok _ => exact ih (fun other hm => h other (List.mem_cons_of_mem _ hm)) _ _

theorem report_receive (listener : Listener σ) (event : Event) (record : Record σ) :
    (listener.receive event record).2.report =
      record.report ++ if listener.isReport then [event] else [] := by
  rw [receive, isReport]
  cases listener.receiver with
  | report => rfl
  | custom name receive => exact (List.append_nil _).symm

theorem report_notify {listeners : List (Listener σ)} {event : Event} {record after : Record σ}
    (h : notify listeners event record = (.ok (), after)) :
    after.report = record.report ++ List.replicate (listeners.countP isReport) event := by
  induction listeners generalizing record with
  | nil =>
      obtain ⟨-, rfl⟩ := Prod.mk.inj h
      exact (List.append_nil _).symm
  | cons listener rest ih =>
      have hreport := listener.report_receive event record
      rw [notify] at h
      rcases hs : listener.receive event record with ⟨result, middle⟩
      rw [hs] at h hreport
      cases result with
      | error reason => cases h
      | ok _ =>
          rw [ih h, hreport, List.append_assoc, List.countP_cons, Nat.add_comm]
          by_cases hr : listener.isReport <;> simp [hr, List.replicate_add]

-- What is added to the report does not depend on what is there, even if some listener fails.
theorem report_notify_steady {listeners : List (Listener σ)}
    (h : ∀ listener ∈ listeners, listener.Steady) (event : Event) (record other : Record σ) :
    ∃ events, (notify listeners event record).2.report = record.report ++ events ∧
      (notify listeners event other).2.report = other.report ++ events := by
  induction listeners generalizing record other with
  | nil => exact ⟨[], (List.append_nil _).symm, (List.append_nil _).symm⟩
  | cons listener rest ih =>
      have hanswer := h listener List.mem_cons_self event record other
      have hrecord := listener.report_receive event record
      have hother := listener.report_receive event other
      rw [notify, notify]
      rcases hr : listener.receive event record with ⟨result, middle⟩
      rcases ho : listener.receive event other with ⟨twin, last⟩
      rw [hr, ho] at hanswer
      rw [hr] at hrecord
      rw [ho] at hother
      obtain rfl : result = twin := hanswer
      cases result with
      | error reason => exact ⟨_, hrecord, hother⟩
      | ok _ =>
          obtain ⟨events, hmiddle, hlast⟩ :=
            ih (fun other hm => h other (List.mem_cons_of_mem _ hm)) middle last
          refine ⟨(if listener.isReport then [event] else []) ++ events, ?_, ?_⟩
          · rw [hmiddle, hrecord, List.append_assoc]
          · rw [hlast, hother, List.append_assoc]

end Activation.Listener
