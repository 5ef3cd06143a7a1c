import Activation.Proofs.Resolver

namespace Activation

-- A filter is called with the slots it is shown, a listener with the event it is told. Filters and
-- listeners may have the same name, so that it is their position that counts.
inductive Call where
  | filter (position : Nat) (slots : Slots)
  | listener (position : Nat) (event : Event)
deriving DecidableEq

variable {σ : Type}

namespace Filter

def noting (mark : Slots → Call) (filter : Filter σ) : Filter (σ × List Call) :=
  ⟨.custom filter.name fun granted slots metadata noted =>
    let (answer, outside) := { filter with granted }.answer slots metadata noted.1
    (answer, outside, noted.2 ++ [mark slots]), filter.granted⟩

theorem answer_noting (mark : Slots → Call) (filter : Filter σ) (slots : Slots)
    (metadata : Metadata) (state : σ) (calls : List Call) :
    (filter.noting mark).answer slots metadata (state, calls) =
      ((filter.answer slots metadata state).1, (filter.answer slots metadata state).2,
        calls ++ [mark slots]) :=
  rfl

def notingAll (filters : List (Filter σ)) : List (Filter (σ × List Call)) :=
  filters.mapIdx fun i filter => filter.noting (.filter i)

theorem notingAll_append (earlier later : List (Filter σ)) (filter : Filter σ) :
    ∃ others, notingAll (earlier ++ filter :: later) =
      notingAll earlier ++ filter.noting (.filter earlier.length) :: others := by
  rw [notingAll, List.mapIdx_append, List.mapIdx_cons, Nat.zero_add]
  exact ⟨_, rfl⟩

inductive Fails (metadata : Metadata) (filter : Filter σ) (slots : Slots) (state : σ) :
    Error → σ → Prop where
  | extension {reason : String} {after : σ}
      (answered : filter.answer slots metadata state = (.error reason, after)) :
      Fails metadata filter slots state (.extension s!"filter '{filter.name}'" reason) after
  | verdictCount {verdicts : List Bool} {after : σ}
      (answered : filter.answer slots metadata state = (.ok verdicts, after))
      (miscounted : verdicts.length ≠ slots.length) :
      Fails metadata filter slots state
        (.verdictCount filter.name slots.length verdicts.length) after

-- A row of filters that succeed, each called once: what they are shown, and the slots in the end.
inductive Passes (metadata : Metadata) :
    List (Filter σ) → Slots → σ → List Slots → Slots → σ → Prop where
  | nil {slots : Slots} {state : σ} : Passes metadata [] slots state [] slots state
  | cons {filter : Filter σ} {others : List (Filter σ)} {slots screened : Slots}
      {state middle after : σ} {verdicts : List Bool} {shown : List Slots}
      (answered : filter.answer slots metadata state = (.ok verdicts, middle))
      (counted : verdicts.length = slots.length)
      (rest : Passes metadata others (mask slots verdicts) middle shown screened after) :
      Passes metadata (filter :: others) slots state (slots :: shown) screened after

variable {filters : List (Filter σ)} {filter : Filter σ} {metadata : Metadata}
  {slots screened : Slots} {state after : σ} {shown : List Slots} {error : Error}

theorem Fails.verdicts (h : filter.Fails metadata slots state error after) :
    filter.verdicts slots metadata state = (.error error, after) := by
  cases h with
  | extension answered => simp only [Filter.verdicts, answered]
  | verdictCount answered miscounted =>
      simp only [Filter.verdicts, answered, if_neg miscounted]

theorem Fails.noting (h : filter.Fails metadata slots state error after) (mark : Slots → Call)
    (calls : List Call) :
    (filter.noting mark).Fails metadata slots (state, calls) error
      (after, calls ++ [mark slots]) := by
  cases h with
  | @extension reason after answered =>
      have hnoting : (filter.noting mark).answer slots metadata (state, calls) =
          (.error reason, after, calls ++ [mark slots]) := by rw [answer_noting, answered]
      exact .extension hnoting
  | @verdictCount verdicts after answered miscounted =>
      have hnoting : (filter.noting mark).answer slots metadata (state, calls) =
          (.ok verdicts, after, calls ++ [mark slots]) := by rw [answer_noting, answered]
      exact .verdictCount hnoting miscounted

theorem Passes.length_shown (h : Passes metadata filters slots state shown screened after) :
    shown.length = filters.length := by
  induction h with
  | nil => rfl
  | cons _ _ _ ih => rw [List.length_cons, List.length_cons, ih]

theorem Passes.screenSlots_append (h : Passes metadata filters slots state shown screened after)
    (later : List (Filter σ)) :
    screenSlots (filters ++ later) slots metadata state =
      screenSlots later screened metadata after := by
  induction h with
  | nil => rfl
  | cons answered counted _ ih =>
      rw [List.cons_append, screenSlots, Filter.verdicts, answered]
      simp only [if_pos counted]
      exact ih

theorem Passes.snoc {verdicts : List Bool} {last : σ}
    (h : Passes metadata filters slots state shown screened after)
    (answered : filter.answer screened metadata after = (.ok verdicts, last))
    (counted : verdicts.length = screened.length) :
    Passes metadata (filters ++ [filter]) slots state (shown ++ [screened])
      (mask screened verdicts) last := by
  induction h with
  | nil => exact .cons answered counted .nil
  | cons first firstCounted _ ih => exact .cons first firstCounted (ih answered counted)

theorem Passes.screen_eq {candidates : List String}
    (h : Passes metadata filters (candidates.map some) state shown screened after) :
    screen filters candidates metadata state = (.ok (screened.filterMap id), after) := by
  have hslots := h.screenSlots_append []
  rw [List.append_nil] at hslots
  rw [screen, hslots]
  rfl

theorem Passes.screen_of_fails {candidates : List String} {last : σ}
    (h : Passes metadata filters (candidates.map some) state shown screened after)
    (hfails : filter.Fails metadata screened after error last) (later : List (Filter σ)) :
    screen (filters ++ filter :: later) candidates metadata state = (.error error, last) := by
  rw [screen, h.screenSlots_append, screenSlots, hfails.verdicts]
  rfl

theorem Passes.noting (h : Passes metadata filters slots state shown screened after)
    (mark : Nat → Slots → Call) (calls : List Call) :
    Passes metadata (filters.mapIdx fun i filter => filter.noting (mark i)) slots (state, calls)
      shown screened (after, calls ++ shown.mapIdx mark) := by
  induction h generalizing mark calls with
  | nil => rw [List.mapIdx_nil, List.mapIdx_nil, List.append_nil]; exact .nil
  | cons answered counted _ ih =>
      rw [List.mapIdx_cons, List.mapIdx_cons, List.append_cons]
      refine .cons ?_ counted (ih _ _)
      rw [answer_noting, answered]

-- Whatever slots a filter of a row is shown, and those that are left in the end: they come from the
-- filters before, all of which have passed.
theorem Passes.take (h : Passes metadata filters slots state shown screened after) {i : Nat}
    {left : Slots} (hi : (shown ++ [screened])[i]? = some left) :
    ∃ before middle, Passes metadata (filters.take i) slots state before left middle := by
  induction h generalizing i with
  | @nil slots state =>
      cases i with
      | zero =>
          obtain rfl := Option.some.inj hi
          exact ⟨[], state, .nil⟩
      | succ i => cases hi
  | @cons filter others slots screened state middle after verdicts shown answered counted _ ih =>
      cases i with
      | zero =>
          obtain rfl := Option.some.inj hi
          exact ⟨[], state, .nil⟩
      | succ i =>
          obtain ⟨before, last, hrest⟩ := ih hi
          exact ⟨slots :: before, last, .cons answered counted hrest⟩

theorem passes_or_fails (metadata : Metadata) (filters : List (Filter σ)) (slots : Slots)
    (state : σ) :
    (∃ shown screened after, Passes metadata filters slots state shown screened after) ∨
      ∃ earlier filter later shown screened middle error after,
        filters = earlier ++ filter :: later ∧
        Passes metadata earlier slots state shown screened middle ∧
        filter.Fails metadata screened middle error after := by
  induction filters generalizing slots state with
  | nil => exact Or.inl ⟨[], slots, state, .nil⟩
  | cons filter others ih =>
      rcases ha : filter.answer slots metadata state with ⟨reason | verdicts, middle⟩
      · exact Or.inr ⟨[], filter, others, [], slots, state, _, middle, rfl, .nil, .extension ha⟩
      · by_cases hcount : verdicts.length = slots.length
        · obtain ⟨shown, screened, after, hrest⟩ | ⟨earlier, failing, later, shown, screened, last,
            error, after, hothers, hrest, hfails⟩ := ih (mask slots verdicts) middle
          · exact Or.inl ⟨_, screened, after, .cons ha hcount hrest⟩
          · refine Or.inr ⟨filter :: earlier, failing, later, _, screened, last, error, after, ?_,
              .cons ha hcount hrest, hfails⟩
            rw [hothers, List.cons_append]
        · exact Or.inr ⟨[], filter, others, [], slots, state, _, middle, rfl, .nil,
            .verdictCount ha hcount⟩

end Filter

namespace Record

def noting (record : Record σ) (calls : List Call) : Record (σ × List Call) :=
  ⟨record.report, record.outside, calls⟩

end Record

namespace Listener

-- The same listener, which leaves alone the notes beside the state of the host.
def beside (listener : Listener σ) : Listener (σ × List Call) :=
  match listener.receiver with
  | .report => ⟨.report, listener.granted⟩
  | .custom name receive =>
      ⟨.custom name fun granted event noted =>
        let (outcome, outside) := receive granted event noted.1
        (outcome, outside, noted.2), listener.granted⟩

def marking (mark : Event → Call) (name : String) : Listener (σ × List Call) :=
  ⟨.custom name fun _ event noted => (.ok (), noted.1, noted.2 ++ [mark event]), []⟩

-- A listener, and before it one that notes the call. It takes two, as a listener that is the report
-- has no notes of its own.
def noting (mark : Event → Call) (listener : Listener σ) : List (Listener (σ × List Call)) :=
  [marking mark listener.name, listener.beside]

def notingAll (listeners : List (Listener σ)) : List (Listener (σ × List Call)) :=
  (listeners.mapIdx fun i listener => listener.noting (.listener i)).flatten

theorem notingAll_append (earlier later : List (Listener σ)) (listener : Listener σ) :
    ∃ others, notingAll (earlier ++ listener :: later) =
      (notingAll earlier ++ [marking (.listener earlier.length) listener.name]) ++
        listener.beside :: others := by
  rw [notingAll, List.mapIdx_append, List.mapIdx_cons, Nat.zero_add, List.flatten_append,
    List.flatten_cons]
  exact ⟨_, List.append_cons _ _ _⟩

inductive Hear (event : Event) : List (Listener σ) → Record σ → Record σ → Prop where
  | nil {record : Record σ} : Hear event [] record record
  | cons {listener : Listener σ} {others : List (Listener σ)} {record middle after : Record σ}
      (received : listener.receive event record = (.ok (), middle))
      (rest : Hear event others middle after) : Hear event (listener :: others) record after

variable {listeners : List (Listener σ)} {listener : Listener σ} {event : Event}
  {record after : Record σ}

theorem name_beside (listener : Listener σ) : listener.beside.name = listener.name := by
  unfold beside name
  cases listener.receiver <;> rfl

theorem receive_beside (listener : Listener σ) (event : Event) (record : Record σ)
    (calls : List Call) :
    listener.beside.receive event (record.noting calls) =
      ((listener.receive event record).1, (listener.receive event record).2.noting calls) := by
  unfold beside receive
  cases listener.receiver <;> rfl

theorem Hear.notify_append (h : Hear event listeners record after)
    (later : List (Listener σ)) :
    notify (listeners ++ later) event record = notify later event after := by
  induction h with
  | nil => rfl
  | cons received _ ih =>
      rw [List.cons_append, notify, received]
      exact ih

theorem Hear.notify_eq (h : Hear event listeners record after) :
    notify listeners event record = (.ok (), after) := by
  have hnotify := h.notify_append []
  rwa [List.append_nil] at hnotify

theorem Hear.append {later : List (Listener σ)} {last : Record σ}
    (h : Hear event listeners record after) (hlater : Hear event later after last) :
    Hear event (listeners ++ later) record last := by
  induction h with
  | nil => exact hlater
  | cons received _ ih => exact .cons received (ih hlater)

theorem hear_marking (mark : Event → Call) (name : String) (event : Event) (record : Record σ)
    (calls : List Call) :
    Hear event [marking mark name] (record.noting calls) (record.noting (calls ++ [mark event])) :=
  .cons rfl .nil

theorem Hear.noting (h : Hear event listeners record after) (mark : Nat → Event → Call)
    (calls : List Call) :
    Hear event (listeners.mapIdx fun i listener => listener.noting (mark i)).flatten
      (record.noting calls)
      (after.noting (calls ++ (List.range listeners.length).map fun i => mark i event)) := by
  induction h generalizing mark calls with
  | nil => rw [List.mapIdx_nil, List.flatten_nil, List.length_nil, List.range_zero, List.map_nil,
      List.append_nil]; exact .nil
  | @cons listener others record middle after received _ ih =>
      have hrest := ih (fun i => mark (i + 1)) (calls ++ [mark 0 event])
      rw [List.mapIdx_cons, List.flatten_cons, List.length_cons, List.range_succ_eq_map,
        List.map_cons, List.map_map, List.append_cons]
      refine (hear_marking (mark 0) listener.name event record calls).append (.cons ?_ hrest)
      rw [receive_beside, received]

theorem Hear.take (h : Hear event listeners record after) (i : Nat) :
    ∃ middle, Hear event (listeners.take i) record middle := by
  induction h generalizing i with
  | nil => exact ⟨_, by rw [List.take_nil]; exact .nil⟩
  | cons received _ ih =>
      cases i with
      | zero => exact ⟨_, .nil⟩
      | succ i =>
          obtain ⟨middle, hrest⟩ := ih i
          exact ⟨middle, .cons received hrest⟩

theorem hear_or_fails (listeners : List (Listener σ)) (event : Event) (record : Record σ) :
    (∃ after, Hear event listeners record after) ∨
      ∃ earlier listener later middle reason after, listeners = earlier ++ listener :: later ∧
        Hear event earlier record middle ∧
        listener.receive event middle = (.error reason, after) := by
  induction listeners generalizing record with
  | nil => exact Or.inl ⟨record, .nil⟩
  | cons listener others ih =>
      rcases hr : listener.receive event record with ⟨reason | ⟨⟩, middle⟩
      · exact Or.inr ⟨[], listener, others, record, reason, middle, rfl, .nil, hr⟩
      · obtain ⟨after, hrest⟩ | ⟨earlier, failing, later, last, reason, after, hothers, hrest,
          hfails⟩ := ih middle
        · exact Or.inl ⟨after, .cons hr hrest⟩
        · refine Or.inr ⟨listener :: earlier, failing, later, last, reason, after, ?_,
            .cons hr hrest, hfails⟩
          rw [hothers, List.cons_append]

end Listener

namespace Resolver

def noting (resolver : Resolver σ) : Resolver (σ × List Call) :=
  { engine := resolver.engine
    host := resolver.host
    filters := resolver.filters.mapIdx fun i filter => filter.noting (.filter i)
    listeners := (resolver.listeners.mapIdx fun i listener =>
      listener.noting (.listener i)).flatten }

end Resolver

def Progress.noting (progress : Progress σ) (calls : List Call) : Progress (σ × List Call) :=
  ⟨progress.stores, progress.report, progress.outside, calls⟩

end Activation
