import Activation.Proofs.Noting

namespace Activation

namespace Filter

variable {σ : Type} {filters earlier : List (Filter σ)} {candidates : List String}
  {metadata : Metadata} {state middle after : σ} {answers : List (List Bool)}
  {result : Except Error (List String)} {calls : List Call}

section View

-- Every answer is for the candidate at a position.
def Approved (answers : List (List Bool)) (position : Nat) : Prop :=
  ∀ answer ∈ answers, answer[position]? = some true

instance (answers : List (List Bool)) : DecidablePred (Approved answers) := fun position =>
  inferInstanceAs (Decidable (∀ answer ∈ answers, answer[position]? = some true))

-- What is shown after some answers: in its slot, every candidate that all of them are for.
def view (candidates : List String) (answers : List (List Bool)) : Slots :=
  candidates.mapIdx fun position module =>
    if Approved answers position then some module else none

-- The candidates that all answers are for, in their order.
def approvedOf (candidates : List String) (answers : List (List Bool)) : List String :=
  (candidates.zipIdx.filter fun entry => decide (Approved answers entry.2)).map Prod.fst

private theorem approved_append (answers later : List (List Bool)) (position : Nat) :
    Approved (answers ++ later) position ↔ Approved answers position ∧ Approved later position :=
  List.forall_mem_append

@[simp]
theorem length_view (candidates : List String) (answers : List (List Bool)) :
    (view candidates answers).length = candidates.length :=
  List.length_mapIdx

@[simp]
theorem view_nil (candidates : List String) : view candidates [] = candidates.map some := by
  apply List.ext_getElem?
  intro position
  rw [view, List.getElem?_mapIdx, List.getElem?_map]
  have hall : Approved [] position := List.forall_mem_nil _
  simp only [if_pos hall]

theorem mask_view {verdicts : List Bool} (hcount : verdicts.length = candidates.length)
    (answers : List (List Bool)) :
    mask (view candidates answers) verdicts = view candidates (answers ++ [verdicts]) := by
  apply List.ext_getElem?
  intro position
  rw [mask, List.getElem?_zipWith, view, view, List.getElem?_mapIdx, List.getElem?_mapIdx]
  by_cases hp : position < candidates.length
  · have hv : position < verdicts.length := hcount ▸ hp
    have hlast : Approved [verdicts] position ↔ verdicts[position] = true := by
      simp [Approved, hv]
    rw [List.getElem?_eq_getElem hp, List.getElem?_eq_getElem hv]
    simp only [Option.map_some, approved_append, hlast]
    by_cases ht : verdicts[position] = true <;> simp [ht]
  · rw [List.getElem?_eq_none (Nat.le_of_not_lt hp)]
    rfl

theorem filterMap_view (candidates : List String) (answers : List (List Bool)) :
    (view candidates answers).filterMap id = approvedOf candidates answers := by
  rw [view, approvedOf, List.mapIdx_eq_zipIdx_map, List.filterMap_map, ← List.filterMap_eq_map,
    List.filterMap_filter]
  congr 1
  funext entry
  by_cases ha : Approved answers entry.2 <;> simp [ha]

theorem approvedOf_sublist (candidates : List String) (answers : List (List Bool)) :
    (approvedOf candidates answers).Sublist candidates := by
  have hentries := (List.filter_sublist (l := candidates.zipIdx)
    (p := fun entry => decide (Approved answers entry.2))).map Prod.fst
  rwa [List.zipIdx_map_fst] at hentries

theorem view_append_of_none {position : Nat}
    (h : (view candidates answers)[position]? = some none) (later : List (List Bool)) :
    (view candidates (answers ++ later))[position]? = some none := by
  rw [view, List.getElem?_mapIdx] at h ⊢
  obtain ⟨module, hm, hslot⟩ := Option.map_eq_some_iff.mp h
  rw [hm, Option.map_some, if_neg]
  rw [approved_append]
  rintro ⟨ha, -⟩
  rw [if_pos ha] at hslot
  cases hslot

end View

section Asked

-- Filters that are asked one after the other and give one verdict for every candidate, with their
-- answers. Each is shown what the answers before it have left.
inductive Asked (metadata : Metadata) (candidates : List String) (state : σ) :
    List (Filter σ) → List (List Bool) → σ → Prop where
  | nil : Asked metadata candidates state [] [] state
  | snoc {earlier : List (Filter σ)} {filter : Filter σ} {answers : List (List Bool)}
      {verdicts : List Bool} {middle after : σ}
      (asked : Asked metadata candidates state earlier answers middle)
      (answered : filter.answer (view candidates answers) metadata middle = (.ok verdicts, after))
      (counted : verdicts.length = candidates.length) :
      Asked metadata candidates state (earlier ++ [filter]) (answers ++ [verdicts]) after

def callsOf (candidates : List String) (answers : List (List Bool)) (count : Nat) : List Call :=
  (List.range count).map fun k => .filter k (view candidates (answers.take k))

-- How screening can go: with what result, leaving what behind, and after which calls.
inductive Screening (filters : List (Filter σ)) (candidates : List String) (metadata : Metadata)
    (state : σ) : Except Error (List String) → σ → List Call → Prop where
  | passed {answers : List (List Bool)} {after : σ}
      (asked : Asked metadata candidates state filters answers after) :
      Screening filters candidates metadata state (.ok (approvedOf candidates answers)) after
        (callsOf candidates answers filters.length)
  | failed {earlier later : List (Filter σ)} {filter : Filter σ} {answers : List (List Bool)}
      {middle after : σ} {reason : String} (chain : filters = earlier ++ filter :: later)
      (asked : Asked metadata candidates state earlier answers middle)
      (answered : filter.answer (view candidates answers) metadata middle =
        (.error reason, after)) :
      Screening filters candidates metadata state
        (.error (.extension s!"filter '{filter.name}'" reason)) after
        (callsOf candidates answers (earlier.length + 1))
  | miscounted {earlier later : List (Filter σ)} {filter : Filter σ} {answers : List (List Bool)}
      {middle after : σ} {verdicts : List Bool} (chain : filters = earlier ++ filter :: later)
      (asked : Asked metadata candidates state earlier answers middle)
      (answered : filter.answer (view candidates answers) metadata middle = (.ok verdicts, after))
      (miscounted : verdicts.length ≠ candidates.length) :
      Screening filters candidates metadata state
        (.error (.verdictCount filter.name candidates.length verdicts.length)) after
        (callsOf candidates answers (earlier.length + 1))

theorem Asked.length_answers (h : Asked metadata candidates state earlier answers after) :
    answers.length = earlier.length := by
  induction h with
  | nil => rfl
  | snoc _ _ _ ih => rw [List.length_append, List.length_append, ih]; rfl

-- What is shown up to some answers, in the order of the calls.
def shownTo (candidates : List String) (answers : List (List Bool)) : List Slots :=
  (List.range answers.length).map fun k => view candidates (answers.take k)

private theorem shownTo_append (candidates : List String) (answers : List (List Bool))
    (verdicts : List Bool) :
    shownTo candidates (answers ++ [verdicts]) =
      shownTo candidates answers ++ [view candidates answers] := by
  rw [shownTo, List.length_append, List.length_singleton, List.range_succ, List.map_append,
    List.map_singleton, List.take_left]
  congr 1
  refine List.map_congr_left fun k hk => ?_
  rw [List.take_append_of_le_length (Nat.le_of_lt (List.mem_range.mp hk))]

theorem mapIdx_shownTo (candidates : List String) (answers : List (List Bool)) :
    (shownTo candidates answers).mapIdx Call.filter =
      callsOf candidates answers answers.length := by
  apply List.ext_getElem <;> simp [shownTo, callsOf]

theorem Asked.passes (h : Asked metadata candidates state earlier answers after) :
    Passes metadata earlier (candidates.map some) state (shownTo candidates answers)
      (view candidates answers) after := by
  induction h with
  | nil => rw [view_nil]; exact .nil
  | snoc _ answered counted ih =>
      rw [shownTo_append, ← mask_view counted]
      exact ih.snoc answered (counted.trans (length_view _ _).symm)

-- A row of filters that passes from some answers on has given further ones.
theorem Passes.asked {slots screened : Slots} {shown : List Slots}
    (h : Passes metadata filters slots middle shown screened after)
    (hslots : slots = view candidates answers)
    (hasked : Asked metadata candidates state earlier answers middle) :
    ∃ later, Asked metadata candidates state (earlier ++ filters) (answers ++ later) after ∧
      screened = view candidates (answers ++ later) := by
  induction h generalizing earlier answers with
  | nil => exact ⟨[], by rwa [List.append_nil, List.append_nil], by rwa [List.append_nil]⟩
  | @cons filter others slots screened middle next after verdicts shown answered counted _ ih =>
      subst hslots
      rw [length_view] at counted
      obtain ⟨later, hlater, hscreened⟩ := ih (mask_view counted answers)
        (hasked.snoc answered counted)
      rw [List.append_assoc] at hlater hscreened
      rw [List.append_assoc] at hlater
      exact ⟨verdicts :: later, hlater, hscreened⟩

private theorem fails_of_miscounted {filter : Filter σ} {verdicts : List Bool}
    (answered : filter.answer (view candidates answers) metadata middle = (.ok verdicts, after))
    (miscounted : verdicts.length ≠ candidates.length) :
    filter.Fails metadata (view candidates answers) middle
      (.verdictCount filter.name candidates.length verdicts.length) after := by
  rw [← length_view candidates answers] at miscounted ⊢
  exact .verdictCount answered miscounted

end Asked

section Noted

-- The notes tell the calls, and change nothing else.
theorem Asked.screen_eq (h : Asked metadata candidates state filters answers after) :
    screen filters candidates metadata state = (.ok (approvedOf candidates answers), after) ∧
      screen (notingAll filters) candidates metadata (state, []) =
        (.ok (approvedOf candidates answers), after,
          callsOf candidates answers filters.length) := by
  have hplain := h.passes.screen_eq
  have hnoting := (h.passes.noting .filter []).screen_eq
  rw [filterMap_view] at hplain hnoting
  rw [mapIdx_shownTo, h.length_answers] at hnoting
  exact ⟨hplain, hnoting⟩

theorem Asked.screen_of_fails {filter : Filter σ} {error : Error}
    (h : Asked metadata candidates state earlier answers middle)
    (hfails : filter.Fails metadata (view candidates answers) middle error after)
    (later : List (Filter σ)) :
    screen (earlier ++ filter :: later) candidates metadata state = (.error error, after) ∧
      screen (notingAll (earlier ++ filter :: later)) candidates metadata (state, []) =
        (.error error, after, callsOf candidates answers (earlier.length + 1)) := by
  refine ⟨h.passes.screen_of_fails hfails later, ?_⟩
  obtain ⟨others, hothers⟩ := notingAll_append earlier later filter
  have hcalls : callsOf candidates answers (earlier.length + 1) =
      (shownTo candidates answers).mapIdx .filter ++
        [.filter earlier.length (view candidates answers)] := by
    rw [mapIdx_shownTo, callsOf, callsOf, List.range_succ, List.map_append, ← h.length_answers,
      List.map_singleton, List.take_length]
  rw [hothers, hcalls]
  exact (h.passes.noting .filter []).screen_of_fails
    (hfails.noting (.filter earlier.length) _) others

theorem Screening.screen_eq
    (h : Screening filters candidates metadata state result after calls) :
    screen filters candidates metadata state = (result, after) ∧
      screen (notingAll filters) candidates metadata (state, []) = (result, after, calls) := by
  cases h with
  | passed asked => exact asked.screen_eq
  | failed chain asked answered => exact chain ▸ asked.screen_of_fails (.extension answered) _
  | miscounted chain asked answered miscounted =>
      exact chain ▸ asked.screen_of_fails (fails_of_miscounted answered miscounted) _

theorem exists_screening (filters : List (Filter σ)) (candidates : List String)
    (metadata : Metadata) (state : σ) :
    ∃ result after calls, Screening filters candidates metadata state result after calls := by
  have hstart := (view_nil candidates).symm
  obtain ⟨shown, screened, after, hpassed⟩ | ⟨earlier, filter, later, shown, screened, middle,
    error, after, hchain, hpassed, hfails⟩ :=
      passes_or_fails metadata filters (candidates.map some) state
  · obtain ⟨answers, hasked, -⟩ := hpassed.asked hstart .nil
    exact ⟨_, _, _, .passed hasked⟩
  · obtain ⟨answers, hasked, rfl⟩ := hpassed.asked hstart .nil
    cases hfails with
    | extension answered => exact ⟨_, _, _, .failed hchain hasked answered⟩
    | verdictCount answered miscounted =>
        rw [length_view] at miscounted
        exact ⟨_, _, _, .miscounted hchain hasked answered miscounted⟩

theorem sublist_of_screen {accepted : List String}
    (h : (screen filters candidates metadata state).1 = .ok accepted) :
    accepted.Sublist candidates := by
  obtain ⟨result, after, calls, hscreening⟩ := exists_screening filters candidates metadata state
  rw [hscreening.screen_eq.1] at h
  cases hscreening with
  | passed asked => exact Except.ok.inj h ▸ approvedOf_sublist _ _
  | failed | miscounted => cases h

end Noted

-- Filters are asked in their order, once each, until one of them fails or gives a wrong number of
-- verdicts. Each is shown the candidates that no earlier one rejected, in their places, and those
-- that none rejects are left. A candidate that is rejected does not come back.
theorem screen_asks_until_failure (filters : List (Filter σ)) (candidates : List String)
    (metadata : Metadata) (state : σ) :
    ∃ result after calls, screen filters candidates metadata state = (result, after) ∧
      screen (notingAll filters) candidates metadata (state, []) = (result, after, calls) ∧
      Screening filters candidates metadata state result after calls ∧
      (∀ other last others, Screening filters candidates metadata state other last others →
        other = result ∧ last = after ∧ others = calls) ∧
      ∀ answers, (view candidates answers).length = candidates.length ∧
        (approvedOf candidates answers).Sublist candidates ∧
        ∀ (later : List (List Bool)) (position : Nat),
          (view candidates answers)[position]? = some none →
            (view candidates (answers ++ later))[position]? = some none := by
  obtain ⟨result, after, calls, hscreening⟩ := exists_screening filters candidates metadata state
  obtain ⟨hplain, hnoting⟩ := hscreening.screen_eq
  refine ⟨result, after, calls, hplain, hnoting, hscreening, fun other last others ho => ?_,
    fun answers => ⟨length_view _ _, approvedOf_sublist _ _, fun later position h =>
      view_append_of_none h later⟩⟩
  rw [ho.screen_eq.2] at hnoting
  obtain ⟨hresult, hnoted⟩ := Prod.mk.inj hnoting
  obtain ⟨hafter, hcalls⟩ := Prod.mk.inj hnoted
  exact ⟨hresult, hafter, hcalls⟩

-- The first filter is against the first place, whatever stands there. The second one is for every
-- slot, even an empty one, and the third one gives no verdicts.
def mixedFilters : List (Filter Nat) :=
  [⟨.custom "first" fun _ slots _ asked =>
      (.ok (slots.mapIdx fun position _ => decide (position ≠ 0)), asked + 1), []⟩,
    ⟨.custom "lenient" fun _ slots _ asked => (.ok (slots.map fun _ => true), asked + 1), []⟩,
    ⟨.custom "short" fun _ _ _ asked => (.ok [], asked + 1), []⟩,
    ⟨.custom "broken" fun _ _ _ asked => (.error "broken", asked + 1), []⟩]

theorem screen_asks_until_failure_mixedFilters :
    Screening mixedFilters ["a", "b", "a"] .empty 0 (.error (.verdictCount "short" 3 0)) 3
        [.filter 0 [some "a", some "b", some "a"], .filter 1 [none, some "b", some "a"],
          .filter 2 [none, some "b", some "a"]] ∧
      Screening (mixedFilters.take 2) ["a", "b", "a"] .empty 0 (.ok ["b", "a"]) 2
        [.filter 0 [some "a", some "b", some "a"], .filter 1 [none, some "b", some "a"]] := by
  obtain ⟨result, after, calls, -, hnoting, hscreening, -⟩ :=
    screen_asks_until_failure mixedFilters ["a", "b", "a"] .empty 0
  obtain ⟨left, last, others, -, hnoted, hpassed, -⟩ :=
    screen_asks_until_failure (mixedFilters.take 2) ["a", "b", "a"] .empty 0
  cases hnoting
  cases hnoted
  exact ⟨hscreening, hpassed⟩

end Filter

end Activation
