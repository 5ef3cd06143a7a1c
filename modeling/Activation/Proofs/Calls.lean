import Activation.Proofs.Batch
import Activation.Proofs.Order.Theorems

namespace Activation.Batch

variable {σ : Type} {precedence : Precedence} {pairs : List (Site × Entry)} {module : String}
  {error : Error}

-- What resolving comes to for one site after the other, by any means and with a state of its own.
def answers (resolve : Site → σ → Except Error Entry × σ) :
    List Site → σ → List (Site × Except Error Entry)
  | [], _ => []
  | site :: sites, state =>
      let (answer, state) := resolve site state
      (site, answer) :: answers resolve sites state

-- A batch that goes on after a failure.
def processEach (resolve : Site → σ → Except Error Entry × σ) : List Site → Batch → σ → Batch
  | [], batch, _ => batch
  | site :: sites, batch, state =>
      let (answer, state) := resolve site state
      processEach resolve sites (batch.process site answer).2 state

def resolved (answers : List (Site × Except Error Entry)) : List (Site × Entry) :=
  answers.filterMap fun
    | (site, .ok entry) => some (site, entry)
    | (_, .error _) => none

-- What some entry lists and none leaves out.
def Kept (pairs : List (Site × Entry)) (module : String) : Prop :=
  (∃ pair ∈ pairs, module ∈ pair.2.configurations) ∧ ∀ pair ∈ pairs, module ∉ pair.2.exclusions

theorem processEach_eq_recordAll (resolve : Site → σ → Except Error Entry × σ)
    (sites : List Site) (batch : Batch) (state : σ) :
    processEach resolve sites batch state =
      batch.recordAll (resolved (answers resolve sites state)) := by
  induction sites generalizing batch state with
  | nil => rfl
  | cons site sites ih =>
      rw [processEach, answers]
      cases hr : resolve site state with
      | mk answer next =>
          cases answer with
          | ok entry => exact ih (batch.record site entry) next
          | error error => exact ih batch next

theorem mem_merged_iff_kept (precedence : Precedence) (pairs : List (Site × Entry))
    (module : String) :
    module ∈ ((start precedence).recordAll pairs).merged ↔ Kept pairs module := by
  rw [mem_merged, entries_recordAll, start, List.nil_append, List.forall_mem_map, Kept]
  refine and_congr_left fun _ => ?_
  simp only [List.mem_map, exists_exists_and_eq_and]

theorem mem_imports_iff_kept {imports : List Import}
    (h : ((start precedence).recordAll pairs).finalize = .ok imports) (module : String) :
    module ∈ imports.map Import.module ↔ Kept pairs module := by
  obtain ⟨hsort, -⟩ := finalize_recordAll_ok h
  obtain ⟨hgreedy, hall⟩ := (precedence.sort_ok_iff _ _).mp hsort
  rw [← mem_merged_iff_kept precedence]
  exact ⟨hgreedy.free.mem_members, hall module⟩

private theorem exists_first_of_find? {site : Site}
    (h : (pairs.find? fun pair => decide (module ∈ pair.2.configurations)).map Prod.fst =
      some site) :
    ∃ before entry later, pairs = before ++ (site, entry) :: later ∧
      module ∈ entry.configurations ∧ ∀ pair ∈ before, module ∉ pair.2.configurations := by
  obtain ⟨pair, hfind, rfl⟩ := Option.map_eq_some_iff.mp h
  obtain ⟨htest, before, later, hpairs, hskip⟩ := List.find?_eq_some_iff_append.mp hfind
  refine ⟨before, pair.2, later, hpairs, of_decide_eq_true htest, fun other ho => ?_⟩
  simpa using hskip other ho

theorem finalize_error (h : ((start precedence).recordAll pairs).finalize = .error error) :
    ∃ members, error = .orderingCycle members := by
  have hsort := map_module_finalize precedence pairs
  rw [h] at hsort
  obtain ⟨_, members, -, -, he⟩ := (precedence.sort_error_iff _ _).mp hsort.symm
  exact ⟨members, he⟩

-- However sites are resolved, and whichever of them fail: a batch is made of the entries alone. It
-- comes to the modules that some entry lists and none leaves out, in order, and each belongs to the
-- site of the first entry that lists it.
theorem finalize_processEach (resolve : Site → σ → Except Error Entry × σ)
    (precedence : Precedence) (sites : List Site) (state : σ) :
    let batch := processEach resolve sites (start precedence) state
    let pairs := resolved (answers resolve sites state)
    batch = (start precedence).recordAll pairs ∧
    (∀ modules, (∀ module, module ∈ modules ↔ Kept pairs module) →
      batch.finalize.map (List.map Import.module) = precedence.sort modules) ∧
    (∀ imports, batch.finalize = .ok imports →
      (∀ module, module ∈ imports.map Import.module ↔ Kept pairs module) ∧
      (imports.map Import.module).Nodup ∧
      ∀ item ∈ imports, ∃ before entry later, pairs = before ++ (item.site, entry) :: later ∧
        item.module ∈ entry.configurations ∧
        ∀ pair ∈ before, item.module ∉ pair.2.configurations) ∧
    (∀ error, batch.finalize = .error error → ∃ members, error = .orderingCycle members) ∧
    batch.size = pairs.length := by
  intro batch pairs
  have hbatch : batch = (start precedence).recordAll pairs := processEach_eq_recordAll _ _ _ _
  rw [hbatch]
  refine ⟨rfl, fun modules hmodules => ?_, fun imports h => ?_, fun error h => finalize_error h, ?_⟩
  · rw [map_module_finalize]
    apply precedence.sort_congr
    intro module
    rw [hmodules, mem_merged_iff_kept]
  · obtain ⟨hsort, howner⟩ := finalize_recordAll_ok h
    obtain ⟨hgreedy, hall⟩ := (precedence.sort_ok_iff _ _).mp hsort
    refine ⟨fun module => ?_, hgreedy.free.nodup, fun item hitem => ?_⟩
    · rw [← mem_merged_iff_kept precedence]
      exact ⟨hgreedy.free.mem_members, hall module⟩
    · exact exists_first_of_find? (howner item hitem)
  · rw [size, entries_recordAll, start, List.nil_append, List.length_map]

-- Every third answer from the second on is a failure. The third site leaves out what the first one
-- brought in, and the last one its own module.
def failsEveryThird (site : Site) (calls : Nat) : Except Error Entry × Nat :=
  (if calls % 3 = 1 then .error (.extension "resolver" "not now")
    else .ok (.ofResolved ["b", site.origin, "b"] (.ofList site.exclude)), calls + 1)

def sitesExcluding : List Site :=
  [{ origin := "a" }, { origin := "c" }, { origin := "c", exclude := ["a"] },
    { origin := "d", exclude := ["d"] }, { origin := "e" }]

theorem finalize_processEach_failsEveryThird :
    (processEach failsEveryThird sitesExcluding (start Precedence.lateFirst) 0).finalize =
        .ok [⟨{ origin := "c", exclude := ["a"] }, "c"⟩, ⟨{ origin := "a" }, "b"⟩] ∧
      Precedence.lateFirst.sort ["b", "c"] = .ok ["c", "b"] ∧
      (processEach failsEveryThird sitesExcluding (start Precedence.lateFirst) 0).size = 3 := by
  have h : (processEach failsEveryThird sitesExcluding (start Precedence.lateFirst) 0).finalize =
      .ok [⟨{ origin := "c", exclude := ["a"] }, "c"⟩, ⟨{ origin := "a" }, "b"⟩] := by decide
  obtain ⟨-, hsort, himports, -, hsize⟩ :=
    finalize_processEach failsEveryThird Precedence.lateFirst sitesExcluding 0
  have hkept := (himports _ h).1
  refine ⟨h, ?_, hsize⟩
  rw [← hsort ["b", "c"] fun module => ?_, h]
  · rfl
  · rw [← hkept]
    simp [or_comm]

end Activation.Batch
