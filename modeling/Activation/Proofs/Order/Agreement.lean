import Activation.Proofs.Order.Theorems

namespace Activation

namespace Placement

variable {rank : String → Rank} {links shuffled : Links} {pending : List (String × Nat)}

-- What becomes of members whose predecessors and counts are gone through in the order of two lists.
def settle (rank : String → Rank) (links : Links) (pending : List (String × Nat)) :
    Except (List String) (List String) :=
  let final := run rank links links.length (startFrom rank pending)
  if final.placed.length < links.length then
    .error (Cycle.find (byRank rank final.waiting) links.predecessors final.waiting)
  else .ok final.placed

-- Both runs are greedy and get stuck. So they place the same modules and leave the same ones.
theorem settle_perm (hrank : Function.Injective rank) (hlinks : links.Ranked rank)
    (hs : shuffled.Perm links) (hp : pending.Perm shuffled.counts) :
    settle rank shuffled pending = settle rank links links.counts := by
  have hshuffled := hlinks.perm hs
  have hmem := Links.mem_members_perm hs
  have hpredecessors := Links.predecessors_perm hlinks.nodup hs
  have hedge := Links.edge_perm hlinks.nodup hs
  obtain ⟨h, hready⟩ := run_startFrom_invariant hrank hlinks (List.Perm.refl links.counts)
  obtain ⟨h', hready'⟩ := run_startFrom_invariant hrank hshuffled hp
  -- the shuffled run is greedy and stuck for the members and edges of the other one, too
  have hgreedy := h'.greedy
  have hstuck := h'.stuck hready'
  rw [hedge, greedy_congr _ _ hmem] at hgreedy
  rw [hedge, stuck_congr _ hmem] at hstuck
  have hplaced := hgreedy.unique h.greedy hstuck (h.stuck hready)
  have hwaiting : ∀ member,
      member ∈ (run rank shuffled shuffled.length (startFrom rank pending)).waiting ↔
        member ∈ (run rank links links.length (startFrom rank links.counts)).waiting := by
    intro member
    rw [h'.mem_waiting_iff hshuffled hready', h.mem_waiting_iff hlinks hready, hmem, hplaced]
  rw [settle, settle]
  simp only [hplaced, byRank_congr hrank hwaiting, hpredecessors, Cycle.find_congr hwaiting]
  rw [hs.length_eq]

end Placement

namespace Precedence

open Placement

variable {precedence other : Precedence} {modules : List String} {earlier later : String}

theorem settle_links (precedence : Precedence) (modules : List String) {links : Links}
    {pending : List (String × Nat)} (hlinks : links.Perm (precedence.links (Name.distinct modules)))
    (hpending : pending.Perm links.counts) :
    (settle precedence.rank links pending).mapError .orderingCycle = precedence.sort modules := by
  rw [settle_perm precedence.rank_injective (precedence.ranked_distinct modules) hlinks hpending,
    sort_eq, arrange, settle, ← start_eq_startFrom, ← ofLinks, length_links]

def withHints (precedence : Precedence) (module : String) (hints : Hints) : Precedence :=
  { precedence with metadata := precedence.metadata.insert module hints }

def hintsOf (precedence : Precedence) (module : String) : Hints :=
  (precedence.metadata.get? module).getD {}

def addAfter (precedence : Precedence) (later earlier : String) : Precedence :=
  precedence.withHints later { precedence.hintsOf later with
    after := earlier :: (precedence.hintsOf later).after }

def addBefore (precedence : Precedence) (earlier later : String) : Precedence :=
  precedence.withHints earlier { precedence.hintsOf earlier with
    before := later :: (precedence.hintsOf earlier).before }

theorem after_eq (precedence : Precedence) (module : String) :
    precedence.metadata.after module = (precedence.hintsOf module).after := by
  rw [Metadata.after, hintsOf]
  cases precedence.metadata.get? module <;> rfl

theorem before_eq (precedence : Precedence) (module : String) :
    precedence.metadata.before module = (precedence.hintsOf module).before := by
  rw [Metadata.before, hintsOf]
  cases precedence.metadata.get? module <;> rfl

theorem rank_eq (precedence : Precedence) (module : String) :
    precedence.rank module = ⟨(precedence.hintsOf module).order.getD 0,
      precedence.positions.get? module, module⟩ := by
  rw [rank, Metadata.orderOf, hintsOf]
  cases precedence.metadata.get? module <;> rfl

theorem hintsOf_withHints (precedence : Precedence) (module : String) (hints : Hints)
    (other : String) : (precedence.withHints module hints).hintsOf other =
      if other = module then hints else precedence.hintsOf other := by
  by_cases ho : other = module <;> simp [hintsOf, withHints, ho]

theorem constrains_iff (precedence : Precedence) (earlier later : String) :
    precedence.Constrains earlier later ↔ earlier ∈ (precedence.hintsOf later).after ∨
      later ∈ (precedence.hintsOf earlier).before := by
  rw [Constrains, after_eq, before_eq]

theorem constrains_addAfter (a b : String) :
    (precedence.addAfter later earlier).Constrains a b ↔
      precedence.Constrains a b ∨ a = earlier ∧ b = later := by
  simp only [constrains_iff, addAfter, hintsOf_withHints]
  grind

theorem constrains_addBefore (a b : String) :
    (precedence.addBefore earlier later).Constrains a b ↔
      precedence.Constrains a b ∨ a = earlier ∧ b = later := by
  simp only [constrains_iff, addBefore, hintsOf_withHints]
  grind

theorem rank_withHints {hints : Hints} {module : String}
    (ho : hints.order = (precedence.hintsOf module).order) (other : String) :
    (precedence.withHints module hints).rank other = precedence.rank other := by
  rw [rank_eq, rank_eq, hintsOf_withHints]
  split
  · rename_i he
    rw [ho, he]
    rfl
  · rfl

theorem rank_addAfter (module : String) :
    (precedence.addAfter later earlier).rank module = precedence.rank module := by
  apply rank_withHints
  rfl

theorem rank_addBefore (module : String) :
    (precedence.addBefore earlier later).rank module = precedence.rank module := by
  apply rank_withHints
  rfl

theorem agrees_addBefore :
    (precedence.addAfter later earlier).Agrees (precedence.addBefore earlier later) modules := by
  refine ⟨fun a _ b _ => ?_, fun a _ b _ => ?_⟩
  · rw [rank_addAfter, rank_addAfter, rank_addBefore, rank_addBefore]
  · rw [constrains_addAfter, constrains_addBefore]

-- A constraint that is there already, or that names a module outside, adds nothing.
theorem agrees_addAfter
    (h : precedence.Constrains earlier later ∨ earlier ∉ modules ∨ later ∉ modules) :
    (precedence.addAfter later earlier).Agrees precedence modules := by
  refine ⟨fun a _ b _ => ?_, fun a ha b hb => ?_⟩
  · rw [rank_addAfter, rank_addAfter]
  · rw [constrains_addAfter, or_iff_left_iff_imp]
    rintro ⟨rfl, rfl⟩
    rcases h with hc | he | hl
    · exact hc
    · exact absurd ha he
    · exact absurd hb hl

theorem agrees_withHints {outsider : String} (hints : Hints) (ho : outsider ∉ modules) :
    (precedence.withHints outsider hints).Agrees precedence modules := by
  have hsame : ∀ module ∈ modules,
      (precedence.withHints outsider hints).hintsOf module = precedence.hintsOf module := by
    intro module hm
    have hne : module ≠ outsider := fun he => ho (he ▸ hm)
    rw [hintsOf_withHints, if_neg hne]
  refine ⟨fun a ha b hb => ?_, fun a ha b hb => ?_⟩
  · rw [rank_eq, rank_eq, rank_eq, rank_eq, hsame a ha, hsame b hb]
    rfl
  · rw [constrains_iff, constrains_iff, hsame a ha, hsame b hb]

-- Sorting is decided by the set of modules, their relative rank and the constraints between them.
-- It does not matter in which order modules or tables are gone through, on which side and how often
-- a constraint is written, or what hints say of modules outside.
theorem sort_determined (precedence : Precedence) (modules : List String) :
    (∀ (other : Precedence) (names : List String), precedence.Agrees other modules →
      (∀ module, module ∈ modules ↔ module ∈ names) →
        precedence.sort modules = other.sort names) ∧
    (∀ names, (∀ module, module ∈ modules ↔ module ∈ names) →
      precedence.sort modules = precedence.sort names) ∧
    (∀ links pending, links.Perm (precedence.links (Name.distinct modules)) →
      pending.Perm links.counts →
        (settle precedence.rank links pending).mapError .orderingCycle =
          precedence.sort modules) ∧
    (∀ earlier later,
      (precedence.addAfter later earlier).sort modules =
        (precedence.addBefore earlier later).sort modules ∧
      (precedence.Constrains earlier later ∨ earlier ∉ modules ∨ later ∉ modules →
        (precedence.addAfter later earlier).sort modules = precedence.sort modules)) ∧
    ∀ outsider hints, outsider ∉ modules →
      (precedence.withHints outsider hints).sort modules = precedence.sort modules := by
  refine ⟨fun other names h hmem => h.sort_eq hmem, fun names hmem => precedence.sort_congr hmem,
    fun links pending => precedence.settle_links modules, fun earlier later => ⟨?_, fun h => ?_⟩,
    fun outsider hints ho => ?_⟩
  · exact agrees_addBefore.sort_eq fun _ => Iff.rfl
  · exact (agrees_addAfter h).sort_eq fun _ => Iff.rfl
  · exact (agrees_withHints hints ho).sort_eq fun _ => Iff.rfl

-- The constraint of "b" stands on the other side, and twice; orders and positions are others, and
-- "d" is not sorted.
def restated : Precedence :=
  .ofDeclared ((Metadata.empty.insert "a" { order := some 2, before := ["b", "b", "d"] }).insert "b"
    { order := some 3 } |>.insert "d" { after := ["a"], before := ["c"] }) ["d", "c", "b", "a"]

theorem sort_determined_lateFirst :
    lateFirst.Agrees restated ["b", "a", "c", "a"] ∧
      (∀ module, module ∈ ["b", "a", "c", "a"] ↔ module ∈ ["c", "b", "b", "a"]) ∧
      restated.sort ["c", "b", "b", "a"] = .ok ["c", "a", "b"] ∧
      (settle lateFirst.rank (lateFirst.links ["a", "c", "b"])
        [("c", 0), ("b", 1), ("a", 0)]).mapError .orderingCycle =
          (.ok ["c", "a", "b"] : Except Error _) := by
  have h : lateFirst.Agrees restated ["b", "a", "c", "a"] := ⟨by decide, by decide⟩
  have hmem : ∀ module, module ∈ ["b", "a", "c", "a"] ↔ module ∈ ["c", "b", "b", "a"] := by
    intro module
    simp only [List.mem_cons, List.not_mem_nil, or_false]
    tauto
  have hsort : lateFirst.sort ["b", "a", "c", "a"] = .ok ["c", "a", "b"] := by decide
  obtain ⟨hother, -, htables, -⟩ := sort_determined lateFirst ["b", "a", "c", "a"]
  refine ⟨h, hmem, ?_, ?_⟩
  · rw [← hother restated _ h hmem, hsort]
  · rw [htables _ _ (by decide) (by decide), hsort]

end Precedence

end Activation
