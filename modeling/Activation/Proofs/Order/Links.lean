import Activation.Proofs.Order.Gathering
import Activation.Proofs.Order.Rank

namespace Activation

namespace Links

def members (links : Links) : List String := links.map Prod.fst

def Edge (links : Links) (earlier later : String) : Prop := earlier ∈ links.predecessors later

-- Members are different, and each has its predecessors in strict order of rank.
structure Ranked (rank : String → Rank) (links : Links) : Prop where
  nodup : links.members.Nodup
  ranked : ∀ member, (links.predecessors member).Pairwise fun a b => rank a < rank b
  mem_of_edge : ∀ earlier later, links.Edge earlier later → earlier ∈ links.members

def counts (links : Links) : List (String × Nat) :=
  links.map fun link => (link.1, link.2.length)

@[simp]
theorem members_counts (links : Links) : links.counts.map Prod.fst = links.members := by
  rw [counts, List.map_map]
  rfl

theorem predecessors_perm {links shuffled : Links} (hn : links.members.Nodup)
    (hs : shuffled.Perm links) : shuffled.predecessors = links.predecessors := by
  funext member
  rw [predecessors, predecessors, Name.lookup_perm hn hs]

theorem edge_perm {links shuffled : Links} (hn : links.members.Nodup)
    (hs : shuffled.Perm links) : shuffled.Edge = links.Edge := by
  funext earlier later
  rw [Edge, Edge, predecessors_perm hn hs]

theorem mem_members_perm {links shuffled : Links} (hs : shuffled.Perm links) (member : String) :
    member ∈ shuffled.members ↔ member ∈ links.members :=
  (hs.map Prod.fst).mem_iff

theorem Ranked.perm {rank : String → Rank} {links shuffled : Links} (h : links.Ranked rank)
    (hs : shuffled.Perm links) : shuffled.Ranked rank := by
  refine ⟨(hs.map Prod.fst).nodup_iff.mpr h.nodup, fun member => ?_, fun earlier later he => ?_⟩
  · rw [predecessors_perm h.nodup hs]
    exact h.ranked member
  · rw [edge_perm h.nodup hs] at he
    exact (mem_members_perm hs earlier).mpr (h.mem_of_edge earlier later he)

theorem mem_of_edge_right {links : Links} {earlier later : String}
    (h : links.Edge earlier later) : later ∈ links.members := by
  by_contra hn
  rw [Edge, predecessors, Name.lookup_eq_none_of_notMem hn] at h
  exact List.not_mem_nil h

theorem mem_successors {links : Links} (hn : links.members.Nodup) (earlier later : String) :
    later ∈ links.successors earlier ↔ links.Edge earlier later := by
  rw [successors, List.mem_flatMap, Edge, predecessors]
  simp only [List.mem_replicate, ne_eq, List.count_eq_zero, not_not]
  constructor
  · rintro ⟨link, hm, he, rfl⟩
    rw [Name.lookup_of_mem hn hm]
    exact he
  · intro he
    cases hl : links.lookup later with
    | none => simp [hl] at he
    | some earliest =>
        rw [hl, Option.getD_some] at he
        exact ⟨(later, earliest), Name.mem_of_lookup hl, he, rfl⟩

theorem successors_eq_filterMap {links : Links} (hrows : ∀ link ∈ links, link.2.Nodup)
    (member : String) :
    links.successors member =
      links.filterMap fun link => if member ∈ link.2 then some link.1 else none := by
  induction links with
  | nil => rfl
  | cons link rest ih =>
      obtain ⟨hlink, hrest⟩ := List.forall_mem_cons.mp hrows
      rw [successors, List.flatMap_cons, ← successors, ih hrest]
      by_cases hm : member ∈ link.2
      · rw [List.count_eq_one_of_mem hlink hm, List.filterMap_cons, if_pos hm]
        rfl
      · rw [List.count_eq_zero_of_not_mem hm, List.filterMap_cons, if_neg hm]
        rfl

theorem Ranked.nodup_row {rank : String → Rank} {links : Links} (h : links.Ranked rank) :
    ∀ link ∈ links, link.2.Nodup := by
  intro link hm
  have hranked := h.ranked link.1
  rw [predecessors, Name.lookup_of_mem h.nodup hm] at hranked
  exact nodup_of_pairwise_rank hranked

theorem Ranked.nodup_successors {rank : String → Rank} {links : Links} (h : links.Ranked rank)
    (earlier : String) : (links.successors earlier).Nodup := by
  rw [successors_eq_filterMap h.nodup_row]
  exact Name.nodup_filterMap_value h.nodup (earlier ∈ ·)

-- A successor that is gone through after some others is none of them.
theorem Ranked.notMem_of_successors_eq {rank : String → Rank} {links : Links}
    (h : links.Ranked rank) {earlier member : String} {done rest : List String}
    (hs : links.successors earlier = done ++ member :: rest) : done.Nodup ∧ member ∉ done := by
  have hnodup := h.nodup_successors earlier
  rw [hs, List.nodup_append] at hnodup
  exact ⟨hnodup.1, fun hm => hnodup.2.2 member hm member List.mem_cons_self rfl⟩

end Links

namespace Precedence

-- One module of a list has to come before another one, as the hints of either say.
def Before (precedence : Precedence) (modules : List String) (earlier later : String) : Prop :=
  earlier ∈ modules ∧ later ∈ modules ∧
    (earlier ∈ precedence.metadata.after later ∨ later ∈ precedence.metadata.before earlier)

-- The hints of one of two modules put the first before the second.
def Constrains (precedence : Precedence) (earlier later : String) : Prop :=
  earlier ∈ precedence.metadata.after later ∨ later ∈ precedence.metadata.before earlier

instance (precedence : Precedence) (earlier later : String) :
    Decidable (precedence.Constrains earlier later) :=
  inferInstanceAs (Decidable (_ ∨ _))

instance (precedence : Precedence) (modules : List String) (earlier later : String) :
    Decidable (precedence.Before modules earlier later) :=
  inferInstanceAs (Decidable (_ ∧ _ ∧ (_ ∨ _)))

theorem mem_rowOf_clauses (precedence : Precedence) {modules : List String} {later : String}
    (hl : later ∈ modules) (earlier : String) :
    earlier ∈ rowOf modules (precedence.clauses modules) later ↔
      precedence.Before modules earlier later := by
  rw [rowOf, List.mem_map]
  simp only [List.mem_filter, decide_eq_true_eq]
  constructor
  · rintro ⟨clause, ⟨hc, ho, rfl⟩, rfl⟩
    obtain ⟨hm, ⟨other, hother, heq⟩ | ⟨other, hother, heq⟩⟩ := mem_clauses_iff.mp hc
    · rw [heq] at ho hl ⊢
      exact ⟨ho, hl, Or.inl hother⟩
    · rw [heq] at ho hl ⊢
      exact ⟨hm, hl, Or.inr hother⟩
  · rintro ⟨he, -, ha | hb⟩
    · exact ⟨.after later earlier,
        ⟨mem_clauses_iff.mpr ⟨hl, Or.inl ⟨earlier, ha, rfl⟩⟩, he, rfl⟩, rfl⟩
    · exact ⟨.before earlier later,
        ⟨mem_clauses_iff.mpr ⟨he, Or.inr ⟨later, hb, rfl⟩⟩, hl, rfl⟩, rfl⟩

@[simp]
theorem members_links (precedence : Precedence) (modules : List String) :
    (precedence.links modules).members = modules := by
  rw [Links.members, links, Gathering.links, List.map_map]
  exact (precedence.gathered_gather modules).names

theorem predecessors_links (precedence : Precedence) {modules : List String} {later : String}
    (hl : later ∈ modules) :
    (precedence.links modules).predecessors later =
      byRank precedence.rank (rowOf modules (precedence.clauses modules) later) := by
  rw [Links.predecessors, links, Gathering.links, Name.lookup_map_value,
    (precedence.gathered_gather modules).rows later hl]
  rfl

theorem edge_links (precedence : Precedence) (modules : List String) (earlier later : String) :
    (precedence.links modules).Edge earlier later ↔ precedence.Before modules earlier later := by
  by_cases hl : later ∈ modules
  · simp [Links.Edge, predecessors_links precedence hl, mem_rowOf_clauses precedence hl]
  · refine iff_of_false (fun he => hl ?_) fun hb => hl hb.2.1
    rw [← members_links precedence modules]
    exact Links.mem_of_edge_right he

theorem ranked_links (precedence : Precedence) {modules : List String} (hn : modules.Nodup) :
    (precedence.links modules).Ranked precedence.rank := by
  refine ⟨(members_links precedence modules).symm ▸ hn, fun member => ?_,
    fun earlier later he => ?_⟩
  · by_cases hm : member ∈ modules
    · rw [predecessors_links precedence hm]
      exact pairwise_byRank precedence.rank_injective _
    · rw [Links.predecessors, Name.lookup_eq_none_of_notMem (fun h => hm ?_)]
      · exact List.Pairwise.nil
      · rw [← members_links precedence modules]
        exact h
  · rw [members_links]
    exact ((precedence.edge_links modules earlier later).mp he).1

end Precedence

end Activation
