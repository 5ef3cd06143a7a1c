import Activation.Proofs.Order.Sort

namespace Activation.Precedence

variable {precedence : Precedence} {modules : List String} {note : Note}

-- The notes on the hints of one module, those on earlier modules first.
def notesOf (precedence : Precedence) (modules : List String) (module : String) : List Note :=
  ((precedence.metadata.after module).filter (· ∉ modules)).map (precedence.noteOn module) ++
    ((precedence.metadata.before module).filter (· ∉ modules)).map (precedence.noteOn module)

def IsKnown (precedence : Precedence) (module : String) : Prop :=
  precedence.positions.contains module = true ∨ precedence.metadata.knows module = true

private theorem outside_clausesOf (precedence : Precedence) (modules : List String)
    (module : String) :
    (outside modules (precedence.clausesOf module)).map precedence.noteOf =
      precedence.notesOf modules module := by
  rw [outside, clausesOf, List.filter_append, List.filter_map, List.filter_map, List.map_append,
    List.map_map, List.map_map]
  rfl

theorem notes_eq_flatMap (precedence : Precedence) (modules : List String) :
    precedence.notes modules = (Name.distinct modules).flatMap (precedence.notesOf modules) := by
  have hmem : ∀ clause : Clause,
      decide (clause.other ∉ Name.distinct modules) = decide (clause.other ∉ modules) :=
    fun _ => by simp
  rw [notes_eq, (precedence.gathered_gather _).notes, outside]
  simp only [hmem]
  rw [clauses, List.filter_flatMap, List.map_flatMap]
  exact congrArg (List.flatMap · _)
    (funext fun module => precedence.outside_clausesOf modules module)

theorem level_noteOn (precedence : Precedence) (module other : String) :
    ((precedence.noteOn module other).level = .debug ↔ precedence.IsKnown other) ∧
      ((precedence.noteOn module other).level = .warn ↔ ¬ precedence.IsKnown other) := by
  rw [noteOn, IsKnown, ← Bool.or_eq_true]
  cases precedence.positions.contains other || precedence.metadata.knows other with
  | true => exact ⟨iff_of_true rfl rfl, iff_of_false nofun fun h => h rfl⟩
  | false => exact ⟨iff_of_false nofun nofun, iff_of_true rfl nofun⟩

private theorem noteOn_parts (precedence : Precedence) (module other : String) :
    (precedence.noteOn module other).module = module ∧
      (precedence.noteOn module other).other = other := by
  rw [noteOn]
  split
  · exact ⟨rfl, rfl⟩
  · exact ⟨rfl, rfl⟩

theorem mem_notes_iff : note ∈ precedence.notes modules ↔
    note = precedence.noteOn note.module note.other ∧ note.module ∈ modules ∧
      note.other ∉ modules ∧ (note.other ∈ precedence.metadata.after note.module ∨
        note.other ∈ precedence.metadata.before note.module) := by
  rw [notes_eq_flatMap, List.mem_flatMap]
  simp only [notesOf, List.mem_append, List.mem_map, List.mem_filter, decide_eq_true_eq,
    Name.mem_distinct]
  constructor
  · rintro ⟨module, hm, ⟨other, ⟨hc, ho⟩, rfl⟩ | ⟨other, ⟨hc, ho⟩, rfl⟩⟩ <;>
      obtain ⟨hmodule, hother⟩ := precedence.noteOn_parts module other <;>
      rw [hmodule, hother]
    · exact ⟨rfl, hm, ho, Or.inl hc⟩
    · exact ⟨rfl, hm, ho, Or.inr hc⟩
  · rintro ⟨hnote, hm, ho, ha | hb⟩
    · exact ⟨note.module, hm, Or.inl ⟨note.other, ⟨ha, ho⟩, hnote.symm⟩⟩
    · exact ⟨note.module, hm, Or.inr ⟨note.other, ⟨hb, ho⟩, hnote.symm⟩⟩

private theorem accounted_of_split {done rest : List Clause} {clause : Clause}
    (h : precedence.clauses (Name.distinct modules) = done ++ clause :: rest) :
    Accounted precedence modules clause
      (precedence.gatherClauses (Name.distinct modules) done)
      (precedence.gatherClauses (Name.distinct modules) (done ++ [clause])) := by
  have hmodule : ∀ other ∈ done ++ [clause], other.module ∈ Name.distinct modules := by
    intro other ho
    have hclause : other ∈ precedence.clauses (Name.distinct modules) := by
      rw [h, List.append_cons]
      exact List.mem_append_left _ ho
    exact (mem_clauses_iff.mp hclause).1
  have hdone := precedence.gathered_gatherClauses fun other ho =>
    hmodule other (List.mem_append_left _ ho)
  have hlast := hmodule clause (List.mem_append_right _ (List.mem_singleton_self clause))
  rw [gatherClauses_append]
  exact (accounted_gatherClause hdone.names hlast).congr fun _ => Name.mem_distinct

theorem edge_links_iff_clause (precedence : Precedence) (modules : List String)
    (earlier later : String) :
    (precedence.links (Name.distinct modules)).Edge earlier later ↔
      ∃ clause ∈ precedence.clauses (Name.distinct modules), clause.other ∈ modules ∧
        clause.earlier = earlier ∧ clause.later = later := by
  rw [edge_links]
  constructor
  · intro hb
    have hrow := (precedence.mem_rowOf_clauses hb.2.1 earlier).mpr hb
    obtain ⟨clause, hc, he⟩ := List.mem_map.mp hrow
    obtain ⟨hc, ho, hl⟩ := by simpa using List.mem_filter.mp hc
    exact ⟨clause, hc, ho, he, hl⟩
  · rintro ⟨clause, hc, ho, rfl, rfl⟩
    have hother := Name.mem_distinct.mpr ho
    obtain ⟨hm, ⟨other, ha, heq⟩ | ⟨other, hb, heq⟩⟩ := mem_clauses_iff.mp hc
    · rw [heq] at hother ⊢
      exact ⟨hother, hm, Or.inl ha⟩
    · rw [heq] at hother ⊢
      exact ⟨hm, hother, Or.inr hb⟩

theorem isKnown_ofDeclared (metadata : Metadata) (declared : List String) (module : String) :
    (ofDeclared metadata declared).IsKnown module ↔
      module ∈ declared ∨ metadata.knows module = true := by
  rw [IsKnown, NameMap.contains, position_ofDeclared, List.isSome_idxOf?]
  exact Iff.rfl

theorem isKnown_ofCatalog (catalog : Catalog) (point : String) (metadata : Metadata)
    (module : String) :
    (ofCatalog catalog point metadata).IsKnown module ↔
      module ∈ catalog.modules point ∨ metadata.knows module = true := by
  rw [IsKnown, NameMap.contains, position_ofCatalog, List.isSome_idxOf?]
  exact Iff.rfl

-- Every entry of the hints of a member does one of two things when its turn comes, and nothing
-- else: it puts down a constraint if it names a member, and makes one note if not. The notes stand
-- in the order of the entries, and ask for less attention if the module is known.
theorem every_entry_is_kept_or_noted (precedence : Precedence) (modules : List String) :
    (∀ done clause rest, precedence.clauses (Name.distinct modules) = done ++ clause :: rest →
      Accounted precedence modules clause
        (precedence.gatherClauses (Name.distinct modules) done)
        (precedence.gatherClauses (Name.distinct modules) (done ++ [clause]))) ∧
    precedence.gather (Name.distinct modules) = precedence.gatherClauses (Name.distinct modules)
      (precedence.clauses (Name.distinct modules)) ∧
    (∀ earlier later, (precedence.links (Name.distinct modules)).Edge earlier later ↔
      ∃ clause ∈ precedence.clauses (Name.distinct modules), clause.other ∈ modules ∧
        clause.earlier = earlier ∧ clause.later = later) ∧
    precedence.notes modules = (Name.distinct modules).flatMap (precedence.notesOf modules) ∧
    (∀ note, note ∈ precedence.notes modules → note.module ∈ modules ∧ note.other ∉ modules ∧
      (note.level = .debug ↔ precedence.IsKnown note.other) ∧
      (note.level = .warn ↔ ¬ precedence.IsKnown note.other)) ∧
    (∀ metadata declared, precedence = ofDeclared metadata declared → ∀ module,
      precedence.IsKnown module ↔ module ∈ declared ∨ metadata.knows module = true) ∧
    ∀ catalog point metadata, precedence = ofCatalog catalog point metadata → ∀ module,
      precedence.IsKnown module ↔
        module ∈ catalog.modules point ∨ metadata.knows module = true := by
  refine ⟨fun done clause rest => accounted_of_split, precedence.gather_eq_gatherClauses _,
    precedence.edge_links_iff_clause modules, precedence.notes_eq_flatMap modules,
    fun note h => ?_, ?_, ?_⟩
  · obtain ⟨hnote, hm, ho, -⟩ := mem_notes_iff.mp h
    have hlevel := precedence.level_noteOn note.module note.other
    rw [← hnote] at hlevel
    exact ⟨hm, ho, hlevel⟩
  · rintro metadata declared rfl module
    exact isKnown_ofDeclared metadata declared module
  · rintro catalog point metadata rfl module
    exact isKnown_ofCatalog catalog point metadata module

-- Neither of the two can go first. What they say of others is noted all the same, twice for the
-- module that is named twice.
example : (ofDeclared (((Metadata.empty.insert "a"
    { after := ["b", "x", "x"], before := ["y"] }).insert "b" { after := ["a", "z"] }).insert
      "y" {}) ["x"]).notes ["b", "a", "b"] =
      [⟨.warn, "b", "z"⟩, ⟨.debug, "a", "x"⟩, ⟨.debug, "a", "x"⟩, ⟨.debug, "a", "y"⟩] := by
  decide

end Activation.Precedence
