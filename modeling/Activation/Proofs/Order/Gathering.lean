import Activation.Order.Sort
import Activation.Proofs.Name.Lookup
import Mathlib.Data.List.Induction

namespace Activation

-- An entry of the hints of a module: another module that it comes after, or one that it comes
-- before.
inductive Clause where
  | after (module other : String)
  | before (module other : String)
deriving DecidableEq

namespace Clause

def module : Clause → String
  | .after module _ => module
  | .before module _ => module

def other : Clause → String
  | .after _ other => other
  | .before _ other => other

def earlier : Clause → String
  | .after _ other => other
  | .before module _ => module

def later : Clause → String
  | .after module _ => module
  | .before _ other => other

end Clause

namespace Gathering

variable {later earlier : String} {table : Links}

private theorem names_enter (h : later ∈ table.map Prod.fst) (earlier : String) :
    (enter later earlier table).map Prod.fst = table.map Prod.fst := by
  induction table with
  | nil => cases h
  | cons row rows ih =>
      by_cases he : row.1 = later
      · simp [enter, he]
      · have hrows := (List.mem_cons.mp h).resolve_left (Ne.symm he)
        simp only [enter, if_neg he, List.map_cons, ih hrows]

private theorem lookup_enter (later earlier : String) (table : Links) (name : String) :
    (enter later earlier table).lookup name =
      if name = later then some ((table.lookup later).getD [] ++ [earlier])
      else table.lookup name := by
  induction table with
  | nil => simp [enter]
  | cons row rows ih =>
      by_cases he : row.1 = later
      · subst he
        by_cases hn : name = row.1 <;> simp [enter, hn]
      · by_cases hn : name = row.1
        · simp [enter, he, hn]
        · simp [enter, he, Ne.symm he, hn, ih]

end Gathering

namespace Precedence

variable {precedence : Precedence} {members : List String} {clause : Clause}

-- The entries of hints in the order in which they are gone through.
def clausesOf (precedence : Precedence) (module : String) : List Clause :=
  (precedence.metadata.after module).map (.after module) ++
    (precedence.metadata.before module).map (.before module)

def clauses (precedence : Precedence) (members : List String) : List Clause :=
  members.flatMap precedence.clausesOf

def gatherClause (precedence : Precedence) (ranks : NameMap Rank) (gathering : Gathering) :
    Clause → Gathering
  | .after module other => precedence.gatherAfter ranks module gathering other
  | .before module other => precedence.gatherBefore module gathering other

def gatherClauses (precedence : Precedence) (members : List String) (clauses : List Clause) :
    Gathering :=
  clauses.foldl (precedence.gatherClause (precedence.ranks members)) (.start members)

def noteOf (precedence : Precedence) (clause : Clause) : Note :=
  precedence.noteOn clause.module clause.other

theorem gather_eq_gatherClauses (precedence : Precedence) (members : List String) :
    precedence.gather members = precedence.gatherClauses members (precedence.clauses members) := by
  rw [gather, gatherClauses, clauses, List.foldl_flatMap]
  congr 1
  funext gathering module
  rw [gatherOf, clausesOf, List.foldl_append, List.foldl_map, List.foldl_map]
  rfl

theorem contains_ranks (precedence : Precedence) (members : List String) (name : String) :
    (precedence.ranks members).contains name = true ↔ name ∈ members := by
  simp [NameMap.contains, ranks]

-- What one entry does. Either it names a member and puts one predecessor into the row of the later
-- of the two, or it names another module and makes one note.
inductive Accounted (precedence : Precedence) (members : List String) (clause : Clause)
    (before after : Gathering) : Prop where
  | entered (inside : clause.other ∈ members)
      (rows : ∀ name, after.table.lookup name =
        if name = clause.later then (before.table.lookup name).map (· ++ [clause.earlier])
        else before.table.lookup name)
      (names : after.table.map Prod.fst = before.table.map Prod.fst)
      (notes : after.notes = before.notes) : Accounted precedence members clause before after
  | noted (outside : clause.other ∉ members) (table : after.table = before.table)
      (notes : after.notes = before.notes ++ [precedence.noteOf clause]) :
      Accounted precedence members clause before after

theorem Accounted.congr {others : List String} {before after : Gathering}
    (h : Accounted precedence members clause before after)
    (hmem : ∀ name, name ∈ members ↔ name ∈ others) :
    Accounted precedence others clause before after := by
  cases h with
  | entered inside rows names notes => exact .entered ((hmem _).mp inside) rows names notes
  | noted outside table notes => exact .noted (mt (hmem _).mpr outside) table notes

theorem accounted_constrain (clause : Clause) {gathering : Gathering}
    (hlater : clause.later ∈ gathering.table.map Prod.fst) (hother : clause.other ∈ members) :
    Accounted precedence members clause gathering
      (gathering.constrain clause.earlier clause.later) := by
  refine .entered hother (fun name => ?_) (Gathering.names_enter hlater clause.earlier) rfl
  rw [Gathering.constrain, Gathering.lookup_enter]
  by_cases hn : name = clause.later
  · obtain ⟨row, hr⟩ := Option.isSome_iff_exists.mp (Name.isSome_lookup_iff.mpr hlater)
    rw [if_pos hn, if_pos hn, hn, hr]
    rfl
  · rw [if_neg hn, if_neg hn]

-- The names in the table are the members and stay so. That is why it makes no difference that one
-- kind of entry asks for a rank and the other one for a row.
theorem accounted_gatherClause {gathering : Gathering}
    (hnames : gathering.table.map Prod.fst = members) (hmodule : clause.module ∈ members) :
    Accounted precedence members clause gathering
      (precedence.gatherClause (precedence.ranks members) gathering clause) := by
  cases clause with
  | after module other =>
      rw [gatherClause, gatherAfter]
      by_cases ho : other ∈ members
      · rw [if_pos ((precedence.contains_ranks members other).mpr ho)]
        exact accounted_constrain (.after module other) (hnames ▸ hmodule) ho
      · rw [if_neg (mt (precedence.contains_ranks members other).mp ho)]
        exact .noted ho rfl rfl
  | before module other =>
      rw [gatherClause, gatherBefore]
      have hrow : (gathering.table.lookup other).isSome = true ↔ other ∈ members := by
        rw [Name.isSome_lookup_iff, hnames]
      by_cases ho : other ∈ members
      · rw [if_pos (hrow.mpr ho)]
        exact accounted_constrain (.before module other) (hnames ▸ ho) ho
      · rw [if_neg (mt hrow.mp ho)]
        exact .noted ho rfl rfl

theorem Accounted.names_eq {before after : Gathering}
    (h : Accounted precedence members clause before after) :
    after.table.map Prod.fst = before.table.map Prod.fst := by
  cases h with
  | entered _ _ names _ => exact names
  | noted _ table _ => rw [table]

-- The entries that put predecessors into the row of a member, and those that name no member.
def rowOf (members : List String) (clauses : List Clause) (later : String) : List String :=
  (clauses.filter fun clause => decide (clause.other ∈ members ∧ clause.later = later)).map
    Clause.earlier

def outside (members : List String) (clauses : List Clause) : List Clause :=
  clauses.filter fun clause => decide (clause.other ∉ members)

structure Gathered (precedence : Precedence) (members : List String) (done : List Clause)
    (gathering : Gathering) : Prop where
  names : gathering.table.map Prod.fst = members
  rows : ∀ name ∈ members, gathering.table.lookup name = some (rowOf members done name)
  notes : gathering.notes = (outside members done).map precedence.noteOf

private theorem gathered_start (precedence : Precedence) (members : List String) :
    Gathered precedence members [] (.start members) := by
  refine ⟨?_, fun name hm => Name.lookup_map_of_mem (fun _ => []) hm, rfl⟩
  rw [Gathering.start, List.map_map]
  exact List.map_id' members

theorem Gathered.step {done : List Clause} {before after : Gathering}
    (h : Gathered precedence members done before)
    (hstep : Accounted precedence members clause before after) :
    Gathered precedence members (done ++ [clause]) after := by
  refine ⟨hstep.names_eq.trans h.names, fun name hm => ?_, ?_⟩
  · have hrow := h.rows name hm
    rw [rowOf, List.filter_append, List.map_append, ← rowOf]
    cases hstep with
    | entered inside rows _ _ =>
        rw [rows, hrow]
        by_cases hn : name = clause.later
        · rw [if_pos hn, List.filter_cons_of_pos (by simp [inside, hn])]
          rfl
        · rw [if_neg hn, List.filter_cons_of_neg (by simp [Ne.symm hn])]
          exact congrArg some (List.append_nil _).symm
    | noted outside table _ =>
        rw [table, hrow, List.filter_cons_of_neg (by simp [outside])]
        exact congrArg some (List.append_nil _).symm
  · rw [outside, List.filter_append, List.map_append, ← outside, ← h.notes]
    cases hstep with
    | entered inside _ _ notes =>
        rw [notes, List.filter_cons_of_neg (by simp [inside])]
        exact (List.append_nil _).symm
    | noted outside _ notes => rw [notes, List.filter_cons_of_pos (by simp [outside])]; rfl

theorem gatherClauses_append (precedence : Precedence) (members : List String)
    (done : List Clause) (clause : Clause) :
    precedence.gatherClauses members (done ++ [clause]) =
      precedence.gatherClause (precedence.ranks members)
        (precedence.gatherClauses members done) clause := by
  rw [gatherClauses, List.foldl_append]
  rfl

-- By induction from the end, as an entry finds the table that those before it have left.
theorem gathered_gatherClauses (precedence : Precedence) {members : List String}
    {done : List Clause} (h : ∀ clause ∈ done, clause.module ∈ members) :
    Gathered precedence members done (precedence.gatherClauses members done) := by
  induction done using List.reverseRecOn with
  | nil => exact gathered_start precedence members
  | append_singleton done clause ih =>
      have hdone := ih fun other ho => h other (List.mem_append_left _ ho)
      have hmodule := h clause (List.mem_append_right _ (List.mem_singleton_self clause))
      rw [gatherClauses_append]
      exact hdone.step (accounted_gatherClause hdone.names hmodule)

theorem mem_clauses_iff :
    clause ∈ precedence.clauses members ↔ clause.module ∈ members ∧
      ((∃ other ∈ precedence.metadata.after clause.module, clause = .after clause.module other) ∨
        ∃ other ∈ precedence.metadata.before clause.module,
          clause = .before clause.module other) := by
  simp only [clauses, clausesOf, List.mem_flatMap, List.mem_append, List.mem_map]
  constructor
  · rintro ⟨module, hm, ⟨other, ho, rfl⟩ | ⟨other, ho, rfl⟩⟩
    · exact ⟨hm, Or.inl ⟨other, ho, rfl⟩⟩
    · exact ⟨hm, Or.inr ⟨other, ho, rfl⟩⟩
  · rintro ⟨hm, ⟨other, ho, hc⟩ | ⟨other, ho, hc⟩⟩
    · exact ⟨_, hm, Or.inl ⟨other, ho, hc.symm⟩⟩
    · exact ⟨_, hm, Or.inr ⟨other, ho, hc.symm⟩⟩

theorem gathered_gather (precedence : Precedence) (members : List String) :
    Gathered precedence members (precedence.clauses members) (precedence.gather members) := by
  rw [gather_eq_gatherClauses]
  exact gathered_gatherClauses precedence fun clause hc => (mem_clauses_iff.mp hc).1

end Precedence

end Activation
