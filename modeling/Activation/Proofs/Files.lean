import Activation.Files
import Activation.Proofs.Name.Lookup
import Activation.Proofs.Text

namespace Activation.Path

variable {name file : String}

structure IsFileName (name : String) : Prop where
  leads : isName name = true
  slash_notMem : '/' ∉ name.toList

instance (name : String) : Decidable (IsFileName name) :=
  decidable_of_iff (isName name = true ∧ '/' ∉ name.toList)
    ⟨fun h => ⟨h.1, h.2⟩, fun h => ⟨h.1, h.2⟩⟩

theorem IsFileName.ne_empty (h : IsFileName name) : name ≠ "" := by
  rintro rfl
  exact Bool.false_ne_true h.leads

theorem IsFileName.ne_dot (h : IsFileName name) : name ≠ "." := by
  rintro rfl
  exact Bool.false_ne_true h.leads

theorem isAbsolute_eq_false (h : IsFileName name) : isAbsolute name = false := by
  rw [isAbsolute, decide_eq_false_iff_not]
  exact fun hhead => h.slash_notMem (List.mem_of_head? hhead)

theorem join_eq (hname : IsFileName name) (hfile : IsFileName file) :
    join name file = name ++ "/" ++ file := by
  have hempty : name.isEmpty = false := String.isEmpty_eq_false_iff.mpr hname.ne_empty
  have hlast : name.toList.getLast? ≠ some '/' := fun h =>
    hname.slash_notMem (List.mem_of_getLast? h)
  rw [join, isAbsolute_eq_false hfile, hempty, if_neg (by simp), if_neg hlast]

theorem isAbsolute_join (hname : IsFileName name) (hfile : IsFileName file) :
    isAbsolute (join name file) = false := by
  have hhead : (join name file).toList.head? = name.toList.head? := by
    have hne : name.toList ≠ [] := by simpa using hname.ne_empty
    rw [join_eq hname hfile, String.toList_append, String.toList_append, List.append_assoc,
      List.head?_append_of_ne_nil _ hne]
  rw [isAbsolute, hhead]
  exact isAbsolute_eq_false hname

private theorem components_intercalate {names : List String} (h : ∀ name ∈ names, IsFileName name)
    (hnames : names ≠ []) : components ("/".intercalate names) = names := by
  have hpieces : Text.pieces '/' ("/".intercalate names).toList = names.map String.toList :=
    Text.pieces_intercalate rfl (fun name hm => (h name hm).slash_notMem) hnames
  rw [components, hpieces, List.map_map]
  simp [Function.comp_def]

theorem components_of_isFileName (h : IsFileName name) : components name = [name] := by
  have hone : components ("/".intercalate [name]) = [name] :=
    components_intercalate (by simpa using h) (by simp)
  rwa [String.intercalate_singleton] at hone

theorem steps_of_isFileName (h : IsFileName name) : steps name = [name] := by
  rw [steps, components_of_isFileName h]
  simp [h.ne_empty, h.ne_dot]

theorem components_join (hname : IsFileName name) (hfile : IsFileName file) :
    components (join name file) = [name, file] := by
  have htwo : components ("/".intercalate [name, file]) = [name, file] :=
    components_intercalate (by simp [hname, hfile]) (by simp)
  rwa [String.intercalate_cons_cons, String.intercalate_singleton, ← join_eq hname hfile] at htwo

private theorem dropTail_of_slash_notMem {chars : List Char} (h : '/' ∉ chars) :
    dropTail chars = chars := by
  rw [dropTail]
  · rintro rest rfl
    exact h List.mem_cons_self
  · rintro rest rfl
    exact h (List.mem_cons_of_mem _ List.mem_cons_self)

-- Before a slash a dot that is a whole part is left out, but no name is.
private theorem dropTail_append {chars : List Char} (h : '/' ∉ chars) (hne : chars ≠ [])
    (hdot : chars ≠ ['.']) (rest : List Char) :
    dropTail (chars ++ '/' :: rest) = chars ++ '/' :: rest := by
  obtain ⟨c, others, rfl⟩ := List.exists_cons_of_ne_nil hne
  obtain ⟨hc, hothers⟩ := List.ne_and_not_mem_of_not_mem_cons h
  rw [List.cons_append, dropTail]
  · intro tail he
    exact hc (List.cons.inj he).1.symm
  · intro tail he
    obtain ⟨rfl, htail⟩ := List.cons.inj he
    cases others with
    | nil => exact hdot rfl
    | cons d others => exact hothers ((List.cons.inj htail).1 ▸ List.mem_cons_self)

theorem parent?_join (hname : IsFileName name) (hfile : IsFileName file) :
    parent? (join name file) = some name := by
  have hreversed : (join name file).toList.reverse =
      file.toList.reverse ++ '/' :: name.toList.reverse := by
    simp [join_eq hname hfile]
  have hslash : '/' ∉ file.toList.reverse := by simpa using hfile.slash_notMem
  have hne : file.toList.reverse ≠ [] := by simpa using hfile.ne_empty
  have hdot : file.toList.reverse ≠ ['.'] := by
    intro he
    have hfileDot : file.toList = ['.'] := by simpa using congrArg List.reverse he
    exact hfile.ne_dot (String.toList_injective hfileDot)
  have hnameTail : dropTail ('/' :: name.toList.reverse) = name.toList.reverse := by
    have hnonempty : name.toList.reverse.isEmpty = false := by simpa using hname.ne_empty
    rw [dropTail, hnonempty, if_neg Bool.false_ne_true,
      dropTail_of_slash_notMem (by simpa using hname.slash_notMem)]
  have habove : (file.toList.reverse ++ '/' :: name.toList.reverse).dropWhile (· ≠ '/') =
      '/' :: name.toList.reverse :=
    Text.dropWhile_append_of_head (fun c hc => by simpa using ne_of_mem_of_not_mem hc hslash)
      (by simp)
  have hpath : ¬ ((file.toList.reverse ++ '/' :: name.toList.reverse).isEmpty ||
      file.toList.reverse ++ '/' :: name.toList.reverse = ['/']) = true := by
    simp [List.append_eq_singleton_iff, hfile.ne_empty]
  rw [parent?, hreversed, dropTail_append hslash hne hdot]
  simp only [habove, hnameTail]
  rw [if_neg hpath, List.reverse_reverse, String.ofList_toList]

end Activation.Path

namespace Activation.Tree

variable {name file : String} {current : List String} {tree : Tree} {held : Option String}

theorem lookup_setEntry_of_ne {other : String} (hne : other ≠ name) (node : Tree)
    (entries : List (String × Tree)) :
    (setEntry name node entries).lookup other = entries.lookup other := by
  rw [setEntry, List.lookup_append, Name.lookup_filter_ne _ hne]
  simp [hne]

@[simp]
theorem get?_cons (name : String) (names : List String) (tree : Tree) :
    tree.get? (name :: names) = (tree.entries.lookup name).bind fun child => child.get? names := by
  rw [get?]
  cases tree.entries.lookup name <;> rfl

theorem get?_append (place names : List String) (tree : Tree) :
    tree.get? (place ++ names) = (tree.get? place).bind fun inner => inner.get? names := by
  induction place generalizing tree with
  | nil => rfl
  | cons name place ih =>
      cases hchild : tree.entries.lookup name <;> simp [hchild, ih]

theorem put_cons (node : Tree) (name : String) (names : List String) (tree : Tree) :
    put node (name :: names) tree =
      .directory (setEntry name (put node names ((tree.entries.lookup name).getD empty))
        tree.entries) := rfl

theorem get?_put_of_ne {name other : String} (hne : other ≠ name) (node : Tree)
    (place names others : List String) (tree : Tree) :
    (put node (place ++ name :: names) tree).get? (place ++ other :: others) =
      tree.get? (place ++ other :: others) := by
  induction place generalizing tree with
  | nil =>
      rw [List.nil_append, List.nil_append, put_cons, get?_cons, get?_cons, entries,
        lookup_setEntry_of_ne hne]
  | cons first place ih =>
      rw [List.cons_append, List.cons_append, put_cons, get?_cons, get?_cons, entries,
        lookup_setEntry, Option.bind_some, ih]
      cases tree.entries.lookup first with
      | some child => rfl
      | none =>
          cases place with
          | nil => rfl
          | cons second place => rfl

theorem get?_put_above (node : Tree) (place : List String) (name : String) (names : List String)
    (tree : Tree) :
    ∃ entries, (put node (place ++ name :: names) tree).get? place = some (.directory entries) := by
  induction place generalizing tree with
  | nil => exact ⟨_, rfl⟩
  | cons first place ih =>
      rw [List.cons_append, put_cons, get?_cons, entries, lookup_setEntry, Option.bind_some]
      exact ih _

-- Either there is nothing in a place, or a directory that has a file with this text.
inductive Holds (tree : Tree) (place : List String) (file : String) : Option String → Prop where
  | nothing (absent : tree.get? place = none) : Holds tree place file none
  | text {entries : List (String × Tree)} {content : String}
      (directory : tree.get? place = some (.directory entries))
      (found : tree.get? (place ++ [file]) = some (.file content.toUTF8)) :
      Holds tree place file (some content)

private theorem step_of_isFileName (h : Path.IsFileName name) (place : List String) :
    step place name = place ++ [name] := if_pos h.leads

private theorem start_join (hname : Path.IsFileName name) (hfile : Path.IsFileName file)
    (current : List String) : start current (Path.join name file) = current := by
  rw [start, Path.isAbsolute_join hname hfile, if_neg Bool.false_ne_true]

-- The directory is made where there is none. So the file always goes where its path says.
theorem addText_join (hname : Path.IsFileName name) (hfile : Path.IsFileName file)
    (h : Holds tree (current ++ [name]) file held) (content : String) :
    ∃ way, (way = tree ∨ way = put empty (current ++ [name]) tree) ∧
      tree.addText current (Path.join name file) content =
        put (.file content.toUTF8) (current ++ [name] ++ [file]) way := by
  have hnameFor : nameFor (Path.join name file) (.file content.toUTF8) = some file := by
    rw [nameFor, Path.components_join hname hfile]
    exact Option.filter_some_pos hfile.leads
  rw [addText, add, Path.parent?_join hname hfile]
  simp only [start_join hname hfile, Path.components_of_isFileName hname, hnameFor, makeWay,
    step_of_isFileName hname]
  cases h with
  | nothing absent =>
      refine ⟨put empty (current ++ [name]) tree, .inr rfl, ?_⟩
      have hfound : (put empty (current ++ [name]) tree).get? (current ++ [name] ++ [file]) =
          none := by
        rw [get?_append, get?_put]
        rfl
      simp only [absent, hfound]
  | text directory found =>
      refine ⟨tree, .inl rfl, ?_⟩
      simp only [directory, found]

theorem holds_addText (hname : Path.IsFileName name) (hfile : Path.IsFileName file)
    (h : Holds tree (current ++ [name]) file held) (content : String) :
    Holds (tree.addText current (Path.join name file) content) (current ++ [name]) file
      (some content) := by
  obtain ⟨way, -, heq⟩ := addText_join hname hfile h content
  rw [heq]
  obtain ⟨entries, hentries⟩ :=
    get?_put_above (.file content.toUTF8) (current ++ [name]) file [] way
  exact .text hentries (get?_put _ _ _)

theorem directory_addText (hname : Path.IsFileName name) (hfile : Path.IsFileName file)
    (h : Holds tree (current ++ [name]) file held) (content : String) :
    ∃ entries, (tree.addText current (Path.join name file) content).get? current =
      some (.directory entries) := by
  obtain ⟨way, -, heq⟩ := addText_join hname hfile h content
  rw [heq, List.append_assoc]
  exact get?_put_above _ _ _ _ _

theorem holds_addText_of_ne {other : String} (hname : Path.IsFileName name)
    (hfile : Path.IsFileName file) (hne : other ≠ name) {before : Option String}
    (h : Holds tree (current ++ [name]) file before)
    (hother : Holds tree (current ++ [other]) file held) (content : String) :
    Holds (tree.addText current (Path.join name file) content) (current ++ [other]) file held := by
  obtain ⟨way, hway, heq⟩ := addText_join hname hfile h content
  have hsame : ∀ others, (tree.addText current (Path.join name file) content).get?
      (current ++ other :: others) = tree.get? (current ++ other :: others) := by
    intro others
    rw [heq, List.append_assoc, List.singleton_append, get?_put_of_ne hne]
    rcases hway with rfl | rfl
    · rfl
    · exact get?_put_of_ne hne empty current [] others tree
  cases hother with
  | nothing absent => exact .nothing ((hsame []).trans absent)
  | text directory found =>
      rw [List.append_assoc] at found
      refine .text ((hsame []).trans directory) ?_
      rw [List.append_assoc]
      exact (hsame [file]).trans found

theorem snapshot_join (hname : Path.IsFileName name) (hfile : Path.IsFileName file)
    {entries : List (String × Tree)} (hcurrent : tree.get? current = some (.directory entries))
    (h : Holds tree (current ++ [name]) file held) :
    tree.snapshot current (Path.join name file) =
      held.elim (.nothing .notFound) fun content => .file (.ok content) := by
  have hfollow : tree.follow (start current (Path.join name file))
      (Path.components (Path.join name file)) = tree.follow (current ++ [name]) [file] := by
    rw [start_join hname hfile, Path.components_join hname hfile, follow, hcurrent,
      step_of_isFileName hname]
  have hempty : (Path.join name file).isEmpty = false := by
    simp [Path.join_eq hname hfile]
  rw [snapshot, find, hempty, if_neg Bool.false_ne_true, hfollow]
  cases h with
  | nothing absent =>
      rw [follow, absent]
      rfl
  | @text _ content directory found =>
      have hplace : tree.follow (current ++ [name]) [file] = .ok (current ++ [name] ++ [file]) := by
        rw [follow, directory, step_of_isFileName hfile]
        rfl
      have htext : String.fromUTF8? content.toUTF8 = some content := by
        rw [String.fromUTF8?, dif_pos]
        rfl
      simp only [hplace, found, Option.elim_some, htext]

end Activation.Tree
