import Mathlib.Data.List.Basic
import Whitespace.Command

/-!
# Files that are stored

What is written to a file is found there, and no other file is touched (`Files.contents?_write`).
That needs care where a file is created, because an entry is named by a text and looked up by the
components of its path: the text must have the components it was made from, which holds of every
path that can be opened for writing (`Files.writable_of_destination`).

Creating a file does not change where other paths lead (`Files.find_write`).

## Main definitions

* `IsEntry part` — the component names an entry of a directory.
* `Files.Writable files path` — the path of a file that can be written, stored or not.
-/

namespace Whitespace.Command

/-! ## Components -/

/-- A component that names an entry of a directory, and not the directory itself or the one
above. -/
structure IsEntry (part : String) : Prop where
  here : Files.isHere part = false
  above : part ≠ ".."
  slash : '/' ∉ part.toList

/-- The lists between separators have none. -/
theorem not_mem_of_mem_splitOn {α : Type} [BEq α] [LawfulBEq α] {separator : α}
    {items part : List α} (h : part ∈ items.splitOn separator) : separator ∉ part := by
  rw [List.splitOn_eq_splitOnP] at h
  induction items generalizing part with
  | nil => simp_all
  | cons item items ih =>
    rw [List.splitOnP_cons_eq_if_modifyHead] at h
    split at h
    · cases h with
      | head => exact List.not_mem_nil
      | tail _ later => exact ih later
    · next other =>
      -- The item comes before the first of the lists behind it.
      obtain ⟨first, rest, split⟩ := List.exists_cons_of_ne_nil
        (List.splitOnP_ne_nil (· == separator) items)
      rw [split] at h ih
      cases h with
      | head =>
        have free := ih List.mem_cons_self
        rw [List.mem_cons, not_or]
        exact ⟨fun same => other (by simp [same]), free⟩
      | tail _ later => exact ih (List.mem_cons_of_mem _ later)

/-- What succeeds has succeeded in its first part. -/
theorem exists_of_bind {ε α β : Type} {x : Except ε α} {more : α → Except ε β} {b : β}
    (h : x >>= more = .ok b) : ∃ a, x = .ok a ∧ more a = .ok b := by
  cases x with
  | error e => cases h
  | ok a => exact ⟨a, rfl, h⟩

namespace Files

variable {files : Files} {path target : List String} {contents : ByteArray} {place next : Place}
  {part name : String}

theorem slash_not_mem_of_partsOf (h : part ∈ partsOf name) : '/' ∉ part.toList := by
  obtain ⟨chars, member, rfl⟩ := List.mem_map.mp h
  rw [String.toList_ofList]
  exact not_mem_of_mem_splitOn member

/-- The text that is made of entries has them as its components. -/
theorem pathOf_intercalate (entries : ∀ part ∈ path, IsEntry part) (nonempty : path ≠ []) :
    pathOf ("/".intercalate path) = path := by
  have parts : partsOf ("/".intercalate path) = path := by
    rw [partsOf, String.toList_intercalate]
    refine (congrArg _ (List.splitOn_intercalate '/' ?_ (by simpa using nonempty))).trans ?_
    · intro chars member
      obtain ⟨part, among, rfl⟩ := List.mem_map.mp member
      exact (entries part among).slash
    · rw [List.map_map]
      exact (List.map_congr_left fun part _ => String.ofList_toList).trans (List.map_id path)
  rw [pathOf, parts, List.filter_eq_self]
  intro part member
  have entry := (entries part member).here
  simpa [isHere] using entry

/-! ## Writing -/

/-- The path of a file that can be written: its text has its components, and if it is not stored
there is room for it. -/
structure Writable (files : Files) (path : List String) : Prop where
  named : pathOf ("/".intercalate path) = path
  free : files.contents? path = none → files.hasDirectory path = false

/-- **What is written to a file is found there**, and the other files are as they were. -/
theorem contents?_write (named : pathOf ("/".intercalate target) = target) (contents : ByteArray)
    (path : List String) :
    (files.write target contents).contents? path =
      if path = target then some contents else files.contents? path := by
  rw [write]
  split
  · next present =>
    rw [contents?, contents?, List.find?_map]
    have same : ((fun entry : String × ByteArray => pathOf entry.1 == path) ∘
        fun entry => if pathOf entry.1 == target then (entry.1, contents) else entry) =
          fun entry => pathOf entry.1 == path := by
      funext entry
      simp only [Function.comp]
      split <;> rfl
    rw [same]
    cases found : files.entries.find? fun entry => pathOf entry.1 == path with
    | none =>
      split
      · next here =>
        subst here
        rw [contents?, found] at present
        cases present
      · rfl
    | some entry =>
      have leads : pathOf entry.1 = path := by simpa using List.find?_some found
      simp only [Option.map_some, leads, beq_iff_eq]
      split <;> rfl
  · next absent =>
    rw [contents?, List.find?_append]
    by_cases here : path = target
    · subst here
      have none_found : files.entries.find? (fun entry => pathOf entry.1 == path) = none := by
        simpa [contents?] using absent
      simp [none_found, named]
    · have other : (pathOf ("/".intercalate target) == path) = false := by
        rw [named]
        exact beq_false_of_ne (Ne.symm here)
      simp [contents?, other, here]

/-- Where there is a directory there is one behind writing. -/
theorem hasDirectory_write (contents : ByteArray) (h : files.hasDirectory path = true) :
    (files.write target contents).hasDirectory path = true := by
  rw [write]
  simp only [hasDirectory, Bool.or_eq_true, List.any_eq_true] at h ⊢
  obtain outermost | ⟨entry, member, under⟩ := h
  · exact .inl outermost
  · right
    split
    · refine ⟨_, List.mem_map_of_mem member, ?_⟩
      split <;> exact under
    · exact ⟨entry, List.mem_append_left _ member, under⟩

/-- What there is outside stays the same. -/
@[simp] theorem system_write (files : Files) (path : List String) (contents : ByteArray) :
    (files.write path contents).system = files.system := by
  rw [write]
  split <;> rfl

/-! ## Paths that lead to other files -/

/-- Where a component leads in a directory, if it does not mean that one or the one above. -/
theorem walk_entry (here : isHere part = false) (above : part ≠ "..") :
    files.walk (.directory path) part =
      if longestPart < part.utf8ByteSize then .error .nameTooLong
      else if (files.contents? (path ++ [part])).isSome then .ok (.file (path ++ [part]))
      else if files.hasDirectory (path ++ [part]) then .ok (.directory (path ++ [part]))
      else .error .notFound := by
  simp only [walk, here, above, Bool.false_eq_true, if_false]

/-- A step along a path leads where it led before a file was written, unless it leads to that
file. -/
theorem walk_write (writable : files.Writable target) (contents : ByteArray)
    (h : files.walk place part = .ok next) (other : next ≠ .file target) :
    (files.write target contents).walk place part = .ok next := by
  cases place with
  | file | special | outside | above => exact h
  | system path =>
    simp only [walk, enter, system_write] at h ⊢
    exact h
  | directory path =>
    by_cases here : isHere part = true
    · rw [walk, if_pos here] at h ⊢
      exact h
    by_cases above : part = ".."
    · rw [walk, if_neg here, if_pos above] at h ⊢
      exact h
    rw [walk_entry (by simpa using here) above] at h ⊢
    split at h
    · cases h
    · next short =>
      rw [if_neg short, contents?_write writable.named]
      by_cases same : path ++ [part] = target
      · -- The directory would be where the file is to be created.
        exfalso
        rw [same] at h
        cases stored : files.contents? target with
        | some old =>
          rw [stored] at h
          cases h
          exact other rfl
        | none =>
          rw [stored, writable.free stored] at h
          cases h
      · rw [if_neg same]
        split at h
        · next stored =>
          rw [if_pos stored]
          exact h
        · next missing =>
          rw [if_neg missing]
          split at h
          · next directory =>
            rw [if_pos (hasDirectory_write contents directory)]
            exact h
          · cases h

/-- No path leads on from a file. -/
theorem foldlM_walk_file {parts : List String}
    (h : parts.foldlM files.walk (.file path) = .ok place) :
    place = .file path := by
  cases parts with
  | nil =>
    cases h
    rfl
  | cons part parts => cases h

theorem foldlM_walk_write (writable : files.Writable target) (contents : ByteArray)
    {parts : List String} (other : path ≠ target)
    (h : parts.foldlM files.walk place = .ok (.file path)) :
    parts.foldlM (files.write target contents).walk place = .ok (.file path) := by
  induction parts generalizing place with
  | nil => exact h
  | cons part parts ih =>
    obtain ⟨next, walked, later⟩ := exists_of_bind h
    have elsewhere : next ≠ .file target := by
      rintro rfl
      cases foldlM_walk_file later
      exact other rfl
    rw [List.foldlM_cons, walk_write writable contents walked elsewhere]
    exact ih later

/-- **Writing to a file does not change where the paths of other files lead.** -/
theorem find_write (writable : files.Writable target) (contents : ByteArray)
    (other : path ≠ target) (h : files.find name = .ok (.file path)) :
    (files.write target contents).find name = .ok (.file path) := by
  obtain ⟨place, begun, walked⟩ := exists_of_bind h
  rw [find, begun]
  exact foldlM_walk_write writable contents other walked

/-! ## Paths that can be written -/

/-- The components of a stored place are entries. -/
def OfEntries : Place → Prop
  | .directory path | .file path => ∀ part ∈ path, IsEntry part
  | _ => True

theorem component_cases (slash : '/' ∉ part.toList) :
    isHere part = true ∨ part = ".." ∨ IsEntry part := by
  by_cases here : isHere part = true
  · exact .inl here
  · by_cases above : part = ".."
    · exact .inr (.inl above)
    · exact .inr (.inr ⟨by simpa using here, above, slash⟩)

/-- A place that is reached from the system: it is not stored, or the outermost directory. -/
def FromSystem : Place → Prop
  | .file _ => False
  | .directory path => path = []
  | _ => True

theorem ofEntries_of_fromSystem (h : FromSystem place) : OfEntries place := by
  cases place with
  | file path => exact h.elim
  | directory path =>
    obtain rfl : path = [] := h
    exact fun _ member => absurd member List.not_mem_nil
  | special | outside | system | above => trivial

theorem enter_fromSystem (h : files.enter path = .ok place) : FromSystem place := by
  rw [enter] at h
  cases outside : files.system.leadsTo? path with
  | none =>
    rw [outside] at h
    cases h
  | some o =>
    rw [outside] at h
    cases o with
    | special | file | directory =>
      cases h
      trivial
    | workingDirectory =>
      cases h
      rfl

theorem walk_fromSystem (h : files.walk (.system path) part = .ok place) : FromSystem place := by
  simp only [walk] at h
  split at h
  · cases h
    trivial
  · split at h
    · cases h
      trivial
    · split at h
      · cases h
      · exact enter_fromSystem h

theorem walk_ofEntries (slash : '/' ∉ part.toList) (entries : OfEntries place)
    (h : files.walk place part = .ok next) : OfEntries next := by
  cases place with
  | file | special | outside => cases h
  | system path => exact ofEntries_of_fromSystem (walk_fromSystem h)
  | above =>
    simp only [walk] at h
    split at h
    · cases h
      trivial
    · split at h <;> cases h
  | directory path =>
    obtain here | rfl | entry := component_cases slash
    · rw [walk, if_pos here] at h
      cases h
      exact entries
    · rw [walk, if_neg (by decide), if_pos rfl] at h
      cases h
      split
      · trivial
      · exact fun part member => entries part (path.dropLast_sublist.subset member)
    · have more : ∀ other ∈ path ++ [part], IsEntry other := by
        intro other member
        obtain before | last := List.mem_append.mp member
        · exact entries other before
        · rwa [List.mem_singleton.mp last]
      rw [walk_entry entry.here entry.above] at h
      split at h
      · cases h
      · split at h
        · cases h
          exact more
        · split at h
          · cases h
            exact more
          · cases h

theorem foldlM_walk_ofEntries {parts : List String} (slash : ∀ part ∈ parts, '/' ∉ part.toList)
    (entries : OfEntries place) (h : parts.foldlM files.walk place = .ok next) :
    OfEntries next := by
  induction parts generalizing place with
  | nil =>
    cases h
    exact entries
  | cons part parts ih =>
    obtain ⟨middle, walked, later⟩ := exists_of_bind h
    exact ih (fun other member => slash other (List.mem_cons_of_mem _ member))
      (walk_ofEntries (slash part List.mem_cons_self) entries walked) later

/-- A component leads to a file only in a directory where it is stored. -/
theorem walk_eq_file (slash : '/' ∉ part.toList) (h : files.walk place part = .ok (.file path)) :
    ∃ directory, place = .directory directory ∧ IsEntry part ∧ path = directory ++ [part] ∧
      (files.contents? path).isSome := by
  cases place with
  | file | special | outside => cases h
  | system path => exact (walk_fromSystem h).elim
  | above =>
    simp only [walk] at h
    split at h
    · cases h
    · split at h <;> cases h
  | directory directory =>
    refine ⟨directory, rfl, ?_⟩
    obtain here | rfl | entry := component_cases slash
    · rw [walk, if_pos here] at h
      cases h
    · rw [walk, if_neg (by decide), if_pos rfl] at h
      split at h <;> cases h
    · rw [walk_entry entry.here entry.above] at h
      split at h
      · cases h
      · split at h
        · next stored =>
          cases h
          exact ⟨entry, rfl, stored⟩
        · split at h <;> cases h

/-- Where there is nothing in a directory there is room for a file. -/
theorem walk_eq_notFound (slash : '/' ∉ part.toList)
    (h : files.walk (.directory path) part = .error .notFound) :
    IsEntry part ∧ files.hasDirectory (path ++ [part]) = false := by
  obtain here | rfl | entry := component_cases slash
  · rw [walk, if_pos here] at h
    cases h
  · rw [walk, if_neg (by decide), if_pos rfl] at h
    cases h
  · rw [walk_entry entry.here entry.above] at h
    split at h
    · cases h
    · split at h
      · cases h
      · split at h
        · cases h
        · next nothing => exact ⟨entry, by simpa using nothing⟩

theorem writable_of_entry {directory : List String} (entries : OfEntries (.directory directory))
    (entry : IsEntry part)
    (free : files.contents? (directory ++ [part]) = none →
      files.hasDirectory (directory ++ [part]) = false) : files.Writable (directory ++ [part]) where
  named := by
    refine pathOf_intercalate ?_ (by simp)
    intro other member
    obtain before | last := List.mem_append.mp member
    · exact entries other before
    · rwa [List.mem_singleton.mp last]
  free := free

/-- A file that can be created or replaced in a directory can be written. -/
theorem writable_of_create (slash : '/' ∉ part.toList) (entries : OfEntries place)
    (h : files.create place part = .ok (.file path)) : files.Writable path := by
  unfold create at h
  cases walked : files.walk place part with
  | ok next =>
    have found : next = .file path := by
      rw [walked] at h
      cases next <;> cases h
      rfl
    rw [found] at walked
    obtain ⟨directory, rfl, entry, rfl, stored⟩ := walk_eq_file slash walked
    refine writable_of_entry entries entry ?_
    intro missing
    rw [missing] at stored
    cases stored
  | error e =>
    rw [walked] at h
    cases e with
    | notFound =>
      cases place with
      | directory directory =>
        cases h
        obtain ⟨entry, room⟩ := walk_eq_notFound slash walked
        exact writable_of_entry entries entry fun _ => room
      | system path =>
        simp only [createOutside] at h
        split at h <;> cases h
      | file | special | outside | above => cases h
    | _ => cases h

theorem origin_ofEntries (h : origin name = .ok place) : OfEntries place := by
  rw [origin] at h
  split at h
  · cases h
  · split at h
    · cases h
    · cases h
      split
      · trivial
      · exact fun _ member => absurd member List.not_mem_nil

/-- **A file that a path can be opened for is written where the path leads.** -/
theorem writable_of_destination (h : files.destination name = .ok (.file path)) :
    files.Writable path := by
  obtain ⟨start, begun, opened⟩ := exists_of_bind h
  have slash : ∀ part ∈ (partsOf name).reverse.dropWhile String.isEmpty, '/' ∉ part.toList := by
    intro part member
    exact slash_not_mem_of_partsOf
      (List.mem_reverse.mp ((List.dropWhile_sublist _).subset member))
  split at opened
  · cases opened
  · next last parents components =>
    rw [components] at slash
    obtain ⟨directory, reached, created⟩ := exists_of_bind opened
    have entries : OfEntries directory := foldlM_walk_ofEntries
      (fun part member => slash part (List.mem_cons_of_mem _ (List.mem_reverse.mp member)))
      (origin_ofEntries begun) reached
    have created : files.create directory last = .ok (.file path) := by
      split at created
      · cases created
      · cases created
      · cases created
      · split at created
        · cases created
        · exact created
    exact writable_of_create (slash last List.mem_cons_self) entries created

end Files

end Whitespace.Command
