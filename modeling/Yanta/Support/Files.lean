import Mathlib.Data.List.Infix

/-!
# File systems

A path is the list of its elements from the root on, and a file system gives
the node at each path that exists. Two operations are enough for recursive
copies and removals: removing everything below a path, except what the operating
system refuses to give up, and placing a tree at a path. Both leave every path
that is not below theirs as it was.
-/

namespace Yanta.Support

open List Option

abbrev Path := List String

variable {dst dest : Path} {stuck : List Path}

inductive Node (β : Type*) where
  | dir
  | file (data : β)
deriving DecidableEq

abbrev FileSystem (β : Type*) := Path → Option (Node β)

variable {β : Type*}

/-- The path is strictly below the directory. -/
def StrictlyBelow (root p : Path) : Prop := root <+: p ∧ p ≠ root

instance (root p : Path) : Decidable (StrictlyBelow root p) :=
  inferInstanceAs (Decidable (_ ∧ _))

variable {p : Path}

theorem strictlyBelow_iff {root : Path} :
    StrictlyBelow root p ↔ ∃ name rest, p = root ++ name :: rest := by
  constructor
  · rintro ⟨⟨tail, rfl⟩, hne⟩
    cases tail with
    | nil => simp at hne
    | cons name rest => exact ⟨name, rest, rfl⟩
  · rintro ⟨name, rest, rfl⟩
    exact ⟨prefix_append _ _, by simp⟩

theorem strictlyBelow_append_iff {a b c : Path} :
    StrictlyBelow (a ++ b) (a ++ c) ↔ StrictlyBelow b c := by
  simp [StrictlyBelow]

variable {q : Path}

theorem StrictlyBelow.trans_below {root : Path} (h : StrictlyBelow root p) (hq : p <+: q) :
    StrictlyBelow root q := by
  obtain ⟨name, rest, rfl⟩ := strictlyBelow_iff.mp h
  obtain ⟨tail, rfl⟩ := hq
  exact strictlyBelow_iff.mpr ⟨name, rest ++ tail, by simp⟩

/-- `os.RemoveAll`; what is `stuck` stays, with the directories on the way to
it. -/
def removeAll (fs : FileSystem β) (p : Path) (stuck : List Path) : FileSystem β :=
  fun q => if p <+: q ∧ ∀ k ∈ stuck, ¬ q <+: k then none else fs q

/-- The nodes of `tree`, which are relative to `dest`, are written below it. -/
def place (fs : FileSystem β) (dest : Path) (tree : FileSystem β) : FileSystem β :=
  fun q => if dest <+: q then (tree (q.drop dest.length)).or (fs q) else fs q

/-- A directory and those it is in are made, where they are missing. -/
def mkdirAll (fs : FileSystem β) (p : Path) : FileSystem β :=
  fun q => if q <+: p then (fs q).or (some .dir) else fs q

variable {fs : FileSystem β}

theorem removeAll_outside (h : ¬ p <+: q) : removeAll fs p stuck q = fs q := by
  simp [removeAll, h]

theorem removeAll_eq_some {node : Node β} (h : removeAll fs p stuck q = some node) :
    fs q = some node := by
  unfold removeAll at h
  split at h
  · cases h
  · exact h

/-- What is left below a path keeps the directories it is in. -/
theorem removeAll_keeps_parent {r : Path} (hqr : q <+: r)
    (hr : removeAll fs p stuck r ≠ none) (hq : fs q ≠ none) :
    removeAll fs p stuck q ≠ none := by
  unfold removeAll at hr ⊢
  split
  next hremoved =>
    rw [if_pos] at hr
    · exact absurd rfl hr
    · refine ⟨hremoved.1.trans hqr, fun k hk hrk => ?_⟩
      exact hremoved.2 k hk (hqr.trans hrk)
  · exact hq

variable {tree : FileSystem β}

theorem place_outside (h : ¬ dest <+: q) : place fs dest tree q = fs q := by
  simp [place, h]

@[simp] theorem place_append (fs tree : FileSystem β) (dest r : Path) :
    place fs dest tree (dest ++ r) = (tree r).or (fs (dest ++ r)) := by
  simp [place]

theorem mkdirAll_elsewhere (h : ¬ q <+: p) : mkdirAll fs p q = fs q := by
  simp [mkdirAll, h]

theorem mkdirAll_isSome (h : q <+: p) : (mkdirAll fs p q).isSome = true := by
  cases hq : fs q with
  | none | some => simp [mkdirAll, h]

theorem mkdirAll_ne_none (h : fs q ≠ none) : mkdirAll fs p q ≠ none := by
  obtain ⟨node, hnode⟩ := ne_none_iff_exists'.mp h
  by_cases hpre : q <+: p
  · simp [mkdirAll, hnode]
  · simp [mkdirAll, hnode]

theorem mkdirAll_eq_some {node : Node β} (h : mkdirAll fs p q = some node) :
    fs q = some node ∨ (node = .dir ∧ q <+: p) := by
  unfold mkdirAll at h
  split at h
  next hpre =>
    rcases or_eq_some_iff.mp h with h | ⟨-, h⟩
    · exact .inl h
    · exact .inr ⟨(Option.some.inj h).symm, hpre⟩
  next => exact .inl h

theorem place_ne_none (h : fs q ≠ none) : place fs dest tree q ≠ none := by
  unfold place
  split
  · intro hnone
    exact h (or_eq_none_iff.mp hnone).2
  · exact h

theorem place_eq_some {node : Node β} (h : place fs dest tree q = some node) :
    fs q = some node ∨ ∃ r, q = dest ++ r ∧ tree r = some node := by
  unfold place at h
  split at h
  next hpre =>
    rcases or_eq_some_iff.mp h with htree | ⟨-, hold⟩
    · obtain ⟨r, rfl⟩ := hpre
      rw [drop_left] at htree
      exact .inr ⟨r, rfl, htree⟩
    · exact .inl hold
  next => exact .inl h

/-! ## Moving a tree -/

/-- The tree at one path is put at another. -/
def moved (fs : FileSystem β) (src dst : Path) : FileSystem β :=
  fun q =>
    if dst <+: q then fs (src ++ q.drop dst.length)
    else if src <+: q then none
    else fs q

/-- `os.Rename`. A directory is never replaced, and a file only by a file. -/
def rename (fault : Option String) (fs : FileSystem β) (src dst : Path) :
    Except String Unit × FileSystem β :=
  match fault with
  | some e => (.error e, fs)
  | none =>
    match fs src, fs dst with
    | none, _ => (.error "no such file or directory", fs)
    | some _, some .dir => (.error "file exists", fs)
    | some .dir, some (.file _) => (.error "not a directory", fs)
    | some _, _ => (.ok (), moved fs src dst)

@[simp] theorem moved_append (fs : FileSystem β) (src dst r : Path) :
    moved fs src dst (dst ++ r) = fs (src ++ r) := by
  simp [moved]

/-- Nothing is left where a tree was moved away from. -/
theorem moved_source {src : Path} (hsrc : src <+: q) (hdst : ¬ dst <+: q) :
    moved fs src dst q = none := by
  simp [moved, hsrc, hdst]

/-- A tree that is there is moved to a place where nothing is, unless the operating
system refuses. -/
theorem rename_free {src : Path} (hsrc : fs src ≠ none) (hdst : fs dst = none) :
    rename none fs src dst = (.ok (), moved fs src dst) := by
  obtain ⟨node, hnode⟩ := ne_none_iff_exists'.mp hsrc
  cases node with
  | dir | file => simp [rename, hnode, hdst]

/-- Nothing is moved to where a directory is. -/
theorem rename_dir (src : Path) (hdst : fs dst = some .dir) :
    ∃ e, rename none fs src dst = (.error e, fs) := by
  cases hsrc : fs src with
  | none => exact ⟨"no such file or directory", by simp [rename, hsrc]⟩
  | some node => exact ⟨"file exists", by simp [rename, hsrc, hdst]⟩

/-! ## Copies that may stop -/

/-- How far the copy of one file got. -/
inductive Progress where
  | missing
  | torn (written : Nat)
  | complete
deriving DecidableEq, Repr

section

variable {α : Type*}

/-- What is there of a node of which so much was copied. -/
def Progress.node : Progress → Node (List α) → Option (Node (List α))
  | .missing, _ => none
  | _, .dir => some .dir
  | .torn n, .file data => some (.file (data.take n))
  | .complete, .file data => some (.file data)

/-- The part of a tree that a copy which stopped has written. -/
def copied (progress : Path → Progress) (tree : FileSystem (List α)) :
    FileSystem (List α) :=
  fun r => (tree r).bind (progress r).node

/-- A recursive copy: the destination is made first, then filled. One that fails
has written part of the tree. -/
def copyTree (fault : Option (String × (Path → Progress))) (fs : FileSystem (List α))
    (dest : Path) (tree : FileSystem (List α)) :
    Except String Unit × FileSystem (List α) :=
  match fault with
  | none => (.ok (), place (mkdirAll fs dest) dest tree)
  | some (e, progress) =>
    (.error e,
      if progress [] = .missing then fs
      else place (mkdirAll fs dest) dest (copied progress tree))

@[simp] theorem Progress.node_complete (node : Node (List α)) :
    Progress.complete.node node = some node := by
  cases node with
  | dir => rfl
  | file data => rfl

theorem Progress.eq_dir_of_node_dir {progress : Progress} {node : Node (List α)}
    (h : progress.node .dir = some node) : node = .dir := by
  cases progress with
  | missing => cases h
  | torn | complete => exact (Option.some.inj h).symm

/-- What is there of a file is a beginning of it. -/
theorem Progress.exists_take_of_node_file {progress : Progress} {node : Node (List α)}
    {data : List α} (h : progress.node node = some (.file data)) :
    ∃ original n, node = .file original ∧ data = original.take n := by
  cases node with
  | dir => cases eq_dir_of_node_dir h
  | file original =>
    cases progress with
    | missing => cases h
    | torn n => exact ⟨original, n, rfl, by simpa [node] using h.symm⟩
    | complete =>
      refine ⟨original, original.length, rfl, ?_⟩
      simpa [node] using h.symm

/-- A path outside the destination that is there stays there. -/
theorem copyTree_outside {fault : Option (String × (Path → Progress))}
    {fs tree : FileSystem (List α)} (hbelow : ¬ dst <+: p) (hp : ¬ p <+: dst ∨ fs p ≠ none) :
    (copyTree fault fs dst tree).2 p = fs p := by
  have hmkdir : mkdirAll fs dst p = fs p := by
    rcases hp with habove | hsome
    · exact mkdirAll_elsewhere habove
    · obtain ⟨node, hnode⟩ := ne_none_iff_exists'.mp hsome
      simp [mkdirAll, hnode]
  have hplace : ∀ t, place (mkdirAll fs dst) dst t p = fs p := by
    intro t
    rw [place_outside hbelow, hmkdir]
  cases fault with
  | none => exact hplace tree
  | some fault =>
    obtain ⟨e, progress⟩ := fault
    unfold copyTree
    by_cases hmissing : progress [] = .missing
    · simp only [hmissing, if_true]
    · simp only [hmissing]
      exact hplace _

/-- A tree whose root is a directory, copied to where nothing is. -/
theorem copyTree_below (fault : Option (String × (Path → Progress)))
    {fs : FileSystem (List α)} (tree : FileSystem (List α))
    (hfree : ∀ r, fs (dst ++ r) = none) (htree : tree [] = some .dir) (r : Path) :
    (copyTree fault fs dst tree).2 (dst ++ r) =
      match fault with
      | none => tree r
      | some (_, progress) =>
        if progress [] = .missing then none else copied progress tree r := by
  have hplace : ∀ t : FileSystem (List α), t [] = some .dir →
      place (mkdirAll fs dst) dst t (dst ++ r) = t r := by
    intro t ht
    rw [place_append]
    cases r with
    | nil => rw [ht, some_or]
    | cons name rest =>
      have hlong : ¬ dst ++ name :: rest <+: dst := by
        intro hpre
        have hlength := hpre.length_le
        rw [length_append, length_cons] at hlength
        omega
      rw [mkdirAll_elsewhere hlong, hfree, or_none]
  cases fault with
  | none => exact hplace tree htree
  | some fault =>
    obtain ⟨e, progress⟩ := fault
    unfold copyTree
    by_cases hmissing : progress [] = .missing
    · simp only [hmissing, if_true, hfree]
    · simp only [hmissing]
      apply hplace
      rw [copied, htree]
      cases hp : progress [] with
      | missing => exact absurd hp hmissing
      | torn n => rfl
      | complete => rfl

end

/-! ## Changes confined to some paths -/

/-- Two file systems agree outside the paths in `S`. -/
def ChangesOnly (S : Path → Prop) (fs fs' : FileSystem β) : Prop :=
  ∀ q, ¬ S q → fs' q = fs q

namespace ChangesOnly

variable {S S' : Path → Prop} {fs fs' fs'' : FileSystem β}

theorem refl (S : Path → Prop) (fs : FileSystem β) : ChangesOnly S fs fs := by
  intro q _
  rfl

theorem trans (h : ChangesOnly S fs fs') (h' : ChangesOnly S fs' fs'') :
    ChangesOnly S fs fs'' := by
  intro q hq
  rw [h' q hq, h q hq]

theorem mono (h : ChangesOnly S fs fs') (hS : ∀ q, S q → S' q) :
    ChangesOnly S' fs fs' := by
  intro q hq
  exact h q (mt (hS q) hq)

end ChangesOnly

section

variable (fs : FileSystem β) (p : Path)

theorem changesOnly_removeAll (stuck : List Path) :
    ChangesOnly (p <+: ·) fs (removeAll fs p stuck) := by
  intro q hq
  exact removeAll_outside hq

theorem changesOnly_place (tree : FileSystem β) :
    ChangesOnly (p <+: ·) fs (place fs p tree) := by
  intro q hq
  exact place_outside hq

theorem changesOnly_mkdirAll : ChangesOnly (· <+: p) fs (mkdirAll fs p) := by
  intro q hq
  exact mkdirAll_elsewhere hq

theorem changesOnly_update (node : Option (Node β)) :
    ChangesOnly (· = p) fs (Function.update fs p node) := by
  intro q hq
  exact Function.update_of_ne hq _ _

theorem changesOnly_rename (fault : Option String) (dst : Path) :
    ChangesOnly (fun q => p <+: q ∨ dst <+: q) fs (rename fault fs p dst).2 := by
  intro q hq
  have hmoved : moved fs p dst q = fs q := by
    simp only [not_or] at hq
    simp [moved, hq.1, hq.2]
  unfold rename
  split
  · rfl
  · split
    · rfl
    · rfl
    · rfl
    · exact hmoved

theorem changesOnly_copyTree {α : Type*} (fault : Option (String × (Path → Progress)))
    (fs tree : FileSystem (List α)) :
    ChangesOnly (fun q => q <+: p ∨ p <+: q) fs (copyTree fault fs p tree).2 := by
  intro q hq
  rw [not_or] at hq
  have hplace : ∀ t, place (mkdirAll fs p) p t q = fs q := by
    intro t
    rw [place_outside hq.2, mkdirAll_elsewhere hq.1]
  unfold copyTree
  split
  · exact hplace _
  · split
    · rfl
    · exact hplace _

end

/-! ## Trees of directories -/

/-- Whatever is there is inside directories that are there. -/
def Rooted (fs : FileSystem β) : Prop :=
  ∀ p q, p <+: q → fs q ≠ none → fs p ≠ none

/-- The file system with the given files and the directories they are in. -/
def ofFiles (files : List (Path × β)) : FileSystem β := fun p =>
  match files.find? (·.1 = p) with
  | some file => some (.file file.2)
  | none => if files.any (p <+: ·.1) then some .dir else none

theorem ofFiles_ne_none_iff {files : List (Path × β)} :
    ofFiles files p ≠ none ↔ ∃ file ∈ files, p <+: file.1 := by
  unfold ofFiles
  split
  next file hfind =>
    have hp : file.1 = p := by simpa using List.find?_some hfind
    have hmem := mem_of_find?_eq_some hfind
    simp only [ne_eq, reduceCtorEq, not_false_eq_true, true_iff]
    exact ⟨file, hmem, by rw [hp]⟩
  next => simp

theorem rooted_ofFiles (files : List (Path × β)) : Rooted (ofFiles files) := by
  intro p q hpq hq
  obtain ⟨file, hmem, hfile⟩ := ofFiles_ne_none_iff.mp hq
  exact ofFiles_ne_none_iff.mpr ⟨file, hmem, hpq.trans hfile⟩

end Yanta.Support
