import Yanta.Go.CleanPaths
import Yanta.Support.Files

/-!
# Joining a name to a directory

`filepath.Join(root, name)` for an absolute root and an arbitrary text. The text
may climb out of the root before it names anything; `climb` separates the two,
which says lexically where the joined path lies.
-/

namespace Yanta.Go

open Support List

/-- One element of the text against the path so far, innermost first. -/
def joinElement (stack : List String) (elem : String) : List String :=
  if elem = "" ∨ elem = "." then stack
  else if elem = ".." then stack.tail
  else elem :: stack

/-- `filepath.Join` of an absolute path and a text. -/
def joinPath (root : Path) (name : String) : Path :=
  ((split name '/').foldl joinElement root.reverse).reverse

/-- `filepath.Abs`: the path that a text names for a process in the directory
`cwd`. -/
def absolutePath (cwd : Path) (text : String) : Path :=
  if hasPrefix text "/" then joinPath [] text else joinPath cwd text

/-- How many levels a text climbs and what it then names, innermost first. -/
structure Climb where
  ups : Nat
  names : List String
deriving DecidableEq, Repr

def climbElement (c : Climb) (elem : String) : Climb :=
  if elem = "" ∨ elem = "." then c
  else if elem = ".." then
    if c.names = [] then ⟨c.ups + 1, []⟩ else ⟨c.ups, c.names.tail⟩
  else ⟨c.ups, elem :: c.names⟩

def climb (name : String) : Climb :=
  (split name '/').foldl climbElement ⟨0, []⟩

theorem foldl_joinElement
    (elems : List String) (stack : List String) (c : Climb) :
    elems.foldl joinElement (c.names ++ stack.drop c.ups) =
      (elems.foldl climbElement c).names ++
        stack.drop (elems.foldl climbElement c).ups := by
  induction elems generalizing c with
  | nil => rfl
  | cons elem elems ih =>
    rw [foldl_cons, foldl_cons, ← ih]
    congr 1
    by_cases hdot : elem = "" ∨ elem = "."
    · simp [joinElement, climbElement, hdot]
    · by_cases hup : elem = ".."
      · cases hnames : c.names with
        | nil | cons => simp [joinElement, climbElement, hup, hnames]
      · simp [joinElement, climbElement, hdot, hup]

theorem joinPath_eq (root : Path) (name : String) :
    joinPath root name =
      root.take (root.length - (climb name).ups) ++ (climb name).names.reverse := by
  have h := foldl_joinElement (split name '/') root.reverse ⟨0, []⟩
  rw [nil_append, drop_zero] at h
  rw [joinPath, h, reverse_append, ← climb, drop_reverse, reverse_reverse]

/-- The joined path stays strictly inside the root exactly when the text, after
climbing, comes back down the same way and names something more. -/
theorem strictlyBelow_joinPath_iff {root : Path} {name : String} :
    StrictlyBelow root (joinPath root name) ↔
      StrictlyBelow (root.drop (root.length - (climb name).ups))
        (climb name).names.reverse := by
  rw [joinPath_eq]
  conv_rhs =>
    rw [← strictlyBelow_append_iff (a := root.take (root.length - (climb name).ups)),
      take_append_drop]

/-- The joined path is the root or above it exactly when the text comes back
down only part of the way. -/
theorem joinPath_prefix_iff {root : Path} {name : String} :
    joinPath root name <+: root ↔
      (climb name).names.reverse <+:
        root.drop (root.length - (climb name).ups) := by
  rw [joinPath_eq]
  conv_rhs =>
    rw [← prefix_append_right_inj (root.take (root.length - (climb name).ups)),
      take_append_drop]

end Yanta.Go
