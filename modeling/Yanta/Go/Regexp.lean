import Mathlib.Data.List.Basic

/-!
# Regular expressions

The expressions of Go's `regexp` that are matched at the start of a text. A run gives
every way to match, in the order in which a backtracking matcher would try them; the
match that `FindStringSubmatch` reports for an expression with `^` in front is the first.
Statements about all ways to match are made with the membership lemmas below, which take
an expression apart.
-/

namespace Yanta.Go

open List

inductive Regexp where
  | empty
  | text (s : List Char)
  | set (p : Char → Bool)
  | seq (a b : Regexp)
  | alt (a b : Regexp)
  | star (greedy : Bool) (a : Regexp)
  | group (n : Nat) (a : Regexp)
  | eot

variable {a r : Regexp} {p : Char → Bool} {n : Nat} {greedy : Bool}

/-- The texts of the groups, the last assignment first. -/
abbrev Captures := List (Nat × List Char)

def Captures.get (captures : Captures) (n : Nat) : List Char :=
  ((captures.find? fun capture => capture.1 == n).map Prod.snd).getD []

namespace Regexp

/-- What matched between two positions. -/
def consumed (s rest : List Char) : List Char := s.take (s.length - rest.length)

/-- Repetition, with the longer matches first or last. A repetition that consumes
nothing is not continued. -/
def iterate (step : Captures → List Char → List (Captures × List Char)) (greedy : Bool) :
    Nat → Captures → List Char → List (Captures × List Char)
  | 0, c, s => [(c, s)]
  | fuel + 1, c, s =>
    let more := (step c s).flatMap fun r =>
      if r.2.length < s.length then iterate step greedy fuel r.1 r.2 else []
    if greedy then more ++ [(c, s)] else (c, s) :: more

/-- The ways to match at the start of a text: the groups and what is left. -/
def run : Regexp → Captures → List Char → List (Captures × List Char)
  | empty, c, s => [(c, s)]
  | text w, c, s => if w.isPrefixOf s then [(c, s.drop w.length)] else []
  | set p, c, s =>
    match s with
    | [] => []
    | x :: rest => if p x then [(c, rest)] else []
  | seq a b, c, s => (a.run c s).flatMap fun r => b.run r.1 r.2
  | alt a b, c, s => a.run c s ++ b.run c s
  | star greedy a, c, s => iterate a.run greedy s.length c s
  | group n a, c, s => (a.run c s).map fun r => ((n, consumed s r.2) :: r.1, r.2)
  | eot, c, s => if s = [] then [(c, s)] else []

/-- `a+`, or `a+?` where it is not greedy. -/
def plus (greedy : Bool) (a : Regexp) : Regexp := seq a (star greedy a)

/-- `a?`. -/
def opt (a : Regexp) : Regexp := alt a empty

/-- `a{n}`. -/
def times : Nat → Regexp → Regexp
  | 0, _ => empty
  | n + 1, a => seq a (times n a)

/-- The matches from left to right, for an expression that does not match the empty
text. -/
def findAllFrom (r : Regexp) : Nat → List Char → List Captures
  | 0, _ => []
  | fuel + 1, s =>
    match (r.run [] s).head? with
    | some (c, rest) => c :: findAllFrom r fuel rest
    | none => findAllFrom r fuel (s.drop 1)

/-- `FindAllStringSubmatch`. -/
def findAllSubmatch (r : Regexp) (s : List Char) : List Captures :=
  findAllFrom r (s.length + 1) s

/-- `FindStringSubmatch` for the expression with `^` in front. -/
def findSubmatch (r : Regexp) (s : String) : Option Captures :=
  ((r.run [] s.toList).head?).map Prod.fst

/-! ## Character classes -/

/-- `\s`. -/
def space (c : Char) : Bool := c == '\t' || c == '\n' || c == '\x0c' || c == '\r' || c == ' '

/-- `\w`. -/
def word (c : Char) : Bool :=
  ('0' ≤ c && c ≤ '9') || ('A' ≤ c && c ≤ 'Z') || ('a' ≤ c && c ≤ 'z') || c == '_'

/-- `.`. -/
def dot (c : Char) : Bool := c != '\n'

/-! ## Ways to match -/

section

variable {c c' : Captures} {s t : List Char}

theorem mem_empty : (c', t) ∈ empty.run c s ↔ c' = c ∧ t = s := by
  simp [run]

theorem mem_text {w : List Char} : (c', t) ∈ (text w).run c s ↔ c' = c ∧ s = w ++ t := by
  rw [run]
  by_cases hpre : w.isPrefixOf s = true
  · rw [if_pos hpre]
    obtain ⟨u, rfl⟩ := isPrefixOf_iff_prefix.mp hpre
    simp [eq_comm]
  · rw [if_neg hpre]
    constructor
    · intro h
      exact absurd h not_mem_nil
    · rintro ⟨-, rfl⟩
      exact absurd (List.isPrefixOf_iff_prefix.mpr (prefix_append w t)) hpre

theorem mem_set : (c', t) ∈ (set p).run c s ↔ c' = c ∧ ∃ x, p x = true ∧ s = x :: t := by
  cases s with
  | nil => simp [run]
  | cons x rest =>
    by_cases hx : p x = true
    · rw [run, if_pos hx, mem_singleton, Prod.mk.injEq]
      constructor
      · rintro ⟨rfl, rfl⟩
        exact ⟨rfl, x, hx, rfl⟩
      · rintro ⟨rfl, y, -, heq⟩
        exact ⟨rfl, (List.cons.inj heq).2.symm⟩
    · rw [run, if_neg hx]
      constructor
      · intro h
        exact absurd h not_mem_nil
      · rintro ⟨-, y, hy, heq⟩
        obtain rfl := (List.cons.inj heq).1
        exact absurd hy hx

theorem mem_seq {b : Regexp} :
    (c', t) ∈ (seq a b).run c s ↔
      ∃ c₁ s₁, (c₁, s₁) ∈ a.run c s ∧ (c', t) ∈ b.run c₁ s₁ := by
  simp [run]

theorem mem_alt {b : Regexp} :
    (c', t) ∈ (alt a b).run c s ↔ (c', t) ∈ a.run c s ∨ (c', t) ∈ b.run c s := by
  rw [run, mem_append]

theorem mem_group :
    (c', t) ∈ (group n a).run c s ↔
      ∃ c₁, (c₁, t) ∈ a.run c s ∧ c' = (n, consumed s t) :: c₁ := by
  rw [run, mem_map]
  constructor
  · rintro ⟨⟨c₁, s₁⟩, hin, heq⟩
    obtain ⟨rfl, rfl⟩ := Prod.mk.inj heq
    exact ⟨c₁, hin, rfl⟩
  · rintro ⟨c₁, hin, rfl⟩
    exact ⟨(c₁, t), hin, rfl⟩

theorem mem_eot : (c', t) ∈ eot.run c s ↔ c' = c ∧ s = [] ∧ t = [] := by
  cases s with
  | nil | cons => simp [run]

/-! ## Repetition -/

/-- Matches of `step` one after the other, each of which consumes something. -/
@[mk_iff]
inductive Repeats (step : Captures → List Char → List (Captures × List Char)) :
    Captures → List Char → Captures → List Char → Prop
  | stop (c : Captures) (s : List Char) : Repeats step c s c s
  | again {c c₁ c' : Captures} {s s₁ t : List Char} (hstep : (c₁, s₁) ∈ step c s)
      (hlt : s₁.length < s.length) (hrest : Repeats step c₁ s₁ c' t) : Repeats step c s c' t

theorem mem_iterate {step : Captures → List Char → List (Captures × List Char)} {fuel : Nat}
    (hfuel : s.length ≤ fuel) :
    (c', t) ∈ iterate step greedy fuel c s ↔ Repeats step c s c' t := by
  induction fuel generalizing c s with
  | zero =>
    obtain rfl : s = [] := eq_nil_of_length_eq_zero (by omega)
    rw [iterate, repeats_iff]
    simp
  | succ fuel ih =>
    have hmore : (c', t) ∈ ((step c s).flatMap fun r =>
        if r.2.length < s.length then iterate step greedy fuel r.1 r.2 else []) ↔
          ∃ c₁ s₁, (c₁, s₁) ∈ step c s ∧ s₁.length < s.length ∧
            Repeats step c₁ s₁ c' t := by
      simp only [mem_flatMap, Prod.exists, mem_ite_nil_right]
      exact exists₂_congr fun c₁ s₁ => and_congr_right fun _ =>
        and_congr_right fun hlt => ih (by omega)
    rw [repeats_iff]
    cases greedy <;> simp [iterate, hmore, or_comm]

theorem mem_star :
    (c', t) ∈ (star greedy a).run c s ↔ Repeats a.run c s c' t :=
  mem_iterate (Nat.le_refl _)

theorem mem_plus :
    (c', t) ∈ (plus greedy a).run c s ↔
      ∃ c₁ s₁, (c₁, s₁) ∈ a.run c s ∧ Repeats a.run c₁ s₁ c' t := by
  simp only [plus, mem_seq, mem_star]

theorem repeats_set :
    Repeats (set p).run c s c' t ↔ c' = c ∧ ∃ u, (∀ x ∈ u, p x = true) ∧ s = u ++ t := by
  constructor
  · intro h
    induction h with
    | stop c s => exact ⟨rfl, [], by simp, rfl⟩
    | again hstep hlt hrest ih =>
      obtain ⟨rfl, x, hx, rfl⟩ := mem_set.mp hstep
      obtain ⟨rfl, u, hu, rfl⟩ := ih
      exact ⟨rfl, x :: u, by simpa [hx] using hu, rfl⟩
  · rintro ⟨rfl, u, hu, rfl⟩
    induction u with
    | nil => exact .stop _ _
    | cons x u ih =>
      refine .again (mem_set.mpr ⟨rfl, x, hu x mem_cons_self, rfl⟩) (by simp) ?_
      exact ih (forall_mem_cons.mp hu).2

/-- One or more characters of a set. -/
theorem mem_plus_set :
    (c', t) ∈ (plus greedy (set p)).run c s ↔
      c' = c ∧ ∃ u, u ≠ [] ∧ (∀ x ∈ u, p x = true) ∧ s = u ++ t := by
  rw [mem_plus]
  constructor
  · rintro ⟨c₁, s₁, hone, hmore⟩
    obtain ⟨rfl, x, hx, rfl⟩ := mem_set.mp hone
    obtain ⟨rfl, u, hu, rfl⟩ := repeats_set.mp hmore
    exact ⟨rfl, x :: u, by simp, by simpa [hx] using hu, rfl⟩
  · rintro ⟨rfl, u, hne, hu, rfl⟩
    cases u with
    | nil => exact absurd rfl hne
    | cons x u =>
      refine ⟨c', u ++ t, mem_set.mpr ⟨rfl, x, hu x mem_cons_self, rfl⟩, ?_⟩
      exact repeats_set.mpr ⟨rfl, u, (forall_mem_cons.mp hu).2, rfl⟩

theorem mem_times_set :
    (c', t) ∈ (times n (set p)).run c s ↔
      c' = c ∧ ∃ u, u.length = n ∧ (∀ x ∈ u, p x = true) ∧ s = u ++ t := by
  induction n generalizing s with
  | zero =>
    rw [times, mem_empty]
    constructor
    · rintro ⟨rfl, rfl⟩
      exact ⟨rfl, [], rfl, by simp, rfl⟩
    · rintro ⟨rfl, u, hn, -, rfl⟩
      rw [eq_nil_of_length_eq_zero hn]
      exact ⟨rfl, rfl⟩
  | succ n ih =>
    rw [times, mem_seq]
    constructor
    · rintro ⟨c₁, s₁, hone, hmore⟩
      obtain ⟨rfl, x, hx, rfl⟩ := mem_set.mp hone
      obtain ⟨rfl, u, hn, hu, rfl⟩ := ih.mp hmore
      exact ⟨rfl, x :: u, by simp [hn], by simpa [hx] using hu, rfl⟩
    · rintro ⟨rfl, u, hn, hu, rfl⟩
      cases u with
      | nil => simp at hn
      | cons x u =>
        refine ⟨c', u ++ t, mem_set.mpr ⟨rfl, x, hu x mem_cons_self, rfl⟩, ?_⟩
        exact ih.mpr ⟨rfl, u, by simpa using hn,
          (forall_mem_cons.mp hu).2, rfl⟩

end

/-! ## Groups that an expression does not have -/

/-- The expression has the group `n`. -/
def assigns (n : Nat) : Regexp → Bool
  | empty | text _ | set _ | eot => false
  | seq a b | alt a b => a.assigns n || b.assigns n
  | star _ a => a.assigns n
  | group m a => m == n || a.assigns n

theorem get_cons_of_ne {m : Nat} (h : m ≠ n) (u : List Char) (c : Captures) :
    Captures.get ((m, u) :: c) n = c.get n := by
  simp [Captures.get, h]

theorem get_cons_self (n : Nat) (u : List Char) (c : Captures) :
    Captures.get ((n, u) :: c) n = u := by
  simp [Captures.get]

/-- A group keeps its text under an expression that does not have it. -/
theorem get_of_mem_run (h : r.assigns n = false) {c c' : Captures} {s t : List Char}
    (hin : (c', t) ∈ r.run c s) : c'.get n = c.get n := by
  induction r generalizing c c' s t with
  | empty => rw [(mem_empty.mp hin).1]
  | text w => rw [(mem_text.mp hin).1]
  | set p => rw [(mem_set.mp hin).1]
  | eot => rw [(mem_eot.mp hin).1]
  | seq a b iha ihb =>
    rw [assigns, Bool.or_eq_false_iff] at h
    obtain ⟨c₁, s₁, ha, hb⟩ := mem_seq.mp hin
    rw [ihb h.2 hb, iha h.1 ha]
  | alt a b iha ihb =>
    rw [assigns, Bool.or_eq_false_iff] at h
    rcases mem_alt.mp hin with ha | hb
    · exact iha h.1 ha
    · exact ihb h.2 hb
  | star greedy a ih =>
    have hrepeats := mem_star.mp hin
    clear hin
    induction hrepeats with
    | stop => rfl
    | again hstep _ _ ihrest => rw [ihrest, ih h hstep]
  | group m a ih =>
    rw [assigns, Bool.or_eq_false_iff] at h
    obtain ⟨c₁, ha, rfl⟩ := mem_group.mp hin
    have hne : m ≠ n := by simpa using h.1
    rw [get_cons_of_ne hne, ih h.2 ha]

theorem consumed_append (u t : List Char) : consumed (u ++ t) t = u := by
  simp [consumed]

/-! ## The first match -/

/-- What holds of every way to match holds of the one that is reported. -/
theorem findSubmatch_spec {s : String} {motive : Captures → Prop}
    (h : ∀ c t, (c, t) ∈ r.run [] s.toList → motive c) {c : Captures}
    (hfind : r.findSubmatch s = some c) : motive c := by
  obtain ⟨⟨c', t⟩, hhead, rfl⟩ := Option.map_eq_some_iff.mp hfind
  exact h c' t (mem_of_head? hhead)

theorem findSubmatch_eq_none {s : String} (h : ∀ c t, (c, t) ∉ r.run [] s.toList) :
    r.findSubmatch s = none := by
  have hnil : r.run [] s.toList = [] := by
    apply eq_nil_iff_forall_not_mem.mpr
    rintro ⟨c, t⟩ hin
    exact h c t hin
  rw [findSubmatch, hnil]
  rfl

/-- There is a match, and all ways to match agree. -/
theorem exists_findSubmatch {s : String} {c : Captures} {t : List Char}
    (h : (c, t) ∈ r.run [] s.toList) : ∃ c', r.findSubmatch s = some c' := by
  cases hrun : r.run [] s.toList with
  | nil =>
    rw [hrun] at h
    exact absurd h not_mem_nil
  | cons x xs => exact ⟨x.1, by rw [findSubmatch, hrun]; rfl⟩

end Regexp

end Yanta.Go
