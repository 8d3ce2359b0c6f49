import Yanta.Fts5.Lexer
import Yanta.Fts5.Parser

/-!
# Well-formed expressions

Whether a text is an expression over the columns of a table does not depend on the trees
that the parser builds. `scan` only counts the open parentheses and keeps what kind of
token may come next; it gives the depth at the end of an operand. Texts that are put
together from operands, operators and parentheses are then judged part by part.
-/

namespace Yanta.Fts5

open Support Machine List

/-- A position without its phrases. `first` is set where no phrase stands in front, and
`known` where the last string names a column. -/
inductive Shape where
  | start
  | minus (first : Bool)
  | word (first known : Bool)
  | excluded (first known : Bool)
  | column (first : Bool)
  | filtered
  | starred
  | group
deriving DecidableEq, Repr

variable {op : Token} {f : Frame} {s : Nat × Shape}

namespace Shape

/-- Whether another phrase may start, and whether it would be the first. -/
def list : Shape → Option Bool
  | .start => some true
  | .word _ _ | .filtered | .starred => some false
  | _ => none

/-- An operand may end here. -/
def ended : Shape → Bool
  | .word _ _ | .filtered | .starred | .group => true
  | _ => false

end Shape

section

variable (table : List (List Char))

def namesColumn (name : List Char) : Bool := (Columns.only name).known table

/-- One token, at a number of open parentheses. -/
def shapeStep (s : Nat × Shape) : Token → Option (Nat × Shape)
  | .string text =>
    match s.2 with
    | .minus first => some (s.1, .excluded first (namesColumn table text))
    | .column _ => some (s.1, .filtered)
    | shape => shape.list.map fun first => (s.1, .word first (namesColumn table text))
  | .minus => s.2.list.map fun first => (s.1, .minus first)
  | .colon =>
    match s.2 with
    | .word first true => some (s.1, .column first)
    | .excluded first true => some (s.1, .column first)
    | _ => none
  | .star =>
    match s.2 with
    | .word _ _ => some (s.1, .starred)
    | .filtered => some (s.1, .starred)
    | _ => none
  | .lparen =>
    match s.2 with
    | .start => some (s.1 + 1, .start)
    | .column true => some (s.1 + 1, .start)
    | _ => none
  | .rparen => if s.1 ≠ 0 ∧ s.2.ended then some (s.1 - 1, .group) else none
  | .not => if s.2.ended then some (s.1, .start) else none
  | .and => if s.2.ended then some (s.1, .start) else none
  | .or => if s.2.ended then some (s.1, .start) else none
  | .other _ => none

/-- The depth behind an operand. -/
def Shape.depth (s : Nat × Shape) : Option Nat := if s.2.ended then some s.1 else none

/-- Reads operands and operators from an open place on; the depth at the end, if an
operand ends there. -/
def scan (d : Nat) (ts : List Token) : Option Nat :=
  (run (shapeStep table) (d, .start) ts).bind Shape.depth

end

/-! ## The parser and the scan -/

variable {t : Token} {ts : List Token}

section

variable {table : List (List Char)}
variable {list : List Phrase} {e : Expr} {pos : Position} {m m' : Machine}

def Position.shape (table : List (List Char)) : Position → Shape
  | .start => .start
  | .minus list => .minus list.isEmpty
  | .word list text => .word list.isEmpty (namesColumn table text)
  | .excluded list name => .excluded list.isEmpty (namesColumn table name)
  | .column list _ => .column list.isEmpty
  | .filtered _ _ _ => .filtered
  | .starred _ _ => .starred
  | .group _ => .group

def Machine.shape (table : List (List Char)) (m : Machine) : Nat × Shape :=
  (m.stack.length, m.pos.shape table)

/-- Every column of the phrases is one of the table. -/
def KnownList (table : List (List Char)) (list : List Phrase) : Prop :=
  ∀ p ∈ list, ∀ c ∈ p.columns, c.known table = true

/-- The columns named so far are columns of the table. -/
def KnownPosition (table : List (List Char)) : Position → Prop
  | .start => True
  | .minus list => KnownList table list
  | .word list _ => KnownList table list
  | .excluded list _ => KnownList table list
  | .column list c => KnownList table list ∧ c.known table = true
  | .filtered list c _ => KnownList table list ∧ c.known table = true
  | .starred list last => KnownList table (list ++ [last])
  | .group e => e.known table = true

def KnownLeft (table : List (List Char)) (left : Option Expr) : Prop :=
  ∀ e ∈ left, e.known table = true

def KnownFrame (table : List (List Char)) (f : Frame) : Prop :=
  KnownLeft table f.ors ∧ KnownLeft table f.ands ∧ KnownLeft table f.nots

def Known (table : List (List Char)) (m : Machine) : Prop :=
  (∀ entry ∈ m.stack, (∀ c ∈ entry.1, c.known table = true) ∧ KnownFrame table entry.2) ∧
    KnownFrame table m.frame ∧ KnownPosition table m.pos

theorem known_phrases : (Expr.phrases list).known table = true ↔ KnownList table list := by
  simp only [Expr.known, all_eq_true]
  constructor
  · intro h p hp c hc
    have hall := h p hp
    rw [Option.mem_def.mp hc] at hall
    exact hall
  · intro h p hp
    cases hc : p.columns with
    | none => rfl
    | some c => exact h p hp c hc

theorem knownList_append {p : Phrase} :
    KnownList table (list ++ [p]) ↔
      KnownList table list ∧ ∀ c ∈ p.columns, c.known table = true := by
  simp [KnownList, or_imp, forall_and]

theorem knownList_plain {text : List Char} {star : Bool} :
    KnownList table (list ++ [⟨none, text, star⟩]) ↔ KnownList table list := by
  simp [knownList_append]

theorem knownList_filtered {c : Columns} {text : List Char} {star : Bool} :
    KnownList table (list ++ [⟨some c, text, star⟩]) ↔
      KnownList table list ∧ c.known table = true := by
  simp [knownList_append]

theorem known_joined {op : Expr → Expr → Expr} {left : Option Expr}
    (hop : ∀ l, (op l e).known table = (l.known table && e.known table)) :
    (joined op left e).known table = true ↔ KnownLeft table left ∧ e.known table = true := by
  cases left with
  | none => simp [joined, KnownLeft]
  | some l => simp [joined, KnownLeft, hop]

theorem known_closeNot :
    (f.closeNot e).known table = true ↔ KnownLeft table f.nots ∧ e.known table = true :=
  known_joined fun _ => rfl

theorem known_closeAnd :
    (f.closeAnd e).known table = true ↔
      KnownLeft table f.ands ∧ KnownLeft table f.nots ∧ e.known table = true := by
  rw [Frame.closeAnd, known_joined fun _ => rfl, known_closeNot]

theorem known_close :
    (f.close e).known table = true ↔ KnownFrame table f ∧ e.known table = true := by
  rw [Frame.close, known_joined fun _ => rfl, known_closeAnd, KnownFrame]
  tauto

theorem knownLeft_some : KnownLeft table (some e) ↔ e.known table = true := by
  simp [KnownLeft]

theorem knownLeft_none : KnownLeft table none := by simp [KnownLeft]

theorem knownFrame_empty : KnownFrame table {} :=
  ⟨knownLeft_none, knownLeft_none, knownLeft_none⟩

/-- The operand that ends at a position has the columns of the position. -/
theorem known_value (h : pos.value = some e) :
    e.known table = true ↔ KnownPosition table pos := by
  cases pos <;> simp only [Position.value, Option.some.injEq, reduceCtorEq] at h <;> subst h
  case word => rw [known_phrases, knownList_plain]; rfl
  case filtered => rw [known_phrases, knownList_filtered]; rfl
  case starred => rw [known_phrases]; rfl
  case group => rfl

theorem ended_shape : (pos.shape table).ended = pos.value.isSome := by
  cases pos <;> rfl

/-- A step within an operand changes the position only. -/
theorem known_within {stack : List (Option Columns × Frame)} {frame : Frame} {pos' : Position}
    (h : KnownPosition table pos' ↔ KnownPosition table pos) :
    Known table ⟨stack, frame, pos'⟩ ↔ Known table ⟨stack, frame, pos⟩ := by
  simp only [Known, h]

theorem known_operator {frame : Frame} {v : Expr} (hv : m.pos.value = some v)
    (h : KnownFrame table frame ↔ KnownFrame table m.frame ∧ v.known table = true) :
    Known table ⟨m.stack, frame, .start⟩ ↔ Known table m := by
  simp [Known, h, known_value hv, KnownPosition]

theorem knownPosition_of_list (h : pos.list = some list) :
    KnownList table list ↔ KnownPosition table pos := by
  cases pos <;> simp only [Position.list, Option.some.injEq, reduceCtorEq] at h <;> subst h
  case start => simp [KnownList, KnownPosition]
  case word => exact knownList_plain
  case filtered => exact knownList_filtered
  case starred => rfl

theorem known_lparen (h : step m .lparen = some m') : Known table m' ↔ Known table m := by
  obtain ⟨stack, frame, pos⟩ := m
  cases pos <;> simp only [step, Option.some.injEq, reduceCtorEq] at h
  case start =>
    subst h
    simp [Known, knownFrame_empty]
    tauto
  case column list c =>
    cases list with
    | cons p list => simp at h
    | nil =>
      simp only [Option.some.injEq] at h
      subst h
      simp [Known, knownFrame_empty, KnownPosition]
      tauto

theorem known_rparen (h : step m .rparen = some m') : Known table m' ↔ Known table m := by
  obtain ⟨stack, frame, pos⟩ := m
  cases stack with
  | nil => simp [step] at h
  | cons top stack =>
    obtain ⟨c, outer⟩ := top
    obtain ⟨v, hv, rfl⟩ := Option.map_eq_some_iff.mp h
    have hgroup : (groupExpr c (frame.close v)).known table = true ↔
        (∀ col ∈ c, col.known table = true) ∧ KnownFrame table frame ∧
          KnownPosition table pos := by
      rw [← known_value hv, ← known_close]
      cases c with
      | none => simp [groupExpr]
      | some c => simp [groupExpr, Expr.known]
    simp only [Known, forall_mem_cons]
    tauto

/-- A token other than a colon names no column. -/
theorem known_step (ht : t ≠ .colon) (h : step m t = some m') :
    Known table m' ↔ Known table m := by
  cases t with
  | colon => exact absurd rfl ht
  | other c => simp [step] at h
  | lparen => exact known_lparen h
  | rparen => exact known_rparen h
  | string text =>
    obtain ⟨stack, frame, pos⟩ := m
    cases pos <;> simp only [step, Position.list, Option.map_some, Option.map_none,
      Option.some.injEq, reduceCtorEq] at h <;> subst h <;> apply known_within
    case minus | column | starred => rfl
    case start => simp [KnownPosition, KnownList]
    case word => exact knownList_plain
    case filtered => exact knownList_filtered
  | minus =>
    obtain ⟨list, hlist, rfl⟩ := Option.map_eq_some_iff.mp h
    exact known_within (knownPosition_of_list hlist)
  | star =>
    obtain ⟨stack, frame, pos⟩ := m
    cases pos <;> simp only [step, Option.some.injEq, reduceCtorEq] at h <;> subst h <;>
      apply known_within
    case word => exact knownList_plain
    case filtered => exact knownList_filtered
  | not =>
    obtain ⟨v, hv, rfl⟩ := Option.map_eq_some_iff.mp h
    apply known_operator hv
    simp only [KnownFrame, knownLeft_some, known_closeNot]
    tauto
  | and =>
    obtain ⟨v, hv, rfl⟩ := Option.map_eq_some_iff.mp h
    apply known_operator hv
    simp only [KnownFrame, knownLeft_some, known_closeAnd]
    tauto
  | or =>
    obtain ⟨v, hv, rfl⟩ := Option.map_eq_some_iff.mp h
    apply known_operator hv
    simp [KnownFrame, knownLeft_some, known_close, knownLeft_none]

open Shape

theorem list_shape (pos : Position) :
    (pos.shape table).list = pos.list.map List.isEmpty := by
  cases pos <;> simp [Position.shape, list, Position.list]

theorem shapeStep_eq (ht : t ≠ .colon) :
    shapeStep table (m.shape table) t = (step m t).map (shape table) := by
  obtain ⟨stack, frame, pos⟩ := m
  have hoperator : ∀ g : Expr → Frame,
      (if (pos.shape table).ended then some (stack.length, start) else none) =
        (pos.value.map fun e => (⟨stack, g e, .start⟩ : Machine)).map
          (shape table) := by
    intro g
    rw [ended_shape]
    cases pos.value <;> rfl
  cases t with
  | colon => exact absurd rfl ht
  | other c => rfl
  | not | and | or => exact hoperator _
  | minus =>
    simp only [shapeStep, step, shape, list_shape, Option.map_map]
    rfl
  | string text =>
    cases pos <;> simp [shapeStep, step, shape, Position.shape, list,
      Position.list]
  | star => cases pos <;> rfl
  | lparen =>
    cases pos with
    | column list c => cases list <;> simp [shapeStep, step, shape, Position.shape]
    | _ => simp [shapeStep, step, shape, Position.shape]
  | rparen =>
    cases stack with
    | nil => simp [shapeStep, step, shape]
    | cons top stack =>
      simp only [shapeStep, step, shape, ended_shape]
      cases pos.value <;> simp [shape, Position.shape]

/-- What a colon does. -/
theorem step_colon (table : List (List Char)) (h : step m .colon = some m') :
    (Known table m' ↔ Known table m ∧
      shapeStep table (m.shape table) .colon = some (m'.shape table)) ∧
    (shapeStep table (m.shape table) .colon = none ∨
      shapeStep table (m.shape table) .colon = some (m'.shape table)) := by
  obtain ⟨stack, frame, pos⟩ := m
  have hname : ∀ list c,
      Known table ⟨stack, frame, .column list c⟩ ↔
        Known table ⟨stack, frame, .minus list⟩ ∧ c.known table = true := by
    intro list c
    simp only [Known, KnownPosition]
    tauto
  cases pos <;> simp only [step, Option.some.injEq, reduceCtorEq] at h
  case word list text =>
    subst h
    rw [hname, show (Columns.only text).known table = namesColumn table text from rfl]
    cases hb : namesColumn table text <;>
      simp [shapeStep, shape, Position.shape, hb, Known, KnownPosition]
  case excluded list name =>
    subst h
    rw [hname, show (Columns.except name).known table = namesColumn table name from rfl]
    cases hb : namesColumn table name <;>
      simp [shapeStep, shape, Position.shape, hb, Known, KnownPosition]

theorem shapeStep_colon_none (h : step m .colon = none) :
    shapeStep table (m.shape table) .colon = none := by
  obtain ⟨stack, frame, pos⟩ := m
  cases pos <;> simp_all [step, shapeStep, shape, Position.shape]

theorem known_of_step (h : step m t = some m') (hm' : Known table m') : Known table m := by
  by_cases ht : t = .colon
  · subst ht
    exact ((step_colon table h).1.mp hm').1
  · exact (known_step ht h).mp hm'

theorem shapeStep_some_iff (hm : Known table m) :
    shapeStep table (m.shape table) t = some s ↔
      ∃ m', step m t = some m' ∧ Known table m' ∧ m'.shape table = s := by
  by_cases ht : t = .colon
  · subst ht
    cases hstep : step m .colon with
    | none => simp [shapeStep_colon_none hstep]
    | some m' =>
      obtain ⟨hknown, hcases⟩ := step_colon table hstep
      constructor
      · intro hs
        have hsome := hcases.resolve_left (by rw [hs]; simp)
        exact ⟨m', rfl, hknown.mpr ⟨hm, hsome⟩, Option.some.inj (hsome.symm.trans hs)⟩
      · rintro ⟨m'', heq, hm'', rfl⟩
        obtain rfl := Option.some.inj heq
        exact (hknown.mp hm'').2
  · rw [shapeStep_eq ht, Option.map_eq_some_iff]
    constructor
    · rintro ⟨m', hstep, rfl⟩
      exact ⟨m', hstep, (known_step ht hstep).mpr hm, rfl⟩
    · rintro ⟨m', hstep, -, rfl⟩
      exact ⟨m', hstep, rfl⟩

theorem known_of_run (h : run step m ts = some m') (hm' : Known table m') : Known table m := by
  induction ts generalizing m with
  | nil =>
    obtain rfl := Option.some.inj h
    exact hm'
  | cons t ts ih =>
    obtain ⟨m₁, hstep, hrest⟩ := run_cons_eq_some.mp h
    exact known_of_step hstep (ih hrest)

theorem run_shapeStep_iff (hm : Known table m) :
    run (shapeStep table) (m.shape table) ts = some s ↔
      ∃ m', run step m ts = some m' ∧ Known table m' ∧ m'.shape table = s := by
  induction ts generalizing m with
  | nil =>
    constructor
    · intro h
      exact ⟨m, rfl, hm, Option.some.inj h⟩
    · rintro ⟨m', hrun, -, rfl⟩
      obtain rfl := Option.some.inj hrun
      rfl
  | cons t ts ih =>
    rw [run_cons_eq_some]
    constructor
    · rintro ⟨s₁, hstep, hrest⟩
      obtain ⟨m₁, hstep₁, hm₁, rfl⟩ := (shapeStep_some_iff hm).mp hstep
      obtain ⟨m', hrun, hm', hs⟩ := (ih hm₁).mp hrest
      exact ⟨m', run_cons_eq_some.mpr ⟨m₁, hstep₁, hrun⟩, hm', hs⟩
    · rintro ⟨m', hrun, hm', hs⟩
      obtain ⟨m₁, hstep₁, hrest⟩ := run_cons_eq_some.mp hrun
      have hm₁ := known_of_run hrest hm'
      exact ⟨m₁.shape table, (shapeStep_some_iff hm).mpr ⟨m₁, hstep₁, hm₁, rfl⟩,
        (ih hm₁).mpr ⟨m', hrest, hm', hs⟩⟩

theorem known_init : Known table .init :=
  ⟨fun _ h => absurd h not_mem_nil, knownFrame_empty, trivial⟩

/-- The scan accepts what derives a tree over the columns of the table. -/
theorem scan_iff : scan table 0 ts = some 0 ↔ ∃ e, Derives .or ts e ∧ e.known table = true := by
  rw [scan, Option.bind_eq_some_iff]
  constructor
  · rintro ⟨s, hrun, hdepth⟩
    obtain ⟨m, hm, hknown, rfl⟩ := (run_shapeStep_iff known_init).mp hrun
    simp only [depth, shape, ended_shape] at hdepth
    split_ifs at hdepth with hsome
    obtain ⟨v, hv⟩ := Option.isSome_iff_exists.mp hsome
    have hstack : m.stack = [] := length_eq_zero_iff.mp (Option.some.inj hdepth)
    refine ⟨m.frame.close v, parse_eq_some_iff.mp ?_,
      known_close.mpr ⟨hknown.2.1, (known_value hv).mpr hknown.2.2⟩⟩
    rw [parse, hm, Option.bind_some, finish, if_pos hstack, hv]
    rfl
  · rintro ⟨e, hderives, hknown⟩
    obtain ⟨m, hm, hfinish⟩ := Option.bind_eq_some_iff.mp (parse_eq_some_iff.mpr hderives)
    rw [finish] at hfinish
    split_ifs at hfinish with hstack
    obtain ⟨v, hv, rfl⟩ := Option.map_eq_some_iff.mp hfinish
    obtain ⟨hframe, hvalue⟩ := known_close.mp hknown
    have hm' : Known table m := by
      refine ⟨?_, hframe, (known_value hv).mp hvalue⟩
      rw [hstack]
      exact fun entry h => absurd h not_mem_nil
    refine ⟨m.shape table, (run_shapeStep_iff known_init).mpr ⟨m, hm, hm', rfl⟩, ?_⟩
    simp [depth, shape, ended_shape, hv, hstack]

theorem wellFormed_iff {s : List Char} :
    WellFormed table s ↔ ∃ ts, lex s = some ts ∧ scan table 0 ts = some 0 := by
  constructor
  · rintro ⟨ts, e, hlex, hderives, hknown⟩
    exact ⟨ts, hlex, scan_iff.mpr ⟨e, hderives, hknown⟩⟩
  · rintro ⟨ts, hlex, hscan⟩
    obtain ⟨e, hderives, hknown⟩ := scan_iff.mp hscan
    exact ⟨ts, e, hlex, hderives, hknown⟩

end

/-! ## Texts put together -/

section

variable {table : List (List Char)} {d : Nat}

/-- An operator that stands between operands. -/
def IsOperator (t : Token) : Prop := t = .and ∨ t = .or ∨ t = .not

theorem run_operator (hop : IsOperator op) (us : List Token) :
    run (shapeStep table) s (op :: us) =
      (Shape.depth s).bind fun d => run (shapeStep table) (d, .start) us := by
  rw [run_cons]
  rcases hop with rfl | rfl | rfl <;> simp only [shapeStep, Shape.depth] <;> split_ifs <;> rfl

theorem scan_operator (ts us : List Token) (hop : IsOperator op) :
    scan table d (ts ++ op :: us) = (scan table d ts).bind fun d' => scan table d' us := by
  simp only [scan, run_append, Option.bind_assoc]
  congr 1
  funext s
  rw [run_operator hop, Option.bind_assoc]

/-- No operand starts with an operator. -/
theorem scan_operator_first (us : List Token) (hop : IsOperator op) :
    scan table d (op :: us) = none := by
  rw [scan, run_operator hop]
  rfl

theorem scan_group (ts : List Token) :
    scan table d (.lparen :: (ts ++ [.rparen])) =
      (scan table (d + 1) ts).bind fun d' => if d' = 0 then none else some (d' - 1) := by
  have hopen : run (shapeStep table) (d, .start) (.lparen :: (ts ++ [.rparen])) =
      run (shapeStep table) (d + 1, .start) (ts ++ [.rparen]) := rfl
  rw [scan, hopen, run_append, scan, Option.bind_assoc, Option.bind_assoc]
  congr 1
  funext s
  obtain ⟨n, shape⟩ := s
  have hgroup : Shape.group.ended = true := rfl
  cases hended : shape.ended <;> by_cases hn : n = 0 <;>
    simp [run_cons, shapeStep, Shape.depth, hended, hn, hgroup]

/-- No parenthesis is opened or closed. -/
def Flat (ts : List Token) : Prop := ∀ t ∈ ts, t ≠ .lparen ∧ t ≠ .rparen

theorem shapeStep_flat (ht : t ≠ .lparen ∧ t ≠ .rparen) (shape : Shape) :
    shapeStep table (d, shape) t =
      (shapeStep table (0, shape) t).map fun s => (d, s.2) := by
  cases t with
  | lparen => exact absurd rfl ht.1
  | rparen => exact absurd rfl ht.2
  | string | minus | star | not | and | or => cases shape <;> rfl
  | colon =>
    cases shape with
    | word first known | excluded first known => cases known <;> rfl
    | _ => rfl
  | other c => rfl

theorem run_flat (h : Flat ts) (shape : Shape) :
    run (shapeStep table) (d, shape) ts =
      (run (shapeStep table) (0, shape) ts).map fun s => (d, s.2) := by
  induction ts generalizing shape with
  | nil => rfl
  | cons t ts ih =>
    obtain ⟨ht, hts⟩ := forall_mem_cons.mp h
    rw [run_cons, run_cons, shapeStep_flat ht]
    have hzero : shapeStep table (0, shape) t =
        (shapeStep table (0, shape) t).map fun s => (0, s.2) := shapeStep_flat ht shape
    cases hstep : shapeStep table (0, shape) t with
    | none => rfl
    | some s =>
      rw [hstep] at hzero
      obtain hs : s = (0, s.2) := Option.some.inj hzero
      simp only [Option.map_some, Option.bind_some]
      rw [ih hts, hs]

/-- The depth behind the operands of a text. -/
def scanText (table : List (List Char)) (d : Nat) (s : List Char) : Option Nat :=
  (lex s).bind (scan table d)

theorem wellFormed_iff_scanText {s : List Char} :
    WellFormed table s ↔ scanText table 0 s = some 0 := by
  rw [wellFormed_iff, scanText, Option.bind_eq_some_iff]

variable {a b : List Char}

/-- An operator between two texts. -/
theorem scanText_operator (word : List Char) (ha : Closed a) (hne : word ≠ [])
    (hword : ∀ c ∈ word, isBareword c = true) (htoken : wordToken word = op)
    (hop : IsOperator op) :
    scanText table d (a ++ ' ' :: (word ++ ' ' :: b)) =
      (scanText table d a).bind fun d' => scanText table d' b := by
  rw [scanText, lex_delimited delimiter_blank ha,
    lex_delimited delimiter_blank (closed_bareword hword), lex_bareword hne hword, htoken,
    scanText]
  cases lex a with
  | none => rfl
  | some ts =>
    cases hb : lex b with
    | none => simp [scanText, hb]
    | some us => simp [scanText, hb, scan_operator ts us hop]

/-- No text that starts with an operator is accepted. -/
theorem scanText_not_first :
    scanText table d ('N' :: 'O' :: 'T' :: ' ' :: b) = none := by
  have hword : ∀ c ∈ ['N', 'O', 'T'], isBareword c = true := by simp [isBareword]
  have hlex : lex ('N' :: 'O' :: 'T' :: ' ' :: b) =
      (lex b).map fun us => .not :: us := by
    rw [show 'N' :: 'O' :: 'T' :: ' ' :: b = ['N', 'O', 'T'] ++ ' ' :: b from rfl,
      lex_delimited delimiter_blank (closed_bareword hword)]
    rfl
  rw [scanText, hlex]
  cases lex b with
  | none => rfl
  | some us =>
    simp only [Option.map_some, Option.bind_some]
    exact scan_operator_first us (.inr (.inr rfl))

theorem scanText_group (ha : Closed a) :
    scanText table d ('(' :: (a ++ [')'])) =
      (scanText table (d + 1) a).bind fun d' => if d' = 0 then none else some (d' - 1) := by
  rw [scanText, show '(' :: (a ++ [')']) = [] ++ '(' :: (a ++ ')' :: []) from rfl,
    lex_delimited delimiter_lparen closed_nil, lex_delimited delimiter_rparen ha, lex_nil,
    scanText]
  cases lex a with
  | none => rfl
  | some ts => simp [scan_group]

/-- A column filter in front of a text without parentheses. -/
theorem scanText_column {name : List Char} (hne : name ≠ [])
    (hbare : ∀ c ∈ name, isBareword c = true) (htoken : wordToken name = .string name)
    (hname : namesColumn table name = true) :
    scanText table d (name ++ ':' :: b) =
      (lex b).bind fun ts =>
        (run (shapeStep table) (d, .column true) ts).bind Shape.depth := by
  rw [scanText, lex_delimited delimiter_colon (closed_bareword hbare),
    lex_bareword hne hbare, htoken]
  cases lex b with
  | none => rfl
  | some ts => simp [scan, run_cons, shapeStep, Shape.list, hname]

/-- The tokens read so far are flat. -/
def FlatLexer : Lexer → Prop
  | .between done => Flat done
  | .word done _ => Flat done
  | .quoted done _ => Flat done
  | .quote done _ => Flat done
  | .failed => True

theorem Flat.append (h : Flat ts) (ht : t ≠ .lparen ∧ t ≠ .rparen) : Flat (ts ++ [t]) := by
  intro u hu
  rcases mem_append.mp hu with hin | hin
  · exact h u hin
  · rw [mem_singleton.mp hin]
    exact ht

theorem wordToken_flat (text : List Char) :
    wordToken text ≠ .lparen ∧ wordToken text ≠ .rparen := by
  unfold wordToken
  split_ifs <;> exact ⟨by simp, by simp⟩

theorem flatLexer_start {done : List Token} {c : Char} (h : Flat done)
    (hc : c ≠ '(' ∧ c ≠ ')') : FlatLexer (.start done c) := by
  unfold Lexer.start
  split_ifs
  · exact h
  · exact h
  · exact h
  · cases htoken : charToken c with
    | none => trivial
    | some t =>
      apply h.append
      simp only [charToken, if_neg hc.1, if_neg hc.2] at htoken
      split_ifs at htoken <;> obtain rfl := Option.some.inj htoken <;>
        exact ⟨by simp, by simp⟩

theorem flatLexer_step {l : Lexer} {c : Char} (h : FlatLexer l) (hc : c ≠ '(' ∧ c ≠ ')') :
    FlatLexer (l.step c) := by
  cases l with
  | between done => exact flatLexer_start h hc
  | word done text =>
    rw [Lexer.step]
    split_ifs
    · exact h
    · exact flatLexer_start (Flat.append h (wordToken_flat text)) hc
  | quoted done text =>
    rw [Lexer.step]
    split_ifs
    · exact h
    · exact h
  | quote done text =>
    rw [Lexer.step]
    split_ifs
    · exact h
    · exact flatLexer_start (Flat.append h ⟨by simp, by simp⟩) hc
  | failed => trivial

/-- A text without parentheses has none among its tokens. -/
theorem flat_of_lex {s : List Char} (hs : '(' ∉ s ∧ ')' ∉ s) (h : lex s = some ts) :
    Flat ts := by
  have hfold : ∀ l : Lexer, FlatLexer l → FlatLexer (s.foldl Lexer.step l) := by
    clear h
    induction s with
    | nil => exact fun l hl => hl
    | cons c s ih =>
      intro l hl
      have hc : c ≠ '(' ∧ c ≠ ')' :=
        ⟨fun heq => hs.1 (heq ▸ mem_cons_self),
          fun heq => hs.2 (heq ▸ mem_cons_self)⟩
      exact ih ⟨fun hin => hs.1 (mem_cons_of_mem c hin),
        fun hin => hs.2 (mem_cons_of_mem c hin)⟩ _ (flatLexer_step hl hc)
  have hend := hfold (.between []) fun t ht => absurd ht not_mem_nil
  rw [lex] at h
  cases hl : s.foldl Lexer.step (.between []) <;> rw [hl] at h hend <;>
    simp only [Lexer.finish, Option.some.injEq, reduceCtorEq] at h <;> subst h
  case between => exact hend
  case word text => exact Flat.append hend (wordToken_flat _)
  case quote text => exact Flat.append hend ⟨by simp, by simp⟩

end

end Yanta.Fts5
