import Yanta.Fts5.Expression
import Yanta.Support.Runs

/-!
# Parsing full-text expressions

A pushdown machine that reads an expression token by token. A frame keeps what stands
left of the operators that still wait for their right side, and the stack has one frame
for each open parenthesis. The machine accepts exactly what the grammar derives and
builds its tree, so a derivation is unique; since it reads one token at a time, what it
does on the parts of a text gives what it does on the whole.
-/

namespace Yanta.Fts5

open Support List Option

/-- What stands left of the pending operators of each level. -/
structure Frame where
  ors : Option Expr := none
  ands : Option Expr := none
  nots : Option Expr := none
deriving DecidableEq, Repr

/-- The right side joined to what stands left of it. -/
def joined (op : Expr → Expr → Expr) : Option Expr → Expr → Expr
  | none, e => e
  | some l, e => op l e

def Frame.closeNot (f : Frame) (e : Expr) : Expr := joined .not f.nots e

def Frame.closeAnd (f : Frame) (e : Expr) : Expr := joined .and f.ands (f.closeNot e)

def Frame.close (f : Frame) (e : Expr) : Expr := joined .or f.ors (f.closeAnd e)

/-- What was read since the last operator or parenthesis; `list` are the phrases in front
of the unfinished one. -/
inductive Position where
  | start
  | minus (list : List Phrase)
  | word (list : List Phrase) (text : List Char)
  | excluded (list : List Phrase) (name : List Char)
  | column (list : List Phrase) (c : Columns)
  | filtered (list : List Phrase) (c : Columns) (text : List Char)
  | starred (list : List Phrase) (last : Phrase)
  | group (e : Expr)
deriving DecidableEq, Repr

/-- The phrases read, where another one may start. -/
def Position.list : Position → Option (List Phrase)
  | .start => some []
  | .word list text => some (list ++ [⟨none, text, false⟩])
  | .filtered list c text => some (list ++ [⟨some c, text, false⟩])
  | .starred list last => some (list ++ [last])
  | _ => none

/-- The operand read, where it may end. -/
def Position.value : Position → Option Expr
  | .word list text => some (.phrases (list ++ [⟨none, text, false⟩]))
  | .filtered list c text => some (.phrases (list ++ [⟨some c, text, false⟩]))
  | .starred list last => some (.phrases (list ++ [last]))
  | .group e => some e
  | _ => none

structure Machine where
  stack : List (Option Columns × Frame)
  frame : Frame
  pos : Position
deriving DecidableEq, Repr

def Machine.init : Machine := ⟨[], {}, .start⟩

/-- The tree of a group with an optional column filter in front. -/
def groupExpr : Option Columns → Expr → Expr
  | none, e => e
  | some c, e => .columns c e

def step (m : Machine) : Token → Option Machine
  | .string text =>
    match m.pos with
    | .minus list => some { m with pos := .excluded list text }
    | .column list c => some { m with pos := .filtered list c text }
    | pos => pos.list.map fun list => { m with pos := .word list text }
  | .minus => m.pos.list.map fun list => { m with pos := .minus list }
  | .colon =>
    match m.pos with
    | .word list text => some { m with pos := .column list (.only text) }
    | .excluded list name => some { m with pos := .column list (.except name) }
    | _ => none
  | .star =>
    match m.pos with
    | .word list text => some { m with pos := .starred list ⟨none, text, true⟩ }
    | .filtered list c text =>
      some { m with pos := .starred list ⟨some c, text, true⟩ }
    | _ => none
  | .lparen =>
    match m.pos with
    | .start => some ⟨(none, m.frame) :: m.stack, {}, .start⟩
    | .column [] c => some ⟨(some c, m.frame) :: m.stack, {}, .start⟩
    | _ => none
  | .rparen =>
    match m.stack with
    | [] => none
    | (c, frame) :: stack =>
      m.pos.value.map fun e => ⟨stack, frame, .group (groupExpr c (m.frame.close e))⟩
  | .not =>
    m.pos.value.map fun e =>
      ⟨m.stack, { m.frame with nots := some (m.frame.closeNot e) }, .start⟩
  | .and =>
    m.pos.value.map fun e =>
      ⟨m.stack, { m.frame with ands := some (m.frame.closeAnd e), nots := none }, .start⟩
  | .or =>
    m.pos.value.map fun e => ⟨m.stack, { ors := some (m.frame.close e) }, .start⟩
  | .other _ => none

def Machine.finish (m : Machine) : Option Expr :=
  if m.stack = [] then m.pos.value.map m.frame.close else none

def parse (ts : List Token) : Option Expr := (run step .init ts).bind Machine.finish

/-! ## What the grammar derives is accepted -/

section

variable {m : Machine} {ts : List Token} {list : List Phrase}

theorem step_string (h : m.pos.list = some list) (text : List Char) :
    step m (.string text) = some { m with pos := .word list text } := by
  obtain ⟨stack, frame, pos⟩ := m
  cases pos <;> simp_all [step, Position.list]

theorem run_columns {cs : List Token} {c : Columns} (hc : DerivesColumns cs c)
    (h : m.pos.list = some list) :
    run step m (cs ++ [.colon]) = some { m with pos := .column list c } := by
  cases hc with
  | only name =>
    rw [singleton_append, run_cons, step_string h]
    rfl
  | except name => simp [run_cons, step, h]

theorem run_phrase {p : Phrase} (hp : DerivesPhrase ts p) (h : m.pos.list = some list) :
    ∃ pos, run step m ts = some { m with pos := pos } ∧
      pos.list = some (list ++ [p]) ∧ pos.value = some (.phrases (list ++ [p])) := by
  cases hp with
  | plain text =>
    exact ⟨.word list text, by simp [run_cons, step_string h], rfl, rfl⟩
  | star text =>
    refine ⟨.starred list ⟨none, text, true⟩, ?_, rfl, rfl⟩
    rw [run_cons, step_string h]
    rfl
  | @filtered cs c text hc =>
    refine ⟨.filtered list c text, ?_, rfl, rfl⟩
    rw [append_cons cs, run_append, run_columns hc h]
    simp [run_cons, step]
  | @filteredStar cs c text hc =>
    refine ⟨.starred list ⟨some c, text, true⟩, ?_, rfl, rfl⟩
    rw [append_cons cs, run_append, run_columns hc h]
    simp [run_cons, step]

theorem run_list (hlist : DerivesList ts list) (h : m.pos = .start) :
    ∃ pos, run step m ts = some { m with pos := pos } ∧
      pos.list = some list ∧ pos.value = some (.phrases list) := by
  induction hlist with
  | one hp =>
    have hstart : m.pos.list = some [] := by rw [h]; rfl
    exact run_phrase hp hstart
  | more _ hp ih =>
    obtain ⟨pos, hrun, hpos, -⟩ := ih
    obtain ⟨pos', hrun', hlist, hvalue⟩ :=
      run_phrase (m := { m with pos := pos }) hp hpos
    exact ⟨pos', by rw [run_append, hrun, bind_some, hrun'], hlist, hvalue⟩

/-- What the machine does on a derived token list, level by level. -/
def Runs : Level → List Token → Expr → Prop
  | .operand, ts, e => ∀ m : Machine, m.pos = .start →
      ∃ pos, run step m ts = some { m with pos := pos } ∧ pos.value = some e
  | .not, ts, e => ∀ m : Machine, m.pos = .start → m.frame.nots = none →
      ∃ frame pos v, run step m ts = some ⟨m.stack, frame, pos⟩ ∧ pos.value = some v ∧
        frame.ors = m.frame.ors ∧ frame.ands = m.frame.ands ∧ frame.closeNot v = e
  | .and, ts, e => ∀ m : Machine, m.pos = .start → m.frame.nots = none →
      m.frame.ands = none →
        ∃ frame pos v, run step m ts = some ⟨m.stack, frame, pos⟩ ∧ pos.value = some v ∧
          frame.ors = m.frame.ors ∧ frame.closeAnd v = e
  | .or, ts, e => ∀ stack, ∃ frame pos v,
      run step ⟨stack, {}, .start⟩ ts = some ⟨stack, frame, pos⟩ ∧ pos.value = some v ∧
        frame.close v = e

theorem runs_group {e : Expr} (h : Runs .or ts e) (c : Option Columns) (m : Machine) :
    run step ⟨(c, m.frame) :: m.stack, {}, .start⟩ (ts ++ [.rparen]) =
      some { m with pos := .group (groupExpr c e) } := by
  obtain ⟨frame, pos, v, hrun, hvalue, rfl⟩ := h ((c, m.frame) :: m.stack)
  rw [run_append, hrun]
  simp [run_cons, step, hvalue]

theorem Derives.runs {l : Level} {e : Expr} (h : Derives l ts e) : Runs l ts e := by
  induction h with
  | phrases hlist =>
    intro m hm
    obtain ⟨pos, hrun, -, hvalue⟩ := run_list hlist hm
    exact ⟨pos, hrun, hvalue⟩
  | @group ts e _ ih =>
    intro m hm
    refine ⟨.group e, ?_, rfl⟩
    rw [run_cons, show step m .lparen = some ⟨(none, m.frame) :: m.stack, {}, .start⟩ by
      simp [step, hm]]
    exact runs_group ih none m
  | @filter cs ts c e hc _ ih =>
    intro m hm
    refine ⟨.group (.columns c e), ?_, rfl⟩
    have hstart : m.pos.list = some [] := by rw [hm]; rfl
    rw [append_cons cs, run_append, run_columns hc hstart]
    exact runs_group ih (some c) m
  | operand _ ih =>
    intro m hm hnots
    obtain ⟨pos, hrun, hvalue⟩ := ih m hm
    refine ⟨m.frame, pos, _, hrun, hvalue, rfl, rfl, ?_⟩
    rw [Frame.closeNot, hnots, joined]
  | not _ _ ihl ihr =>
    intro m hm hnots
    obtain ⟨frame, pos, v, hrun, hvalue, hors, hands, rfl⟩ := ihl m hm hnots
    obtain ⟨pos', hrun', hvalue'⟩ := ihr
      ⟨m.stack, { frame with nots := some (frame.closeNot v) }, .start⟩ rfl
    refine ⟨{ frame with nots := some (frame.closeNot v) }, pos', _, ?_, hvalue', hors,
      hands, rfl⟩
    rw [run_append, hrun, bind_some, run_cons, step]
    simp only [hvalue]
    exact hrun'
  | ofNot _ ih =>
    intro m hm hnots hands
    obtain ⟨frame, pos, v, hrun, hvalue, hors, hands', rfl⟩ := ih m hm hnots
    refine ⟨frame, pos, v, hrun, hvalue, hors, ?_⟩
    rw [Frame.closeAnd, hands', hands, joined]
  | and _ _ ihl ihr =>
    intro m hm hnots hands
    obtain ⟨frame, pos, v, hrun, hvalue, hors, rfl⟩ := ihl m hm hnots hands
    obtain ⟨frame', pos', v', hrun', hvalue', hors', hands', rfl⟩ := ihr
      ⟨m.stack, { frame with ands := some (frame.closeAnd v), nots := none }, .start⟩ rfl rfl
    refine ⟨frame', pos', v', ?_, hvalue', hors'.trans hors, ?_⟩
    · rw [run_append, hrun, bind_some, run_cons, step]
      simp only [hvalue]
      exact hrun'
    · rw [Frame.closeAnd, hands', joined]
  | ofAnd _ ih =>
    intro stack
    obtain ⟨frame, pos, v, hrun, hvalue, hors, rfl⟩ :=
      ih ⟨stack, {}, .start⟩ rfl rfl rfl
    refine ⟨frame, pos, v, hrun, hvalue, ?_⟩
    rw [Frame.close, hors, joined]
  | or _ _ ihl ihr =>
    intro stack
    obtain ⟨frame, pos, v, hrun, hvalue, rfl⟩ := ihl stack
    obtain ⟨frame', pos', v', hrun', hvalue', hors', rfl⟩ := ihr
      ⟨stack, { ors := some (frame.close v) }, .start⟩ rfl rfl rfl
    refine ⟨frame', pos', v', ?_, hvalue', ?_⟩
    · rw [run_append, hrun, bind_some, run_cons, step]
      simp only [hvalue]
      exact hrun'
    · rw [Frame.close, hors', joined]

end

/-! ## What is accepted is derived -/

section

/-- The tokens of the phrases read so far. -/
def ReadsList (us : List Token) (list : List Phrase) : Prop :=
  us = [] ∧ list = [] ∨ DerivesList us list

/-- The tokens read since the last operator or parenthesis. -/
def ReadsPosition (us : List Token) : Position → Prop
  | .start => us = []
  | .minus list => ∃ ls, us = ls ++ [.minus] ∧ ReadsList ls list
  | .word list text => ∃ ls, us = ls ++ [.string text] ∧ ReadsList ls list
  | .excluded list name => ∃ ls, us = ls ++ [.minus, .string name] ∧ ReadsList ls list
  | .column list c => ∃ ls cs, us = ls ++ (cs ++ [.colon]) ∧ ReadsList ls list ∧
      DerivesColumns cs c
  | .filtered list c text => ∃ ls cs, us = ls ++ (cs ++ [.colon, .string text]) ∧
      ReadsList ls list ∧ DerivesColumns cs c
  | .starred list last => DerivesList us (list ++ [last])
  | .group e => Derives .operand us e

/-- The tokens of the left side of a pending operator, with the operator. -/
def ReadsLeft (l : Level) (op : Token) (us : List Token) (left : Option Expr) : Prop :=
  match left with
  | none => us = []
  | some e => ∃ ts, us = ts ++ [op] ∧ Derives l ts e

def ReadsFrame (us : List Token) (f : Frame) : Prop :=
  ∃ a b c, us = a ++ (b ++ c) ∧ ReadsLeft .or .or a f.ors ∧ ReadsLeft .and .and b f.ands ∧
    ReadsLeft .not .not c f.nots

/-- The tokens of a column filter in front of a parenthesis. -/
def ReadsFilter (us : List Token) (c : Option Columns) : Prop :=
  match c with
  | none => us = []
  | some c => ∃ cs, us = cs ++ [.colon] ∧ DerivesColumns cs c

def ReadsStack : List Token → List (Option Columns × Frame) → Prop
  | us, [] => us = []
  | us, (c, f) :: stack => ∃ a b d, us = a ++ (b ++ (d ++ [.lparen])) ∧ ReadsStack a stack ∧
      ReadsFrame b f ∧ ReadsFilter d c

/-- The tokens that the machine has read. -/
def Reads (us : List Token) (m : Machine) : Prop :=
  ∃ a b c, us = a ++ (b ++ c) ∧ ReadsStack a m.stack ∧ ReadsFrame b m.frame ∧
    ReadsPosition c m.pos

variable {us : List Token} {list : List Phrase}

theorem ReadsList.append {ls vs : List Token} {p : Phrase} (h : ReadsList ls list)
    (hp : DerivesPhrase vs p) : DerivesList (ls ++ vs) (list ++ [p]) := by
  rcases h with ⟨rfl, rfl⟩ | h
  · exact .one hp
  · exact .more h hp

theorem DerivesList.ne_nil (h : DerivesList us list) : list ≠ [] := by
  induction h with
  | one _ => exact cons_ne_nil _ _
  | more _ _ _ => simp

theorem readsList_of_list {pos : Position} (h : ReadsPosition us pos)
    (hlist : pos.list = some list) : ReadsList us list := by
  cases pos <;> simp only [Position.list, Option.some.injEq, reduceCtorEq] at hlist <;>
    subst hlist
  case start => exact .inl ⟨h, rfl⟩
  case word list text =>
    obtain ⟨ls, rfl, hls⟩ := h
    exact .inr (hls.append (.plain text))
  case filtered list c text =>
    obtain ⟨ls, cs, rfl, hls, hcs⟩ := h
    exact .inr (hls.append (.filtered text hcs))
  case starred => exact .inr h

theorem derives_of_value {pos : Position} {e : Expr} (h : ReadsPosition us pos)
    (hvalue : pos.value = some e) : Derives .operand us e := by
  cases pos <;> simp only [Position.value, Option.some.injEq, reduceCtorEq] at hvalue <;>
    subst hvalue
  case word list text =>
    obtain ⟨ls, rfl, hls⟩ := h
    exact .phrases (hls.append (.plain text))
  case filtered list c text =>
    obtain ⟨ls, cs, rfl, hls, hcs⟩ := h
    exact .phrases (hls.append (.filtered text hcs))
  case starred => exact .phrases h
  case group => exact h

variable {f : Frame} {vs : List Token} {e : Expr}

theorem ReadsLeft.joined {l l' : Level} {op : Token} {join : Expr → Expr → Expr}
    {left : Option Expr} (h : ReadsLeft l op us left) (he : Derives l' vs e)
    (hjoin : ∀ ts e', Derives l ts e' → Derives l' (ts ++ op :: vs) (join e' e)) :
    Derives l' (us ++ vs) (joined join left e) := by
  cases left with
  | none =>
    obtain rfl : us = [] := h
    exact he
  | some e' =>
    obtain ⟨ts, rfl, hleft⟩ := h
    rw [append_assoc]
    exact hjoin ts e' hleft

theorem derives_closeNot {c : List Token} (h : ReadsLeft .not .not c f.nots)
    (he : Derives .operand vs e) : Derives .not (c ++ vs) (f.closeNot e) :=
  h.joined (.operand he) fun _ _ hl => .not hl he

theorem derives_closeAnd {b c : List Token} (hb : ReadsLeft .and .and b f.ands)
    (hc : ReadsLeft .not .not c f.nots) (he : Derives .operand vs e) :
    Derives .and (b ++ (c ++ vs)) (f.closeAnd e) := by
  have hnot := derives_closeNot hc he
  exact hb.joined (.ofNot hnot) fun _ _ hl => .and hl hnot

theorem derives_close (h : ReadsFrame us f) (he : Derives .operand vs e) :
    Derives .or (us ++ vs) (f.close e) := by
  obtain ⟨a, b, c, rfl, ha, hb, hc⟩ := h
  have hand := derives_closeAnd hb hc he
  rw [append_assoc, append_assoc]
  exact ha.joined (.ofAnd hand) fun _ _ hl => .or hl hand

theorem readsFrame_empty : ReadsFrame [] {} := ⟨[], [], [], rfl, rfl, rfl, rfl⟩

/-- A step within an operand. -/
theorem Reads.within {m : Machine} {pos : Position} {t : Token} (h : Reads us m)
    (hpos : ∀ c, ReadsPosition c m.pos → ReadsPosition (c ++ [t]) pos) :
    Reads (us ++ [t]) { m with pos := pos } := by
  obtain ⟨a, b, c, rfl, ha, hb, hc⟩ := h
  exact ⟨a, b, c ++ [t], by simp, ha, hb, hpos c hc⟩

/-- A step that ends an operand with an operator. -/
theorem Reads.operator {m : Machine} {frame : Frame} {t : Token} {v : Expr} (h : Reads us m)
    (hvalue : m.pos.value = some v)
    (hframe : ∀ b c, ReadsFrame b m.frame → Derives .operand c v →
      ReadsFrame (b ++ (c ++ [t])) frame) :
    Reads (us ++ [t]) ⟨m.stack, frame, .start⟩ := by
  obtain ⟨a, b, c, rfl, ha, hb, hc⟩ := h
  exact ⟨a, b ++ (c ++ [t]), [], by simp, ha, hframe b c hb (derives_of_value hc hvalue), rfl⟩

section

variable {m m' : Machine} (h : Reads us m)

include h

theorem reads_lparen (hstep : step m .lparen = some m') :
    Reads (us ++ [.lparen]) m' := by
  obtain ⟨a, b, c, rfl, ha, hb, hc⟩ := h
  obtain ⟨stack, frame, pos⟩ := m
  cases pos <;> simp only [step, Option.some.injEq, reduceCtorEq] at hstep
  case start =>
    subst hstep
    obtain rfl : c = [] := hc
    exact ⟨_, [], [], by simp, ⟨a, b, [], rfl, ha, hb, rfl⟩, readsFrame_empty, rfl⟩
  case column list col =>
    obtain ⟨ls, cs, rfl, hls, hcs⟩ := hc
    cases list with
    | cons p list => simp at hstep
    | nil =>
      simp only [Option.some.injEq] at hstep
      subst hstep
      have hnil : ls = [] := by
        rcases hls with ⟨rfl, -⟩ | hls
        · rfl
        · exact absurd rfl hls.ne_nil
      rw [hnil]
      exact ⟨_, [], [], by simp, ⟨a, b, cs ++ [.colon], rfl, ha, hb, cs, rfl, hcs⟩,
        readsFrame_empty, rfl⟩

theorem reads_rparen (hstep : step m .rparen = some m') :
    Reads (us ++ [.rparen]) m' := by
  obtain ⟨a, b, c, rfl, ha, hb, hc⟩ := h
  obtain ⟨stack, frame, pos⟩ := m
  cases stack with
  | nil => simp [step] at hstep
  | cons top stack =>
    obtain ⟨col, outer⟩ := top
    obtain ⟨v, hvalue, rfl⟩ := map_eq_some_iff.mp hstep
    obtain ⟨a', b', d, rfl, ha', hb', hd⟩ := ha
    have hinner := derives_close hb (derives_of_value hc hvalue)
    refine ⟨a', b', d ++ .lparen :: (b ++ c ++ [.rparen]), by simp, ha', hb', ?_⟩
    cases col with
    | none =>
      obtain rfl : d = [] := hd
      exact Derives.group hinner
    | some col =>
      obtain ⟨cs, rfl, hcs⟩ := hd
      rw [append_assoc]
      exact Derives.filter hcs hinner

theorem Reads.step {t : Token} (hstep : Fts5.step m t = some m') :
    Reads (us ++ [t]) m' := by
  cases t with
  | string text =>
    obtain ⟨stack, frame, pos⟩ := m
    cases pos
    case minus list =>
      obtain rfl := Option.some.inj hstep
      apply h.within
      rintro c ⟨ls, rfl, hls⟩
      exact ⟨ls, by simp, hls⟩
    case column list col =>
      obtain rfl := Option.some.inj hstep
      apply h.within
      rintro c ⟨ls, cs, rfl, hls, hcs⟩
      exact ⟨ls, cs, by simp, hls, hcs⟩
    -- Everywhere else a string starts a phrase, if one may start.
    all_goals
      simp only [Fts5.step, map_eq_some_iff] at hstep
      obtain ⟨list, hlist, rfl⟩ := hstep
      exact h.within fun c hc => ⟨c, rfl, readsList_of_list hc hlist⟩
  | minus =>
    obtain ⟨list, hlist, rfl⟩ := map_eq_some_iff.mp hstep
    exact h.within fun c hc => ⟨c, rfl, readsList_of_list hc hlist⟩
  | colon =>
    obtain ⟨stack, frame, pos⟩ := m
    cases pos <;> simp only [Fts5.step, Option.some.injEq, reduceCtorEq] at hstep <;>
      subst hstep <;> apply h.within
    · rintro c ⟨ls, rfl, hls⟩
      exact ⟨ls, _, by simp, hls, .only _⟩
    · rintro c ⟨ls, rfl, hls⟩
      exact ⟨ls, _, by simp, hls, .except _⟩
  | star =>
    obtain ⟨stack, frame, pos⟩ := m
    cases pos <;> simp only [Fts5.step, Option.some.injEq, reduceCtorEq] at hstep <;>
      subst hstep <;> apply h.within
    case word list text =>
      rintro c ⟨ls, rfl, hls⟩
      have hmore := hls.append (.star text)
      simpa [ReadsPosition] using hmore
    case filtered list col text =>
      rintro c ⟨ls, cs, rfl, hls, hcs⟩
      have hmore := hls.append (.filteredStar text hcs)
      simpa [ReadsPosition] using hmore
  | lparen => exact reads_lparen h hstep
  | rparen => exact reads_rparen h hstep
  | not =>
    obtain ⟨v, hvalue, rfl⟩ := map_eq_some_iff.mp hstep
    apply h.operator hvalue
    rintro b c ⟨a₁, b₁, c₁, rfl, ha, hb, hc⟩ hv
    exact ⟨a₁, b₁, c₁ ++ c ++ [.not], by simp, ha, hb, _, rfl, derives_closeNot hc hv⟩
  | and =>
    obtain ⟨v, hvalue, rfl⟩ := map_eq_some_iff.mp hstep
    apply h.operator hvalue
    rintro b c ⟨a₁, b₁, c₁, rfl, ha, hb, hc⟩ hv
    exact ⟨a₁, b₁ ++ (c₁ ++ c) ++ [.and], [], by simp, ha,
      ⟨_, rfl, derives_closeAnd hb hc hv⟩, rfl⟩
  | or =>
    obtain ⟨v, hvalue, rfl⟩ := map_eq_some_iff.mp hstep
    apply h.operator hvalue
    intro b c hb hv
    exact ⟨b ++ c ++ [.or], [], [], by simp, ⟨_, rfl, derives_close hb hv⟩, rfl, rfl⟩
  | other c => simp [Fts5.step] at hstep

theorem reads_of_run {ts : List Token} (hrun : run Fts5.step m ts = some m') :
    Reads (us ++ ts) m' := by
  induction ts generalizing us m with
  | nil =>
    obtain rfl := Option.some.inj hrun
    simpa using h
  | cons t ts ih =>
    obtain ⟨m₁, hstep, hrest⟩ := run_cons_eq_some.mp hrun
    have hreads := ih (h.step hstep) hrest
    simpa using hreads

end

end

/-- The machine accepts what the grammar derives, with the same tree. -/
theorem parse_eq_some_iff {ts : List Token} {e : Expr} :
    parse ts = some e ↔ Derives .or ts e := by
  constructor
  · intro h
    obtain ⟨m, hrun, hfinish⟩ := bind_eq_some_iff.mp h
    have hinit : Reads [] .init := ⟨[], [], [], rfl, rfl, readsFrame_empty, rfl⟩
    obtain ⟨a, b, c, hts, ha, hb, hc⟩ := reads_of_run hinit hrun
    rw [Machine.finish] at hfinish
    split_ifs at hfinish with hstack
    obtain ⟨v, hvalue, rfl⟩ := map_eq_some_iff.mp hfinish
    rw [hstack] at ha
    obtain rfl : a = [] := ha
    rw [nil_append] at hts
    rw [hts, nil_append]
    exact derives_close hb (derives_of_value hc hvalue)
  · intro h
    obtain ⟨frame, pos, v, hrun, hvalue, rfl⟩ := h.runs []
    rw [parse, Machine.init, hrun, bind_some, Machine.finish, hvalue]
    rfl

end Yanta.Fts5
