import Yanta.Blocknote.Inline

/-!
# What inline parsing deletes

The words that the inline parser keeps are those of its input. From the input it
deletes paired markers and, for each link it returns, the brackets and the address.
-/

namespace Yanta.Blocknote

open Go List Option

variable {s rest text : Line}

/-! ## Deleting markers and addresses -/

/-- The markers that come in pairs. -/
def markers : List Line := [['`'], ['*', '*'], ['~', '~'], ['*'], ['_']]

/-- `Unmarked s text urls`: from `s`, deleting paired markers and the brackets and
addresses of links leaves `text`; the addresses deleted are `urls`, in order. -/
inductive Unmarked : Line → Line → List String → Prop where
  | nil : Unmarked [] [] []
  | keep (c : Char) {s text : Line} {urls : List String} :
      Unmarked s text urls → Unmarked (c :: s) (c :: text) urls
  | pair {mark inner rest text text' : Line} {urls urls' : List String} :
      mark ∈ markers → Unmarked inner text urls → Unmarked rest text' urls' →
        Unmarked (mark ++ inner ++ mark ++ rest) (text ++ text') (urls ++ urls')
  | link (url : Line) {label rest text text' : Line} {urls urls' : List String} :
      Unmarked label text urls → Unmarked rest text' urls' →
        Unmarked (['['] ++ label ++ [']', '('] ++ url ++ [')'] ++ rest) (text ++ text')
          (String.ofList url :: urls ++ urls')

/-- Text in front is kept. -/
theorem Unmarked.append_left {urls : List String} (h : Unmarked s text urls) (before : Line) :
    Unmarked (before ++ s) (before ++ text) urls := by
  induction before with
  | nil => exact h
  | cons c before ih => exact ih.keep c

open Unmarked

theorem Unmarked.refl (s : Line) : Unmarked s s [] := by
  simpa using nil.append_left s

/-- What is left stands in the input in the same order, each character once. -/
theorem Unmarked.sublist {urls : List String} (h : Unmarked s text urls) : text.Sublist s := by
  induction h with
  | nil => exact List.Sublist.slnil
  | keep c _ ih => exact ih.cons_cons c
  | @pair mark inner rest _ _ _ _ _ _ _ ihinner ihrest =>
    have hinner := (sublist_append_right mark inner).trans
      (sublist_append_left (mark ++ inner) mark)
    exact (ihinner.trans hinner).append ihrest
  | @link url label rest _ _ _ _ _ _ ihlabel ihrest =>
    have hlabel := ((sublist_append_right ['['] label).trans
      (sublist_append_left (['['] ++ label) [']', '('])).trans
      (sublist_append_left _ (url ++ [')']))
    have hall := (ihlabel.trans hlabel).append ihrest
    simpa only [append_assoc] using hall

/-! ## What is found at a position -/

/-- A cut is at an occurrence of the separator. -/
theorem eq_of_cut {sep before after : Line} (h : cut sep s = some (before, after)) :
    s = before ++ sep ++ after := by
  induction s generalizing before with
  | nil => simp [cut] at h
  | cons c cs ih =>
    rw [cut] at h
    by_cases hsep : sep.isPrefixOf (c :: cs) = true
    · rw [if_pos hsep] at h
      obtain ⟨rfl, rfl⟩ := Prod.mk.inj (Option.some.inj h)
      obtain ⟨rest, hrest⟩ := isPrefixOf_iff_prefix.mp hsep
      rw [← hrest]
      simp
    · rw [if_neg hsep] at h
      obtain ⟨found, hfound, heq⟩ := map_eq_some_iff.mp h
      obtain ⟨rfl, rfl⟩ := Prod.mk.inj heq
      rw [ih hfound]
      rfl

theorem eq_of_matchDelim {delim inner : Line} (h : matchDelim delim s = some (inner, rest)) :
    s = delim ++ inner ++ delim ++ rest := by
  rw [matchDelim] at h
  by_cases hdelim : delim.isPrefixOf s = true
  · rw [if_pos hdelim] at h
    have hcut := eq_of_cut (eq_some_of_filter_eq_some h)
    obtain ⟨after, hafter⟩ := isPrefixOf_iff_prefix.mp hdelim
    rw [← hafter, drop_left] at hcut
    rw [← hafter, hcut]
    simp
  · rw [if_neg hdelim] at h
    cases h

theorem eq_of_matchLink {cs label url rest : Line}
    (h : matchLink ('[' :: cs) = some (label, url, rest)) :
    '[' :: cs = ['['] ++ label ++ [']', '('] ++ url ++ [')'] ++ rest := by
  rw [matchLink] at h
  split at h
  · next c label' rest' hlabel =>
      obtain ⟨found, hfound, heq⟩ := map_eq_some_iff.mp h
      obtain ⟨rfl, rfl⟩ := Prod.mk.inj heq
      have hopen := eq_of_cut hlabel
      have hclose := eq_of_cut hfound
      have hc := (List.cons.inj hopen).1
      rw [hopen, hclose, ← hc]
      simp
  · cases h

/-- The text that a span is read from. -/
def Span.ReadFrom (s : Line) : Span → Prop
  | .code text rest => s = ['`'] ++ text ++ ['`'] ++ rest
  | .link label url rest => s = ['['] ++ label ++ [']', '('] ++ url ++ [')'] ++ rest
  | .styled _ inner rest => ∃ mark ∈ markers, s = mark ++ inner ++ mark ++ rest

theorem readFrom_of_matchDelim {mark : Line} (hmark : mark ∈ markers) {style : String}
    {span : Span}
    (h : (matchDelim mark s).map (fun found => .styled style found.1 found.2) = some span) :
    span.ReadFrom s := by
  obtain ⟨found, hfound, rfl⟩ := map_eq_some_iff.mp h
  exact ⟨mark, hmark, eq_of_matchDelim hfound⟩

/-- A span is read from the front of the text. -/
theorem readFrom_of_nextSpan {span : Span} (h : nextSpan s = some span) : span.ReadFrom s := by
  cases s with
  | nil => cases h
  | cons c cs =>
    rw [nextSpan] at h
    split_ifs at h with hcode hlink hbold hstrike hitalic
    · obtain ⟨found, hfound, rfl⟩ := map_eq_some_iff.mp h
      rw [hcode, eq_of_cut hfound]
      exact rfl
    · subst hlink
      obtain ⟨found, hfound, rfl⟩ := map_eq_some_iff.mp h
      exact eq_of_matchLink hfound
    · exact readFrom_of_matchDelim (by simp [markers]) h
    · exact readFrom_of_matchDelim (by simp [markers]) h
    · refine readFrom_of_matchDelim ?_ h
      rcases hitalic with rfl | rfl
      · simp [markers]
      · simp [markers]

theorem marker_ne_nil {mark : Line} (h : mark ∈ markers) : 1 ≤ mark.length := by
  have hall : markers.all (fun mark => decide (1 ≤ mark.length)) = true := by decide
  exact of_decide_eq_true (all_eq_true.mp hall mark h)

/-- What is parsed inside and after a span is shorter than the text. -/
theorem Span.ReadFrom.styled_length {inner : Line} {style : String}
    (h : (Span.styled style inner rest).ReadFrom s) :
    inner.length < s.length ∧ rest.length < s.length := by
  obtain ⟨mark, hmark, rfl⟩ := h
  have hlen := marker_ne_nil hmark
  simp only [length_append]
  omega

theorem Span.ReadFrom.link_length {label url : Line}
    (h : (Span.link label url rest).ReadFrom s) :
    label.length < s.length ∧ rest.length < s.length := by
  rw [show s = _ from h]
  simp only [length_append, length_cons]
  omega

theorem Span.ReadFrom.code_length (h : (Span.code text rest).ReadFrom s) :
    rest.length < s.length := by
  rw [show s = _ from h]
  simp only [length_append, length_cons]
  omega

/-! ## The parser -/

/-- Any fuel above the length of the text is enough. -/
theorem parseFrom_eq_of_length_lt {fuel fuel' : Nat} (buf : Line) (h : s.length < fuel)
    (h' : s.length < fuel') :
    parseFrom fuel buf s = parseFrom fuel' buf s := by
  induction fuel generalizing fuel' buf s with
  | zero => exact absurd h (Nat.not_lt_zero _)
  | succ fuel ih =>
    obtain ⟨fuel', rfl⟩ : ∃ n, fuel' = n + 1 := ⟨fuel' - 1, by omega⟩
    have hpart : ∀ t : Line, t.length < s.length → parseFrom fuel [] t = parseFrom fuel' [] t :=
      fun t ht => ih [] (by omega) (by omega)
    cases s with
    | nil => rfl
    | cons c cs =>
      rw [parseFrom, parseFrom]
      cases hspan : nextSpan (c :: cs) with
      | none =>
        simp only [length_cons] at h h'
        exact ih _ (by omega) (by omega)
      | some span =>
        have hread := readFrom_of_nextSpan hspan
        cases span with
        | code text rest =>
          simp only [hpart rest hread.code_length]
        | link label url rest =>
          obtain ⟨hlabel, hrest⟩ := hread.link_length
          simp only [hpart label hlabel, hpart rest hrest]
        | styled style inner rest =>
          obtain ⟨hinner, hrest⟩ := hread.styled_length
          simp only [hpart inner hinner, hpart rest hrest]

mutual

/-- The addresses of an item's links, each before those inside its label. -/
def itemUrls : Inline → List String
  | .mk type _ _ href content => (if type = "link" then [href] else []) ++ linkUrls content

def linkUrls : List Inline → List String
  | [] => []
  | item :: items => itemUrls item ++ linkUrls items

end

@[simp] theorem itemsPlainText_append (items items' : List Inline) :
    itemsPlainText (items ++ items') = itemsPlainText items ++ itemsPlainText items' := by
  induction items with
  | nil => rfl
  | cons item items ih => simp [itemsPlainText, ih]

@[simp] theorem linkUrls_append (items items' : List Inline) :
    linkUrls (items ++ items') = linkUrls items ++ linkUrls items' := by
  induction items with
  | nil => rfl
  | cons item items ih => simp [linkUrls, ih]

@[simp] theorem itemPlainText_textInline (text : Line) (styles : Object) :
    itemPlainText (textInline text styles) = text := by
  simp [textInline, itemPlainText, itemsPlainText]

@[simp] theorem itemUrls_textInline (text : Line) (styles : Object) :
    itemUrls (textInline text styles) = [] := by
  simp [textInline, itemUrls, linkUrls]

@[simp] theorem itemPlainText_linkInline (url : Line) (content : List Inline) :
    itemPlainText (linkInline url content) = itemsPlainText content := by
  simp [linkInline, itemPlainText]

@[simp] theorem itemUrls_linkInline (url : Line) (content : List Inline) :
    itemUrls (linkInline url content) = String.ofList url :: linkUrls content := by
  simp [linkInline, itemUrls]

@[simp] theorem itemsPlainText_flush (buf : Line) : itemsPlainText (flush buf) = buf := by
  by_cases h : buf = []
  · simp [flush, h, itemsPlainText]
  · simp [flush, h, itemsPlainText]

@[simp] theorem linkUrls_flush (buf : Line) : linkUrls (flush buf) = [] := by
  by_cases h : buf = []
  · simp [flush, h, linkUrls]
  · simp [flush, h, linkUrls]

mutual

theorem applyStyleItem_keeps (style : String) (item : Inline) :
    itemPlainText (applyStyleItem style item) = itemPlainText item ∧
      itemUrls (applyStyleItem style item) = itemUrls item := by
  obtain ⟨type, text, styles, href, content⟩ := item
  have hcontent := applyStyle_keeps style content
  rw [applyStyleItem]
  split_ifs with htext hlink
  · exact ⟨rfl, rfl⟩
  · simp [itemPlainText, itemUrls, hcontent.1, hcontent.2]
  · exact ⟨rfl, rfl⟩

/-- A style changes neither texts nor addresses. -/
theorem applyStyle_keeps (style : String) (items : List Inline) :
    itemsPlainText (applyStyle style items) = itemsPlainText items ∧
      linkUrls (applyStyle style items) = linkUrls items := by
  cases items with
  | nil => exact ⟨rfl, rfl⟩
  | cons item items =>
    have hitem := applyStyleItem_keeps style item
    have hitems := applyStyle_keeps style items
    simp only [applyStyle, itemsPlainText, linkUrls, hitem.1, hitem.2, hitems.1, hitems.2,
      and_self]

end

/-- With enough fuel, the loop deletes markers and addresses only. -/
theorem unmarked_parseFrom {fuel : Nat} (buf : Line) (h : s.length < fuel) :
    Unmarked (buf ++ s) (itemsPlainText (parseFrom fuel buf s))
      (linkUrls (parseFrom fuel buf s)) := by
  induction fuel generalizing buf s with
  | zero => exact absurd h (Nat.not_lt_zero _)
  | succ fuel ih =>
    cases s with
    | nil =>
      simp only [parseFrom, itemsPlainText_flush, linkUrls_flush, append_nil]
      exact refl buf
    | cons c cs =>
      rw [parseFrom]
      cases hspan : nextSpan (c :: cs) with
      | none =>
        have hcs := ih (buf ++ [c]) (s := cs) (by simpa using h)
        simpa using hcs
      | some span =>
        have hread := readFrom_of_nextSpan hspan
        cases span with
        | code text rest =>
          have hlength := hread.code_length
          have hrest := ih [] (s := rest) (by omega)
          have hmark : ['`'] ∈ markers := by simp [markers]
          have hpair := pair hmark (refl text) hrest
          rw [show c :: cs = _ from hread]
          simpa [itemsPlainText, linkUrls] using hpair.append_left buf
        | link label url rest =>
          obtain ⟨hlabel, hlength⟩ := hread.link_length
          have hin := ih [] (s := label) (by omega)
          have hrest := ih [] (s := rest) (by omega)
          have hlink := link url hin hrest
          rw [show c :: cs = _ from hread]
          simpa [itemsPlainText, linkUrls] using hlink.append_left buf
        | styled style inner rest =>
          obtain ⟨hinner, hlength⟩ := hread.styled_length
          obtain ⟨mark, hmark, hs⟩ := hread
          have hin := ih [] (s := inner) (by omega)
          have hrest := ih [] (s := rest) (by omega)
          have hpair := (pair hmark hin hrest).append_left buf
          obtain ⟨htext, hurls⟩ := applyStyle_keeps style (parseFrom fuel [] inner)
          rw [hs]
          simpa [htext, hurls] using hpair

/-- `parseInline` terminates, the bound on its recursion being never reached, and the
texts it returns are what deleting paired markers and the addresses of the links it
returns leaves of the input, in order and without repetition. -/
theorem parseInline_loses_no_words (s : Line) :
    (∀ fuel, s.length < fuel → parseFrom fuel [] s = parseInline s) ∧
      Unmarked s (itemsPlainText (parseInline s)) (linkUrls (parseInline s)) ∧
      (itemsPlainText (parseInline s)).Sublist s := by
  have hunmarked : Unmarked s (itemsPlainText (parseInline s)) (linkUrls (parseInline s)) :=
    unmarked_parseFrom [] (Nat.lt_succ_self s.length)
  refine ⟨?_, hunmarked, hunmarked.sublist⟩
  intro fuel hfuel
  exact parseFrom_eq_of_length_lt [] hfuel (Nat.lt_succ_self s.length)

end Yanta.Blocknote
