import Yanta.Blocknote.Markdown
import Yanta.Document.Validation

/-!
# What the inline parser produces

The items are texts, whose styles are all set, and links, which have none. Items survive
their JSON.
-/

namespace Yanta.Blocknote

open Go Document List BlockNoteContent

/-! ## Items survive their JSON -/

section

variable (rest : Object) (type text : String) (styles : Option Object) (href : String)
  (content : List Inline)

theorem decode_text_member :
    decodeContentMembers (omitEmpty "text" text ++ rest) (.mk type "" styles href content) =
      decodeContentMembers rest (.mk type text styles href content) := by
  unfold omitEmpty
  split
  case isTrue h => rw [h, nil_append]
  case isFalse h => rfl

theorem decode_href_member :
    decodeContentMembers (omitEmpty "href" href ++ rest) (.mk type text styles "" content) =
      decodeContentMembers rest (.mk type text styles href content) := by
  unfold omitEmpty
  split
  case isTrue h => rw [h, nil_append]
  case isFalse h => rfl

theorem decode_styles_member :
    decodeContentMembers (("styles", (styles.map Json.obj).getD .null) :: rest)
        (.mk type text none href content) =
      decodeContentMembers rest (.mk type text styles href content) := by
  cases styles with
  | none => rfl
  | some o => rfl

theorem decode_content_member {items : List Json}
    (h : decodeContentItems items = some content) :
    decodeContentMembers (contentMember items) (.mk type text styles href []) =
      some (.mk type text styles href content) := by
  cases items with
  | nil =>
    cases h
    rfl
  | cons item items =>
    rw [contentMember, decodeContentMembers.eq_def]
    simp only [h]
    rfl

end

mutual

theorem decodeContent_encodeItem (item : Inline) :
    decodeContent (encodeItem item) = some item := by
  obtain ⟨type, text, styles, href, content⟩ := item
  have hcontent := decodeContentItems_encodeItems content
  change decodeContentMembers
    (omitEmpty "text" text ++ [("styles", (styles.map Json.obj).getD .null)] ++
      omitEmpty "href" href ++ _) (.mk type "" none "" []) = _
  rw [append_assoc, append_assoc, decode_text_member, singleton_append,
    decode_styles_member, decode_href_member]
  exact decode_content_member type text styles href content hcontent

theorem decodeContentItems_encodeItems (items : List Inline) :
    decodeContentItems (encodeItems items) = some items := by
  cases items with
  | nil => rfl
  | cons item items =>
    have hitem := decodeContent_encodeItem item
    have hitems := decodeContentItems_encodeItems items
    simp only [encodeItems, decodeContentItems, hitem, hitems, Option.map_some]

end

@[simp] theorem decodeItems_marshalInline (items : List Inline) :
    decodeItems (some (marshalInline items)) = some items :=
  decodeContentItems_encodeItems items

/-! ## Texts and links -/

mutual

/-- An item as the parser builds it. -/
def Parsed : Inline → Prop
  | .mk type text styles href content =>
    (type = "text" ∧ href = "" ∧ content = [] ∧
        ∃ o : Object, styles = some o ∧ ∀ member ∈ o, member.2 = .bool true) ∨
      type = "link" ∧ text = "" ∧ styles = none ∧ ParsedAll content

def ParsedAll : List Inline → Prop
  | [] => True
  | item :: items => Parsed item ∧ ParsedAll items

end

theorem parsedAll_iff (items : List Inline) :
    ParsedAll items ↔ ∀ item ∈ items, Parsed item := by
  induction items with
  | nil => simp [ParsedAll]
  | cons item items ih => simp [ParsedAll, ih]

def isLink (item : Inline) : Bool := item.type == "link"

theorem parsed_textInline (text : Line) {styles : Object}
    (h : ∀ member ∈ styles, member.2 = .bool true) : Parsed (textInline text styles) :=
  .inl ⟨rfl, rfl, rfl, styles, rfl, h⟩

theorem parsedAll_flush (buf : Line) : ParsedAll (flush buf) := by
  unfold flush
  split
  · trivial
  · exact ⟨parsed_textInline buf (by simp), trivial⟩

theorem parsedAll_append {items items' : List Inline} (h : ParsedAll items)
    (h' : ParsedAll items') : ParsedAll (items ++ items') := by
  rw [parsedAll_iff] at *
  intro item hitem
  rcases mem_append.mp hitem with hin | hin
  · exact h item hin
  · exact h' item hin

theorem setKey_all_true {o : Object} (h : ∀ member ∈ o, member.2 = .bool true)
    (style : String) : ∀ member ∈ setKey o style (.bool true), member.2 = .bool true := by
  intro member hmember
  rcases mem_append.mp hmember with hin | hin
  · exact h member (mem_of_mem_filter hin)
  · rw [mem_singleton.mp hin]

mutual

theorem parsed_applyStyleItem (style : String) (item : Inline) (h : Parsed item) :
    Parsed (applyStyleItem style item) := by
  obtain ⟨type, text, styles, href, content⟩ := item
  rcases h with ⟨rfl, rfl, rfl, o, rfl, ho⟩ | ⟨rfl, rfl, rfl, hcontent⟩
  · exact .inl ⟨rfl, rfl, rfl, _, rfl, setKey_all_true ho style⟩
  · exact .inr ⟨rfl, rfl, rfl, parsedAll_applyStyle style content hcontent⟩

theorem parsedAll_applyStyle (style : String) (items : List Inline) (h : ParsedAll items) :
    ParsedAll (applyStyle style items) := by
  cases items with
  | nil => trivial
  | cons item items =>
    exact ⟨parsed_applyStyleItem style item h.1, parsedAll_applyStyle style items h.2⟩

end

theorem parsedAll_parseFrom (fuel : Nat) (buf s : Line) :
    ParsedAll (parseFrom fuel buf s) := by
  induction fuel generalizing buf s with
  | zero => trivial
  | succ fuel ih =>
    cases s with
    | nil => exact parsedAll_flush buf
    | cons c cs =>
      rw [parseFrom]
      split
      · exact ih _ _
      · refine parsedAll_append (parsedAll_flush buf) ⟨?_, ih _ _⟩
        exact parsed_textInline _ (by simp)
      · refine parsedAll_append (parsedAll_flush buf) ⟨?_, ih _ _⟩
        exact .inr ⟨rfl, rfl, rfl, ih _ _⟩
      · refine parsedAll_append (parsedAll_append (parsedAll_flush buf) ?_) (ih _ _)
        exact parsedAll_applyStyle _ _ (ih _ _)

theorem parsedAll_parseInline (s : Line) : ParsedAll (parseInline s) :=
  parsedAll_parseFrom _ _ _

/-! ## Where links come from -/

/-- The parser comes to a link. -/
def findsLinkFrom : Nat → Line → Bool
  | 0, _ => false
  | _ + 1, [] => false
  | fuel + 1, c :: cs =>
    match nextSpan (c :: cs) with
    | none => findsLinkFrom fuel cs
    | some (.code _ rest) => findsLinkFrom fuel rest
    | some (.link _ _ _) => true
    | some (.styled _ inner rest) => findsLinkFrom fuel inner || findsLinkFrom fuel rest

def findsLink (s : Line) : Bool := findsLinkFrom (s.length + 1) s

theorem any_isLink_flush (buf : Line) : (flush buf).any isLink = false := by
  unfold flush
  split
  · rfl
  · simp [isLink, textInline, type]

theorem any_isLink_applyStyle (style : String) (items : List Inline) :
    (applyStyle style items).any isLink = items.any isLink := by
  induction items with
  | nil => rfl
  | cons item items ih =>
    obtain ⟨type, text, styles, href, content⟩ := item
    simp only [applyStyle, any_cons]
    congr 1
    unfold applyStyleItem
    split
    · rfl
    · split
      · rfl
      · rfl

theorem any_isLink_parseFrom (fuel : Nat) (buf s : Line) :
    (parseFrom fuel buf s).any isLink = findsLinkFrom fuel s := by
  induction fuel generalizing buf s with
  | zero => rfl
  | succ fuel ih =>
    cases s with
    | nil => exact any_isLink_flush buf
    | cons c cs =>
      rw [parseFrom, findsLinkFrom]
      cases nextSpan (c :: cs) with
      | none => exact ih _ _
      | some span =>
        cases span with
        | code text rest =>
          simp [any_isLink_flush, ih, isLink, textInline, type]
        | link label url rest =>
          simp [isLink, linkInline, type]
        | styled style inner rest =>
          simp [any_isLink_flush, any_isLink_applyStyle, ih]

/-! ## Null styles -/

def isNull : Json → Bool
  | .null => true
  | _ => false

mutual

/-- Somewhere in the value an object has `null` for its styles. -/
def nullStyles : Json → Bool
  | .arr items => nullStylesAny items
  | .obj members => nullStylesMembers members
  | _ => false

def nullStylesAny : List Json → Bool
  | [] => false
  | item :: items => nullStyles item || nullStylesAny items

def nullStylesMembers : List (String × Json) → Bool
  | [] => false
  | (key, value) :: members =>
    (key == "styles" && isNull value) || nullStyles value || nullStylesMembers members

end

theorem nullStylesMembers_append (members members' : Object) :
    nullStylesMembers (members ++ members') =
      (nullStylesMembers members || nullStylesMembers members') := by
  induction members with
  | nil => rfl
  | cons member members ih =>
    simp [nullStylesMembers, ih, Bool.or_assoc]

theorem nullStylesMembers_omitEmpty (key value : String) :
    nullStylesMembers (omitEmpty key value) = false := by
  unfold omitEmpty
  split
  · rfl
  · simp [nullStylesMembers, nullStyles, isNull]

theorem nullStylesMembers_of_all_true {o : Object} (h : ∀ member ∈ o, member.2 = .bool true) :
    nullStylesMembers o = false := by
  induction o with
  | nil => rfl
  | cons member o ih =>
    obtain ⟨key, value⟩ := member
    obtain rfl : value = .bool true := h _ mem_cons_self
    have hrest := ih (forall_mem_cons.mp h).2
    simp [nullStylesMembers, nullStyles, isNull, hrest]

/-- A link serialises with null styles and a text does not. -/
theorem nullStyles_encodeItem {item : Inline} (h : Parsed item) :
    nullStyles (encodeItem item) = isLink item := by
  obtain ⟨type, text, styles, href, content⟩ := item
  simp only [encodeItem, nullStyles, nullStylesMembers_append, nullStylesMembers_omitEmpty]
  rcases h with ⟨rfl, rfl, rfl, o, rfl, ho⟩ | ⟨rfl, rfl, rfl, -⟩
  · simp [nullStylesMembers, nullStyles, nullStylesMembers_of_all_true ho, isNull, isLink,
      encodeItems, contentMember, type]
  · simp [nullStylesMembers, isNull, isLink, type]

theorem nullStyles_marshalInline {items : List Inline} (h : ParsedAll items) :
    nullStyles (marshalInline items) = items.any isLink := by
  change nullStylesAny (encodeItems items) = _
  induction items with
  | nil => rfl
  | cons item items ih =>
    simp [encodeItems, nullStylesAny, nullStyles_encodeItem h.1, ih h.2]

theorem nullStyles_parseInline (s : Line) :
    nullStyles (marshalInline (parseInline s)) = findsLink s := by
  rw [nullStyles_marshalInline (parsedAll_parseInline s)]
  exact any_isLink_parseFrom _ _ _

/-- Texts with styles are accepted. -/
theorem validateContentSlice_of_not_isLink {items : List Inline} (h : ParsedAll items)
    (hlink : items.any isLink = false) (i : Nat) :
    validateContentSlice i items = .ok () := by
  induction items generalizing i with
  | nil => rfl
  | cons item items ih =>
    rw [any_cons, Bool.or_eq_false_iff] at hlink
    obtain ⟨type, text, styles, href, content⟩ := item
    have hitem : validateItem i (.mk type text styles href content) = .ok () := by
      rcases h.1 with ⟨rfl, -, -, o, rfl, -⟩ | ⟨rfl, -⟩
      · simp [validateItem]
      · simp [isLink, type] at hlink
    rw [validateContentSlice, hitem]
    exact ih h.2 hlink.2 (i + 1)

end Yanta.Blocknote
