import Markdown.FromHtml.Document
import Markdown.Proofs.InlineDigits

/-!
# The elements that are shown to a hook

A hook is asked about an element before its own conversion begins. Which elements it gets to see
depends on the converters on the way: some go on with the children of their element and offer each
of them, some take its text as a whole, and those of lists, tables, definition lists and footnotes
pick out entries, which they do not offer, and go on with the content of these.
`FromHtml.blocksOffered` follows these ways and tells the offered elements with their children;
`FromHtml.shown_blockNodes` says that a hook that answers nothing is asked about just these, in
this order.

`FromHtml.blocksOffered_eq_elementsIn_iff` says when they are all elements of the document. Some
converters go over a part twice, as over rows inside cells, so it is not enough to count. Instead
every element has a share that exceeds the shares of everything inside it. Then an entry that is
left out weighs more than all that can be offered twice inside it, and what a converter of entries
offers stays below the load of the children (`shares_listOffered_le`, `shares_tableOffered_le`).
-/

namespace Markdown

open Html (Node Tag)

/-! ### Visits among notes -/

namespace Report

variable {α β : Type}

/-- The names of all elements shown to the hook, also behind a fault. -/
def shown (x : Report α) : List Text :=
  x.notes.filterMap fun
    | .visited t => some t
    | _ => none

@[simp] theorem shown_pure (a : α) : (pure a : Report α).shown = [] := rfl

@[simp] theorem shown_bind (x : Report α) (f : α → Report β) :
    (x >>= f).shown = x.shown ++ (f x.value).shown :=
  List.filterMap_append

@[simp] theorem shown_map (f : α → β) (x : Report α) : (f <$> x).shown = x.shown := by
  simp [shown]

@[simp] theorem shown_mapM (f : α → Report β) (l : List α) :
    (l.mapM f).shown = l.flatMap fun a => (f a).shown := by
  induction l with
  | nil => rfl
  | cons a l ih => simp [ih]

@[simp] theorem shown_fail (f : Fault) : (fail f).shown = [] := rfl

@[simp] theorem shown_log (e : LogEntry) : (log e).shown = [] := rfl

theorem shown_foldlM {f : β → α → Report β} (h : ∀ b a, (f b a).shown = []) (l : List α) (b : β) :
    (l.foldlM f b).shown = [] := by
  induction l generalizing b with
  | nil => rfl
  | cons a l ih => simp [h, ih]

/-- What a caller sees ends at the first fault. -/
theorem visits_prefix_shown (x : Report α) : x.visits <+: x.shown :=
  (List.takeWhile_prefix _).filterMap _

/-- Without a fault a caller sees all visits. -/
theorem IsClean.visits_eq {x : Report α} (h : x.IsClean) : x.visits = x.shown := by
  rw [visits, h.untilFault_notes]
  rfl

end Report

open Report (shown)

/-- Reading HTML shows no element to anyone. -/
theorem Html.shown_parse (t : Text) : (Html.parse t).shown = [] := by
  have hvalue : ∀ p, (referenceValue p).shown = [] := by
    intro p
    unfold referenceValue
    split
    · rfl
    · rfl
    · rfl
    · split <;> rfl
  have hread : ∀ g token, (Growth.read g token).shown = [] := by
    intro g token
    unfold Growth.read
    split
    · rfl
    · rfl
    · split <;> rfl
    · rfl
    · simp [StartTag.resolve, unescape, hvalue]
    · rfl
    · rfl
    · rfl
    · rfl
  simp [parse, Report.shown_foldlM hread]

/-! ### All elements -/

namespace Html.Node

/-- An element with its children. -/
abbrev Element := Tag × List Node

/-- The elements in some nodes, in document order. -/
def elementsIn (nodes : List Node) : List Element :=
  selectAmong (fun _ => true) (fun _ => false) nodes

@[simp] theorem elementsIn_nil : elementsIn [] = [] := rfl

@[simp] theorem elementsIn_text (kind : TextKind) (content : Text) (r : List Node) :
    elementsIn (.text kind content :: r) = elementsIn r := rfl

@[simp] theorem elementsIn_element (tag : Tag) (children r : List Node) :
    elementsIn (.element tag children :: r) =
      (tag, children) :: elementsIn children ++ elementsIn r :=
  rfl

theorem elementsIn_cons (n : Node) (r : List Node) :
    elementsIn (n :: r) = elementsIn [n] ++ elementsIn r := by
  cases n <;> simp

/-! ### Loads

The load of nodes is a bound for what a converter can offer from them, if it does not offer all of
their elements: an element counts more than everything inside it, so that leaving out an entry
outweighs going over its content a second time. -/

mutual

/-- The load of a node. -/
def load : Node → Nat
  | .text _ _ => 0
  | .element _ children => 2 * loads children + 1

/-- The load of some nodes. -/
def loads : List Node → Nat
  | [] => 0
  | n :: r => load n + loads r

end

/-- The share of one element. -/
def share (e : Element) : Nat :=
  loads e.2 + 1

theorem share_mk (tag : Tag) (children : List Node) : share (tag, children) = loads children + 1 :=
  rfl

/-- The shares of some elements together. -/
def shares : List Element → Nat
  | [] => 0
  | e :: es => share e + shares es

@[simp] theorem shares_nil : shares [] = 0 := rfl

@[simp] theorem shares_cons (e : Element) (es : List Element) :
    shares (e :: es) = share e + shares es := rfl

@[simp] theorem shares_append (es fs : List Element) :
    shares (es ++ fs) = shares es + shares fs := by
  induction es with
  | nil => simp
  | cons e es ih => simp [ih, Nat.add_assoc]

theorem shares_eq_zero_iff {es : List Element} : shares es = 0 ↔ es = [] := by
  cases es with
  | nil => simp
  | cons e es => simp [share]

mutual

theorem shares_select_all : (n : Node) → shares (select (fun _ => true) (fun _ => false) n) = load n
  | .text _ _ => rfl
  | .element tag children => by
    have h := shares_elementsIn children
    simp only [elementsIn] at h
    simp [select, load, share, h]
    omega

/-- The shares of all elements make up the load. -/
theorem shares_elementsIn : (ns : List Node) → shares (elementsIn ns) = loads ns
  | [] => rfl
  | n :: r => by
    rw [elementsIn, selectAmong, shares_append, shares_select_all n, loads]
    exact congrArg (load n + ·) (shares_elementsIn r)

end

theorem loads_eq_zero_iff {ns : List Node} : loads ns = 0 ↔ elementsIn ns = [] := by
  rw [← shares_elementsIn, shares_eq_zero_iff]

theorem loads_filter_le (p : Node → Bool) (ns : List Node) : loads (ns.filter p) ≤ loads ns := by
  induction ns with
  | nil => rfl
  | cons n r ih =>
    rw [List.filter_cons]
    split <;> simp only [loads] <;> omega

/-- Selected elements that offer no more than their children bear offer less than all together. -/
theorem shares_elements_le {f : Element → List Element} (h : ∀ e, shares (f e) ≤ loads e.2)
    (p : Tag → Bool) (ns : List Node) :
    shares ((elements p ns).flatMap f) ≤ loads ns - 1 := by
  induction ns with
  | nil => rfl
  | cons n r ih =>
    cases n with
    | text kind content => simpa [elements, loads, load] using ih
    | element tag children =>
      have htag := h (tag, children)
      have hr : shares ((elements p (.element tag children :: r)).flatMap f) ≤
          shares (f (tag, children)) + shares ((elements p r).flatMap f) := by
        by_cases hp : p tag = true
        · simp [elements, hp]
        · simp [elements, hp]
      simp only [loads, load] at htag ⊢
      omega

mutual

theorem shares_select_le {f : Element → List Element} (h : ∀ e, shares (f e) ≤ loads e.2)
    (p stop : Tag → Bool) : (n : Node) → shares ((select p stop n).flatMap f) ≤ load n - 1
  | .text _ _ => Nat.le_refl 0
  | .element tag children => by
    have htag := h (tag, children)
    have hinner := shares_selectAmong_le h p stop children
    simp only [select, load] at htag ⊢
    split
    · simp
    · split
      · simp only [List.flatMap_cons, shares_append]
        omega
      · omega

/-- The same for elements that are selected at any depth. -/
theorem shares_selectAmong_le {f : Element → List Element} (h : ∀ e, shares (f e) ≤ loads e.2)
    (p stop : Tag → Bool) :
    (ns : List Node) → shares ((selectAmong p stop ns).flatMap f) ≤ loads ns - 1
  | [] => Nat.le_refl 0
  | n :: r => by
    have hn := shares_select_le h p stop n
    have hr := shares_selectAmong_le h p stop r
    simp only [selectAmong, List.flatMap_append, shares_append, loads]
    omega

end

mutual

theorem loads_find?_lt {p : Tag → Bool} {e : Element} :
    (n : Node) → find? p n = some e → loads e.2 < load n
  | .text _ _, h => by cases h
  | .element tag children, h => by
    rw [find?] at h
    rw [load]
    split at h
    · obtain rfl := Option.some.inj h
      simp only
      omega
    · have hlt := loads_findAmong?_lt children h
      omega

/-- An element that is found bears less than the nodes in which it is found. -/
theorem loads_findAmong?_lt {p : Tag → Bool} {e : Element} :
    (ns : List Node) → findAmong? p ns = some e → loads e.2 < loads ns
  | [], h => by cases h
  | n :: r, h => by
    rw [findAmong?, Option.or_eq_some_iff] at h
    rw [loads]
    rcases h with h | ⟨-, h⟩
    · have hlt := loads_find?_lt n h
      omega
    · have hlt := loads_findAmong?_lt r h
      omega

end

end Html.Node

namespace FromHtml

open Html.Node

variable {hook : Hook}

/-! ### Inline content -/

/-- Whether the conversion goes on inside an element of inline content. -/
def InlineRole.opens : InlineRole → Bool
  | .link | .wrapped _ | .transparent => true
  | _ => false

mutual

/-- The elements of a node of inline content that a hook is asked about, in order. -/
def inlineOffered : Node → List Element
  | .text _ _ => []
  | .element tag children =>
    (tag, children) :: if (inlineRole tag).opens then inlinesOffered children else []

/-- The elements of inline content that a hook is asked about, in order. -/
def inlinesOffered : List Node → List Element
  | [] => []
  | n :: r => inlineOffered n ++ inlinesOffered r

end

/-- Whether there is no element among some nodes. -/
def elementless (nodes : List Node) : Bool :=
  (elementsIn nodes).isEmpty

mutual

/-- Whether the conversion of a node of inline content goes on inside every element that holds
others. -/
def inlineOpen : Node → Bool
  | .text _ _ => true
  | .element tag children =>
    if (inlineRole tag).opens then inlinesOpen children else elementless children

/-- Whether the conversion of inline content goes on inside every element that holds others. -/
def inlinesOpen : List Node → Bool
  | [] => true
  | n :: r => inlineOpen n && inlinesOpen r

end

theorem shown_orElse (hnone : ∀ tag children, hook tag children = none) (tag : Tag)
    (children : List Node) (own : Report Text) :
    (orElse (some hook) tag children own).shown = tag.name :: own.shown := by
  simp [orElse, consult, hnone, shown, Report.note]

/-- The names of some elements. -/
def names (es : List Element) : List Text :=
  es.map (·.1.name)

@[simp] theorem names_nil : names [] = [] := rfl

@[simp] theorem names_cons (e : Element) (es : List Element) :
    names (e :: es) = e.1.name :: names es := rfl

@[simp] theorem names_append (es fs : List Element) : names (es ++ fs) = names es ++ names fs :=
  List.map_append

theorem names_flatMap {α : Type} (f : α → List Element) (l : List α) :
    names (l.flatMap f) = l.flatMap fun a => names (f a) :=
  List.map_flatMap

mutual

theorem shown_inlineNode (hnone : ∀ tag children, hook tag children = none) :
    (n : Node) → (inlineNode (some hook) n).shown = names (inlineOffered n)
  | .text _ _ => by rw [inlineNode]; rfl
  | .element tag children => by
    have hchildren := shown_inlineNodes hnone children
    rw [inlineNode, shown_orElse hnone, inlineOffered]
    cases inlineRole tag <;> simp [InlineRole.opens, hchildren]

/-- The hook is asked about the elements that are offered. -/
theorem shown_inlineNodes (hnone : ∀ tag children, hook tag children = none) :
    (ns : List Node) → (inlineNodes (some hook) ns).shown = names (inlinesOffered ns)
  | [] => by rw [inlineNodes]; rfl
  | n :: r => by
    simp [inlineNodes, inlinesOffered, shown_inlineNode hnone n, shown_inlineNodes hnone r]

end

/-- An element with what is offered inside it, if that is all only if `o` holds. -/
theorem shares_element_le {es : List Element} {children : List Node} {o : Bool} (tag : Tag)
    (h : shares es ≤ loads children ∧ (shares es = loads children → o = true)) :
    shares ((tag, children) :: es) ≤ load (.element tag children) ∧
      (shares ((tag, children) :: es) = load (.element tag children) → o = true) := by
  rw [load, shares_cons, share_mk]
  exact ⟨by omega, fun heq => h.2 (by omega)⟩

/-- What offers less than there is offers all only if there is nothing. -/
theorem elementless_of_shares {es : List Element} {children : List Node}
    (h : shares es ≤ loads children - 1) :
    shares es ≤ loads children ∧ (shares es = loads children → elementless children = true) := by
  refine ⟨by omega, fun heq => ?_⟩
  rw [elementless, List.isEmpty_iff, ← loads_eq_zero_iff]
  omega

mutual

theorem shares_inlineOffered_le : (n : Node) →
    shares (inlineOffered n) ≤ load n ∧ (shares (inlineOffered n) = load n → inlineOpen n = true)
  | .text _ _ => ⟨Nat.le_refl 0, fun _ => rfl⟩
  | .element tag children => by
    have hchildren := shares_inlinesOffered_le children
    rw [inlineOffered, inlineOpen]
    refine shares_element_le tag ?_
    split
    · exact hchildren
    · exact elementless_of_shares (Nat.zero_le _)

/-- No more is offered than there is, and all of it only if the conversion goes on everywhere. -/
theorem shares_inlinesOffered_le : (ns : List Node) →
    shares (inlinesOffered ns) ≤ loads ns ∧
      (shares (inlinesOffered ns) = loads ns → inlinesOpen ns = true)
  | [] => ⟨Nat.le_refl 0, fun _ => rfl⟩
  | n :: r => by
    obtain ⟨hle, hopen⟩ := shares_inlineOffered_le n
    obtain ⟨hle', hopen'⟩ := shares_inlinesOffered_le r
    rw [inlinesOffered, inlinesOpen, loads, shares_append]
    -- Neither summand can make up for the other one, since both are bounded.
    refine ⟨by omega, fun heq => ?_⟩
    rw [hopen (by omega), hopen' (by omega)]
    rfl

end

/-! ### Lists -/

mutual

/-- The elements of an entry of a list that a hook is asked about, in order. -/
def entryOffered : Node → List Element
  | .text _ _ => []
  | .element tag children =>
    if tag.isNamed "li" then
      inlinesOffered (children.filter belongsToText) ++ nestedOffered children
    else []

/-- The elements of the entries among some nodes that a hook is asked about. -/
def listOffered : List Node → List Element
  | [] => []
  | n :: r => entryOffered n ++ listOffered r

/-- The elements of a list inside an entry that a hook is asked about; it is not one of them. -/
def innerOffered : Node → List Element
  | .text _ _ => []
  | .element tag children => if isList tag then listOffered children else []

/-- The elements of the lists among some nodes that a hook is asked about. -/
def nestedOffered : List Node → List Element
  | [] => []
  | n :: r => innerOffered n ++ nestedOffered r

end

theorem shown_firstNumber (tag : Tag) : (firstNumber tag).shown = [] := by
  unfold firstNumber startNumber
  split
  · dsimp only
    split
    · rfl
    · split <;> rfl
  · rfl

theorem shown_itemMark (ordered : Bool) (number : Nat) : (itemMark ordered number).shown = [] := by
  unfold itemMark
  split
  · dsimp only
    split <;> rfl
  · rfl

mutual

theorem shown_entryLines (hnone : ∀ tag children, hook tag children = none) (ordered : Bool)
    (number : Nat) :
    (n : Node) → (entryLines (some hook) ordered number n).shown = names (entryOffered n)
  | .text _ _ => by rw [entryLines]; rfl
  | .element tag children => by
    rw [entryLines, entryOffered]
    split
    · simp [shown_itemMark, itemLine, shown_inlineNodes hnone, shown_nestedLines hnone children]
    · rfl

theorem shown_listLines (hnone : ∀ tag children, hook tag children = none) (ordered : Bool)
    (number : Nat) :
    (ns : List Node) → (listLines (some hook) ordered number ns).shown = names (listOffered ns)
  | [] => by rw [listLines]; rfl
  | n :: r => by
    rw [listLines, listOffered]
    simp [shown_entryLines hnone ordered number n, shown_listLines hnone ordered _ r]

theorem shown_innerLines (hnone : ∀ tag children, hook tag children = none) :
    (n : Node) → (innerLines (some hook) n).shown = names (innerOffered n)
  | .text _ _ => by rw [innerLines]; rfl
  | .element tag children => by
    rw [innerLines, innerOffered]
    split
    · simp [shown_firstNumber, shown_listLines hnone _ _ children]
    · rfl

theorem shown_nestedLines (hnone : ∀ tag children, hook tag children = none) :
    (ns : List Node) → (nestedLines (some hook) ns).shown = names (nestedOffered ns)
  | [] => by rw [nestedLines]; rfl
  | n :: r => by
    rw [nestedLines, nestedOffered]
    simp [shown_innerLines hnone n, shown_nestedLines hnone r]

end

theorem shown_listing (hnone : ∀ tag children, hook tag children = none) (tag : Tag)
    (children : List Node) :
    (listing (some hook) tag children).shown = names (listOffered children) := by
  simp [listing, shown_firstNumber, shown_listLines hnone]

mutual

theorem shares_entryOffered_le : (n : Node) → shares (entryOffered n) ≤ load n - 1
  | .text _ _ => Nat.le_refl 0
  | .element tag children => by
    have htext := (shares_inlinesOffered_le (children.filter belongsToText)).1
    have hfilter := loads_filter_le belongsToText children
    have hnested := shares_nestedOffered_le children
    -- The entry is left out: its share pays for going over its children for the text and for lists.
    rw [entryOffered, load]
    split
    · rw [shares_append]
      omega
    · exact Nat.zero_le _

/-- A list offers less than there is: never one of its entries. -/
theorem shares_listOffered_le : (ns : List Node) → shares (listOffered ns) ≤ loads ns - 1
  | [] => Nat.le_refl 0
  | n :: r => by
    have hn := shares_entryOffered_le n
    have hr := shares_listOffered_le r
    rw [listOffered, loads, shares_append]
    omega

theorem shares_innerOffered_le : (n : Node) → shares (innerOffered n) ≤ load n - 1
  | .text _ _ => Nat.le_refl 0
  | .element tag children => by
    have hlist := shares_listOffered_le children
    rw [innerOffered, load]
    split
    · omega
    · exact Nat.zero_le _

theorem shares_nestedOffered_le : (ns : List Node) → shares (nestedOffered ns) ≤ loads ns - 1
  | [] => Nat.le_refl 0
  | n :: r => by
    have hn := shares_innerOffered_le n
    have hr := shares_nestedOffered_le r
    rw [nestedOffered, loads, shares_append]
    omega

end

/-! ### Tables, definition lists and footnotes -/

/-- The elements in the cells of a row that a hook is asked about. -/
def rowOffered (row : List Node) : List Element :=
  (Node.elements isCell row).flatMap fun cell => inlinesOffered cell.2

/-- The elements of a table that a hook is asked about: those in its header, then those in its other
rows. -/
def tableOffered (underHead : Bool) (children : List Node) : List Element :=
  ((headerRow? children).toList ++ if underHead then [] else bodyRows children).flatMap rowOffered

/-- The elements of a definition list that a hook is asked about. -/
def definitionsOffered (children : List Node) : List Element :=
  (Node.elements (·.isOneOf ["dt", "dd"]) children).flatMap fun e => inlinesOffered e.2

/-- The elements of a section of footnotes that a hook is asked about. -/
def footnotesOffered (children : List Node) : List Element :=
  (Node.selectAmong (fun t => t.isNamed "li" && t.hasClass "footnote-item") (fun _ => false)
    children).flatMap fun item => inlinesOffered item.2

theorem shown_rowCells (hnone : ∀ tag children, hook tag children = none) (row : List Node) :
    (rowCells (some hook) row).shown = names (rowOffered row) := by
  simp [rowCells, rowOffered, names_flatMap, shown_inlineNodes hnone]

theorem shown_alignmentOf (cell : Tag) : (alignmentOf cell).shown = [] := by
  unfold alignmentOf
  split
  · rfl
  · dsimp only
    split <;> rfl

theorem shown_headerCells (hnone : ∀ tag children, hook tag children = none) (children : List Node) :
    (headerCells (some hook) children).shown =
      names ((headerRow? children).toList.flatMap rowOffered) := by
  unfold headerCells
  cases headerRow? children with
  | none => rfl
  | some row => simp [shown_rowCells hnone, shown_alignmentOf]

theorem shown_table (hnone : ∀ tag children, hook tag children = none) (underHead : Bool)
    (children : List Node) :
    (table (some hook) underHead children).shown = names (tableOffered underHead children) := by
  unfold table
  rw [Report.shown_bind, shown_headerCells hnone, tableOffered, List.flatMap_append, names_append]
  refine congrArg (_ ++ ·) ?_
  dsimp only
  rw [Report.shown_bind, Report.shown_mapM, names_flatMap]
  simp only [shown_rowCells hnone]
  refine (congrArg (_ ++ ·) ?_).trans (List.append_nil _)
  cases (headerCells (some hook) children).value.1 ++ List.filter (!List.isEmpty ·)
      ((if underHead then [] else bodyRows children).mapM (rowCells (some hook))).value <;> rfl

theorem shown_definitions (hnone : ∀ tag children, hook tag children = none) (children : List Node) :
    (definitions (some hook) children).shown = names (definitionsOffered children) := by
  simp [definitions, definitionsOffered, names_flatMap, shown_inlineNodes hnone]

theorem shown_footnotes (hnone : ∀ tag children, hook tag children = none) (children : List Node) :
    (footnotes (some hook) children).shown = names (footnotesOffered children) := by
  simp [footnotes, footnotesOffered, names_flatMap, shown_inlineNodes hnone]

theorem shares_rowOffered_le (row : List Node) : shares (rowOffered row) ≤ loads row - 1 :=
  shares_elements_le (fun cell => (shares_inlinesOffered_le cell.2).1) isCell row

theorem shares_definitionsOffered_le (children : List Node) :
    shares (definitionsOffered children) ≤ loads children - 1 :=
  shares_elements_le (fun e => (shares_inlinesOffered_le e.2).1) _ children

theorem shares_footnotesOffered_le (children : List Node) :
    shares (footnotesOffered children) ≤ loads children - 1 :=
  shares_selectAmong_le (fun item => (shares_inlinesOffered_le item.2).1) _ _ children

@[simp] theorem headerRow?_text (kind : Html.TextKind) (content : Text) (r : List Node) :
    headerRow? (.text kind content :: r) = headerRow? r := rfl

theorem headerRow?_head {tag : Tag} (h : tag.isNamed "thead" = true) (inner r : List Node) :
    headerRow? (.element tag inner :: r) = (Node.findAmong? isRow inner).map (·.2) := by
  simp [headerRow?, Node.elements, h]

theorem headerRow?_other {tag : Tag} (h : tag.isNamed "thead" = false) (inner r : List Node) :
    headerRow? (.element tag inner :: r) = headerRow? r := by
  simp [headerRow?, Node.elements, h]

@[simp] theorem bodyRows_cons (n : Node) (r : List Node) :
    bodyRows (n :: r) =
      (Node.select isRow (·.isOneOf ["thead", "table"]) n).map (·.2) ++ bodyRows r :=
  List.map_append

theorem shares_bodyRow_le (n : Node) :
    shares (((Node.select isRow (·.isOneOf ["thead", "table"]) n).map (·.2)).flatMap rowOffered) ≤
      load n - 1 := by
  rw [List.flatMap_map]
  exact shares_select_le (fun row => (shares_rowOffered_le row.2).trans (Nat.sub_le _ _)) _ _ n

/-- A table offers less than there is: the header row stands in the first head, and the other rows
stand in none. -/
theorem shares_tableOffered_le (underHead : Bool) (children : List Node) :
    shares (tableOffered underHead children) ≤ loads children - 1 := by
  -- Body rows stop at every head, so what the first head gives for the header is not counted twice.
  have hboth : shares ((headerRow? children).toList.flatMap rowOffered) +
      shares ((bodyRows children).flatMap rowOffered) ≤ loads children - 1 := by
    induction children with
    | nil => exact Nat.zero_le _
    | cons n r ih =>
      have hn := shares_bodyRow_le n
      rw [bodyRows_cons, List.flatMap_append, shares_append, loads]
      cases n with
      | text kind content =>
        rw [headerRow?_text]
        rw [load] at hn ⊢
        omega
      | element tag inner =>
        by_cases hhead : tag.isNamed "thead" = true
        · have hnone :
              Node.select isRow (·.isOneOf ["thead", "table"]) (.element tag inner) = [] := by
            simp [Node.select, Tag.isOneOf, hhead]
          have hfound :
              shares (((Node.findAmong? isRow inner).map (·.2)).toList.flatMap rowOffered) ≤
                loads inner := by
            cases hrow : Node.findAmong? isRow inner with
            | none => exact Nat.zero_le _
            | some row =>
              have hlt := loads_findAmong?_lt inner hrow
              have hle := shares_rowOffered_le row.2
              simp only [Option.map_some, Option.toList_some, List.flatMap_singleton]
              omega
          rw [headerRow?_head hhead, hnone, load]
          simp only [List.map_nil, List.flatMap_nil, shares_nil, Nat.zero_add]
          omega
        · rw [headerRow?_other (by simpa using hhead)]
          rw [load] at hn ⊢
          omega
  rw [tableOffered, List.flatMap_append, shares_append]
  split
  · rw [List.flatMap_nil, shares_nil]
    omega
  · exact hboth

/-! ### Blocks -/

mutual

/-- The elements of a node between blocks that a hook is asked about, in order. -/
def blockOffered (s : Surroundings) : Node → List Element
  | .text _ _ => []
  | .element tag children =>
    (tag, children) ::
      match blockRole tag with
      | .paragraph | .inline | .link | .wrapped _ => inlinesOffered children
      | .quote | .transparent => blocksOffered (s.inside tag) children
      | .list => listOffered children
      | .table => tableOffered s.underHead children
      | .definitions => definitionsOffered children
      | .footnotes => footnotesOffered children
      | _ => []

/-- The elements of nodes between blocks that a hook is asked about, in order. -/
def blocksOffered (s : Surroundings) : List Node → List Element
  | [] => []
  | n :: r => blockOffered s n ++ blocksOffered s r

end

mutual

/-- Whether the conversion of a node between blocks goes on inside every element that holds others,
and offers what it finds there. -/
def blockOpen : Node → Bool
  | .text _ _ => true
  | .element tag children =>
    match blockRole tag with
    | .paragraph | .inline | .link | .wrapped _ => inlinesOpen children
    | .quote | .transparent => blocksOpen children
    | _ => elementless children

/-- Whether the conversion of nodes between blocks goes on inside every element that holds others,
and offers what it finds there. -/
def blocksOpen : List Node → Bool
  | [] => true
  | n :: r => blockOpen n && blocksOpen r

end

mutual

theorem shown_blockNode (hnone : ∀ tag children, hook tag children = none) (s : Surroundings) :
    (n : Node) → (blockNode (some hook) s n).shown = names (blockOffered s n)
  | .text _ _ => by rw [blockNode]; rfl
  | .element tag children => by
    have hinline := shown_inlineNodes hnone children
    have hblocks := shown_blockNodes hnone (s.inside tag) children
    rw [blockNode, shown_orElse hnone, blockOffered, names_cons]
    refine congrArg (tag.name :: ·) ?_
    cases blockRole tag with
    | paragraph | inline | link | wrapped => simp [hinline]
    | quote => simp [hblocks]
    | transparent =>
      dsimp only
      split <;> simp [hblocks]
    | list => exact shown_listing hnone tag children
    | table => exact shown_table hnone s.underHead children
    | definitions => exact shown_definitions hnone children
    | footnotes => exact shown_footnotes hnone children
    | _ => rfl

/-- The hook is asked about the elements that are offered. -/
theorem shown_blockNodes (hnone : ∀ tag children, hook tag children = none) (s : Surroundings) :
    (ns : List Node) → (blockNodes (some hook) s ns).shown = names (blocksOffered s ns)
  | [] => by rw [blockNodes]; rfl
  | n :: r => by
    simp [blockNodes, blocksOffered, shown_blockNode hnone s n, shown_blockNodes hnone s r]

end

mutual

theorem shares_blockOffered_le (s : Surroundings) : (n : Node) →
    shares (blockOffered s n) ≤ load n ∧ (shares (blockOffered s n) = load n → blockOpen n = true)
  | .text _ _ => ⟨Nat.le_refl 0, fun _ => rfl⟩
  | .element tag children => by
    have hinline := shares_inlinesOffered_le children
    have hblocks := shares_blocksOffered_le (s.inside tag) children
    rw [blockOffered, blockOpen]
    refine shares_element_le tag ?_
    cases blockRole tag with
    | paragraph | inline | link | wrapped => exact hinline
    | quote | transparent => exact hblocks
    | list => exact elementless_of_shares (shares_listOffered_le children)
    | table => exact elementless_of_shares (shares_tableOffered_le s.underHead children)
    | definitions => exact elementless_of_shares (shares_definitionsOffered_le children)
    | footnotes => exact elementless_of_shares (shares_footnotesOffered_le children)
    | _ => exact elementless_of_shares (Nat.zero_le _)

/-- No more is offered than there is, and all of it only if the conversion goes on everywhere. -/
theorem shares_blocksOffered_le (s : Surroundings) : (ns : List Node) →
    shares (blocksOffered s ns) ≤ loads ns ∧
      (shares (blocksOffered s ns) = loads ns → blocksOpen ns = true)
  | [] => ⟨Nat.le_refl 0, fun _ => rfl⟩
  | n :: r => by
    obtain ⟨hle, hopen⟩ := shares_blockOffered_le s n
    obtain ⟨hle', hopen'⟩ := shares_blocksOffered_le s r
    rw [blocksOffered, blocksOpen, loads, shares_append]
    refine ⟨by omega, fun heq => ?_⟩
    rw [hopen (by omega), hopen' (by omega)]
    rfl

end

/-! ### Everything is offered -/

/-- What offers less than there is offers all if there is nothing. -/
theorem offered_of_elementless {es : List Element} {children : List Node}
    (h : shares es ≤ loads children - 1) (helementless : elementless children = true) :
    es = elementsIn children := by
  have hnone : elementsIn children = [] := List.isEmpty_iff.mp helementless
  have hzero : loads children = 0 := loads_eq_zero_iff.mpr hnone
  rw [hnone, ← shares_eq_zero_iff]
  omega

mutual

theorem inlineOffered_of_open : (n : Node) → inlineOpen n = true → inlineOffered n = elementsIn [n]
  | .text _ _, _ => rfl
  | .element tag children, h => by
    rw [inlineOpen] at h
    rw [inlineOffered, elementsIn_element, elementsIn_nil, List.append_nil]
    refine congrArg ((tag, children) :: ·) ?_
    split at h
    · next hopens => rw [if_pos hopens, inlinesOffered_of_open children h]
    · next hopens =>
      rw [if_neg hopens]
      exact offered_of_elementless (Nat.zero_le _) h

theorem inlinesOffered_of_open :
    (ns : List Node) → inlinesOpen ns = true → inlinesOffered ns = elementsIn ns
  | [], _ => rfl
  | n :: r, h => by
    obtain ⟨hn, hr⟩ := Bool.and_eq_true_iff.mp h
    rw [inlinesOffered, elementsIn_cons, inlineOffered_of_open n hn, inlinesOffered_of_open r hr]

end

mutual

theorem blockOffered_of_open (s : Surroundings) :
    (n : Node) → blockOpen n = true → blockOffered s n = elementsIn [n]
  | .text _ _, _ => rfl
  | .element tag children, h => by
    rw [blockOpen] at h
    rw [blockOffered, elementsIn_element, elementsIn_nil, List.append_nil]
    refine congrArg ((tag, children) :: ·) ?_
    revert h
    cases blockRole tag with
    | paragraph | inline | link | wrapped => exact inlinesOffered_of_open children
    | quote | transparent => exact blocksOffered_of_open (s.inside tag) children
    | list => exact offered_of_elementless (shares_listOffered_le children)
    | table => exact offered_of_elementless (shares_tableOffered_le s.underHead children)
    | definitions => exact offered_of_elementless (shares_definitionsOffered_le children)
    | footnotes => exact offered_of_elementless (shares_footnotesOffered_le children)
    | _ => exact offered_of_elementless (Nat.zero_le _)

theorem blocksOffered_of_open (s : Surroundings) :
    (ns : List Node) → blocksOpen ns = true → blocksOffered s ns = elementsIn ns
  | [], _ => rfl
  | n :: r, h => by
    obtain ⟨hn, hr⟩ := Bool.and_eq_true_iff.mp h
    rw [blocksOffered, elementsIn_cons, blockOffered_of_open s n hn, blocksOffered_of_open s r hr]

end

/-- All elements are offered exactly if the conversion goes on everywhere. -/
theorem blocksOffered_eq_elementsIn_iff (s : Surroundings) (ns : List Node) :
    blocksOffered s ns = elementsIn ns ↔ blocksOpen ns = true := by
  refine ⟨fun h => ?_, blocksOffered_of_open s ns⟩
  refine (shares_blocksOffered_le s ns).2 ?_
  rw [h, shares_elementsIn]

/-! ### Answers -/

theorem isClean_consult (hook : Option Hook) (tag : Tag) (children : List Node) :
    (consult hook tag children).IsClean := by
  cases hook with
  | none => exact Report.isClean_pure none
  | some hook =>
    intro f
    simp [consult, Report.note]

theorem isClean_orElse {hook : Option Hook} (tag : Tag) (children : List Node) {own : Report Text}
    (h : own.IsClean) : (orElse hook tag children own).IsClean := by
  refine (isClean_consult hook tag children).bind fun answer => ?_
  cases answer with
  | none => exact h
  | some answer => exact Report.isClean_pure answer

mutual

theorem isClean_inlineNode (hook : Option Hook) : (n : Node) → (inlineNode hook n).IsClean
  | .text _ _ => by rw [inlineNode]; exact Report.isClean_pure _
  | .element tag children => by
    have hchildren := isClean_inlineNodes hook children
    rw [inlineNode]
    refine isClean_orElse tag children ?_
    cases inlineRole tag with
    | link | wrapped => exact Report.isClean_map_iff.mpr hchildren
    | transparent => exact hchildren
    | _ => exact Report.isClean_pure _

/-- Inline content has no faults. -/
theorem isClean_inlineNodes (hook : Option Hook) :
    (ns : List Node) → (inlineNodes hook ns).IsClean
  | [] => by rw [inlineNodes]; exact Report.isClean_pure _
  | n :: r => by
    rw [inlineNodes]
    exact (isClean_inlineNode hook n).bind fun _ =>
      (isClean_inlineNodes hook r).bind fun _ => Report.isClean_pure _

end

theorem isClean_definitions (hook : Option Hook) (children : List Node) :
    (definitions hook children).IsClean := by
  refine Report.IsClean.bind (Report.isClean_mapM fun e _ => ?_) fun _ => Report.isClean_pure _
  exact (isClean_inlineNodes hook e.2).bind fun _ => Report.isClean_pure _

theorem isClean_footnotes (hook : Option Hook) (children : List Node) :
    (footnotes hook children).IsClean := by
  refine Report.IsClean.bind (Report.isClean_mapM fun item _ => ?_) fun _ => Report.isClean_pure _
  exact (isClean_inlineNodes hook item.2).bind fun _ => Report.isClean_pure _

theorem isClean_listLines_of_elementless (ordered : Bool) (number : Nat) (ns : List Node)
    (h : elementsIn ns = []) : (listLines (some hook) ordered number ns).IsClean := by
  induction ns generalizing number with
  | nil =>
    rw [listLines]
    exact Report.isClean_pure _
  | cons n r ih =>
    cases n with
    | text kind content =>
      rw [listLines, entryLines]
      exact (Report.isClean_pure _).bind fun _ => (ih _ h).bind fun _ => Report.isClean_pure _
    | element tag children => cases h

theorem table_of_elementless (underHead : Bool) (ns : List Node) (h : elementsIn ns = []) :
    table (some hook) underHead ns = pure [] := by
  have hrows : headerRow? ns = none ∧ bodyRows ns = [] := by
    induction ns with
    | nil => exact ⟨rfl, rfl⟩
    | cons n r ih =>
      cases n with
      | text kind content => exact ih h
      | element tag children => cases h
  have hbody : (if underHead then [] else bodyRows ns) = [] := by
    rw [hrows.2, ite_self]
  rw [table, headerCells, hrows.1, hbody]
  rfl

mutual

theorem isClean_blockNode (s : Surroundings) : (n : Node) → blockOpen n = true →
    (∀ e ∈ elementsIn [n], (firstNumber e.1).IsClean) → (blockNode (some hook) s n).IsClean
  | .text _ _, _, _ => by rw [blockNode]; exact Report.isClean_pure _
  | .element tag children, h, hstart => by
    rw [elementsIn_element, elementsIn_nil, List.append_nil, List.forall_mem_cons] at hstart
    rw [blockOpen] at h
    rw [blockNode]
    refine isClean_orElse tag children ?_
    revert h
    cases blockRole tag with
    | paragraph | link | wrapped =>
      exact fun _ => Report.isClean_map_iff.mpr (isClean_inlineNodes (some hook) children)
    | inline => exact fun _ => isClean_inlineNodes (some hook) children
    | quote =>
      intro h
      exact Report.isClean_map_iff.mpr (isClean_blockNodes (s.inside tag) children h hstart.2)
    | transparent =>
      intro h
      have hchildren := isClean_blockNodes (s.inside tag) children h hstart.2
      dsimp only
      split
      · exact (Report.isClean_log _).bind fun _ => hchildren
      · exact hchildren
    | list =>
      intro h
      refine hstart.1.bind fun start => Report.isClean_map_iff.mpr ?_
      exact isClean_listLines_of_elementless _ _ _ (List.isEmpty_iff.mp h)
    | table =>
      intro h
      dsimp only
      rw [table_of_elementless _ _ (List.isEmpty_iff.mp h)]
      exact Report.isClean_pure _
    | definitions => exact fun _ => isClean_definitions (some hook) children
    | footnotes => exact fun _ => isClean_footnotes (some hook) children
    | _ => exact fun _ => Report.isClean_pure _

/-- Where the conversion goes on everywhere, the numbers of lists alone can be a fault. -/
theorem isClean_blockNodes (s : Surroundings) : (ns : List Node) → blocksOpen ns = true →
    (∀ e ∈ elementsIn ns, (firstNumber e.1).IsClean) → (blockNodes (some hook) s ns).IsClean
  | [], _, _ => by rw [blockNodes]; exact Report.isClean_pure _
  | n :: r, h, hstart => by
    obtain ⟨hn, hr⟩ := Bool.and_eq_true_iff.mp h
    rw [elementsIn_cons, List.forall_mem_append] at hstart
    rw [blockNodes]
    exact (isClean_blockNode s n hn hstart.1).bind fun _ =>
      (isClean_blockNodes s r hr hstart.2).bind fun _ => Report.isClean_pure _

end

/-! ### The hook -/

/-- **The elements that are shown to a hook.** A hook that leaves all elements to the conversion is
asked about the offered ones, in order, as far as the conversion gets. The offered elements are all
elements of the document, in document order, exactly if the conversion goes on inside every element
that holds others. Then there is an answer, if reading the HTML and the numbers of lists is no
fault. -/
theorem visits_ofHtml (hook : Hook) (hnone : ∀ tag children, hook tag children = none) (t : Text) :
    let nodes := (Html.parse t).value
    let report := ofHtml (some hook) t
    report.visits <+: names (blocksOffered .document nodes) ∧
    ((∃ markdown, report.answer = .ok markdown) →
      report.visits = names (blocksOffered .document nodes)) ∧
    (blocksOffered .document nodes = elementsIn nodes ↔ blocksOpen nodes = true) ∧
    (blocksOpen nodes = true → (Html.parse t).IsClean →
      (∀ e ∈ elementsIn nodes, (firstNumber e.1).IsClean) →
      ∃ markdown, report.answer = .ok markdown) := by
  intro nodes report
  have hshown : report.shown = names (blocksOffered .document nodes) := by
    simp [report, ofHtml, ofNodes, Html.shown_parse, shown_blockNodes hnone, nodes]
  refine ⟨?_, fun hanswer => ?_, blocksOffered_eq_elementsIn_iff _ _, fun hopen hparse hstart => ?_⟩
  · rw [← hshown]
    exact report.visits_prefix_shown
  · rw [← hshown]
    exact (Report.exists_answer_eq_ok_iff.mp hanswer).visits_eq
  · refine Report.exists_answer_eq_ok_iff.mpr (Report.isClean_bind_iff.mpr ⟨hparse, ?_⟩)
    exact Report.isClean_map_iff.mpr (isClean_blockNodes _ _ hopen hstart)

/-- Paragraphs, inline formatting and quotes are walked through: the hook is asked about every
element. -/
theorem visits_ofHtml_in_quote :
    let t := "<div><p>a <b>x <i>y</i></b></p><blockquote><p>z</p></blockquote></div>".toList
    let report := ofHtml (some fun _ _ => none) t
    report.visits = names (elementsIn (Html.parse t).value) ∧
      report.visits = ["div", "p", "b", "i", "blockquote", "p"].map String.toList := by
  intro t report
  obtain ⟨-, hvisits, hall, hanswer⟩ := visits_ofHtml (fun _ _ => none) (fun _ _ => rfl) t
  have hopen : blocksOpen (Html.parse t).value = true := by decide +kernel
  have hparse : (Html.parse t).IsClean := Report.firstFault_eq_none_iff.mp (by decide +kernel)
  have hstart : ∀ e ∈ elementsIn (Html.parse t).value,
      Report.firstFault (firstNumber e.1).notes = none := by decide +kernel
  refine ⟨?_, by decide +kernel⟩
  rw [hvisits (hanswer hopen hparse fun e he => Report.firstFault_eq_none_iff.mp (hstart e he)),
    hall.mpr hopen]

/-- Of a list inside a list the hook sees the outer one only: neither the entries nor the list
inside are offered. -/
theorem inner_list_not_shown :
    let t := "<ul><li>a<ul><li>b</li></ul></li></ul>".toList
    let report := ofHtml (some fun _ _ => none) t
    report.value = "- a\n  - b".toList ∧ report.notes = [.visited "ul".toList] ∧
      names (elementsIn (Html.parse t).value) = ["ul", "li", "ul", "li"].map String.toList := by
  decide +kernel

end FromHtml

end Markdown
