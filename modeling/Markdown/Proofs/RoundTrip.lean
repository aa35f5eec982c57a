import Markdown.Proofs.BlankLines

/-!
# Canonical documents survive HTML

A canonical document is converted to HTML and back without a change
(`Canonical.ofHtml_renderMarkdown`). The document is split into its blocks again, the blocks are
written as HTML with a line feed between each two, the reader gets their elements back, and each
element becomes the lines of its block. What is left is the normal form: it takes away the line feeds
between elements and those at the end.
-/

namespace Markdown.Canonical

open Html (Node Tag)
open FromHtml
open Text

variable {t : Text} {code : Text → Text → List Node} {e : Rendering}

/-! ### Rendering -/

/-- Elements with a line feed between each two. -/
def spaced : List Node → List Node
  | [] => []
  | [n] => [n]
  | n :: m :: r => n :: plain ['\n'] :: spaced (m :: r)

theorem writes_spaced (ns : List Node) :
    Node.writes (spaced ns) = ['\n'].intercalate (ns.map Node.write) := by
  have hnewline : (plain ['\n']).write = ['\n'] := by decide
  fun_induction spaced ns with
  | case1 => rfl
  | case2 n => simp [Node.writes]
  | case3 n m r ih =>
    rw [Node.writes, Node.writes, hnewline, ih, List.map_cons (a := n), List.map_cons (a := m),
      List.intercalate_cons_cons, List.append_assoc]

/-- A line feed is read back as it is. -/
theorem areWritten_spaced {ns : List Node}
    (h : ∀ n ∈ ns, n.isWritten false = true ∧ Node.beginWithText [n] = false) :
    Node.areWritten false (spaced ns) = true ∧
      Node.beginWithText (spaced ns) = false := by
  fun_induction spaced ns with
  | case1 => exact ⟨rfl, rfl⟩
  | case2 n => exact ⟨areWritten_elements h, (h n List.mem_cons_self).2⟩
  | case3 n m r ih =>
    obtain ⟨⟨hn, htext⟩, hr⟩ := List.forall_mem_cons.mp h
    obtain ⟨hwritten, hstart⟩ := ih hr
    have hnewline : (plain ['\n']).isWritten false = true := by decide
    constructor
    · rw [Node.areWritten, hn, htext, Node.areWritten, hnewline, hwritten, hstart]
      rfl
    · cases n with
      | text kind content => cases htext
      | element tag children => rfl

/-- Rendering writes the elements of the blocks. -/
theorem answer_render (hcode : ShowsCode e code) (hnotes : e.references.hasFootnotes = false)
    {bs : List Block} (h : ∀ b ∈ bs, isBlock b = true) :
    (e.render bs).answer = .ok (Node.writes (spaced (nodes code bs))) := by
  have hparts := Report.answer_mapM_of_ok fun b hb => answer_blockHtml hcode e.quotedHtml b (h b hb)
  have hne : ∀ t ∈ bs.map fun b => (node code b).write, t ≠ [] := by
    intro t ht
    obtain ⟨b, hb, rfl⟩ := List.mem_map.mp ht
    have hstart := (isWritten_node hcode b (h b hb)).2
    cases hnode : node code b with
    | text kind content =>
      rw [hnode] at hstart
      cases hstart
    | element tag children =>
      rw [Node.write]
      split <;> simp [Tag.startText]
  unfold Rendering.render
  rw [show (bs.mapM e.html) = bs.mapM (e.blockHtml e.quotedHtml) from rfl,
    Report.answer_bind_of_ok hparts]
  simp only [hnotes, Bool.false_eq_true, if_false, pure_bind, List.append_nil]
  rw [Fragments.join_ofList hne, writes_spaced, nodes_eq_map, List.map_map]
  rfl

/-! ### The normal form -/

/-- What the elements of a document become, with the line feeds between them. -/
def written (bs : List Block) : Text :=
  ['\n'].intercalate (bs.map fun b => closeLines (blockLines b))

theorem blockNodes_spaced (hcode : ShowsCode e code) (s : Surroundings) (hs : s.underHead = false)
    {bs : List Block} (h : ∀ b ∈ bs, isBlock b = true) :
    blockNodes none s (spaced (nodes code bs)) = pure (written bs) := by
  have hnewline : blockNode none s (plain ['\n']) = pure ['\n'] := by
    simp [plain, blockNode, textMarkdown, shows, dropZeroWidth_eq_self]
  induction bs with
  | nil => rfl
  | cons b r ih =>
    obtain ⟨hb, hr⟩ := List.forall_mem_cons.mp h
    have hnode := blockNode_node hcode s hs b hb
    cases r with
    | nil =>
      simp [nodes, spaced, blockNodes, hnode, written]
    | cons c r =>
      have hrest := ih hr
      rw [nodes] at hrest
      rw [nodes, nodes, spaced, blockNodes, hnode, pure_bind, blockNodes, hnewline, pure_bind,
        hrest]
      simp [written, List.intercalate_cons_cons]

theorem written_cons (b : Block) {bs : List Block} (hne : bs ≠ []) :
    written (b :: bs) = unlines (blockLines b) ++ '\n' :: '\n' :: '\n' :: written bs := by
  obtain ⟨c, r, rfl⟩ := List.exists_cons_of_ne_nil hne
  simp [written, closeLines, List.intercalate_cons_cons]

theorem exists_cons_written {b : Block} (h : isBlock b = true) (bs : List Block) :
    ∃ c s, written (b :: bs) = c :: s ∧ c ≠ '\n' := by
  obtain ⟨l, ls, hlines⟩ := List.exists_cons_of_ne_nil ((framed_blockLines b h).ne_nil)
  obtain ⟨c, s, hcons, hc⟩ :=
    exists_cons_unlines (areSolid_blockLines h l (hlines ▸ List.mem_cons_self)) ls
  by_cases hbs : bs = []
  · subst hbs
    exact ⟨c, s ++ ['\n', '\n'], by simp [written, closeLines, hlines, hcons], hc⟩
  · exact ⟨c, s ++ '\n' :: '\n' :: '\n' :: written bs,
      by rw [written_cons b hbs, hlines, hcons, List.cons_append], hc⟩

/-- Blocks stand one empty line apart in the normal form. -/
theorem replaceBy_written {bs : List Block} (hne : bs ≠ []) (h : ∀ b ∈ bs, isBlock b = true) :
    replaceBy blankLinesRule (written bs) = bs.flatMap fun b => closeLines (blockLines b) := by
  induction bs with
  | nil => exact absurd rfl hne
  | cons b r ih =>
    obtain ⟨hb, hr⟩ := List.forall_mem_cons.mp h
    have hsolid := areSolid_blockLines hb
    cases r with
    | nil =>
      have hwritten : written [b] = unlines (blockLines b) ++ ['\n', '\n'] := by
        simp [written, closeLines]
      rw [hwritten, replaceBy_unlines_of_areSolid hsolid, replaceBy_end]
      simp [closeLines]
    | cons c r =>
      obtain ⟨d, s, hcons, hd⟩ := exists_cons_written (hr c List.mem_cons_self) r
      have hgap := replaceBy_newlines 3 (t := d :: s) (by simpa using hd)
      have hrest := ih (by simp) hr
      rw [← hcons] at hgap
      rw [written_cons b (by simp), replaceBy_unlines_of_areSolid hsolid, List.flatMap_cons, ← hrest]
      simpa [closeLines] using hgap

/-- The normal form of what the elements become is the text of the document. -/
theorem normalize_written {bs : List Block} (h : isDocument bs = true) :
    FromHtml.normalize (written bs) = text bs := by
  have hframed := framed_of_isDocument h
  simp only [isDocument, Bool.and_eq_true, Bool.not_eq_true', List.isEmpty_eq_false_iff] at h
  obtain ⟨hne, hblocks⟩ := h
  have hwidth : dropZeroWidth (written bs) = written bs := by
    refine dropZeroWidth_eq_self (forall_mem_intercalate (by simp) fun t ht c hc => ?_)
    obtain ⟨b, hb, rfl⟩ := List.mem_map.mp ht
    exact (framed_blockLines b (isBlock_of_mem hblocks b hb)).mem_closeLines c hc
  rw [FromHtml.normalize, hwidth, replaceBy_written hne (isBlock_of_mem hblocks),
    flatMap_closeLines hne hblocks, closeLines, hframed.trim_unlines (by decide)]
  rfl

/-! ### The round trip -/

/-- **Canonical documents survive HTML.** The text of a canonical document is converted to HTML
without a fault, whatever the configuration, and the conversion from HTML gives the text back. -/
theorem ofHtml_renderMarkdown (c : Config) {bs : List Block} (h : isDocument bs = true) :
    (do
      let html ← (renderMarkdown c Highlight.Registry.builtin .empty (.string (text bs))).1
      ofHtml none html).answer = .ok (text bs) := by
  have hall : areBlocks bs = true := by
    simp only [isDocument, Bool.and_eq_true] at h
    exact h.2
  have hblocks := isBlock_of_mem hall
  have hrendering : (c.rendering Highlight.Registry.builtin .empty).registry =
      Highlight.Registry.builtin := rfl
  obtain ⟨code, hcode⟩ := exists_showsCode hrendering
  have hhtml : (renderMarkdown c Highlight.Registry.builtin .empty (.string (text bs))).1.answer =
      .ok (Node.writes (spaced (nodes code bs))) := by
    have htokens := tokenize_text c .empty h
    unfold renderMarkdown
    rw [Document.tokenizeValue, htokens]
    exact answer_render hcode rfl hblocks
  have hparse : Html.parse (Node.writes (spaced (nodes code bs))) = pure (spaced (nodes code bs)) :=
    Html.parse_writes (areWritten_spaced (isWritten_nodes hcode bs hall)).1
  rw [Report.answer_bind_of_ok hhtml, ofHtml, hparse, pure_bind, ofNodes,
    blockNodes_spaced hcode .document rfl hblocks, map_pure, normalize_written h]
  rfl

/-- A canonical document with a block of every kind. -/
def specimen : List Block :=
  [.heading 2 "Release 7".toList,
   .paragraph "What is new in short".toList,
   .list false 1
     [.mk "parser".toList (some true)
        [.list true 7 [.mk "lists".toList none [], .mk "tables".toList none []]],
      .mk "writer".toList (some false) []],
   .rule,
   .code "json".toList "\x7b\"a\": [1, true]\x7d".toList false,
   .table ["Name".toList, "Size".toList] [some .left, none] [["alpha".toList, "b12".toList]],
   .definitions [⟨"term".toList, ["meaning".toList, "other meaning".toList]⟩],
   .quote "quoted".toList [.paragraph "quoted".toList]]

theorem specimen_roundTrip :
    isDocument specimen = true ∧
      (do
        let html ← (renderMarkdown {} Highlight.Registry.builtin .empty (.string (text specimen))).1
        ofHtml none html).answer = .ok (text specimen) :=
  ⟨by decide +kernel, ofHtml_renderMarkdown {} (by decide +kernel)⟩

/-- Neighbours that do not stay apart run together: two lists of one kind, two definition lists, and
a definition list with a fence in front of what looks like a definition; the fence becomes a term. -/
example :
    [[Block.list false 1 [.mk "a".toList none []], .list false 1 [.mk "b".toList none []]],
     [.definitions [⟨"a".toList, ["b".toList]⟩], .definitions [⟨"c".toList, ["d".toList]⟩]],
     [.definitions [⟨"a".toList, ["b".toList]⟩], .code [] ": c".toList false]].all (fun bs =>
      bs.all isBlock && (do
        let html ← (renderMarkdown {} Highlight.Registry.builtin .empty (.string (text bs))).1
        ofHtml none html).answer ≠ .ok (text bs)) = true := by
  decide +kernel

end Markdown.Canonical
