import Markdown.Proofs.RoundTrip

/-!
# A block on its way through HTML

`Canonical.trip` renders a block alone, converts the HTML to Markdown and splits this into blocks
again. What comes back is decided by the lines that the element of the block becomes
(`Canonical.answer_trip_of_lines`), so the modules about the trips of code, tables and lists are about
these lines.
-/

namespace Markdown.Canonical

open Html (Node)
open FromHtml
open Text

/-- A block rendered as HTML, converted back to Markdown, and split into blocks. -/
def trip (shown read : Config) (b : Block) : Report (List Block) := do
  let html ← (shown.rendering Highlight.Registry.builtin .empty).render [b]
  let text ← ofHtml none html
  (Document.tokenize read text .empty).1

variable {b : Block} {n : Node} {ls : List Text} {e : Rendering}

/-- Rendering one block gives its HTML. -/
theorem answer_render_singleton (hnotes : e.references.hasFootnotes = false)
    (hhtml : (e.html b).answer = .ok n.write)
    (hstart : Node.beginWithText [n] = false) : (e.render [b]).answer = .ok n.write := by
  have hne : n.write ≠ [] := by
    cases n with
    | text kind content => cases hstart
    | element tag children =>
      rw [Node.write]
      split <;> simp [Html.Tag.startText]
  have hparts : ([b].mapM e.html).answer = .ok ([b].map fun _ => n.write) :=
    Report.answer_mapM_of_ok fun a ha => List.mem_singleton.mp ha ▸ hhtml
  have hjoined : (Fragments.ofList [n.write]).join ['\n'] = n.write := by
    rw [Fragments.join_ofList (List.forall_mem_singleton.mpr hne), List.intercalate_singleton]
  unfold Rendering.render
  rw [Report.answer_bind_of_ok hparts]
  simp only [hnotes, Bool.false_eq_true, if_false, pure_bind, List.append_nil, List.map_cons,
    List.map_nil, hjoined]
  rfl

/-- The written form of an element becomes what the element becomes. -/
theorem ofHtml_write {t : Text} (hwritten : n.isWritten false = true)
    (hstart : Node.beginWithText [n] = false) (hnode : blockNode none .document n = pure t) :
    ofHtml none n.write = pure (normalize t) := by
  have hparse := Html.parse_writes
    (areWritten_elements (List.forall_mem_singleton.mpr ⟨hwritten, hstart⟩))
  rw [Node.writes, Node.writes, List.append_nil] at hparse
  rw [ofHtml, hparse, pure_bind, ofNodes, blockNodes, hnode, pure_bind, blockNodes, pure_bind,
    map_pure, List.append_nil]

/-- The trip of a block goes by the element that its HTML writes and by what this element becomes. -/
theorem answer_trip {shown : Config} (read : Config) {t : Text}
    (hhtml : ((shown.rendering Highlight.Registry.builtin .empty).html b).answer = .ok n.write)
    (hwritten : n.isWritten false = true) (hstart : Node.beginWithText [n] = false)
    (hnode : blockNode none .document n = pure t) :
    (trip shown read b).answer = (Document.tokenize read (normalize t) .empty).1.answer := by
  rw [trip, Report.answer_bind_of_ok (answer_render_singleton rfl hhtml hstart),
    ofHtml_write hwritten hstart hnode, pure_bind]

/-- Framed lines that are not empty are in normal form. -/
theorem normalize_closeLines (h : Framed ls) (hsolid : AreSolid ls) :
    normalize (closeLines ls) = unlines ls := by
  rw [FromHtml.normalize, dropZeroWidth_eq_self h.mem_closeLines, closeLines,
    replaceBy_unlines_of_areSolid hsolid, replaceBy_end, h.trim_unlines (by decide)]

/-- If the element of a block becomes lines that define nothing, its trip gives what these lines are
split into. -/
theorem answer_trip_of_lines {shown : Config} (read : Config)
    (hhtml : ((shown.rendering Highlight.Registry.builtin .empty).html b).answer = .ok n.write)
    (hwritten : n.isWritten false = true) (hstart : Node.beginWithText [n] = false)
    (hnode : blockNode none .document n = pure (closeLines ls)) (h : Framed ls)
    (hsolid : AreSolid ls) (hkept : ∀ l ∈ ls, isKept l = true) :
    (trip shown read b).answer = (Document.blocks read.structuredData ls).answer := by
  have hne : unlines ls ≠ [] := by
    intro hempty
    have hhead := head?_unlines h.opens
    rw [hempty] at hhead
    cases hhead
  have hclean : ∀ l ∈ ls, '\n' ∉ l ∧ '\r' ∉ l := fun l hl =>
    ⟨(hsolid l hl).2, not_mem_of_printable (by decide) (h.printable l hl)⟩
  have hextract : References.extractLines .empty false ls = (ls, .empty) := by
    simpa [References.extractLines] using extractLines_of_isKept .empty [] hkept
  rw [answer_trip read hhtml hwritten hstart hnode, normalize_closeLines h hsolid,
    answer_tokenize_of_extractLines read hne hclean hextract h.ne_nil (List.Subset.refl _)]

end Markdown.Canonical
