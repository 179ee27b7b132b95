import LspCpp.MarkupEscape
import LspCpp.LibCopy
import Mathlib.Logic.Relation

/-! The tree of a document and its two renderings. Blocks write their own newlines at the end; `renderBlocks` puts the
blocks of a document one after the other and takes away what is too much of them. -/

namespace LspCpp

open StringRef

/-- The loop of `SplitString`; `word` is the fragment that has been read. -/
def splitString : (word source : Bytes) → List Bytes
  | word, [] => if word.isEmpty then [] else [word]
  | word, c :: rest =>
      if !isSpace c then splitString (word ++ [c]) rest
      else if word.isEmpty then splitString [] rest
      else word :: splitString [] rest

def canonicalizeSpaces (input : Bytes) : Bytes := [32].intercalate (splitString [] input)

/-- Every backtick is doubled. -/
def renderInlineBlock (input : Bytes) : Bytes :=
  let r := input.flatMap fun c => if c == 96 then [96, 96] else [c]
  if startWith [96] r || endWith [96] r then bytesOf "` " ++ r ++ bytesOf " `"
  else if startWith [32] r && endWith [32] r then bytesOf "` " ++ r ++ bytesOf " `"
  else [96] ++ r ++ [96]

inductive ChunkKind
  | plainText
  | inlineCode
  deriving DecidableEq, Repr

/-- `Paragraph::Chunk`. -/
structure Chunk where
  kind : ChunkKind := .plainText
  preserve : Bool := false
  contents : Bytes
  spaceBefore : Bool := false
  spaceAfter : Bool := false
  deriving DecidableEq, Repr

structure Paragraph where
  chunks : List Chunk := []
  deriving DecidableEq, Repr

namespace Paragraph

def appendText (p : Paragraph) (text : Bytes) : Paragraph :=
  let norm := canonicalizeSpaces text
  if norm.isEmpty then p
  else
    ⟨p.chunks ++ [{ contents := norm, spaceBefore := text.head?.any isSpace, spaceAfter := text.getLast?.any isSpace }]⟩

/-- The loop over the chunks in `renderMarkdown`. -/
def markdownChunks : (needsSpace hasChunks : Bool) → List Chunk → Option Bytes
  | _, _, [] => some []
  | needsSpace, hasChunks, c :: rest => do
      let text ← match c.kind with
        | .plainText => renderText c.contents (!hasChunks)
        | .inlineCode => some (renderInlineBlock c.contents)
      let tail ← markdownChunks c.spaceAfter true rest
      some ((if c.spaceBefore || needsSpace then [32] else []) ++ text ++ tail)

def renderMarkdown (p : Paragraph) : Option Bytes :=
  (markdownChunks false false p.chunks).map fun text => text ++ bytesOf "  \n"

/-- The first of the options none of whose bytes is in the text, and the first one if there is none. -/
def chooseMarker (options : List Bytes) (text : Bytes) : Bytes :=
  ((options.find? fun s => text.all fun c => !s.contains c).or options.head?).getD []

/-- The loop over the chunks in `renderPlainText`. -/
def plainTextChunks : (needsSpace : Bool) → List Chunk → Bytes
  | _, [] => []
  | needsSpace, c :: rest =>
      let marker :=
        if c.preserve && c.kind == .inlineCode then chooseMarker [[96], [39], [34]] c.contents else []
      (if c.spaceBefore || needsSpace then [32] else []) ++ marker ++ c.contents ++ marker ++
        plainTextChunks c.spaceAfter rest

def renderPlainText (p : Paragraph) : Bytes := plainTextChunks false p.chunks ++ [10]

end Paragraph

def Heading.renderMarkdown (level : Nat) (p : Paragraph) : Option Bytes :=
  p.renderMarkdown.map fun text => List.replicate level 35 ++ [32] ++ text

/-- One round of the loop of `getMarkerForCodeBlock`, on the most backticks in a row and those read last. Both are
`unsigned`. -/
def countBacktick (counts : Nat × Nat) (c : UInt8) : Nat × Nat :=
  if c == 96 then (counts.1, (counts.2 + 1) % 4294967296) else (max counts.1 counts.2, 0)

def getMarkerForCodeBlock (input : Bytes) : Bytes :=
  let (maxBackticks, backticks) := input.foldl countBacktick (0, 0)
  List.replicate (max 3 ((max backticks maxBackticks + 1) % 4294967296)) 96

namespace CodeBlock

def renderMarkdown (contents language : Bytes) : Bytes :=
  let marker := getMarkerForCodeBlock contents
  marker ++ language ++ [10] ++ contents ++ [10] ++ marker ++ [10]

def renderPlainText (contents : Bytes) : Bytes := [10] ++ contents ++ [10, 10]

end CodeBlock

namespace Ruler

def renderMarkdown : Bytes := bytesOf "\n---\n"

def renderPlainText : Bytes := [10]

end Ruler

/-- The assertion of `indentLines`. -/
def indentLinesAsserts (input : Bytes) : Bool := !endWith [10] input

def indentLines (input : Bytes) : Bytes := input.flatMap fun c => if c == 10 then [c, 32, 32] else [c]

namespace BulletList

/-- `renderMarkdown` of a list whose items are rendered to these texts. -/
def renderMarkdown (items : List Bytes) : Bytes :=
  (items.flatMap fun text => bytesOf "- " ++ indentLines text ++ [10]) ++ [10]

/-- `renderPlainText` of a list whose items are rendered to these texts. -/
def renderPlainText (items : List Bytes) : Bytes :=
  items.flatMap fun text => bytesOf "- " ++ indentLines text ++ [10]

end BulletList

section RenderBlocks

variable {B : Type} (isRuler : B → Bool)

/-- The blocks that the loop of `renderBlocks` renders. -/
def renderLoop : (lastBlockWasRuler : Bool) → List B → List B
  | _, [] => []
  | lastBlockWasRuler, c :: rest =>
      if isRuler c && lastBlockWasRuler then renderLoop lastBlockWasRuler rest else c :: renderLoop (isRuler c) rest

/-- The blocks that are rendered after the rulers were removed. -/
def renderedBlocks (children : List B) : List B := renderLoop isRuler true (children.filter fun c => !isRuler c)

/-- What `renderBlocks` makes of the text in its stream: spaces are trimmed, then a byte is left out if the text up to
it ends in three newlines. -/
def adjustText (os : Bytes) : Bytes := PrefixCopy.copyIf (fun text => !endWith [10, 10, 10] text) [] (trim os)

def renderBlocks (renderFunc : B → Bytes) (children : List B) : Bytes :=
  adjustText ((renderedBlocks isRuler children).flatMap renderFunc)

end RenderBlocks

mutual

inductive Block
  | paragraph (p : Paragraph)
  | heading (level : Nat) (p : Paragraph)
  | codeBlock (contents language : Bytes)
  | ruler
  | bulletList (items : List Document)

inductive Document
  | mk (children : List Block)

end

def Block.isRuler : Block → Bool
  | .ruler => true
  | _ => false

def Document.children : Document → List Block
  | ⟨children⟩ => children

mutual

/-- Nothing stands for a rendering that does not end. -/
def Block.renderMarkdown : Block → Option Bytes
  | .paragraph p => p.renderMarkdown
  | .heading level p => Heading.renderMarkdown level p
  | .codeBlock contents language => some (CodeBlock.renderMarkdown contents language)
  | .ruler => some Ruler.renderMarkdown
  | .bulletList items => (itemsMarkdown items).map BulletList.renderMarkdown

def itemsMarkdown : List Document → Option (List Bytes)
  | [] => some []
  | d :: rest => do
      let text ← d.asMarkdown
      let texts ← itemsMarkdown rest
      some (text :: texts)

/-- `renderBlocks` with `renderMarkdown`; the renderings of the children stand for the children. -/
def Document.asMarkdown : Document → Option Bytes
  | ⟨children⟩ => (childrenMarkdown children).map (renderBlocks Prod.fst Prod.snd)

def childrenMarkdown : List Block → Option (List (Bool × Bytes))
  | [] => some []
  | b :: rest => do
      let text ← b.renderMarkdown
      let texts ← childrenMarkdown rest
      some ((b.isRuler, text) :: texts)

end

mutual

def Block.renderPlainText : Block → Bytes
  | .paragraph p => p.renderPlainText
  | .heading _ p => p.renderPlainText
  | .codeBlock contents _ => CodeBlock.renderPlainText contents
  | .ruler => Ruler.renderPlainText
  | .bulletList items => BulletList.renderPlainText (itemsPlainText items)

def itemsPlainText : List Document → List Bytes
  | [] => []
  | d :: rest => d.asPlainText :: itemsPlainText rest

/-- `renderBlocks` with `renderPlainText`. -/
def Document.asPlainText : Document → Bytes
  | ⟨children⟩ => renderBlocks Prod.fst Prod.snd (childrenPlainText children)

def childrenPlainText : List Block → List (Bool × Bytes)
  | [] => []
  | b :: rest => (b.isRuler, b.renderPlainText) :: childrenPlainText rest

end

/-! ### Fragments in canonical form -/

theorem splitString_words {word : Bytes} (hword : ∀ c ∈ word, isSpace c = false) (source : Bytes) :
    ∀ w ∈ splitString word source, w ≠ [] ∧ ∀ c ∈ w, isSpace c = false := by
  induction source generalizing word with
  | nil =>
      intro w hw
      rw [splitString] at hw
      split at hw
      · cases hw
      · rename_i hne
        rw [List.mem_singleton.mp hw]
        exact ⟨by simpa using hne, hword⟩
  | cons c rest ih =>
      have hnil := @ih [] (by simp)
      rw [splitString]
      split
      · rename_i hc
        apply ih
        intro d hd
        rcases List.mem_append.mp hd with hd | hd
        · exact hword d hd
        · rw [List.mem_singleton.mp hd]
          simpa using hc
      · split
        · exact hnil
        · rename_i hne
          intro w hw
          rcases List.mem_cons.mp hw with rfl | hw
          · exact ⟨by simpa using hne, hword⟩
          · exact hnil w hw

theorem canonicalSpaces_canonicalizeSpaces (input : Bytes) : CanonicalSpaces (canonicalizeSpaces input) :=
  ⟨splitString [] input, splitString_words (by simp) input, rfl⟩

section RenderBlocks

variable {B : Type} {isRuler : B → Bool}

theorem renderLoop_eq_self {children : List B} (h : ∀ c ∈ children, isRuler c = false) (lastBlockWasRuler : Bool) :
    renderLoop isRuler lastBlockWasRuler children = children := by
  induction children generalizing lastBlockWasRuler with
  | nil => rfl
  | cons c rest ih =>
      have hc := h c (List.mem_cons_self ..)
      have hrest := ih (fun d hd => h d (List.mem_cons_of_mem _ hd)) false
      simp only [renderLoop, hc, Bool.false_and, Bool.false_eq_true, if_false, hrest]

/-- No ruler is rendered: the loop runs over what is left after all of them were removed. -/
theorem renderedBlocks_eq_filter (isRuler : B → Bool) (children : List B) :
    renderedBlocks isRuler children = children.filter fun c => !isRuler c := by
  apply renderLoop_eq_self
  intro c hc
  simpa using (List.mem_filter.mp hc).2

theorem renderBlocks_eq (renderFunc : B → Bytes) (children : List B) :
    renderBlocks isRuler renderFunc children =
      adjustText ((children.filter fun c => !isRuler c).map renderFunc).flatten := by
  rw [renderBlocks, renderedBlocks_eq_filter, List.flatMap_def]

theorem renderBlocks_map (renderFunc : B → Bytes) (children : List B) :
    renderBlocks Prod.fst Prod.snd (children.map fun c => (isRuler c, renderFunc c)) =
      renderBlocks isRuler renderFunc children := by
  rw [renderBlocks_eq, renderBlocks_eq, List.filter_map, List.map_map]
  rfl

end RenderBlocks

/-- The newline at the end of a text is neither trimmed nor left out. -/
theorem adjustText_ends {os : Bytes} (h : [10] <:+ os) : [10] <:+ adjustText os := by
  obtain ⟨text, rfl⟩ := h
  obtain ⟨before, hleft⟩ := @trimLeft_append_cons 32 10 (by decide) text []
  have htrim : trim (text ++ [10]) = before ++ [10] := by
    rw [trim, hleft]
    exact trimRight_eq_self (by rw [List.getLast?_concat]; decide)
  refine (PrefixCopy.copyIf_ends_iff (n := 2) (by decide) _).mpr ?_
  rw [htrim]
  exact List.suffix_append _ _

/-- Three newlines in a row are nowhere in what is left. -/
theorem adjustText_newlines (os : Bytes) : ¬ [10, 10, 10] <:+: adjustText os :=
  (PrefixCopy.sameRun_copyIf 10 2 (trim os)).2

/-- A stretch between two bytes other than the space and the newline that has no three newlines in a row is left as it
is. -/
theorem adjustText_stretch {x y : UInt8} (hx : x ≠ 32) (hx' : x ≠ 10) (hy : y ≠ 32) {middle os : Bytes}
    (hfree : ¬ [10, 10, 10] <:+: x :: (middle ++ [y])) (h : x :: (middle ++ [y]) <:+: os) :
    x :: (middle ++ [y]) <:+: adjustText os := by
  obtain ⟨before, rest, rfl⟩ := h
  obtain ⟨before', rest', htrim⟩ := trim_stretch hx hy before middle rest
  have hparts : trim (before ++ x :: (middle ++ [y]) ++ rest) = before' ++ x :: (middle ++ [y]) ++ rest' := by
    have hin : before ++ x :: (middle ++ [y]) ++ rest = before ++ x :: (middle ++ y :: rest) := by simp
    rw [hin, htrim]
    simp
  have hrun : ¬ List.replicate (2 + 1) 10 <:+: x :: (middle ++ [y]) := hfree
  have hcopy : PrefixCopy.copyIf (PrefixCopy.atMost 10 2) before' (x :: (middle ++ [y])) = x :: (middle ++ [y]) :=
    PrefixCopy.copyIf_stretch hx' hrun before'
  have hadjust : adjustText (before ++ x :: (middle ++ [y]) ++ rest) =
      PrefixCopy.copyIf (PrefixCopy.atMost 10 2) [] (before' ++ x :: (middle ++ [y]) ++ rest') := by
    rw [← hparts]
    rfl
  rw [hadjust, PrefixCopy.copyIf_append, PrefixCopy.copyIf_append, List.nil_append, hcopy]
  exact ⟨_, _, rfl⟩

/-- What `renderMarkdown` writes if it ends. -/
def Block.markdown (b : Block) : Bytes := b.renderMarkdown.getD []

theorem childrenMarkdown_eq (children : List Block) :
    childrenMarkdown children =
      if children.all fun b => b.renderMarkdown.isSome then some (children.map fun b => (b.isRuler, b.markdown))
      else none := by
  induction children with
  | nil => rfl
  | cons b rest ih =>
      rw [childrenMarkdown, ih, List.all_cons, List.map_cons, Block.markdown]
      cases b.renderMarkdown with
      | none => rfl
      | some text =>
          by_cases hrest : rest.all fun b => b.renderMarkdown.isSome
          · simp [hrest]
          · simp [hrest]

theorem childrenPlainText_eq (children : List Block) :
    childrenPlainText children = children.map fun b => (b.isRuler, b.renderPlainText) := by
  induction children with
  | nil => rfl
  | cons b rest ih => rw [childrenPlainText, ih, List.map_cons]

theorem itemsMarkdown_isSome_iff (items : List Document) :
    (itemsMarkdown items).isSome ↔ ∀ d ∈ items, d.asMarkdown.isSome := by
  induction items with
  | nil => simp [itemsMarkdown]
  | cons d rest ih =>
      rw [itemsMarkdown, List.forall_mem_cons, ← ih]
      cases d.asMarkdown <;> cases itemsMarkdown rest <;> simp

namespace Document

theorem asMarkdown_eq (d : Document) :
    d.asMarkdown =
      if d.children.all fun b => b.renderMarkdown.isSome then
        some (renderBlocks Block.isRuler Block.markdown d.children)
      else none := by
  obtain ⟨children⟩ := d
  rw [asMarkdown, childrenMarkdown_eq]
  show Option.map _ _ = ite (children.all _ = true) _ _
  split
  · rw [Option.map_some, renderBlocks_map]
    rfl
  · rfl

theorem asPlainText_eq (d : Document) :
    d.asPlainText = renderBlocks Block.isRuler Block.renderPlainText d.children := by
  obtain ⟨children⟩ := d
  rw [asPlainText, childrenPlainText_eq, renderBlocks_map]
  rfl

/-- The item stands in a list of the document. -/
def HasItem (d item : Document) : Prop := ∃ items, .bulletList items ∈ d.children ∧ item ∈ items

/-- Induction over the items of a document. -/
theorem induction {motive : Document → Prop} (h : ∀ d : Document, (∀ item, d.HasItem item → motive item) → motive d)
    (d : Document) : motive d := by
  refine @Document.rec (fun b => ∀ items, b = .bulletList items → ∀ item ∈ items, motive item) motive
    (fun items => ∀ item ∈ items, motive item)
    (fun children => ∀ items, .bulletList items ∈ children → ∀ item ∈ items, motive item)
    ?_ ?_ ?_ ?_ ?_ ?_ ?_ ?_ ?_ ?_ d
  · intro p items heq
    cases heq
  · intro level p items heq
    cases heq
  · intro contents language items heq
    cases heq
  · intro items heq
    cases heq
  · intro items ih items' heq
    cases heq
    exact ih
  · rintro children ih
    exact h ⟨children⟩ fun item ⟨items, hmem, hitem⟩ => ih items hmem item hitem
  · intro item hitem
    cases hitem
  · intro item rest hitem hrest e he
    rcases List.mem_cons.mp he with rfl | he
    · exact hitem
    · exact hrest e he
  · intro items hmem
    cases hmem
  · intro b rest hb hrest items hmem
    rcases List.mem_cons.mp hmem with heq | hmem
    · exact hb items heq.symm
    · exact hrest items hmem

end Document

end LspCpp
